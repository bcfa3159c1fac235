import Mathlib.Algebra.BigOperators.Group.Finset.Basic
import MessageServer.Store.LinkBoxHistory

/-! # The sweep pass

A pass runs batches of the link box sweep until one reaches neither of its
bounds, the lock is held, or its budget is spent. Every batch that goes on has
deleted a full bound of deposits or of boxes, so what was due when the pass
started bounds its batches.
-/

namespace MessageServer.Sweep

open Store MemoryBoxes Finset

def defaultMaxBatches : ℕ := 50

def defaultBudget : ℤ := 20000000000

inductive SweepError
  | noLinkBoxes | contextEnded
  deriving DecidableEq, Repr

/-- A store to sweep: whether the context has ended, the time and the bounds of a batch. -/
abbrev LinkBoxSweeper (σ : Type) : Type :=
  Bool → Time → LinkBoxSweepBounds → σ → σ × Except SweepError LinkBoxesSwept

structure Config (σ : Type) where
  linkBoxes : Option (LinkBoxSweeper σ)
  bounds : LinkBoxSweepBounds
  maxBatches : ℤ
  budget : ℤ

structure Job (σ : Type) where
  linkBoxes : LinkBoxSweeper σ
  bounds : LinkBoxSweepBounds
  maxBatches : ℕ
  budget : ℤ

structure Totals where
  batches : ℕ := 0
  deposits : ℕ := 0
  boxes : ℕ := 0
  skipped : Bool := false
  deriving DecidableEq

inductive Ended
  | finished | skipped | batches | budget
  deriving DecidableEq, Repr

/-- What a pass reads in turn: the clock at its start and before every batch, and its context. -/
structure Readings where
  clock : ℕ → Time
  ended : ℕ → Bool

structure Outcome (σ : Type) where
  store : σ
  totals : Totals
  ended : Except SweepError Ended

def Totals.add (totals : Totals) (swept : LinkBoxesSwept) : Totals :=
  { totals with
    batches := totals.batches + 1
    deposits := (totals.deposits + swept.deposits) % 2 ^ 64
    boxes := (totals.boxes + swept.boxes) % 2 ^ 64 }

namespace Job

variable {σ : Type}

def new (config : Config σ) : Except SweepError (Job σ) :=
  match config.linkBoxes with
  | none => .error .noLinkBoxes
  | some linkBoxes => .ok {
      linkBoxes
      bounds := config.bounds.orDefault
      maxBatches := if config.maxBatches ≤ 0 then defaultMaxBatches else config.maxBatches.toNat
      budget := if config.budget ≤ 0 then defaultBudget else config.budget }

def passFrom (job : Job σ) (readings : Readings) : ℕ → σ → Totals → Outcome σ
  | 0, s, totals => ⟨s, totals, .ok .batches⟩
  | remaining + 1, s, totals =>
    if totals.batches ≠ 0 ∧ job.budget ≤ readings.clock (2 * totals.batches) - readings.clock 0 then
      ⟨s, totals, .ok .budget⟩
    else if readings.ended (2 * totals.batches) then ⟨s, totals, .error .contextEnded⟩
    else
      match job.linkBoxes (readings.ended (2 * totals.batches + 1))
          (readings.clock (2 * totals.batches + 1)) job.bounds s with
      | (s, .error e) => ⟨s, totals, .error e⟩
      | (s, .ok swept) =>
        if swept.skipped then ⟨s, { totals with skipped := true }, .ok .skipped⟩
        else if swept.deposits < job.bounds.deposits ∧ swept.boxes < job.bounds.boxes then
          ⟨s, totals.add swept, .ok .finished⟩
        else job.passFrom readings remaining s (totals.add swept)

def pass (job : Job σ) (readings : Readings) (s : σ) : Outcome σ :=
  job.passFrom readings job.maxBatches s {}

end Job

def memorySweeper : LinkBoxSweeper MemoryBoxes := fun ended now bounds s =>
  if ended then (s, .error .contextEnded)
  else
    let next := s.sweepLinkBoxes now bounds
    (next.1, .ok next.2)

/-- What a batch did at its time: its two statements deleted the rows they were due. -/
structure Batch (now : Time) (before after : MemoryBoxes) (deposits : List LinkDepositRow)
    (boxes : List LinkBoxRow) : Prop where
  statements : after = (before.sweepDeposits deposits).deleteBoxes (boxes.map (·.rendezvousId))
  deposits_deleted : before.deposits.Perm (deposits ++ (before.sweepDeposits deposits).deposits)
  boxes_deleted : (before.sweepDeposits deposits).boxes.rows.Perm (boxes ++ after.boxes.rows)
  deposits_due : ∀ d ∈ before.deposits, d ∉ after.deposits → d.pruneAfter ≤ now
  boxes_due : ∀ row ∈ before.boxes.rows,
    after.boxes.find row.rendezvousId = none → row.reclaimAfter ≤ now

def depositsDue (s : MemoryBoxes) (t : Time) : ℕ := s.deposits.countP fun d => d.pruneAfter ≤ t

def boxesDue (s : MemoryBoxes) (t : Time) : ℕ := s.boxes.rows.countP fun row => row.reclaimAfter ≤ t

section Batches

variable {α : Type} {le : α → α → Bool} {bound : ℕ} {due : List α}

theorem batchOf_subperm : (batchOf le bound due).Subperm due := by
  unfold batchOf
  dsimp only
  split
  · exact ((List.take_sublist _ _).subperm).trans (List.mergeSort_perm due le).subperm
  · exact (List.mergeSort_perm due le).subperm

theorem length_batchOf (hd : due.length < 2 ^ 32) :
    (batchOf le bound due).length = min bound due.length := by
  unfold batchOf
  dsimp only
  rw [List.length_mergeSort, Nat.mod_eq_of_lt hd]
  split
  · rw [List.length_take, List.length_mergeSort]
  · rw [List.length_mergeSort]
    omega

theorem countP_batchOf {p q : α → Bool} (h : ∀ x, q x = true → p x = true) :
    (batchOf le bound (due.filter q)).countP p = (batchOf le bound (due.filter q)).length :=
  List.countP_eq_length.mpr fun x hx => h x (List.mem_filter.mp (mem_of_mem_batchOf hx)).2

end Batches

theorem perm_append_filter {ρ κ : Type} {key : ρ → κ} (t : Table key) {rows : List ρ}
    {p : ρ → Bool} (h : rows.Subperm t.rows) (hp : ∀ r, p r = true ↔ key r ∉ rows.map key) :
    t.rows.Perm (rows ++ (t.filter p).rows) := by
  have hn : t.rows.Nodup := t.nodup.of_map
  have hrw : rows.Nodup := by
    obtain ⟨l, hpr, hsb⟩ := h
    exact hpr.nodup_iff.mp (hn.sublist hsb)
  apply (List.perm_ext_iff_of_nodup hn ?_).mpr
  · intro r
    simp only [Table.filter, List.mem_append, List.mem_filter, hp]
    constructor
    · intro hr
      by_cases hk : key r ∈ rows.map key
      · obtain ⟨r', hr', hs⟩ := List.mem_map.mp hk
        rw [← t.eq_of_key (h.subset hr') hr hs]
        exact .inl hr'
      · exact .inr ⟨hr, hk⟩
    · rintro (hr | ⟨hr, -⟩)
      · exact h.subset hr
      · exact hr
  · apply List.Nodup.append hrw (hn.filter _)
    intro r hr hr'
    have hk : key r ∉ rows.map key := (hp r).mp (List.mem_filter.mp hr').2
    exact hk (List.mem_map_of_mem hr)

section Sweep

variable {s : MemoryBoxes} {now : Time} {bounds : LinkBoxSweepBounds}

def pruned (s : MemoryBoxes) (now : Time) (bounds : LinkBoxSweepBounds) : List LinkDepositRow :=
  s.dueDeposits (linkBoxTime now) bounds.orDefault.deposits

def reclaimed (s : MemoryBoxes) (now : Time) (bounds : LinkBoxSweepBounds) : List LinkBoxRow :=
  (s.sweepDeposits (pruned s now bounds)).dueBoxes (linkBoxTime now) bounds.orDefault.boxes

theorem pruned_subperm : (pruned s now bounds).Subperm s.deposits :=
  batchOf_subperm.trans List.filter_sublist.subperm

theorem reclaimed_subperm :
    (reclaimed s now bounds).Subperm (s.sweepDeposits (pruned s now bounds)).boxes.rows :=
  batchOf_subperm.trans List.filter_sublist.subperm

theorem sweepLinkBoxes_batch (hs : s.Sound) : Batch now s (s.sweepLinkBoxes now bounds).1
    (pruned s now bounds) (reclaimed s now bounds) where
  statements := rfl
  deposits_deleted :=
    (List.subperm_append_diff_self_of_count_le
      (List.subperm_ext_iff.mp pruned_subperm)).symm
  boxes_deleted := perm_append_filter _ reclaimed_subperm fun _ => decide_eq_true_iff
  deposits_due := by
    intro d hd hg
    have hl := sweepLinkBoxes_life (fun bytes => bytes) s now bounds (.swept {}) d.rendezvousId
    rcases hl.mem_or_ends (hs _) rfl (mem_view.mpr hd) with hm | he
    · exact (hg (mem_view.mp hm)).elim
    · exact Int.le_trans he (linkBoxTime_le now)
  boxes_due := by
    intro row hr hg
    have hl := sweepLinkBoxes_life (fun bytes => bytes) s now bounds (.swept {}) row.rendezvousId
    have hb : (s.view row.rendezvousId).row = some row := Table.find_key hr
    have ha : ((s.sweepLinkBoxes now bounds).1.view row.rendezvousId).row = none := hg
    generalize s.view row.rendezvousId = v at hl hb
    generalize (s.sweepLinkBoxes now bounds).1.view row.rendezvousId = v' at hl ha
    cases hl with
    | idle => cases hb.symm.trans ha
    | pruned row' =>
      obtain rfl : row' = some row := hb
      cases ha
    | reclaimed row' ds hdu =>
      cases hb
      exact Int.le_trans hdu (linkBoxTime_le now)

end Sweep

namespace Batch

variable {now t : Time} {s s' : MemoryBoxes} {deposits : List LinkDepositRow}
  {boxes : List LinkBoxRow}

theorem countP_deposits (h : Batch now s s' deposits boxes) (p : LinkDepositRow → Bool) :
    s'.deposits.countP p + deposits.countP p ≤ s.deposits.countP p := by
  rw [h.deposits_deleted.countP_eq, List.countP_append, h.statements, Nat.add_comm]
  exact Nat.add_le_add_left List.filter_sublist.countP_le _

theorem countP_boxes (h : Batch now s s' deposits boxes) (p : Time → Bool) :
    s'.boxes.rows.countP (fun row => p row.reclaimAfter) +
      boxes.countP (fun row => p row.reclaimAfter) =
        s.boxes.rows.countP fun row => p row.reclaimAfter := by
  have hm : (s.sweepDeposits deposits).boxes.rows.countP (fun row => p row.reclaimAfter) =
      s.boxes.rows.countP fun row => p row.reclaimAfter := by
    simp only [sweepDeposits, Table.map, List.countP_map]
    apply List.countP_congr
    intro row _
    simp only [Function.comp_apply]
    split <;> rfl
  rw [← hm, h.boxes_deleted.countP_eq, List.countP_append, Nat.add_comm]

end Batch

section Run

variable (clock : ℕ → Time) (bounds : LinkBoxSweepBounds) (s : MemoryBoxes)

def states : ℕ → MemoryBoxes
  | 0 => s
  | k + 1 => ((states k).sweepLinkBoxes (clock (2 * k + 1)) bounds).1

def answer (k : ℕ) : LinkBoxesSwept :=
  ((states clock bounds s k).sweepLinkBoxes (clock (2 * k + 1)) bounds).2

def Reached (k : ℕ) : Prop :=
  bounds.deposits ≤ (answer clock bounds s k).deposits ∨
    bounds.boxes ≤ (answer clock bounds s k).boxes

/-- The store and the totals of a pass are those of its batches. -/
structure Ran (out : MemoryBoxes) (totals : Totals) : Prop where
  store : out = states clock bounds s totals.batches
  deposits : totals.deposits =
    (∑ k ∈ range totals.batches, (answer clock bounds s k).deposits) % 2 ^ 64
  boxes : totals.boxes = (∑ k ∈ range totals.batches, (answer clock bounds s k).boxes) % 2 ^ 64

/-- How a pass ended: every batch but the last reached a bound, and the last one did not if the
pass finished. -/
structure Stopped (out : MemoryBoxes) (totals : Totals) (ended : Ended) : Prop where
  ran : Ran clock bounds s out totals
  pos : 0 < totals.batches
  reached : ∀ k, k + 1 < totals.batches → Reached clock bounds s k
  finished : ended = .finished → ¬ Reached clock bounds s (totals.batches - 1)

variable {clock bounds s} {out : MemoryBoxes} {job : Job MemoryBoxes} {ended : Ended}

theorem Ran.add {totals : Totals} (h : Ran clock bounds s out totals) :
    Ran clock bounds s (states clock bounds s (totals.batches + 1))
      (totals.add (answer clock bounds s totals.batches)) where
  store := rfl
  deposits := by
    simp only [Totals.add, h.deposits, sum_range_succ, Nat.mod_add_mod]
  boxes := by
    simp only [Totals.add, h.boxes, sum_range_succ, Nat.mod_add_mod]

/-- The loop of a pass over the link boxes in memory. -/
theorem passFrom_stopped (hj : job.linkBoxes = memorySweeper) (readings : Readings) (remaining : ℕ)
    {totals : Totals} (hrn : Ran readings.clock job.bounds s out totals)
    (hr : ∀ k < totals.batches, Reached readings.clock job.bounds s k)
    (hp : 0 < totals.batches + remaining)
    (he : (job.passFrom readings remaining out totals).ended = .ok ended) :
    Stopped readings.clock job.bounds s (job.passFrom readings remaining out totals).store
      (job.passFrom readings remaining out totals).totals ended ∧
    (job.passFrom readings remaining out totals).totals.batches ≤ totals.batches + remaining := by
  induction remaining generalizing out totals with
  | zero =>
    cases he
    refine ⟨⟨hrn, hp, fun k hk => hr k (Nat.lt_of_succ_lt hk), ?_⟩, Nat.le_refl _⟩
    rintro ⟨⟩
  | succ remaining ih =>
    unfold Job.passFrom at he ⊢
    split at he
    next hb =>
      rw [if_pos hb]
      cases he
      refine ⟨⟨hrn, Nat.pos_of_ne_zero hb.1,
        fun k hk => hr k (Nat.lt_of_succ_lt hk), ?_⟩, Nat.le_add_right ..⟩
      rintro ⟨⟩
    next hb =>
      rw [if_neg hb]
      split at he
      · cases he
      next hc =>
        rw [if_neg hc]
        simp only [hj, memorySweeper] at he ⊢
        cases hs : readings.ended (2 * totals.batches + 1) with
        | true =>
          simp only [hs, if_true] at he
          cases he
        | false =>
          have hsw : out.sweepLinkBoxes (readings.clock (2 * totals.batches + 1)) job.bounds =
              (states readings.clock job.bounds s (totals.batches + 1),
                answer readings.clock job.bounds s totals.batches) := by
            rw [hrn.store]
            rfl
          have hsk : (answer readings.clock job.bounds s totals.batches).skipped = false := rfl
          simp only [hs, hsw, hsk, Bool.false_eq_true, if_false] at he ⊢
          split at he
          next hn =>
            rw [if_pos hn]
            cases he
            refine ⟨⟨hrn.add, Nat.succ_pos _, fun k hk => hr k (Nat.lt_of_succ_lt_succ hk),
              ?_⟩, Nat.add_le_add_left (Nat.succ_pos _) _⟩
            rintro - (hd | hbx)
            · exact Nat.not_le_of_lt hn.1 hd
            · exact Nat.not_le_of_lt hn.2 hbx
          next hn =>
            rw [if_neg hn]
            have hl : Reached readings.clock job.bounds s totals.batches := by
              by_cases hd : (answer readings.clock job.bounds s totals.batches).deposits <
                  job.bounds.deposits
              · exact .inr (Nat.le_of_not_lt fun hbx => hn ⟨hd, hbx⟩)
              · exact .inl (Nat.le_of_not_lt hd)
            have hnx := ih hrn.add (fun k hk => by
              rcases Nat.lt_succ_iff_lt_or_eq.mp hk with hk | rfl
              · exact hr k hk
              · exact hl) (Nat.add_pos_left (Nat.succ_pos _) _) he
            exact ⟨hnx.1, Nat.le_trans hnx.2 (Nat.le_of_eq (Nat.succ_add_eq_add_succ _ _))⟩

theorem pass_stopped (hj : job.linkBoxes = memorySweeper) (hb : 0 < job.maxBatches)
    {readings : Readings} (he : (job.pass readings s).ended = .ok ended) :
    Stopped readings.clock job.bounds s (job.pass readings s).store (job.pass readings s).totals
        ended ∧ (job.pass readings s).totals.batches ≤ job.maxBatches := by
  have hr : Ran readings.clock job.bounds s s {} := ⟨rfl, rfl, rfl⟩
  obtain ⟨hs, hle⟩ := passFrom_stopped hj readings job.maxBatches hr
    (fun k hk => (Nat.not_lt_zero k hk).elim) (Nat.add_pos_right 0 hb) he
  exact ⟨hs, Nat.le_trans hle (Nat.le_of_eq (Nat.zero_add _))⟩

theorem states_sound (hs : s.Sound) (k : ℕ) : (states clock bounds s k).Sound := by
  induction k with
  | zero => exact hs
  | succ k ih => exact perform_sound (fun bytes => bytes) ih (.sweep (clock (2 * k + 1)) bounds)

theorem states_shaped (hs : s.Shaped) (k : ℕ) : (states clock bounds s k).Shaped := by
  induction k with
  | zero => exact hs
  | succ k ih =>
    exact @perform_shaped (fun bytes => bytes) _ ih (.sweep (clock (2 * k + 1)) bounds)

variable (clock bounds s)

/-- The rows of the first statement of a batch of a pass. -/
def prunedAt (k : ℕ) : List LinkDepositRow :=
  pruned (states clock bounds s k) (clock (2 * k + 1)) bounds

/-- The rows of the second statement of a batch of a pass. -/
def reclaimedAt (k : ℕ) : List LinkBoxRow :=
  reclaimed (states clock bounds s k) (clock (2 * k + 1)) bounds

theorem states_batch {s : MemoryBoxes} (hs : s.Sound) (k : ℕ) :
    Batch (clock (2 * k + 1)) (states clock bounds s k) (states clock bounds s (k + 1))
      (prunedAt clock bounds s k) (reclaimedAt clock bounds s k) :=
  sweepLinkBoxes_batch (states_sound hs k)

theorem add_sum_le {f a : ℕ → ℕ} (h : ∀ k, f (k + 1) + a k ≤ f k) (n : ℕ) :
    f n + ∑ k ∈ range n, a k ≤ f 0 := by
  induction n with
  | zero => exact Nat.le_refl _
  | succ n ih =>
    have hst := h n
    rw [sum_range_succ]
    omega

theorem sum_pruned_le {s : MemoryBoxes} (hs : s.Sound) (n : ℕ) :
    (states clock bounds s n).deposits.length +
      ∑ k ∈ range n, (prunedAt clock bounds s k).length ≤ s.deposits.length :=
  add_sum_le (f := fun k => (states clock bounds s k).deposits.length) (fun k => by
    simpa using (states_batch clock bounds hs k).countP_deposits fun _ => true) n

theorem sum_reclaimed_le {s : MemoryBoxes} (hs : s.Sound) (n : ℕ) :
    (states clock bounds s n).boxes.rows.length +
      ∑ k ∈ range n, (reclaimedAt clock bounds s k).length ≤ s.boxes.rows.length :=
  add_sum_le (f := fun k => (states clock bounds s k).boxes.rows.length) (fun k => by
    simpa using ((states_batch clock bounds hs k).countP_boxes fun _ => true).le) n

variable {clock bounds s} {now t : Time}

theorem quota_step {m m' a n n' b quota quota' : ℕ} (hq : quota ≠ 0) (hq' : quota' ≠ 0)
    (hm : m' + a ≤ m) (hn : n' + b ≤ n) (h : quota ≤ a ∨ quota' ≤ b) :
    m' / quota + n' / quota' + 1 ≤ m / quota + n / quota' := by
  have hle : m' / quota ≤ m / quota := Nat.div_le_div_right (by omega)
  have hle' : n' / quota' ≤ n / quota' := Nat.div_le_div_right (by omega)
  rcases h with h | h
  · have hlt : (m' + quota) / quota ≤ m / quota := Nat.div_le_div_right (by omega)
    rw [Nat.add_div_right _ (Nat.pos_of_ne_zero hq)] at hlt
    omega
  · have hlt : (n' + quota') / quota' ≤ n / quota' := Nat.div_le_div_right (by omega)
    rw [Nat.add_div_right _ (Nat.pos_of_ne_zero hq')] at hlt
    omega

theorem pruned_due (h : linkBoxTime now ≤ t) :
    (pruned s now bounds).countP (fun d => d.pruneAfter ≤ t) = (pruned s now bounds).length :=
  countP_batchOf fun _ hd => decide_eq_true (Int.le_trans (of_decide_eq_true hd) h)

theorem reclaimed_due (h : linkBoxTime now ≤ t) :
    (reclaimed s now bounds).countP (fun row => row.reclaimAfter ≤ t) =
      (reclaimed s now bounds).length :=
  countP_batchOf fun _ hr => decide_eq_true (Int.le_trans (of_decide_eq_true hr) h)

theorem reached_le (hs : s.Sound) (hd : bounds.deposits ≠ 0) (hbx : bounds.boxes ≠ 0)
    {t : Time} {n : ℕ} (ht : ∀ k < n, clock (2 * k + 1) ≤ t)
    (hrc : ∀ k < n, Reached clock bounds s k) :
    n + depositsDue (states clock bounds s n) t / bounds.deposits +
        boxesDue (states clock bounds s n) t / bounds.boxes ≤
      depositsDue s t / bounds.deposits + boxesDue s t / bounds.boxes := by
  induction n with
  | zero => simp [states]
  | succ n ih =>
    have ih := ih (fun k hk => ht k (Nat.lt_succ_of_lt hk)) fun k hk => hrc k (Nat.lt_succ_of_lt hk)
    have hb := states_batch clock bounds hs n
    have hp := hb.countP_deposits fun d => d.pruneAfter ≤ t
    have hr := hb.countP_boxes fun time => time ≤ t
    have ht := Int.le_trans (linkBoxTime_le _) (ht n (Nat.lt_succ_self n))
    rw [prunedAt, pruned_due ht] at hp
    rw [reclaimedAt, reclaimed_due ht] at hr
    have hl : bounds.deposits ≤ (pruned (states clock bounds s n) _ bounds).length ∨
        bounds.boxes ≤ (reclaimed (states clock bounds s n) _ bounds).length :=
      (hrc n (Nat.lt_succ_self n)).imp (fun h => Nat.le_trans h (Nat.mod_le ..))
        fun h => Nat.le_trans h (Nat.mod_le ..)
    have hst := quota_step hd hbx hp (Nat.le_of_eq hr) hl
    unfold depositsDue boxesDue at ih ⊢
    omega

theorem orDefault_ne_zero (bounds : LinkBoxSweepBounds) :
    bounds.orDefault.deposits ≠ 0 ∧ bounds.orDefault.boxes ≠ 0 := by
  unfold LinkBoxSweepBounds.orDefault
  dsimp only
  constructor <;> split
  · decide
  · assumption
  · decide
  · assumption

theorem orDefault_orDefault (bounds : LinkBoxSweepBounds) :
    bounds.orDefault.orDefault = bounds.orDefault := by
  obtain ⟨hd, hb⟩ := orDefault_ne_zero bounds
  generalize bounds.orDefault = bounds at hd hb
  unfold LinkBoxSweepBounds.orDefault
  rw [if_neg hd, if_neg hb]

theorem new_eq_ok {maxBatches budget : ℤ}
    (h : Job.new ⟨some memorySweeper, bounds, maxBatches, budget⟩ = .ok job) :
    job.linkBoxes = memorySweeper ∧ job.bounds = bounds.orDefault ∧ 0 < job.maxBatches := by
  cases h
  refine ⟨rfl, rfl, ?_⟩
  dsimp only
  split
  · decide
  · omega

theorem pruneAfter_whole (hs : s.Sound) (hsh : s.Shaped) {d : LinkDepositRow}
    (hd : d ∈ s.deposits) : linkBoxTime d.pruneAfter = d.pruneAfter := by
  have hv := hs d.rendezvousId
  have hm := mem_view.mpr hd
  cases hf : s.boxes.find d.rendezvousId with
  | none =>
    simp only [BoxView.Sound, view, hf] at hv
    rw [view, hv] at hm
    cases hm
  | some row =>
    simp only [BoxView.Sound, view, hf] at hv
    rw [hv.prune d hm]
    exact (hsh _ _ hf).expireTime

theorem reclaimAfter_whole (hs : s.Sound) (hsh : s.Shaped) {row : LinkBoxRow}
    (hr : row ∈ s.boxes.rows) : linkBoxTime row.reclaimAfter = row.reclaimAfter := by
  have hv := hs row.rendezvousId
  have hf := Table.find_key hr
  simp only [BoxView.Sound, view, hf] at hv
  rw [hv.reclaim]
  exact (hsh _ _ hf).expireTime

theorem lt_of_whole {time now : Time} (hw : linkBoxTime time = time)
    (h : ¬ time ≤ linkBoxTime now) : now < time := by
  apply Int.not_le.mp
  intro hle
  apply h
  rw [← hw]
  exact linkBoxTime_mono hle

theorem none_due_of_below (hs : s.Sound) (hsh : s.Shaped) {now : Time}
    (hdp : s.deposits.length < 2 ^ 32) (hbx : s.boxes.rows.length < 2 ^ 32)
    (hp : (pruned s now bounds).length < bounds.orDefault.deposits)
    (hr : (reclaimed s now bounds).length < bounds.orDefault.boxes) :
    (∀ d ∈ (s.sweepLinkBoxes now bounds).1.deposits, now < d.pruneAfter) ∧
      ∀ row ∈ (s.sweepLinkBoxes now bounds).1.boxes.rows, now < row.reclaimAfter := by
  have hb : Batch now s (s.sweepLinkBoxes now bounds).1 _ _ := sweepLinkBoxes_batch hs
  have hsn := perform_sound (fun bytes => bytes) hs (.sweep now bounds)
  have hsh := @perform_shaped (fun bytes => bytes) _ hsh (.sweep now bounds)
  constructor
  · intro d hd
    apply lt_of_whole (pruneAfter_whole hsn hsh hd)
    intro hdu
    have hl : (pruned s now bounds).length = min _ _ :=
      length_batchOf (Nat.lt_of_le_of_lt (List.length_filter_le ..) hdp)
    have hc := hb.countP_deposits fun d => d.pruneAfter ≤ linkBoxTime now
    have hlf : 0 < (s.sweepLinkBoxes now bounds).1.deposits.countP fun d =>
        d.pruneAfter ≤ linkBoxTime now := List.countP_pos_iff.mpr ⟨d, hd, decide_eq_true hdu⟩
    rw [pruned_due (Int.le_refl _)] at hc
    rw [← List.countP_eq_length_filter] at hl
    omega
  · intro row hro
    apply lt_of_whole (reclaimAfter_whole hsn hsh hro)
    intro hdu
    have hrw : (s.sweepDeposits (pruned s now bounds)).boxes.rows.length < 2 ^ 32 := by
      simpa [sweepDeposits, Table.map] using hbx
    have hl : (reclaimed s now bounds).length = min _ _ :=
      length_batchOf (Nat.lt_of_le_of_lt (List.length_filter_le ..) hrw)
    have hc := hb.boxes_deleted.countP_eq fun row => row.reclaimAfter ≤ linkBoxTime now
    have hlf : 0 < (s.sweepLinkBoxes now bounds).1.boxes.rows.countP fun row =>
        row.reclaimAfter ≤ linkBoxTime now :=
      List.countP_pos_iff.mpr ⟨row, hro, decide_eq_true hdu⟩
    rw [List.countP_append, reclaimed_due (Int.le_refl _)] at hc
    rw [← List.countP_eq_length_filter] at hl
    omega

theorem answer_eq (hs : s.Sound) (hd : s.deposits.length < 2 ^ 32)
    (hb : s.boxes.rows.length < 2 ^ 32) (k : ℕ) :
    (answer clock bounds s k).deposits = (prunedAt clock bounds s k).length ∧
      (answer clock bounds s k).boxes = (reclaimedAt clock bounds s k).length := by
  have hp := sum_pruned_le clock bounds hs (k + 1)
  have hr := sum_reclaimed_le clock bounds hs (k + 1)
  rw [sum_range_succ] at hp hr
  have hf : (prunedAt clock bounds s k).length < 2 ^ 32 := by omega
  have hf' : (reclaimedAt clock bounds s k).length < 2 ^ 32 := by omega
  exact ⟨Nat.mod_eq_of_lt hf, Nat.mod_eq_of_lt hf'⟩

theorem Ran.totals {totals : Totals} (h : Ran clock bounds s out totals) (hs : s.Sound)
    (hd : s.deposits.length < 2 ^ 32) (hb : s.boxes.rows.length < 2 ^ 32) :
    totals.deposits = ∑ k ∈ range totals.batches, (prunedAt clock bounds s k).length ∧
      totals.boxes = ∑ k ∈ range totals.batches, (reclaimedAt clock bounds s k).length := by
  have ha := @answer_eq clock bounds s hs hd hb
  constructor
  · have hle := sum_pruned_le clock bounds hs totals.batches
    rw [h.deposits, sum_congr rfl fun k _ => (ha k).1]
    exact Nat.mod_eq_of_lt (by omega)
  · have hle := sum_reclaimed_le clock bounds hs totals.batches
    rw [h.boxes, sum_congr rfl fun k _ => (ha k).2]
    exact Nat.mod_eq_of_lt (by omega)

theorem Stopped.batches_le {totals : Totals} (h : Stopped clock bounds s out totals ended)
    (hs : s.Sound) (hc : ∀ i j, i ≤ j → clock i ≤ clock j) (hd : bounds.deposits ≠ 0)
    (hb : bounds.boxes ≠ 0) :
    totals.batches ≤ depositsDue s (clock (2 * (totals.batches - 1) + 1)) / bounds.deposits +
        boxesDue s (clock (2 * (totals.batches - 1) + 1)) / bounds.boxes + 1 := by
  have ht : ∀ k < totals.batches - 1,
      clock (2 * k + 1) ≤ clock (2 * (totals.batches - 1) + 1) := fun k hk => hc _ _ (by omega)
  have hr : ∀ k < totals.batches - 1, Reached clock bounds s k := fun k hk => h.reached k (by omega)
  have hp := reached_le hs hd hb ht hr
  rw [Nat.add_assoc] at hp
  exact Nat.le_add_of_sub_le (Nat.le_of_add_right_le hp)

theorem Stopped.none_due {totals : Totals} (h : Stopped clock bounds s out totals .finished)
    (hs : s.Sound) (hsh : s.Shaped) (hb : bounds.orDefault = bounds)
    (hd : s.deposits.length < 2 ^ 32) (hbx : s.boxes.rows.length < 2 ^ 32) :
    (∀ d ∈ out.deposits, clock (2 * (totals.batches - 1) + 1) < d.pruneAfter) ∧
      ∀ row ∈ out.boxes.rows, clock (2 * (totals.batches - 1) + 1) < row.reclaimAfter := by
  have hl := h.finished rfl
  have hst := h.ran.store
  obtain ⟨k, hk⟩ := Nat.exists_eq_succ_of_ne_zero (Nat.ne_of_gt h.pos)
  rw [hk] at hl hst ⊢
  obtain ⟨hp, hr⟩ := @answer_eq clock bounds s hs hd hbx k
  have hf := Nat.le_of_add_right_le (sum_pruned_le clock bounds hs k)
  have hfw := Nat.le_of_add_right_le (sum_reclaimed_le clock bounds hs k)
  simp only [Reached, Nat.succ_sub_one, hp, hr, not_or, Nat.not_le] at hl
  rw [hst]
  apply none_due_of_below (states_sound hs k) (states_shaped hsh k)
  · exact Nat.lt_of_le_of_lt hf hd
  · exact Nat.lt_of_le_of_lt hfw hbx
  · rw [hb]
    exact hl.1
  · rw [hb]
    exact hl.2

end Run

/-- A pass over the link boxes in memory, from every state that calls reach, over a clock that does
not run backwards. -/
theorem pass_reclaims_due (sha256 : Bytes → Bytes) (calls : List LinkBoxCall)
    (bounds : LinkBoxSweepBounds) (maxBatches budget : ℤ) (job : Job MemoryBoxes)
    (hjob : Job.new ⟨some memorySweeper, bounds, maxBatches, budget⟩ = .ok job)
    (readings : Readings) (hclock : ∀ i j, i ≤ j → readings.clock i ≤ readings.clock j)
    (ended : Ended)
    (hended : (job.pass readings (empty.after sha256 calls)).ended = .ok ended)
    (hdeposits : (empty.after sha256 calls).deposits.length < 2 ^ 32)
    (hboxes : (empty.after sha256 calls).boxes.rows.length < 2 ^ 32) :
    let s := empty.after sha256 calls
    let out := job.pass readings s
    let n := out.totals.batches
    let last := readings.clock (2 * (n - 1) + 1)
    0 < n ∧
    n ≤ min job.maxBatches (depositsDue s last / job.bounds.deposits +
      boxesDue s last / job.bounds.boxes + 1) ∧
    out.store = states readings.clock job.bounds s n ∧
    (∀ k, Batch (readings.clock (2 * k + 1)) (states readings.clock job.bounds s k)
      (states readings.clock job.bounds s (k + 1)) (prunedAt readings.clock job.bounds s k)
      (reclaimedAt readings.clock job.bounds s k)) ∧
    out.totals.deposits = ∑ k ∈ range n, (prunedAt readings.clock job.bounds s k).length ∧
    out.totals.boxes = ∑ k ∈ range n, (reclaimedAt readings.clock job.bounds s k).length ∧
    (ended = .finished → (∀ d ∈ out.store.deposits, last < d.pruneAfter) ∧
      ∀ row ∈ out.store.boxes.rows, last < row.reclaimAfter) := by
  intro s out n last
  have hs : s.Sound := after_sound sha256 empty_sound calls
  have hsh : s.Shaped := after_shaped empty_shaped calls
  obtain ⟨hm, hb, hbt⟩ := new_eq_ok hjob
  obtain ⟨hst, hle⟩ := pass_stopped hm hbt hended
  obtain ⟨hsm, hsb⟩ := hst.ran.totals hs hdeposits hboxes
  refine ⟨hst.pos, Nat.le_min.mpr ⟨hle, ?_⟩, hst.ran.store, fun k => states_batch _ _ hs k,
    hsm, hsb, ?_⟩
  · obtain ⟨hd, hbx⟩ := orDefault_ne_zero bounds
    rw [← hb] at hd hbx
    exact hst.batches_le hs hclock hd hbx
  · rintro rfl
    apply hst.none_due hs hsh ?_ hdeposits hboxes
    rw [hb, orDefault_orDefault]

namespace Sample

def readings : Readings := ⟨fun _ => 1000, fun _ => false⟩

def one : List LinkBoxCall :=
  [.register (some ⟨List.replicate 32 0, List.replicate 32 1, List.replicate 32 2,
    List.replicate 4124 3⟩) 0 1000 1]

def single : Job MemoryBoxes := ⟨memorySweeper, ⟨1, 1⟩, 50, defaultBudget⟩

end Sample

open Sample

/-- A due box is deleted by a batch that reaches its bound, and a second one finds nothing: as many
batches as the bound allows. -/
theorem pass_reclaims_due_one :
    let s := empty.after (fun bytes => bytes) one
    let out := single.pass readings s
    out.ended = .ok .finished ∧ out.totals = { batches := 2, boxes := 1 } ∧
    2 ≤ min 50 (depositsDue s 1000 / 1 + boxesDue s 1000 / 1 + 1) ∧
    ∀ row ∈ out.store.boxes.rows, 1000 < row.reclaimAfter := by
  intro s out
  have he : out.ended = .ok .finished := by decide +kernel
  have ht : out.totals = { batches := 2, boxes := 1 } := by decide +kernel
  have hd : (empty.after (fun bytes => bytes) one).deposits.length < 2 ^ 32 := by
    decide +kernel
  have hb : (empty.after (fun bytes => bytes) one).boxes.rows.length < 2 ^ 32 := by
    decide +kernel
  have hp := pass_reclaims_due (fun bytes => bytes) one ⟨1, 1⟩ 0 0 single rfl
    readings (fun _ _ _ => Int.le_refl _) .finished he hd hb
  obtain ⟨-, hle, -, -, -, -, hn⟩ := hp
  change out.totals.batches ≤ _ at hle
  rw [ht] at hle
  exact ⟨he, ht, hle, (hn rfl).2⟩

end MessageServer.Sweep
