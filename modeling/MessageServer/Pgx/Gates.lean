import MessageServer.Pgx.Holds
import MessageServer.Store.Transaction

/-! # The gates of a batch

The SQL store gates every record of a batch against the recovery keys that were
stored before it. The store in memory counts the keys that earlier records of
the batch bind as well, so the two part at a record that rebinds a handle of its
own batch alone.
-/

namespace MessageServer.Pgx

open Store Transaction Function Prog

section Lookups

variable {ring : KekRing} {groupId : Bytes} {d : Database} {g : MemoryGroup}

variable (h : HoldsGroup ring groupId d g)
include h

theorem HoldsGroup.commit_int64 {e : ℕ} (he : e < 2 ^ 64) :
    d.lookup (.commit groupId (int64 e)) = (g.commits e).map commitColumns := by
  by_cases hlt : e < 2 ^ 63
  · rw [int64_of_lt hlt, h.commit, natAt_natCast]
  · rw [h.commit, natAt_of_neg _ (int64_neg (not_lt.mp hlt) he)]
    cases hc : g.commits e with
    | none => rfl
    | some commit =>
      have hl := h.commit (e : ℤ)
      rw [natAt_natCast, hc] at hl
      have ha := h.admitted _ _ rfl hl
      simp only [admits, isBigint, Bool.and_eq_true, decide_eq_true_eq] at ha
      omega

theorem HoldsGroup.claim_int64 {i : ℕ} (hi : i < 2 ^ 64)
    (handle : Bytes) : d.lookup (.claim groupId handle (int64 i)) =
      (g.claims ⟨handle, i⟩).map claimColumns := by
  by_cases hlt : i < 2 ^ 63
  · rw [int64_of_lt hlt, h.claim, natAt_natCast]
  · rw [h.claim, natAt_of_neg _ (int64_neg (not_lt.mp hlt) hi)]
    cases hc : g.claims ⟨handle, i⟩ with
    | none => rfl
    | some claim =>
      have hl := h.claim handle (i : ℤ)
      rw [natAt_natCast, hc] at hl
      have ha := h.admitted _ _ rfl hl
      simp only [admits, isBigint, Bool.and_eq_true, decide_eq_true_eq] at ha
      omega

theorem HoldsGroup.lastStreamIndex (handle : Bytes) :
    (d.lookup (.sender groupId handle) : Option MessageSender).map (uint64 ·.lastStreamIndex) =
      (g.senders handle).map (·.lastStreamIndex) := by
  have hl := h.sender handle
  cases hs : g.senders handle with
  | none =>
    rw [hl, hs]
    rfl
  | some sender =>
    rw [hs, Option.map_some] at hl
    have ha := h.admitted _ _ rfl hl
    simp only [admits, isBigint, Bool.and_eq_true, decide_eq_true_eq] at ha
    simp only [senderColumns] at ha
    have hu : uint64 sender.lastStreamIndex = sender.lastStreamIndex := uint64_natCast (by omega)
    rw [hl]
    simp [senderColumns, hu]

theorem HoldsGroup.verifyPub (handle : Bytes) :
    (d.lookup (.recovery groupId handle) : Option MessageRecovery).map (·.verifyPub) =
      (g.recovery handle).map (·.verifyPub) := by
  rw [h.recovery]
  cases g.recovery handle <;> rfl

end Lookups

section Fill

variable {store : PgxStore} {groupId : Bytes} {d : Database} {g : MemoryGroup} {epoch : ℕ}
  {batch : List Pending}

variable (h : HoldsGroup store.keys groupId d g)
include h

theorem HoldsGroup.exists_readRow (id : ℤ)
    (row : MessageRecord) : ∃ record, readRow store.keys groupId d id row = .ok record := by
  have hj : ∃ writeKey readKey, unwrapColumn store.keys groupId .writeKey
        (row.attachment.epoch.elim 0 uint64) (joinedEpoch groupId d row.attachment).1 =
          .ok writeKey ∧
      unwrapColumn store.keys groupId .readKey (row.attachment.epoch.elim 0 uint64)
        (joinedEpoch groupId d row.attachment).2 = .ok readKey := by
    unfold joinedEpoch
    cases he : row.attachment.epoch with
    | none => exact ⟨none, none, rfl, rfl⟩
    | some e =>
      rw [Option.bind_some]
      have hop := h.epoch e
      cases hl : d.lookup (.epoch groupId e) with
      | none => exact ⟨none, none, rfl, rfl⟩
      | some epoch =>
        rw [hl, Option.map_some] at hop
        obtain ⟨r, -, ho⟩ := Option.map_eq_some_iff.mp hop.symm
        obtain ⟨writeKey, readKey, hw, hr, -⟩ := openRow_eq_ok.mp ho.symm
        exact ⟨writeKey, readKey, hw, hr⟩
  obtain ⟨writeKey, readKey, hw, hr⟩ := hj
  have hat : ∃ attachment, attachmentOf store.keys groupId row.attachment
      (joinedEpoch groupId d row.attachment).1 (joinedEpoch groupId d row.attachment).2 =
        .ok attachment := by
    unfold attachmentOf
    dsimp only
    split
    · rw [hw, hr]
      exact ⟨_, rfl⟩
    all_goals exact ⟨_, rfl⟩
  obtain ⟨attachment, ha⟩ := hat
  unfold readRow recordOf
  dsimp only
  rw [ha]
  exact ⟨_, rfl⟩

theorem HoldsGroup.exists_winningCommit (epoch : ℕ) :
    ∃ winner, winningCommit store groupId epoch d = .ok winner := by
  unfold winningCommit
  split
  · exact ⟨none, rfl⟩
  · split
    · exact ⟨none, rfl⟩
    · rename_i row _
      obtain ⟨record, hr⟩ := h.exists_readRow _ row
      exact ⟨some record, by rw [hr]; rfl⟩

def filled (store : PgxStore) (groupId : Bytes) (d : Database) (epoch : ℕ) (p : Pending) :
    Pending :=
  if ¬ p.record.isCommit ∨ accepted p.result.reason then fillEpoch epoch p
  else { fillEpoch epoch p with
    result := { (fillEpoch epoch p).result with
      winningCommit := (winningCommit store groupId p.record.epoch d).toOption.join } }

theorem fillOne_meets (p : Pending) : (fillOne store groupId epoch p).Meets schema d
      { value := fun d' p' => d' = d ∧ p' = filled store groupId d epoch p } := by
  unfold fillOne
  by_cases hc : ¬ p.record.isCommit ∨ accepted p.result.reason
  · rw [if_pos hc, meets_pure, filled, if_pos hc]
    exact ⟨rfl, rfl⟩
  · obtain ⟨winner, hw⟩ := h.exists_winningCommit p.record.epoch
    rw [if_neg hc, meets_select, filled, if_neg hc, hw]
    exact ⟨rfl, rfl⟩

theorem fillAll_meets (batch : List Pending) : (fillAll store groupId epoch batch).Meets schema d
      { value := fun d' out => d' = d ∧ out = batch.map (filled store groupId d epoch) } := by
  induction batch with
  | nil => exact ⟨rfl, rfl⟩
  | cons p batch ih =>
    unfold fillAll
    refine (fillOne_meets h p).bind_value ?_ fun _ => False.elim
    rintro _ _ ⟨rfl, rfl⟩
    refine ih.bind_value ?_ fun _ => False.elim
    rintro _ _ ⟨rfl, rfl⟩
    exact ⟨rfl, rfl⟩

theorem fill_meets (hc : g.closed = false)
    (hn : epoch = 0 ∨ epoch = g.currentEpoch) (batch : List Pending) :
    (fill store groupId epoch batch).Meets schema d
      { value := fun d' out => d' = d ∧
          out = batch.map (filled store groupId d g.currentEpoch) } := by
  unfold fill
  by_cases he : epoch = 0
  · rw [if_pos he, meets_select, h.group]
    have hu : uint64 (groupColumns g).currentEpoch = g.currentEpoch :=
      uint64_natCast (h.inRange.currentEpoch.trans (by omega))
    dsimp only
    rw [if_neg (by simpa [groupColumns] using hc), hu]
    exact fillAll_meets h batch
  · rw [if_neg he, hn.resolve_left he]
    exact fillAll_meets h batch

omit h in
theorem fill_of_unavailable
    (h : ∀ row, (d.lookup (.group groupId) : Option MessageGroup) = some row → row.closed = true)
    (batch : List Pending) :
    (fill store groupId 0 batch).Meets schema d
      { value := fun d' out => d' = d ∧ out = batch } := by
  unfold fill
  rw [if_pos rfl, meets_select]
  split
  · exact ⟨rfl, rfl⟩
  · rename_i row hl
    rw [if_pos (h row hl)]
    exact ⟨rfl, rfl⟩

theorem refuse_meets {α : Type} (hc : g.closed = false)
    (hn : epoch = 0 ∨ epoch = g.currentEpoch) (batch : List Pending) (offender : ℕ)
    (reason : Reason) :
    (refuse store groupId batch offender reason epoch : Statements α).Meets schema d
      { answer := fun w => w = .submitted (resultsOf
          ((markRefused batch offender reason).map (filled store groupId d g.currentEpoch))) } := by
  unfold refuse
  refine (fill_meets h hc hn _).bind_value ?_ fun _ => False.elim
  rintro _ _ ⟨rfl, rfl⟩
  exact rfl

end Fill

def gateStored (g : MemoryGroup) (keys : Option EpochKeyDelivery) :
    (Bytes → Option ℕ) → ℕ → List Pending → Option (ℕ × Reason)
  | _, _, [] => none
  | highWater, index, p :: batch =>
    if p.settled then gateStored g keys highWater (index + 1) batch
    else
      let refusal := Store.gate g g.state p.record keys highWater fun _ => none
      if refusal ≠ .ok then some (index, refusal)
      else
        gateStored g keys
          (update highWater p.record.senderHandle (some p.record.streamIndex))
          (index + 1) batch

section Stored

variable {g : MemoryGroup} {keys : Option EpochKeyDelivery} {own : Bytes → Option ℕ} {index : ℕ}
  {p : Pending} {batch : List Pending}

theorem gateStored_of_settled (h : p.settled = true) :
    gateStored g keys own index (p :: batch) = gateStored g keys own (index + 1) batch := by
  simp [gateStored, h]

theorem gateStored_of_refused (h : p.settled = false)
    (hr : Store.gate g g.state p.record keys own (fun _ => none) ≠ .ok) :
    gateStored g keys own index (p :: batch) =
      some (index, Store.gate g g.state p.record keys own fun _ => none) := by
  simp [gateStored, h, hr]

theorem gateStored_of_passed (h : p.settled = false)
    (hr : Store.gate g g.state p.record keys own (fun _ => none) = .ok) :
    gateStored g keys own index (p :: batch) = gateStored g keys
      (update own p.record.senderHandle (some p.record.streamIndex)) (index + 1)
      batch := by
  simp [gateStored, h, hr]

end Stored

section Gate

variable {store : PgxStore} {groupId : Bytes} {d : Database} {g : MemoryGroup} {record : Record}
  {keys : Option EpochKeyDelivery}

/-- What the gates read of the group, for the records that are still to be gated. -/
structure Inputs (g : MemoryGroup) (own : Bytes → Option ℕ) (highWater : Bytes → Option ℕ)
    (pinned : Bytes → Option Bytes) (records : List Record) : Prop where
  senders : ∀ record ∈ records, highWater record.senderHandle = lastStreamIndex g record own
  pins : ∀ record ∈ records, ∀ tag, recoveryTagOf record = some tag →
    pinned tag.handle = (g.recovery tag.handle).map (·.verifyPub)

variable {pinned : Bytes → Option Bytes} {records : List Record} {own highWater : Bytes → Option ℕ}

theorem Inputs.step (h : Inputs g own highWater pinned (record :: records)) :
    Inputs g (update own record.senderHandle (some record.streamIndex))
      (update highWater record.senderHandle (some record.streamIndex)) pinned records := by
  refine ⟨fun r hr => ?_, fun r hr => h.pins r (List.mem_cons_of_mem _ hr)⟩
  have hs := h.senders r (List.mem_cons_of_mem _ hr)
  unfold lastStreamIndex at hs ⊢
  by_cases he : r.senderHandle = record.senderHandle
  · simp [he]
  · simpa [he] using hs

theorem gate_eq (h : Inputs g own highWater pinned (record :: records)) :
    Store.gate g g.state record keys own (fun _ => none) =
      if record.isCommit ∧ (g.commits record.epoch).isSome then .commitLost
      else gateRest keys g.state record highWater pinned := by
  have hp : ((recoveryTagOf record).any fun tag =>
      (pinnedPub g (fun _ => none) tag).any (· ≠ tag.verifyPub)) =
      (recoveryTagOf record).any fun tag => (pinned tag.handle).any (· ≠ tag.verifyPub) := by
    cases ht : recoveryTagOf record with
    | none => rfl
    | some tag => simp [pinnedPub, h.pins record List.mem_cons_self tag ht]
  unfold Store.gate gateRest
  rw [h.senders record List.mem_cons_self, hp]

/-- The gates of one record read, and answer what the gates in memory do. -/
theorem gate_meets (h : HoldsGroup store.keys groupId d g) (he : record.epoch < 2 ^ 64)
    (hi : Inputs g own highWater pinned (record :: records)) :
    (gate groupId keys g.state record highWater pinned).Meets schema d
      { value := fun d' refusal => d' = d ∧
          refusal = Store.gate g g.state record keys own fun _ => none } := by
  rw [gate_eq hi]
  unfold gate
  cases hc : record.isCommit with
  | false =>
    rw [if_neg (by simp), meets_pure]
    exact ⟨rfl, by simp⟩
  | true =>
    rw [if_pos rfl, meets_select, h.commit_int64 he, Option.isSome_map]
    split
    · rename_i hs
      rw [meets_pure]
      exact ⟨rfl, by simp [hs]⟩
    · rename_i hs
      rw [meets_pure]
      exact ⟨rfl, by simp [hs]⟩

/-- The gates over a batch read, and its first refusal ends the transaction. -/
theorem gateAll_meets {index : ℕ} {rest : List Pending} (h : HoldsGroup store.keys groupId d g)
    (hc : g.closed = false) (he : ∀ p ∈ rest, p.record.epoch < 2 ^ 64)
    (hi : Inputs g own highWater pinned (rest.map (·.record))) (batch : List Pending) :
    (gateAll store groupId keys g.state batch pinned highWater index rest).Meets schema d
      { value := fun d' _ => d' = d ∧ gateStored g keys own index rest = none
        answer := fun w => ∃ i reason, gateStored g keys own index rest = some (i, reason) ∧
          w = .submitted (resultsOf
            ((markRefused batch i reason).map (filled store groupId d g.currentEpoch))) } := by
  induction rest generalizing own highWater index with
  | nil => exact ⟨rfl, rfl⟩
  | cons p rest ih =>
    have hrs : ∀ q ∈ rest, q.record.epoch < 2 ^ 64 := fun q hq => he q (List.mem_cons_of_mem _ hq)
    unfold gateAll
    cases hp : p.settled with
    | true =>
      rw [gateStored_of_settled hp, if_pos rfl]
      exact ih hrs ⟨fun r hr => hi.senders r (List.mem_cons_of_mem _ hr),
        fun r hr => hi.pins r (List.mem_cons_of_mem _ hr)⟩
    | false =>
      rw [if_neg (by simp)]
      refine (gate_meets h (he p List.mem_cons_self) hi).bind ?_ (fun _ _ => False.elim)
        (fun _ => False.elim) fun _ => False.elim
      rintro d' refusal ⟨rfl, rfl⟩
      by_cases hr : Store.gate g g.state p.record keys own (fun _ => none) = .ok
      · rw [if_neg (not_not.mpr hr), gateStored_of_passed hp hr]
        exact ih hrs hi.step
      · rw [if_pos hr, gateStored_of_refused hp hr]
        exact (refuse_meets h hc (.inr rfl) batch index _).mono (fun _ _ => False.elim)
          (fun _ _ => False.elim) (fun w hw => ⟨_, _, rfl, hw⟩) fun _ => False.elim

end Gate

section Own

variable {g : MemoryGroup} {keys : Option EpochKeyDelivery} {own : Bytes → Option ℕ}
  {pinned : Bytes → Option Bytes} {record : Record} {index : ℕ} {batch : List Pending}

/-- The record names a recovery handle that its batch has bound to another key. -/
def rebindsOwn (pinned : Bytes → Option Bytes) (record : Record) : Bool :=
  (recoveryTagOf record).any fun tag => (pinned tag.handle).any (· ≠ tag.verifyPub)

def rebindAt : (Bytes → Option Bytes) → ℕ → List Pending → Option ℕ
  | _, _, [] => none
  | pinned, index, p :: batch =>
    if p.settled then rebindAt pinned (index + 1) batch
    else if rebindsOwn pinned p.record then some index
    else rebindAt (pin pinned p.record) (index + 1) batch

/-- What a batch has bound is not at odds with what the group holds. -/
def PinsAgree (g : MemoryGroup) (pinned : Bytes → Option Bytes) : Prop :=
  ∀ handle pub row, pinned handle = some pub → g.recovery handle = some row → row.verifyPub = pub

theorem pinsAgree_none (g : MemoryGroup) : PinsAgree g fun _ => none := fun _ _ _ hp => nomatch hp

theorem any_pinnedPub (h : PinsAgree g pinned) (record : Record) :
    ((recoveryTagOf record).any fun tag => (pinnedPub g pinned tag).any (· ≠ tag.verifyPub)) =
      (((recoveryTagOf record).any fun tag =>
        (pinnedPub g (fun _ => none) tag).any (· ≠ tag.verifyPub)) ||
        rebindsOwn pinned record) := by
  unfold rebindsOwn
  cases ht : recoveryTagOf record with
  | none => rfl
  | some tag =>
    simp only [pinnedPub, Option.any_some]
    cases hp : pinned tag.handle with
    | none => simp
    | some pub =>
      cases hr : g.recovery tag.handle with
      | none => simp
      | some row => simp [h _ pub row hp hr]

theorem gate_pinned (h : PinsAgree g pinned) : Store.gate g g.state record keys own pinned =
      if Store.gate g g.state record keys own (fun _ => none) ≠ .ok then
        Store.gate g g.state record keys own fun _ => none
      else if rebindsOwn pinned record then .rejected else .ok := by
  unfold Store.gate
  rw [any_pinnedPub h]
  split_ifs <;> simp_all

theorem PinsAgree.pin (h : PinsAgree g pinned)
    (hg : Store.gate g g.state record keys own (fun _ => none) = .ok) :
    PinsAgree g (pin pinned record) := by
  intro handle pub row hp hr
  unfold Store.pin at hp
  cases ht : recoveryTagOf record with
  | none =>
    rw [ht] at hp
    exact h handle pub row hp hr
  | some tag =>
    rw [ht] at hp
    dsimp only at hp
    split at hp
    · exact h handle pub row hp hr
    · by_cases he : handle = tag.handle
      · subst he
        rw [update_self, Option.some.injEq] at hp
        obtain ⟨-, -, -, -, -, -, hpn⟩ := gate_eq_ok.mp hg
        rw [ht] at hpn
        simp only [pinnedPub, hr, Option.any_some, Option.map_some, decide_eq_true_eq,
          not_not] at hpn
        exact hpn.trans hp
      · rw [update_of_ne he] at hp
        exact h handle pub row hp hr

theorem le_of_rebindAt {i : ℕ} (h : rebindAt pinned index batch = some i) : index ≤ i := by
  induction batch generalizing pinned index with
  | nil => cases h
  | cons p batch ih =>
    unfold rebindAt at h
    split_ifs at h
    · exact (Nat.le_succ _).trans (ih h)
    · exact (Option.some.inj h).le
    · exact (Nat.le_succ _).trans (ih h)

theorem le_of_gateStored {i : ℕ} {reason : Reason}
    (h : gateStored g keys own index batch = some (i, reason)) : index ≤ i := by
  induction batch generalizing own index with
  | nil => cases h
  | cons p batch ih =>
    cases hp : p.settled with
    | true =>
      rw [gateStored_of_settled hp] at h
      exact (Nat.le_succ _).trans (ih h)
    | false =>
      by_cases hr : Store.gate g g.state p.record keys own (fun _ => none) = .ok
      · rw [gateStored_of_passed hp hr] at h
        exact (Nat.le_succ _).trans (ih h)
      · rw [gateStored_of_refused hp hr, Option.some.injEq, Prod.mk.injEq] at h
        exact h.1.le

/-- The earlier of a refusal by the gates and a handle rebound within the batch. -/
def firstRefusal : Option (ℕ × Reason) → Option ℕ → Option (ℕ × Reason)
  | refusal, none => refusal
  | none, some i => some (i, .rejected)
  | some (j, reason), some i => if i < j then some (i, .rejected) else some (j, reason)

theorem gateAll_eq (h : PinsAgree g pinned) : Store.gateAll g g.state keys own pinned index batch =
      firstRefusal (gateStored g keys own index batch) (rebindAt pinned index batch) := by
  induction batch generalizing own pinned index with
  | nil => rfl
  | cons p batch ih =>
    unfold Store.gateAll rebindAt
    cases hp : p.settled with
    | true =>
      rw [gateStored_of_settled hp, if_pos rfl, if_pos rfl]
      exact ih h
    | false =>
      have hf : ¬ (false = true) := by simp
      rw [if_neg hf, if_neg hf]
      rw [gate_pinned h]
      by_cases hr : Store.gate g g.state p.record keys own (fun _ => none) = .ok
      · rw [gateStored_of_passed hp hr, if_neg (not_not.mpr hr)]
        cases hb : rebindsOwn pinned p.record with
        | true =>
          rw [if_pos rfl, if_pos (by decide), if_pos rfl]
          cases hs : gateStored g keys (update own p.record.senderHandle
              (some p.record.streamIndex)) (index + 1) batch with
          | none => rfl
          | some refused => exact (if_pos (le_of_gateStored hs)).symm
        | false =>
          rw [if_neg hf, if_neg (by simp), if_neg hf]
          exact ih (h.pin hr)
      · rw [gateStored_of_refused hp hr, if_pos hr, if_pos hr]
        split_ifs with hb
        · exact (if_neg (lt_irrefl _)).symm
        · cases ha : rebindAt (Store.pin pinned p.record) (index + 1) batch with
          | none => rfl
          | some i => exact (if_neg (by have := le_of_rebindAt ha; omega)).symm

end Own

end MessageServer.Pgx
