import MessageServer.Store.Custody

/-! # The fan-out window

An epoch takes only wraps and markers until a marker with the wrap count its
opening announced has been stored; from the next submission on it takes every
record. The flag of a group says exactly that such a marker stands in the log of
its current epoch.
-/

namespace MessageServer.Store

open Interleaving MemoryStore MemoryGroup

def announcedWrapCount (record : Record) : Option ℕ :=
  match record.attachment with
  | none => none
  | some attachment =>
    match attachment.kind with
    | .epoch => attachment.epoch.map (·.expectedWrapCount)
    | .epochDigest => attachment.epochDigest.map (·.expectedWrapCount)
    | _ => none

theorem announcedWrapCount_of_openingOf {record : Record} {keys : Option EpochKeyDelivery}
    {opening : EpochOpening} (h : openingOf record keys = some opening) :
    announcedWrapCount record = some opening.expectedWrapCount := by
  unfold openingOf at h
  split at h
  · cases h
  · rename_i attachment ha
    split at h
    · rename_i hk he
      cases h
      simp [announcedWrapCount, ha, hk, he]
    · rename_i hk hd
      cases h
      simp [announcedWrapCount, ha, hk, hd]
    · cases h

/-- The window of a group: what its epochs announced, and what its flag says. -/
structure Window (g : MemoryGroup) : Prop where
  announced : ∀ e row, g.epochs (e + 1) = some row → ∃ c, g.commits e = some c ∧
    announcedWrapCount c.record = some row.expectedWrapCount
  complete : g.epochComplete = true ↔
    ∃ row ∈ g.records, row.record.epoch = g.currentEpoch ∧ g.closesFanOut row.record = true

section Write

variable {g g' : MemoryGroup} {cfg : Config} {now : Time} {complete : Bool} {L : Ledger}
  {keys : Option EpochKeyDelivery} {record : Record} {id : ℕ} {records : List Record}

theorem closesFanOut_congr (he : g'.epochs = g.epochs) (hn : g'.currentEpoch = g.currentEpoch)
    (m : Record) : g'.closesFanOut m = g.closesFanOut m := by
  unfold closesFanOut
  rw [he, hn]

theorem Admitted.closesFanOut_commit (ha : Admitted g complete keys record)
    (hc : record.isCommit = true) (g' : MemoryGroup) (id : ℕ) :
    g'.closesFanOut (stamp record id) = false := by
  have hk := ha.kind
  rw [hc] at hk
  have ht : epochCompleteTagOf (stamp record id) = none := by
    change epochCompleteTagOf record = none
    unfold epochCompleteTagOf
    split
    · rfl
    · rename_i hne
      rw [not_not.mp hne] at hk
      cases hk
  simp [closesFanOut, ht]

theorem Window.write_announced (h : Window g) (hL : Represents cfg g L)
    (ha : Admitted g complete keys record) (now : Time) (id e : ℕ) (row : EpochRow)
    (hr : (g.write cfg now g.currentEpoch keys (stamp record id)).epochs (e + 1) = some row) :
    ∃ c, (g.write cfg now g.currentEpoch keys (stamp record id)).commits e = some c ∧
      announcedWrapCount c.record = some row.expectedWrapCount := by
  have hg := hL.write_grows ha now id
  rw [write_epochs] at hr
  rcases ha.advance cfg now id with ⟨-, had⟩ | ⟨hc, opening, ho, had⟩
  · rw [had] at hr
    obtain ⟨c, hcm, hcn⟩ := h.announced e row hr
    exact ⟨c, hg.commits e c hcm, hcn⟩
  · rw [had] at hr
    rcases openEpoch_row g cfg now g.currentEpoch (stamp record id) opening hr with
      ⟨he, rfl⟩ | ⟨-, old, hol, rfl⟩
    · refine ⟨commitOf (stamp record id), (hL.write_commits ha now id e _).mpr
        ⟨_, List.mem_append_right _ (List.mem_singleton_self _), hc, ?_, rfl⟩,
        announcedWrapCount_of_openingOf ho⟩
      exact ha.epoch.trans (Nat.succ.inj he).symm
    · obtain ⟨c, hcm, hcn⟩ := h.announced e old hol
      refine ⟨c, hg.commits e c hcm, ?_⟩
      rw [hcn, (EpochRow.Kept.supersede now g.currentEpoch (e + 1) old).expectedWrapCount]

theorem Window.write_complete (h : Window g) (hL : Represents cfg g L)
    (ha : Admitted g complete keys record) (now : Time) (id : ℕ) :
    (g.write cfg now g.currentEpoch keys (stamp record id)).epochComplete = true ↔
    ∃ row ∈ (g.write cfg now g.currentEpoch keys (stamp record id)).records,
      row.record.epoch = (g.write cfg now g.currentEpoch keys (stamp record id)).currentEpoch ∧
      (g.write cfg now g.currentEpoch keys (stamp record id)).closesFanOut row.record = true := by
  have hcl := fun m => closesFanOut_congr
    (g.write_epochs cfg now g.currentEpoch keys (stamp record id))
    (g.write_currentEpoch cfg now g.currentEpoch keys (stamp record id)) m
  simp only [hcl]
  rw [write_epochComplete, write_records, write_currentEpoch]
  have hep : (stamp record id).epoch = g.currentEpoch := ha.epoch
  rcases ha.advance cfg now id with ⟨-, had⟩ | ⟨hc, opening, -, had⟩
  · rw [had]
    simp only [List.mem_append, List.mem_singleton, or_and_right, exists_or, exists_eq_left,
      ← h.complete, rowOf, hep, true_and, closeFanOut]
    cases g.closesFanOut (stamp record id) <;> simp
  · rw [had]
    constructor
    · rw [closeFanOut, ha.closesFanOut_commit hc]
      intro hf
      cases hf
    · rintro ⟨row, hr, he, -⟩
      have hle : row.record.epoch ≤ g.currentEpoch := by
        rcases List.mem_append.mp hr with hr | hr
        · exact hL.epoch ▸ L.ordered.epoch_le (hL.mem hr)
        · rw [List.mem_singleton.mp hr]
          exact hep.le
      exact absurd (he ▸ hle) (Nat.not_succ_le_self _)

theorem Window.write (h : Window g) (hL : Represents cfg g L)
    (ha : Admitted g complete keys record) (now : Time) (id : ℕ) :
    Window (g.write cfg now g.currentEpoch keys (stamp record id)) :=
  ⟨h.write_announced hL ha now id, h.write_complete hL ha now id⟩

theorem Window.appends (h : Window g) (hL : Represents cfg g L) (hid : id = L.log.length + 1)
    (ha : Appends cfg now complete keys g id records g') : Window g' := by
  induction ha generalizing L with
  | nil => exact h
  | cons hr _ ih =>
    exact ih (h.write hL hr now _) (hL.write hr now hid) (by simp [Ledger.append, hid])

theorem Appends.window (ha : Appends cfg now complete keys g id records g') (hal : Alone records) :
    ∀ r ∈ stampFrom id records,
      r.epoch = g.currentEpoch ∧ (complete = true ∨ exemptFromEpochComplete r = true) := by
  induction ha with
  | nil => simp [stampFrom]
  | @cons g g' id record records hr _ ih =>
    refine List.forall_mem_cons.mpr ⟨⟨hr.epoch, hr.window⟩, fun r hm => ?_⟩
    cases hc : record.isCommit with
    | true =>
      cases hal record List.mem_cons_self hc
      cases hm
    | false =>
      have hn : (g.write cfg now g.currentEpoch keys (stamp record id)).currentEpoch =
          g.currentEpoch := by
        rw [write_currentEpoch, g.advance_of_not_commit cfg now _ keys (stamp record id) hc]
      exact hn ▸ ih hal.tail r hm

end Write

section Steps

variable {cfg : Config} {now : Time} {g g' : MemoryGroup}

theorem window_foundGroup {request : CreateGroupRequest} {initial : Record}
    {opening : EpochOpening} (he : initial.epoch = 0)
    (ho : openingOf initial request.epochKeys = some opening) :
    Window (foundGroup cfg now request initial opening) := by
  have hs : (stamp initial firstRecordId).epoch = 0 := he
  refine ⟨fun e row hr => ?_, ⟨fun hf => (nomatch hf), ?_⟩⟩
  · rcases e with _ | e
    · cases hr
      refine ⟨commitOf (stamp initial firstRecordId), ?_, announcedWrapCount_of_openingOf ho⟩
      simp [foundGroup, hs, commitOf]
    · cases hr
  · rintro ⟨row, hr, hep, -⟩
    rw [List.mem_singleton.mp hr] at hep
    exact absurd (hs.symm.trans hep) Nat.zero_ne_one

theorem GroupStep.window {o : Option MemoryGroup} (h : GroupStep cfg now o g)
    (ho : ∀ g₀, o = some g₀ → Sound cfg g₀ ∧ Window g₀) : Window g := by
  cases h with
  | found _ _ he _ hop => exact window_foundGroup he hop
  | close =>
    obtain ⟨-, hw⟩ := ho _ rfl
    exact ⟨hw.announced, hw.complete⟩
  | @append g₀ _ _ records _ _ ha =>
    obtain ⟨⟨L, hL, hn⟩, hw⟩ := ho _ rfl
    have hr : Window (g₀.reserve records.length) := ⟨hw.announced, hw.complete⟩
    exact hr.appends (hL.reserve _) hn ha

theorem StoreStep.complete {s s' : MemoryStore} (h : StoreStep cfg now s s') {groupId : Bytes}
    {r : Record} (hr : r ∈ s'.log groupId) (hn : r ∉ s.log groupId) (hp : 1 ≤ r.epoch)
    (hx : exemptFromEpochComplete r = false) :
    ∃ g, s.groups groupId = some g ∧ g.epochComplete = true ∧ r.epoch = g.currentEpoch := by
  cases h with
  | refl => exact absurd hr hn
  | @group other g' _ step =>
    by_cases ho : groupId = other
    · subst ho
      rw [log_of_group setGroup_self] at hr
      cases hg : s.groups groupId with
      | none =>
        rw [hg] at step
        cases step with
        | found _ _ he _ _ =>
          obtain rfl := List.mem_singleton.mp hr
          exact absurd hp (by simp [stamp, he])
      | some g =>
        rw [log_of_group hg] at hn
        rw [hg] at step
        cases step with
        | close => exact absurd hr hn
        | append _ hal ha =>
          rw [ha.log, List.mem_append] at hr
          obtain ⟨he, hw⟩ := ha.window hal r (hr.resolve_left hn)
          exact ⟨g, rfl, hw.resolve_right (by simp [hx]), he⟩
    · rw [log, setGroup_of_ne ho] at hr
      exact absurd hr hn

end Steps

structure ClosesEpoch (g : MemoryGroup) (e : ℕ) (m : Record) : Prop where
  epoch : m.epoch = e
  marker : ∃ tag opened c, epochCompleteTagOf m = some tag ∧ tag.epoch = e ∧ e = opened + 1 ∧
    g.commits opened = some c ∧ announcedWrapCount c.record = some tag.wrapCount

section Markers

variable {cfg : Config} {g g' : MemoryGroup} {m : Record}

theorem ClosesEpoch.grows {e : ℕ} (h : ClosesEpoch g e m) (hg : Grows g g') :
    ClosesEpoch g' e m := by
  obtain ⟨he, tag, opened, c, ht, hte, ho, hc, hw⟩ := h
  exact ⟨he, tag, opened, c, ht, hte, ho, hg.commits opened c hc, hw⟩

theorem closesFanOut_iff (hc : Custody g) (hw : Window g) (m : Record) :
    m.epoch = g.currentEpoch ∧ g.closesFanOut m = true ↔ ClosesEpoch g g.currentEpoch m := by
  obtain ⟨row, hr⟩ := (hc.rows g.currentEpoch).mpr le_rfl
  obtain ⟨opened, ho⟩ := Nat.exists_eq_add_of_le' hc.pos
  obtain ⟨c, hcm, hcn⟩ := hw.announced opened row (ho ▸ hr)
  unfold closesFanOut
  rw [hr]
  constructor
  · rintro ⟨he, hm⟩
    cases ht : epochCompleteTagOf m with
    | none => simp [ht] at hm
    | some tag =>
      simp only [ht, Bool.and_eq_true, beq_iff_eq] at hm
      exact ⟨he, tag, opened, c, ht, hm.1, ho, hcm, by rw [hcn, hm.2]⟩
  · rintro ⟨he, tag, opened', c', ht, hte, ho', hc', hcn'⟩
    obtain rfl : opened' = opened := by omega
    cases hcm.symm.trans hc'
    have hwr := Option.some.inj (hcn.symm.trans hcn')
    exact ⟨he, by simp [ht, hte, hwr]⟩

end Markers

section Main

variable {ι : Type*} [DecidableEq ι] (cfg : Config) (requests : ι → Request)
  (sched : List (ι × Time))

theorem run_window : (run cfg requests sched).shared.Each Window := by
  have h := runFrom_each (P := fun g => Sound cfg g ∧ Window g)
    (fun _ _ _ step ho => ⟨step.sound fun g hg => (ho g hg).1, step.window ho⟩)
    (s := .empty) (fun _ _ h => nomatch h) requests sched
  exact fun groupId g hg => (h groupId g hg).2

theorem exists_marker_before (groupId : Bytes) (r : Record) (hp : 1 ≤ r.epoch)
    (hx : exemptFromEpochComplete r = false) (sched : List (ι × Time))
    (hr : r ∈ (run cfg requests sched).shared.log groupId) :
    ∃ p q g m, sched = p ++ q ∧ (run cfg requests p).shared.groups groupId = some g ∧
      r ∉ (run cfg requests p).shared.log groupId ∧
      m ∈ (run cfg requests p).shared.log groupId ∧ ClosesEpoch g r.epoch m := by
  induction sched using List.reverseRecOn with
  | nil => simp [run, runFrom, initial, log, empty] at hr
  | append_singleton sched turn ih =>
    by_cases ho : r ∈ (run cfg requests sched).shared.log groupId
    · obtain ⟨p, q, g, m, rfl, h⟩ := ih ho
      exact ⟨p, q ++ [turn], g, m, List.append_assoc .., h⟩
    · have hi : History cfg .empty (run cfg requests sched) :=
        history each_sound_empty requests sched
      have hs : StoreStep cfg turn.2 (run cfg requests sched).shared
          (run cfg requests (sched ++ [turn])).shared := by
        simp only [run, runFrom, Machine.exec_snoc, Machine.turn_shared]
        exact Call.step_store (hi.read turn.1)
      obtain ⟨g, hg, hf, he⟩ := hs.complete hr ho hp hx
      have hw := run_window cfg requests sched groupId g hg
      have hc := (run_custody cfg requests sched).1 groupId g hg
      obtain ⟨row, hrw, hm⟩ := hw.complete.mp hf
      refine ⟨sched, [turn], g, row.record, rfl, hg, ho, ?_, ?_⟩
      · rw [log_of_group hg]
        exact List.mem_map_of_mem hrw
      · rw [he]
        exact (closesFanOut_iff hc hw row.record).mp hm

theorem createGroup_stored (now : Time) (s : MemoryStore) (request : CreateGroupRequest) :
    ∀ r ∈ (Call.created request (createGroup cfg now s request).2).stored, r.epoch = 0 := by
  rcases createGroup_cases cfg now s request with ⟨-, hst⟩ | ⟨initial, _, he, -, -, -, hst⟩
  · simp [hst]
  · simpa [hst, stamp] using he

def Call.Founding : Call → Prop
  | .created request result => ∀ r ∈ (Call.created request result).stored, r.epoch = 0
  | _ => True

theorem founding (i : ι) : ((run cfg requests sched).calls i).Founding := by
  refine Machine.exec_calls (w := initial .empty requests) (A := fun _ => Call.Founding)
    (fun _ now s c hc => ?_) (fun _ => trivial) sched i
  cases c with
  | start request =>
    cases request with
    | createGroup request => exact createGroup_stored cfg now s request
    | closeGroup => trivial
    | submit request =>
      simp only [machine, Call.step]
      split
      · trivial
      · split <;> trivial
  | waiting request batch =>
    simp only [machine, Call.step]
    split <;> trivial
  | created => exact hc
  | closed | failed | answering | submitted => trivial

theorem Call.Founding.submitted {c : Call} (h : c.Founding) {r : Record} (hr : r ∈ c.stored)
    (hp : 1 ≤ r.epoch) :
    ∃ request batch, c = .submitted request batch ∧ r ∈ appended batch := by
  cases c with
  | created request result =>
    have := h r hr
    omega
  | submitted request batch => exact ⟨request, batch, rfl, hr⟩
  | start | closed | failed | answering | waiting => cases hr

/--
Every ordinary record of an epoch after the first has the marker of its epoch before it in the log.
-/
theorem fan_out_window (cfg : Config) (requests : ι → Request) (sched : List (ι × Time))
    (groupId : Bytes) (g : MemoryGroup)
    (hg : (run cfg requests sched).shared.groups groupId = some g) :
    (∀ r ∈ g.records.map (·.record), 1 ≤ r.epoch → exemptFromEpochComplete r = false →
      ∃ m ∈ g.records.map (·.record), m.recordId < r.recordId ∧ ClosesEpoch g r.epoch m ∧
        ∃ p q i request batch, sched = p ++ q ∧
          (run cfg requests p).calls i = .submitted request batch ∧ request.groupId = groupId ∧
          m ∈ appended batch ∧ r ∉ (run cfg requests p).shared.log groupId) ∧
    (g.epochComplete = true ↔ ∃ m ∈ g.records.map (·.record), ClosesEpoch g g.currentEpoch m) := by
  have hw := run_window cfg requests sched groupId g hg
  have hc := (run_custody cfg requests sched).1 groupId g hg
  refine ⟨fun r hr hp hx => ?_, ?_⟩
  · rw [← log_of_group hg] at hr
    obtain ⟨p, q, g₀, m, rfl, hg₀, hn, hm, hcl⟩ :=
      exists_marker_before cfg requests groupId r hp hx sched hr
    obtain ⟨g', hg', hgr⟩ := runFrom_grows each_sound_empty requests p q groupId g₀ hg₀
    cases hg.symm.trans hg'
    obtain ⟨L, hL, -⟩ := run_sound cfg requests (p ++ q) groupId g hg
    rw [log_of_group hg₀] at hm hn
    obtain ⟨later, hl⟩ := hgr.records.map (·.record)
    obtain ⟨i, hi, hs⟩ := (mem_log_iff cfg requests p groupId m).mp (log_of_group hg₀ ▸ hm)
    obtain ⟨request, batch, hca, ha⟩ := (founding cfg requests p i).submitted hs (hcl.epoch ▸ hp)
    refine ⟨m, hl ▸ List.mem_append_left _ hm, ?_, hcl.grows hgr, p, q, i, request, batch,
      rfl, hca, ?_, ha, log_of_group hg₀ ▸ hn⟩
    · have ho := L.ordered
      rw [← hL.log, ← hl] at ho
      rw [log_of_group hg, ← hl] at hr
      exact ho.id_lt_of_append hm ((List.mem_append.mp hr).resolve_left hn)
    · exact (congrArg Call.groupId hca).symm.trans hi
  · rw [hw.complete]
    simp only [closesFanOut_iff hc hw, List.mem_map, exists_exists_and_eq_and]

theorem fan_out_window_race : ∃ g,
    (run Sample.config Sample.race Sample.raceOrder).shared.groups Sample.groupId = some g ∧
      (g.epochComplete = true ↔ ∃ m ∈ g.records.map (·.record), ClosesEpoch g g.currentEpoch m) ∧
      ∃ r ∈ g.records.map (·.record), r.isCommit = true ∧ r.epoch = 1 ∧
        ∃ m ∈ g.records.map (·.record), m.recordId < r.recordId ∧ ClosesEpoch g 1 m := by
  have h := fan_out_window Sample.config Sample.race Sample.raceOrder Sample.groupId _ rfl
  obtain ⟨m, hm, hlt, hc, -⟩ := h.1 (stamp (Sample.commit Sample.alice 1 3) 3)
    (List.mem_of_getElem? (i := 2) rfl) le_rfl rfl
  exact ⟨_, rfl, h.2, _, List.mem_of_getElem? (i := 2) rfl, rfl, rfl, m, hm, hlt, hc⟩

end Main

end MessageServer.Store
