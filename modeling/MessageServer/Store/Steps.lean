import MessageServer.Store.Transaction

/-! # What a step of a call does to the store

A step of any call leaves the store alone, founds a group, closes one, or
appends admitted records to one. Every invariant of the store is derived from
these cases alone, whatever the calls are and however they are interleaved.
-/

namespace MessageServer.Store

open Interleaving

inductive GroupStep (cfg : Config) (now : Time) : Option MemoryGroup → MemoryGroup → Prop
  | found {request : CreateGroupRequest} {initial : Record} {opening : EpochOpening}
      (valid : validateCreate request = .ok initial) (commits : initial.isCommit = true)
      (epoch : initial.epoch = 0)
      (wellFormed : wellFormedEpochAttachment initial 1 request.epochKeys = true)
      (opens : openingOf initial request.epochKeys = some opening) :
      GroupStep cfg now none (foundGroup cfg now request initial opening)
  | close {g : MemoryGroup} (opened : g.closed = false) :
      GroupStep cfg now (some g) { g with closed := true, closeTime := some now }
  | append {g g' : MemoryGroup} {keys : Option EpochKeyDelivery} {records : List Record}
      (opened : g.closed = false) (alone : Alone records)
      (appends : Appends cfg now g.epochComplete keys (g.reserve records.length) g.nextRecordId
        records g') :
      GroupStep cfg now (some g) g'

/-- One change of the store, in one group or in none. -/
inductive StoreStep (cfg : Config) (now : Time) (s : MemoryStore) : MemoryStore → Prop
  | refl : StoreStep cfg now s s
  | group {groupId : Bytes} {g : MemoryGroup} (shape : groupId.length = groupIdBytes)
      (step : GroupStep cfg now (s.groups groupId) g) : StoreStep cfg now s (s.setGroup groupId g)

namespace MemoryStore

variable {s : MemoryStore} {groupId : Bytes} {g : MemoryGroup}

@[simp] theorem setGroup_self : (s.setGroup groupId g).groups groupId = some g := by
  simp [setGroup]

theorem setGroup_of_ne {other : Bytes} (h : other ≠ groupId) :
    (s.setGroup groupId g).groups other = s.groups other := by
  simp [setGroup, h]

theorem setGroup_eq_self (h : s.groups groupId = some g) : s.setGroup groupId g = s := by
  simp [setGroup, ← h]

def Each (P : MemoryGroup → Prop) (s : MemoryStore) : Prop :=
  ∀ groupId g, s.groups groupId = some g → P g

end MemoryStore

section Lift

variable {cfg : Config} {now : Time} {s s' : MemoryStore} {P : MemoryGroup → Prop}

theorem StoreStep.each (hP : ∀ o g, GroupStep cfg now o g → (∀ g₀, o = some g₀ → P g₀) → P g)
    (h : StoreStep cfg now s s') (hs : s.Each P) : s'.Each P := by
  cases h with
  | refl => exact hs
  | @group groupId g _ step =>
    intro other g' hg'
    by_cases ho : other = groupId
    · subst ho
      rw [MemoryStore.setGroup_self] at hg'
      exact Option.some.inj hg' ▸ hP _ _ step (fun g₀ hg₀ => hs _ _ hg₀)
    · rw [MemoryStore.setGroup_of_ne ho] at hg'
      exact hs _ _ hg'

theorem StoreStep.rel {R : MemoryGroup → MemoryGroup → Prop} (refl : ∀ g, R g g)
    (hR : ∀ g₀ g, GroupStep cfg now (some g₀) g → P g₀ → R g₀ g) (h : StoreStep cfg now s s')
    (hs : s.Each P) {groupId : Bytes} {g : MemoryGroup} (hg : s.groups groupId = some g) :
    ∃ g', s'.groups groupId = some g' ∧ R g g' := by
  cases h with
  | refl => exact ⟨g, hg, refl g⟩
  | @group other g' _ step =>
    by_cases ho : groupId = other
    · subst ho
      rw [hg] at step
      exact ⟨g', by simp, hR g g' step (hs _ _ hg)⟩
    · exact ⟨g, by rw [MemoryStore.setGroup_of_ne ho, hg], refl g⟩

end Lift

section Validate

variable {request : SubmitRequest}

theorem alone_iff {records : List Record} : Alone records ↔
    ¬ (records.any (·.isCommit) = true ∧ records.length ≠ 1) := by
  constructor
  · rintro h ⟨ha, hl⟩
    obtain ⟨r, hr, hc⟩ := List.any_eq_true.mp ha
    exact hl (by rw [h r hr hc]; rfl)
  · intro h r hr hc
    have hl : records.length = 1 := by
      by_contra hl
      exact h ⟨List.any_eq_true.mpr ⟨r, hr, hc⟩, hl⟩
    obtain ⟨x, rfl⟩ := List.length_eq_one_iff.mp hl
    rw [List.mem_singleton.mp hr]

theorem forM_eq_ok {α ε : Type} {f : α → Except ε Unit} {l : List α} :
    l.forM f = .ok () ↔ ∀ a ∈ l, f a = .ok () := by
  induction l with
  | nil => simp [pure, Except.pure]
  | cons a l ih =>
    change (f a >>= fun _ => l.forM f) = .ok () ↔ _
    rw [bind_eq_ok, ih, List.forall_mem_cons]

theorem validateSubmit_eq_ok : validateSubmit request = .ok () ↔
    request.groupId.length = groupIdBytes ∧ request.records ≠ [] ∧
      request.records.forM validateRecord = .ok () ∧ Alone request.records := by
  simp only [validateSubmit, bind_eq_ok, failIf_eq_ok, checkLength, not_not, alone_iff, ne_eq]

theorem alone_of_validateSubmit (h : validateSubmit request = .ok ()) : Alone request.records :=
  (validateSubmit_eq_ok.mp h).2.2.2

theorem validateCreate_eq_ok {request : CreateGroupRequest} {initial : Record} :
    validateCreate request = .ok initial ↔ request.groupId.length = groupIdBytes ∧
      request.bootstrapWriteKey.length = epochKeyBytes ∧ request.initialCommit = some initial ∧
      validateRecord initial = .ok () := by
  simp only [validateCreate, bind_eq_ok, failIf_eq_ok, checkLength, not_not, ne_eq]
  cases request.initialCommit with
  | none => simp
  | some r =>
    simp only [bind_eq_ok, pure, Except.pure, Except.ok.injEq, Option.some.injEq]
    constructor
    · rintro ⟨hg, hb, hr, rfl⟩
      exact ⟨hg, hb, rfl, hr⟩
    · rintro ⟨hg, hb, rfl, hr⟩
      exact ⟨hg, hb, hr, rfl⟩

end Validate

section Probe

variable (cfg : Config) (s : MemoryStore) (request : SubmitRequest) (batch : List Pending)

@[simp] theorem probeOne_record (g : MemoryGroup) (p : Pending) :
    (probeOne cfg g p).record = p.record := by
  unfold probeOne
  split
  · rfl
  · split <;> rfl

theorem map_record_probed : (probed cfg s request).map (·.record) = request.records := by
  unfold probed probe
  cases s.groups request.groupId <;> simp [Function.comp_def]

theorem map_record_settle : (settle batch).map (·.record) = batch.map (·.record) := by
  simp [settle, Function.comp_def]

theorem map_record_markRefused (offender : ℕ) (reason : Reason) :
    (markRefused batch offender reason).map (·.record) = batch.map (·.record) := by
  refine List.ext_getElem (by simp [markRefused]) fun i h₁ h₂ => ?_
  simp only [markRefused, List.getElem_map, List.getElem_mapIdx]
  split <;> rfl

/-- The four ways out of step (0). -/
theorem submitProbe_cases :
    (∃ offender, (probed cfg s request).findIdx? (·.probe = .differs) = some offender ∧
      submitProbe cfg s request =
        .answering (markRefused (probed cfg s request) offender .streamIndexReused)) ∨
    ((probed cfg s request).findIdx? (·.probe = .differs) = none ∧
      ((settle (probed cfg s request)).all (·.settled) = true ∧
        submitProbe cfg s request = .answering (settle (probed cfg s request)) ∨
      (settle (probed cfg s request)).all (·.settled) = false ∧ (s.groups request.groupId = none ∧
          submitProbe cfg s request = .unavailable (settle (probed cfg s request)) ∨
        (∃ g, s.groups request.groupId = some g) ∧
          submitProbe cfg s request = .waiting (settle (probed cfg s request))))) := by
  unfold submitProbe
  dsimp only
  split
  · rename_i offender h
    exact .inl ⟨offender, h, rfl⟩
  · rename_i h
    refine .inr ⟨h, ?_⟩
    split
    · rename_i ha
      exact .inl ⟨ha, rfl⟩
    · rename_i ha
      refine .inr ⟨by simpa using ha, ?_⟩
      split
      · rename_i hg
        exact .inl ⟨hg, rfl⟩
      · rename_i g hg
        exact .inr ⟨⟨g, hg⟩, rfl⟩

variable {cfg s request} in
theorem submitProbe_waiting {batch : List Pending}
    (h : submitProbe cfg s request = .waiting batch) :
    batch = settle (probed cfg s request) ∧ (∀ p ∈ probed cfg s request, p.probe ≠ .differs) ∧
      ∃ g, s.groups request.groupId = some g := by
  rcases submitProbe_cases cfg s request with
    ⟨_, -, hp⟩ | ⟨hd, ⟨-, hp⟩ | ⟨-, ⟨-, hp⟩ | ⟨hg, hp⟩⟩⟩ <;> rw [hp] at h
  · cases h
  · cases h
  · cases h
  · cases h
    exact ⟨rfl, by simpa using hd, hg⟩

variable {cfg s request} in
theorem submitProbe_answering {batch : List Pending}
    (h : submitProbe cfg s request = .answering batch) :
    (∃ offender, (probed cfg s request).findIdx? (·.probe = .differs) = some offender ∧
      batch = markRefused (probed cfg s request) offender .streamIndexReused) ∨
    (batch = settle (probed cfg s request) ∧ ∀ p ∈ probed cfg s request, p.probe = .identical) := by
  rcases submitProbe_cases cfg s request with
    ⟨o, ho, hp⟩ | ⟨-, ⟨ha, hp⟩ | ⟨-, ⟨-, hp⟩ | ⟨-, hp⟩⟩⟩ <;> rw [hp] at h
  · cases h
    exact .inl ⟨o, ho, rfl⟩
  · cases h
    exact .inr ⟨rfl, by simpa [settle] using ha⟩
  · cases h
  · cases h

end Probe

/--
A submission between its steps carries what step (0) read off some store, of which `R` is true.
-/
def Call.ReadFrom (cfg : Config) (R : MemoryStore → Prop) : Call → Prop
  | .answering request batch =>
    validateSubmit request = .ok () ∧ ∃ s, R s ∧ submitProbe cfg s request = .answering batch
  | .waiting request batch =>
    validateSubmit request = .ok () ∧ ∃ s, R s ∧ submitProbe cfg s request = .waiting batch
  | _ => True

theorem Call.ReadFrom.mono {cfg : Config} {R R' : MemoryStore → Prop} {c : Call}
    (h : c.ReadFrom cfg R) (hR : ∀ s, R s → R' s) : c.ReadFrom cfg R' := by
  cases c with
  | answering | waiting =>
    obtain ⟨hv, s, hs, hp⟩ := h
    exact ⟨hv, s, hR s hs, hp⟩
  | start | created | closed | failed | submitted => trivial

section Step

variable {cfg : Config} {now : Time} {s : MemoryStore} {R : MemoryStore → Prop} {c : Call}

theorem createGroup_step (request : CreateGroupRequest) :
    StoreStep cfg now s (createGroup cfg now s request).1 := by
  unfold createGroup
  split
  · exact .refl
  · split
    · exact .refl
    · rename_i initial hv hs
      simp only [not_or, not_not] at hs
      split
      · rename_i opening ho hg
        refine .group (validateCreate_eq_ok.mp hv).1 ?_
        rw [hg]
        exact .found hv hs.1 hs.2.1 hs.2.2 ho
      · exact .refl

theorem closeGroup_step (groupId : Bytes) : StoreStep cfg now s (closeGroup now s groupId).1 := by
  unfold closeGroup
  split
  · exact .refl
  · rename_i hl
    split
    · exact .refl
    · rename_i g hg
      cases hc : g.closed with
      | true => exact .refl
      | false =>
        refine .group (not_not.mp (failIf_eq_ok.mp hl)) ?_
        rw [hg]
        exact .close hc

theorem submitLocked_step (cfg : Config) (now : Time) {groupId : Bytes} {g : MemoryGroup}
    (hl : groupId.length = groupIdBytes) (hg : s.groups groupId = some g) {batch : List Pending}
    (ha : Alone (batch.map (·.record))) (keys : Option EpochKeyDelivery) :
    StoreStep cfg now s (s.setGroup groupId (submitLocked cfg now g keys batch).1) := by
  rcases submitLocked_group cfg now g keys ha with h | ⟨hc, h⟩
  · rw [h, MemoryStore.setGroup_eq_self hg]
    exact .refl
  · refine .group hl ?_
    rw [hg]
    exact .append hc (alone_fresh ha) h

theorem submit_step (request : SubmitRequest) :
    StoreStep cfg now s (submit cfg now s request).1 := by
  unfold submit
  split
  · exact .refl
  · rename_i hv
    unfold submitBatch
    split
    · exact .refl
    · rename_i g hp hg
      refine submitLocked_step cfg now (validateSubmit_eq_ok.mp hv).1 hg ?_ request.epochKeys
      rw [(submitProbe_waiting hp).1, map_record_settle, map_record_probed]
      exact alone_of_validateSubmit hv
    · exact .refl
    · exact .refl

/-- A step of a call is one change of the store. -/
theorem Call.step_store (h : c.ReadFrom cfg R) : StoreStep cfg now s (c.step cfg now s).1 := by
  cases c with
  | start request =>
    cases request with
    | createGroup request => exact createGroup_step request
    | closeGroup groupId => exact closeGroup_step groupId
    | submit request =>
      unfold Call.step
      dsimp only
      split
      · exact .refl
      · split <;> exact .refl
  | waiting request batch =>
    unfold Call.step
    dsimp only
    split
    · exact .refl
    · rename_i g hg
      obtain ⟨hv, s₀, -, hp⟩ := h
      refine submitLocked_step cfg now (validateSubmit_eq_ok.mp hv).1 hg ?_ request.epochKeys
      rw [(submitProbe_waiting hp).1, map_record_settle, map_record_probed]
      exact alone_of_validateSubmit hv
  | created | closed | failed | answering | submitted => exact .refl

theorem Call.readFrom_step (h : c.ReadFrom cfg R) (hs : R s) :
    (c.step cfg now s).2.ReadFrom cfg R := by
  cases c with
  | start request =>
    cases request with
    | createGroup | closeGroup => trivial
    | submit request =>
      unfold Call.step
      dsimp only
      cases hv : validateSubmit request with
      | error e => trivial
      | ok _ =>
        cases hp : submitProbe cfg s request with
        | unavailable => trivial
        | answering | waiting => exact ⟨hv, s, hs, hp⟩
  | waiting request batch =>
    unfold Call.step
    dsimp only
    split
    · exact h
    · trivial
  | created | closed | failed | answering | submitted => trivial

end Step

section Run

variable {cfg : Config} {ι : Type*} [DecidableEq ι]

theorem invariant_of_step {P : MemoryStore → Prop}
    (hP : ∀ now s s', StoreStep cfg now s s' → P s → P s') :
    (machine cfg).Invariant P fun _ c => c.ReadFrom cfg fun _ => True where
  shared _ _ _ hs hc := hP _ _ _ (Call.step_store hc) hs
  own _ _ _ _ hc := Call.readFrom_step hc trivial
  others _ _ _ _ _ _ hc := hc

theorem runFrom_each {P : MemoryGroup → Prop}
    (hP : ∀ now o g, GroupStep cfg now o g → (∀ g₀, o = some g₀ → P g₀) → P g) {s : MemoryStore}
    (hs : s.Each P) (requests : ι → Request) (sched : List (ι × Time)) :
    (runFrom cfg s requests sched).shared.Each P :=
  ((invariant_of_step fun now _ _ h => h.each (hP now)).exec (w := initial s requests) hs
    (fun _ => trivial) sched).1

end Run

end MessageServer.Store
