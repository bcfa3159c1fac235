import MessageServer.Store.Commits

/-! # Recovery handles are pinned on first use

The pins of a group are a reading of its log: a handle is pinned to the key of
the records that carry it. The gates check a batch against its own pins and
those of the group, the writes pin what is not pinned yet, and the two agree at
every record.
-/

namespace MessageServer.Store

open Interleaving

def Record.Binds (record : Record) (handle verifyPub : Bytes) : Prop :=
  ∃ tag, recoveryTagOf record = some tag ∧ tag.handle = handle ∧ tag.verifyPub = verifyPub

namespace MemoryGroup

def Pins (g : MemoryGroup) (handle verifyPub : Bytes) : Prop :=
  ∃ row, g.recovery handle = some row ∧ row.verifyPub = verifyPub

def PinsLog (g : MemoryGroup) : Prop :=
  ∀ handle verifyPub, g.Pins handle verifyPub ↔ ∃ row ∈ g.records, row.record.Binds handle verifyPub

end MemoryGroup

/-- A later state of a group, in which every pin is as it was. -/
def KeepsPins (g g' : MemoryGroup) : Prop :=
  ∀ handle row, g.recovery handle = some row → g'.recovery handle = some row

section Write

variable {g g' : MemoryGroup} {cfg : Config} {now : Time} {complete : Bool}
  {keys : Option EpochKeyDelivery} {record : Record} {id : ℕ} {records : List Record}

/-- The row that a record's own tag would pin at a handle. -/
def ownPin (now : Time) (record : Record) (handle : Bytes) : Option RecoveryRow :=
  (recoveryTagOf record).bind fun tag =>
    if tag.handle = handle then some ⟨tag.verifyPub, tag.algId, now⟩ else none

theorem pinRecovery_recovery (handle : Bytes) : (g.pinRecovery now record).recovery handle =
    (g.recovery handle).or (ownPin now record handle) := by
  unfold MemoryGroup.pinRecovery ownPin
  cases recoveryTagOf record with
  | none => simp
  | some tag =>
    by_cases hh : tag.handle = handle
    · subst hh
      cases hr : g.recovery tag.handle <;> simp [hr]
    · cases hr : g.recovery tag.handle <;>
        simp [hr, hh, Function.update_of_ne (Ne.symm hh)]

theorem pinRecovery_keeps : KeepsPins g (g.pinRecovery now record) := by
  intro handle row hr
  rw [pinRecovery_recovery, hr, Option.some_or]

theorem write_keeps (h : KeepsPins g g') : KeepsPins g
    (g'.write cfg now g'.currentEpoch keys record) := by
  intro handle row hr
  rw [MemoryGroup.write_recovery]
  exact pinRecovery_keeps handle row (h handle row hr)

theorem Appends.keepsPins (h : Appends cfg now complete keys g id records g') : KeepsPins g g' := by
  induction h with
  | nil => exact fun _ _ hr => hr
  | cons _ _ ih => exact fun handle row hr => ih handle row (write_keeps (fun _ _ h => h) _ _ hr)

theorem pins_pinRecovery (hp : ∀ tag row, recoveryTagOf record = some tag →
    g.recovery tag.handle = some row → row.verifyPub = tag.verifyPub) (handle verifyPub : Bytes) :
    (g.pinRecovery now record).Pins handle verifyPub ↔
      g.Pins handle verifyPub ∨ record.Binds handle verifyPub := by
  constructor
  · rintro ⟨row, hr, rfl⟩
    rw [pinRecovery_recovery] at hr
    rcases Option.or_eq_some_iff.mp hr with hol | ⟨-, ho⟩
    · exact .inl ⟨row, hol, rfl⟩
    · obtain ⟨tag, ht, ho⟩ := Option.bind_eq_some_iff.mp ho
      split at ho
      next hh =>
        cases ho
        exact .inr ⟨tag, ht, hh, rfl⟩
      · cases ho
  · rintro (⟨row, hr, hpb⟩ | ⟨tag, ht, rfl, rfl⟩)
    · exact ⟨row, pinRecovery_keeps _ _ hr, hpb⟩
    · cases hr : g.recovery tag.handle with
      | some row => exact ⟨row, pinRecovery_keeps _ _ hr, hp tag row ht hr⟩
      | none =>
        refine ⟨⟨tag.verifyPub, tag.algId, now⟩, ?_, rfl⟩
        simp [pinRecovery_recovery, hr, ownPin, ht]

theorem Admitted.pinsLog (h : Admitted g complete keys record) (hg : g.PinsLog) :
    (g.write cfg now g.currentEpoch keys (stamp record id)).PinsLog := by
  intro handle verifyPub
  have hp : (g.pinRecovery now (stamp record id)).Pins handle verifyPub ↔ _ :=
    pins_pinRecovery h.pinned handle verifyPub
  unfold MemoryGroup.Pins at hp ⊢
  rw [MemoryGroup.write_recovery, hp, MemoryGroup.write_records]
  simp only [List.mem_append, List.mem_singleton, or_and_right, exists_or, exists_eq_left]
  exact or_congr_left (hg handle verifyPub)

theorem Appends.pinsLog (h : Appends cfg now complete keys g id records g') (hg : g.PinsLog) :
    g'.PinsLog := by
  induction h with
  | nil => exact hg
  | cons ha _ ih => exact ih (ha.pinsLog hg)

end Write

section Step

variable {cfg : Config} {now : Time}

theorem foundGroup_pinsLog (request : CreateGroupRequest) (initial : Record)
    (opening : EpochOpening) : (foundGroup cfg now request initial opening).PinsLog := by
  intro handle verifyPub
  simp only [MemoryGroup.Pins, foundGroup, List.mem_singleton, exists_eq_left, Record.Binds]
  cases recoveryTagOf (stamp initial firstRecordId) with
  | none => simp
  | some tag =>
    simp only [Option.some.injEq, exists_eq_left']
    by_cases hh : tag.handle = handle
    · subst hh
      simp
    · simp [hh, Function.update_of_ne (Ne.symm hh)]

theorem GroupStep.pinsLog (o : Option MemoryGroup) (g : MemoryGroup) (h : GroupStep cfg now o g)
    (hg : ∀ g₀, o = some g₀ → g₀.PinsLog) : g.PinsLog := by
  cases h with
  | found => exact foundGroup_pinsLog _ _ _
  | @close g => exact hg g rfl
  | @append g _ _ records _ _ ha =>
    have hr : (g.reserve records.length).PinsLog := hg g rfl
    exact ha.pinsLog hr

theorem GroupStep.keepsPins (g₀ g : MemoryGroup) (h : GroupStep cfg now (some g₀) g) :
    KeepsPins g₀ g := by
  cases h with
  | close => exact fun _ _ hr => hr
  | append _ _ ha => exact ha.keepsPins

end Step

section Refused

variable {cfg : Config} {now : Time} {s : MemoryStore}

/-- The call has been told that everything it asked for was accepted. -/
def Call.Accepted : Call → Prop
  | .created _ (.ok result) => accepted result.reason = true
  | .closed _ (.ok _) => True
  | .submitted _ batch => ∀ p ∈ batch, accepted p.result.reason = true
  | _ => False

theorem Call.step_refused {R : MemoryStore → Prop} {c : Call} (h : c.ReadFrom cfg R)
    (hr : ¬ (c.step cfg now s).2.Accepted) : (c.step cfg now s).1 = s := by
  cases c with
  | start request =>
    cases request with
    | createGroup request =>
      unfold Call.step createGroup at hr ⊢
      dsimp only at hr ⊢
      split
      · rfl
      next hv =>
        rw [hv] at hr
        dsimp only at hr
        split
        · rfl
        next hs =>
          rw [if_neg hs] at hr
          split
          next opening hop hgr =>
            rw [hop, hgr] at hr
            exact (hr (by simp [Call.Accepted])).elim
          · rfl
    | closeGroup groupId =>
      unfold Call.step closeGroup at hr ⊢
      dsimp only at hr ⊢
      split
      · rfl
      next hv =>
        rw [hv] at hr
        dsimp only at hr
        split
        · rfl
        next g hgr =>
          rw [hgr] at hr
          dsimp only at hr
          split
          · rfl
          next ho =>
            rw [if_neg ho] at hr
            exact (hr trivial).elim
    | submit request =>
      unfold Call.step
      dsimp only
      split
      · rfl
      · split <;> rfl
  | waiting request batch =>
    obtain ⟨hv, s₀, -, hpr⟩ := h
    unfold Call.step at hr ⊢
    dsimp only at hr ⊢
    cases hg : s.groups request.groupId with
    | none => rfl
    | some g =>
      rw [hg] at hr
      dsimp only at hr ⊢
      rcases submitLocked_outcome cfg now g request.epochKeys batch with ⟨hsm, -⟩ | ⟨ho, hgt⟩
      · rw [hsm, MemoryStore.setGroup_eq_self hg]
      · refine (hr ?_).elim
        rw [submitLocked_of_passed cfg now ho hgt]
        intro p hp
        refine accepted_written (fun q hq => ?_) hp
        rw [(submitProbe_waiting hpr).1] at hq
        exact accepted_settle_probed hq
  | created | closed | failed | answering | submitted => rfl

end Refused

section Independent

variable {cfg : Config} {now : Time} {s s' : MemoryStore} {groupId : Bytes}

theorem createGroup_local {request : CreateGroupRequest}
    (h : s.groups request.groupId = s'.groups request.groupId) :
    (createGroup cfg now s request).2 = (createGroup cfg now s' request).2 ∧
      (createGroup cfg now s request).1.groups request.groupId =
        (createGroup cfg now s' request).1.groups request.groupId := by
  unfold createGroup
  split
  · exact ⟨rfl, h⟩
  · split
    · exact ⟨rfl, h⟩
    · rw [← h]
      split
      · simp
      · exact ⟨rfl, h⟩

theorem closeGroup_local (h : s.groups groupId = s'.groups groupId) :
    (closeGroup now s groupId).2 = (closeGroup now s' groupId).2 ∧
      (closeGroup now s groupId).1.groups groupId =
        (closeGroup now s' groupId).1.groups groupId := by
  unfold closeGroup
  split
  · exact ⟨rfl, h⟩
  · rw [← h]
    split
    · exact ⟨rfl, h⟩
    · split
      · exact ⟨rfl, h⟩
      · simp

theorem submitProbe_local {request : SubmitRequest}
    (h : s.groups request.groupId = s'.groups request.groupId) :
    submitProbe cfg s request = submitProbe cfg s' request := by
  unfold submitProbe probed
  rw [h]

theorem Call.step_local (c : Call) (h : s.groups c.groupId = s'.groups c.groupId) :
    (c.step cfg now s).2 = (c.step cfg now s').2 ∧
      (c.step cfg now s).1.groups c.groupId = (c.step cfg now s').1.groups c.groupId := by
  cases c with
  | start request =>
    cases request with
    | createGroup request =>
      exact ⟨congrArg (Call.created request) (createGroup_local h).1, (createGroup_local h).2⟩
    | closeGroup groupId =>
      exact ⟨congrArg (Call.closed groupId) (closeGroup_local h).1, (closeGroup_local h).2⟩
    | submit request =>
      unfold Call.step
      dsimp only
      split
      · exact ⟨rfl, h⟩
      · rw [submitProbe_local h]
        split <;> exact ⟨rfl, h⟩
  | answering request batch =>
    exact ⟨congrArg (fun group => Call.submitted request (fillCurrentEpoch group batch)) h, h⟩
  | waiting request batch =>
    change s.groups request.groupId = s'.groups request.groupId at h
    unfold Call.step
    dsimp only
    rw [← h]
    split
    next hn => exact ⟨rfl, h⟩
    · simp [Call.groupId]
  | created | closed | failed | submitted => exact ⟨rfl, h⟩

theorem Call.step_other (c : Call) (h : groupId ≠ c.groupId) :
    (c.step cfg now s).1.groups groupId = s.groups groupId := by
  cases c with
  | start request =>
    cases request with
    | createGroup request =>
      unfold Call.step createGroup
      dsimp only
      split
      · rfl
      · split
        · rfl
        · split
          · exact MemoryStore.setGroup_of_ne h
          · rfl
    | closeGroup groupId =>
      unfold Call.step closeGroup
      dsimp only
      split
      · rfl
      · split
        · rfl
        · split
          · rfl
          · exact MemoryStore.setGroup_of_ne h
    | submit request =>
      unfold Call.step
      dsimp only
      split
      · rfl
      · split <;> rfl
  | waiting request batch =>
    unfold Call.step
    dsimp only
    split
    · rfl
    · exact MemoryStore.setGroup_of_ne h
  | created | closed | failed | answering | submitted => rfl

end Independent

section Run

variable {ι : Type*} [DecidableEq ι] (cfg : Config)

theorem parted : (machine cfg).Parted Call.groupId fun k s => s.groups k where
  named _ _ c := c.groupId_step
  answers _ _ _ c h := (c.step_local h).1
  writes _ _ _ c h := (c.step_local h).2
  others _ _ c _ h := c.step_other h

def turnsOn (groupId : Bytes) (requests : ι → Request) (sched : List (ι × Time)) :
    List (ι × Time) :=
  sched.filter fun m => (Call.start (requests m.1)).groupId = groupId

variable (requests : ι → Request) (sched : List (ι × Time))

theorem run_pinsLog : (run cfg requests sched).shared.Each MemoryGroup.PinsLog :=
  runFrom_each (fun _ => GroupStep.pinsLog) (by rintro _ _ ⟨⟩) requests sched

theorem run_readFrom (i : ι) : ((run cfg requests sched).calls i).ReadFrom cfg fun _ => True :=
  ((invariant_of_step (P := fun _ => True) fun _ _ _ _ _ => trivial).exec
    (w := initial .empty requests) trivial (fun _ => trivial) sched).2 i

theorem run_keepsPins (sched more : List (ι × Time)) {groupId : Bytes} {g : MemoryGroup}
    (hg : (run cfg requests sched).shared.groups groupId = some g) :
    ∃ g', (run cfg requests (sched ++ more)).shared.groups groupId = some g' ∧ KeepsPins g g' := by
  let R : MemoryStore → MemoryStore → Prop := fun s s' => ∀ groupId g,
    s.groups groupId = some g → ∃ g', s'.groups groupId = some g' ∧ KeepsPins g g'
  have ht : ∀ {a b c}, R a b → R b c → R a c := by
    intro a b c hab hbc groupId g hg
    obtain ⟨g', hg', hk⟩ := hab groupId g hg
    obtain ⟨g'', hg'', hk'⟩ := hbc groupId g' hg'
    exact ⟨g'', hg'', fun handle row hrw => hk' handle row (hk handle row hrw)⟩
  have hs : ∀ now s (c : Call), True → c.ReadFrom cfg (fun _ => True) →
      R s (c.step cfg now s).1 := by
    intro now s c _ hr groupId g hg
    exact (Call.step_store hr).rel (P := fun _ => True) (fun _ _ _ h => h)
      (fun g₀ g h _ => h.keepsPins g₀ g) (fun _ _ _ => trivial) hg
  rw [run, runFrom, Machine.exec_append]
  have hi : (machine cfg).Invariant (fun _ => True) fun _ c =>
      c.ReadFrom cfg fun _ => True := invariant_of_step fun _ _ _ _ _ => trivial
  exact hi.exec_rel (R := R) (fun _ _ g hg => ⟨g, hg, fun _ _ h => h⟩) ht hs trivial
    (run_readFrom cfg requests sched) more groupId g hg

/--
In every run the pins of a group are the bindings of its stored records; they stand from then on,
and the calls on other groups make no difference.
-/
theorem recovery_pinned_on_first_use (cfg : Config) (requests : ι → Request)
    (sched more : List (ι × Time)) :
    (∀ groupId g, (run cfg requests sched).shared.groups groupId = some g →
      (∀ handle verifyPub, g.Pins handle verifyPub ↔
        ∃ row ∈ g.records, row.record.Binds handle verifyPub) ∧
      (∀ row ∈ g.records, ∀ row' ∈ g.records, ∀ handle verifyPub verifyPub',
        row.record.Binds handle verifyPub → row'.record.Binds handle verifyPub' →
          verifyPub = verifyPub') ∧
      ∃ g', (run cfg requests (sched ++ more)).shared.groups groupId = some g' ∧
        ∀ handle row, g.recovery handle = some row → g'.recovery handle = some row) ∧
    (∀ i now, ¬ ((run cfg requests (sched ++ [(i, now)])).calls i).Accepted →
      (run cfg requests (sched ++ [(i, now)])).shared = (run cfg requests sched).shared) ∧
    ∀ groupId, (run cfg requests sched).shared.groups groupId =
        (run cfg requests (turnsOn groupId requests sched)).shared.groups groupId ∧
      ∀ i, (Call.start (requests i)).groupId = groupId → (run cfg requests sched).calls i =
          (run cfg requests (turnsOn groupId requests sched)).calls i := by
  refine ⟨?_, ?_, ?_⟩
  · intro groupId g hg
    have hl := run_pinsLog cfg requests sched groupId g hg
    refine ⟨hl, ?_, ?_⟩
    · intro row hrw row' hr' handle verifyPub verifyPub' hb hb'
      obtain ⟨pin, hp, rfl⟩ := (hl handle verifyPub).mpr ⟨row, hrw, hb⟩
      obtain ⟨pin', hp', rfl⟩ := (hl handle verifyPub').mpr ⟨row', hr', hb'⟩
      rw [hp, Option.some.injEq] at hp'
      rw [hp']
    · exact run_keepsPins cfg requests sched more hg
  · intro i now hr
    rw [run, runFrom_snoc_calls] at hr
    rw [run, runFrom, Machine.exec_snoc]
    exact Call.step_refused (run_readFrom cfg requests sched i) hr
  · intro groupId
    obtain ⟨hgr, hc⟩ := (parted cfg).alike_exec (k := groupId)
      (w := initial .empty requests) (fun _ => rfl) ⟨rfl, fun _ _ => rfl⟩ sched
    refine ⟨hgr, fun i hi => hc i ?_⟩
    rw [(parted cfg).name_exec]
    exact hi

end Run

end MessageServer.Store
