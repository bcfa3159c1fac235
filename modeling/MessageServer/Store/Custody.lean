import MessageServer.Store.History

/-! # Key custody

A group holds the write keys of its two latest epochs and the read key of every
epoch after the first. The keys of an epoch are those its opening commit
announced, in its attachment or in the delivery beside it, and they are never
replaced: a write key is erased once its epoch is two behind.
-/

namespace MessageServer.Store

open Interleaving Sample MemoryGroup

section Rows

variable (g : MemoryGroup) (cfg : Config) (now : Time) (n : ℕ) (record : Record)
  (opening : EpochOpening)

def openedRow : EpochRow where
  epoch := n + 1
  writeKey := opening.writeKey
  readKey := opening.readKey
  readKeyInstall := some now
  algId := opening.algId
  expectedWrapCount := opening.expectedWrapCount
  openedByRecord := record.recordId
  acceptTime := now
  retireTime := none

/-- What opening the epoch after `n` leaves of the row of an older epoch. -/
def supersede (e : ℕ) (row : EpochRow) : EpochRow :=
  if e < n then { row with writeKey := none }
  else if e = n ∧ row.writeKey ≠ none then { row with retireTime := some now }
  else row

theorem openEpoch_epochs_self : (g.openEpoch cfg now n record opening).epochs (n + 1) =
    some (openedRow now n record opening) := by
  simp [openEpoch, openedRow]

theorem openEpoch_epochs_of_ne {e : ℕ} (h : e ≠ n + 1) :
    (g.openEpoch cfg now n record opening).epochs e = (g.epochs e).map (supersede now n e) := by
  cases hr : g.epochs e with
  | none =>
    by_cases he : e = n
    · subst he
      simp [openEpoch, hr]
    · simp [openEpoch, h, he, hr]
  | some row =>
    by_cases he : e = n
    · subst he
      simp [openEpoch, hr, supersede]
    · have hw : row.writeKey = none → { row with writeKey := none } = row := by
        rintro hw
        cases row
        simp_all
      by_cases hlt : e < n
      · by_cases hk : row.writeKey = none
        · simp [openEpoch, h, he, hr, supersede, hlt, hk, hw hk]
        · simp [openEpoch, h, he, hr, supersede, hlt, hk]
      · simp [openEpoch, h, he, hr, supersede, hlt]

theorem openEpoch_row {e : ℕ} {row : EpochRow}
    (h : (g.openEpoch cfg now n record opening).epochs e = some row) :
    (e = n + 1 ∧ row = openedRow now n record opening) ∨
      e ≠ n + 1 ∧ ∃ old, g.epochs e = some old ∧ row = supersede now n e old := by
  by_cases he : e = n + 1
  · subst he
    rw [openEpoch_epochs_self] at h
    exact .inl ⟨rfl, (Option.some.inj h).symm⟩
  · rw [openEpoch_epochs_of_ne g cfg now n record opening he] at h
    obtain ⟨old, ho, rfl⟩ := Option.map_eq_some_iff.mp h
    exact .inr ⟨he, old, ho, rfl⟩

theorem supersede_readKey (e : ℕ) (row : EpochRow) :
    (supersede now n e row).readKey = row.readKey := by
  unfold supersede
  split_ifs <;> rfl

theorem supersede_writeKey (e : ℕ) (row : EpochRow) :
    (supersede now n e row).writeKey = if e < n then none else row.writeKey := by
  unfold supersede
  split_ifs <;> rfl

end Rows

/-- The row of an epoch later on: its keys are the same, or its write key is erased. -/
structure EpochRow.Kept (row row' : EpochRow) : Prop where
  readKey : row'.readKey = row.readKey
  openedByRecord : row'.openedByRecord = row.openedByRecord
  expectedWrapCount : row'.expectedWrapCount = row.expectedWrapCount
  writeKey : row'.writeKey = row.writeKey ∨ row'.writeKey = none

namespace EpochRow.Kept

theorem refl (row : EpochRow) : Kept row row := ⟨rfl, rfl, rfl, .inl rfl⟩

theorem trans {a b c : EpochRow} (h : Kept a b) (h' : Kept b c) : Kept a c where
  readKey := h'.readKey.trans h.readKey
  openedByRecord := h'.openedByRecord.trans h.openedByRecord
  expectedWrapCount := h'.expectedWrapCount.trans h.expectedWrapCount
  writeKey := by
    rcases h'.writeKey with hc | hc
    · rcases h.writeKey with hb | hb
      · exact .inl (hc.trans hb)
      · exact .inr (hc.trans hb)
    · exact .inr hc

theorem supersede (now : Time) (n e : ℕ) (row : EpochRow) : Kept row (supersede now n e row) := by
  unfold Store.supersede
  split
  · exact ⟨rfl, rfl, rfl, .inr rfl⟩
  · split
    · exact ⟨rfl, rfl, rfl, .inl rfl⟩
    · exact .refl row

end EpochRow.Kept

def KeepsKeys (g g' : MemoryGroup) : Prop :=
  ∀ e row, g.epochs e = some row → ∃ row', g'.epochs e = some row' ∧ row.Kept row'

theorem KeepsKeys.refl (g : MemoryGroup) : KeepsKeys g g := fun _ row h => ⟨row, h, .refl row⟩

theorem KeepsKeys.trans {a b c : MemoryGroup} (h : KeepsKeys a b) (h' : KeepsKeys b c) :
    KeepsKeys a c := by
  intro e row hr
  obtain ⟨row', hr', hk⟩ := h e row hr
  obtain ⟨row'', hr'', hk'⟩ := h' e row' hr'
  exact ⟨row'', hr'', hk.trans hk'⟩

/-- The keys a group holds: which epochs have them, and how long they are. -/
structure Custody (g : MemoryGroup) : Prop where
  pos : 1 ≤ g.currentEpoch
  rows : ∀ e, (∃ row, g.epochs e = some row) ↔ e ≤ g.currentEpoch
  writeKeys : ∀ e row, g.epochs e = some row →
    ((∃ key, row.writeKey = some key) ↔ g.currentEpoch ≤ e + 1)
  readKeys : ∀ e row, g.epochs e = some row → ((∃ key, row.readKey = some key) ↔ 1 ≤ e)
  lengths : ∀ e row key, g.epochs e = some row →
    row.writeKey = some key ∨ row.readKey = some key → key.length = epochKeyBytes

section Open

variable {g : MemoryGroup} {cfg : Config} {now : Time} {record : Record} {opening : EpochOpening}

theorem Custody.keepsKeys_openEpoch (h : Custody g) :
    KeepsKeys g (g.openEpoch cfg now g.currentEpoch record opening) := by
  intro e row hr
  have he : e ≠ g.currentEpoch + 1 := by
    have := (h.rows e).mp ⟨row, hr⟩
    omega
  exact ⟨_, by rw [openEpoch_epochs_of_ne g cfg now g.currentEpoch record opening he, hr]; rfl,
    .supersede now g.currentEpoch e row⟩

theorem Custody.openEpoch {writeKey readKey : Bytes} (h : Custody g)
    (hw : opening.writeKey = some writeKey) (hwl : writeKey.length = epochKeyBytes)
    (hr : opening.readKey = some readKey) (hrl : readKey.length = epochKeyBytes) :
    Custody (g.openEpoch cfg now g.currentEpoch record opening) := by
  have hn : (g.openEpoch cfg now g.currentEpoch record opening).currentEpoch =
      g.currentEpoch + 1 := rfl
  refine ⟨by omega, fun e => ?_, fun e row hrw => ?_, fun e row hrw => ?_,
    fun e row key hrw hk => ?_⟩
  · rw [hn]
    by_cases he : e = g.currentEpoch + 1
    · subst he
      simp [openEpoch_epochs_self]
    · rw [openEpoch_epochs_of_ne g cfg now g.currentEpoch record opening he]
      constructor
      · rintro ⟨row, hrw⟩
        obtain ⟨old, ho, -⟩ := Option.map_eq_some_iff.mp hrw
        exact Nat.le_succ_of_le ((h.rows e).mp ⟨old, ho⟩)
      · intro hle
        obtain ⟨old, ho⟩ := (h.rows e).mpr (by omega)
        exact ⟨_, by rw [ho]; rfl⟩
  · rcases openEpoch_row _ _ _ _ _ _ hrw with ⟨rfl, rfl⟩ | ⟨he, old, ho, rfl⟩
    · simp [openedRow, hw, hn]
    · rw [supersede_writeKey, hn]
      split
      · simp only [reduceCtorEq, exists_false, false_iff]
        omega
      · rw [h.writeKeys e old ho]
        omega
  · rcases openEpoch_row _ _ _ _ _ _ hrw with ⟨rfl, rfl⟩ | ⟨he, old, ho, rfl⟩
    · simp [openedRow, hr]
    · rw [supersede_readKey, h.readKeys e old ho]
  · rcases openEpoch_row _ _ _ _ _ _ hrw with ⟨rfl, rfl⟩ | ⟨he, old, ho, rfl⟩
    · rcases hk with hk | hk
      · exact Option.some.inj (hw.symm.trans hk) ▸ hwl
      · exact Option.some.inj (hr.symm.trans hk) ▸ hrl
    · rw [supersede_readKey, supersede_writeKey] at hk
      split at hk
      · exact h.lengths e old key ho (.inr (hk.resolve_left (by simp)))
      · exact h.lengths e old key ho hk

theorem Custody.congr {g' : MemoryGroup} (h : Custody g) (he : g'.epochs = g.epochs)
    (hn : g'.currentEpoch = g.currentEpoch) : Custody g' := by
  obtain ⟨h₁, h₂, h₃, h₄, h₅⟩ := h
  rw [← he] at h₂ h₃ h₄ h₅
  rw [← hn] at h₁ h₂ h₃
  exact ⟨h₁, h₂, h₃, h₄, h₅⟩

end Open

/-- The row holds what the opening announced, its write key until it is erased. -/
structure Installed (record : Record) (opening : EpochOpening) (row : EpochRow) : Prop where
  readKey : row.readKey = opening.readKey
  openedByRecord : row.openedByRecord = record.recordId
  expectedWrapCount : row.expectedWrapCount = opening.expectedWrapCount
  writeKey : row.writeKey = opening.writeKey ∨ row.writeKey = none

variable {record : Record} {opening : EpochOpening}

theorem Installed.kept {row row' : EpochRow} (h : Installed record opening row)
    (hk : row.Kept row') :
    Installed record opening row' where
  readKey := hk.readKey.trans h.readKey
  openedByRecord := hk.openedByRecord.trans h.openedByRecord
  expectedWrapCount := hk.expectedWrapCount.trans h.expectedWrapCount
  writeKey := by
    rcases hk.writeKey with hw | hw
    · exact hw ▸ h.writeKey
    · exact .inr hw

/-- The group holds the keys that a commit of its log announced. -/
def Holds (g : MemoryGroup) (keys : Option EpochKeyDelivery) (record : Record) : Prop :=
  ∃ opening row, openingOf record keys = some opening ∧ g.epochs (record.epoch + 1) = some row ∧
    Installed record opening row

variable {keys : Option EpochKeyDelivery}

theorem Holds.kept {g g' : MemoryGroup} (h : Holds g keys record) (hk : KeepsKeys g g') :
    Holds g' keys record := by
  obtain ⟨opening, row, ho, hr, hi⟩ := h
  obtain ⟨row', hr', hkp⟩ := hk _ row hr
  exact ⟨opening, row', ho, hr', hi.kept hkp⟩

section Write

variable {g g' : MemoryGroup} {cfg : Config} {now : Time} {complete : Bool}
  {keys : Option EpochKeyDelivery} {record : Record} {id : ℕ} {records : List Record}
  {request : CreateGroupRequest} {initial : Record}

theorem Custody.write (h : Custody g) (ha : Admitted g complete keys record) (cfg : Config)
    (now : Time) (id : ℕ) :
    Custody (g.write cfg now g.currentEpoch keys (stamp record id)) ∧
      KeepsKeys g (g.write cfg now g.currentEpoch keys (stamp record id)) := by
  have he := g.write_epochs cfg now g.currentEpoch keys (stamp record id)
  have hn := g.write_currentEpoch cfg now g.currentEpoch keys (stamp record id)
  rcases ha.advance cfg now id with ⟨-, had⟩ | ⟨hc, opening, ho, had⟩
  · rw [had] at he hn
    exact ⟨h.congr he hn, fun e row hrw => ⟨row, by rw [he, hrw], .refl row⟩⟩
  · rw [had] at he hn
    obtain ⟨opening', writeKey, readKey, ho', -, hw, hwl, hr, hrl⟩ := exists_opening (ha.opens hc)
    cases ho.symm.trans ho'
    refine ⟨(h.openEpoch hw hwl hr hrl).congr he hn, fun e row hrw => ?_⟩
    rw [he]
    exact h.keepsKeys_openEpoch e row hrw

theorem holds_write (ha : Admitted g complete keys record) (hc : record.isCommit = true)
    (cfg : Config) (now : Time) (id : ℕ) :
    Holds (g.write cfg now g.currentEpoch keys (stamp record id)) keys (stamp record id) := by
  have he := g.write_epochs cfg now g.currentEpoch keys (stamp record id)
  rcases ha.advance cfg now id with ⟨hnc, -⟩ | ⟨-, opening, ho, had⟩
  · simp [hc] at hnc
  · rw [had] at he
    refine ⟨opening, openedRow now g.currentEpoch (stamp record id) opening, ho, ?_,
      ⟨rfl, rfl, rfl, .inl rfl⟩⟩
    have hep : (stamp record id).epoch = g.currentEpoch := ha.epoch
    rw [he, hep, openEpoch_epochs_self]

theorem Custody.appends (h : Custody g) (ha : Appends cfg now complete keys g id records g') :
    Custody g' ∧ KeepsKeys g g' ∧
      ∀ r ∈ stampFrom id records, r.isCommit = true → Holds g' keys r := by
  induction ha with
  | nil => exact ⟨h, .refl _, by simp [stampFrom]⟩
  | @cons g g' id record records hr _ ih =>
    obtain ⟨hc, hk⟩ := h.write hr cfg now id
    obtain ⟨hc', hk', hh⟩ := ih hc
    refine ⟨hc', hk.trans hk', List.forall_mem_cons.mpr ⟨fun hcm => ?_, hh⟩⟩
    exact (holds_write hr hcm cfg now id).kept hk'

theorem custody_foundGroup (hv : validateCreate request = .ok initial)
    (hw : wellFormedEpochAttachment initial 1 request.epochKeys = true)
    (ho : openingOf initial request.epochKeys = some opening) :
    Custody (foundGroup cfg now request initial opening) := by
  obtain ⟨opening', writeKey, readKey, ho', -, hwk, hwl, hrk, hrl⟩ := exists_opening hw
  cases ho.symm.trans ho'
  have hb := (validateCreate_eq_ok.mp hv).2.1
  refine ⟨le_rfl, fun e => ?_, fun e row hr => ?_, fun e row hr => ?_,
    fun e row key hr hk => ?_⟩ <;> rcases e with _ | _ | e
  · simp [foundGroup]
  · simp [foundGroup]
  · simp [foundGroup]
  · cases hr
    simp [foundGroup]
  · cases hr
    simp [foundGroup, hwk]
  · cases hr
  · cases hr
    simp
  · cases hr
    simp [hrk]
  · cases hr
  · cases hr
    simp only [Option.some.injEq, reduceCtorEq, or_false] at hk
    exact hk ▸ hb
  · cases hr
    rcases hk with hk | hk
    · exact Option.some.inj (hwk.symm.trans hk) ▸ hwl
    · exact Option.some.inj (hrk.symm.trans hk) ▸ hrl
  · cases hr

theorem GroupStep.custody {o : Option MemoryGroup} (h : GroupStep cfg now o g)
    (ho : ∀ g₀, o = some g₀ → Custody g₀) : Custody g := by
  cases h with
  | found hv _ _ hw hop => exact custody_foundGroup hv hw hop
  | close => exact (ho _ rfl).congr rfl rfl
  | append _ _ ha =>
    exact (((ho _ rfl).congr rfl rfl : Custody (reserve _ _)).appends ha).1

theorem holds_foundGroup (he : initial.epoch = 0)
    (ho : openingOf initial request.epochKeys = some opening) :
    Holds (foundGroup cfg now request initial opening) request.epochKeys
      (stamp initial firstRecordId) := by
  refine ⟨opening, openedRow now 0 (stamp initial firstRecordId) opening, ho, ?_,
    ⟨rfl, rfl, rfl, .inl rfl⟩⟩
  have hs : (stamp initial firstRecordId).epoch = 0 := he
  rw [hs]
  rfl

theorem GroupStep.keepsKeys (h : GroupStep cfg now (some g) g') (hc : Custody g) :
    KeepsKeys g g' := by
  cases h with
  | close => exact .refl _
  | append _ _ ha => exact ((hc.congr rfl rfl : Custody (reserve _ _)).appends ha).2.1

end Write

section Calls

variable {cfg : Config} {now : Time} {s : MemoryStore}

def Call.Keyed (s : MemoryStore) (c : Call) : Prop :=
  ∀ r ∈ c.stored, r.isCommit = true → ∃ g, s.groups c.groupId = some g ∧ Holds g c.epochKeys r

variable {c : Call}

theorem Call.keyed_of_stored (h : c.stored = []) : c.Keyed s := by
  intro r hr
  rw [h] at hr
  cases hr

theorem Call.Keyed.step (h : c.Keyed s) {s' : MemoryStore} (hs : StoreStep cfg now s s')
    (hc : s.Each Custody) : c.Keyed s' := by
  intro r hr hcm
  obtain ⟨g, hg, hh⟩ := h r hr hcm
  obtain ⟨g', hg', hk⟩ := hs.rel .refl (fun _ _ step => step.keepsKeys) hc hg
  exact ⟨g', hg', hh.kept hk⟩

theorem createGroup_keyed (request : CreateGroupRequest) :
    (Call.created request (createGroup cfg now s request).2).Keyed
      (createGroup cfg now s request).1 := by
  rcases createGroup_cases cfg now s request with ⟨-, hst⟩ | ⟨initial, _, he, ho, -, hs, hst⟩
  · exact Call.keyed_of_stored hst
  · intro r hr _
    rw [hst, List.mem_singleton] at hr
    rw [hs, hr]
    exact ⟨_, MemoryStore.setGroup_self, holds_foundGroup he ho⟩

theorem submitLocked_keyed {request : SubmitRequest} {g : MemoryGroup} (hc : Custody g)
    {batch : List Pending} (ha : Alone (batch.map (·.record))) (hs : Settled batch) :
    (Call.submitted request (submitLocked cfg now g request.epochKeys batch).2).Keyed
      (s.setGroup request.groupId (submitLocked cfg now g request.epochKeys batch).1) := by
  rcases submitLocked_outcome cfg now g request.epochKeys batch with ⟨-, hm⟩ | ⟨ho, hr⟩
  · exact Call.keyed_of_stored hm.appended
  · intro r hmm hcm
    refine ⟨_, MemoryStore.setGroup_self, ?_⟩
    have hap := written_appends cfg now ha hr
    have hk := ((hc.congr rfl rfl : Custody (g.reserve _)).appends hap).2.2
    simp only [Call.stored, appended_of_passed cfg now hs ho hr] at hmm
    rw [submitLocked_of_passed cfg now ho hr]
    exact hk r hmm hcm

theorem Call.keyed_step {R : MemoryStore → Prop} (hr : c.ReadFrom cfg R) (hc : s.Each Custody)
    (h : c.Keyed s) : (c.step cfg now s).2.Keyed (c.step cfg now s).1 := by
  cases c with
  | start request =>
    cases request with
    | createGroup request => exact createGroup_keyed request
    | closeGroup groupId => exact Call.keyed_of_stored rfl
    | submit request =>
      unfold Call.step
      dsimp only
      split
      · exact Call.keyed_of_stored rfl
      · split
        · exact Call.keyed_of_stored rfl
        · exact Call.keyed_of_stored (onlyMatched_refuseUnavailable _).appended
        · exact Call.keyed_of_stored rfl
  | answering request batch =>
    obtain ⟨-, s₀, -, hp⟩ := hr
    exact Call.keyed_of_stored (by
      simp [Call.step, Call.stored, appended_fillCurrentEpoch, appended_answering hp])
  | waiting request batch =>
    obtain ⟨hv, s₀, -, hp⟩ := hr
    obtain ⟨rfl, -, -⟩ := submitProbe_waiting hp
    cases hg : s.groups request.groupId with
    | none => simpa [Call.step, hg] using h
    | some g =>
      simp only [Call.step, hg]
      refine submitLocked_keyed (hc _ g hg) ?_ (settled_settle _)
      rw [map_record_settle, map_record_probed]
      exact alone_of_validateSubmit hv
  | created | closed | failed | submitted => exact h

theorem custody_invariant (cfg : Config) : (machine cfg).Invariant (MemoryStore.Each Custody)
    fun s c => c.ReadFrom cfg (fun _ => True) ∧ c.Keyed s where
  shared _ _ _ hs hc := (Call.step_store hc.1).each (fun _ _ step => step.custody) hs
  own _ _ _ hs hc := ⟨Call.readFrom_step hc.1 trivial, Call.keyed_step hc.1 hs hc.2⟩
  others _ _ _ _ hs hc hc' := ⟨hc'.1, hc'.2.step (Call.step_store hc.1) hs⟩

end Calls

/-- The two keys a commit announces: its attachment's, or those of the delivery beside it. -/
inductive Announces (record : Record) (keys : Option EpochKeyDelivery) : Slice → Slice → Prop
  | attached {attachment : Attachment} {a : EpochAttachment}
      (attached : record.attachment = some attachment) (kind : attachment.kind = .epoch)
      (epoch : attachment.epoch = some a) : Announces record keys a.writeKey a.readKey
  | delivered {attachment : Attachment} {delivery : EpochKeyDelivery}
      (attached : record.attachment = some attachment) (kind : attachment.kind = .epochDigest)
      (sent : keys = some delivery) : Announces record keys delivery.writeKey delivery.readKey

theorem announces_of_openingOf (h : openingOf record keys = some opening) :
    Announces record keys opening.writeKey opening.readKey := by
  unfold openingOf at h
  split at h
  · cases h
  · rename_i attachment ha
    split at h
    · rename_i a hk he
      cases h
      exact .attached ha hk he
    · rename_i delivery hk _
      cases h
      exact .delivered ha hk rfl
    · cases h

section Reads

variable {s : MemoryStore} {groupId : Bytes} {g : MemoryGroup} {e : ℕ}

theorem epochKeys_of_row (hl : groupId.length = groupIdBytes) (hg : s.groups groupId = some g)
    (ho : g.closed = false) {row : EpochRow} (hr : g.epochs e = some row)
    (hk : ¬ (row.writeKey = none ∧ row.readKey = none)) :
    epochKeys s groupId e = .ok {
      epoch := row.epoch
      writeKey := row.writeKey
      readKey := row.readKey
      readKeyInstall := row.readKeyInstall
      algId := row.algId
      openedByRecord := row.openedByRecord
      acceptTime := row.acceptTime
      retireTime := row.retireTime } := by
  simp only [epochKeys, checkLength, hg, ho, hr, hk, bind_eq_ok, failIf_eq_ok, hl, not_not,
    ne_eq, if_false, Bool.false_eq_true, true_and]
  rfl

theorem epochKeys_unknown (hl : groupId.length = groupIdBytes) (hg : s.groups groupId = some g)
    (hk : ∀ row, g.epochs e = some row → row.writeKey = none ∧ row.readKey = none) :
    epochKeys s groupId e = .error .epochKeyUnknown := by
  have hc : checkLength groupId groupIdBytes = .ok () := by simp [checkLength, hl]
  rcases Bool.eq_false_or_eq_true g.closed with ho | ho
  · simp [epochKeys, hc, hg, ho]
  · cases hr : g.epochs e with
    | none =>
      simp [epochKeys, hc, hg, ho, hr]
    | some row =>
      simp [epochKeys, hc, hg, ho, hr, hk row hr]

end Reads

section Main

variable {cfg : Config} {ι : Type*} [DecidableEq ι] {g : MemoryGroup}

theorem run_named (cfg : Config) (requests : ι → Request) (sched : List (ι × Time))
    (groupId : Bytes) (g : MemoryGroup)
    (hg : (run cfg requests sched).shared.groups groupId = some g) :
    groupId.length = groupIdBytes := by
  have hst : ∀ now s s', StoreStep cfg now s s' →
      (∀ groupId g, s.groups groupId = some g → groupId.length = groupIdBytes) →
      ∀ groupId g, s'.groups groupId = some g → groupId.length = groupIdBytes := by
    intro now s s' hst hs
    cases hst with
    | refl => exact hs
    | @group other g' shape _ =>
      intro groupId g hg
      by_cases ho : groupId = other
      · rw [ho, shape]
      · rw [MemoryStore.setGroup_of_ne ho] at hg
        exact hs groupId g hg
  exact ((invariant_of_step hst).exec (w := initial .empty requests) (fun _ _ h => nomatch h)
    (fun _ => trivial) sched).1 groupId g hg

theorem run_custody (cfg : Config) (requests : ι → Request) (sched : List (ι × Time)) :
    (run cfg requests sched).shared.Each Custody ∧ ∀ i,
      ((run cfg requests sched).calls i).ReadFrom cfg (fun _ => True) ∧
      ((run cfg requests sched).calls i).Keyed (run cfg requests sched).shared :=
  (custody_invariant cfg).exec (w := initial .empty requests) (fun _ _ h => nomatch h)
    (fun _ => ⟨trivial, Call.keyed_of_stored rfl⟩) sched

theorem run_keepsKeys (cfg : Config) (requests : ι → Request) (p q : List (ι × Time))
    {groupId : Bytes} (hg : (run cfg requests p).shared.groups groupId = some g) :
    ∃ g', (run cfg requests (p ++ q)).shared.groups groupId = some g' ∧ KeepsKeys g g' := by
  obtain ⟨hc, hcl⟩ := run_custody cfg requests p
  have hr := (custody_invariant cfg).exec_rel
    (R := fun s s' => ∀ groupId g, s.groups groupId = some g →
      ∃ g', s'.groups groupId = some g' ∧ KeepsKeys g g')
    (fun _ _ g hg => ⟨g, hg, .refl g⟩)
    (fun hab hbc groupId g hg => by
      obtain ⟨g', hg', hk⟩ := hab groupId g hg
      obtain ⟨g'', hg'', hk'⟩ := hbc groupId g' hg'
      exact ⟨g'', hg'', hk.trans hk'⟩)
    (fun _ _ _ hs hl _ _ hg =>
      (Call.step_store hl.1).rel .refl (fun _ _ step => step.keepsKeys) hs hg) hc hcl q
  unfold run runFrom
  rw [Machine.exec_append]
  exact hr groupId g hg

theorem run_installed (cfg : Config) (requests : ι → Request) (sched : List (ι × Time))
    {groupId : Bytes} (hg : (run cfg requests sched).shared.groups groupId = some g) {e : ℕ}
    {row : EpochRow} (hrw : g.epochs (e + 1) = some row) : ∃ c i writeKey readKey,
      g.commits e = some c ∧ ((run cfg requests sched).calls i).groupId = groupId ∧
      c.record ∈ ((run cfg requests sched).calls i).stored ∧
      Announces c.record ((run cfg requests sched).calls i).epochKeys writeKey readKey ∧
      row.readKey = readKey ∧ (row.writeKey ≠ none → row.writeKey = writeKey) ∧
      row.openedByRecord = c.recordId := by
  have his : History cfg .empty (run cfg requests sched) := history each_sound_empty requests sched
  obtain ⟨hcs, hcl⟩ := run_custody cfg requests sched
  obtain ⟨L, hL, -⟩ := his.sound groupId g hg
  obtain ⟨c, hc⟩ := (hL.commits_iff e).mpr (((hcs groupId g hg).rows (e + 1)).mp ⟨row, hrw⟩)
  obtain ⟨r, hr, hrc, hre, rfl⟩ := (hL.commits e c).mp hc
  have hm : r ∈ (run cfg requests sched).shared.log groupId := by
    rwa [MemoryStore.log_of_group hg, hL.log]
  obtain ⟨i, hi, hs⟩ := (mem_log_iff cfg requests sched groupId r).mp hm
  obtain ⟨g', hg', opening, row', hop, hr', hin⟩ := (hcl i).2 r hs hrc
  rw [hi, hg] at hg'
  cases hg'
  rw [hre, hrw] at hr'
  cases hr'
  exact ⟨commitOf r, i, _, _, hc, hi, hs, announces_of_openingOf hop, hin.readKey,
    hin.writeKey.resolve_right, hin.openedByRecord⟩

/--
An open group holds the write keys of its last two epochs and the read keys of all after the first,
each as the commit before announced it.
-/
theorem key_custody (cfg : Config) (requests : ι → Request) (sched : List (ι × Time))
    (groupId : Bytes) (g : MemoryGroup)
    (hg : (run cfg requests sched).shared.groups groupId = some g) (ho : g.closed = false) :
    1 ≤ g.currentEpoch ∧
    (∀ e, (∃ row key, g.epochs e = some row ∧ row.writeKey = some key) ↔
      e + 1 = g.currentEpoch ∨ e = g.currentEpoch) ∧
    (∀ e, (∃ row key, g.epochs e = some row ∧ row.readKey = some key) ↔
      1 ≤ e ∧ e ≤ g.currentEpoch) ∧
    (∀ e row key, g.epochs e = some row → row.writeKey = some key ∨ row.readKey = some key →
      key.length = 32) ∧
    (∀ e row, g.epochs (e + 1) = some row → ∃ c i writeKey readKey,
      g.commits e = some c ∧ ((run cfg requests sched).calls i).groupId = groupId ∧
      c.record ∈ ((run cfg requests sched).calls i).stored ∧
      Announces c.record ((run cfg requests sched).calls i).epochKeys writeKey readKey ∧
      row.readKey = readKey ∧ (row.writeKey ≠ none → row.writeKey = writeKey) ∧
      row.openedByRecord = c.recordId) ∧
    (∀ e, (∃ row answer, g.epochs e = some row ∧ (row.writeKey ≠ none ∨ row.readKey ≠ none) ∧
        epochKeys (run cfg requests sched).shared groupId e = .ok answer ∧
        answer.writeKey = row.writeKey ∧ answer.readKey = row.readKey ∧
        answer.openedByRecord = row.openedByRecord) ∨
      ((∀ row, g.epochs e = some row → row.writeKey = none ∧ row.readKey = none) ∧
        epochKeys (run cfg requests sched).shared groupId e = .error .epochKeyUnknown)) := by
  have hc := (run_custody cfg requests sched).1 groupId g hg
  have hl := run_named cfg requests sched groupId g hg
  refine ⟨hc.pos, fun e => ?_, fun e => ?_, fun e row key hr hk => hc.lengths e row key hr hk,
    fun e row hr => ?_, fun e => ?_⟩
  · constructor
    · rintro ⟨row, key, hr, hk⟩
      have := (hc.rows e).mp ⟨row, hr⟩
      have := (hc.writeKeys e row hr).mp ⟨key, hk⟩
      omega
    · intro he
      obtain ⟨row, hr⟩ := (hc.rows e).mpr (by omega)
      obtain ⟨key, hk⟩ := (hc.writeKeys e row hr).mpr (by omega)
      exact ⟨row, key, hr, hk⟩
  · constructor
    · rintro ⟨row, key, hr, hk⟩
      exact ⟨(hc.readKeys e row hr).mp ⟨key, hk⟩, (hc.rows e).mp ⟨row, hr⟩⟩
    · rintro ⟨hp, hle⟩
      obtain ⟨row, hr⟩ := (hc.rows e).mpr hle
      obtain ⟨key, hk⟩ := (hc.readKeys e row hr).mpr hp
      exact ⟨row, key, hr, hk⟩
  · exact run_installed cfg requests sched hg hr
  · by_cases hk : ∀ row, g.epochs e = some row → row.writeKey = none ∧ row.readKey = none
    · exact .inr ⟨hk, epochKeys_unknown hl hg hk⟩
    · simp only [not_forall] at hk
      obtain ⟨row, hr, hk⟩ := hk
      refine .inl ⟨row, _, hr, ?_, epochKeys_of_row hl hg ho hr hk, rfl, rfl, rfl⟩
      by_contra hn
      simp only [not_or, not_not] at hn
      exact hk hn

theorem key_custody_race : ∃ g, (run config race raceOrder).shared.groups groupId = some g ∧
      g.currentEpoch = 2 ∧
      ∀ e, (∃ row key, g.epochs e = some row ∧ row.writeKey = some key) ↔ e + 1 = 2 ∨ e = 2 :=
  ⟨_, rfl, rfl, (key_custody config race raceOrder groupId _ rfl rfl).2.1⟩

end Main

end MessageServer.Store
