import MessageServer.Store.Commits

/-! # A submission writes all of its batch or none of it

The answers of a batch stand in the order of its records. One refusal means that
nothing was written and that the accepting answers repeat ids of earlier records;
without a refusal the records step (0) did not match follow the log in order.
-/

namespace MessageServer.Store

open Sample Function

/-- The id under which step (0) finds the record stored already. -/
def matchedId (cfg : Config) (g : MemoryGroup) (record : Record) : Option ℕ :=
  (g.claims (claimKeyOf record)).bind fun claim =>
    if claim.bodyHash = record.bodyHash ∧ claim.headHash = headHash cfg record.ctHead then
      some claim.recordId
    else none

/-- The ids of an accepted batch: the earlier one, or the next. -/
def assignedIds (cfg : Config) (g : MemoryGroup) : ℕ → List Record → List ℕ
  | _, [] => []
  | id, record :: records =>
    match matchedId cfg g record with
    | some old => old :: assignedIds cfg g id records
    | none => id :: assignedIds cfg g (id + 1) records

def unmatched (cfg : Config) (g : MemoryGroup) (records : List Record) : List Record :=
  records.filter fun record => (matchedId cfg g record).isNone

section Probe

variable {cfg : Config} {g : MemoryGroup} {record : Record} {id : ℕ}

def probeRecord (cfg : Config) (g : MemoryGroup) (record : Record) : Pending :=
  probeOne cfg g { record := record }

theorem probeRecord_of_matched (h : matchedId cfg g record = some id) : probeRecord cfg g record =
      { record := record, probe := .identical, result := { reason := .ok, recordId := id } } := by
  unfold matchedId at h
  unfold probeRecord probeOne
  cases hc : g.claims (claimKeyOf record) with
  | none => simp [hc] at h
  | some claim =>
    simp only [hc, Option.bind_some] at h
    split at h
    · rename_i hm
      cases h
      simp [hm.1, hm.2]
    · cases h

theorem probeRecord_of_unmatched (h : matchedId cfg g record = none) :
    (probeRecord cfg g record).record = record ∧ (probeRecord cfg g record).probe ≠ .identical ∧
      (probeRecord cfg g record).result = {} := by
  unfold matchedId at h
  unfold probeRecord probeOne
  cases hc : g.claims (claimKeyOf record) with
  | none => simp
  | some claim =>
    simp only [hc, Option.bind_some] at h
    split at h
    · cases h
    · rename_i hm
      simp [hm]

theorem probeRecord_probe_iff :
    (probeRecord cfg g record).probe = .identical ↔ (matchedId cfg g record).isSome = true := by
  cases h : matchedId cfg g record with
  | none => simp [(probeRecord_of_unmatched h).2.1]
  | some id => simp [probeRecord_of_matched h]

variable {request : SubmitRequest} {s : MemoryStore}

theorem probed_of_group (hg : s.groups request.groupId = some g) :
    probed cfg s request = request.records.map (probeRecord cfg g) := by
  simp [probed, probe, hg, probeRecord, comp_def]

theorem probed_of_no_group (hg : s.groups request.groupId = none) :
    probed cfg s request = request.records.map fun record => { record := record } := by
  simp [probed, probe, hg]

end Probe

section Assign

variable {cfg : Config} {g : MemoryGroup}

/-- The batch that the transaction of an existing group starts with. -/
def startBatch (cfg : Config) (g : MemoryGroup) (records : List Record) : List Pending :=
  settle (records.map (probeRecord cfg g))

theorem startBatch_cons (record : Record) (records : List Record) :
    startBatch cfg g (record :: records) = { probeRecord cfg g record with
        settled := (probeRecord cfg g record).probe = .identical } ::
      startBatch cfg g records := rfl

theorem fresh_startBatch (records : List Record) :
    fresh (startBatch cfg g records) = unmatched cfg g records := by
  induction records with
  | nil => rfl
  | cons record records ih =>
    rw [startBatch_cons]
    cases h : matchedId cfg g record with
    | none =>
      obtain ⟨hr, hp, -⟩ := probeRecord_of_unmatched h
      rw [fresh_cons_of_unsettled (by simp [hp]), ih]
      simp [unmatched, h, hr]
    | some id =>
      rw [fresh_cons_of_settled (by simp [probeRecord_of_matched h]), ih]
      simp [unmatched, h]

theorem recordId_writeAll (now : Time) (e e' : ℕ) (keys : Option EpochKeyDelivery)
    (g' : MemoryGroup) (id : ℕ) (records : List Record) :
    (writeAll cfg now e keys g' id (atEpoch e' (startBatch cfg g records))).2.map
      (·.result.recordId) = assignedIds cfg g id records := by
  induction records generalizing g' id with
  | nil => rfl
  | cons record records ih =>
    rw [startBatch_cons]
    cases h : matchedId cfg g record with
    | none =>
      obtain ⟨hr, hp, -⟩ := probeRecord_of_unmatched h
      simp only [atEpoch, List.map_cons, writeAll, hp, decide_false, assignedIds, h] at ih ⊢
      simp [acceptance_recordId, stamp, ih]
    | some old =>
      simp only [atEpoch, List.map_cons, writeAll, probeRecord_of_matched h, assignedIds, h] at ih ⊢
      simp [ih]

end Assign

section Order

variable (cfg : Config) (now : Time) (s : MemoryStore) (request : SubmitRequest) (g : MemoryGroup)

theorem map_record_refuseUnavailable (batch : List Pending) :
    (refuseUnavailable batch).map (·.record) = batch.map (·.record) := by
  rw [refuseUnavailable, List.map_map]
  refine List.map_congr_left fun p _ => ?_
  simp only [comp_apply]
  split <;> rfl

theorem map_record_fillCurrentEpoch (group : Option MemoryGroup) (batch : List Pending) :
    (fillCurrentEpoch group batch).map (·.record) = batch.map (·.record) := by
  unfold fillCurrentEpoch
  split
  · rfl
  · split
    · rfl
    · rw [List.map_map]
      rfl

theorem map_record_writeAll (e : ℕ) (keys : Option EpochKeyDelivery) (g : MemoryGroup) (id : ℕ)
    (batch : List Pending) :
    (writeAll cfg now e keys g id batch).2.map (·.record) = batch.map (·.record) := by
  induction batch generalizing g id with
  | nil => rfl
  | cons p batch ih =>
    unfold writeAll
    split <;> simp [ih]

theorem map_record_fillEpoch (e : ℕ) (batch : List Pending) :
    (batch.map (fillEpoch e)).map (·.record) = batch.map (·.record) := by
  rw [List.map_map]
  refine List.map_congr_left fun p _ => ?_
  simp only [comp_apply, fillEpoch]
  split <;> rfl

theorem map_record_submitLocked (keys : Option EpochKeyDelivery) (batch : List Pending) :
    (submitLocked cfg now g keys batch).2.map (·.record) = batch.map (·.record) := by
  rcases Bool.eq_false_or_eq_true g.closed with hc | hc
  · rw [submitLocked_of_closed cfg now hc, map_record_refuseUnavailable]
  · cases hr : refusal g keys batch with
    | some refused =>
      rw [submitLocked_of_refusal cfg now hc hr, refuseBatch, map_record_fillCurrentEpoch,
        map_record_markRefused, map_record_atEpoch]
    | none =>
      rw [submitLocked_of_passed cfg now hc hr, map_record_fillEpoch, written,
        map_record_writeAll, map_record_atEpoch]

theorem submitBatch_cases :
    (∃ offender, submitBatch cfg now s request = (s, fillCurrentEpoch (s.groups request.groupId)
      (markRefused (probed cfg s request) offender .streamIndexReused))) ∨
    ((∀ p ∈ probed cfg s request, p.probe = .identical) ∧ submitBatch cfg now s request =
      (s, fillCurrentEpoch (s.groups request.groupId) (settle (probed cfg s request)))) ∨
    submitBatch cfg now s request = (s, refuseUnavailable (settle (probed cfg s request))) ∨
    ∃ g, s.groups request.groupId = some g ∧ submitBatch cfg now s request =
      (s.setGroup request.groupId
        (submitLocked cfg now g request.epochKeys (startBatch cfg g request.records)).1,
      (submitLocked cfg now g request.epochKeys (startBatch cfg g request.records)).2) := by
  rcases submitProbe_cases cfg s request with
    ⟨o, -, hp⟩ | ⟨-, ⟨ha, hp⟩ | ⟨-, ⟨hg, hp⟩ | ⟨⟨g, hg⟩, hp⟩⟩⟩
  · exact .inl ⟨o, by simp [submitBatch, hp]⟩
  · exact .inr (.inl ⟨by simpa [settle] using ha, by simp [submitBatch, hp]⟩)
  · exact .inr (.inr (.inl (by simp [submitBatch, hp, hg])))
  · refine .inr (.inr (.inr ⟨g, hg, ?_⟩))
    simp [submitBatch, hp, hg, startBatch, probed_of_group hg]

theorem map_record_startBatch (records : List Record) :
    (startBatch cfg g records).map (·.record) = records := by
  rw [startBatch, map_record_settle, List.map_map]
  simp [comp_def, probeRecord]

theorem map_record_submitBatch :
    (submitBatch cfg now s request).2.map (·.record) = request.records := by
  rcases submitBatch_cases cfg now s request with ⟨o, h⟩ | ⟨-, h⟩ | h | ⟨g, -, h⟩ <;> rw [h]
  · rw [map_record_fillCurrentEpoch, map_record_markRefused, map_record_probed]
  · rw [map_record_fillCurrentEpoch, map_record_settle, map_record_probed]
  · rw [map_record_refuseUnavailable, map_record_settle, map_record_probed]
  · rw [map_record_submitLocked, map_record_startBatch]

end Order

section Matched

variable {cfg : Config} {group : Option MemoryGroup} {batch : List Pending}

/-- Every answer that step (0) gave names the earlier id of its record. -/
def Matched (cfg : Config) (group : Option MemoryGroup) (batch : List Pending) : Prop :=
  ∀ q ∈ batch, q.probe = .identical →
    (group.bind (matchedId cfg · q.record)) = some q.result.recordId

variable (h : Matched cfg group batch)
include h

theorem Matched.map {f : Pending → Pending}
    (hf : ∀ p, (f p).record = p.record ∧ (f p).probe = p.probe ∧
      ((f p).probe = .identical → (f p).result.recordId = p.result.recordId)) :
    Matched cfg group (batch.map f) := by
  intro q hq hi
  obtain ⟨p, hp, rfl⟩ := List.mem_map.mp hq
  obtain ⟨hr, hpr, hid⟩ := hf p
  rw [hr, hid hi]
  exact h p hp (hpr ▸ hi)

omit h in
theorem matched_probed (cfg : Config) (s : MemoryStore) (request : SubmitRequest) :
    Matched cfg (s.groups request.groupId) (probed cfg s request) := by
  intro q hq hi
  cases hg : s.groups request.groupId with
  | none =>
    rw [probed_of_no_group hg] at hq
    obtain ⟨record, -, rfl⟩ := List.mem_map.mp hq
    cases hi
  | some g =>
    rw [probed_of_group hg] at hq
    obtain ⟨record, -, rfl⟩ := List.mem_map.mp hq
    obtain ⟨id, hid⟩ := Option.isSome_iff_exists.mp (probeRecord_probe_iff.mp hi)
    simp [probeRecord_of_matched hid, hid]

theorem Matched.refuseUnavailable : Matched cfg group (refuseUnavailable batch) := by
  refine h.map fun p => ?_
  by_cases hp : p.probe = .identical <;> simp [hp]

theorem Matched.fillCurrentEpoch (g : Option MemoryGroup) :
    Matched cfg group (fillCurrentEpoch g batch) := by
  unfold Store.fillCurrentEpoch
  split
  · exact h
  · split
    · exact h
    · exact h.map fun p => ⟨rfl, rfl, fun _ => rfl⟩

theorem Matched.markRefused (offender : ℕ) (reason : Reason) :
    Matched cfg group (markRefused batch offender reason) := by
  intro q hq hi
  obtain ⟨i, hb, rfl⟩ := List.mem_mapIdx.mp hq
  by_cases hp : batch[i].probe = .identical
  · simp only [hp, if_true]
    exact h _ (List.getElem_mem hb) hp
  · simp [hp] at hi

theorem Matched.writeAll (hs : Settled batch) (now : Time) (e : ℕ)
    (keys : Option EpochKeyDelivery) (g : MemoryGroup) (id : ℕ) :
    Matched cfg group (writeAll cfg now e keys g id batch).2 := by
  induction batch generalizing g id with
  | nil => exact h
  | cons p batch ih =>
    obtain ⟨hp, hb⟩ := List.forall_mem_cons.mp h
    obtain ⟨hsp, hsb⟩ := List.forall_mem_cons.mp hs
    unfold Store.writeAll
    split
    · exact List.forall_mem_cons.mpr ⟨hp, ih hb hsb g id⟩
    · rename_i hst
      refine List.forall_mem_cons.mpr ⟨fun hi => ?_, ih hb hsb _ _⟩
      rw [hsp] at hst
      exact absurd (decide_eq_true hi) hst

theorem Matched.submitLocked (hs : Settled batch) (now : Time)
    (g : MemoryGroup) (keys : Option EpochKeyDelivery) :
    Matched cfg group (submitLocked cfg now g keys batch).2 := by
  have he : Matched cfg group (atEpoch g.currentEpoch batch) :=
    h.map fun p => ⟨rfl, rfl, fun _ => rfl⟩
  rcases Bool.eq_false_or_eq_true g.closed with hc | hc
  · rw [submitLocked_of_closed cfg now hc]
    exact h.refuseUnavailable
  · cases hr : refusal g keys batch with
    | some refused =>
      rw [submitLocked_of_refusal cfg now hc hr]
      exact (he.markRefused refused.1 refused.2).fillCurrentEpoch (some g)
    | none =>
      rw [submitLocked_of_passed cfg now hc hr]
      refine (he.writeAll (settled_atEpoch _ hs) now _ keys _ _).map fun p => ?_
      unfold fillEpoch
      split <;> exact ⟨rfl, rfl, fun _ => rfl⟩

omit h

theorem matched_submitBatch (cfg : Config) (now : Time) (s : MemoryStore)
    (request : SubmitRequest) :
    Matched cfg (s.groups request.groupId) (submitBatch cfg now s request).2 := by
  have hp := matched_probed cfg s request
  have hs : Matched cfg (s.groups request.groupId) (settle (probed cfg s request)) :=
    hp.map fun p => ⟨rfl, rfl, fun _ => rfl⟩
  rcases submitBatch_cases cfg now s request with ⟨o, h⟩ | ⟨-, h⟩ | h | ⟨g, hg, h⟩ <;> rw [h]
  · exact (hp.markRefused _ _).fillCurrentEpoch _
  · exact hs.fillCurrentEpoch _
  · exact hs.refuseUnavailable
  · rw [probed_of_group hg] at hs
    exact hs.submitLocked (settled_settle _) now g _

end Matched

section Outcome

variable (cfg : Config) (now : Time) (s : MemoryStore) (request : SubmitRequest)

/-- A submission accepts only what step (0) matched, or its batch passes the gates. -/
theorem submitBatch_outcome :
    ((submitBatch cfg now s request).1 = s ∧ OnlyMatched (submitBatch cfg now s request).2) ∨
    ∃ g, s.groups request.groupId = some g ∧ g.closed = false ∧
      refusal g request.epochKeys (startBatch cfg g request.records) = none ∧
      submitBatch cfg now s request = (s.setGroup request.groupId
        (submitLocked cfg now g request.epochKeys (startBatch cfg g request.records)).1,
      (submitLocked cfg now g request.epochKeys (startBatch cfg g request.records)).2) := by
  rcases submitBatch_cases cfg now s request with ⟨o, h⟩ | ⟨ha, h⟩ | h | ⟨g, hg, h⟩
  · rw [h]
    exact .inl ⟨rfl, (onlyMatched_markRefused _ o rfl).fillCurrentEpoch _⟩
  · rw [h]
    refine .inl ⟨rfl, OnlyMatched.fillCurrentEpoch (fun p hp => .inl ?_) _⟩
    obtain ⟨q, hq, rfl⟩ := List.mem_map.mp hp
    exact ha q hq
  · rw [h]
    exact .inl ⟨rfl, onlyMatched_refuseUnavailable _⟩
  · rcases submitLocked_outcome cfg now g request.epochKeys (startBatch cfg g request.records) with
      ⟨hs, hm⟩ | ⟨hc, hr⟩
    · rw [h, hs, MemoryStore.setGroup_eq_self hg]
      exact .inl ⟨rfl, hm⟩
    · exact .inr ⟨g, hg, hc, hr, h⟩

variable {cfg s request} in
theorem accepted_passed {g : MemoryGroup} (hg : s.groups request.groupId = some g)
    (hc : g.closed = false)
    (hr : refusal g request.epochKeys (startBatch cfg g request.records) = none) :
    ∀ q ∈ (submitLocked cfg now g request.epochKeys (startBatch cfg g request.records)).2,
      accepted q.result.reason = true := by
  rw [submitLocked_of_passed cfg now hc hr]
  intro q hq
  refine accepted_written (fun p hp => ?_) hq
  rw [startBatch, ← probed_of_group hg] at hp
  exact accepted_settle_probed hp

variable {cfg} in
theorem assignedIds_of_matched {g : MemoryGroup} (id : ℕ) {batch : List Pending}
    (h : ∀ q ∈ batch, matchedId cfg g q.record = some q.result.recordId) :
    assignedIds cfg g id (batch.map (·.record)) = batch.map (·.result.recordId) ∧
      unmatched cfg g (batch.map (·.record)) = [] := by
  induction batch with
  | nil => exact ⟨rfl, rfl⟩
  | cons q batch ih =>
    obtain ⟨hq, hb⟩ := List.forall_mem_cons.mp h
    obtain ⟨hi, hn⟩ := ih hb
    refine ⟨by simp [assignedIds, hq, hi], ?_⟩
    simpa [unmatched, hq] using hn

end Outcome

section Main

variable (cfg : Config) (now : Time) (s : MemoryStore) (request : SubmitRequest) {q : Pending}

theorem recordId_resultOf_refused (h : accepted q.result.reason = false) :
    (resultOf q).recordId = 0 := by
  simp [resultOf, h]

theorem resultOf_of_accepted (h : accepted q.result.reason = true) : resultOf q = q.result := by
  simp [resultOf, h]

variable {cfg now s request} in
theorem submitBatch_accepted (hv : validateSubmit request = .ok ())
    (ha : ∀ q ∈ (submitBatch cfg now s request).2, accepted q.result.reason = true) :
    ∃ g g', s.groups request.groupId = some g ∧
      (submitBatch cfg now s request).1 = s.setGroup request.groupId g' ∧
      g'.records.map (·.record) = g.records.map (·.record) ++
        stampFrom g.nextRecordId (unmatched cfg g request.records) ∧
      g'.nextRecordId = g.nextRecordId + (unmatched cfg g request.records).length ∧
      (submitBatch cfg now s request).2.map (·.result.recordId) =
        assignedIds cfg g g.nextRecordId request.records := by
  rcases submitBatch_outcome cfg now s request with ⟨hs, hm⟩ | ⟨g, hg, hc, hr, h⟩
  · have hid : ∀ q ∈ (submitBatch cfg now s request).2,
        (s.groups request.groupId).bind (matchedId cfg · q.record) = some q.result.recordId :=
      fun q hq => matched_submitBatch cfg now s request q hq
        ((hm q hq).resolve_right (by simp [ha q hq]))
    have hrc := map_record_submitBatch cfg now s request
    cases hg : s.groups request.groupId with
    | none =>
      obtain ⟨q, hq⟩ : ∃ q, q ∈ (submitBatch cfg now s request).2 := by
        refine List.exists_mem_of_ne_nil _ fun hnl => ?_
        rw [hnl] at hrc
        exact (validateSubmit_eq_ok.mp hv).2.1 hrc.symm
      simp [hg] at hid
      exact absurd hq (hid q)
    | some g =>
      rw [hg] at hid
      obtain ⟨hi, hn⟩ := assignedIds_of_matched g.nextRecordId hid
      rw [hrc] at hi hn
      exact ⟨g, g, rfl, by rw [hs, MemoryStore.setGroup_eq_self hg], by simp [hn, stampFrom],
        by simp [hn], hi.symm⟩
  · have hal : Alone ((startBatch cfg g request.records).map (·.record)) := by
      rw [map_record_startBatch]
      exact alone_of_validateSubmit hv
    have hap := written_appends cfg now hal hr
    rw [fresh_startBatch] at hap
    refine ⟨g, _, hg, congrArg Prod.fst h, ?_, ?_, ?_⟩
    · rw [submitLocked_of_passed cfg now hc hr, hap.log]
      rfl
    · rw [submitLocked_of_passed cfg now hc hr, hap.nextRecordId]
      rfl
    · rw [h, submitLocked_of_passed cfg now hc hr, ← recordId_writeAll, List.map_map]
      refine List.map_congr_left fun p _ => ?_
      simp only [comp_apply, fillEpoch]
      split <;> rfl

/--
A submission answers every record in order. With a refusal among the answers it stores nothing;
without one it appends what step (0) did not match.
-/
theorem submit_all_or_nothing (hv : validateSubmit request = .ok ()) :
    ∃ results, (submit cfg now s request).2 = .ok results ∧
      results.length = request.records.length ∧
      ((∃ r ∈ results, accepted r.reason = false) → (submit cfg now s request).1 = s ∧
        ∀ (i : ℕ) (record : Record) (r : SubmitResult), request.records[i]? = some record →
          results[i]? = some r →
          (accepted r.reason = false → r.recordId = 0) ∧
          (accepted r.reason = true → ∃ g, s.groups request.groupId = some g ∧
            matchedId cfg g record = some r.recordId)) ∧
      ((∀ r ∈ results, accepted r.reason = true) → ∃ g g', s.groups request.groupId = some g ∧
        (submit cfg now s request).1 = s.setGroup request.groupId g' ∧
        g'.records.map (·.record) = g.records.map (·.record) ++
          stampFrom g.nextRecordId (unmatched cfg g request.records) ∧
        g'.nextRecordId = g.nextRecordId + (unmatched cfg g request.records).length ∧
        results.map (·.recordId) = assignedIds cfg g g.nextRecordId request.records) := by
  have hrc := map_record_submitBatch cfg now s request
  have hsb : submit cfg now s request = ((submitBatch cfg now s request).1,
      .ok (resultsOf (submitBatch cfg now s request).2)) := by
    simp [submit, hv]
  rw [hsb]
  refine ⟨_, rfl, ?_, fun hex => ?_, fun hal => ?_⟩
  · rw [resultsOf, List.length_map, ← hrc, List.length_map]
  · rcases submitBatch_outcome cfg now s request with ⟨hs, hm⟩ | ⟨g, hg, hc, hr, h⟩
    · refine ⟨hs, fun i record r hi hri => ?_⟩
      rw [resultsOf, List.getElem?_map, Option.map_eq_some_iff] at hri
      obtain ⟨q, hq, rfl⟩ := hri
      rw [← hrc, List.getElem?_map, hq, Option.map_some, Option.some.injEq] at hi
      subst hi
      have hmm := List.mem_of_getElem? hq
      rw [resultOf_reason]
      refine ⟨recordId_resultOf_refused, fun ha => ?_⟩
      rw [resultOf_of_accepted ha]
      have hi := matched_submitBatch cfg now s request q hmm
        ((hm q hmm).resolve_right (by simp [ha]))
      exact Option.bind_eq_some_iff.mp hi
    · obtain ⟨r, hr', hrf⟩ := hex
      obtain ⟨q, hq, rfl⟩ := List.mem_map.mp hr'
      rw [h] at hq
      rw [resultOf_reason, accepted_passed now hg hc hr q hq] at hrf
      cases hrf
  · have ha : ∀ q ∈ (submitBatch cfg now s request).2, accepted q.result.reason = true :=
      fun q hq => resultOf_reason q ▸ hal _ (List.mem_map_of_mem hq)
    obtain ⟨g, g', hg, hst, hl, hn, hid⟩ := submitBatch_accepted hv ha
    refine ⟨g, g', hg, hst, hl, hn, ?_⟩
    rw [← hid, resultsOf, List.map_map]
    exact List.map_congr_left fun q hq => by simp [resultOf_of_accepted (ha q hq)]

theorem submit_all_or_nothing_mixed : ∃ results, (submit config 3 founded mixed).2 = .ok results ∧
      results.length = 2 ∧ results.map (·.recordId) = [2, 3] := by
  obtain ⟨results, h, hl, -⟩ := submit_all_or_nothing config 3 founded mixed rfl
  obtain rfl := Except.ok.inj h
  exact ⟨_, h, hl, rfl⟩

end Main

end MessageServer.Store
