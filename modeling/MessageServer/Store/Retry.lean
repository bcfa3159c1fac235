import MessageServer.Store.Atomic

/-! # Retries

A record that landed is matched by step (0) from then on, whatever happens to
its group. A batch that was accepted once is therefore answered again with the
ids it has, ahead of every refusal the transaction would decide.
-/

namespace MessageServer.Store

section Matched

variable {cfg : Config} {now : Time} {g g' : MemoryGroup} {record : Record} {id : ℕ}

theorem matchedId_mono (h : Grows g g') (hm : matchedId cfg g record = some id) :
    matchedId cfg g' record = some id := by
  unfold matchedId at hm ⊢
  obtain ⟨claim, hc, hid⟩ := Option.bind_eq_some_iff.mp hm
  rw [h.claims _ _ hc]
  exact hid

theorem Represents.matchedId {L : Ledger} (h : Represents cfg g L) (hr : stamp record id ∈ L.log) :
    matchedId cfg g record = some id := by
  obtain ⟨row, hrw, hs⟩ := h.exists_row hr
  have hc := h.claimed row hrw
  rw [hs] at hc
  have hk : claimKeyOf (stamp record id) = claimKeyOf record := rfl
  rw [hk] at hc
  simp [Store.matchedId, hc, claimOf, hs, stamp]

end Matched

section Landed

variable {cfg : Config} {now : Time} {s : MemoryStore} {request : SubmitRequest}

theorem submitBatch_step (cfg : Config) (now : Time) (s : MemoryStore)
    (hv : validateSubmit request = .ok ()) :
    StoreStep cfg now s (submitBatch cfg now s request).1 := by
  rcases submitBatch_cases cfg now s request with ⟨o, h⟩ | ⟨-, h⟩ | h | ⟨g, hg, h⟩ <;> rw [h]
  · exact .refl
  · exact .refl
  · exact .refl
  · refine submitLocked_step cfg now (validateSubmit_eq_ok.mp hv).1 hg ?_ _
    rw [map_record_startBatch]
    exact alone_of_validateSubmit hv

theorem submitBatch_log (cfg : Config) (now : Time) (s : MemoryStore)
    (hv : validateSubmit request = .ok ()) :
    (submitBatch cfg now s request).1.log request.groupId =
      s.log request.groupId ++ appended (submitBatch cfg now s request).2 := by
  rcases submitBatch_outcome cfg now s request with ⟨hs, hm⟩ | ⟨g, hg, -, -, h⟩
  · rw [hs, hm.appended, List.append_nil]
  · rw [h, MemoryStore.log_of_group MemoryStore.setGroup_self, MemoryStore.log_of_group hg]
    refine submitLocked_log cfg now g _ ?_ (settled_settle _)
    rw [map_record_startBatch]
    exact alone_of_validateSubmit hv

theorem matchedId_of_accepted (hs : s.Each (Sound cfg)) (hv : validateSubmit request = .ok ())
    {q : Pending} (hq : q ∈ (submitBatch cfg now s request).2)
    (ha : accepted q.result.reason = true) :
    ∃ g, (submitBatch cfg now s request).1.groups request.groupId = some g ∧
      matchedId cfg g q.record = some q.result.recordId := by
  have hst := submitBatch_step cfg now s hv
  by_cases hi : q.probe = .identical
  · obtain ⟨g, hg, hid⟩ :=
      Option.bind_eq_some_iff.mp (matched_submitBatch cfg now s request q hq hi)
    obtain ⟨g', hg', hgr⟩ := hst.grows hs _ g hg
    exact ⟨g', hg', matchedId_mono hgr hid⟩
  · have hap : stamp q.record q.result.recordId ∈ appended (submitBatch cfg now s request).2 :=
      List.mem_map.mpr ⟨q, List.mem_filter.mpr ⟨hq, by simp [hi, ha]⟩, rfl⟩
    have hl := List.mem_append_right (s.log request.groupId) hap
    rw [← submitBatch_log cfg now s hv] at hl
    obtain ⟨g, L, hg, hL, -, hm⟩ := exists_ledger (hst.each (fun _ _ step => step.sound) hs) hl
    exact ⟨g, hg, hL.matchedId hm⟩

end Landed

section Resubmit

variable {cfg : Config} {now : Time} {s : MemoryStore} {g : MemoryGroup} {request : SubmitRequest}
  {records : List Record}

theorem submitProbe_of_matched (hg : s.groups request.groupId = some g)
    (hm : ∀ record ∈ request.records, (matchedId cfg g record).isSome = true) :
    submitProbe cfg s request = .answering (startBatch cfg g request.records) := by
  have hi : ∀ p ∈ probed cfg s request, p.probe = .identical := by
    rw [probed_of_group hg]
    intro p hp
    obtain ⟨record, hr, rfl⟩ := List.mem_map.mp hp
    exact probeRecord_probe_iff.mpr (hm record hr)
  have hd : (probed cfg s request).findIdx? (·.probe = .differs) = none := by
    rw [List.findIdx?_eq_none_iff]
    intro p hp
    simp [hi p hp]
  have ha : (settle (probed cfg s request)).all (·.settled) = true := by
    simpa [settle] using hi
  simp only [submitProbe, hd, ha, if_true]
  rw [startBatch, probed_of_group hg]

theorem submitBatch_of_matched (now : Time) (hg : s.groups request.groupId = some g)
    (hm : ∀ record ∈ request.records, (matchedId cfg g record).isSome = true) :
    submitBatch cfg now s request =
      (s, fillCurrentEpoch (some g) (startBatch cfg g request.records)) := by
  rw [submitBatch, submitProbe_of_matched hg hm, hg]

theorem startBatch_of_matched (hm : ∀ record ∈ records, (matchedId cfg g record).isSome = true) :
    startBatch cfg g records = records.map fun record => {
      record := record
      result := { reason := .ok, recordId := (matchedId cfg g record).getD 0 }
      probe := .identical
      settled := true } := by
  rw [startBatch, settle, List.map_map]
  refine List.map_congr_left fun record hr => ?_
  obtain ⟨id, hid⟩ := Option.isSome_iff_exists.mp (hm record hr)
  simp [probeRecord_of_matched hid, hid]

theorem resultsOf_of_matched (hm : ∀ record ∈ records, (matchedId cfg g record).isSome = true) :
    (resultsOf (fillCurrentEpoch (some g) (startBatch cfg g records))).map
        (fun r => (r.reason, r.recordId)) =
      records.map fun record => (.ok, (matchedId cfg g record).getD 0) := by
  rw [startBatch_of_matched hm]
  cases hc : g.closed <;>
    simp [fillCurrentEpoch, hc, resultsOf, Function.comp_def, resultOf, fillOne, accepted]

theorem submit_of_matched (now : Time) (hv : validateSubmit request = .ok ())
    (hg : s.groups request.groupId = some g)
    (hm : ∀ record ∈ request.records, (matchedId cfg g record).isSome = true) :
    ∃ results, submit cfg now s request = (s, .ok results) ∧
      results.map (fun r => (r.reason, r.recordId)) =
        request.records.map fun record => (.ok, (matchedId cfg g record).getD 0) :=
  ⟨_, by rw [submit, hv, submitBatch_of_matched now hg hm], resultsOf_of_matched hm⟩

theorem submit_of_answered {batch : List Pending} (now : Time)
    (hv : validateSubmit request = .ok ()) (hg : s.groups request.groupId = some g)
    (hrc : batch.map (·.record) = request.records)
    (hm : ∀ q ∈ batch, matchedId cfg g q.record = some q.result.recordId) :
    ∃ results, submit cfg now s request = (s, .ok results) ∧
      results.map (fun r => (r.reason, r.recordId)) =
        batch.map fun q => (.ok, q.result.recordId) := by
  have hsm : ∀ record ∈ request.records, (matchedId cfg g record).isSome = true := by
    rw [← hrc]
    intro record hr
    obtain ⟨q, hq, rfl⟩ := List.mem_map.mp hr
    simp [hm q hq]
  obtain ⟨results, hs, hrs⟩ := submit_of_matched now hv hg hsm
  refine ⟨results, hs, ?_⟩
  rw [hrs, ← hrc, List.map_map]
  refine List.map_congr_left fun q hq => ?_
  simp [hm q hq]

/-- An accepted batch is accepted again in every store that has grown since. -/
theorem submit_again {t : MemoryStore} (hs : s.Each (Sound cfg))
    (hv : validateSubmit request = .ok ())
    (ha : ∀ q ∈ (submitBatch cfg now s request).2, accepted q.result.reason = true)
    (hgr : StoreGrows (submitBatch cfg now s request).1 t) (again : Time) :
    ∃ results, submit cfg again t request = (t, .ok results) ∧
      results.map (fun r => (r.reason, r.recordId)) =
        (resultsOf (submitBatch cfg now s request).2).map fun r => (.ok, r.recordId) := by
  have hr := map_record_submitBatch cfg now s request
  obtain ⟨q₀, hq₀⟩ : ∃ q, q ∈ (submitBatch cfg now s request).2 := by
    refine List.exists_mem_of_ne_nil _ fun hn => ?_
    rw [hn] at hr
    exact (validateSubmit_eq_ok.mp hv).2.1 hr.symm
  obtain ⟨g, hg, -⟩ := matchedId_of_accepted hs hv hq₀ (ha q₀ hq₀)
  obtain ⟨g', hg', hgg⟩ := hgr _ g hg
  have hm : ∀ q ∈ (submitBatch cfg now s request).2,
      matchedId cfg g' q.record = some q.result.recordId := by
    intro q hq
    obtain ⟨g₁, hg₁, hid⟩ := matchedId_of_accepted hs hv hq (ha q hq)
    cases hg.symm.trans hg₁
    exact matchedId_mono hgg hid
  obtain ⟨results, hsb, hrs⟩ := submit_of_answered again hv hg' hr hm
  refine ⟨results, hsb, ?_⟩
  rw [hrs, resultsOf, List.map_map]
  refine List.map_congr_left fun q hq => ?_
  simp [resultOf_of_accepted (ha q hq)]

end Resubmit

section Main

variable {ι κ : Type*} [DecidableEq ι] [DecidableEq κ]

/-- A batch accepted once and submitted again later is accepted under the ids first assigned. -/
theorem resubmit_idempotent (cfg : Config) (requests : ι → Request) (sched : List (ι × Time))
    (now : Time) (request : SubmitRequest) (results : List SubmitResult)
    (hr : (submit cfg now (run cfg requests sched).shared request).2 = .ok results)
    (ha : ∀ r ∈ results, accepted r.reason = true) (later : κ → Request)
    (after : List (κ × Time)) (again : Time) :
    ∃ results', submit cfg again
        (runFrom cfg (submit cfg now (run cfg requests sched).shared request).1 later after).shared
        request =
      ((runFrom cfg (submit cfg now (run cfg requests sched).shared request).1 later after).shared,
        .ok results') ∧
      results'.map (fun r => (r.reason, r.recordId)) = results.map fun r => (.ok, r.recordId) := by
  have hs := run_sound cfg requests sched
  generalize (run cfg requests sched).shared = s at *
  cases hv : validateSubmit request with
  | error e => simp [submit, hv] at hr
  | ok u =>
    have hsb : submit cfg now s request = ((submitBatch cfg now s request).1,
        .ok (resultsOf (submitBatch cfg now s request).2)) := by simp [submit, hv]
    rw [hsb] at hr ⊢
    cases hr
    have hsn := (submitBatch_step cfg now s hv).each (fun _ _ step => step.sound) hs
    exact submit_again hs hv (fun q hq => resultOf_reason q ▸ ha _ (List.mem_map_of_mem hq))
      (runFrom_grows hsn later [] after) again

theorem resubmit_idempotent_advanced : ∃ results',
    submit Sample.config 9 Sample.advanced Sample.marked = (Sample.advanced, .ok results') ∧
      results'.map (fun r => (r.reason, r.recordId)) = [(.ok, 2)] :=
  resubmit_idempotent Sample.config ![Sample.createGroup] [(0, 0)] 1 Sample.marked _ rfl
    (by decide) ![Sample.submit [Sample.commit Sample.alice 1 3]] [(0, 2), (0, 3)] 9

end Main

end MessageServer.Store
