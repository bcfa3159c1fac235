import MessageServer.Store.Atomic

/-! # The submission of one new record

A record that step (0) does not match is decided by the gates alone. One that
they refuse leaves the store alone and is told the epoch of its group, and a
commit also the winner of its epoch; one that they pass takes the next id.
-/

namespace MessageServer.Store

section New

variable {cfg : Config} {now : Time} {s : MemoryStore} {g : MemoryGroup} {groupId : Bytes}
  {record : Record} {keys : Option EpochKeyDelivery}

theorem submitProbe_new (hg : s.groups groupId = some g)
    (hn : g.claims (claimKeyOf record) = none) :
    submitProbe cfg s ⟨groupId, [record], keys⟩ = .waiting [{ record := record }] := by
  have hp : probed cfg s ⟨groupId, [record], keys⟩ = [{ record := record }] := by
    simp [probed, probe, hg, probeOne, hn]
  unfold submitProbe
  rw [hp]
  simp [settle, hg]

theorem refusal_new : refusal g keys [{ record := record }] =
    if gate g g.state record keys (fun _ => none) (fun _ => none) = .ok then none
    else some (0, gate g g.state record keys (fun _ => none) (fun _ => none)) := by
  simp only [refusal, atEpoch, List.map_cons, List.map_nil, gateAll]
  split <;> simp_all

variable (hv : validateSubmit ⟨groupId, [record], keys⟩ = .ok ())
include hv

theorem submit_new (hg : s.groups groupId = some g) (hn : g.claims (claimKeyOf record) = none) :
    submit cfg now s ⟨groupId, [record], keys⟩ =
      (s.setGroup groupId (submitLocked cfg now g keys [{ record := record }]).1,
        .ok (resultsOf (submitLocked cfg now g keys [{ record := record }]).2)) := by
  unfold submit submitBatch
  rw [hv, submitProbe_new hg hn, hg]

theorem submit_new_refused (hg : s.groups groupId = some g) (ho : g.closed = false)
    (hn : g.claims (claimKeyOf record) = none) {reason : Reason} (hr : reason ≠ .ok)
    (hgt : gate g g.state record keys (fun _ => none) (fun _ => none) = reason) :
    submit cfg now s ⟨groupId, [record], keys⟩ = (s, .ok [{
      reason := reason
      currentEpoch := g.currentEpoch
      winningCommit := if record.isCommit then (g.commits record.epoch).map (·.record)
        else none }]) := by
  have hrf : refusal g keys [{ record := record }] = some (0, reason) := by
    rw [refusal_new, hgt, if_neg hr]
  have hrs : accepted reason = false := hgt ▸ accepted_gate (hgt ▸ hr)
  rw [submit_new hv hg hn, submitLocked_of_refusal cfg now ho hrf, MemoryStore.setGroup_eq_self hg]
  have he : (if g.currentEpoch = 0 then g.currentEpoch else g.currentEpoch) =
      g.currentEpoch := ite_self _
  simp only [refuseBatch, fillCurrentEpoch, ho, Bool.false_eq_true, if_false, markRefused,
    atEpoch, resultsOf, List.map_cons, List.map_nil, List.mapIdx_singleton, reduceCtorEq, if_true,
    fillOne, resultOf, hrs, he]
  cases record.isCommit with
  | false => simp
  | true => cases g.commits record.epoch <;> simp

omit hv in
theorem fillEpoch_result (epoch : ℕ) (p : Pending) :
    (fillEpoch epoch p).result.reason = p.result.reason ∧
      (fillEpoch epoch p).result.recordId = p.result.recordId := by
  unfold fillEpoch
  split <;> exact ⟨rfl, rfl⟩

theorem submit_new_accepted (hg : s.groups groupId = some g) (ho : g.closed = false)
    (hn : g.claims (claimKeyOf record) = none)
    (hgt : gate g g.state record keys (fun _ => none) (fun _ => none) = .ok) :
    ∃ g' result,
      submit cfg now s ⟨groupId, [record], keys⟩ = (s.setGroup groupId g', .ok [result]) ∧
      accepted result.reason = true ∧ result.recordId = g.nextRecordId ∧
      g'.records.map (·.record) = g.records.map (·.record) ++ [stamp record g.nextRecordId] := by
  have hrf : refusal g keys [{ record := record }] = none := by
    rw [refusal_new, if_pos hgt]
  have hal : Alone (([{ record := record }] : List Pending).map (·.record)) :=
    fun r hr _ => by rw [List.mem_singleton.mp hr]; rfl
  have hap := written_appends cfg now hal hrf
  rw [submit_new hv hg hn, submitLocked_of_passed cfg now ho hrf]
  have ha : ∀ result, accepted (acceptance cfg g.currentEpoch keys
      (stamp record g.nextRecordId) result).reason = true := accepted_acceptance _ _ _ _
  refine ⟨_, _, rfl, ?_, ?_, hap.log⟩
  · rw [resultOf_reason, (fillEpoch_result _ _).1]
    exact ha _
  · rw [resultOf_of_accepted, (fillEpoch_result _ _).2]
    · exact acceptance_recordId _ _ _ _ _
    · rw [(fillEpoch_result _ _).1]
      exact ha _

omit hv

theorem gate_previous (he : record.epoch + 1 = g.currentEpoch)
    (hc : ∀ e, (∃ c, g.commits e = some c) ↔ e < g.currentEpoch) :
    gate g g.state record keys (fun _ => none) (fun _ => none) =
      if record.isCommit then .commitLost else .epochStale := by
  obtain ⟨winner, hw⟩ := (hc record.epoch).mpr (by omega)
  have hne : record.epoch ≠ g.state.currentEpoch := by
    change record.epoch ≠ g.currentEpoch
    omega
  unfold gate
  cases record.isCommit with
  | false => rw [if_neg (by simp), if_pos hne, if_neg (by simp)]
  | true => rw [if_pos (by simp [hw]), if_pos rfl]

theorem gate_current (he : record.epoch = g.currentEpoch)
    (hcm : ∀ e, (∃ c, g.commits e = some c) ↔ e < g.currentEpoch)
    (hk : record.isCommit = isEpochAttachmentKind (attachmentKindOf record)) :
    gate g g.state record keys (fun _ => none) (fun _ => none) =
      if ¬ g.epochComplete ∧ ¬ exemptFromEpochComplete record then .epochIncomplete
      else if record.isCommit ∧
          ¬ wellFormedEpochAttachment record (g.currentEpoch + 1) keys then .rejected
      else if (g.senders record.senderHandle).any (record.streamIndex ≤ ·.lastStreamIndex) then
        .streamIndexRegressed
      else if (recoveryTagOf record).any fun tag =>
          (g.recovery tag.handle).any (·.verifyPub ≠ tag.verifyPub) then .rejected
      else .ok := by
  have hn : g.commits record.epoch = none := by
    cases hc : g.commits record.epoch with
    | none => rfl
    | some c => exact absurd ((hcm _).mp ⟨c, hc⟩) (by omega)
  have hs : ¬ record.epoch ≠ g.state.currentEpoch := not_not.mpr he
  unfold gate
  rw [if_neg (by simp [hn]), if_neg hs, if_neg (not_not.mpr hk)]
  simp only [lastStreamIndex, pinnedPub, Option.any_map]
  rfl

end New

end MessageServer.Store
