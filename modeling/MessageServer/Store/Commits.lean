import MessageServer.Store.History

/-! # Competing commits

Of the commits submitted for one epoch of a group one is stored. Every other one
that reaches the row lock once the epoch is over is told that it lost, and every
refusal of a commit for an epoch that is over carries the winner.
-/

namespace MessageServer.Store

open Interleaving EpochLog

section Lost

variable {cfg : Config} {now : Time} {g : MemoryGroup} {keys : Option EpochKeyDelivery}
  {p : Pending} {c : CommitRow}

theorem submitLocked_lost (cfg : Config) (now : Time) (keys : Option EpochKeyDelivery)
    (ho : g.closed = false) (hs : p.settled = false) (hi : p.probe ≠ .identical)
    (hc : p.record.isCommit = true) (hl : g.commits p.record.epoch = some c) :
    submitLocked cfg now g keys [p] = (g, [fillOne g { p with
      result := { p.result with currentEpoch := g.currentEpoch, reason := .commitLost } }]) := by
  have hr : refusal g keys [p] = some (0, .commitLost) := by
    simp [refusal, atEpoch, gateAll, gate, hs, hc, hl]
  rw [submitLocked_of_refusal cfg now ho hr]
  simp [refuseBatch, markRefused, atEpoch, fillCurrentEpoch, ho, hi]

theorem resultOf_fillOne_lost (hc : p.record.isCommit = true)
    (hl : g.commits p.record.epoch = some c) :
    resultOf (fillOne g { p with
      result := { p.result with currentEpoch := g.currentEpoch, reason := .commitLost } }) =
    { p.result with
      reason := .commitLost
      recordId := 0
      currentEpoch := g.currentEpoch
      winningCommit := some c.record } := by
  simp [resultOf, fillOne, accepted, hc, hl]

theorem winningCommit_fillOne (hc : p.record.isCommit = true)
    (ha : accepted p.result.reason = false) (hl : g.commits p.record.epoch = some c) :
    (fillOne g p).result.winningCommit = some c.record := by
  simp [fillOne, hc, ha, hl]

theorem winningCommit_fillCurrentEpoch (ho : g.closed = false) {batch : List Pending} {q : Pending}
    (hq : q ∈ fillCurrentEpoch (some g) batch) (hc : q.record.isCommit = true)
    (ha : accepted q.result.reason = false) (hl : g.commits q.record.epoch = some c) :
    q.result.winningCommit = some c.record := by
  simp only [fillCurrentEpoch, ho, Bool.false_eq_true, if_false] at hq
  obtain ⟨p, -, rfl⟩ := List.mem_map.mp hq
  exact winningCommit_fillOne hc ha hl

end Lost

section Answers

variable {cfg : Config} {now : Time} {s : MemoryStore} {g : MemoryGroup}
  {keys : Option EpochKeyDelivery} {request : SubmitRequest} {batch : List Pending} {q : Pending}

theorem reason_probed (h : q ∈ probed cfg s request) : q.result.reason = .ok := by
  unfold probed probe at h
  split at h
  · obtain ⟨r, -, rfl⟩ := List.mem_map.mp h
    rfl
  · obtain ⟨p, hp, rfl⟩ := List.mem_map.mp h
    obtain ⟨r, -, rfl⟩ := List.mem_map.mp hp
    unfold probeOne
    split
    · rfl
    · split <;> rfl

theorem accepted_settle_probed (h : q ∈ settle (probed cfg s request)) :
    accepted q.result.reason = true := by
  obtain ⟨p, hp, rfl⟩ := List.mem_map.mp h
  simp [reason_probed hp, accepted]

theorem accepted_writeAll {e id : ℕ} (hb : ∀ p ∈ batch, accepted p.result.reason = true)
    (h : q ∈ (writeAll cfg now e keys g id batch).2) : accepted q.result.reason = true := by
  induction batch generalizing g id with
  | nil => cases h
  | cons p batch ih =>
    obtain ⟨hp, hb⟩ := List.forall_mem_cons.mp hb
    unfold writeAll at h
    split at h
    · rcases List.mem_cons.mp h with rfl | h
      · exact hp
      · exact ih hb h
    · rcases List.mem_cons.mp h with rfl | h
      · exact accepted_acceptance ..
      · exact ih hb h

theorem accepted_written (hb : ∀ p ∈ batch, accepted p.result.reason = true) {e : ℕ}
    (h : q ∈ (written cfg now g keys batch).2.map (fillEpoch e)) :
    accepted q.result.reason = true := by
  obtain ⟨p, hp, rfl⟩ := List.mem_map.mp h
  have ha : accepted p.result.reason = true := by
    refine accepted_writeAll (fun p hp => ?_) hp
    obtain ⟨r, hr, rfl⟩ := List.mem_map.mp hp
    exact hb r hr
  unfold fillEpoch
  split <;> exact ha

theorem winningCommit_submitLocked {c : CommitRow} (ho : g.closed = false)
    (hb : ∀ p ∈ batch, accepted p.result.reason = true)
    (hq : q ∈ (submitLocked cfg now g keys batch).2) (hc : q.record.isCommit = true)
    (ha : accepted q.result.reason = false) (hl : g.commits q.record.epoch = some c) :
    q.result.winningCommit = some c.record := by
  cases hr : refusal g keys batch with
  | some refused =>
    rw [submitLocked_of_refusal cfg now ho hr] at hq
    exact winningCommit_fillCurrentEpoch ho hq hc ha hl
  | none =>
    rw [submitLocked_of_passed cfg now ho hr] at hq
    simp [accepted_written hb hq] at ha

theorem Call.winningCommit {c : Call} {R : MemoryStore → Prop} {row : CommitRow}
    (h : c.ReadFrom cfg R) (hn : ∀ b, c ≠ .submitted request b)
    (hg : s.groups request.groupId = some g) (ho : g.closed = false)
    (hs : (c.step cfg now s).2 = .submitted request batch) (hq : q ∈ batch)
    (hc : q.record.isCommit = true) (ha : accepted q.result.reason = false)
    (hl : g.commits q.record.epoch = some row) : q.result.winningCommit = some row.record := by
  cases c with
  | start req =>
    cases req with
    | createGroup | closeGroup => cases hs
    | submit req =>
      unfold Call.step at hs
      dsimp only at hs
      split at hs
      · cases hs
      · rcases submitProbe_cases cfg s req with
          ⟨_, -, hp⟩ | ⟨-, ⟨-, hp⟩ | ⟨-, ⟨hnn, hp⟩ | ⟨-, hp⟩⟩⟩ <;> rw [hp] at hs
        · cases hs
        · cases hs
        · cases hs
          rw [hnn] at hg
          cases hg
        · cases hs
  | answering req batch' =>
    unfold Call.step at hs
    cases hs
    rw [hg] at hq
    exact winningCommit_fillCurrentEpoch ho hq hc ha hl
  | waiting req batch' =>
    obtain ⟨-, s₀, -, hp⟩ := h
    obtain ⟨rfl, -, -⟩ := submitProbe_waiting hp
    unfold Call.step at hs
    dsimp only at hs
    split at hs
    · cases hs
    · rename_i g' hg'
      cases hs
      cases hg'.symm.trans hg
      exact winningCommit_submitLocked ho (fun p => accepted_settle_probed) hq hc ha hl
  | submitted req batch' =>
    unfold Call.step at hs
    cases hs
    exact absurd rfl (hn _)
  | created | closed | failed => cases hs

end Answers

section Runs

variable {cfg : Config} {ι : Type*} [DecidableEq ι]

variable {s : MemoryStore}

omit [DecidableEq ι] in
theorem History.commit_unique {w : World MemoryStore Call ι} (h : History cfg s w) {i j : ι}
    {r r' : Record} (hij : (w.calls i).groupId = (w.calls j).groupId) (hr : r ∈ (w.calls i).stored)
    (hr' : r' ∈ (w.calls j).stored) (hc : r.isCommit = true) (hc' : r'.isCommit = true)
    (he : r.epoch = r'.epoch) : i = j ∧ r = r' := by
  have hm := (h.log _ r).mpr (.inr ⟨i, rfl, hr⟩)
  have hm' := (h.log _ r').mpr (.inr ⟨j, hij.symm, hr'⟩)
  obtain ⟨_, L, -, -, hl, hm⟩ := exists_ledger h.sound hm
  obtain rfl := L.ordered.eq_of_closes hm (hl ▸ hm') hc hc' he
  exact ⟨h.unique i j r hij hr hr', rfl⟩

theorem Call.commit_lost {c : Call} {R : MemoryStore → Prop} {request : SubmitRequest}
    {batch : List Pending} {p : Pending} {g : MemoryGroup} {row : CommitRow} (h : c.ReadFrom cfg R)
    (hw : c = .waiting request batch) (hg : s.groups request.groupId = some g)
    (ho : g.closed = false) (hp : p ∈ batch) (ha : p.probe = .absent)
    (hc : p.record.isCommit = true) (hl : g.commits p.record.epoch = some row) (now : Time) :
    ∃ q, (c.step cfg now s).2 = .submitted request [q] ∧ q.record = p.record ∧
      (resultOf q).reason = .commitLost ∧ (resultOf q).currentEpoch = g.currentEpoch ∧
      (resultOf q).winningCommit = some row.record := by
  subst hw
  obtain ⟨hv, s₀, -, hpr⟩ := h
  obtain ⟨rfl, -, -⟩ := submitProbe_waiting hpr
  have hon : settle (probed cfg s₀ request) = [p] := by
    have hr := alone_of_validateSubmit hv
    rw [← map_record_probed cfg s₀ request, ← map_record_settle] at hr
    have hln := congrArg List.length (hr _ (List.mem_map_of_mem hp) hc)
    rw [List.length_map, List.length_singleton] at hln
    obtain ⟨x, hx⟩ := List.length_eq_one_iff.mp hln
    rw [hx, List.mem_singleton] at hp
    rw [hx, hp]
  have hs : p.settled = false := by
    rw [settled_settle _ p hp, ha]
    rfl
  have hi : p.probe ≠ .identical := by simp [ha]
  refine ⟨fillOne g { p with
    result := { p.result with currentEpoch := g.currentEpoch, reason := .commitLost } }, ?_,
    rfl, ?_⟩
  · simp only [Call.step, hg, hon, submitLocked_lost cfg now request.epochKeys ho hs hi hc hl]
  · rw [resultOf_fillOne_lost hc hl]
    exact ⟨rfl, rfl, rfl⟩

/--
At most one commit of an epoch is accepted, and every refused commit for an epoch that is over
carries the stored one.
-/
theorem one_commit_per_epoch (cfg : Config) (requests : ι → Request) (sched : List (ι × Time)) :
    (∀ i j r r', ((run cfg requests sched).calls i).groupId =
        ((run cfg requests sched).calls j).groupId →
      r ∈ ((run cfg requests sched).calls i).stored →
      r' ∈ ((run cfg requests sched).calls j).stored →
      r.isCommit = true → r'.isCommit = true → r.epoch = r'.epoch → i = j ∧ r = r') ∧
    (∀ i now request batch g p, (run cfg requests sched).calls i = .waiting request batch →
      (run cfg requests sched).shared.groups request.groupId = some g → g.closed = false →
      p ∈ batch → p.probe = .absent → p.record.isCommit = true → p.record.epoch < g.currentEpoch →
      ∃ q, (run cfg requests (sched ++ [(i, now)])).calls i = .submitted request [q] ∧
        q.record = p.record ∧ (resultOf q).reason = .commitLost ∧
        (resultOf q).currentEpoch = g.currentEpoch) ∧
    (∀ i now request batch g q, (∀ b, (run cfg requests sched).calls i ≠ .submitted request b) →
      (run cfg requests sched).shared.groups request.groupId = some g → g.closed = false →
      (run cfg requests (sched ++ [(i, now)])).calls i = .submitted request batch →
      q ∈ batch → q.record.isCommit = true → accepted (resultOf q).reason = false →
      q.record.epoch < g.currentEpoch →
      ∃ row, g.commits q.record.epoch = some row ∧
        (resultOf q).winningCommit = some row.record ∧ row.record.isCommit = true ∧
        row.record.epoch = q.record.epoch ∧
        row.record ∈ (run cfg requests sched).shared.log request.groupId) := by
  have h : History cfg .empty (run cfg requests sched) := history each_sound_empty requests sched
  refine ⟨fun i j r r' => h.commit_unique, fun i now request batch g p hw hg ho hp ha hc he => ?_,
    fun i now request batch g q hn hg ho hs hq hc ha he => ?_⟩
  · obtain ⟨L, hL, -⟩ := h.sound _ g hg
    obtain ⟨row, hl⟩ := (hL.commits_iff p.record.epoch).mpr he
    rw [run, runFrom_snoc_calls]
    obtain ⟨q, hs, hr, hrs, hep, -⟩ := Call.commit_lost (h.read i) hw hg ho hp ha hc hl now
    exact ⟨q, hs, hr, hrs, hep⟩
  · obtain ⟨L, hL, -⟩ := h.sound _ g hg
    obtain ⟨row, hl⟩ := (hL.commits_iff q.record.epoch).mpr he
    rw [run, runFrom_snoc_calls] at hs
    rw [resultOf_reason] at ha
    have hwn := Call.winningCommit (h.read i) hn hg ho hs hq hc ha hl
    obtain ⟨r, hr, hrc, hre, rfl⟩ := (hL.commits _ row).mp hl
    refine ⟨_, hl, (resultOf_winningCommit q).trans hwn, hrc, hre, ?_⟩
    rwa [MemoryStore.log_of_group hg, hL.log]

theorem one_commit_per_epoch_race : ∃ q,
    (run Sample.config Sample.race (Sample.raceOrder ++ [(3, 6)])).calls 3 =
      .submitted ⟨Sample.groupId, [Sample.commit Sample.bob 1 1], none⟩ [q] ∧
    (resultOf q).reason = .commitLost ∧ (resultOf q).currentEpoch = 2 := by
  obtain ⟨q, hq, -, hr, he⟩ :=
    (one_commit_per_epoch Sample.config Sample.race Sample.raceOrder).2.1 3 6 _ _ _ _ rfl rfl rfl
      (List.mem_singleton_self _) rfl rfl (by decide)
  exact ⟨q, hq, hr, he⟩

end Runs

end MessageServer.Store
