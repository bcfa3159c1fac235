import MessageServer.Pgx.Founding

/-! # A call of the SQL store beside the call in memory

A transaction on a database that holds a store commits where the call in memory
writes, and leaves the rows of the store that the call in memory leaves. Where
the call in memory refuses, the transaction rolls back.
-/

namespace MessageServer.Pgx

open Store Transaction

variable {store : PgxStore} {groupId : Bytes} {draw : Draw} {d : Database} {s : MemoryStore}
  {g : MemoryGroup} {keys : Option EpochKeyDelivery} {batch : List Pending}
  {request : SubmitRequest} {E : Prop} {i : ℕ}

theorem turn_reserve (hs : Sound store.toConfig g) (hc : Custody g) (k : ℕ) :
    Turn store.toConfig g (fun _ => none) (fun _ => none) (g.reserve k) g.nextRecordId := by
  obtain ⟨L, hL, hn⟩ := hs
  exact ⟨.start g k, pinsAgree_none g, ⟨rfl, rfl, rfl, rfl⟩, ⟨L, hL.reserve k, hn⟩,
    hc.congr rfl rfl⟩

theorem not_commit_of_rebindAt (ha : Alone (batch.map (·.record)))
    (hr : rebindAt (fun _ => none) 0 batch = some i) : ∀ p ∈ batch, p.record.isCommit = false := by
  intro p hp
  by_contra hc
  have ho := ha p.record (List.mem_map_of_mem hp) (by simpa using hc)
  obtain ⟨q, rfl⟩ : ∃ q, batch = [q] := by
    have hl : batch.length = 1 := by simpa using congrArg List.length ho
    exact List.length_eq_one_iff.mp hl
  have how : rebindsOwn (fun _ => none) q.record = false := by
    unfold rebindsOwn
    cases recoveryTagOf q.record <;> rfl
  cases hs : q.settled <;> simp [rebindAt, hs, how] at hr

/-- The rows of a batch fit, and so do the numbers it takes. -/
structure Room (store : PgxStore) (groupId : Bytes) (draw : Draw) (g : MemoryGroup)
    (keys : Option EpochKeyDelivery) (records : List Record) : Prop where
  ids : g.nextRecordId + records.length < 2 ^ 63
  rows : Fits store groupId draw keys (g.reserve records.length) g.nextRecordId records

theorem reserve_columns (k : ℕ) : { groupColumns g with
    nextRecordId := (groupColumns g).nextRecordId + k } = groupColumns (g.reserve k) := by
  have hc : ((g.nextRecordId + k : ℕ) : ℤ) = g.nextRecordId + k := by omega
  simp only [groupColumns, MemoryGroup.reserve, hc]

theorem admits_reserve (h : HoldsGroup store.keys groupId d g) {k : ℕ} :
    admits (.group groupId) (groupColumns (g.reserve k)) = true ↔ g.nextRecordId + k < 2 ^ 63 := by
  have had := h.admitted _ _ rfl h.group
  have hp := h.inRange.nextRecordId
  simp only [admits, MessageGroup.admitted, isBigint, Bool.and_eq_true, decide_eq_true_eq] at had ⊢
  simp only [groupColumns, MemoryGroup.reserve] at had ⊢
  constructor
  · intro ha
    omega
  · intro hk
    have hn : -9223372036854775808 ≤ ((g.nextRecordId + k : ℕ) : ℤ) ∧
        ((g.nextRecordId + k : ℕ) : ℤ) ≤ 9223372036854775807 := by omega
    have h1 : 1 ≤ ((g.nextRecordId + k : ℕ) : ℤ) := by omega
    tauto

/-- Steps (4) to (7). -/
theorem write_meets (hl : Bounded store.limits) (h : HoldsGroup store.keys groupId d g)
    (hs : Sound store.toConfig g) (hc : Custody g) (ha : Alone (batch.map (·.record)))
    (hn : ∀ p ∈ batch, Narrow p.record) (hst : Settled batch)
    (hg : gateStored g keys (fun _ => none) 0 batch = none)
    (hE : E → Room store groupId draw g keys (fresh batch)) :
    (write store groupId draw keys g.state batch).Meets schema d
      { commit := fun d' w => rebindAt (fun _ => none) 0 batch = none ∧
          HoldsGroup store.keys groupId d' (Store.writeAll store.toConfig draw.now g.currentEpoch
            keys (g.reserve (fresh batch).length) g.nextRecordId batch).1 ∧
          w = .submitted (resultsOf ((Store.writeAll store.toConfig draw.now g.currentEpoch keys
            (g.reserve (fresh batch).length) g.nextRecordId batch).2.map
              (fillEpoch (Store.writeAll store.toConfig draw.now g.currentEpoch keys
                (g.reserve (fresh batch).length) g.nextRecordId batch).1.currentEpoch)))
        answer := fun w => ∃ i, rebindAt (fun _ => none) 0 batch = some i ∧
          w = .submitted (refusalResults g.currentEpoch batch i .rejected)
        error := fun _ => ¬ E } := by
  unfold write
  rw [← length_fresh]
  refine Prog.meets_update_of_some h.group rfl (fun hf hE' => ?_) fun had => ?_
  · rw [reserve_columns, schema_admits, (admits_reserve h).mpr (hE hE').ids] at hf
    cases hf
  · rw [reserve_columns, schema_admits] at had
    have hk := (admits_reserve h).mp had
    have h₁ : HoldsGroup store.keys groupId _ (g.reserve (fresh batch).length) :=
      h.setGroup ⟨rfl, rfl, rfl, rfl, rfl, rfl⟩ had
    rw [reserve_columns]
    have hid : uint64 ((groupColumns (g.reserve (fresh batch).length)).nextRecordId -
        (fresh batch).length) = g.nextRecordId := by
      have hcs : ((g.nextRecordId + (fresh batch).length : ℕ) : ℤ) - (fresh batch).length =
          g.nextRecordId := by omega
      simp only [groupColumns, MemoryGroup.reserve, hcs]
      exact uint64_natCast (by omega)
    dsimp only
    rw [hid]
    refine (writeAll_meets (A := fun i w =>
      w = .submitted (refusalResults g.currentEpoch batch i .rejected)) [] hl h₁
      (turn_reserve hs hc _) ha hn hk.le hg hst (fun hE' => (hE hE').rows) ?_).bind ?_
      (fun _ _ => False.elim) (fun _ => id) fun _ => id
    · intro batch' i hb hs' hr d'
      have hcm := not_commit_of_rebindAt ha hr
      have hc' : ∀ p ∈ batch', p.record.isCommit = false := by
        intro p hp
        obtain ⟨q, hq, he⟩ := List.mem_map.mp (hb ▸ List.mem_map_of_mem hp : plain p ∈ _)
        rw [← record_plain, ← he, record_plain]
        exact hcm q hq
      rw [refuse_eq hc' (by have := hc.pos; omega)]
      exact congrArg Reply.submitted (refusalResults_congr hb hs' hst rfl)
    · rintro d' out ⟨hr, hd, rfl⟩
      exact ⟨hr, hd, rfl⟩

section Transact

def refusedAt (g : MemoryGroup) (keys : Option EpochKeyDelivery) (batch : List Pending) :
    Option (ℕ × Reason) :=
  match gateStored g keys (fun _ => none) 0 batch with
  | some refused => some refused
  | none => (rebindAt (fun _ => none) 0 batch).map fun i => (i, .rejected)

theorem refusal_eq_none : refusal g keys batch = none ↔
    refusedAt g keys (atEpoch g.currentEpoch batch) = none := by
  unfold refusal refusedAt
  rw [gateAll_eq (pinsAgree_none g)]
  cases gateStored g keys (fun _ => none) 0 (atEpoch g.currentEpoch batch) with
  | none => cases rebindAt (fun _ => none) 0 (atEpoch g.currentEpoch batch) <;> simp [firstRefusal]
  | some refused =>
    obtain ⟨j, reason⟩ := refused
    cases rebindAt (fun _ => none) 0 (atEpoch g.currentEpoch batch) with
    | none => simp [firstRefusal]
    | some i =>
      simp only [firstRefusal]
      split_ifs <;> simp

variable {reason : Reason}

theorem accepted_gateStored {own : Bytes → Option ℕ} {index i : ℕ}
    (h : gateStored g keys own index batch = some (i, reason)) : accepted reason = false := by
  induction batch generalizing own index with
  | nil => cases h
  | cons p batch ih =>
    unfold gateStored at h
    split at h
    · exact ih h
    · dsimp only at h
      split at h
      · rename_i hg
        cases h
        exact accepted_gate hg
      · exact ih h

theorem accepted_refusedAt (h : refusedAt g keys batch = some (i, reason)) :
    accepted reason = false := by
  unfold refusedAt at h
  split at h
  · rename_i refused hg
    cases h
    exact accepted_gateStored hg
  · obtain ⟨n, -, he⟩ := Option.map_eq_some_iff.mp h
    cases he
    rfl

theorem refusalResults_eq {epoch offender : ℕ} (h : ∀ p ∈ batch, p.record.isCommit = false) :
    refusalResults epoch batch offender reason =
      resultsOf ((markRefused batch offender reason).map (filled store groupId d epoch)) := by
  unfold refusalResults
  congr 1
  refine List.map_congr_left fun p hp => ?_
  have hr : p.record ∈ batch.map (·.record) := by
    rw [← map_record_markRefused batch offender reason]
    exact List.mem_map_of_mem hp
  obtain ⟨q, hq, he⟩ := List.mem_map.mp hr
  have hc : p.record.isCommit = false := he ▸ h q hq
  rw [filled, if_pos (.inl (by simp [hc]))]

theorem inputs_of_reads {highWater : Bytes → Option ℕ} {pinned : Bytes → Option Bytes}
    (hw : ∀ handle ∈ batch.map (·.record.senderHandle),
      highWater handle = (g.senders handle).map (·.lastStreamIndex))
    (hp : ∀ handle ∈ recoveryHandles batch, pinned handle = (g.recovery handle).map (·.verifyPub)) :
    Inputs g (fun _ => none) highWater pinned (batch.map (·.record)) := by
  refine ⟨fun record hr => ?_, fun record hr tag ht => hp _ ?_⟩
  · obtain ⟨p, hp', rfl⟩ := List.mem_map.mp hr
    exact hw _ (List.mem_map_of_mem hp')
  · obtain ⟨p, hp', rfl⟩ := List.mem_map.mp hr
    exact List.mem_filterMap.mpr ⟨p, hp', by rw [ht]; rfl⟩

theorem senderHighWater_meets (h : HoldsGroup store.keys groupId d g) :
    (senderHighWater groupId batch).Meets schema d
      { value := fun d' highWater => d' = d ∧ ∀ handle ∈ batch.map (·.record.senderHandle),
          highWater handle = (g.senders handle).map (·.lastStreamIndex) } := by
  refine ⟨rfl, fun handle hh => ?_⟩
  exact (if_pos hh).trans (h.lastStreamIndex handle)

theorem pinnedRecoveryKeys_meets (h : HoldsGroup store.keys groupId d g) :
    (pinnedRecoveryKeys groupId batch).Meets schema d
      { value := fun d' pinned => d' = d ∧ ∀ handle ∈ recoveryHandles batch,
          pinned handle = (g.recovery handle).map (·.verifyPub) } := by
  unfold pinnedRecoveryKeys
  split
  · rename_i hn
    refine ⟨rfl, fun handle hh => ?_⟩
    rw [hn] at hh
    cases hh
  · refine ⟨rfl, fun handle hh => ?_⟩
    exact (if_pos hh).trans (h.verifyPub handle)

/-- The transaction of a batch on an open group commits what the store in memory writes. -/
theorem transact_meets (hl : Bounded store.limits) (h : HoldsGroup store.keys groupId d g)
    (ho : g.closed = false) (hs : Sound store.toConfig g) (hc : Custody g)
    (ha : Alone (batch.map (·.record))) (hn : ∀ p ∈ batch, Narrow p.record) (hse : Settled batch)
    (hE : E → gateStored g keys (fun _ => none) 0 (atEpoch g.currentEpoch batch) = none →
      Room store groupId draw g keys (fresh batch)) :
    (transact store draw groupId keys batch).Meets schema d
      { commit := fun d' w => refusal g keys batch = none ∧
          HoldsGroup store.keys groupId d' (written store.toConfig draw.now g keys batch).1 ∧
          w = .submitted (resultsOf ((written store.toConfig draw.now g keys batch).2.map
            (fillEpoch (written store.toConfig draw.now g keys batch).1.currentEpoch)))
        answer := fun w => ∃ i reason,
          refusedAt g keys (atEpoch g.currentEpoch batch) = some (i, reason) ∧
          w = .submitted (resultsOf ((markRefused (atEpoch g.currentEpoch batch) i reason).map
            (filled store groupId d g.currentEpoch)))
        error := fun _ => ¬ E } := by
  have hst := h.stateOf
  have he : ∀ p ∈ atEpoch g.currentEpoch batch, Narrow p.record := by
    intro p hp
    obtain ⟨q, hq, rfl⟩ := List.mem_map.mp hp
    exact hn q hq
  unfold transact
  refine Prog.meets_lock_of_some h.group (by simpa [groupColumns] using ho) ?_
  dsimp only
  rw [hst]
  change Prog.Meets schema (do
    let highWater ← senderHighWater groupId (atEpoch g.currentEpoch batch)
    let pinned ← pinnedRecoveryKeys groupId (atEpoch g.currentEpoch batch)
    gateAll store groupId keys g.state (atEpoch g.currentEpoch batch) pinned highWater 0
      (atEpoch g.currentEpoch batch)
    write store groupId draw keys g.state (atEpoch g.currentEpoch batch)) d _
  refine (senderHighWater_meets h).bind_value ?_ fun _ => False.elim
  rintro _ highWater ⟨rfl, hw⟩
  refine (pinnedRecoveryKeys_meets h).bind_value ?_ fun _ => False.elim
  rintro _ pinned ⟨rfl, hp⟩
  refine (gateAll_meets h ho (fun p hp => (he p hp).epoch) (inputs_of_reads hw hp) _).bind ?_
    (fun _ _ => False.elim) ?_ fun _ => False.elim
  · rintro _ _ ⟨rfl, hg⟩
    have hr : refusedAt g keys (atEpoch g.currentEpoch batch) =
        (rebindAt (fun _ => none) 0 (atEpoch g.currentEpoch batch)).map fun i =>
          (i, .rejected) := by
      rw [refusedAt, hg]
    have ha' : Alone ((atEpoch g.currentEpoch batch).map (·.record)) := by
      rwa [map_record_atEpoch]
    refine (write_meets hl h hs hc ha' he (settled_atEpoch _ hse) hg ?_).mono
      (fun _ _ => False.elim) ?_ ?_ fun _ => id
    · rw [fresh_atEpoch]
      exact fun hE' => hE hE' hg
    · rintro d' w ⟨hre, hd, hw⟩
      rw [fresh_atEpoch] at hd hw
      refine ⟨refusal_eq_none.mpr ?_, hd, hw⟩
      rw [hr, hre]
      rfl
    · rintro w ⟨i, hre, hw⟩
      refine ⟨i, .rejected, ?_, ?_⟩
      · rw [hr, hre]
        rfl
      · rw [hw, refusalResults_eq (not_commit_of_rebindAt ha' hre)]
  · rintro w ⟨i, reason, hg, hw⟩
    exact ⟨i, reason, by rw [refusedAt, hg], hw⟩

end Transact

theorem probeOne_eq (h : HoldsGroup store.keys groupId d g) {p : Pending}
    (hi : p.record.streamIndex < 2 ^ 64) :
    probeOne store groupId d p = Store.probeOne store.toConfig g p := by
  have hl := h.claim_int64 hi p.record.senderHandle
  unfold probeOne Store.probeOne claimKeyOf
  cases hc : g.claims ⟨p.record.senderHandle, p.record.streamIndex⟩ with
  | none =>
    rw [hc, Option.map_none] at hl
    rw [hl]
  | some claim =>
    rw [hc, Option.map_some] at hl
    have ha := h.admitted _ _ rfl hl
    simp only [admits, isBigint, Bool.and_eq_true, decide_eq_true_eq] at ha
    simp only [claimColumns] at ha
    have hu : uint64 claim.recordId = claim.recordId := uint64_natCast (by omega)
    rw [hl]
    simp only [claimColumns, hu]

theorem probed_eq (h : HoldsStore store.keys d s)
    (hi : ∀ record ∈ request.records, record.streamIndex < 2 ^ 64) :
    (request.records.map fun record => probeOne store request.groupId d { record := record }) =
      probed store.toConfig s request := by
  unfold probed probe
  cases hg : s.groups request.groupId with
  | none =>
    refine List.map_congr_left fun record _ => ?_
    unfold probeOne
    rw [h.others (.claim request.groupId _ _) hg]
  | some g =>
    dsimp only
    rw [List.map_map]
    exact List.map_congr_left fun record hr => probeOne_eq (h.groups _ g hg) (hi record hr)

theorem winningCommit_probed {p : Pending} (h : p ∈ probed store.toConfig s request) :
    p.result.winningCommit = none := by
  unfold probed probe at h
  split at h
  · obtain ⟨record, -, rfl⟩ := List.mem_map.mp h
    rfl
  · rw [List.map_map] at h
    obtain ⟨record, -, rfl⟩ := List.mem_map.mp h
    simp only [Function.comp_apply, Store.probeOne]
    split
    · rfl
    · split <;> rfl

section Answers

variable (h : HoldsGroup store.keys groupId d g)
include h

theorem recordId_winningCommit (hs : Sound store.toConfig g) {e : ℕ} (he : e < 2 ^ 64) :
    (winningCommit store groupId e d).toOption.join.map (·.recordId) =
      (g.commits e).map (·.record.recordId) := by
  unfold winningCommit
  rw [h.commit_int64 he]
  cases hc : g.commits e with
  | none => rfl
  | some c =>
    obtain ⟨-, row, hrw, hrc, hid, -⟩ := hs.groupLog.commit e c hc
    have hf : ∃ row', recordAt g c.recordId = some row' := by
      refine Option.isSome_iff_exists.mp (List.find?_isSome.mpr ⟨row, hrw, ?_⟩)
      exact decide_eq_true hid
    obtain ⟨row', hat⟩ := hf
    have hl := h.record (c.recordId : ℤ)
    rw [natAt_natCast, hat, Option.map_some] at hl
    have ha := h.admitted _ _ rfl hl
    simp only [admits, isBigint, Bool.and_eq_true, decide_eq_true_eq] at ha
    have hu : uint64 c.recordId = c.recordId := uint64_natCast (by omega)
    obtain ⟨record, hr⟩ := h.exists_readRow (c.recordId : ℤ) (storedColumns row')
    have hrd : record.recordId = c.recordId := by
      simp only [readRow, recordOf, bind, Except.bind] at hr
      split at hr
      · cases hr
      · cases hr
        exact hu
    simp only [Option.map_some, commitColumns]
    rw [hl]
    dsimp only
    rw [hr]
    simp [Except.map, Except.toOption, hrd, ← hrc, hid]

theorem sameResult_filled (hs : Sound store.toConfig g)
    {p : Pending} {reason : Reason} (he : p.record.epoch < 2 ^ 64)
    (hw : p.result.winningCommit = none) (ha : accepted p.result.reason = accepted reason) :
    SameResult (resultOf (filled store groupId d g.currentEpoch p))
      (resultOf (Store.fillOne g { p with result := { p.result with reason := reason } })) := by
  have hwn := recordId_winningCommit h hs he
  rcases Bool.eq_false_or_eq_true (accepted p.result.reason) with hac | hac
  · rw [hac] at ha
    constructor <;>
      by_cases hz : p.result.currentEpoch = 0 <;>
      simp [filled, Store.fillOne, fillEpoch, resultOf, hac, ← ha, hz]
  · rw [hac] at ha
    cases hc : p.record.isCommit with
    | false =>
      constructor <;>
        by_cases hz : p.result.currentEpoch = 0 <;>
        simp [filled, Store.fillOne, fillEpoch, resultOf, hac, ← ha, hz, hc]
    | true =>
      constructor <;>
        by_cases hz : p.result.currentEpoch = 0 <;>
        cases hg : g.commits p.record.epoch <;>
        simp [filled, Store.fillOne, fillEpoch, resultOf, hac, ← ha, hz, hc, hw, hwn, hg]

theorem sameResults_marked (hs : Sound store.toConfig g) {i j : ℕ} {reason reason' : Reason}
    (he : ∀ p ∈ batch, p.record.epoch < 2 ^ 64) (hw : ∀ p ∈ batch, p.result.winningCommit = none)
    (hr : accepted reason = false) (hr' : accepted reason' = false) :
    List.Forall₂ SameResult
      (resultsOf ((markRefused batch i reason).map (filled store groupId d g.currentEpoch)))
      (resultsOf ((markRefused batch j reason').map (Store.fillOne g))) := by
  refine List.forall₂_iff_get.mpr ⟨by simp [resultsOf, markRefused], fun n h₁ h₂ => ?_⟩
  have hn : n < batch.length := by simpa [resultsOf, markRefused] using h₁
  have hm := List.getElem_mem hn
  simp only [resultsOf, markRefused, List.get_eq_getElem, List.getElem_map, List.getElem_mapIdx]
  split
  · exact sameResult_filled h hs (he _ hm) (hw _ hm) rfl
  · refine sameResult_filled h hs (he batch[n] hm) (hw batch[n] hm) ?_
    have hrj : ∀ (c : Prop) [Decidable c] (r : Reason), accepted r = false →
        accepted (if c then r else .rejected) = false := by
      intro c _ r ha
      split
      · exact ha
      · rfl
    rw [hrj _ _ hr, hrj _ _ hr']

theorem sameResults_filled (hs : Sound store.toConfig g) (he : ∀ p ∈ batch, p.record.epoch < 2 ^ 64)
    (hw : ∀ p ∈ batch, p.result.winningCommit = none) :
    List.Forall₂ SameResult (resultsOf (batch.map (filled store groupId d g.currentEpoch)))
      (resultsOf (batch.map (Store.fillOne g))) := by
  refine List.forall₂_iff_get.mpr ⟨by simp [resultsOf], fun n h₁ h₂ => ?_⟩
  have hn : n < batch.length := by simpa [resultsOf] using h₁
  have hm := List.getElem_mem hn
  simp only [resultsOf, List.get_eq_getElem, List.getElem_map]
  exact sameResult_filled h hs (he _ hm) (hw _ hm) rfl

end Answers

theorem winningCommit_markRefused {reason : Reason}
    (hw : ∀ p ∈ batch, p.result.winningCommit = none) :
    ∀ p ∈ markRefused batch i reason, p.result.winningCommit = none := by
  intro p hp
  obtain ⟨n, hn, rfl⟩ := List.mem_iff_getElem.mp hp
  have hlt : n < batch.length := by simpa [markRefused] using hn
  have hnn := hw _ (List.getElem_mem hlt)
  simp only [markRefused, List.getElem_mapIdx]
  split
  · exact hnn
  · exact hnn

theorem fill_beside (h : HoldsStore store.keys d s) (hs : s.Each (Sound store.toConfig))
    (he : ∀ p ∈ batch, p.record.epoch < 2 ^ 64) (hw : ∀ p ∈ batch, p.result.winningCommit = none) :
    (do
      let batch ← fill store groupId 0 batch
      .rollback (.ok (.submitted (resultsOf batch))) : Statements Empty).Meets schema d
      { answer := fun w => SameReply w
          (.submitted (resultsOf (fillCurrentEpoch (s.groups groupId) batch))) } := by
  have hun : (∀ g, s.groups groupId = some g → g.closed = true) →
      fillCurrentEpoch (s.groups groupId) batch = batch := by
    intro hg
    unfold fillCurrentEpoch
    split
    · rfl
    · rename_i g hsm
      rw [if_pos (hg g hsm)]
  by_cases hav : ∃ g, s.groups groupId = some g ∧ g.closed = false
  · obtain ⟨g, hg, ho⟩ := hav
    refine (fill_meets (h.groups _ g hg) ho (.inl rfl) batch).bind ?_ (fun _ _ => False.elim)
      (fun _ => False.elim) fun _ => False.elim
    rintro _ _ ⟨rfl, rfl⟩
    have hf : fillCurrentEpoch (s.groups groupId) batch = batch.map (Store.fillOne g) := by
      simp [fillCurrentEpoch, hg, ho]
    rw [hf]
    exact .submitted (sameResults_filled (h.groups _ g hg) (hs _ g hg) he hw)
  · have hcl : ∀ g, s.groups groupId = some g → g.closed = true := by
      intro g hg
      by_contra hc
      exact hav ⟨g, hg, by simpa using hc⟩
    refine (fill_of_unavailable (h.closed_of_unavailable hcl) batch).bind_value ?_
      fun _ => False.elim
    rintro _ _ ⟨rfl, rfl⟩
    rw [hun hcl]
    exact .refl _

theorem transact_beside (hl : Bounded store.limits) (h : HoldsStore store.keys d s)
    (hg : s.groups request.groupId = some g) (ho : g.closed = false) (hs : Sound store.toConfig g)
    (hc : Custody g) (ha : Alone (batch.map (·.record))) (hn : ∀ p ∈ batch, Narrow p.record)
    (hst : Settled batch) (hw : ∀ p ∈ batch, p.result.winningCommit = none)
    (hE : E → gateStored g request.epochKeys (fun _ => none) 0 (atEpoch g.currentEpoch batch) =
      none → Room store request.groupId draw g request.epochKeys (fresh batch)) :
    (transact store draw request.groupId request.epochKeys batch).Meets schema d
      (beside store.keys s (s.setGroup request.groupId
          (submitLocked store.toConfig draw.now g request.epochKeys batch).1,
        .ok (.submitted (resultsOf
          (submitLocked store.toConfig draw.now g request.epochKeys batch).2))) E) := by
  have hgr := h.groups _ g hg
  refine meets_beside h (inGroup_transact store draw _ _ _) ((transact_meets hl hgr ho hs hc ha hn
    hst hE).mono (fun _ a => a.elim) ?_ ?_ fun _ => .inr)
  · rintro d' w ⟨hr, hd, rfl⟩
    rw [submitLocked_of_passed _ _ ho hr]
    exact ⟨_, _, rfl, hd, .refl _⟩
  · rintro w ⟨i, reason, hr, rfl⟩
    cases hm : refusal g request.epochKeys batch with
    | none =>
      rw [refusal_eq_none.mp hm] at hr
      cases hr
    | some refused =>
      obtain ⟨j, reason'⟩ := refused
      rw [submitLocked_of_refusal _ _ ho hm, MemoryStore.setGroup_eq_self hg]
      refine ⟨_, rfl, ?_⟩
      have hf : refuseBatch g (atEpoch g.currentEpoch batch) j reason' =
          (markRefused (atEpoch g.currentEpoch batch) j reason').map (Store.fillOne g) := by
        simp [refuseBatch, fillCurrentEpoch, ho]
      rw [hf]
      refine .submitted (sameResults_marked hgr hs ?_ ?_ ?_ (accepted_gateAll hm))
      · intro p hp
        obtain ⟨q, hq, rfl⟩ := List.mem_map.mp hp
        exact (hn q hq).epoch
      · intro p hp
        obtain ⟨q, hq, rfl⟩ := List.mem_map.mp hp
        exact hw q hq
      · exact accepted_refusedAt hr

theorem transact_of_unavailable
    (h : ∀ row, (d.lookup (.group groupId) : Option MessageGroup) = some row → row.closed = true) :
    (transact store draw groupId keys batch).Meets schema d
      { answer := fun w => w = .submitted (resultsOf (refuseUnavailable batch)) } :=
  Prog.meets_lock_of_none (fun row hr => by simp [h row hr]) rfl

/-- A submission commits what the store in memory writes, or answers as it is answered there. -/
theorem submit_meets (hl : Bounded store.limits) (h : HoldsStore store.keys d s)
    (hs : s.Each (Sound store.toConfig)) (hc : s.Each Custody)
    (hn : validateSubmit request = .ok () → ∀ record ∈ request.records, Narrow record)
    (hE : E → ∀ g, validateSubmit request = .ok () → s.groups request.groupId = some g →
      gateStored g request.epochKeys (fun _ => none) 0
        (atEpoch g.currentEpoch (settle (probed store.toConfig s request))) = none →
      Room store request.groupId draw g request.epochKeys
        (fresh (settle (probed store.toConfig s request)))) :
    (submit store draw request).Meets schema d
      (beside store.keys s (call store.toConfig draw.now s (.submit request)) E) := by
  simp only [call]
  unfold submit Store.submit
  cases hv : validateSubmit request with
  | error e => exact .inl ⟨e, rfl, rfl⟩
  | ok _ =>
    replace hn := hn hv
    have hm : (settle (probed store.toConfig s request)).map (·.record) = request.records := by
      rw [map_record_settle, map_record_probed]
    have hrc : ∀ p ∈ settle (probed store.toConfig s request), Narrow p.record :=
      fun p hp => hn _ (hm ▸ List.mem_map_of_mem hp)
    have hrc' : ∀ p ∈ probed store.toConfig s request, Narrow p.record :=
      fun p hp => hn _ (map_record_probed store.toConfig s request ▸ List.mem_map_of_mem hp)
    have hw : ∀ p ∈ settle (probed store.toConfig s request), p.result.winningCommit = none := by
      intro p hp
      obtain ⟨q, hq, rfl⟩ := List.mem_map.mp hp
      exact (winningCommit_probed hq :)
    rw [Prog.meets_select, probed_eq h fun record hr => (hn record hr).streamIndex]
    unfold submitProbed submitBatch
    rcases submitProbe_cases store.toConfig s request with
      ⟨o, ho, hp⟩ | ⟨hd, ⟨ha, hp⟩ | ⟨ha, ⟨hg, hp⟩ | ⟨⟨g, hg⟩, hp⟩⟩⟩ <;> rw [hp]
    · rw [ho]
      refine (fill_beside h hs (fun p hp => ?_) (winningCommit_markRefused fun p hp =>
        winningCommit_probed hp)).mono (fun _ _ => False.elim) (fun _ _ => False.elim)
        (fun w hw' => ⟨_, rfl, hw'⟩) fun _ => False.elim
      have hr : p.record ∈ request.records := by
        rw [← map_record_probed store.toConfig s request, ← map_record_markRefused _ o
          .streamIndexReused]
        exact List.mem_map_of_mem hp
      exact (hn _ hr).epoch
    · rw [hd]
      rw [if_pos ha]
      exact (fill_beside h hs (fun p hp => (hrc p hp).epoch) hw).mono (fun _ _ => False.elim)
        (fun _ _ => False.elim) (fun w hw' => ⟨_, rfl, hw'⟩) fun _ => False.elim
    · rw [hd, hg]
      rw [if_neg (by simp [ha])]
      refine (transact_of_unavailable (h.closed_of_unavailable fun g hg' => ?_)).mono
        (fun _ _ => False.elim) (fun _ _ => False.elim) ?_ fun _ => False.elim
      · rw [hg] at hg'
        cases hg'
      · rintro w rfl
        exact ⟨_, rfl, .refl _⟩
    · rw [hd, hg]
      dsimp only
      rw [if_neg (by simp [ha])]
      rcases Bool.eq_false_or_eq_true g.closed with hcl | hcl
      · rw [submitLocked_of_closed _ _ hcl, MemoryStore.setGroup_eq_self hg]
        refine (transact_of_unavailable (h.closed_of_unavailable fun g' hg' => ?_)).mono
          (fun _ _ => False.elim) (fun _ _ => False.elim) ?_ fun _ => False.elim
        · rw [hg, Option.some.injEq] at hg'
          rwa [← hg']
        · rintro w rfl
          exact ⟨_, rfl, .refl _⟩
      · refine transact_beside hl h hg hcl (hs _ g hg) (hc _ g hg) ?_ hrc (settled_settle _) hw
          fun hE' => hE hE' g hv hg
        rw [hm]
        exact alone_of_validateSubmit hv

/-- The numbers of a call have widths at which their columns are faithful. -/
def NarrowCall : Request → Prop
  | .createGroup request => ∀ initial, request.initialCommit = some initial →
      validateRecord initial = .ok () → Narrow initial
  | .closeGroup _ => True
  | .submit request => validateSubmit request = .ok () → ∀ record ∈ request.records, Narrow record

/-- The rows that a call would write to the groups of a store fit their columns. -/
def CallFits (store : PgxStore) (draw : Draw) (s : MemoryStore) : Request → Prop
  | .createGroup request => ∀ initial opening, request.initialCommit = some initial →
      validateRecord initial = .ok () → initial.epoch = 0 →
      wellFormedEpochAttachment initial 1 request.epochKeys = true →
      openingOf initial request.epochKeys = some opening →
      FoundingFits store draw request.groupId (stamp initial firstRecordId) opening
  | .closeGroup _ => isTimestamp (timestamp draw.now) = true
  | .submit request => ∀ g, validateSubmit request = .ok () → s.groups request.groupId = some g →
      gateStored g request.epochKeys (fun _ => none) 0
        (atEpoch g.currentEpoch (settle (probed store.toConfig s request))) = none →
      Room store request.groupId draw g request.epochKeys
        (fresh (settle (probed store.toConfig s request)))

theorem call_meets (hl : Bounded store.limits) (h : HoldsStore store.keys d s)
    (hs : s.Each (Sound store.toConfig)) (hc : s.Each Custody) {request : Request}
    (hn : NarrowCall request) (hE : E → CallFits store draw s request) :
    (statements store draw request).Meets schema d
      (beside store.keys s (call store.toConfig draw.now s request) E) := by
  cases request with
  | createGroup request => exact createGroup_meets hl h hn hE
  | closeGroup groupId => exact closeGroup_meets h hE
  | submit request => exact submit_meets hl h hs hc hn hE

end MessageServer.Pgx
