import Mathlib.Data.List.Nodup
import MessageServer.Store.Log

/-! # Which call stored which record

A step appends to the log of a group exactly the records its call has been told
were accepted and that step (0) did not match; the log is what the calls have
stored, each record by one call.
-/

namespace MessageServer.Store

open Interleaving EpochLog MemoryStore

/-- The records of an answered batch that its transaction wrote. -/
def appended (batch : List Pending) : List Record :=
  (batch.filter fun p => decide (p.probe ≠ .identical) && accepted p.result.reason).map
    fun p => stamp p.record p.result.recordId

section Batch

variable {batch : List Pending}

def OnlyMatched (batch : List Pending) : Prop :=
  ∀ p ∈ batch, p.probe = .identical ∨ accepted p.result.reason = false

theorem OnlyMatched.appended (h : OnlyMatched batch) : appended batch = [] := by
  rw [Store.appended, List.filter_eq_nil_iff.mpr, List.map_nil]
  intro p hp
  rcases h p hp with h | h <;> simp [h]

theorem appended_map {f : Pending → Pending} (h : ∀ p, (f p).record = p.record ∧
    (f p).probe = p.probe ∧ (f p).result.reason = p.result.reason ∧
    (f p).result.recordId = p.result.recordId) : appended (batch.map f) = appended batch := by
  induction batch with
  | nil => rfl
  | cons p batch ih =>
    obtain ⟨hr, hp, ha, hi⟩ := h p
    simp only [appended, List.map_cons, List.filter_cons, hp, ha] at ih ⊢
    split
    · simp only [List.map_cons, hr, hi, ih]
    · exact ih

theorem onlyMatched_refuseUnavailable (batch : List Pending) :
    OnlyMatched (refuseUnavailable batch) := by
  intro p hp
  obtain ⟨q, -, rfl⟩ := List.mem_map.mp hp
  by_cases hq : q.probe = .identical
  · simp [hq]
  · exact .inr (by simp [hq, accepted])

variable {reason : Reason}

theorem onlyMatched_markRefused (batch : List Pending) (offender : ℕ)
    (h : accepted reason = false) :
    OnlyMatched (markRefused batch offender reason) := by
  intro p hp
  obtain ⟨i, hi, rfl⟩ := List.mem_mapIdx.mp hp
  by_cases hq : batch[i].probe = .identical
  · simp [hq]
  · refine .inr ?_
    simp only [hq, if_false]
    split
    · exact h
    · rfl

theorem OnlyMatched.fillCurrentEpoch (h : OnlyMatched batch) (group : Option MemoryGroup) :
    OnlyMatched (fillCurrentEpoch group batch) := by
  unfold Store.fillCurrentEpoch
  split
  · exact h
  · split
    · exact h
    · intro p hp
      obtain ⟨q, hq, rfl⟩ := List.mem_map.mp hp
      exact h q hq

theorem appended_fillCurrentEpoch (group : Option MemoryGroup) (batch : List Pending) :
    appended (fillCurrentEpoch group batch) = appended batch := by
  unfold fillCurrentEpoch
  split
  · rfl
  · split
    · rfl
    · exact appended_map fun p => ⟨rfl, rfl, rfl, rfl⟩

theorem accepted_ite {c : Prop} [Decidable c] {refusal rest : Reason}
    (hr : accepted refusal = false) (h : rest ≠ .ok → accepted rest = false) :
    (if c then refusal else rest) ≠ .ok → accepted (if c then refusal else rest) = false := by
  split
  · exact fun _ => hr
  · exact h

variable {highWater : Bytes → Option ℕ} {pinned : Bytes → Option Bytes}
  {keys : Option EpochKeyDelivery} {state : GroupState} {g : MemoryGroup}

theorem accepted_gate {record : Record} : gate g state record keys highWater pinned ≠ .ok →
      accepted (gate g state record keys highWater pinned) = false :=
  accepted_ite rfl (accepted_ite rfl (accepted_ite rfl (accepted_ite rfl (accepted_ite rfl
    (accepted_ite rfl (accepted_ite rfl fun h => absurd rfl h))))))

theorem accepted_gateAll {index offender : ℕ}
    (h : gateAll g state keys highWater pinned index batch = some (offender, reason)) :
    accepted reason = false := by
  induction batch generalizing highWater pinned index with
  | nil => cases h
  | cons p batch ih =>
    unfold gateAll at h
    split at h
    · exact ih h
    · dsimp only at h
      split at h
      · rename_i hg
        cases h
        exact accepted_gate hg
      · exact ih h

/-- The batch is settled exactly where step (0) matched it. -/
def Settled (batch : List Pending) : Prop := ∀ p ∈ batch, p.settled = decide (p.probe = .identical)

theorem settled_settle (batch : List Pending) : Settled (settle batch) := by
  intro p hp
  obtain ⟨q, -, rfl⟩ := List.mem_map.mp hp
  rfl

variable (cfg : Config)

theorem accepted_acceptance (e : ℕ) (keys : Option EpochKeyDelivery) (record : Record)
    (result : SubmitResult) :
    accepted (acceptance cfg e keys record result).reason = true := by
  unfold acceptance
  split <;> simp

theorem acceptance_recordId (e : ℕ) (keys : Option EpochKeyDelivery) (record : Record)
    (result : SubmitResult) :
    (acceptance cfg e keys record result).recordId = record.recordId := by
  unfold acceptance
  split <;> rfl

theorem appended_writeAll (now : Time) (e : ℕ) (keys : Option EpochKeyDelivery) (g : MemoryGroup)
    (id : ℕ) (hs : Settled batch) :
    appended (writeAll cfg now e keys g id batch).2 = stampFrom id (fresh batch) := by
  induction batch generalizing g id with
  | nil => rfl
  | cons p batch ih =>
    obtain ⟨hp, hb⟩ := List.forall_mem_cons.mp hs
    cases hst : p.settled with
    | true =>
      rw [hst] at hp
      rw [fresh_cons_of_settled hst, ← ih g id hb]
      simp [writeAll, hst, appended, of_decide_eq_true hp.symm]
    | false =>
      rw [hst] at hp
      rw [fresh_cons_of_unsettled hst, stampFrom,
        ← ih (g.write cfg now e keys (stamp p.record id)) (id + 1) hb]
      simp [writeAll, hst, appended, of_decide_eq_false hp.symm, accepted_acceptance,
        acceptance_recordId, stamp]

end Batch

section Locked

variable {cfg : Config} {now : Time} {g : MemoryGroup} {keys : Option EpochKeyDelivery}
  {batch : List Pending}

theorem settled_atEpoch (e : ℕ) (hs : Settled batch) : Settled (atEpoch e batch) := by
  intro p hp
  obtain ⟨q, hq, rfl⟩ := List.mem_map.mp hp
  exact hs q hq

theorem submitLocked_outcome (cfg : Config) (now : Time) (g : MemoryGroup)
    (keys : Option EpochKeyDelivery) (batch : List Pending) :
    ((submitLocked cfg now g keys batch).1 = g ∧
      OnlyMatched (submitLocked cfg now g keys batch).2) ∨
    (g.closed = false ∧ refusal g keys batch = none) := by
  rcases Bool.eq_false_or_eq_true g.closed with hc | hc
  · rw [submitLocked_of_closed cfg now hc]
    exact .inl ⟨rfl, onlyMatched_refuseUnavailable batch⟩
  · cases hr : refusal g keys batch with
    | some refused =>
      rw [submitLocked_of_refusal cfg now hc hr]
      exact .inl ⟨rfl, (onlyMatched_markRefused _ refused.1 (accepted_gateAll hr)).fillCurrentEpoch
        (some g)⟩
    | none => exact .inr ⟨hc, rfl⟩

theorem appended_of_passed (cfg : Config) (now : Time) (hs : Settled batch) (hc : g.closed = false)
    (hr : refusal g keys batch = none) :
    appended (submitLocked cfg now g keys batch).2 = stampFrom g.nextRecordId (fresh batch) := by
  rw [submitLocked_of_passed cfg now hc hr, appended_map]
  · rw [written, appended_writeAll _ _ _ _ _ _ (settled_atEpoch _ hs), fresh_atEpoch]
  · intro p
    unfold fillEpoch
    split <;> exact ⟨rfl, rfl, rfl, rfl⟩

theorem submitLocked_log (cfg : Config) (now : Time) (g : MemoryGroup)
    (keys : Option EpochKeyDelivery) (ha : Alone (batch.map (·.record))) (hs : Settled batch) :
    (submitLocked cfg now g keys batch).1.records.map (·.record) =
      g.records.map (·.record) ++ appended (submitLocked cfg now g keys batch).2 := by
  rcases submitLocked_outcome cfg now g keys batch with ⟨hg, hm⟩ | ⟨hc, hr⟩
  · rw [hg, hm.appended, List.append_nil]
  · rw [appended_of_passed cfg now hs hc hr, submitLocked_of_passed cfg now hc hr,
      (written_appends cfg now ha hr).log]
    rfl

end Locked

namespace Call

def request : Call → Request
  | .start request => request
  | .created request _ => .createGroup request
  | .closed groupId _ => .closeGroup groupId
  | .failed request _ | .answering request _ | .waiting request _ | .submitted request _ =>
    .submit request

def groupId : Call → Bytes
  | .start (.createGroup request) | .created request _ => request.groupId
  | .start (.closeGroup groupId) | .closed groupId _ => groupId
  | .start (.submit request) | .failed request _ | .answering request _ | .waiting request _
  | .submitted request _ => request.groupId

def epochKeys : Call → Option EpochKeyDelivery
  | .start (.createGroup request) | .created request _ => request.epochKeys
  | .start (.closeGroup _) | .closed _ _ => none
  | .start (.submit request) | .failed request _ | .answering request _ | .waiting request _
  | .submitted request _ => request.epochKeys

/-- The records a call has stored, in their order in the log. -/
def stored : Call → List Record
  | .created request (.ok result) =>
    if accepted result.reason then request.initialCommit.toList.map (stamp · result.recordId)
    else []
  | .submitted _ batch => appended batch
  | _ => []

end Call

theorem Call.mem_stored {c : Call} {r : Record} (h : r ∈ c.stored) :
    (∃ request batch q, c = .submitted request batch ∧ q ∈ batch ∧
      r = stamp q.record q.result.recordId) ∨
    ∃ request result initial id, c = .created request result ∧
      request.initialCommit = some initial ∧ r = stamp initial id := by
  cases c with
  | created request result =>
    cases result with
    | error e => cases h
    | ok result =>
      simp only [Call.stored] at h
      split at h
      · obtain ⟨initial, hi, rfl⟩ := List.mem_map.mp h
        exact .inr ⟨request, _, initial, _, rfl, Option.mem_toList.mp hi, rfl⟩
      · cases h
  | submitted request batch =>
    obtain ⟨q, hq, rfl⟩ := List.mem_map.mp h
    exact .inl ⟨request, batch, q, rfl, (List.mem_filter.mp hq).1, rfl⟩
  | start | closed | failed | answering | waiting => cases h

/-- The records of a group, in the order of their ids. -/
def MemoryStore.log (s : MemoryStore) (groupId : Bytes) : List Record :=
  match s.groups groupId with
  | none => []
  | some g => g.records.map (·.record)

variable {cfg : Config} {s : MemoryStore} {groupId : Bytes} {g : MemoryGroup}

theorem MemoryStore.log_of_group (h : s.groups groupId = some g) :
    s.log groupId = g.records.map (·.record) := by
  simp [log, h]

theorem StoreGrows.mem_log {s' : MemoryStore} (hgr : StoreGrows s s')
    {x : Record} (hx : x ∈ s.log groupId) : x ∈ s'.log groupId := by
  cases hg : s.groups groupId with
  | none => simp [log, hg] at hx
  | some g =>
    obtain ⟨g', hg', hgg⟩ := hgr groupId g hg
    rw [log_of_group hg] at hx
    rw [log_of_group hg']
    exact (hgg.records.map _).subset hx

theorem MemoryStore.log_setGroup (s : MemoryStore) (groupId : Bytes) (g : MemoryGroup)
    (new : List Record) (h : g.records.map (·.record) = s.log groupId ++ new) (other : Bytes) :
    (s.setGroup groupId g).log other = s.log other ++ if other = groupId then new else [] := by
  by_cases ho : other = groupId
  · subst ho
    rw [log_of_group setGroup_self, if_pos rfl, h]
  · rw [if_neg ho, List.append_nil, log, setGroup_of_ne ho, log]

section Step

variable {now : Time} (c : Call)

theorem appended_answering {request : SubmitRequest} {batch : List Pending}
    (h : submitProbe cfg s request = .answering batch) : appended batch = [] := by
  rcases submitProbe_answering h with ⟨o, -, rfl⟩ | ⟨rfl, ha⟩
  · exact (onlyMatched_markRefused _ o rfl).appended
  · refine OnlyMatched.appended fun p hp => .inl ?_
    obtain ⟨q, hq, rfl⟩ := List.mem_map.mp hp
    exact ha q hq

/-- A creation changes nothing, or founds its group with its commit. -/
theorem createGroup_cases (cfg : Config) (now : Time) (s : MemoryStore)
    (request : CreateGroupRequest) :
    ((createGroup cfg now s request).1 = s ∧
      (Call.created request (createGroup cfg now s request).2).stored = []) ∨
    ∃ initial opening, initial.epoch = 0 ∧ openingOf initial request.epochKeys = some opening ∧
      s.groups request.groupId = none ∧
      (createGroup cfg now s request).1 =
        s.setGroup request.groupId (foundGroup cfg now request initial opening) ∧
      (Call.created request (createGroup cfg now s request).2).stored =
        [stamp initial firstRecordId] := by
  unfold createGroup
  split
  · exact .inl ⟨rfl, rfl⟩
  · rename_i initial hv
    split
    · exact .inl ⟨rfl, rfl⟩
    · rename_i hs
      simp only [not_or, not_not] at hs
      split
      · rename_i opening ho hg
        refine .inr ⟨initial, opening, hs.2.1, ho, hg, rfl, ?_⟩
        simp [Call.stored, (validateCreate_eq_ok.mp hv).2.2.1]
      · exact .inl ⟨rfl, rfl⟩

theorem createGroup_log (request : CreateGroupRequest) (groupId : Bytes) :
    (createGroup cfg now s request).1.log groupId = s.log groupId ++
      if groupId = request.groupId then
        (Call.created request (createGroup cfg now s request).2).stored else [] := by
  rcases createGroup_cases cfg now s request with ⟨hs, hst⟩ | ⟨initial, _, -, -, hg, hs, hst⟩
  · rw [hs, hst, ite_self, List.append_nil]
  · rw [hs, hst]
    refine log_setGroup _ _ _ _ ?_ _
    simp [log, hg, foundGroup]

theorem closeGroup_log (groupId other : Bytes) :
    (closeGroup now s groupId).1.log other = s.log other := by
  unfold closeGroup
  split
  · rfl
  · split
    · rfl
    · rename_i g hg
      split
      · rfl
      · rw [log_setGroup s groupId _ []]
        · simp
        · simp [log_of_group hg]

theorem Call.request_step : (c.step cfg now s).2.request = c.request := by
  unfold Call.step
  split
  · rfl
  · rfl
  · split
    · rfl
    · split <;> rfl
  · rfl
  · split <;> rfl
  · rfl

theorem Call.groupId_request : c.groupId = (Call.start c.request).groupId := by
  cases c <;> rfl

theorem Call.epochKeys_request : c.epochKeys = (Call.start c.request).epochKeys := by
  cases c <;> rfl

theorem Call.groupId_step : (c.step cfg now s).2.groupId = c.groupId := by
  rw [Call.groupId_request, Call.request_step, ← Call.groupId_request]

theorem Call.step_log (cfg : Config) (now : Time) (s : MemoryStore) {R : MemoryStore → Prop}
    {c : Call} (h : c.ReadFrom cfg R) :
    c.step cfg now s = (s, c) ∨ c.stored = [] ∧ ∀ groupId, (c.step cfg now s).1.log groupId =
      s.log groupId ++ if groupId = c.groupId then (c.step cfg now s).2.stored else [] := by
  cases c with
  | start request =>
    refine .inr ⟨rfl, fun groupId => ?_⟩
    cases request with
    | createGroup request => exact createGroup_log request groupId
    | closeGroup other =>
      unfold Call.step
      simp [closeGroup_log, Call.stored]
    | submit request =>
      unfold Call.step
      dsimp only
      split
      · simp [Call.stored]
      · split <;> simp [Call.stored, (onlyMatched_refuseUnavailable _).appended]
  | answering request batch =>
    refine .inr ⟨rfl, fun groupId => ?_⟩
    obtain ⟨-, s₀, -, hp⟩ := h
    simp [Call.step, Call.stored, appended_fillCurrentEpoch, appended_answering hp]
  | waiting request batch =>
    obtain ⟨hv, s₀, -, hp⟩ := h
    obtain ⟨rfl, -, -⟩ := submitProbe_waiting hp
    cases hg : s.groups request.groupId with
    | none => exact .inl (by simp [Call.step, hg])
    | some g =>
      refine .inr ⟨rfl, fun groupId => ?_⟩
      simp only [Call.step, hg]
      refine log_setGroup _ _ _ _ ?_ _
      rw [log_of_group hg]
      refine submitLocked_log cfg now g _ ?_ (settled_settle _)
      rw [map_record_settle, map_record_probed]
      exact alone_of_validateSubmit hv
  | created | closed | failed | submitted => exact .inl rfl

end Step

theorem Represents.nodup {L : Ledger} (h : Represents cfg g L) :
    (g.records.map (·.record)).Nodup := by
  rw [h.log]
  refine List.Nodup.of_map Record.recordId ?_
  have hi : L.log.map Record.recordId = List.range' 1 L.log.length := L.ordered.ids
  rw [hi]
  exact List.nodup_range' ..

theorem nodup_log (hs : s.Each (Sound cfg)) (groupId : Bytes) : (s.log groupId).Nodup := by
  cases hg : s.groups groupId with
  | none => simp [log, hg]
  | some g =>
    obtain ⟨L, hL, -⟩ := hs groupId g hg
    rw [log_of_group hg]
    exact hL.nodup

theorem exists_ledger (hs : s.Each (Sound cfg))
    {r : Record} (hr : r ∈ s.log groupId) : ∃ g L, s.groups groupId = some g ∧
      Represents cfg g L ∧ s.log groupId = L.log ∧ r ∈ L.log := by
  cases hg : s.groups groupId with
  | none => simp [log, hg] at hr
  | some g =>
    obtain ⟨L, hL, -⟩ := hs groupId g hg
    have hl : s.log groupId = L.log := by rw [log_of_group hg, hL.log]
    exact ⟨g, L, rfl, hL, hl, hl ▸ hr⟩

section World

variable {ι : Type*} [DecidableEq ι]

/-- The calls of a world account for its logs, beyond what the store held at the start. -/
structure History (cfg : Config) (s : MemoryStore) (w : World MemoryStore Call ι) : Prop where
  sound : w.shared.Each (Sound cfg)
  read : ∀ i, (w.calls i).ReadFrom cfg (StoreGrows · w.shared)
  log : ∀ groupId r, r ∈ w.shared.log groupId ↔
    r ∈ s.log groupId ∨ ∃ i, (w.calls i).groupId = groupId ∧ r ∈ (w.calls i).stored
  fresh : ∀ i, ∀ r ∈ (w.calls i).stored, r ∉ s.log (w.calls i).groupId
  unique : ∀ i j r, (w.calls i).groupId = (w.calls j).groupId → r ∈ (w.calls i).stored →
    r ∈ (w.calls j).stored → i = j

omit [DecidableEq ι] in
theorem History.start (hs : s.Each (Sound cfg)) (requests : ι → Request) :
    History cfg s (initial s requests) where
  sound := hs
  read _ := trivial
  log groupId r := by simp [initial, Call.stored]
  fresh i := by simp [initial, Call.stored]
  unique i := by simp [initial, Call.stored]

theorem History.turn {w : World MemoryStore Call ι} (h : History cfg s w) (m : ι × Time) :
    History cfg s ((machine cfg).turn w m) := by
  obtain ⟨hs, hrd⟩ := (soundness cfg).turn m ⟨h.sound, h.read⟩
  obtain ⟨i, now⟩ := m
  rcases Call.step_log cfg now w.shared (h.read i) with hst | ⟨hn, hl⟩
  · rwa [Machine.turn_of_stutter hst]
  have hi : ((machine cfg).turn w (i, now)).calls i = ((w.calls i).step cfg now w.shared).2 :=
    Machine.turn_calls_self ..
  have hne : ∀ j, j ≠ i → ((machine cfg).turn w (i, now)).calls j = w.calls j :=
    fun j hj => Machine.turn_calls_of_ne hj
  have hid : ∀ j, (((machine cfg).turn w (i, now)).calls j).groupId = (w.calls j).groupId := by
    intro j
    by_cases hj : j = i
    · rw [hj, hi, Call.groupId_step]
    · rw [hne j hj]
  replace hl : ∀ groupId, ((machine cfg).turn w (i, now)).shared.log groupId =
      w.shared.log groupId ++ if groupId = (w.calls i).groupId then
        (((machine cfg).turn w (i, now)).calls i).stored else [] := by
    intro groupId
    rw [hi]
    exact hl groupId
  have hds : ∀ r ∈ (((machine cfg).turn w (i, now)).calls i).stored,
      r ∉ w.shared.log (w.calls i).groupId := by
    have hd := nodup_log hs (w.calls i).groupId
    rw [hl, if_pos rfl] at hd
    exact fun r hr ho => List.disjoint_of_nodup_append hd ho hr
  refine ⟨hs, hrd, fun groupId r => ?_, fun j r hr => ?_, fun j k r hjk hj hk => ?_⟩
  · rw [hl, List.mem_append, h.log, or_assoc]
    refine or_congr_right ⟨?_, ?_⟩
    · rintro (⟨j, hj, hr⟩ | hr)
      · have hji : j ≠ i := by
          rintro rfl
          simp [hn] at hr
        exact ⟨j, (hid j).trans hj, by rwa [hne j hji]⟩
      · split at hr
        · rename_i hg
          exact ⟨i, (hid i).trans hg.symm, hr⟩
        · cases hr
    · rintro ⟨j, hj, hr⟩
      by_cases hji : j = i
      · subst hji
        exact .inr (by rwa [if_pos (hj.symm.trans (hid j))])
      · rw [hne j hji] at hj hr
        exact .inl ⟨j, hj, hr⟩
  · by_cases hji : j = i
    · subst hji
      rw [hid]
      exact fun ho => hds r hr ((h.log _ r).mpr (.inl ho))
    · rw [hne j hji] at hr ⊢
      exact h.fresh j r hr
  · rw [hid, hid] at hjk
    by_cases hji : j = i <;> by_cases hki : k = i
    · rw [hji, hki]
    · subst hji
      rw [hne k hki] at hk
      exact absurd ((h.log _ r).mpr (.inr ⟨k, hjk.symm, hk⟩)) (hds r hj)
    · subst hki
      rw [hne j hji] at hj
      exact absurd ((h.log _ r).mpr (.inr ⟨j, hjk, hj⟩)) (hds r hk)
    · rw [hne j hji] at hj
      rw [hne k hki] at hk
      exact h.unique j k r hjk hj hk

theorem history (hs : s.Each (Sound cfg)) (requests : ι → Request) (sched : List (ι × Time)) :
    History cfg s (runFrom cfg s requests sched) :=
  Machine.exec_induction (.start hs requests) (fun _ m h => h.turn m) sched

theorem mem_log_iff (cfg : Config) (requests : ι → Request) (sched : List (ι × Time))
    (groupId : Bytes) (r : Record) : r ∈ (run cfg requests sched).shared.log groupId ↔
      ∃ i, ((run cfg requests sched).calls i).groupId = groupId ∧
        r ∈ ((run cfg requests sched).calls i).stored :=
  ((history each_sound_empty requests sched).log groupId r).trans (or_iff_right List.not_mem_nil)

end World

end MessageServer.Store
