import MessageServer.Store.Retry

/-! # Copies of one submission

Any number of copies of one submission of a single record run at once. A copy
that reads the claims before another lands and takes the row lock after it is
refused. While no copy takes the lock once the place of the record is claimed,
every copy is accepted.
-/

namespace MessageServer.Store

open Interleaving Machine

section Copies

variable {cfg : Config} {now : Time} {s : MemoryStore} {g : MemoryGroup} {request : SubmitRequest}
  {record : Record}

theorem submitProbe_single (cfg : Config) (hg : s.groups request.groupId = some g)
    (hr : request.records = [record]) :
    (g.claims (claimKeyOf record) = none ∧
      submitProbe cfg s request = .waiting [{ record := record }]) ∨
    (g.claims (claimKeyOf record) ≠ none ∧
      ∃ batch, submitProbe cfg s request = .answering batch ∧ appended batch = []) := by
  cases hc : g.claims (claimKeyOf record) with
  | none =>
    refine .inl ⟨rfl, ?_⟩
    simp [submitProbe, probed, probe, hg, hr, probeOne, hc, settle]
  | some claim =>
    refine .inr ⟨by simp, ?_⟩
    have hp : ∃ batch, submitProbe cfg s request = .answering batch := by
      by_cases hm : claim.bodyHash = record.bodyHash ∧ claim.headHash = headHash cfg record.ctHead
      · simp [submitProbe, probed, probe, hg, hr, probeOne, hc, settle, hm.1, hm.2]
      · simp [submitProbe, probed, probe, hg, hr, probeOne, hc, hm]
    obtain ⟨batch, hb⟩ := hp
    exact ⟨batch, hb, appended_answering hb⟩

inductive Waiting (g : MemoryGroup) (request : SubmitRequest) (record : Record) : Call → Prop
  | start : Waiting g request record (.start (.submit request))
  | waiting (unclaimed : g.claims (claimKeyOf record) = none) :
      Waiting g request record (.waiting request [{ record := record }])
  | answering {batch : List Pending} (claimed : g.claims (claimKeyOf record) ≠ none)
      (none : appended batch = []) : Waiting g request record (.answering request batch)
  | submitted {batch : List Pending} (refused : g.claims (claimKeyOf record) ≠ none ∨
      refusal g request.epochKeys [{ record := record }] ≠ none) (none : appended batch = []) :
      Waiting g request record (.submitted request batch)

inductive Landed (request : SubmitRequest) (record : Record) (id : ℕ) : Call → Prop
  | start : Landed request record id (.start (.submit request))
  | waiting : Landed request record id (.waiting request [{ record := record }])
  | answering {p : Pending} (accepted : p.result.reason = .ok) (same : p.result.recordId = id)
      (matched : p.probe = .identical) : Landed request record id (.answering request [p])
  | submitted {p : Pending} (accepted : p.result.reason = .ok) (same : p.result.recordId = id)
      (matched : p.probe = .identical) : Landed request record id (.submitted request [p])
  | stored {batch : List Pending} (stored : appended batch = [stamp record id]) :
      Landed request record id (.submitted request batch)

variable {c : Call}

theorem Waiting.stored (h : Waiting g request record c) : c.stored = [] := by
  cases h with
  | start | waiting | answering => rfl
  | submitted _ hb => exact hb

variable {id : ℕ}

theorem Waiting.landed (h : Waiting g request record c) (hc : g.claims (claimKeyOf record) = none)
    (hf : refusal g request.epochKeys [{ record := record }] = none) :
    Landed request record id c := by
  cases h with
  | start => exact .start
  | waiting => exact .waiting
  | answering hc' => exact absurd hc hc'
  | submitted hf' => exact absurd hf (hf'.resolve_left (not_not.mpr hc))

theorem Landed.groupId (h : Landed request record id c) : c.groupId = request.groupId := by
  cases h <;> rfl

theorem Landed.eq_of_stored (h : Landed request record id c) {r : Record}
    (hr : r ∈ c.stored) : r = stamp record id := by
  cases h with
  | start | waiting | answering => cases hr
  | submitted _ _ hi => simp [Call.stored, appended, hi] at hr
  | stored hb =>
    simp only [Call.stored, hb] at hr
    exact List.mem_singleton.mp hr

theorem Landed.answer (h : Landed request record id c)
    {answer : Except Error (List SubmitResult)} (ha : c.answer = some answer) :
    (∃ result, answer = .ok [result] ∧ result.reason = .ok ∧ result.recordId = id) ∨
      stamp record id ∈ c.stored := by
  cases h with
  | start | waiting | answering => cases ha
  | @submitted p hp hid hi =>
    cases ha
    refine .inl ⟨resultOf p, rfl, by simp [hp], ?_⟩
    rw [resultOf_of_accepted (by simp [hp, accepted]), hid]
  | stored hb => exact .inr (by simp [Call.stored, hb])

/-- A step of a copy while none has landed: it leaves the store alone, or it lands. -/
theorem Waiting.step (hs : s.Each (Sound cfg)) (hg : s.groups request.groupId = some g)
    (ho : g.closed = false) (hr : request.records = [record])
    (hv : validateSubmit request = .ok ()) (h : Waiting g request record c) (now : Time) :
    ((c.step cfg now s).1 = s ∧ Waiting g request record (c.step cfg now s).2) ∨
    (g.claims (claimKeyOf record) = none ∧
      refusal g request.epochKeys [{ record := record }] = none ∧
      ∃ g', (c.step cfg now s).1.groups request.groupId = some g' ∧
        matchedId cfg g' record = some g.nextRecordId ∧
        Landed request record g.nextRecordId (c.step cfg now s).2) := by
  cases h with
  | start =>
    left
    rcases submitProbe_single cfg hg hr with ⟨hc, hp⟩ | ⟨hc, batch, hp, hb⟩
    · simp only [Call.step, hv, hp]
      exact ⟨trivial, .waiting hc⟩
    · simp only [Call.step, hv, hp]
      exact ⟨trivial, .answering hc hb⟩
  | answering hc hb =>
    exact .inl ⟨rfl, .submitted (.inl hc) (by rw [appended_fillCurrentEpoch, hb])⟩
  | submitted hf hb => exact .inl ⟨rfl, .submitted hf hb⟩
  | waiting hc =>
    have hse : Settled [({ record := record } : Pending)] := by simp [Settled]
    have hal : Alone ([({ record := record } : Pending)].map (·.record)) := by simp [Alone]
    have hst : Call.step cfg now s (.waiting request [{ record := record }]) =
        (s.setGroup request.groupId
          (submitLocked cfg now g request.epochKeys [{ record := record }]).1,
        .submitted request
          (submitLocked cfg now g request.epochKeys [{ record := record }]).2) := by
      simp [Call.step, hg]
    rw [hst]
    cases hf : refusal g request.epochKeys [{ record := record }] with
    | some refused =>
      rw [submitLocked_of_refusal cfg now ho hf, MemoryStore.setGroup_eq_self hg]
      refine .inl ⟨rfl, .submitted (.inr (by simp [hf])) ?_⟩
      exact ((onlyMatched_markRefused _ refused.1 (accepted_gateAll hf)).fillCurrentEpoch
        (some g)).appended
    | none =>
      have ha := appended_of_passed cfg now hse ho hf
      refine .inr ⟨hc, rfl, _, MemoryStore.setGroup_self, ?_, .stored ha⟩
      have hl := (validateSubmit_eq_ok.mp hv).1
      obtain ⟨L, hL, -⟩ := (submitLocked_step cfg now hl hg hal request.epochKeys).each
        (fun _ _ step => step.sound) hs _ _ MemoryStore.setGroup_self
      refine hL.matchedId ?_
      rw [← hL.log, submitLocked_log cfg now g request.epochKeys hal hse, ha]
      exact List.mem_append_right _ (List.mem_singleton_self _)

/-- A step of a copy once the record has landed changes nothing, short of a row lock. -/
theorem Landed.step (hg : s.groups request.groupId = some g)
    (hm : matchedId cfg g record = some id) (hr : request.records = [record])
    (hv : validateSubmit request = .ok ()) (h : Landed request record id c)
    (hl : ∀ batch, c ≠ .waiting request batch) (now : Time) :
    (c.step cfg now s).1 = s ∧ Landed request record id (c.step cfg now s).2 := by
  cases h with
  | start =>
    have hs : ∀ r ∈ request.records, (matchedId cfg g r).isSome = true := by simp [hr, hm]
    have hp := submitProbe_of_matched hg hs
    rw [startBatch_of_matched hs, hr, List.map_singleton, hm] at hp
    simp only [Call.step, hv, hp]
    exact ⟨trivial, .answering rfl rfl rfl⟩
  | waiting => exact absurd rfl (hl _)
  | answering ha hid hi =>
    refine ⟨rfl, ?_⟩
    simp only [Call.step, hg, fillCurrentEpoch]
    split
    · exact .submitted ha hid hi
    · exact .submitted ha hid hi
  | submitted ha hid hi => exact ⟨rfl, .submitted ha hid hi⟩
  | stored hb => exact ⟨rfl, .stored hb⟩

end Copies

section Runs

variable {cfg : Config} {ι κ : Type*} [DecidableEq ι] [DecidableEq κ] {s : MemoryStore}
  {g : MemoryGroup} {request : SubmitRequest} {record : Record}

/-- Whenever a call takes the row lock, the places of its records are not yet claimed. -/
def LocksUnclaimed (cfg : Config) (s : MemoryStore) (requests : ι → Request)
    (sched : List (ι × Time)) : Prop :=
  ∀ p i t q, sched = p ++ (i, t) :: q → ∀ request batch g,
    (runFrom cfg s requests p).calls i = .waiting request batch →
    (runFrom cfg s requests p).shared.groups request.groupId = some g →
    ∀ record ∈ request.records, g.claims (claimKeyOf record) = none

theorem LocksUnclaimed.of_append {requests : ι → Request} {p q : List (ι × Time)}
    (h : LocksUnclaimed cfg s requests (p ++ q)) : LocksUnclaimed cfg s requests p := by
  intro p' i t q' hp
  exact h p' i t (q' ++ q) (by simp [hp])

def CopiesAt (cfg : Config) (s : MemoryStore) (g : MemoryGroup) (request : SubmitRequest)
    (record : Record) (w : World MemoryStore Call ι) : Prop :=
  (w.shared = s ∧ ∀ j, Waiting g request record (w.calls j)) ∨
  ∃ id g', w.shared.groups request.groupId = some g' ∧ matchedId cfg g' record = some id ∧
    ∀ j, Landed request record id (w.calls j)

theorem CopiesAt.turn {w : World MemoryStore Call ι} (h : CopiesAt cfg s g request record w)
    (hs : s.Each (Sound cfg)) (hg : s.groups request.groupId = some g) (ho : g.closed = false)
    (hr : request.records = [record]) (hv : validateSubmit request = .ok ()) (i : ι) (now : Time)
    (hl : ∀ batch g', w.calls i = .waiting request batch →
      w.shared.groups request.groupId = some g' → g'.claims (claimKeyOf record) = none) :
    CopiesAt cfg s g request record ((machine cfg).turn w (i, now)) := by
  have hsl : ((machine cfg).turn w (i, now)).calls i = ((w.calls i).step cfg now w.shared).2 :=
    turn_calls_self ..
  have hne : ∀ j, j ≠ i → ((machine cfg).turn w (i, now)).calls j = w.calls j :=
    fun j hj => turn_calls_of_ne hj
  rcases h with ⟨rfl, hw⟩ | ⟨id, g', hg', hm, hw⟩
  · rcases (hw i).step hs hg ho hr hv now with ⟨hsm, hi⟩ | ⟨hc, hf, g', hg', hm, hi⟩
    · refine .inl ⟨hsm, fun j => ?_⟩
      by_cases hj : j = i
      · rwa [hj, hsl]
      · rw [hne j hj]
        exact hw j
    · refine .inr ⟨_, g', hg', hm, fun j => ?_⟩
      by_cases hj : j = i
      · rwa [hj, hsl]
      · rw [hne j hj]
        exact (hw j).landed hc hf
  · have hlc : ∀ batch, w.calls i ≠ .waiting request batch := by
      intro batch hb
      have hc := hl batch g' hb hg'
      simp [matchedId, hc] at hm
    obtain ⟨hsm, hi⟩ := (hw i).step hg' hm hr hv hlc now
    have hsh : ((machine cfg).turn w (i, now)).shared = w.shared := hsm
    refine .inr ⟨id, g', by rw [hsh, hg'], hm, fun j => ?_⟩
    · by_cases hj : j = i
      · rwa [hj, hsl]
      · rw [hne j hj]
        exact hw j

theorem copies_run (hs : s.Each (Sound cfg)) (hg : s.groups request.groupId = some g)
    (ho : g.closed = false) (hr : request.records = [record])
    (hv : validateSubmit request = .ok ()) (sched : List (ι × Time))
    (hl : LocksUnclaimed cfg s (fun _ => .submit request) sched) :
    CopiesAt cfg s g request record (runFrom cfg s (fun _ => .submit request) sched) := by
  induction sched using List.reverseRecOn with
  | nil => exact .inl ⟨rfl, fun _ => .start⟩
  | append_singleton sched m ih =>
    have hc := hl sched m.1 m.2 [] rfl request
    rw [runFrom, exec_snoc]
    exact (ih hl.of_append).turn hs hg ho hr hv m.1 m.2
      fun batch g' hb hg' => hc batch g' hb hg' record (by simp [hr])

theorem stored_of_invalid {e : Error} (hv : validateSubmit request = .error e)
    (sched : List (ι × Time)) (i : ι) :
    ((runFrom cfg s (fun _ => .submit request) sched).calls i).stored = [] := by
  have h : ∀ j, (runFrom cfg s (fun _ : ι => .submit request) sched).calls j =
      .start (.submit request) ∨
      (runFrom cfg s (fun _ : ι => .submit request) sched).calls j = .failed request e := by
    refine exec_induction (M := machine cfg)
      (P := fun w => ∀ j, w.calls j = .start (.submit request) ∨ w.calls j = .failed request e)
      (fun _ => .inl rfl) (fun w m hw j => ?_) sched
    by_cases hj : j = m.1
    · subst hj
      have hs : ((machine cfg).turn w m).calls m.1 =
          ((w.calls m.1).step cfg m.2 w.shared).2 := turn_calls_self ..
      rw [hs]
      rcases hw m.1 with h | h <;> rw [h]
      · simp [Call.step, hv]
      · exact .inr rfl
    · rw [turn_calls_of_ne hj]
      exact hw j
  rcases h i with h | h <;> rw [h] <;> rfl

/--
If no copy of a submission takes the row lock once the place of its record is claimed, every copy is
accepted under the id it was stored with.
-/
theorem retried_record_accepted (cfg : Config) (before : κ → Request) (past : List (κ × Time))
    (request : SubmitRequest) (record : Record) (hr : request.records = [record])
    (g : MemoryGroup) (hg : (run cfg before past).shared.groups request.groupId = some g)
    (ho : g.closed = false) (sched : List (ι × Time))
    (hl : LocksUnclaimed cfg (run cfg before past).shared (fun _ => .submit request) sched)
    (i j : ι) (hij : j ≠ i) (r : Record)
    (hi : r ∈ ((runFrom cfg (run cfg before past).shared (fun _ => .submit request)
      sched).calls i).stored)
    (answer : Except Error (List SubmitResult))
    (hj : ((runFrom cfg (run cfg before past).shared (fun _ => .submit request)
      sched).calls j).answer = some answer) :
    ∃ result, answer = .ok [result] ∧ result.reason = .ok ∧ result.recordId = r.recordId := by
  have hs := run_sound cfg before past
  generalize (run cfg before past).shared = s at *
  cases hv : validateSubmit request with
  | error e => simp [stored_of_invalid hv] at hi
  | ok =>
    have his := history hs (fun _ : ι => .submit request) sched
    rcases copies_run hs hg ho hr hv sched hl with ⟨-, hw⟩ | ⟨id, g', -, -, hw⟩
    · rw [(hw i).stored] at hi
      cases hi
    · obtain rfl := (hw i).eq_of_stored hi
      refine ((hw j).answer hj).resolve_right fun hst => ?_
      exact hij (his.unique j i _ ((hw j).groupId.trans (hw i).groupId.symm) hst hi)

end Runs

open Sample

theorem locksUnclaimed_retried : LocksUnclaimed config founded
    (fun _ : Fin 2 => .submit retried) [(0, 3), (0, 4), (1, 5), (1, 6)] := by
  intro p i t q h request batch g hc hg record hr
  rcases p with _ | ⟨a, _ | ⟨b, _ | ⟨c, _ | ⟨d, p⟩⟩⟩⟩ <;>
    simp only [List.nil_append, List.cons_append, List.cons.injEq, Prod.mk.injEq] at h
  · obtain ⟨⟨rfl, rfl⟩, -⟩ := h
    cases hc
  · obtain ⟨rfl, ⟨rfl, rfl⟩, -⟩ := h
    cases hc
    cases hg
    obtain rfl := List.mem_singleton.mp hr
    rfl
  · obtain ⟨rfl, rfl, ⟨rfl, rfl⟩, -⟩ := h
    cases hc
  · obtain ⟨rfl, rfl, rfl, ⟨rfl, rfl⟩, -⟩ := h
    cases hc
  · simp at h

theorem retried_record_accepted_commit : ∃ result,
    ((runFrom config founded (fun _ : Fin 2 => .submit retried)
      [(0, 3), (0, 4), (1, 5), (1, 6)]).calls 1).answer = some (.ok [result]) ∧
    result.reason = .ok ∧ result.recordId = 3 := by
  obtain ⟨result, h, hr, hid⟩ := retried_record_accepted config Sample.founding
    foundingOrder retried (Sample.commit alice 1 3) rfl _ rfl rfl
    [(0, 3), (0, 4), (1, 5), (1, 6)] locksUnclaimed_retried 0 1 (by decide)
    (stamp (Sample.commit alice 1 3) 3) (List.mem_singleton_self _) _ rfl
  exact ⟨result, congrArg some h, hr, hid⟩

/-- Two copies of a commit pass step (0); the second takes the row lock after the first landed. -/
theorem retried_commit_told_it_lost : ∃ r result,
    ((runFrom config founded (fun _ : Fin 2 => .submit retried)
      [(0, 3), (1, 4), (0, 5), (1, 6)]).calls 0).stored = [r] ∧
    ((runFrom config founded (fun _ : Fin 2 => .submit retried)
      [(0, 3), (1, 4), (0, 5), (1, 6)]).calls 1).answer = some (.ok [result]) ∧
    r.isCommit = true ∧ result.reason = .commitLost ∧ result.winningCommit = some r :=
  ⟨_, _, rfl, rfl, rfl, rfl, rfl⟩

end MessageServer.Store
