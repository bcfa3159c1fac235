import MessageServer.Pgx.Calls
import MessageServer.Pgx.Ranges
import MessageServer.Store.Commits

/-! # The codes of a refused batch

The two stores refuse a batch over the same record, unless one of its records
rebinds a recovery handle of the batch itself and a later one fails another
check: the store in memory then stops at the former and the SQL store at the
latter.
-/

namespace MessageServer.Pgx

open Store Transaction Store.Sample

def codes (results : List SubmitResult) : List Reason := results.map (·.reason)

def markedCodes (batch : List Pending) (offender : ℕ) (reason : Reason) : List Reason :=
  (markRefused batch offender reason).map (·.result.reason)

/-- The codes of a batch that is refused over a record with no code of its own. -/
def rejections (batch : List Pending) : List Reason :=
  batch.map fun p => if p.probe = .identical then p.result.reason else .rejected

section Codes

variable {store : PgxStore} {groupId : Bytes} {d : Database} {g : MemoryGroup} {epoch : ℕ}
  {batch : List Pending} (p : Pending)

@[simp] theorem reason_fillEpoch : (fillEpoch epoch p).result.reason = p.result.reason := by
  unfold fillEpoch
  split <;> rfl

@[simp] theorem reason_filled :
    (filled store groupId d epoch p).result.reason = p.result.reason := by
  unfold filled
  split
  · exact reason_fillEpoch p
  · exact reason_fillEpoch p

theorem codes_resultsOf (batch : List Pending) :
    codes (resultsOf batch) = batch.map (·.result.reason) := by
  simp [codes, resultsOf, Function.comp_def]

theorem exists_refused {results : List SubmitResult} {reason : Reason} {rest : List Reason}
    (h : codes results = reason :: rest) (hr : accepted reason = false) :
    ∃ r ∈ results, accepted r.reason = false := by
  have hm : reason ∈ codes results := h ▸ List.mem_cons_self
  obtain ⟨r, hr', rfl⟩ := List.mem_map.mp hm
  exact ⟨r, hr', hr⟩

theorem codes_filled (offender : ℕ) (reason : Reason) :
    codes (resultsOf ((markRefused batch offender reason).map (filled store groupId d epoch))) =
      markedCodes batch offender reason := by
  simp [codes_resultsOf, markedCodes, Function.comp_def]

theorem codes_fillCurrentEpoch (group : Option MemoryGroup) (batch : List Pending) :
    codes (resultsOf (fillCurrentEpoch group batch)) = batch.map (·.result.reason) := by
  rw [codes_resultsOf]
  unfold fillCurrentEpoch
  split
  · rfl
  · split
    · rfl
    · rw [List.map_map]
      rfl

theorem markedCodes_rejected (batch : List Pending) (offender : ℕ) :
    markedCodes batch offender .rejected = rejections batch := by
  refine List.ext_getElem (by simp [markedCodes, rejections, markRefused]) fun i h₁ h₂ => ?_
  simp only [markedCodes, rejections, markRefused, List.getElem_map, List.getElem_mapIdx]
  split <;> simp

theorem markedCodes_atEpoch (e : ℕ) (batch : List Pending) (offender : ℕ) (reason : Reason) :
    markedCodes (atEpoch e batch) offender reason = markedCodes batch offender reason := by
  refine List.ext_getElem (by simp [markedCodes, markRefused, atEpoch]) fun i h₁ h₂ => ?_
  simp only [markedCodes, markRefused, atEpoch, List.getElem_map, List.getElem_mapIdx]
  split <;> rfl

theorem rejections_atEpoch (e : ℕ) (batch : List Pending) :
    rejections (atEpoch e batch) = rejections batch := by
  simp [rejections, atEpoch, Function.comp_def]

theorem atEpoch_cons (e : ℕ) (p : Pending) (batch : List Pending) : atEpoch e (p :: batch) =
    { p with result := { p.result with currentEpoch := e } } :: atEpoch e batch := rfl

theorem gateStored_atEpoch (keys : Option EpochKeyDelivery) (own : Bytes → Option ℕ)
    (index e : ℕ) (batch : List Pending) :
    gateStored g keys own index (atEpoch e batch) = gateStored g keys own index batch := by
  induction batch generalizing own index with
  | nil => rfl
  | cons p batch ih =>
    rw [atEpoch_cons]
    simp only [gateStored, ih]

theorem rebindAt_atEpoch (pinned : Bytes → Option Bytes) (index e : ℕ) (batch : List Pending) :
    rebindAt pinned index (atEpoch e batch) = rebindAt pinned index batch := by
  induction batch generalizing pinned index with
  | nil => rfl
  | cons p batch ih =>
    rw [atEpoch_cons]
    simp only [rebindAt, ih]

end Codes

section Yields

variable {store : PgxStore} {groupId : Bytes} {draw : Draw} {keys : Option EpochKeyDelivery}
  {state : GroupState} {epoch : ℕ} {batch : List Pending} {C : Prop} {A : Reply → Prop} {α : Type}

theorem orFail_yields (result : Except Error α) : (orFail result).Yields C (fun _ => True) A := by
  cases result <;> trivial

theorem fillOne_yields (p : Pending) : (fillOne store groupId epoch p).Yields C
    (fun q => q.result.reason = p.result.reason) A := by
  unfold fillOne
  split
  · exact reason_fillEpoch p
  · exact fun d => (orFail_yields _).bind fun _ _ => reason_fillEpoch p

theorem fillAll_yields (batch : List Pending) : (fillAll store groupId epoch batch).Yields C
    (fun out => out.map (·.result.reason) = batch.map (·.result.reason)) A := by
  induction batch with
  | nil => rfl
  | cons p batch ih =>
    unfold fillAll
    refine (fillOne_yields p).bind fun q hq => ih.bind fun out ho => ?_
    exact congrArg₂ List.cons hq ho

theorem fill_yields (batch : List Pending) : (fill store groupId epoch batch).Yields C
    (fun out => out.map (·.result.reason) = batch.map (·.result.reason)) A := by
  unfold fill
  split
  · intro d
    dsimp only
    split
    · rfl
    · split
      · rfl
      · exact fillAll_yields batch
  · exact fillAll_yields batch

theorem refuse_yields {V : α → Prop} {offender : ℕ} {reason : Reason}
    (hA : ∀ results, codes results = markedCodes batch offender reason → A (.submitted results)) :
    (refuse store groupId batch offender reason epoch : Statements α).Yields C V A := by
  unfold refuse
  refine (fill_yields _).bind fun out ho => hA _ ?_
  rw [codes_resultsOf, ho]
  rfl

theorem pinRecoveryHandle_yields (tag : RecoveryTag) (now : Time) :
    (pinRecoveryHandle groupId tag now).Yields C (fun _ => True) A := by
  intro inserted
  dsimp only
  split
  · trivial
  · intro d
    dsimp only
    split <;> trivial

theorem closeFanOut_yields (currentEpoch : ℕ) (marker : EpochCompleteTag) :
    (closeFanOut groupId currentEpoch marker).Yields C (fun _ => True) A := by
  unfold closeFanOut
  split
  · trivial
  · intro d
    dsimp only
    split
    · trivial
    · split
      · trivial
      · exact fun _ => trivial

theorem writeOne_yields {offender currentEpoch : ℕ} {record : Record} {result : SubmitResult}
    (hc : record.isCommit = false)
    (hA : ∀ results, codes results = rejections batch → A (.submitted results)) :
    (writeOne store groupId draw keys state batch offender currentEpoch record result).Yields C
      (fun _ => True) A := by
  have hi : ∀ (k : Key) (row : Row k) (conflict : OnConflict (Row k)),
      (Prog.insert k row conflict fun _ => pure () : Statements Unit).Yields C (fun _ => True) A :=
    fun _ _ _ _ => trivial
  unfold writeOne advance
  rw [if_neg (by simp [hc])]
  refine Prog.Yields.bind (W := fun _ => True) trivial fun standing _ => ?_
  refine Prog.Yields.bind (W := fun _ => True) ?_ fun _ _ => ?_
  · unfold completeEpoch
    split
    · trivial
    · exact closeFanOut_yields _ _
  refine Prog.Yields.bind (hi _ _ _) fun _ _ => Prog.Yields.bind (hi _ _ _) fun _ _ => ?_
  refine Prog.Yields.bind (W := fun _ => True) ?_ fun _ _ =>
    Prog.Yields.bind (hi _ _ _) fun _ _ => trivial
  unfold bindRecovery
  split
  · trivial
  · refine Prog.Yields.bind (pinRecoveryHandle_yields _ _) fun rebound _ => ?_
    split
    · exact refuse_yields fun results hr =>
        hA results (hr.trans (markedCodes_rejected _ _))
    · trivial

theorem writeAll_yields {currentEpoch id : ℕ} {done rest : List Pending}
    (hc : ∀ p ∈ rest, p.record.isCommit = false) (hs : Settled rest)
    (hA : ∀ results, codes results = rejections (done ++ rest) → A (.submitted results)) :
    (writeAll store groupId draw keys state currentEpoch id done rest).Yields C
      (fun _ => True) A := by
  induction rest generalizing currentEpoch id done with
  | nil => trivial
  | cons p rest ih =>
    obtain ⟨hcp, hcr⟩ := List.forall_mem_cons.mp hc
    obtain ⟨hsp, hsr⟩ := List.forall_mem_cons.mp hs
    unfold writeAll
    split
    · exact ih hcr hsr fun results hr => hA results (by simpa using hr)
    · rename_i hp
      have hne : p.probe ≠ .identical := by
        intro he
        rw [hsp, he] at hp
        exact hp rfl
      refine Prog.Yields.bind (writeOne_yields hcp hA) fun next _ => ?_
      refine ih hcr hsr fun results hr => hA results (hr.trans ?_)
      simp [rejections, hne]

theorem write_yields (hc : ∀ p ∈ batch, p.record.isCommit = false) (hs : Settled batch)
    (hA : ∀ results, codes results = rejections batch → A (.submitted results)) :
    (write store groupId draw keys state batch).Yields True (fun _ => True) A := by
  intro row
  cases row with
  | none => trivial
  | some row => exact Prog.Yields.bind (writeAll_yields hc hs hA) fun _ _ => trivial

end Yields

section Refused

variable {store : PgxStore} {groupId : Bytes} {draw : Draw} {d : Database} {g : MemoryGroup}
  {keys : Option EpochKeyDelivery} {batch : List Pending}

theorem transact_codes (h : HoldsGroup store.keys groupId d g) (ho : g.closed = false)
    (he : ∀ p ∈ batch, p.record.epoch < 2 ^ 64) (hs : Settled batch) :
    (transact store draw groupId keys batch).Meets schema d
      { commit := fun _ _ => True
        error := fun _ => True
        answer := fun w =>
          (∃ i reason, gateStored g keys (fun _ => none) 0 batch = some (i, reason) ∧
            ∃ results, w = .submitted results ∧ codes results = markedCodes batch i reason) ∨
          gateStored g keys (fun _ => none) 0 batch = none ∧
            ((∀ p ∈ batch, p.record.isCommit = false) →
              ∃ results, w = .submitted results ∧ codes results = rejections batch) } := by
  have he' : ∀ p ∈ atEpoch g.currentEpoch batch, p.record.epoch < 2 ^ 64 := by
    intro p hp
    obtain ⟨q, hq, rfl⟩ := List.mem_map.mp hp
    exact he q hq
  unfold transact
  refine Prog.meets_lock_of_some h.group (by simpa [groupColumns] using ho) ?_
  dsimp only
  rw [h.stateOf]
  refine (senderHighWater_meets h).bind_value ?_ fun _ => False.elim
  rintro _ highWater ⟨rfl, hw⟩
  refine (pinnedRecoveryKeys_meets h).bind_value ?_ fun _ => False.elim
  rintro _ pinned ⟨rfl, hp⟩
  refine (gateAll_meets h ho he' (inputs_of_reads hw hp) _).bind ?_ (fun _ _ => False.elim) ?_
    fun _ => False.elim
  · rintro _ _ ⟨rfl, hg⟩
    have hg' : gateStored g keys (fun _ => none) 0 batch = none :=
      (gateStored_atEpoch ..).symm.trans hg
    by_cases hc : ∀ p ∈ batch, p.record.isCommit = false
    · have hc' : ∀ p ∈ atEpoch g.currentEpoch batch, p.record.isCommit = false := by
        intro p hp
        obtain ⟨q, hq, rfl⟩ := List.mem_map.mp hp
        exact hc q hq
      refine ((write_yields (A := fun w => ∃ results, w = .submitted results ∧
        codes results = rejections batch) hc' (settled_atEpoch _ hs) ?_).run _).mono
        (fun _ a => a.elim) (fun _ _ _ => trivial) (fun w hw => .inr ⟨hg', fun _ => hw⟩)
        fun _ _ => trivial
      exact fun results hr => ⟨results, rfl, hr.trans (rejections_atEpoch _ _)⟩
    · exact Prog.meets_of_forall (fun _ a => a.elim) (fun _ _ => trivial)
        (fun _ => .inr ⟨hg', fun hc' => absurd hc' hc⟩) fun _ => trivial
  · rintro w ⟨i, reason, hg, rfl⟩
    refine .inl ⟨i, reason, (gateStored_atEpoch ..).symm.trans hg, _, rfl, ?_⟩
    rw [codes_filled, markedCodes_atEpoch]

variable {reason : Reason} {own : Bytes → Option ℕ} {i : ℕ}

theorem codes_submitLocked (cfg : Config) (now : Time) (ho : g.closed = false)
    (hr : refusal g keys batch = some (i, reason)) :
    codes (resultsOf (submitLocked cfg now g keys batch).2) = markedCodes batch i reason := by
  rw [submitLocked_of_refusal _ _ ho hr, refuseBatch, codes_fillCurrentEpoch]
  exact markedCodes_atEpoch ..

theorem refusal_eq : refusal g keys batch = firstRefusal
    (gateStored g keys (fun _ => none) 0 batch) (rebindAt (fun _ => none) 0 batch) := by
  unfold refusal
  rw [gateAll_eq (pinsAgree_none g), gateStored_atEpoch, rebindAt_atEpoch]

theorem unsettled_of_gateStored {index j : ℕ}
    (h : gateStored g keys own index batch = some (j, reason)) :
    ∃ p, batch[j - index]? = some p ∧ p.settled = false := by
  induction batch generalizing own index with
  | nil => cases h
  | cons p batch ih =>
    have hst : ∀ own', gateStored g keys own' (index + 1) batch = some (j, reason) →
        ∃ q, (p :: batch)[j - index]? = some q ∧ q.settled = false := by
      intro own' h'
      obtain ⟨q, hq, hs⟩ := ih h'
      have hle := le_of_gateStored h'
      have hj : j - index = j - (index + 1) + 1 := by omega
      exact ⟨q, by rw [hj, List.getElem?_cons_succ, hq], hs⟩
    cases hp : p.settled with
    | true =>
      rw [gateStored_of_settled hp] at h
      exact hst _ h
    | false =>
      by_cases hr : Store.gate g g.state p.record keys own (fun _ => none) = .ok
      · rw [gateStored_of_passed hp hr] at h
        exact hst _ h
      · rw [gateStored_of_refused hp hr, Option.some.injEq, Prod.mk.injEq] at h
        exact ⟨p, by rw [h.1, Nat.sub_self]; rfl, hp⟩

theorem markedCodes_eq_rejections (hst : Settled batch) {j : ℕ}
    (h : gateStored g keys own 0 batch = some (j, reason)) :
    markedCodes batch j reason = rejections batch ↔ reason = .rejected := by
  constructor
  · intro heq
    obtain ⟨p, hp, hs⟩ := unsettled_of_gateStored h
    rw [Nat.sub_zero] at hp
    have hne : p.probe ≠ .identical := by
      intro hi
      rw [hst p (List.mem_of_getElem? hp), hi] at hs
      cases hs
    have hat := congrArg (·[j]?) heq
    simpa [markedCodes, rejections, markRefused, hp, hne] using hat
  · rintro rfl
    exact markedCodes_rejected batch j

/-- One record rebinds a recovery handle of its batch and a later one fails another check. -/
def Masked (g : MemoryGroup) (keys : Option EpochKeyDelivery) (batch : List Pending) : Prop :=
  ∃ i j reason, rebindAt (fun _ => none) 0 batch = some i ∧
    gateStored g keys (fun _ => none) 0 batch = some (j, reason) ∧ i < j ∧ reason ≠ .rejected

theorem codes_agree_of_open (hs : Settled batch) (ha : Alone (batch.map (·.record)))
    (hm : refusal g keys batch = some (i, reason)) {results : List SubmitResult}
    (hp : (∃ i reason, gateStored g keys (fun _ => none) 0 batch = some (i, reason) ∧
        ∃ results', Reply.submitted results = .submitted results' ∧
          codes results' = markedCodes batch i reason) ∨
      gateStored g keys (fun _ => none) 0 batch = none ∧ ((∀ p ∈ batch, p.record.isCommit = false) →
          ∃ results', Reply.submitted results = .submitted results' ∧
            codes results' = rejections batch)) :
    codes results = markedCodes batch i reason ↔ ¬ Masked g keys batch := by
  rw [refusal_eq] at hm
  rcases hp with ⟨j, r, hg, _, ⟨rfl⟩, hc⟩ | ⟨hg, hc⟩
  · rw [hc]
    rw [hg] at hm
    cases hb : rebindAt (fun _ => none) 0 batch with
    | none =>
      rw [hb, firstRefusal, Option.some.injEq, Prod.mk.injEq] at hm
      obtain ⟨rfl, rfl⟩ := hm
      refine iff_of_true rfl ?_
      rintro ⟨_, _, _, hb', -⟩
      rw [hb] at hb'
      cases hb'
    | some k =>
      rw [hb, firstRefusal] at hm
      split at hm
      · rename_i hlt
        obtain ⟨rfl, rfl⟩ := Prod.mk.inj (Option.some.inj hm)
        rw [markedCodes_rejected, markedCodes_eq_rejections hs hg]
        constructor
        · rintro rfl ⟨_, _, _, -, hg', -, hne⟩
          rw [hg, Option.some.injEq, Prod.mk.injEq] at hg'
          exact hne hg'.2.symm
        · intro hn
          by_contra hne
          exact hn ⟨k, j, r, hb, hg, hlt, hne⟩
      · rename_i hge
        cases hm
        refine iff_of_true rfl ?_
        rintro ⟨_, _, _, hb', hg', hlt, -⟩
        rw [hb, Option.some.injEq] at hb'
        rw [hg, Option.some.injEq, Prod.mk.injEq] at hg'
        omega
  · rw [hg] at hm
    cases hb : rebindAt (fun _ => none) 0 batch with
    | none =>
      rw [hb] at hm
      cases hm
    | some k =>
      rw [hb, firstRefusal, Option.some.injEq, Prod.mk.injEq] at hm
      obtain ⟨rfl, rfl⟩ := hm
      obtain ⟨_, ⟨rfl⟩, hc'⟩ := hc (not_commit_of_rebindAt ha hb)
      rw [hc', markedCodes_rejected]
      refine iff_of_true rfl ?_
      rintro ⟨_, _, _, -, hg', -⟩
      rw [hg] at hg'
      cases hg'

end Refused

section Main

variable {store : PgxStore} {draw : Draw} {now : Time} {d : Database} {s : MemoryStore}
  {request : SubmitRequest} {results results' : List SubmitResult}

theorem answer_of_run {p : Statements Empty} {Q : Post Row Error Reply Empty} {w : Reply}
    (h : p.Meets schema d Q) (hr : p.run schema d = .rolledBack (.ok w)) : Q.answer w := by
  unfold Prog.Meets at h
  rw [hr] at h
  exact h

theorem not_refused_of_codes (h : ∀ reason ∈ codes results, accepted reason = true)
    (hr : ∃ r ∈ results, accepted r.reason = false) : False := by
  obtain ⟨r, hm, ha⟩ := hr
  rw [h r.reason (List.mem_map_of_mem hm)] at ha
  cases ha

/--
The two stores refuse a batch with the same codes, unless a record of it rebinds a recovery handle
of the batch and a later one fails another check.
-/
theorem refusal_codes_agree_iff (h : HoldsStore store.keys d s)
    (hn : ∀ record ∈ request.records, record.epoch < 2 ^ 64 ∧ record.streamIndex < 2 ^ 64)
    (hp : (submit store draw request).run schema d = .rolledBack (.ok (.submitted results)))
    (hm : (Store.submit store.toConfig now s request).2 = .ok results')
    (hr : ∃ r ∈ results, accepted r.reason = false)
    (hr' : ∃ r ∈ results', accepted r.reason = false) :
    codes results = codes results' ↔ ¬ ∃ g, s.groups request.groupId = some g ∧
      g.closed = false ∧ (∀ p ∈ probed store.toConfig s request, p.probe ≠ .differs) ∧
      Masked g request.epochKeys (settle (probed store.toConfig s request)) := by
  have hmp : (settle (probed store.toConfig s request)).map (·.record) = request.records := by
    rw [map_record_settle, map_record_probed]
  unfold submit at hp
  unfold Store.submit at hm
  cases hv : validateSubmit request with
  | error e =>
    rw [hv] at hm
    cases hm
  | ok _ =>
    rw [hv] at hp hm
    cases hm
    change (submitProbed store draw request _).run schema d = _ at hp
    rw [probed_eq h fun record hr => (hn record hr).2] at hp
    unfold submitProbed at hp
    unfold submitBatch at hr' ⊢
    rcases submitProbe_cases store.toConfig s request with
      ⟨o, ho, hc⟩ | ⟨hd, ⟨hal, hc⟩ | ⟨hal, ⟨hg, hc⟩ | ⟨⟨g, hg⟩, hc⟩⟩⟩ <;> rw [hc] at hr' ⊢
    · rw [ho] at hp
      refine iff_of_true ?_ ?_
      · obtain ⟨_, ⟨rfl⟩, hcd⟩ := answer_of_run ((refuse_yields (C := True) (V := fun _ => True)
          (A := fun w => ∃ results, w = .submitted results ∧ codes results = _)
          fun results hr => ⟨results, rfl, hr⟩).run d) hp
        rw [hcd]
        exact (codes_fillCurrentEpoch _ _).symm
      · rintro ⟨g, -, -, hd, -⟩
        have hnn : (probed store.toConfig s request).findIdx? (·.probe = .differs) = none :=
          List.findIdx?_eq_none_iff.mpr (by simpa using hd)
        rw [ho] at hnn
        cases hnn
    · refine (not_refused_of_codes (fun reason hrs => ?_) hr').elim
      dsimp only at hrs
      rw [codes_fillCurrentEpoch] at hrs
      obtain ⟨p, hp', rfl⟩ := List.mem_map.mp hrs
      exact accepted_settle_probed hp'
    · rw [hd] at hp
      dsimp only at hp
      rw [if_neg (by simp [hal])] at hp
      have hw := answer_of_run (transact_of_unavailable (h.closed_of_unavailable fun g hg' => by
        rw [hg] at hg'
        cases hg')) hp
      cases hw
      refine iff_of_true (by rw [hg]) ?_
      rintro ⟨g, hg', -⟩
      rw [hg] at hg'
      cases hg'
    · rw [hd] at hp
      dsimp only at hp
      rw [if_neg (by simp [hal])] at hp
      rw [hg] at hr' ⊢
      dsimp only at hr' ⊢
      rcases Bool.eq_false_or_eq_true g.closed with hcl | hcl
      · have hw := answer_of_run (transact_of_unavailable (h.closed_of_unavailable fun g' hg' => by
          rw [hg, Option.some.injEq] at hg'
          rwa [← hg'])) hp
        cases hw
        refine iff_of_true (by rw [submitLocked_of_closed _ _ hcl]) ?_
        rintro ⟨g', ⟨rfl⟩, hop, -⟩
        rw [hcl] at hop
        cases hop
      · cases hrf : refusal g request.epochKeys (settle (probed store.toConfig s request)) with
        | none =>
          refine (not_refused_of_codes (fun reason hrs => ?_) hr').elim
          rw [submitLocked_of_passed _ _ hcl hrf, codes_resultsOf] at hrs
          obtain ⟨p, hp', rfl⟩ := List.mem_map.mp hrs
          exact accepted_written (fun _ => accepted_settle_probed) hp'
        | some refused =>
          obtain ⟨i, reason⟩ := refused
          rw [codes_submitLocked _ _ hcl hrf]
          have han := answer_of_run (transact_codes (h.groups _ g hg) hcl (fun p hp' =>
            (hn _ (hmp ▸ List.mem_map_of_mem hp')).1) (settled_settle _)) hp
          have ha : Alone ((settle (probed store.toConfig s request)).map (·.record)) := by
            rw [hmp]
            exact alone_of_validateSubmit hv
          rw [codes_agree_of_open (settled_settle _) ha hrf han]
          constructor
          · rintro hnt ⟨g', ⟨rfl⟩, -, -, hms⟩
            exact hnt hms
          · exact fun hnt hms => hnt ⟨g, rfl, hcl, by simpa using hd, hms⟩

end Main

namespace Sample

def recovery (streamIndex : ℕ) (key : UInt8) : Record :=
  record alice 1 streamIndex (some {
    kind := .recovery
    recovery := some ⟨List.replicate 16 0, List.replicate 32 key, 1⟩ })

def rebinding : SubmitRequest :=
  ⟨groupId, [recovery 3 0, recovery 4 1, record alice 0 5 none], none⟩

def stale : SubmitRequest :=
  ⟨groupId, [record alice 1 3 none, record alice 0 5 none, recovery 6 0], none⟩

def answered : Outcome Row Error Reply Empty → Option (List SubmitResult)
  | .rolledBack (.ok (.submitted results)) => some results
  | _ => none

theorem eq_of_answered {o : Outcome Row Error Reply Empty} {results : List SubmitResult}
    (h : answered o = some results) : o = .rolledBack (.ok (.submitted results)) := by
  unfold answered at h
  split at h
  · rw [Option.some.inj h]
  · cases h

end Sample

open Sample

/-- The batch that rebinds its own handle is refused with other codes by the two stores. -/
theorem refusal_codes_differ : ∃ results results', HoldsStore store.keys founded foundedStore ∧
    (submit store (draw 3) rebinding).run schema founded = .rolledBack (.ok (.submitted results)) ∧
    (Store.submit store.toConfig 3 foundedStore rebinding).2 = .ok results' ∧
    codes results = [.rejected, .rejected, .epochStale] ∧
    codes results' = [.rejected, .rejected, .rejected] := by
  have h : (answered ((submit store (draw 3) rebinding).run schema
      founded)).map codes = some [.rejected, .rejected, .epochStale] := by decide +kernel
  have h' : (Store.submit store.toConfig 3 foundedStore rebinding).2.map
      codes = .ok [.rejected, .rejected, .rejected] := by decide +kernel
  obtain ⟨results, hr, hc⟩ := Option.map_eq_some_iff.mp h
  obtain ⟨results', hr', hc'⟩ := map_eq_ok.mp h'
  exact ⟨results, results', holds_founded, eq_of_answered hr, hr', hc, hc'⟩

/-- A batch with a stale record between two others gets the same codes from the two stores. -/
theorem refusal_codes_agree_stale : ∃ results results',
    (submit store (draw 3) stale).run schema founded = .rolledBack (.ok (.submitted results)) ∧
    (Store.submit store.toConfig 3 foundedStore stale).2 = .ok results' ∧
    (∃ r ∈ results, accepted r.reason = false) ∧ (∃ r ∈ results', accepted r.reason = false) ∧
    codes results = codes results' := by
  have h : (answered ((submit store (draw 3) stale).run schema
      founded)).map codes = some [.rejected, .epochStale, .rejected] := by decide +kernel
  have h' : (Store.submit store.toConfig 3 foundedStore stale).2.map
      codes = .ok [.rejected, .epochStale, .rejected] := by decide +kernel
  have hb : rebindAt (fun _ => none) 0 (settle (probed store.toConfig foundedStore
      stale)) = none := by decide +kernel
  obtain ⟨results, hr, hc⟩ := Option.map_eq_some_iff.mp h
  obtain ⟨results', hr', hc'⟩ := map_eq_ok.mp h'
  have hx : ∃ r ∈ results, accepted r.reason = false := exists_refused hc rfl
  have hx' : ∃ r ∈ results', accepted r.reason = false := exists_refused hc' rfl
  refine ⟨results, results', eq_of_answered hr, hr', hx, hx',
    (refusal_codes_agree_iff holds_founded (by decide) (eq_of_answered hr) hr' hx
      hx').mpr ?_⟩
  rintro ⟨g, -, -, -, hm⟩
  obtain ⟨k, j, reason, hk, -⟩ := hm
  rw [hb] at hk
  cases hk

end MessageServer.Pgx
