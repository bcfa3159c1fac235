import MessageServer.Api.Floor
import MessageServer.Api.Secrecy
import MessageServer.Api.Transactions

/-! # A request with no other beside it

The steps of a submission, and those of a subscription, lead to the server and
the answer of the whole handler when they are taken one after another. The paced
handlers reply as the whole ones where the server answers their calls.
-/

namespace MessageServer.Api

open Store Interleaving

def Call.answer : Call → Option Answer
  | .refused _ answer | .submitting _ _ (.finished _ _ answer) => some answer
  | _ => none

def Call.acknowledgement : Call → Option (Reason × Option Protocol.SubscriptionAck)
  | .refused _ answer => some (answer.reason, none)
  | .subscribing _ _ (.finished ack) => some (.ok, some ack)
  | _ => none

section Steps

variable {h : Handler} {tick : Tick} {s : Server} {R : Type} {reply : Call → Option R}
  {out : Server × R}

theorem concludes_step {c : Call} (hc : (machine h).Concludes reply tick (c.step h tick s) out) :
    (machine h).Concludes reply tick (s, c) out := .step hc

/-- The steps of the filter are check 5, of whichever request they are a part. -/
theorem concludes_filter {groupId : Bytes} (stage : FilterStage → Call) (known : Call)
    (refuse : Reason → Call)
    (hs : ∀ s f, (stage f).step h tick s = match filterStep h.knownGroups s groupId f with
      | (s, .next f) => (s, stage f)
      | (s, .known) => (s, known)
      | (s, .refused reason) => (s, refuse reason))
    (hc : (machine h).Concludes reply tick (match contains h.knownGroups s groupId with
      | (s, .error reason) => (s, refuse reason)
      | (s, .ok _) => (s, known)) out) :
    (machine h).Concludes reply tick (s, stage .probe) out := by
  refine concludes_step ?_
  rw [hs]
  revert hc
  unfold contains
  simp only [filterStep]
  cases s.known groupId with
  | true => exact id
  | false =>
    cases h.knownGroups with
    | memory => exact id
    | store =>
      intro hc
      refine concludes_step ?_
      rw [hs]
      revert hc
      simp only [filterStep]
      cases groupState s.store groupId with
      | ok => exact fun hc => concludes_step (by rwa [hs])
      | error e => cases e <;> exact id

variable {r : Incoming Protocol.SubmitRequest} {pass : Pass}

/-- The lookups are check 6. -/
theorem concludes_key (seen : ℕ → Option Bytes) (done : List KeyedRecord)
    (todo : List CheckedRecord) (hc : (machine h).Concludes reply tick
      (match checkEpochKey s.store r.body.groupId seen done.length todo with
        | .error refused => (s, refuseSubmit r refused)
        | .ok records => (s, .submitting r pass (.auth (done ++ records)))) out) :
    (machine h).Concludes reply tick (s, .submitting r pass (.key seen done todo)) out := by
  induction todo generalizing seen done with
  | nil =>
    simp only [checkEpochKey, List.append_nil] at hc
    exact .step hc
  | cons record todo ih =>
    refine concludes_step ?_
    revert hc
    simp only [Call.step, submitStep, checkEpochKey]
    cases lookupKey s.store r.body.groupId seen record.parsed.header.epoch with
    | none => exact id
    | some key =>
      intro hc
      apply ih
      revert hc
      simp only [List.length_append, List.length_singleton]
      cases checkEpochKey s.store r.body.groupId _ _ todo with
      | error => exact id
      | ok records => simp [Except.map]

/-- The steps of the store are its own submission, and the mark for the subscribers follows. -/
theorem concludes_storing (records : List KeyedRecord) (request : SubmitRequest) :
    (machine h).Concludes Call.answer tick
      (s, .submitting r pass (.storing records (.start (.submit request))))
      (let next := submit h.store (tick.clock 0) s.store request
      match next.2 with
      | .error _ => ({ s with store := next.1 },
          refusalAnswer r.body.records.length ⟨.internal, none⟩)
      | .ok results =>
        let answer := results.map (h.resultOf r.body.groupId)
        (({ s with store := next.1 } : Server).publishAccepted r.body.groupId records answer,
          ⟨.ok, answer⟩)) := by
  refine concludes_step ?_
  simp only [Call.step, submitStep, Store.Call.step, submit]
  cases validateSubmit request with
  | error e => exact .here rfl
  | ok _ =>
    dsimp only
    unfold submitBatch
    cases hp : submitProbe h.store s.store request with
    | answering batch => exact .step (.step (.here rfl))
    | unavailable batch => exact .step (.here rfl)
    | waiting batch =>
      obtain ⟨g, hg⟩ := (submitProbe_waiting hp).2.2
      rw [hg]
      dsimp only [submitOutcome]
      refine concludes_step ?_
      simp only [Call.step, submitStep, Store.Call.step, hg]
      exact .step (.here rfl)

theorem submit_concludes (h : Handler) (clock : ℕ → Time) (tick : Tick) (s : Server)
    (r : Incoming Protocol.SubmitRequest) :
    (machine h).Concludes Call.answer tick
      ((Call.start (.submit r)).step h { tick with clock := clock } s)
      (h.submit clock (tick.clock 0) s r) := by
  simp only [Call.step, Handler.submit]
  split
  · exact .here rfl
  cases h.checkStaticShape clock r.body with
  | error refused => exact .here rfl
  | ok pass =>
    apply concludes_filter (fun stage => .submitting r pass (.filter stage)) _ _ fun _ _ => rfl
    dsimp only
    cases contains h.knownGroups s r.body.groupId with
    | mk s known =>
    cases known with
    | error reason => exact .here rfl
    | ok _ =>
      apply concludes_key
      simp only [Handler.checkRecords, List.length_nil]
      rcases checkEpochKey s.store r.body.groupId (fun _ => none) 0 pass.records with _ | records
      · exact .here rfl
      refine concludes_step ?_
      simp only [Call.step, submitStep, bind, Except.bind, List.nil_append]
      rcases h.checkWriteAuth r.conn records with _ | _
      · exact .here rfl
      refine concludes_step ?_
      simp only [Call.step, submitStep]
      rcases h.checkBodyHash records with _ | _
      · exact .here rfl
      refine concludes_step ?_
      simp only [Call.step, submitStep]
      rcases h.storeRecords records with _ | columns
      · exact .here rfl
      exact concludes_storing records _

/-- The steps of the snapshot and of the registry are the end of a subscription. -/
theorem concludes_register {r : Incoming Protocol.SubscribeRequest}
    {wanted : Protocol.Subscription} : (machine h).Concludes Call.acknowledgement tick
      (s, .subscribing r wanted .snapshot)
      (s.register r.conn wanted r.body.readEpoch r.body.replace) := by
  refine concludes_step ?_
  simp only [Call.step, subscribeStep, Server.register]
  cases fetch s.store ⟨wanted.groupId, wanted.sinceRecordId, 1, true, 0, r.body.readEpoch⟩ with
  | error e => exact .here rfl
  | ok result =>
    refine concludes_step ?_
    simp only [Call.step, subscribeStep]
    cases s.subscriptions with
    | none => exact .here rfl
    | some registry =>
      dsimp only
      cases registry.subscribe r.conn wanted.groupId r.body.readEpoch result.highWaterRecordId
        r.body.replace with
      | mk registry added => cases added <;> exact .here rfl

theorem subscribe_concludes (h : Handler) (tick : Tick) (s : Server)
    (r : Incoming Protocol.SubscribeRequest) :
    (machine h).Concludes Call.acknowledgement tick (s, .start (.subscribe r))
      (h.subscribe s r) := by
  refine concludes_step ?_
  simp only [Call.step, startSubscribe, Handler.subscribe]
  split
  · exact .here rfl
  cases s.subscriptions with
  | none => exact .here rfl
  | some registry =>
    rcases r.body.subscriptions with _ | ⟨wanted, _ | _⟩
    · exact .here rfl
    · dsimp only
      split
      · exact .here rfl
      apply concludes_filter (fun stage => .subscribing r wanted (.filter stage)) _ _ fun _ _ => rfl
      dsimp only [Handler.checkRead]
      cases contains h.knownGroups s wanted.groupId with
      | mk s known =>
      cases known with
      | error reason => exact .here rfl
      | ok _ =>
        refine concludes_step ?_
        simp only [Call.step, subscribeStep, readKeyOf]
        rcases epochKeys s.store wanted.groupId r.body.readEpoch with _ | ⟨_, _, _ | readKey, _⟩
        · exact .here rfl
        · exact .here rfl
        rcases canonicalRequestBytes h r.body with _ | canonical
        · exact .here rfl
        dsimp only [failIf]
        cases h.layer.verifyRequestAuth readKey r.conn.serverNonce opSubscribe canonical
          r.body.reqAuth with
        | false => exact .here rfl
        | true => exact concludes_register
    · exact .here rfl

end Steps

variable {ι : Type*} [DecidableEq ι] {requests : ι → Request} {i : ι}

/-- A submission that runs alone leaves the server and has the answer of the whole handler. -/
theorem submit_alone (h : Handler) (clock : ℕ → Time) (tick : Tick) (s : Server)
    {r : Incoming Protocol.SubmitRequest} (hi : requests i = .submit r) : ∃ n w,
      w = runFrom h s requests ((i, { tick with clock := clock }) :: List.replicate n (i, tick)) ∧
      w.shared = (h.submit clock (tick.clock 0) s r).1 ∧
      (w.calls i).answer = some (h.submit clock (tick.clock 0) s r).2 := by
  obtain ⟨n, hn⟩ := (submit_concludes h clock tick s r).exec
    (w := (machine h).turn (initial s requests) (i, { tick with clock := clock })) (i := i)
    (by simp [Machine.turn, initial, machine, hi])
  exact ⟨n, _, rfl, hn⟩

/-- A subscription that runs alone leaves the server and has the answer of the whole handler. -/
theorem subscribe_alone (h : Handler) (tick : Tick) (s : Server)
    {r : Incoming Protocol.SubscribeRequest} (hi : requests i = .subscribe r) : ∃ n w,
      w = runFrom h s requests (List.replicate n (i, tick)) ∧
      w.shared = (h.subscribe s r).1 ∧ (w.calls i).acknowledgement = some (h.subscribe s r).2 := by
  obtain ⟨n, hn⟩ := (subscribe_concludes h tick s r).exec (w := initial s requests) (i := i)
    (by simp [initial, hi])
  exact ⟨n, _, rfl, hn⟩

section Paced

variable (p : Pacing) (h : Handler) (s : Server) (conn : Connection) (groupId : Bytes)
  (readEpoch : ℕ) (replace : Bool) (m : Moment)

/-- What a server answers the calls of one submission. -/
def Handler.submitCalls (clock : ℕ → Time) (now : Time) (request : Protocol.SubmitRequest) :
    SubmitCalls where
  clock := clock
  contains := .ok (s.lists h.knownGroups request.groupId)
  writeKey := lookupKey s.store request.groupId fun _ => none
  submit columns := (Store.submit h.store now s.store
    { h.storeSubmit request with records := columns }).2.mapError fun _ => ()

/-- What a server answers the calls of one fetch or subscription. -/
@[simps] def Handler.readCalls : ReadCalls where
  contains := .ok (s.lists h.knownGroups groupId)
  readKey := readKeyOf s.store groupId readEpoch
  fetch request := (Store.fetch s.store request).mapError fun _ => ()
  subscriptions := s.subscriptions.isSome
  subscribe high := s.subscriptions.any fun registry =>
    (registry.subscribe conn groupId readEpoch high replace).2

theorem enter_reply {α : Type} (conn : Connection) (request : α) (op : ℕ) (front : FrontChecks)
    (run : Connection → α → ℕ → Time → Paced Reply) :
    (enter p ⟨some conn, some request, some op, front⟩ run m).1 =
      if frontChecks front ≠ .ok then ⟨frontChecks front, none⟩
      else (run conn request op m.reading (m.elapse 0)).1 := by
  change (entered p ⟨some conn, some request, some op, front⟩ run m.reading (m.elapse 0)).1 = _
  by_cases hf : frontChecks front = .ok <;> simp only [entered, hf, ne_eq, not_true, not_false_iff,
    if_true, if_false]
  rfl

/-- The read path refuses what the answers to its calls refuse. -/
theorem checkRead_eq_readAuth (hl : groupId.length = groupIdBytes) (op : ℕ)
    (canonical : Option Bytes) (reqAuth : Bytes) : ∃ (t : Server) (refused : Bool),
      t.store = s.store ∧ t.subscriptions = s.subscriptions ∧
      h.checkRead s conn groupId readEpoch op canonical reqAuth = (t, failIf refused .rejected) ∧
      (!s.lists h.knownGroups groupId || !h.readAuth
        (h.readCalls s conn groupId readEpoch replace) conn op canonical reqAuth) = refused := by
  obtain ⟨hs, hr, hc⟩ := contains_eq h.knownGroups s hl
  refine ⟨_, _, hs, hr, ?_, rfl⟩
  simp only [Handler.checkRead, Handler.readAuth, Handler.readCalls, ← hs]
  generalize contains h.knownGroups s groupId = next at hc
  obtain ⟨t, known⟩ := next
  obtain rfl : known = _ := hc
  cases s.lists h.knownGroups groupId with
  | false => rfl
  | true =>
    simp only [if_true]
    cases readKeyOf t.store groupId readEpoch <;> cases canonical <;> simp [failIf]

theorem pacedFetch_reply (h : Reader) (r : Incoming Protocol.FetchRequest) :
    (h.pacedFetch p (h.readCalls s r.conn r.body.groupId r.body.readEpoch replace)
      ⟨some r.conn, some r.body, some opFetch, r.front⟩ m).1 =
      ⟨(h.fetch s r).2.1, (h.fetch s r).2.2.map .fetch⟩ := by
  unfold Reader.pacedFetch Reader.fetch
  rw [enter_reply]
  split
  · rfl
  dsimp only
  split
  · rfl
  rename_i hl
  obtain ⟨t, refused, hs, -, hc, hb⟩ := checkRead_eq_readAuth h.toHandler s r.conn _
    r.body.readEpoch replace (not_not.mp (not_or.mp hl).1) opFetch
    (h.marshalFetch { r.body with reqAuth := [] }) r.body.reqAuth
  simp only [hc, Handler.readCalls_contains, hb]
  cases refused with
  | true => rfl
  | false =>
    simp only [failIf, Reader.servePage, hs, Handler.readCalls_fetch, Bool.false_eq_true, if_false]
    cases Store.fetch s.store _ with
    | error e => rfl
    | ok result =>
      dsimp only [Except.mapError]
      cases List.mapM (m := Option) _ result.records <;> rfl

theorem pacedSubscribe_reply (r : Incoming Protocol.SubscribeRequest)
    (hg : ∀ wanted ∈ r.body.subscriptions, wanted.groupId = groupId) :
    (h.pacedSubscribe p (h.readCalls s r.conn groupId r.body.readEpoch r.body.replace)
      ⟨some r.conn, some r.body, some opSubscribe, r.front⟩ m).1 =
      ⟨(h.subscribe s r).2.1, (h.subscribe s r).2.2.map .subscribe⟩ := by
  unfold Handler.pacedSubscribe Handler.subscribe
  rw [enter_reply]
  split
  · rfl
  simp only [Handler.readCalls_subscriptions]
  cases hr : s.subscriptions with
  | none => rfl
  | some registry =>
    revert hg
    rcases r.body.subscriptions with _ | ⟨wanted, _ | _⟩ <;> intro hg
    · rfl
    · obtain rfl := hg wanted List.mem_cons_self
      simp only [Option.isSome, Bool.not_true, Bool.false_eq_true, if_false]
      split
      · rfl
      rename_i hl
      obtain ⟨t, refused, hs, ht, hc, hb⟩ := checkRead_eq_readAuth h s r.conn _
        r.body.readEpoch r.body.replace (not_not.mp (not_or.mp hl).1) opSubscribe
        (canonicalRequestBytes h r.body) r.body.reqAuth
      simp only [hc, Handler.readCalls_contains, hb]
      cases refused with
      | true => rfl
      | false =>
        simp only [failIf, Server.register, hs, ht, hr, Handler.readCalls_fetch,
          Handler.readCalls_subscribe, Option.any, Bool.false_eq_true, if_false]
        cases Store.fetch s.store _ with
        | error e => rfl
        | ok result =>
          dsimp only [Except.mapError]
          generalize registry.subscribe r.conn wanted.groupId _ _ _ = next
          obtain ⟨registry, _ | _⟩ := next <;> rfl
    · rfl

theorem submit_stages (clock : ℕ → Time) (now : Time) (r : Incoming Protocol.SubmitRequest)
    (hf : frontChecks r.front = .ok) : (h.submit clock now s r).2 =
      match h.submitStages (h.submitCalls s clock now r.body) r.conn r.body with
      | .error refused => refusalAnswer r.body.records.length refused
      | .ok stored => ⟨.ok, stored.map (h.resultOf r.body.groupId)⟩ := by
  simp only [Handler.submit, Handler.submitStages, Handler.submitCalls, hf, ne_eq, not_true,
    if_false, bind, Except.bind, Except.mapError]
  cases hp : h.checkStaticShape clock r.body with
  | error refused => rfl
  | ok pass =>
    have hp := Handler.checkStaticShape_eq_ok.mp hp
    obtain ⟨hs, -, hc⟩ := contains_eq h.knownGroups s hp.groupId
    generalize contains h.knownGroups s r.body.groupId = next at hs hc
    obtain ⟨t, known⟩ := next
    obtain rfl : known = _ := hc
    cases s.lists h.knownGroups r.body.groupId with
    | false => rfl
    | true =>
      simp only [Handler.checkRecords, show t.store = s.store from hs, storeSubmit_of_passed hp,
        failIf, bind, Except.bind, pure, Except.pure, if_true, not_true, if_false]
      rw [checkEpochKey_eq (by simp)]
      rcases forEach _ 0 pass.records with _ | records
      · rfl
      dsimp only
      rcases h.checkWriteAuth r.conn records with _ | _
      · rfl
      dsimp only
      rcases h.checkBodyHash records with _ | _
      · rfl
      dsimp only
      rcases h.storeRecords records with _ | columns
      · rfl
      dsimp only
      cases (Store.submit h.store now s.store _).2 <;> rfl

def Reply.answer (reply : Reply) : Answer where
  reason := reply.reason
  results := match reply.body with
    | some (.submit results) => results
    | _ => []

theorem pacedSubmit_reply (clock : ℕ → Time) (now : Time) (r : Incoming Protocol.SubmitRequest)
    (op : ℕ) : (h.pacedSubmit p (h.submitCalls s clock now r.body)
      ⟨some r.conn, some r.body, some op, r.front⟩ m).1.answer = (h.submit clock now s r).2 := by
  unfold Handler.pacedSubmit
  rw [enter_reply]
  by_cases hf : frontChecks r.front = .ok
  · rw [submit_stages h s clock now r hf, if_neg (not_not.mpr hf)]
    dsimp only
    cases h.submitStages (h.submitCalls s clock now r.body) r.conn r.body with
    | error refused =>
      dsimp only [refusalAnswer]
      split <;> rfl
    | ok stored =>
      dsimp only
      split <;> rfl
  · rw [if_pos hf, Handler.submit, if_pos hf]
    rfl

end Paced

end MessageServer.Api
