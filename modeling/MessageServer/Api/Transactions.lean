import MessageServer.Api.Calls
import MessageServer.Api.Shape
import MessageServer.Store.Answers

/-! # The server refines the store

Seen through its store, a run of the server is a run of the store: a request
asks the store what its own bytes parse to, and takes a step of the store only
behind its checks.
-/

namespace MessageServer.Api

open Interleaving Store

namespace Handler

variable (h : Handler)

def storeSubmit (request : Protocol.SubmitRequest) : SubmitRequest :=
  let records := request.records.filterMap h.parse
  { groupId := request.groupId
    records := records.filterMap fun record => (h.storeRecord record).toOption
    epochKeys :=
      deliveryOf (h.checkEpochKeys request.groupId records request.epochKeys).toOption.join }

def storeCreate (request : Protocol.CreateGroupRequest) : CreateGroupRequest :=
  let record := h.parse request.initialCommit
  { groupId := request.groupId
    initialCommit := record.bind fun record => (h.storeRecord record).toOption
    bootstrapWriteKey := request.bootstrapWriteKey
    epochKeys := deliveryOf
      (h.checkEpochKeys request.groupId record.toList [request.epochKeys]).toOption.join }

/-- What a request asks of the store; those that ask nothing never take the step named here. -/
def storeRequest : Request → Store.Request
  | .createGroup r => .createGroup (h.storeCreate r.body)
  | .submit r => .submit (h.storeSubmit r.body)
  | .closeGroup groupId => .closeGroup groupId
  | .subscribe _ | .unsubscribe _ | .deliver => .closeGroup []

end Handler

namespace Call

def request : Call → Request
  | .start request | .refused request _ => request
  | .creating r _ _ _ => .createGroup r
  | .submitting r _ _ => .submit r
  | .subscribing r _ _ => .subscribe r
  | .unsubscribed r => .unsubscribe r
  | .closing groupId _ => .closeGroup groupId
  | .delivering _ => .deliver

def storeCall (h : Handler) : Call → Store.Call
  | .creating _ _ _ (.insert call _) | .creating _ _ _ (.finished call _ _) => call
  | .submitting _ _ (.storing _ call) | .submitting _ _ (.publishing _ call _)
  | .submitting _ _ (.finished _ call _) => call
  | .closing _ call => call
  | call => .start (h.storeRequest call.request)

/-- A request that asks nothing of the store, or has been refused in front of it. -/
def Idle : Call → Prop
  | .refused _ _ | .subscribing _ _ _ | .unsubscribed _ | .delivering _ => True
  | _ => False

/-- A request that is not among the checks of a record and not about to close a group. -/
def Outer : Call → Prop
  | .start (.closeGroup _) | .creating _ _ _ _ | .submitting _ _ _ | .closing _ _ => False
  | _ => True

theorem Idle.storeCall {h : Handler} {c : Call} (hc : c.Idle) :
    c.storeCall h = .start (h.storeRequest c.request) := by
  cases c <;> first | rfl | cases hc

theorem Outer.storeCall {h : Handler} {c : Call} (hc : c.Outer) :
    c.storeCall h = .start (h.storeRequest c.request) := by
  cases c <;> first | rfl | cases hc

end Call

section Valid

variable (h : Handler)

/-- The records of a submission that checks 7 and 8 and the columns of check 9 have passed. -/
structure Cleared (r : Incoming Protocol.SubmitRequest) (pass : Pass) (records : List KeyedRecord) :
    Prop where
  checked : records.map (·.toCheckedRecord) = pass.records
  verified : ∀ record ∈ records,
    h.layer.verifyWriteAuth record.writeKey r.conn.serverNonce record.parsed = true
  hashed : ∀ record ∈ records, h.bodyHash record.toCheckedRecord = .ok ()
  columns : h.storeRecords records = .ok (h.storeSubmit r.body).records

structure ClearedCommit (r : Incoming Protocol.CreateGroupRequest) (record : CheckedRecord) :
    Prop where
  verified :
    h.layer.verifyWriteAuth r.body.bootstrapWriteKey r.conn.serverNonce record.parsed = true
  hashed : h.bodyHash record = .ok ()
  columns : (h.storeRecord record).toOption = (h.storeCreate r.body).initialCommit

def SubmitStage.Valid (r : Incoming Protocol.SubmitRequest) (pass : Pass) : SubmitStage → Prop
  | .filter _ => True
  | .key _ done todo => done.map (·.toCheckedRecord) ++ todo = pass.records
  | .auth records => records.map (·.toCheckedRecord) = pass.records
  | .hash records => records.map (·.toCheckedRecord) = pass.records ∧ ∀ record ∈ records,
      h.layer.verifyWriteAuth record.writeKey r.conn.serverNonce record.parsed = true
  | .columns records => records.map (·.toCheckedRecord) = pass.records ∧ (∀ record ∈ records,
      h.layer.verifyWriteAuth record.writeKey r.conn.serverNonce record.parsed = true) ∧
    ∀ record ∈ records, h.bodyHash record.toCheckedRecord = .ok ()
  | .storing records _ | .publishing records _ _ | .finished records _ _ => Cleared h r pass records

def CreateStage.Valid (r : Incoming Protocol.CreateGroupRequest) (record : CheckedRecord) :
    CreateStage → Prop
  | .auth => True
  | .hash =>
    h.layer.verifyWriteAuth r.body.bootstrapWriteKey r.conn.serverNonce record.parsed = true
  | .transaction =>
    h.layer.verifyWriteAuth r.body.bootstrapWriteKey r.conn.serverNonce record.parsed = true ∧
      h.bodyHash record = .ok ()
  | .insert _ _ | .finished _ _ _ => ClearedCommit h r record

/-- A request carries what the checks behind it have established. -/
def Call.Valid : Call → Prop
  | .creating r record keys stage =>
    (∃ now, h.checkCreate now r.body = .ok (record, keys)) ∧ stage.Valid h r record
  | .submitting r pass stage => (∃ clock, h.Passed clock r.body pass) ∧ stage.Valid h r pass
  | _ => True

end Valid

section Asked

variable {h : Handler} {clock : ℕ → Time} {now : Time} {record : CheckedRecord}
  {keys : Option Protocol.EpochKeyDelivery} {request : Protocol.CreateGroupRequest}

theorem toOption_eq_some {ε α : Type} {x : Except ε α} {a : α} :
    x.toOption = some a ↔ x = .ok a := by
  cases x <;> simp [Except.toOption]

theorem storeSubmit_of_passed {request : Protocol.SubmitRequest} {pass : Pass}
    (hp : h.Passed clock request pass) :
    h.storeSubmit request = {
      groupId := request.groupId
      records := pass.records.filterMap fun record => (h.storeRecord record).toOption
      epochKeys := deliveryOf pass.keys } := by
  have hf : request.records.filterMap h.parse = pass.records := filterMap_of_forall₂ hp.parse
  simp [Handler.storeSubmit, hf, hp.keys, Except.toOption]

theorem filterMap_of_storeRecords {records : List KeyedRecord} {columns : List Record}
    (hs : h.storeRecords records = .ok columns) :
    (records.map (·.toCheckedRecord)).filterMap (fun record => (h.storeRecord record).toOption) =
      columns := by
  rw [List.filterMap_map]
  refine filterMap_of_forall₂ ((forall₂_of_forEach hs).imp fun record column ⟨_, hc⟩ => ?_)
  exact toOption_eq_some.mpr hc

theorem epochKeyAlignment_single {delivery : Option Protocol.EpochKeyDelivery}
    {keys : Protocol.EpochKeyDelivery} {index : ℕ}
    (ha : epochKeyAlignment [record] [delivery] = .ok (some (keys, index))) : index = 0 := by
  simp only [epochKeyAlignment, List.length_singleton, ne_eq, not_true_eq_false, and_false,
    if_false, alignFrom] at ha
  split at ha
  · cases ha
  · cases ha
  · split at ha <;> cases ha
  · split at ha
    · cases ha
    · split at ha
      · cases ha
      · split at ha
        · cases ha
        · cases ha
          rfl

theorem checkCreate_eq_ok (hc : h.checkCreate now request = .ok (record, keys)) :
    h.staticShape now request.groupId request.initialCommit = .ok record ∧
      record.parsed.header.epoch = 0 ∧
      h.checkEpochKeys request.groupId [record] [request.epochKeys] = .ok keys := by
  unfold Handler.checkCreate at hc
  simp only [bind_eq_ok_iff, failIf_eq_ok, not_or, not_not] at hc
  obtain ⟨-, -, record', hs, -, ⟨-, he⟩, -, -, hk⟩ := hc
  unfold Handler.checkEpochKeys
  split at hk
  · cases hk
  · rename_i ha
    cases hk
    exact ⟨hs, he, by rw [ha]⟩
  · rename_i delivered index ha
    obtain rfl := epochKeyAlignment_single ha
    split at hk
    · cases hk
    · rename_i hd
      cases hk
      exact ⟨hs, he, by simp [ha, hd]⟩

theorem storeCreate_of_checkCreate (hc : h.checkCreate now request = .ok (record, keys)) :
    h.storeCreate request = {
      groupId := request.groupId
      initialCommit := (h.storeRecord record).toOption
      bootstrapWriteKey := request.bootstrapWriteKey
      epochKeys := deliveryOf keys } := by
  obtain ⟨hs, -, hk⟩ := checkCreate_eq_ok hc
  simp [Handler.storeCreate, Handler.parse_of_staticShape hs, hk, Except.toOption]

end Asked

section Step

variable {h : Handler} {tick : Tick} {s : Server} (filter : KnownGroups)

theorem filterStep_server (s : Server) (groupId : Bytes) (stage : FilterStage) :
    (filterStep filter s groupId stage).1 = s ∨
      (filterStep filter s groupId stage).1 = s.insert groupId := by
  cases stage with
  | probe =>
    simp only [filterStep]
    split
    · exact .inl rfl
    · cases filter <;> exact .inl rfl
  | ask =>
    simp only [filterStep]
    split <;> exact .inl rfl
  | insert => exact .inr rfl

@[simp] theorem filterStep_store (s : Server) (groupId : Bytes) (stage : FilterStage) :
    (filterStep filter s groupId stage).1.store = s.store := by
  rcases filterStep_server filter s groupId stage with hs | hs <;> rw [hs]
  rfl

theorem filterStep_known (s : Server) (groupId : Bytes) (stage : FilterStage) :
    (∀ other, s.known other = true → (filterStep filter s groupId stage).1.known other = true) ∧
      ((filterStep filter s groupId stage).2 = .known →
        (filterStep filter s groupId stage).1.known groupId = true) := by
  cases stage with
  | probe =>
    simp only [filterStep]
    split
    · rename_i hk
      exact ⟨fun _ hk => hk, fun _ => hk⟩
    · cases filter <;> exact ⟨fun _ hk => hk, fun hf => (nomatch hf)⟩
  | ask =>
    simp only [filterStep]
    split <;> exact ⟨fun _ hk => hk, fun hf => (nomatch hf)⟩
  | insert =>
    simp only [filterStep, Server.insert]
    refine ⟨fun other hk => ?_, fun _ => Function.update_self ..⟩
    by_cases ho : other = groupId
    · rw [ho, Function.update_self]
    · rwa [Function.update_of_ne ho]

/-- The steps of the outer requests leave the store alone, up to the checks of their records. -/
structure OuterStep (h : Handler) (s : Server) (c : Call) (next : Server × Call) : Prop where
  store : next.1.store = s.store
  known : ∀ groupId, s.known groupId = true → next.1.known groupId = true
  request : next.2.request = c.request
  stage : next.2.Idle ∨ (∃ r record keys now, next.2 = .creating r record keys .auth ∧
      h.checkCreate now r.body = .ok (record, keys)) ∨
    ∃ r pass clock, next.2 = .submitting r pass (.filter .probe) ∧ h.Passed clock r.body pass

theorem OuterStep.idle {c c' : Call} (hr : c'.request = c.request) (hi : c'.Idle) :
    OuterStep h s c (s, c') := ⟨rfl, fun _ hk => hk, hr, .inl hi⟩

theorem outer_createGroup (h : Handler) (tick : Tick) (s : Server)
    (r : Incoming Protocol.CreateGroupRequest) :
    OuterStep h s (.start (.createGroup r)) (Call.step h tick s (.start (.createGroup r))) := by
  simp only [Call.step]
  split
  · exact .idle rfl trivial
  · split
    · exact .idle rfl trivial
    · rename_i hok
      exact ⟨rfl, fun _ hk => hk, rfl, .inr (.inl ⟨_, _, _, _, rfl, hok⟩)⟩

theorem outer_submit (h : Handler) (tick : Tick) (s : Server)
    (r : Incoming Protocol.SubmitRequest) :
    OuterStep h s (.start (.submit r)) (Call.step h tick s (.start (.submit r))) := by
  simp only [Call.step]
  split
  · exact .idle rfl trivial
  · split
    · exact .idle rfl trivial
    · rename_i hok
      exact ⟨rfl, fun _ hk => hk, rfl,
        .inr (.inr ⟨_, _, _, rfl, Handler.checkStaticShape_eq_ok.mp hok⟩)⟩

theorem outer_startSubscribe (h : Handler) (s : Server) (r : Incoming Protocol.SubscribeRequest) :
    OuterStep h s (.start (.subscribe r)) (s, startSubscribe s r) := by
  unfold startSubscribe
  split
  · exact .idle rfl trivial
  · split
    · exact .idle rfl trivial
    · split <;> exact .idle rfl trivial
    · exact .idle rfl trivial

theorem outer_subscribeStep (h : Handler) (s : Server) (r : Incoming Protocol.SubscribeRequest)
    (wanted : Protocol.Subscription) (stage : SubscribeStage) :
    OuterStep h s (.subscribing r wanted stage) (subscribeStep h s r wanted stage) := by
  cases stage with
  | filter stage =>
    have hs := filterStep_store h.knownGroups s wanted.groupId stage
    have hk := filterStep_known h.knownGroups s wanted.groupId stage
    simp only [subscribeStep]
    split <;> rename_i hf <;> rw [hf] at hs hk <;> exact ⟨hs, hk.1, rfl, .inl trivial⟩
  | key =>
    simp only [subscribeStep]
    split
    · split <;> exact .idle rfl trivial
    · exact .idle rfl trivial
  | snapshot =>
    simp only [subscribeStep]
    split <;> exact .idle rfl trivial
  | register snapshot =>
    simp only [subscribeStep]
    split
    · exact .idle rfl trivial
    · split <;> exact ⟨rfl, fun _ hk => hk, rfl, .inl trivial⟩
  | finished ack => exact .idle rfl trivial

theorem outer_unsubscribeStep (h : Handler) (s : Server)
    (r : Incoming Protocol.UnsubscribeRequest) :
    OuterStep h s (.start (.unsubscribe r)) (unsubscribeStep s r) := by
  unfold unsubscribeStep
  split
  · exact .idle rfl trivial
  · split
    · exact .idle rfl trivial
    · split <;> exact ⟨rfl, fun _ hk => hk, rfl, .inl trivial⟩

theorem outer_deliverStep (h : Handler) (tick : Tick) (s : Server) (push : Option Push) :
    OuterStep h s (.delivering push) (deliverStep tick s push) := by
  cases push with
  | none =>
    simp only [deliverStep]
    split <;> exact ⟨rfl, fun _ hk => hk, rfl, .inl trivial⟩
  | some push => exact ⟨rfl, fun _ hk => hk, rfl, .inl trivial⟩

variable {c : Call}

theorem outer_step (h : Handler) (tick : Tick) (s : Server) (hc : c.Outer) :
    OuterStep h s c (c.step h tick s) := by
  cases c with
  | start request =>
    cases request with
    | createGroup r => exact outer_createGroup h tick s r
    | submit r => exact outer_submit h tick s r
    | subscribe r => exact outer_startSubscribe h s r
    | unsubscribe r => exact outer_unsubscribeStep h s r
    | closeGroup => cases hc
    | deliver => exact .idle rfl trivial
  | creating | submitting | closing => cases hc
  | subscribing r wanted stage => exact outer_subscribeStep h s r wanted stage
  | delivering push => exact outer_deliverStep h tick s push
  | refused | unsubscribed => exact .idle rfl trivial

variable (c : Call)

theorem Call.outer_or : c.Outer ∨ (∃ groupId, c = .start (.closeGroup groupId)) ∨
    (∃ groupId call, c = .closing groupId call) ∨
    (∃ r record keys stage, c = .creating r record keys stage) ∨
    ∃ r pass stage, c = .submitting r pass stage := by
  cases c with
  | start request =>
    cases request with
    | closeGroup groupId => exact .inr (.inl ⟨groupId, rfl⟩)
    | createGroup | submit | subscribe | unsubscribe | deliver => exact .inl trivial
  | closing groupId call => exact .inr (.inr (.inl ⟨groupId, call, rfl⟩))
  | creating r record keys stage => exact .inr (.inr (.inr (.inl ⟨r, record, keys, stage, rfl⟩)))
  | submitting r pass stage => exact .inr (.inr (.inr (.inr ⟨r, pass, stage, rfl⟩)))
  | refused | subscribing | unsubscribed | delivering => exact .inl trivial

theorem storeCall_submitOutcome (r : Incoming Protocol.SubmitRequest) (pass : Pass)
    (records : List KeyedRecord) (call : Store.Call) :
    (Call.submitting r pass (submitOutcome h r.body records call)).storeCall h = call := by
  cases call <;> rfl

variable {pass : Pass}

theorem valid_submitOutcome {r : Incoming Protocol.SubmitRequest} {records : List KeyedRecord}
    (hc : Cleared h r pass records) (call : Store.Call) :
    (submitOutcome h r.body records call).Valid h r pass := by
  cases call <;> exact hc

theorem storeCall_createOutcome (r : Incoming Protocol.CreateGroupRequest) (record : CheckedRecord)
    (keys : Option Protocol.EpochKeyDelivery) (call : Store.Call) :
    (Call.creating r record keys (createOutcome call)).storeCall h = call := by
  unfold createOutcome
  split
  · split <;> rfl
  · rfl

variable {r : Incoming Protocol.CreateGroupRequest} {record : CheckedRecord}
  {keys : Option Protocol.EpochKeyDelivery} {next : Server × Call} {stage : SubmitStage}

theorem valid_createOutcome (hc : ClearedCommit h r record) (call : Store.Call) :
    (createOutcome call).Valid h r record := by
  unfold createOutcome
  split
  · split <;> exact hc
  · exact hc

theorem valid_submitStep {r : Incoming Protocol.SubmitRequest}
    (hp : ∃ clock, h.Passed clock r.body pass) (hv : stage.Valid h r pass) :
    (submitStep h tick s r pass stage).2.Valid h := by
  cases stage with
  | filter stage =>
    simp only [submitStep]
    split
    · exact ⟨hp, trivial⟩
    · exact ⟨hp, rfl⟩
    · trivial
  | key seen done todo =>
    cases todo with
    | nil => exact ⟨hp, by simpa [SubmitStage.Valid] using hv⟩
    | cons record todo =>
      simp only [submitStep]
      split
      · trivial
      · exact ⟨hp, by simpa [SubmitStage.Valid] using hv⟩
  | auth records =>
    simp only [submitStep]
    split
    · trivial
    · rename_i hok
      have ha := forEach_unit_eq_ok.mp ⟨_, hok⟩
      exact ⟨hp, hv, fun record hr => by simpa using failIf_eq_ok.mp (ha record hr)⟩
  | hash records =>
    simp only [submitStep]
    split
    · trivial
    · rename_i hok
      exact ⟨hp, hv.1, hv.2, forEach_unit_eq_ok.mp ⟨_, hok⟩⟩
  | columns records =>
    simp only [submitStep]
    split
    · trivial
    · rename_i columns hok
      refine ⟨hp, hv.1, hv.2.1, hv.2.2, ?_⟩
      obtain ⟨clock, hp⟩ := hp
      rw [storeSubmit_of_passed hp, ← hv.1, filterMap_of_storeRecords hok, hok]
  | storing records call => exact ⟨hp, valid_submitOutcome hv _⟩
  | publishing | finished => exact ⟨hp, hv⟩

theorem valid_createStep {stage : CreateStage}
    (hc : ∃ now, h.checkCreate now r.body = .ok (record, keys)) (hv : stage.Valid h r record) :
    (createStep h tick s r record keys stage).2.Valid h := by
  cases stage with
  | auth =>
    simp only [createStep]
    split
    · rename_i hok
      exact ⟨hc, hok⟩
    · trivial
  | hash =>
    simp only [createStep]
    split
    · trivial
    · rename_i hok
      exact ⟨hc, hv, hok⟩
  | transaction =>
    simp only [createStep]
    split
    · trivial
    · refine ⟨hc, valid_createOutcome ⟨hv.1, hv.2, ?_⟩ _⟩
      obtain ⟨now, hc⟩ := hc
      rw [storeCreate_of_checkCreate hc]
  | insert | finished => exact ⟨hc, hv⟩

theorem OuterStep.valid (ho : OuterStep h s c next) : next.2.Valid h := by
  obtain ⟨s', c'⟩ := next
  rcases ho.stage with hi | ⟨r, record, keys, now, rfl, hc⟩ | ⟨r, pass, clock, rfl, hp⟩
  · cases c' <;> trivial
  · exact ⟨⟨now, hc⟩, trivial⟩
  · exact ⟨⟨clock, hp⟩, trivial⟩

theorem valid_step (hv : c.Valid h) : (c.step h tick s).2.Valid h := by
  rcases c.outer_or with ho | ⟨_, rfl⟩ | ⟨_, _, rfl⟩ | ⟨_, _, _, _, rfl⟩ | ⟨_, _, _, rfl⟩
  · exact (outer_step h tick s ho).valid
  · trivial
  · trivial
  · exact valid_createStep hv.1 hv.2
  · exact valid_submitStep hv.1 hv.2

/-- The clock reading of the step of the store inside a step of the server. -/
def storeTick (h : Handler) (tick : Tick) : Call → Option Time
  | .start (.closeGroup _) => some (tick.clock 0)
  | .creating _ record _ .transaction => (h.storeRecord record).toOption.map fun _ => tick.clock 0
  | .submitting _ _ (.storing _ _) => some (tick.clock 0)
  | _ => none

theorem stutter_submitStep {r : Incoming Protocol.SubmitRequest}
    (hp : ∃ clock, h.Passed clock r.body pass) (hv : stage.Valid h r pass)
    (ht : storeTick h tick (.submitting r pass stage) = none) :
    (submitStep h tick s r pass stage).1.store = s.store ∧
      (submitStep h tick s r pass stage).2.storeCall h =
        (Call.submitting r pass stage).storeCall h := by
  cases stage with
  | filter stage =>
    have hs := filterStep_store h.knownGroups s r.body.groupId stage
    simp only [submitStep]
    split <;> rename_i hf <;> rw [hf] at hs <;> exact ⟨hs, rfl⟩
  | key seen done todo =>
    cases todo with
    | nil => exact ⟨rfl, rfl⟩
    | cons record todo =>
      simp only [submitStep]
      split <;> exact ⟨rfl, rfl⟩
  | auth | hash =>
    simp only [submitStep]
    split <;> exact ⟨rfl, rfl⟩
  | columns records =>
    simp only [submitStep]
    split
    · exact ⟨rfl, rfl⟩
    · rename_i columns hok
      obtain ⟨clock, hp⟩ := hp
      refine ⟨rfl, ?_⟩
      simp only [Call.storeCall, Call.request, Handler.storeRequest, storeSubmit_of_passed hp,
        ← hv.1, filterMap_of_storeRecords hok]
  | storing => cases ht
  | publishing | finished => exact ⟨rfl, rfl⟩

theorem stutter_createStep {stage : CreateStage}
    (ht : storeTick h tick (.creating r record keys stage) = none) :
    (createStep h tick s r record keys stage).1.store = s.store ∧
      (createStep h tick s r record keys stage).2.storeCall h =
        (Call.creating r record keys stage).storeCall h := by
  cases stage with
  | auth | hash =>
    simp only [createStep]
    split <;> exact ⟨rfl, rfl⟩
  | transaction =>
    simp only [createStep]
    split
    · exact ⟨rfl, rfl⟩
    · rename_i hok
      simp [storeTick, hok, Except.toOption] at ht
  | insert | finished => exact ⟨rfl, rfl⟩

theorem OuterStep.storeCall (ho : OuterStep h s c next) :
    next.2.storeCall h = .start (h.storeRequest c.request) := by
  obtain ⟨s', c'⟩ := next
  rw [← ho.request]
  rcases ho.stage with hi | ⟨_, _, _, _, rfl, -⟩ | ⟨_, _, _, rfl, -⟩
  · exact hi.storeCall
  · rfl
  · rfl

theorem stutter_step (hv : c.Valid h) (ht : storeTick h tick c = none) :
    (c.step h tick s).1.store = s.store ∧ (c.step h tick s).2.storeCall h = c.storeCall h := by
  rcases c.outer_or with ho | ⟨_, rfl⟩ | ⟨_, _, rfl⟩ | ⟨_, _, _, _, rfl⟩ | ⟨_, _, _, rfl⟩
  · have hs := outer_step h tick s ho
    exact ⟨hs.store, hs.storeCall.trans ho.storeCall.symm⟩
  · cases ht
  · exact ⟨rfl, rfl⟩
  · exact stutter_createStep ht
  · exact stutter_submitStep hv.1 hv.2 ht

/-- Any other step of the server is the store's. -/
theorem step_store {now : Time} (hv : c.Valid h) (ht : storeTick h tick c = some now) :
    (c.storeCall h).step h.store now s.store =
      ((c.step h tick s).1.store, (c.step h tick s).2.storeCall h) := by
  unfold storeTick at ht
  split at ht
  · cases ht
    rfl
  · rename_i r record keys
    obtain ⟨⟨_, hc⟩, -⟩ := hv
    obtain ⟨columns, hok, rfl⟩ := Option.map_eq_some_iff.mp ht
    have hcl : (Call.creating r record keys .transaction).storeCall h =
        .start (.createGroup ⟨r.body.groupId, some columns, r.body.bootstrapWriteKey,
          deliveryOf keys⟩) := by
      simp only [Call.storeCall, Call.request, Handler.storeRequest, storeCreate_of_checkCreate hc,
        hok]
    rw [hcl, Call.step]
    simp only [createStep, toOption_eq_some.mp hok, storeCall_createOutcome]
  · cases ht
    simp only [Call.step, submitStep, storeCall_submitOutcome]
    rfl
  · cases ht

theorem request_step : (c.step h tick s).2.request = c.request := by
  rcases c.outer_or with ho | ⟨_, rfl⟩ | ⟨_, _, rfl⟩ | ⟨_, _, _, stage, rfl⟩ | ⟨_, _, stage, rfl⟩
  · exact (outer_step h tick s ho).request
  · rfl
  · rfl
  · cases stage with
    | auth | hash | transaction =>
      simp only [Call.step, createStep]
      split <;> rfl
    | insert | finished => rfl
  · cases stage with
    | filter | auth | hash | columns =>
      simp only [Call.step, submitStep]
      split <;> rfl
    | key seen done todo =>
      cases todo with
      | nil => rfl
      | cons record todo =>
        simp only [Call.step, submitStep]
        split <;> rfl
    | storing | publishing | finished => rfl

end Step

section Run

variable (h : Handler)

def refinement : Refinement (machine h) (Store.machine h.store) where
  shared := Server.store
  call := Call.storeCall h
  emit tick _ c := storeTick h tick c
  valid := Call.Valid h
  keeps _ _ c hv := valid_step c hv
  stutter _ _ c hv ht := stutter_step c hv ht
  step _ _ c _ hv ht := step_store c hv ht

variable {ι : Type*} [DecidableEq ι] (s : Server) (requests : ι → Request)

def storeSched (sched : List (ι × Tick)) : List (ι × Time) :=
  (refinement h).project (initial s requests) sched

theorem storeSched_append (p q : List (ι × Tick)) :
    ∃ rest, storeSched h s requests (p ++ q) = storeSched h s requests p ++ rest :=
  ⟨_, Refinement.project_append ..⟩

theorem runFrom_store (sched : List (ι × Tick)) :
    (runFrom h s requests sched).map Server.store (Call.storeCall h) =
      Store.runFrom h.store s.store (fun i => h.storeRequest (requests i))
        (storeSched h s requests sched) :=
  Refinement.map_exec (R := refinement h) (w := initial s requests) (fun _ => trivial) sched

variable (registry : Option Subscriptions) (sched : List (ι × Tick)) (i : ι)

theorem run_valid : ((run h registry requests sched).calls i).Valid h :=
  Refinement.valid_exec (R := refinement h) (w := initial _ requests) (fun _ => trivial) sched i

theorem run_request : ((run h registry requests sched).calls i).request = requests i :=
  Machine.exec_calls (A := fun i c => c.request = requests i)
    (fun _ _ _ c hc => (request_step c).trans hc) (fun _ => rfl) sched i

def storeRun (sched : List (ι × Tick)) : World MemoryStore Store.Call ι :=
  Store.run h.store (fun i => h.storeRequest (requests i))
    (storeSched h (.empty registry) requests sched)

theorem run_store :
    (run h registry requests sched).shared.store = (storeRun h requests registry sched).shared :=
  congrArg World.shared (runFrom_store h (.empty registry) requests sched)

theorem run_storeCall : ((run h registry requests sched).calls i).storeCall h =
      (storeRun h requests registry sched).calls i :=
  congrFun (congrArg World.calls (runFrom_store h (.empty registry) requests sched)) i

theorem storeRun_request :
    ((storeRun h requests registry sched).calls i).request = h.storeRequest (requests i) :=
  runFrom_request ..

theorem storeRun_history : History h.store .empty (storeRun h requests registry sched) :=
  history each_sound_empty ..

theorem storeRun_append (p q : List (ι × Tick)) : ∃ rest,
    storeRun h requests registry (p ++ q) = Store.run h.store (fun i => h.storeRequest (requests i))
      (storeSched h (.empty registry) requests p ++ rest) := by
  obtain ⟨rest, hr⟩ := storeSched_append h (.empty registry) requests p q
  exact ⟨rest, by rw [storeRun, hr]⟩

variable {h requests registry} in
theorem mem_run_log {sched : List (ι × Tick)} {groupId : Bytes} {r : Record} :
    r ∈ (run h registry requests sched).shared.store.log groupId ↔
      ∃ i, (((run h registry requests sched).calls i).storeCall h).groupId = groupId ∧
        r ∈ (((run h registry requests sched).calls i).storeCall h).stored := by
  simp only [run_store, run_storeCall]
  exact mem_log_iff ..

variable {h requests registry} in
theorem storeRun_stored {p q : List (ι × Tick)} {i : ι} {r : Record}
    (hr : r ∈ ((storeRun h requests registry p).calls i).stored) :
    r ∈ ((storeRun h requests registry (p ++ q)).calls i).stored := by
  obtain ⟨rest, hrs⟩ := storeRun_append h requests registry p q
  rw [hrs]
  exact runFrom_stored each_sound_empty _ _ rest hr

end Run

end MessageServer.Api
