import MessageServer.Api.Reads
import MessageServer.Api.Rendezvous

/-! # The floor of a refusal

Every handler reads the clock when it starts and pads a refusal to a floor after
that reading: it sleeps the rest, or leaves it to a caller that sends the answer
later.
-/

namespace MessageServer

namespace Protocol

structure RendezvousRegisterRequest where
  kind : ℕ
  cardXwingPub : Bytes
  algId : ℕ
  rendezvousId : Bytes
  depositVerifyPub : Bytes
  collectVerifyPub : Bytes
  publicCt : Bytes
  registerAuth : Bytes

structure RendezvousRegisterResponse where
  expireTimeMs : ℕ
  mailboxDepth : ℕ

end Protocol

namespace Api

open Store

/-- Where a handler stands: the time, how long each thing to come takes, the pads so far, and the
rest of the floor that was left to the caller. -/
structure Moment where
  now : Time
  delays : ℕ → ℕ
  pads : ℕ := 0
  rest : Option Time := none

abbrev Paced := StateM Moment

def Moment.elapse (m : Moment) (least : ℕ) : Moment :=
  { m with now := m.now + least + m.delays 0, delays := fun k => m.delays (k + 1) }

def Moment.reading (m : Moment) : Time := (m.elapse 0).now

def readNow : Paced Time := fun m => (m.reading, m.elapse 0)

/-- A timer, which fires at its time or later. -/
def sleep (wait : Time) : Paced Unit := fun m => ((), m.elapse wait.toNat)

structure Pacing where
  rejectFloor : Time
  /-- Whether the caller's context carries a deferral. -/
  deferring : Bool

/-- The rest of the floor: slept here, or left to a caller that answers later. -/
def pad (p : Pacing) (started : Time) : Paced Unit := do
  modify fun m => { m with pads := m.pads + 1 }
  if p.rejectFloor ≤ 0 then return
  let now ← readNow
  let remaining := p.rejectFloor - (now - started)
  if p.deferring then modify fun m => { m with rest := some remaining }
  else sleep remaining

inductive Body
  | submit (results : List Protocol.SubmitResult)
  | createGroup (response : Protocol.CreateGroupResponse)
  | fetch (response : Protocol.FetchResponse)
  | subscribe (ack : Protocol.SubscriptionAck)
  | register (response : Protocol.RendezvousRegisterResponse)
  | rendezvous (response : RendezvousResponse)

structure Reply where
  reason : Reason
  body : Option Body := none

def Body.reasons : Body → List Reason
  | .submit results => results.map (·.reason)
  | .subscribe ack => [ack.reason]
  | _ => []

def Reply.reasons (reply : Reply) : List Reason :=
  reply.reason :: (reply.body.map Body.reasons).getD []

/-- An answer that refuses, on its envelope or on a record, for another reason than a fault. -/
def Reply.Refused (reply : Reply) : Prop :=
  ∃ reason ∈ reply.reasons, accepted reason = false ∧ reason ≠ .internal

/-- What a handler is handed; a connection, a request or an operation may be missing. -/
structure Entry (α : Type) where
  conn : Option Connection
  request : Option α
  op : Option ℕ
  front : FrontChecks

section Handlers

variable (p : Pacing)

def refuse (started : Time) (reason : Reason) : Paced Reply := do
  pad p started
  return ⟨reason, none⟩

/-- How every handler starts, once it has read the clock. -/
def entered {α : Type} (e : Entry α) (run : Connection → α → ℕ → Time → Paced Reply)
    (started : Time) : Paced Reply :=
  match e.conn, e.request, e.op with
  | none, _, _ => return ⟨.internal, none⟩
  | some _, none, _ => return ⟨.rejected, none⟩
  | some _, some _, none => return ⟨.internal, none⟩
  | some conn, some request, some op =>
    if frontChecks e.front ≠ .ok then refuse p started (frontChecks e.front)
    else run conn request op started

def enter {α : Type} (e : Entry α) (run : Connection → α → ℕ → Time → Paced Reply) : Paced Reply :=
  readNow >>= entered p e run

/-- What the filter, the store and the clock answer one submission. -/
structure SubmitCalls where
  clock : ℕ → Time
  contains : Except Unit Bool
  writeKey : ℕ → Option Bytes
  submit : List Record → Except Unit (List SubmitResult)

def Handler.submitStages (h : Handler) (calls : SubmitCalls) (conn : Connection)
    (request : Protocol.SubmitRequest) : Except Refusal (List SubmitResult) := do
  let pass ← h.checkStaticShape calls.clock request
  let known ← calls.contains.mapError fun _ => ⟨.internal, none⟩
  failIf (¬ known) ⟨.rejected, none⟩
  let records ← forEach (fun _ record =>
    (orFail (calls.writeKey record.parsed.header.epoch) .rejected).map fun key => ⟨record, key⟩) 0
    pass.records
  let _ ← h.checkWriteAuth conn records
  let _ ← h.checkBodyHash records
  let columns ← h.storeRecords records
  (calls.submit columns).mapError fun _ => ⟨.internal, none⟩

def everyResultAccepted (results : List Protocol.SubmitResult) : Bool :=
  results.all fun result => accepted result.reason

def Handler.pacedSubmit (h : Handler) (calls : SubmitCalls) (e : Entry Protocol.SubmitRequest) :
    Paced Reply :=
  enter p e fun conn request _ started =>
    match h.submitStages calls conn request with
    | .error refused => do
      pad p started
      if request.records.length = 0 then return ⟨refused.reason, none⟩
      else return ⟨.ok, some (.submit (refuseBatch request.records.length refused))⟩
    | .ok stored => do
      let results := stored.map (h.resultOf request.groupId)
      if !everyResultAccepted results then pad p started
      return ⟨.ok, some (.submit results)⟩

def Handler.pacedCreateGroup (h : Handler)
    (created : CreateGroupRequest → Except Unit CreateGroupResult)
    (e : Entry Protocol.CreateGroupRequest) : Paced Reply :=
  enter p e fun conn request _ started => do
    let now ← readNow
    match h.checkCreate now request with
    | .error reason => refuse p started reason
    | .ok (record, keys) =>
      if !h.layer.verifyWriteAuth request.bootstrapWriteKey conn.serverNonce record.parsed then
        refuse p started .rejected
      else
        match h.bodyHash record, h.storeRecord record with
        | .error reason, _ => refuse p started reason
        | .ok _, .error _ => return ⟨.internal, none⟩
        | .ok _, .ok columns =>
          match created ⟨request.groupId, some columns, request.bootstrapWriteKey,
              deliveryOf keys⟩ with
          | .error _ => return ⟨.internal, none⟩
          | .ok result =>
            if !accepted result.reason then refuse p started result.reason
            else return ⟨result.reason, some (.createGroup
              ⟨result.currentEpoch, result.recordId, result.applied⟩)⟩

/-- What the filter, the store and the registry answer one fetch or subscription. -/
structure ReadCalls where
  contains : Except Unit Bool
  readKey : Option Bytes
  fetch : FetchRequest → Except Unit FetchResult
  subscriptions : Bool
  subscribe : ℕ → Bool

/-- Checks 6 and 7 of the read path, against the key the store answered. -/
def Handler.readAuth (h : Handler) (calls : ReadCalls) (conn : Connection) (op : ℕ)
    (canonical : Option Bytes) (reqAuth : Bytes) : Bool :=
  match calls.readKey, canonical with
  | some readKey, some canonical =>
    h.layer.verifyRequestAuth readKey conn.serverNonce op canonical reqAuth
  | _, _ => false

def Reader.pacedFetch (h : Reader) (calls : ReadCalls) (e : Entry Protocol.FetchRequest) :
    Paced Reply :=
  enter p e fun conn request op started =>
    if request.groupId.length ≠ groupIdBytes ∨ request.reqAuth.length = 0 then
      refuse p started .rejected
    else
      match calls.contains with
      | .error _ => refuse p started .internal
      | .ok known =>
        if !known || !h.readAuth calls conn op (h.marshalFetch { request with reqAuth := [] })
            request.reqAuth then refuse p started .rejected
        else
          match calls.fetch {
              groupId := request.groupId
              sinceRecordId := request.sinceRecordId
              limit := h.fetchLimit request.limit
              headsOnly := request.headsOnly
              classMask := request.classMask
              readEpoch := request.readEpoch } with
          | .error _ => refuse p started .rejected
          | .ok result =>
            match result.records.mapM fun record =>
                rebuildRecord h.layer request.groupId record request.headsOnly with
            | none => return ⟨.internal, none⟩
            | some records => return ⟨.ok, some (.fetch {
                records := records
                nextRecordId := result.nextRecordId
                highWaterRecordId := result.highWaterRecordId
                complete := result.complete })⟩

def Handler.pacedSubscribe (h : Handler) (calls : ReadCalls)
    (e : Entry Protocol.SubscribeRequest) : Paced Reply :=
  enter p e fun conn request op started =>
    if !calls.subscriptions then return ⟨.internal, none⟩
    else
      match request.subscriptions with
      | [wanted] =>
        if wanted.groupId.length ≠ groupIdBytes ∨ request.reqAuth.length = 0 then
          refuse p started .rejected
        else
          match calls.contains with
          | .error _ => return ⟨.internal, none⟩
          | .ok known =>
            if !known || !h.readAuth calls conn op (canonicalRequestBytes h request)
                request.reqAuth then refuse p started .rejected
            else
              match calls.fetch {
                  groupId := wanted.groupId
                  sinceRecordId := wanted.sinceRecordId
                  limit := 1
                  headsOnly := true
                  classMask := 0
                  readEpoch := request.readEpoch } with
              | .error _ => refuse p started .rejected
              | .ok result =>
                if !calls.subscribe result.highWaterRecordId then refuse p started .rejected
                else return ⟨.ok, some (.subscribe
                  ⟨wanted.groupId, result.highWaterRecordId, .ok⟩)⟩
      | _ => refuse p started .rejected

/-- The answer to a write, once the store has answered it. -/
def written {α : Type} (started : Time) (result : Except LinkBoxError α)
    (reason : α → Reason) (body : α → Option Body) : Paced Reply :=
  match result with
  | .error _ => return ⟨.internal, none⟩
  | .ok a => if reason a ≠ .ok then refuse p started (reason a) else return ⟨.ok, body a⟩

/-- What the store and the registry answer one request of an arm. -/
structure RendezvousCalls where
  linkBox : Except LinkBoxError LinkBox
  subscriptions : Bool
  subscribeRendezvous : Bool
  deposited : Except LinkBoxError LinkBoxDeposited
  collected : Except LinkBoxError LinkBoxCollected
  retired : Except LinkBoxError LinkBoxRetired

def pacedWrite (calls : RendezvousCalls) (box : LinkBox) (started : Time) :
    RendezvousRequest → Paced Reply
  | .openBox _ => return ⟨.ok, some (.rendezvous (.openBox {
      algId := linkBoxAlgId
      depositBytes := linkDepositBytes
      publicCt := box.publicCt
      depositSizes := [linkDepositBytes] }))⟩
  | .deposit _ => written p started calls.deposited (·.reason) fun deposited =>
      (depositedAnswer deposited).body.map .rendezvous
  | .collect request =>
    if request.subscribe && calls.subscriptions && !calls.subscribeRendezvous then
      refuse p started .cardRateLimited
    else written p started calls.collected (·.reason) fun collected =>
      (collectedAnswer (.ok collected)).body.map .rendezvous
  | .retire _ => written p started calls.retired (·.reason) fun retired =>
      some (.rendezvous (.retire ⟨retired.discardedDeposits⟩))

def RendezvousArms.paced (arms : RendezvousArms) (calls : RendezvousCalls)
    (e : Entry RendezvousRequest) : Paced Reply :=
  enter p e fun conn request _ started =>
    if !{ arms with rejectFloor := p.rejectFloor }.rendezvousServed then return ⟨.internal, none⟩
    else if !request.shaped then refuse p started .rejected
    else do
      let now ← readNow
      match calls.linkBox with
      | .error .unknown => refuse p started .cardRetired
      | .error _ => return ⟨.internal, none⟩
      | .ok box =>
        if !box.live now then refuse p started .cardRetired
        else if !arms.verify (request.pinned box) conn.serverNonce request then
          refuse p started .cardRetired
        else pacedWrite p calls box started request

structure Registrar extends RendezvousArms where
  keyIsAcceptable : Bytes → Bool
  verifyRegister : (nonce : Bytes) → Protocol.RendezvousRegisterRequest → Bool
  linkBoxLiveCap : ℕ

def Registrar.linkBoxRegistrationShaped (arms : Registrar)
    (request : Protocol.RendezvousRegisterRequest) : Bool :=
  request.kind = linkBoxKind && request.cardXwingPub.length = 0 &&
    request.algId = linkBoxAlgId &&
    request.rendezvousId.length = rendezvousIdBytes &&
    request.depositVerifyPub.length = verifyPubBytes &&
    request.collectVerifyPub.length = verifyPubBytes &&
    request.publicCt.length = linkCardBytes &&
    arms.keyIsAcceptable request.depositVerifyPub && arms.keyIsAcceptable request.collectVerifyPub

structure RegisterCalls where
  linkBox : Except LinkBoxError LinkBox
  liveLinkBoxes : Time → Except Unit ℕ
  registerLinkBox : LinkBoxRegistration → Time → Except LinkBoxError LinkBoxRegistered

def RegisterCalls.write (calls : RegisterCalls) (started now : Time)
    (request : Protocol.RendezvousRegisterRequest) : Paced Reply :=
  written p started (calls.registerLinkBox ⟨request.rendezvousId, request.depositVerifyPub,
    request.collectVerifyPub, request.publicCt⟩ now) (·.reason) fun registered =>
      some (.register ⟨(registered.expireTime.map unixMilli).getD 0, registered.mailboxDepth⟩)

def Registrar.pacedRegister (arms : Registrar) (calls : RegisterCalls)
    (e : Entry Protocol.RendezvousRegisterRequest) : Paced Reply :=
  enter p e fun conn request _ started =>
    if !{ arms.toRendezvousArms with rejectFloor := p.rejectFloor }.rendezvousServed then
      return ⟨.internal, none⟩
    else if !arms.linkBoxRegistrationShaped request then refuse p started .rejected
    else if !arms.verifyRegister conn.serverNonce request then refuse p started .rejected
    else do
      let now ← readNow
      match calls.linkBox with
      | .ok _ => calls.write p started now request
      | .error .unknown =>
        match calls.liveLinkBoxes now with
        | .error _ => refuse p started .cardRateLimited
        | .ok live =>
          if arms.linkBoxLiveCap ≤ live then refuse p started .cardRateLimited
          else calls.write p started now request
      | .error _ => return ⟨.internal, none⟩

inductive Arm
  | submit (h : Handler) (calls : SubmitCalls) (e : Entry Protocol.SubmitRequest)
  | createGroup (h : Handler)
      (created : CreateGroupRequest → Except Unit CreateGroupResult)
      (e : Entry Protocol.CreateGroupRequest)
  | fetch (h : Reader) (calls : ReadCalls) (e : Entry Protocol.FetchRequest)
  | subscribe (h : Handler) (calls : ReadCalls) (e : Entry Protocol.SubscribeRequest)
  | register (arms : Registrar) (calls : RegisterCalls)
      (e : Entry Protocol.RendezvousRegisterRequest)
  | rendezvous (arms : RendezvousArms) (calls : RendezvousCalls) (e : Entry RendezvousRequest)

def Arm.handle : Arm → Paced Reply
  | .submit h calls e => h.pacedSubmit p calls e
  | .createGroup h created e => h.pacedCreateGroup p created e
  | .fetch h calls e => h.pacedFetch p calls e
  | .subscribe h calls e => h.pacedSubscribe p calls e
  | .register arms calls e => arms.pacedRegister p calls e
  | .rendezvous arms calls e => arms.paced p calls e

def Arm.Requested : Arm → Prop
  | .submit _ _ e => e.request.isSome
  | .createGroup _ _ e => e.request.isSome
  | .fetch _ _ e => e.request.isSome
  | .subscribe _ _ e => e.request.isSome
  | .register _ _ e => e.request.isSome
  | .rendezvous _ _ e => e.request.isSome

/-- An answer sent once its rest has passed, unless the peer closes while it waits. -/
def answerLater (closes : Bool) (wait : Time) : Paced (Option Time) := do
  let _ ← readNow
  if closes then return none
  sleep wait
  return some (← readNow)

def sendNow : Paced (Option Time) := do return some (← readNow)

/-- When an answer is handed to the transport: at once, or after what the handler left of its
floor. -/
def handOver (closes : Bool) : Paced (Option Time) := fun m =>
  match m.rest with
  | none => sendNow m
  | some wait => if 0 < wait then answerLater closes wait m else sendNow m

/-- One request, from the handler's start until its answer is handed to the transport. -/
def work (closes : Bool) (arm : Arm) : Paced (Reply × Option Time) := do
  modify fun m => { m with rest := none }
  let reply ← arm.handle p
  return (reply, ← handOver closes)

end Handlers

section Floor

variable {p : Pacing} {started : Time}

/-- A handler whose refusals are padded once, and to the floor. -/
def Floored (p : Pacing) (started : Time) (handler : Paced Reply) : Prop :=
  ∀ m : Moment, m.rest = none → (handler m).1.Refused → (handler m).2.pads = m.pads + 1 ∧
      started + p.rejectFloor ≤ (handler m).2.now + ((handler m).2.rest.getD 0)

theorem floor_le (started floor now wait : ℤ) (h : floor - (now - started) ≤ wait) :
    started + floor ≤ now + wait := by
  omega

theorem pad_floor (hf : 0 < p.rejectFloor) (m : Moment) (hr : m.rest = none) :
    (pad p started m).2.pads = m.pads + 1 ∧
      started + p.rejectFloor ≤ (pad p started m).2.now + ((pad p started m).2.rest.getD 0) := by
  have hle : ¬ p.rejectFloor ≤ 0 := Int.not_le.mpr hf
  cases hd : p.deferring with
  | true =>
    simp only [pad, hle, hd, bind, StateT.bind, modify, modifyGet, MonadStateOf.modifyGet,
      StateT.modifyGet, pure, if_true, if_false, readNow]
    exact ⟨rfl, floor_le _ _ _ _ (Int.le_of_eq rfl)⟩
  | false =>
    simp only [pad, hle, hd, bind, StateT.bind, modify, modifyGet, MonadStateOf.modifyGet,
      StateT.modifyGet, pure, if_false, Bool.false_eq_true, readNow, sleep, Moment.elapse, hr,
      Option.getD_none, Moment.reading, true_and]
    rw [Int.add_zero, Int.add_assoc]
    apply floor_le
    exact Int.le_trans (Int.self_le_toNat _) (Int.le_add_of_nonneg_right (Int.natCast_nonneg _))

theorem floored_pad (hf : 0 < p.rejectFloor) (reply : Reply) :
    Floored p started (do pad p started; return reply) :=
  fun m hr _ => pad_floor hf m hr

theorem floored_refuse (hf : 0 < p.rejectFloor) (reason : Reason) :
    Floored p started (refuse p started reason) :=
  floored_pad hf _

theorem floored_pure {reply : Reply} (h : ¬ reply.Refused) : Floored p started (pure reply) :=
  fun _ _ hr => absurd hr h

theorem floored_readNow {handler : Time → Paced Reply}
    (h : ∀ now, Floored p started (handler now)) : Floored p started (readNow >>= handler) :=
  fun m hr => h m.reading (m.elapse 0) hr

theorem not_refused {reason : Reason} {body : Option Body}
    (hrs : accepted reason = true ∨ reason = .internal)
    (hb : ∀ r ∈ (body.map Body.reasons).getD [], accepted r = true) :
    ¬ Reply.Refused ⟨reason, body⟩ := by
  rintro ⟨r, hr, hno, hne⟩
  rcases List.mem_cons.mp hr with rfl | hr
  · rcases hrs with hrs | hrs
    · exact absurd hrs (by simp [hno])
    · exact hne hrs
  · exact absurd (hb r hr) (by simp [hno])

theorem floored_internal : Floored p started (pure ⟨.internal, none⟩) :=
  floored_pure (not_refused (.inr rfl) (by simp))

theorem floored_ok {body : Body} (hb : ∀ r ∈ body.reasons, accepted r = true) :
    Floored p started (pure ⟨.ok, some body⟩) :=
  floored_pure (not_refused (.inl rfl) hb)

variable (hf : 0 < p.rejectFloor)
include hf

variable {α : Type} {run : Connection → α → ℕ → Time → Paced Reply} {e : Entry α}

theorem floored_written {result : Except LinkBoxError α} {reason : α → Reason}
    {body : α → Option Body}
    (hb : ∀ a, ∀ r ∈ ((body a).map Body.reasons).getD [], accepted r = true) :
    Floored p started (written p started result reason body) := by
  unfold written
  split
  · exact floored_internal
  · split
    · exact floored_refuse hf _
    · exact floored_pure (not_refused (.inl rfl) (hb _))

theorem floored_entered (hr : e.request.isSome)
    (hrn : ∀ conn request op, Floored p started (run conn request op started)) :
    Floored p started (entered p e run started) := by
  unfold entered
  split
  · exact floored_internal
  · next hn => exact absurd hr (by simp [hn])
  · exact floored_internal
  · split
    · exact floored_refuse hf _
    · exact hrn _ _ _

/-- A handler whose refusals keep the floor from its first reading of the clock. -/
def KeepsFloor (p : Pacing) (handler : Paced Reply) : Prop :=
  ∀ m : Moment, m.rest = none → (handler m).1.Refused → (handler m).2.pads = m.pads + 1 ∧
      m.reading + p.rejectFloor ≤ (handler m).2.now + ((handler m).2.rest.getD 0)

theorem keepsFloor_enter (hr : e.request.isSome)
    (hrn : ∀ conn request op started, Floored p started (run conn request op started)) :
    KeepsFloor p (enter p e run) :=
  fun m hrs => floored_entered hf hr (fun _ _ _ => hrn _ _ _ _) (m.elapse 0) hrs

variable {h : Handler} {calls : RendezvousCalls}

theorem keepsFloor_submit {calls : SubmitCalls} {e : Entry Protocol.SubmitRequest}
    (hrq : e.request.isSome) :
    KeepsFloor p (h.pacedSubmit p calls e) := by
  apply keepsFloor_enter hf hrq
  intro conn request op started
  split
  · split <;> exact floored_pad hf _
  · dsimp only
    split
    · exact floored_pad hf _
    · next ha =>
      apply floored_ok
      intro r hr
      obtain ⟨result, hrs, rfl⟩ := List.mem_map.mp hr
      simp only [everyResultAccepted, Bool.not_eq_true', Bool.not_eq_false] at ha
      exact List.all_eq_true.mp ha result hrs

theorem keepsFloor_createGroup {created : CreateGroupRequest → Except Unit CreateGroupResult}
    {e : Entry Protocol.CreateGroupRequest} (hr : e.request.isSome) :
    KeepsFloor p (h.pacedCreateGroup p created e) := by
  apply keepsFloor_enter hf hr
  intro conn request op started
  apply floored_readNow
  intro now
  split
  · exact floored_refuse hf _
  split
  · exact floored_refuse hf _
  split
  · exact floored_refuse hf _
  · exact floored_internal
  split
  · exact floored_internal
  split
  · exact floored_refuse hf _
  · next ha =>
    simp only [Bool.not_eq_true', Bool.not_eq_false] at ha
    exact floored_pure (not_refused (.inl ha) (by simp [Body.reasons]))

theorem keepsFloor_fetch {h : Reader} {calls : ReadCalls}
    {e : Entry Protocol.FetchRequest} (hr : e.request.isSome) :
    KeepsFloor p (h.pacedFetch p calls e) := by
  apply keepsFloor_enter hf hr
  intro conn request op started
  split
  · exact floored_refuse hf _
  split
  · exact floored_refuse hf _
  split
  · exact floored_refuse hf _
  split
  · exact floored_refuse hf _
  split
  · exact floored_internal
  · exact floored_ok (by simp [Body.reasons])

theorem keepsFloor_subscribe {calls : ReadCalls} {e : Entry Protocol.SubscribeRequest}
    (hr : e.request.isSome) :
    KeepsFloor p (h.pacedSubscribe p calls e) := by
  apply keepsFloor_enter hf hr
  intro conn request op started
  split
  · exact floored_internal
  split
  · split
    · exact floored_refuse hf _
    split
    · exact floored_internal
    split
    · exact floored_refuse hf _
    split
    · exact floored_refuse hf _
    split
    · exact floored_refuse hf _
    · exact floored_ok (by simp [Body.reasons, accepted])
  · exact floored_refuse hf _

theorem floored_pacedWrite {box : LinkBox} (request : RendezvousRequest) :
    Floored p started (pacedWrite p calls box started request) := by
  cases request with
  | openBox request => exact floored_ok (by simp [Body.reasons])
  | deposit request => exact floored_written hf (by simp [depositedAnswer, Body.reasons])
  | collect request =>
    simp only [pacedWrite]
    split
    · exact floored_refuse hf _
    · apply floored_written hf
      intro collected
      cases (collectedAnswer (.ok collected)).body <;> simp [Body.reasons]
  | retire request => exact floored_written hf (by simp [Body.reasons])

theorem keepsFloor_rendezvous {arms : RendezvousArms} {e : Entry RendezvousRequest}
    (hr : e.request.isSome) :
    KeepsFloor p (arms.paced p calls e) := by
  apply keepsFloor_enter hf hr
  intro conn request op started
  split
  · exact floored_internal
  split
  · exact floored_refuse hf _
  apply floored_readNow
  intro now
  split
  · exact floored_refuse hf _
  · exact floored_internal
  split
  · exact floored_refuse hf _
  split
  · exact floored_refuse hf _
  · exact floored_pacedWrite hf request

theorem keepsFloor_register {arms : Registrar}
    {calls : RegisterCalls} {e : Entry Protocol.RendezvousRegisterRequest}
    (hr : e.request.isSome) : KeepsFloor p (arms.pacedRegister p calls e) := by
  apply keepsFloor_enter hf hr
  intro conn request op started
  have hw : ∀ now, Floored p started (calls.write p started now request) :=
    fun now => floored_written hf (by simp [Body.reasons])
  split
  · exact floored_internal
  split
  · exact floored_refuse hf _
  split
  · exact floored_refuse hf _
  apply floored_readNow
  intro now
  split
  · exact hw now
  · split
    · exact floored_refuse hf _
    split
    · exact floored_refuse hf _
    · exact hw now
  · exact floored_internal

theorem keepsFloor_handle {arm : Arm} (hr : arm.Requested) : KeepsFloor p (arm.handle p) := by
  cases arm with
  | submit => exact keepsFloor_submit hf hr
  | createGroup => exact keepsFloor_createGroup hf hr
  | fetch => exact keepsFloor_fetch hf hr
  | subscribe => exact keepsFloor_subscribe hf hr
  | register => exact keepsFloor_register hf hr
  | rendezvous => exact keepsFloor_rendezvous hf hr

omit hf

theorem elapse_now (m : Moment) (least : ℕ) : m.now + least ≤ (m.elapse least).now :=
  Int.le_add_of_nonneg_right (Int.natCast_nonneg _)

theorem now_le_reading (m : Moment) : m.now ≤ m.reading :=
  Int.le_trans (Int.le_of_eq (Int.add_zero _).symm) (elapse_now m 0)

variable {closes : Bool} {m : Moment}

theorem answerLater_late {wait handed : Time} (h : (answerLater closes wait m).1 = some handed) :
    m.now + wait ≤ handed := by
  cases closes with
  | true => cases h
  | false =>
    obtain rfl : ((m.elapse 0).elapse wait.toNat).reading = handed := Option.some.inj h
    calc m.now + wait ≤ (m.elapse 0).now + wait.toNat :=
          Int.add_le_add (now_le_reading m) (Int.self_le_toNat wait)
      _ ≤ ((m.elapse 0).elapse wait.toNat).now := elapse_now _ _
      _ ≤ ((m.elapse 0).elapse wait.toNat).reading := now_le_reading _

theorem handOver_late {handed : Time} (h : (handOver closes m).1 = some handed) :
    m.now + m.rest.getD 0 ≤ handed := by
  have hrd : m.now + 0 ≤ m.reading :=
    Int.le_trans (Int.le_of_eq (Int.add_zero _)) (now_le_reading m)
  unfold handOver at h
  split at h
  · next hr =>
    cases h
    rwa [hr]
  · next wait hr =>
    rw [hr]
    split at h
    · exact answerLater_late h
    · next hw =>
      cases h
      exact Int.le_trans (Int.add_le_add_left (Int.not_lt.mp hw) _) hrd

theorem handOver_pads (closes : Bool) (m : Moment) : (handOver closes m).2.pads = m.pads := by
  unfold handOver
  split
  · rfl
  · split
    · cases closes <;> rfl
    · rfl

/-- Every refusal of a request is padded once, and is handed to the transport at the floor or
later, whichever caller answers it. -/
theorem refusal_waits_for_floor (p : Pacing) (closes : Bool) (arm : Arm) (m : Moment)
    (hfloor : 0 < p.rejectFloor) (hrequest : arm.Requested)
    (hrefused : (work p closes arm m).1.1.Refused) :
    (work p closes arm m).2.pads = m.pads + 1 ∧ ∀ handed, (work p closes arm m).1.2 = some handed →
        m.reading + p.rejectFloor ≤ handed := by
  obtain ⟨hp, hn⟩ := keepsFloor_handle hfloor hrequest { m with rest := none } rfl hrefused
  constructor
  · exact (handOver_pads closes _).trans hp
  · intro handed hh
    exact Int.le_trans hn (handOver_late hh)

end Floor

namespace Sample

def blank : Arm :=
  .fetch reader ⟨.ok true, none, fun _ => .error (), false, fun _ => false⟩
    ⟨some ⟨[], []⟩, some ⟨[], 0, 0, false, 0, 0, []⟩, some opFetch, checksNotImplemented⟩

def opening : Moment := { now := 0, delays := fun _ => 1 }

end Sample

open Sample

theorem refusal_waits_for_floor_blank : (work ⟨5, true⟩ false blank opening).2.pads = 1 ∧
      ∀ handed, (work ⟨5, true⟩ false blank opening).1.2 = some handed → 1 + 5 ≤ handed :=
  refusal_waits_for_floor ⟨5, true⟩ false _ opening (by decide) rfl
    ⟨.rejected, List.mem_cons_self, rfl, by decide⟩

end Api

end MessageServer
