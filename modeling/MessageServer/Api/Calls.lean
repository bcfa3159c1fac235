import MessageServer.Api.Checks
import MessageServer.Api.Subscriptions
import MessageServer.Store.Calls

/-! # Interleaved requests on one server

A request moves through its checks one step at a time: the known-group filter,
the key lookups, the authenticator, the body hash, the transaction of the store,
and the mark for the subscribers.
-/

namespace MessageServer.Api

open Interleaving Message
open Protocol hiding Record
open Store hiding Record

structure Server where
  store : MemoryStore
  known : Bytes → Bool
  subscriptions : Option Subscriptions

/-- What a step reads from outside: the clock, and for a delivery its choice and its outcome. -/
structure Tick where
  clock : ℕ → Time
  candidate : SubscriptionKey
  delivered : Bool

/-- A message with the connection it arrived on and what the front checks said of it. -/
structure Incoming (α : Type) where
  conn : Connection
  front : FrontChecks
  body : α

/-- What a server is asked to do; `deliver` is the delivery goroutine. -/
inductive Request
  | createGroup (incoming : Incoming Protocol.CreateGroupRequest)
  | submit (incoming : Incoming Protocol.SubmitRequest)
  | subscribe (incoming : Incoming SubscribeRequest)
  | unsubscribe (incoming : Incoming UnsubscribeRequest)
  | closeGroup (groupId : Bytes)
  | deliver

/-- Where a request stands in the known-group filter. -/
inductive FilterStage
  | probe
  /-- The cache missed; the store is to be asked. -/
  | ask
  /-- The store knows the group; the cache is to be told. -/
  | insert

inductive SubmitStage
  | filter (stage : FilterStage)
  | key (seen : ℕ → Option Bytes) (done : List KeyedRecord) (todo : List CheckedRecord)
  | auth (records : List KeyedRecord)
  | hash (records : List KeyedRecord)
  | columns (records : List KeyedRecord)
  | storing (records : List KeyedRecord) (call : Store.Call)
  | publishing (records : List KeyedRecord) (call : Store.Call) (answer : Answer)
  | finished (records : List KeyedRecord) (call : Store.Call) (answer : Answer)

inductive CreateStage
  | auth
  | hash
  | transaction
  | insert (call : Store.Call) (result : CreateGroupResult)
  | finished (call : Store.Call) (reason : Reason) (response : Option CreateGroupResponse)

inductive SubscribeStage
  | filter (stage : FilterStage)
  | key
  | snapshot
  | register (snapshot : ℕ)
  | finished (ack : SubscriptionAck)

inductive Call
  | start (request : Request)
  /-- Answered by a check, ahead of every write. -/
  | refused (request : Request) (answer : Answer)
  | creating (incoming : Incoming Protocol.CreateGroupRequest) (record : CheckedRecord)
      (keys : Option Protocol.EpochKeyDelivery) (stage : CreateStage)
  | submitting (incoming : Incoming Protocol.SubmitRequest) (pass : Pass) (stage : SubmitStage)
  | subscribing (incoming : Incoming SubscribeRequest) (wanted : Protocol.Subscription)
      (stage : SubscribeStage)
  | unsubscribed (incoming : Incoming UnsubscribeRequest)
  | closing (groupId : Bytes) (call : Store.Call)
  | delivering (push : Option Push)

section Filter

inductive Filtered
  | next (stage : FilterStage)
  | known
  | refused (reason : Reason)

variable (filter : KnownGroups) (s : Server) (groupId : Bytes)

def Server.insert (s : Server) (groupId : Bytes) : Server :=
  { s with known := Function.update s.known groupId true }

def filterStep : FilterStage → Server × Filtered
  | .probe =>
    if s.known groupId then (s, .known)
    else
      match filter with
      | .memory => (s, .refused .rejected)
      | .store => (s, .next .ask)
  | .ask =>
    match groupState s.store groupId with
    | .ok _ => (s, .next .insert)
    | .error .groupUnavailable => (s, .refused .rejected)
    | .error _ => (s, .refused .internal)
  | .insert => (s.insert groupId, .known)

def contains : Server × Except Reason Unit :=
  if s.known groupId then (s, .ok ())
  else
    match filter with
    | .memory => (s, .error .rejected)
    | .store =>
      match groupState s.store groupId with
      | .ok _ => (s.insert groupId, .ok ())
      | .error .groupUnavailable => (s, .error .rejected)
      | .error _ => (s, .error .internal)

end Filter

def lookupKey (s : MemoryStore) (groupId : Bytes) (seen : ℕ → Option Bytes) (epoch : ℕ) :
    Option Bytes :=
  match seen epoch with
  | some key => some key
  | none =>
    match epochKeys s groupId epoch with
    | .ok keys => keys.writeKey
    | .error _ => none

/-- Check 6 with no other request between its lookups. -/
def checkEpochKey (s : MemoryStore) (groupId : Bytes) :
    (ℕ → Option Bytes) → ℕ → List CheckedRecord → Except Refusal (List KeyedRecord)
  | _, _, [] => .ok []
  | seen, index, record :: records =>
    match lookupKey s groupId seen record.parsed.header.epoch with
    | none => .error ⟨.rejected, some index⟩
    | some key =>
      (checkEpochKey s groupId (Function.update seen record.parsed.header.epoch (some key))
        (index + 1) records).map (⟨record, key⟩ :: ·)

/-- Each epoch's key is looked up once, and a second lookup would have found the same. -/
theorem checkEpochKey_eq {s : MemoryStore} {groupId : Bytes} {seen : ℕ → Option Bytes}
    (hs : ∀ epoch key, seen epoch = some key → lookupKey s groupId (fun _ => none) epoch = some key)
    (index : ℕ) (todo : List CheckedRecord) : checkEpochKey s groupId seen index todo =
      forEach (fun _ record => (orFail (lookupKey s groupId (fun _ => none)
        record.parsed.header.epoch) .rejected).map fun key => ⟨record, key⟩) index todo := by
  induction todo generalizing seen index with
  | nil => rfl
  | cons record todo ih =>
    have hl : lookupKey s groupId seen record.parsed.header.epoch =
        lookupKey s groupId (fun _ => none) record.parsed.header.epoch := by
      cases he : seen record.parsed.header.epoch with
      | none => simp only [lookupKey, he]
      | some key =>
        rw [hs _ _ he]
        simp only [lookupKey, he]
    unfold checkEpochKey forEach
    rw [hl]
    cases hk : lookupKey s groupId (fun _ => none) record.parsed.header.epoch with
    | none => rfl
    | some key =>
      dsimp only
      rw [ih]
      · rfl
      · intro epoch key' he
        by_cases hep : epoch = record.parsed.header.epoch
        · rw [hep, Function.update_self] at he
          rw [hep, hk, he]
        · rw [Function.update_of_ne hep] at he
          exact hs epoch key' he

/-- The records of a submission that its answer says were stored. -/
def publishedRecords (records : List KeyedRecord) (results : List Protocol.SubmitResult) :
    List PublishedRecord :=
  (records.zip results).filterMap fun (record, result) =>
    if ¬ accepted result.reason ∨ result.recordId = 0 then none
    else some ⟨result.recordId, record.parsed.header.epoch⟩

def Server.publishAccepted (s : Server) (groupId : Bytes) (records : List KeyedRecord)
    (results : List Protocol.SubmitResult) : Server :=
  { s with
    subscriptions := s.subscriptions.map (·.published groupId (publishedRecords records results)) }

section Steps

variable (h : Handler) (tick : Tick) (s : Server)

/-- What the store's answer to a submission leads to. -/
def submitOutcome (request : Protocol.SubmitRequest) (records : List KeyedRecord) :
    Store.Call → SubmitStage
  | .submitted stored batch => .publishing records (.submitted stored batch)
      ⟨.ok, (resultsOf batch).map (h.resultOf request.groupId)⟩
  | .failed stored e => .finished records (.failed stored e)
      (refusalAnswer request.records.length ⟨.internal, none⟩)
  | call => .storing records call

def refuseSubmit (r : Incoming Protocol.SubmitRequest) (refused : Refusal) : Call :=
  .refused (.submit r) (refusalAnswer r.body.records.length refused)

def submitStep (r : Incoming Protocol.SubmitRequest) (pass : Pass) : SubmitStage → Server × Call
  | .filter stage =>
    match filterStep h.knownGroups s r.body.groupId stage with
    | (s, .next stage) => (s, .submitting r pass (.filter stage))
    | (s, .known) => (s, .submitting r pass (.key (fun _ => none) [] pass.records))
    | (s, .refused reason) => (s, refuseSubmit r ⟨reason, none⟩)
  | .key _ done [] => (s, .submitting r pass (.auth done))
  | .key seen done (record :: todo) =>
    match lookupKey s.store r.body.groupId seen record.parsed.header.epoch with
    | none => (s, refuseSubmit r ⟨.rejected, some done.length⟩)
    | some key =>
      (s, .submitting r pass (.key (Function.update seen record.parsed.header.epoch (some key))
        (done ++ [⟨record, key⟩]) todo))
  | .auth records =>
    match h.checkWriteAuth r.conn records with
    | .error refused => (s, refuseSubmit r refused)
    | .ok _ => (s, .submitting r pass (.hash records))
  | .hash records =>
    match h.checkBodyHash records with
    | .error refused => (s, refuseSubmit r refused)
    | .ok _ => (s, .submitting r pass (.columns records))
  | .columns records =>
    match h.storeRecords records with
    | .error refused => (s, refuseSubmit r refused)
    | .ok columns =>
      (s, .submitting r pass (.storing records
        (.start (.submit ⟨r.body.groupId, columns, deliveryOf pass.keys⟩))))
  | .storing records call =>
    let next := call.step h.store (tick.clock 0) s.store
    ({ s with store := next.1 }, .submitting r pass (submitOutcome h r.body records next.2))
  | .publishing records call answer =>
    (s.publishAccepted r.body.groupId records answer.results,
      .submitting r pass (.finished records call answer))
  | .finished records call answer => (s, .submitting r pass (.finished records call answer))

def createOutcome : Store.Call → CreateStage
  | .created stored (.ok result) =>
    if accepted result.reason then .insert (.created stored (.ok result)) result
    else .finished (.created stored (.ok result)) result.reason none
  | call => .finished call .internal none

def createStep (r : Incoming Protocol.CreateGroupRequest) (record : CheckedRecord)
    (keys : Option Protocol.EpochKeyDelivery) : CreateStage → Server × Call
  | .auth =>
    if h.layer.verifyWriteAuth r.body.bootstrapWriteKey r.conn.serverNonce record.parsed then
      (s, .creating r record keys .hash)
    else (s, .refused (.createGroup r) ⟨.rejected, []⟩)
  | .hash =>
    match h.bodyHash record with
    | .error reason => (s, .refused (.createGroup r) ⟨reason, []⟩)
    | .ok _ => (s, .creating r record keys .transaction)
  | .transaction =>
    match h.storeRecord record with
    | .error _ => (s, .refused (.createGroup r) ⟨.internal, []⟩)
    | .ok columns =>
      let next := Store.Call.step h.store (tick.clock 0) s.store (.start (.createGroup
        ⟨r.body.groupId, some columns, r.body.bootstrapWriteKey, deliveryOf keys⟩))
      ({ s with store := next.1 }, .creating r record keys (createOutcome next.2))
  | .insert call result =>
    (s.insert r.body.groupId, .creating r record keys (.finished call result.reason
      (some ⟨result.currentEpoch, result.recordId, result.applied⟩)))
  | .finished call reason response => (s, .creating r record keys (.finished call reason response))

/-- The next step of a subscription whose shape is right. -/
def subscribeStep (r : Incoming SubscribeRequest) (wanted : Protocol.Subscription) :
    SubscribeStage → Server × Call
  | .filter stage =>
    match filterStep h.knownGroups s wanted.groupId stage with
    | (s, .next stage) => (s, .subscribing r wanted (.filter stage))
    | (s, .known) => (s, .subscribing r wanted .key)
    | (s, .refused reason) => (s, .refused (.subscribe r) ⟨reason, []⟩)
  | .key =>
    match epochKeys s.store wanted.groupId r.body.readEpoch, canonicalRequestBytes h r.body with
    | .ok { readKey := some readKey, .. }, some canonical =>
      if h.layer.verifyRequestAuth readKey r.conn.serverNonce opSubscribe canonical r.body.reqAuth
      then (s, .subscribing r wanted .snapshot)
      else (s, .refused (.subscribe r) ⟨.rejected, []⟩)
    | _, _ => (s, .refused (.subscribe r) ⟨.rejected, []⟩)
  | .snapshot =>
    match fetch s.store {
        groupId := wanted.groupId
        sinceRecordId := wanted.sinceRecordId
        limit := 1
        headsOnly := true
        classMask := 0
        readEpoch := r.body.readEpoch } with
    | .error _ => (s, .refused (.subscribe r) ⟨.rejected, []⟩)
    | .ok result => (s, .subscribing r wanted (.register result.highWaterRecordId))
  | .register snapshot =>
    match s.subscriptions with
    | none => (s, .refused (.subscribe r) ⟨.internal, []⟩)
    | some registry =>
      match registry.subscribe r.conn wanted.groupId r.body.readEpoch snapshot r.body.replace with
      | (registry, false) =>
        ({ s with subscriptions := some registry }, .refused (.subscribe r) ⟨.rejected, []⟩)
      | (registry, true) =>
        ({ s with subscriptions := some registry },
          .subscribing r wanted (.finished ⟨wanted.groupId, snapshot, .ok⟩))
  | .finished ack => (s, .subscribing r wanted (.finished ack))

def startSubscribe (r : Incoming SubscribeRequest) : Call :=
  if frontChecks r.front ≠ .ok then .refused (.subscribe r) ⟨frontChecks r.front, []⟩
  else
    match s.subscriptions, r.body.subscriptions with
    | none, _ => .refused (.subscribe r) ⟨.internal, []⟩
    | some _, [wanted] =>
      if wanted.groupId.length ≠ groupIdBytes ∨ r.body.reqAuth.length = 0 then
        .refused (.subscribe r) ⟨.rejected, []⟩
      else .subscribing r wanted (.filter .probe)
    | some _, _ => .refused (.subscribe r) ⟨.rejected, []⟩

def unsubscribeStep (r : Incoming UnsubscribeRequest) : Server × Call :=
  if frontChecks r.front ≠ .ok then
    (s, .refused (.unsubscribe r) ⟨frontChecks r.front, []⟩)
  else
    match s.subscriptions with
    | none => (s, .refused (.unsubscribe r) ⟨.internal, []⟩)
    | some registry =>
      if r.body.all ∧ 0 < r.body.groupIds.length then
        (s, .refused (.unsubscribe r) ⟨.rejected, []⟩)
      else
        ({ s with subscriptions := some (registry.unsubscribe r.conn r.body.groupIds r.body.all) },
          .unsubscribed r)

/-- A step of the delivery goroutine: take a marked subscription, or settle a push. -/
def deliverStep : Option Push → Server × Call
  | none =>
    match s.subscriptions with
    | none => (s, .delivering none)
    | some registry =>
      let next := registry.deliverTake tick.candidate
      ({ s with subscriptions := some next.1 }, .delivering next.2)
  | some push =>
    ({ s with subscriptions := s.subscriptions.map (·.deliverSettle push tick.delivered) },
      .delivering none)

def Call.step : Call → Server × Call
  | .start (.createGroup r) =>
    if frontChecks r.front ≠ .ok then
      (s, .refused (.createGroup r) ⟨frontChecks r.front, []⟩)
    else
      match h.checkCreate (tick.clock 0) r.body with
      | .error reason => (s, .refused (.createGroup r) ⟨reason, []⟩)
      | .ok (record, keys) => (s, .creating r record keys .auth)
  | .start (.submit r) =>
    if frontChecks r.front ≠ .ok then (s, .refused (.submit r) ⟨frontChecks r.front, []⟩)
    else
      match h.checkStaticShape tick.clock r.body with
      | .error refusal => (s, refuseSubmit r refusal)
      | .ok pass => (s, .submitting r pass (.filter .probe))
  | .start (.subscribe r) => (s, startSubscribe s r)
  | .start (.unsubscribe r) => unsubscribeStep s r
  | .start (.closeGroup groupId) =>
    let next := Store.Call.step h.store (tick.clock 0) s.store (.start (.closeGroup groupId))
    ({ s with store := next.1 }, .closing groupId next.2)
  | .start .deliver => (s, .delivering none)
  | .creating r record keys stage => createStep h tick s r record keys stage
  | .submitting r pass stage => submitStep h tick s r pass stage
  | .subscribing r wanted stage => subscribeStep h s r wanted stage
  | .delivering push => deliverStep tick s push
  | call => (s, call)

end Steps

def machine (h : Handler) : Machine Server Call Tick := ⟨fun tick s c => c.step h tick s⟩

def Server.empty (subscriptions : Option Subscriptions) : Server where
  store := .empty
  known := fun _ => false
  subscriptions := subscriptions

variable {ι : Type*} [DecidableEq ι]

def initial (s : Server) (requests : ι → Request) : World Server Call ι :=
  ⟨s, fun i => .start (requests i)⟩

/-- The world a schedule of requests reaches from a server. -/
def runFrom (h : Handler) (s : Server) (requests : ι → Request) (sched : List (ι × Tick)) :
    World Server Call ι :=
  (machine h).exec (initial s requests) sched

/-- The world a schedule of requests reaches from an empty server. -/
def run (h : Handler) (registry : Option Subscriptions) (requests : ι → Request)
    (sched : List (ι × Tick)) : World Server Call ι :=
  runFrom h (.empty registry) requests sched

/-- The checks of a submission behind the filter: 6, 7, 8, and the columns of 9. -/
def Handler.checkRecords (h : Handler) (s : MemoryStore) (conn : Connection)
    (groupId : Bytes) (pass : Pass) : Except Refusal (List KeyedRecord × List Store.Record) := do
  let records ← checkEpochKey s groupId (fun _ => none) 0 pass.records
  let _ ← h.checkWriteAuth conn records
  let _ ← h.checkBodyHash records
  let columns ← h.storeRecords records
  pure (records, columns)

/-- A whole submission with no other request between its steps. -/
def Handler.submit (h : Handler) (clock : ℕ → Time) (now : Time) (s : Server)
    (r : Incoming Protocol.SubmitRequest) : Server × Answer :=
  if frontChecks r.front ≠ .ok then (s, ⟨frontChecks r.front, []⟩)
  else
    match h.checkStaticShape clock r.body with
    | .error refused => (s, refusalAnswer r.body.records.length refused)
    | .ok pass =>
      match contains h.knownGroups s r.body.groupId with
      | (s, .error reason) => (s, refusalAnswer r.body.records.length ⟨reason, none⟩)
      | (s, .ok _) =>
        match h.checkRecords s.store r.conn r.body.groupId pass with
        | .error refused => (s, refusalAnswer r.body.records.length refused)
        | .ok (records, columns) =>
          let next := Store.submit h.store now s.store
            ⟨r.body.groupId, columns, deliveryOf pass.keys⟩
          match next.2 with
          | .error _ => ({ s with store := next.1 },
              refusalAnswer r.body.records.length ⟨.internal, none⟩)
          | .ok results =>
            let answer := results.map (h.resultOf r.body.groupId)
            (({ s with store := next.1 } : Server).publishAccepted r.body.groupId records answer,
              ⟨.ok, answer⟩)

namespace Sample

def body : Bytes := List.replicate 272 0

def bodyHash : Sized bodyHashBytes :=
  ⟨[0xe4, 0xd8, 0x79, 0xa3, 0x40, 0x7d, 0xe5, 0x78, 0xf5, 0x79, 0xdf, 0xab, 0x43, 0x66, 0xfc, 0xea,
    0x75, 0xa6, 0x64, 0x9c, 0x68, 0x3d, 0x9e, 0xfe, 0x4f, 0x05, 0x6f, 0x65, 0x05, 0x43, 0x75, 0x74],
    rfl⟩

def sha256 (bytes : Bytes) : Bytes :=
  if bytes = body then bodyHash.val else Store.Sample.sha256 bytes

def writeKey (epoch : UInt8) : Bytes := List.replicate 32 epoch

def epochAttachment (epoch : UInt8) : EpochAttachment where
  epoch := epoch.toNat
  writeKey := some (writeKey epoch)
  readKey := some (List.replicate 32 9)
  algId := 1
  mediaTtlSeconds := 0
  durableTtlSeconds := 0
  groupContextHash := none
  expectedWrapCount := 1

def parseAttachment : Bytes → Except AttachmentError ServerAttachment
  | [] => .ok .none
  | [1, epoch] => .ok (.epoch (epochAttachment epoch))
  | [4, epoch] => .ok (.complete ⟨epoch.toNat, 1⟩)
  | _ => .error .malformed

def parsed (kind epoch streamIndex tag : UInt8) : Record where
  header := {
    groupId := ⟨Store.Sample.groupId, rfl⟩
    senderHandle := ⟨Store.Sample.alice, rfl⟩
    epoch := epoch.toNat
    streamIndex := streamIndex.toNat
    isCommit := kind = 1
    retentionClass := if kind = 16 then .eph else .permanent
    ephBucket := if kind = 16 then 1 else 0
    ephWindow := 0
    sizeBucket := 0
    expireAt := 0
    bodyHash := bodyHash
    blobId := none
    serverAttachment := if kind = 1 then [1, epoch + 1] else if kind = 4 then [4, epoch] else [] }
  ctHead := [1]
  ctBody := some body
  writeAuth := ⟨List.replicate 32 tag, List.length_replicate⟩

def layer : RecordLayer where
  parseRecord
    | [kind, epoch, streamIndex, tag] => some (parsed kind epoch streamIndex tag)
    | _ => none
  encodeRecord record := some record.ctHead
  parseServerAttachment := parseAttachment
  parseEpochDigestAttachment _ := none
  checkEpochKeysDigest _ _ _ _ := false
  verifyWriteAuth key nonce record := record.writeAuth.val = key.zipWith (· + ·) nonce
  verifyRequestAuth key nonce _ _ auth := auth = key.zipWith (· + ·) nonce
  sizeBucketCtBodyBytes bucket := [272, 1040, 4112, 16400, 65552].getD bucket (-1)
  ephBucketSeconds bucket := [0, 3600, 28800, 86400, 604800, 2419200].getD bucket (-1)
  retentionClassWire
    | .permanent, _ => some 0
    | .durable, _ => some 1
    | .media, _ => some 2
    | .eph, bucket => some (16 + bucket)
  retentionClassOf
    | 0 => some (.permanent, 0)
    | 1 => some (.durable, 0)
    | 2 => some (.media, 0)
    | wire => some (.eph, wire - 16)

def handler : Handler where
  store := ⟨defaultLimits, sha256⟩
  layer := layer
  marshal request := some (request.subscriptions.flatMap (·.groupId))
  knownGroups := .store
  maxCtHeadBytes := 4096
  maxRecordsPerSubmit := 64

def conn (nonce : UInt8) : Connection := ⟨List.replicate 32 nonce, [7]⟩

def sent (kind epoch streamIndex nonce : UInt8) : Option Protocol.Record := do
  let bytes := [kind, epoch, streamIndex, epoch + nonce]
  let parsed ← layer.parseRecord bytes
  let attachment ← (parseServerAttachment layer parsed.header.serverAttachment).toOption
  let projection ← projectionOf layer parsed attachment
  pure { projection with recordBytes := bytes }

def createGroup : Request := .createGroup ⟨conn 1, checksNotImplemented,
  ⟨Store.Sample.groupId, sent 1 0 1 1, writeKey 0, none⟩⟩

def submission (kind epoch streamIndex nonce : UInt8) : Incoming Protocol.SubmitRequest :=
  ⟨conn nonce, checksNotImplemented,
    ⟨Store.Sample.groupId, [sent kind epoch streamIndex nonce], []⟩⟩

def tickAt (millis : ℕ) : Tick := ⟨fun _ => millis * 1000000, ⟨[], []⟩, true⟩

def turns {ι : Type} (count : ℕ) (i : ι) (millis : ℕ) : List (ι × Tick) :=
  List.replicate count (i, tickAt millis)

def registry : Option Subscriptions := some (.empty 8)

def inTurn (n : ℕ) : List (Fin n × Tick) :=
  (List.finRange n).flatMap fun i => turns 12 i (i.val + 1)

def founding : Fin 2 → Request := ![createGroup, .submit (submission 4 1 2 5)]

def foundingOrder : List (Fin 2 × Tick) := inTurn 2

def messaging : Fin 3 → Request :=
  ![createGroup, .submit (submission 4 1 2 5), .submit (submission 16 1 3 5)]

def messagingOrder : List (Fin 3 × Tick) := inTurn 3

def advancing : Fin 5 → Request :=
  ![createGroup, .submit (submission 4 1 2 5), .submit (submission 1 1 3 5),
    .submit (submission 4 2 4 5), .submit (submission 1 2 5 5)]

def advancingOrder : List (Fin 5 × Tick) := inTurn 5

end Sample

end MessageServer.Api
