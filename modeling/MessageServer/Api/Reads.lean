import MessageServer.Api.Calls
import MessageServer.Store.Pages

/-! # The read path

A fetch and a subscription run the same three checks: the known-group filter,
the read key of the epoch they name, and the request's authenticator under it.
-/

namespace MessageServer

open Store
open Protocol

namespace Protocol

structure FetchRequest where
  groupId : Bytes
  sinceRecordId : ℕ
  limit : ℕ
  headsOnly : Bool
  classMask : ℕ
  readEpoch : ℕ
  reqAuth : Bytes

structure FetchResponse where
  records : List Record
  nextRecordId : ℕ
  highWaterRecordId : ℕ
  complete : Bool
  deriving DecidableEq

end Protocol

namespace Api

structure Reader extends Handler where
  marshalFetch : Protocol.FetchRequest → Option Bytes
  maxRecordsPerFetch : ℕ

/-- The body arm of a fetch, an input of its authenticator. -/
def opFetch : ℕ := 13

/-- Check 6 of the read path: the read key of the epoch a request names. -/
def readKeyOf (s : MemoryStore) (groupId : Bytes) (readEpoch : ℕ) : Option Bytes :=
  match epochKeys s groupId readEpoch with
  | .ok keys => keys.readKey
  | .error _ => none

def Handler.checkRead (h : Handler) (s : Server) (conn : Connection) (groupId : Bytes)
    (readEpoch op : ℕ) (canonical : Option Bytes) (reqAuth : Bytes) :
    Server × Except Reason Unit :=
  match contains h.knownGroups s groupId with
  | (s, .error reason) => (s, .error reason)
  | (s, .ok _) =>
    match readKeyOf s.store groupId readEpoch, canonical with
    | some readKey, some canonical =>
      (s, failIf (¬ h.layer.verifyRequestAuth readKey conn.serverNonce op canonical reqAuth)
        .rejected)
    | _, _ => (s, .error .rejected)

namespace Reader

variable (h : Reader)

/-- The bound of a page: what was asked for, within what the server allows. -/
def fetchLimit (requested : ℕ) : ℕ :=
  if requested = 0 ∨ h.maxRecordsPerFetch % 2 ^ 32 < requested then h.maxRecordsPerFetch % 2 ^ 32
  else requested

/-- The page of a fetch that passed its checks, rebuilt for the wire. -/
def servePage (s : MemoryStore) (request : Protocol.FetchRequest) : Reason × Option FetchResponse :=
  match fetch s {
      groupId := request.groupId
      sinceRecordId := request.sinceRecordId
      limit := h.fetchLimit request.limit
      headsOnly := request.headsOnly
      classMask := request.classMask
      readEpoch := request.readEpoch } with
  | .error _ => (.rejected, none)
  | .ok result =>
    match result.records.mapM fun record =>
        rebuildRecord h.layer request.groupId record request.headsOnly with
    | none => (.internal, none)
    | some records => (.ok, some {
        records := records
        nextRecordId := result.nextRecordId
        highWaterRecordId := result.highWaterRecordId
        complete := result.complete })

def fetch (s : Server) (r : Incoming Protocol.FetchRequest) :
    Server × Reason × Option FetchResponse :=
  if frontChecks r.front ≠ .ok then (s, frontChecks r.front, none)
  else if r.body.groupId.length ≠ groupIdBytes ∨ r.body.reqAuth.length = 0 then
    (s, .rejected, none)
  else
    match h.checkRead s r.conn r.body.groupId r.body.readEpoch opFetch
        (h.marshalFetch { r.body with reqAuth := [] }) r.body.reqAuth with
    | (s, .error reason) => (s, reason, none)
    | (s, .ok _) => (s, h.servePage s.store r.body)

end Reader

/-- The snapshot of a subscription that passed its checks, and its place in the registry. -/
def Server.register (s : Server) (conn : Connection) (wanted : Protocol.Subscription)
    (readEpoch : ℕ) (replace : Bool) : Server × Reason × Option SubscriptionAck :=
  match fetch s.store {
      groupId := wanted.groupId
      sinceRecordId := wanted.sinceRecordId
      limit := 1
      headsOnly := true
      classMask := 0
      readEpoch := readEpoch }, s.subscriptions with
  | .error _, _ => (s, .rejected, none)
  | .ok _, none => (s, .internal, none)
  | .ok result, some registry =>
    match registry.subscribe conn wanted.groupId readEpoch result.highWaterRecordId replace with
    | (registry, false) => ({ s with subscriptions := some registry }, .rejected, none)
    | (registry, true) =>
      ({ s with subscriptions := some registry }, .ok,
        some ⟨wanted.groupId, result.highWaterRecordId, .ok⟩)

def Handler.subscribe (h : Handler) (s : Server) (r : Incoming SubscribeRequest) :
    Server × Reason × Option SubscriptionAck :=
  if frontChecks r.front ≠ .ok then (s, frontChecks r.front, none)
  else
    match s.subscriptions, r.body.subscriptions with
    | none, _ => (s, .internal, none)
    | some _, [wanted] =>
      if wanted.groupId.length ≠ groupIdBytes ∨ r.body.reqAuth.length = 0 then
        (s, .rejected, none)
      else
        match h.checkRead s r.conn wanted.groupId r.body.readEpoch opSubscribe
            (canonicalRequestBytes h r.body) r.body.reqAuth with
        | (s, .error reason) => (s, reason, none)
        | (s, .ok _) => s.register r.conn wanted r.body.readEpoch r.body.replace
    | some _, _ => (s, .rejected, none)

namespace Sample

def reader : Reader where
  toHandler := handler
  marshalFetch request := some request.groupId
  maxRecordsPerFetch := 256

def fetching (readEpoch : ℕ) (readKey : UInt8) : Incoming Protocol.FetchRequest :=
  ⟨conn 1, checksNotImplemented,
    ⟨Sample.groupId, 0, 0, false, 0, readEpoch, List.replicate 32 (readKey + 1)⟩⟩

end Sample

end Api

end MessageServer
