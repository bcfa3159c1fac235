import MessageServer.Store.Memory

/-! # The record layer and the wire

A record as the record layer parses it, the attachments its parser serves, and
the messages of the wire. The record layer's own functions are parameters: the
server calls them and never looks inside.
-/

namespace MessageServer

abbrev Sized (n : ℕ) := { bytes : Bytes // bytes.length = n }

namespace Message

open Store

inductive RetentionClass
  | permanent | durable | media | eph
  deriving DecidableEq

/-- The size bucket of a record whose body is a blob. -/
def sizeBucketBlob : ℕ := 5

def writeAuthBytes : ℕ := 32

structure RecordHeader where
  groupId : Sized groupIdBytes
  senderHandle : Sized senderHandleBytes
  epoch : ℕ
  streamIndex : ℕ
  isCommit : Bool
  retentionClass : RetentionClass
  ephBucket : ℕ
  ephWindow : ℕ
  sizeBucket : ℕ
  expireAt : ℕ
  bodyHash : Sized bodyHashBytes
  blobId : Slice
  serverAttachment : Bytes
  deriving DecidableEq

structure Record where
  header : RecordHeader
  ctHead : Bytes
  ctBody : Slice
  writeAuth : Sized writeAuthBytes
  deriving DecidableEq

structure WrapTag where
  wrapTargetHandle : Bytes
  epoch : ℕ
  deriving DecidableEq

/-- A parsed attachment, with the body its kind names. -/
inductive ServerAttachment
  | none
  | epoch (body : EpochAttachment)
  | wrap (body : WrapTag)
  | recovery (body : RecoveryTag)
  | complete (body : EpochCompleteTag)
  | epochDigest (body : EpochDigestAttachment)
  deriving DecidableEq

inductive AttachmentError
  | kindNotServed | malformed
  deriving DecidableEq

/-- The functions of the record layer that the server calls. -/
structure RecordLayer where
  parseRecord : Bytes → Option Record
  encodeRecord : Record → Option Bytes
  parseServerAttachment : Bytes → Except AttachmentError ServerAttachment
  parseEpochDigestAttachment : Bytes → Option EpochDigestAttachment
  checkEpochKeysDigest : Sized groupIdBytes → EpochDigestAttachment → Slice → Slice → Bool
  verifyWriteAuth : Bytes → Bytes → Record → Bool
  verifyRequestAuth : Bytes → Bytes → ℕ → Bytes → Bytes → Bool
  sizeBucketCtBodyBytes : ℕ → ℤ
  ephBucketSeconds : ℕ → ℤ
  retentionClassWire : RetentionClass → ℕ → Option ℕ
  retentionClassOf : ℕ → Option (RetentionClass × ℕ)

end Message

namespace Protocol

/-- A record on the wire: its bytes, the server's id, and the projection beside them. -/
structure Record where
  recordBytes : Bytes
  recordId : ℕ
  senderHandle : Bytes
  epoch : ℕ
  streamIndex : ℕ
  isCommit : Bool
  retentionClass : ℕ
  sizeBucket : ℕ
  expireAtMs : ℕ
  bodyHash : Bytes
  blobId : Bytes
  wrapTargetHandle : Bytes
  recoveryHandle : Bytes
  unknownFields : Bytes
  deriving DecidableEq

structure EpochKeyDelivery where
  writeKey : Slice
  readKey : Slice
  deriving DecidableEq

structure SubmitRequest where
  groupId : Bytes
  records : List (Option Record)
  epochKeys : List (Option EpochKeyDelivery)

structure CreateGroupRequest where
  groupId : Bytes
  initialCommit : Option Record
  bootstrapWriteKey : Bytes
  epochKeys : Option EpochKeyDelivery

structure Subscription where
  groupId : Bytes
  sinceRecordId : ℕ

structure SubscribeRequest where
  subscriptions : List Subscription
  replace : Bool
  readEpoch : ℕ
  reqAuth : Bytes

structure UnsubscribeRequest where
  groupIds : List Bytes
  all : Bool

structure SubmitResult where
  reason : Reason
  recordId : ℕ := 0
  currentEpoch : ℕ := 0
  winningCommit : Option Record := none
  applied : Option Store.RetentionApplied := none
  deriving DecidableEq

structure CreateGroupResponse where
  currentEpoch : ℕ
  recordId : ℕ
  applied : Option Store.RetentionApplied

structure SubscriptionAck where
  groupId : Bytes
  snapshotRecordId : ℕ
  reason : Reason
  deriving DecidableEq

end Protocol

namespace Api

/-- What the connect layer knows about the connection of a request. -/
structure Connection where
  serverNonce : Bytes
  clientId : Bytes

/-- What the checks of the transport and the rate limiter answered one request. -/
structure FrontChecks where
  frameWithinLimits : Reason
  connectionAuthenticated : Reason
  withinRateLimits : Reason

def checksNotImplemented : FrontChecks := ⟨.ok, .ok, .ok⟩

def frontChecks (front : FrontChecks) : Reason :=
  if front.frameWithinLimits ≠ .ok then front.frameWithinLimits
  else if front.connectionAuthenticated ≠ .ok then front.connectionAuthenticated
  else front.withinRateLimits

/-- Which known-group filter a handler was built with. -/
inductive KnownGroups
  | memory | store

structure Handler where
  store : Store.Config
  layer : Message.RecordLayer
  marshal : Protocol.SubscribeRequest → Option Bytes
  knownGroups : KnownGroups
  maxCtHeadBytes : ℕ
  maxRecordsPerSubmit : ℕ

/-- The body arm of a subscription, an input of its authenticator. -/
def opSubscribe : ℕ := 14

def canonicalRequestBytes (h : Handler) (request : Protocol.SubscribeRequest) : Option Bytes :=
  h.marshal { request with reqAuth := [] }

structure CheckedRecord where
  parsed : Message.Record
  attachment : Message.ServerAttachment
  deriving DecidableEq

structure KeyedRecord extends CheckedRecord where
  writeKey : Bytes
  deriving DecidableEq

/-- Which record a check refused, and with what; no index is the whole submission. -/
structure Refusal where
  reason : Reason
  index : Option ℕ
  deriving DecidableEq

end Api

end MessageServer
