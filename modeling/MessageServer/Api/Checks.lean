import MessageServer.Api.Messages

/-! # The checks of a submission

Check 3 parses every record and compares it with the projection beside it,
checks 7 and 8 are the authenticator and the body hash, and check 9 turns what
was parsed into the columns of the store.
-/

namespace MessageServer.Api

open Protocol
open Message hiding Record

open Store (groupIdBytes senderHandleBytes bodyHashBytes epochKeyBytes)

/-- A check of every element in order; the first refusal names its index. -/
def forEach {α β : Type} (check : ℕ → α → Except Reason β) : ℕ → List α → Except Refusal (List β)
  | _, [] => .ok []
  | index, a :: rest =>
    match check index a with
    | .error reason => .error ⟨reason, some index⟩
    | .ok b => (forEach check (index + 1) rest).map (b :: ·)

def orFail {ε α : Type} (value : Option α) (e : ε) : Except ε α :=
  match value with
  | none => .error e
  | some a => .ok a

section Attachments

variable (layer : RecordLayer)

/-- The attachment parse over both doors; only an unserved kind goes to the second. -/
def parseServerAttachment (bytes : Bytes) : Except AttachmentError ServerAttachment :=
  match layer.parseServerAttachment bytes with
  | .ok attachment => .ok attachment
  | .error .kindNotServed =>
    match layer.parseEpochDigestAttachment bytes with
    | none => .error .kindNotServed
    | some digest => .ok (.epochDigest digest)
  | .error e => .error e

def isEpochAttachmentKind : ServerAttachment → Bool
  | .epoch _ | .epochDigest _ => true
  | _ => false

def isDigestKind : ServerAttachment → Bool
  | .epochDigest _ => true
  | _ => false

def opensEpochOf : ServerAttachment → Option ℕ
  | .epoch body => some body.epoch
  | .epochDigest body => some body.epoch
  | _ => none

def attachmentOf : ServerAttachment → Option Store.Attachment
  | .none => none
  | .epoch body => some { kind := .epoch, epoch := some body }
  | .wrap body => some { kind := .wrap, wrap := some ⟨body.wrapTargetHandle, 0⟩ }
  | .recovery body => some { kind := .recovery, recovery := some body }
  | .complete body => some { kind := .epochComplete, epochComplete := some body }
  | .epochDigest body => some { kind := .epochDigest, epochDigest := some body }

def projectionOf (parsed : Message.Record) (attachment : ServerAttachment) : Option Record :=
  (layer.retentionClassWire parsed.header.retentionClass parsed.header.ephBucket).map
    fun retentionWire => {
      recordBytes := []
      recordId := 0
      senderHandle := parsed.header.senderHandle.val
      epoch := parsed.header.epoch
      streamIndex := parsed.header.streamIndex
      isCommit := parsed.header.isCommit
      retentionClass := retentionWire
      sizeBucket := parsed.header.sizeBucket
      expireAtMs := parsed.header.expireAt
      bodyHash := parsed.header.bodyHash.val
      blobId := parsed.header.blobId.getD []
      wrapTargetHandle :=
        match attachment with
        | .wrap body => body.wrapTargetHandle
        | _ => []
      recoveryHandle :=
        match attachment with
        | .recovery body => body.handle
        | _ => []
      unknownFields := [] }

def columnsOf (record : CheckedRecord) : Option Store.Record :=
  (layer.retentionClassWire record.parsed.header.retentionClass record.parsed.header.ephBucket).map
    fun retentionWire => {
      senderHandle := record.parsed.header.senderHandle.val
      epoch := record.parsed.header.epoch
      streamIndex := record.parsed.header.streamIndex
      isCommit := record.parsed.header.isCommit
      retentionClass := retentionWire
      ephWindow := record.parsed.header.ephWindow
      sizeBucket := record.parsed.header.sizeBucket
      expireAtMs := record.parsed.header.expireAt
      bodyHash := record.parsed.header.bodyHash.val
      ctHead := record.parsed.ctHead
      ctBody := record.parsed.ctBody
      blobId := record.parsed.header.blobId
      serverAttachment := record.parsed.header.serverAttachment
      attachment := attachmentOf record.attachment }

/-- A stored record on the wire again, re-encoded with a zero authenticator. -/
def rebuildRecord (groupId : Bytes) (record : Store.Record) (headsOnly : Bool) : Option Record := do
  let (retentionClass, ephBucket) ← layer.retentionClassOf record.retentionClass
  if hg : groupId.length = groupIdBytes then
    if hs : record.senderHandle.length = senderHandleBytes then
      if hb : record.bodyHash.length = bodyHashBytes then
        let rebuilt : Message.Record := {
          header := {
            groupId := ⟨groupId, hg⟩
            senderHandle := ⟨record.senderHandle, hs⟩
            epoch := record.epoch
            streamIndex := record.streamIndex
            isCommit := record.isCommit
            retentionClass := retentionClass
            ephBucket := ephBucket
            ephWindow := record.ephWindow
            sizeBucket := record.sizeBucket
            expireAt := record.expireAtMs
            bodyHash := ⟨record.bodyHash, hb⟩
            blobId := record.blobId
            serverAttachment := record.serverAttachment }
          ctHead := record.ctHead
          ctBody := if headsOnly then none else record.ctBody
          writeAuth := ⟨List.replicate writeAuthBytes 0, List.length_replicate⟩ }
        let recordBytes ← layer.encodeRecord rebuilt
        let attachment ← (parseServerAttachment layer record.serverAttachment).toOption
        let projection ← projectionOf layer rebuilt attachment
        pure { projection with recordBytes := recordBytes, recordId := record.recordId }
      else none
    else none
  else none

end Attachments

/-- The named refusals of the delivery beside a batch. -/
inductive EpochKeysError
  | length | onNonCommit | missing | unwanted | emptyEntry | width | identifierShape | digest
  deriving DecidableEq

def alignFrom (deliveries : List (Option EpochKeyDelivery)) :
    ℕ → Option (EpochKeyDelivery × ℕ) → List CheckedRecord →
      Except (EpochKeysError × Option ℕ) (Option (EpochKeyDelivery × ℕ))
  | _, wanted, [] => .ok wanted
  | index, wanted, record :: records =>
    match deliveries[index]?.join, record.parsed.header.isCommit with
    | some _, false => .error (.onNonCommit, some index)
    | none, false => alignFrom deliveries (index + 1) wanted records
    | none, true =>
      if isDigestKind record.attachment then .error (.missing, some index)
      else alignFrom deliveries (index + 1) wanted records
    | some delivery, true =>
      if ¬ isDigestKind record.attachment then .error (.unwanted, some index)
      else if delivery.writeKey.len = 0 ∧ delivery.readKey.len = 0 then
        .error (.emptyEntry, some index)
      else if delivery.writeKey.len ≠ epochKeyBytes ∨ delivery.readKey.len ≠ epochKeyBytes then
        .error (.width, some index)
      else alignFrom deliveries (index + 1) (some (delivery, index)) records

/-- The one delivery a batch admits, and the record it belongs to. -/
def epochKeyAlignment (records : List CheckedRecord) (deliveries : List (Option EpochKeyDelivery)) :
    Except (EpochKeysError × Option ℕ) (Option (EpochKeyDelivery × ℕ)) :=
  if deliveries.length ≠ 0 ∧ deliveries.length ≠ records.length then .error (.length, none)
  else alignFrom deliveries 0 none records

def checkEpochKeysDigest (layer : RecordLayer) (groupId : Bytes)
    (attachment : ServerAttachment) (delivery : EpochKeyDelivery) :
    Except EpochKeysError Unit :=
  if hg : groupId.length = groupIdBytes then
    match attachment with
    | .epochDigest body =>
      failIf (¬ layer.checkEpochKeysDigest ⟨groupId, hg⟩ body delivery.writeKey delivery.readKey)
        .digest
    | _ => .error .missing
  else .error .identifierShape

def deliveryOf (delivery : Option EpochKeyDelivery) : Option Store.EpochKeyDelivery :=
  delivery.map fun d => ⟨d.writeKey, d.readKey⟩

structure Pass where
  records : List CheckedRecord
  keys : Option EpochKeyDelivery

namespace Handler

variable (h : Handler)

/-- The window of an ephemeral record is within one of its arrival; the others have none. -/
def ephWindow (now : Time) (header : RecordHeader) : Except Reason Unit :=
  let seconds := h.layer.ephBucketSeconds header.ephBucket
  if header.retentionClass ≠ .eph ∨ seconds ≤ 0 then
    failIf (header.ephWindow ≠ 0) .rejected
  else
    let millis := now / 1000000
    if millis < 0 then .error .internal
    else
      let arrival := millis.toNat / (seconds.toNat * 1000)
      let distance :=
        if arrival < header.ephWindow then header.ephWindow - arrival
        else arrival - header.ephWindow
      failIf (1 < distance) .rejected

def staticShape (now : Time) (groupId : Bytes) (projection : Option Record) :
    Except Reason CheckedRecord := do
  let sent ← orFail projection .rejected
  let parsed ← orFail (h.layer.parseRecord sent.recordBytes) .rejected
  failIf (parsed.header.groupId.val ≠ groupId) .rejected
  failIf (parsed.ctHead.length = 0) .rejected
  failIf (h.maxCtHeadBytes < parsed.ctHead.length) .oversize
  failIf (parsed.header.sizeBucket ≠ sizeBucketBlob ∧
    (h.layer.sizeBucketCtBodyBytes parsed.header.sizeBucket < 0 ∨
      (parsed.ctBody.len : ℤ) ≠ h.layer.sizeBucketCtBodyBytes parsed.header.sizeBucket)) .rejected
  h.ephWindow now parsed.header
  let attachment ← (parseServerAttachment h.layer parsed.header.serverAttachment).mapError
    fun _ => .rejected
  failIf (isEpochAttachmentKind attachment ≠ parsed.header.isCommit) .rejected
  failIf (projectionOf h.layer parsed attachment ≠
    some { sent with recordBytes := [], recordId := 0 }) .rejected
  pure ⟨parsed, attachment⟩

/-- The clauses of check 3 about the keys delivered beside a batch. -/
def checkEpochKeys (groupId : Bytes) (records : List CheckedRecord)
    (deliveries : List (Option EpochKeyDelivery)) :
    Except Refusal (Option EpochKeyDelivery) :=
  match epochKeyAlignment records deliveries with
  | .error (_, index) => .error ⟨.rejected, index⟩
  | .ok none => .ok none
  | .ok (some (keys, index)) =>
    match records[index]? with
    | none => .error ⟨.rejected, some index⟩
    | some record =>
      match checkEpochKeysDigest h.layer groupId record.attachment keys with
      | .error _ => .error ⟨.rejected, some index⟩
      | .ok _ => .ok (some keys)

/-- Check 3 over a whole submission; the clock is read once for each record. -/
def checkStaticShape (clock : ℕ → Time) (request : SubmitRequest) : Except Refusal Pass := do
  failIf (request.groupId.length ≠ groupIdBytes) ⟨.rejected, none⟩
  failIf (request.records.length = 0) ⟨.rejected, none⟩
  failIf (h.maxRecordsPerSubmit < request.records.length) ⟨.oversize, none⟩
  let records ← forEach (fun index => h.staticShape (clock index) request.groupId) 0 request.records
  failIf (records.countP (·.parsed.header.isCommit) ≠ 0 ∧ records.length ≠ 1) ⟨.rejected, none⟩
  let keys ← h.checkEpochKeys request.groupId records request.epochKeys
  pure ⟨records, keys⟩

def checkWriteAuth (conn : Connection) (records : List KeyedRecord) : Except Refusal (List Unit) :=
  forEach (fun _ record =>
    failIf (¬ h.layer.verifyWriteAuth record.writeKey conn.serverNonce record.parsed) .rejected) 0
    records

def bodyHash (record : CheckedRecord) : Except Reason Unit :=
  if record.parsed.header.sizeBucket = sizeBucketBlob then .ok ()
  else failIf (h.store.sha256 (record.parsed.ctBody.getD []) ≠ record.parsed.header.bodyHash.val)
    .rejected

def checkBodyHash (records : List KeyedRecord) : Except Refusal (List Unit) :=
  forEach (fun _ record => h.bodyHash record.toCheckedRecord) 0 records

/-- The two kinds of record this server does not serve. -/
def recordKindIsBuilt (record : CheckedRecord) : Except Reason Unit := do
  failIf (record.parsed.header.retentionClass = .eph ∧ record.parsed.header.ephBucket = 0) .internal
  failIf (record.parsed.header.sizeBucket = sizeBucketBlob) .internal

def storeRecord (record : CheckedRecord) : Except Reason Store.Record := do
  recordKindIsBuilt record
  orFail (columnsOf h.layer record) .internal

def storeRecords (records : List KeyedRecord) : Except Refusal (List Store.Record) :=
  forEach (fun _ record => h.storeRecord record.toCheckedRecord) 0 records

def resultOf (groupId : Bytes) (result : Store.SubmitResult) : SubmitResult where
  reason := result.reason
  recordId := if accepted result.reason then result.recordId else 0
  currentEpoch := result.currentEpoch
  winningCommit := result.winningCommit.bind fun record =>
    rebuildRecord h.layer groupId record false
  applied := result.applied

def checkCreate (now : Time) (request : CreateGroupRequest) :
    Except Reason (CheckedRecord × Option EpochKeyDelivery) := do
  failIf (request.bootstrapWriteKey.length ≠ epochKeyBytes) .rejected
  let record ← h.staticShape now request.groupId request.initialCommit
  failIf (¬ record.parsed.header.isCommit ∨ record.parsed.header.epoch ≠ 0) .rejected
  failIf (opensEpochOf record.attachment ≠ some 1) .rejected
  match epochKeyAlignment [record] [request.epochKeys] with
  | .error _ => .error .rejected
  | .ok none => .ok (record, none)
  | .ok (some (keys, _)) =>
    match checkEpochKeysDigest h.layer request.groupId record.attachment keys with
    | .error _ => .error .rejected
    | .ok _ => .ok (record, some keys)

end Handler

/-- A refusal ahead of the transaction, on every record of the batch. -/
def refuseBatch (count : ℕ) (refused : Refusal) : List SubmitResult :=
  (List.range count).map fun index =>
    { reason :=
        if refused.index = none ∨ refused.index = some index then refused.reason else .rejected }

structure Answer where
  reason : Reason
  results : List SubmitResult := []
  deriving DecidableEq

/-- The answer to a refused submission: on its records, or on the envelope when it has none. -/
def refusalAnswer (count : ℕ) (refused : Refusal) : Answer :=
  if count = 0 then ⟨refused.reason, []⟩ else ⟨.ok, refuseBatch count refused⟩

end MessageServer.Api
