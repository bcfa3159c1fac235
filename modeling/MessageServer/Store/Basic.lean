import Mathlib.Algebra.Group.Nat.Defs
import Mathlib.Data.List.Basic
import Mathlib.Data.Nat.Notation
import Mathlib.Data.Int.Notation
import Mathlib.Logic.Unique

/-! # Records, attachments and answers of the store

The columns of a stored record, the attachments a server can see, the reason
codes, and the shape checks a caller of the store must pass. Unsigned counters
are natural numbers; a byte slice whose absence the code tests is an `Option`.
-/

namespace MessageServer

abbrev Bytes := List UInt8

instance : LawfulBEq Bytes := inferInstance

abbrev Slice := Option Bytes

def Slice.len (s : Slice) : ℕ := (s.getD []).length

abbrev Time := ℤ

inductive Reason
  | ok | rejected | epochStale | commitLost | streamIndexReused | streamIndexRegressed
  | oversize | quotaExceeded | rateLimited | retentionClamped | blobUnknown | blobIncomplete
  | unsupportedVersion | internal | epochIncomplete | wrapTargetUnknown | cardRetired
  | cardRateLimited
  deriving DecidableEq, Repr

def accepted (reason : Reason) : Bool := reason == .ok || reason == .retentionClamped

def failIf {ε : Type} (c : Prop) [Decidable c] (e : ε) : Except ε Unit :=
  if c then .error e else .ok ()

@[simp] theorem failIf_eq_ok {ε : Type} {c : Prop} [Decidable c] {e : ε} {u : Unit} :
    failIf c e = .ok u ↔ ¬ c := by
  unfold failIf
  split <;> simp_all

variable {ε α β : Type} {x : Except ε α} {b : β}

@[simp] theorem ok_bind {a : α} {f : α → Except ε β} : Except.ok a >>= f = f a := rfl

@[simp] theorem throw_eq {e : ε} : (throw e : Except ε α) = .error e := rfl

theorem bind_eq_ok_iff {f : α → Except ε β} : x >>= f = .ok b ↔ ∃ a, x = .ok a ∧ f a = .ok b := by
  cases x <;> simp [bind, Except.bind]

theorem bind_eq_ok {ε α : Type} {check : Except ε Unit} {rest : Unit → Except ε α} {a : α} :
    check >>= rest = .ok a ↔ check = .ok () ∧ rest () = .ok a :=
  bind_eq_ok_iff.trans Unique.exists_iff

theorem map_eq_ok {f : α → β} : x.map f = .ok b ↔ ∃ a, x = .ok a ∧ f a = b := by
  cases x <;> simp [Except.map]

namespace Store

/-- What the store answers a caller that handed it something no client can cause. -/
inductive Error
  | groupUnavailable | epochKeyUnknown | transientRecord | identifierShape | retentionClass
  | sizeBucket | ephWindowClass | ephWindowRange | inlineOrBlob | commitBatch | emptyBatch
  deriving DecidableEq, Repr

def groupIdBytes : ℕ := 32
def senderHandleBytes : ℕ := 16
def bodyHashBytes : ℕ := 32
def recoveryHandleBytes : ℕ := 16
def wrapTargetHandleBytes : ℕ := 16
def blobIdBytes : ℕ := 32
def groupContextHashBytes : ℕ := 32
def verifyPubBytes : ℕ := 32
def epochKeyBytes : ℕ := 32

def firstRecordId : ℕ := 1

def classPermanent : ℕ := 0x00
def classDurable : ℕ := 0x01
def classMedia : ℕ := 0x02
def classEphBase : ℕ := 0x10
def classEphMax : ℕ := 0x15

/-- The top of the signed column that holds an ephemeral window. -/
def ephWindowMax : ℕ := 2 ^ 63 - 1

/-- The stored kind byte of an attachment, its undefined values included. -/
inductive AttachmentKind
  | none | epoch | wrap | recovery | epochComplete | epochDigest
  | undefined (code : UInt8)
  deriving DecidableEq

/-- The keys and the policy of the epoch a commit opens. -/
structure EpochAttachment where
  epoch : ℕ
  writeKey : Slice
  readKey : Slice
  algId : ℕ
  mediaTtlSeconds : ℕ
  durableTtlSeconds : ℕ
  groupContextHash : Slice
  expectedWrapCount : ℕ
  deriving DecidableEq

structure EpochDigestAttachment where
  epoch : ℕ
  algId : ℕ
  mediaTtlSeconds : ℕ
  durableTtlSeconds : ℕ
  groupContextHash : Slice
  expectedWrapCount : ℕ
  epochKeysDigest : Slice
  deriving DecidableEq

structure WrapTag where
  targetHandle : Bytes
  leafIndex : ℕ
  deriving DecidableEq

structure RecoveryTag where
  handle : Bytes
  verifyPub : Bytes
  algId : ℕ
  deriving DecidableEq

structure EpochCompleteTag where
  epoch : ℕ
  wrapCount : ℕ
  deriving DecidableEq

structure Attachment where
  kind : AttachmentKind
  epoch : Option EpochAttachment := none
  wrap : Option WrapTag := none
  recovery : Option RecoveryTag := none
  epochComplete : Option EpochCompleteTag := none
  epochDigest : Option EpochDigestAttachment := none
  deriving DecidableEq

/-- A record decomposed into its columns; the id and the prune time are the server's. -/
structure Record where
  senderHandle : Bytes
  epoch : ℕ
  streamIndex : ℕ
  isCommit : Bool
  retentionClass : ℕ
  ephWindow : ℕ
  sizeBucket : ℕ
  expireAtMs : ℕ
  bodyHash : Bytes
  ctHead : Bytes
  ctBody : Slice
  blobId : Slice
  serverAttachment : Bytes
  attachment : Option Attachment
  recordId : ℕ := 0
  pruneAfter : Option Time := none
  deriving DecidableEq

/-- The two keys of the next epoch, delivered beside a commit. -/
structure EpochKeyDelivery where
  writeKey : Slice
  readKey : Slice
  deriving DecidableEq

/-- The epoch a commit opens, read out of whichever attachment kind carries it. -/
structure EpochOpening where
  epoch : ℕ
  algId : ℕ
  mediaTtlSeconds : ℕ
  durableTtlSeconds : ℕ
  groupContextHash : Slice
  expectedWrapCount : ℕ
  writeKey : Slice
  readKey : Slice
  deriving DecidableEq

def attachmentKindOf (record : Record) : AttachmentKind :=
  match record.attachment with
  | none => .none
  | some attachment => attachment.kind

def recoveryTagOf (record : Record) : Option RecoveryTag :=
  if attachmentKindOf record ≠ .recovery then none
  else record.attachment.bind (·.recovery)

def epochCompleteTagOf (record : Record) : Option EpochCompleteTag :=
  if attachmentKindOf record ≠ .epochComplete then none
  else record.attachment.bind (·.epochComplete)

def exemptFromEpochComplete (record : Record) : Bool :=
  match attachmentKindOf record with
  | .wrap | .epochComplete => true
  | _ => false

def isEpochAttachmentKind : AttachmentKind → Bool
  | .epoch | .epochDigest => true
  | _ => false

/-- The opening a commit announces. A delivery nothing would read is refused. -/
def openingOf (record : Record) (keys : Option EpochKeyDelivery) : Option EpochOpening :=
  match record.attachment with
  | none => none
  | some attachment =>
    match attachment.kind, attachment.epoch, attachment.epochDigest, keys with
    | .epoch, some a, _, none => some {
        epoch := a.epoch
        algId := a.algId
        mediaTtlSeconds := a.mediaTtlSeconds
        durableTtlSeconds := a.durableTtlSeconds
        groupContextHash := a.groupContextHash
        expectedWrapCount := a.expectedWrapCount
        writeKey := a.writeKey
        readKey := a.readKey }
    | .epochDigest, _, some a, some delivery => some {
        epoch := a.epoch
        algId := a.algId
        mediaTtlSeconds := a.mediaTtlSeconds
        durableTtlSeconds := a.durableTtlSeconds
        groupContextHash := a.groupContextHash
        expectedWrapCount := a.expectedWrapCount
        writeKey := delivery.writeKey
        readKey := delivery.readKey }
    | _, _, _, _ => none

/-- The shape and the epoch of an opening, checked before the epoch is opened. -/
def wellFormedEpochAttachment (record : Record) (opens : ℕ)
    (keys : Option EpochKeyDelivery) : Bool :=
  match openingOf record keys with
  | none => false
  | some opening =>
    if opening.epoch ≠ opens then false
    else if opening.writeKey.len ≠ epochKeyBytes then false
    else if opening.readKey.len ≠ epochKeyBytes then false
    else if opening.expectedWrapCount = 0 then false
    else if opening.groupContextHash ≠ none ∧
        opening.groupContextHash.len ≠ groupContextHashBytes then false
    else true

def checkLength (value : Bytes) (want : ℕ) : Except Error Unit :=
  failIf (value.length ≠ want) .identifierShape

def ephWindowClassAllows (retentionClass : ℕ) : Bool :=
  classEphBase < retentionClass && retentionClass ≤ classEphMax

/-- The last check of `validateRecord`: an attachment carries the tag its kind names. -/
def validateAttachment (record : Record) : Except Error Unit :=
  match attachmentKindOf record, record.attachment with
  | .wrap, some attachment =>
    match attachment.wrap with
    | none => .error .identifierShape
    | some tag => checkLength tag.targetHandle wrapTargetHandleBytes
  | .recovery, some attachment =>
    match attachment.recovery with
    | none => .error .identifierShape
    | some tag => do
      checkLength tag.handle recoveryHandleBytes
      checkLength tag.verifyPub verifyPubBytes
  | .epochComplete, some attachment =>
    failIf attachment.epochComplete.isNone .identifierShape
  | .epoch, some attachment =>
    failIf attachment.epoch.isNone .identifierShape
  | _, _ => .ok ()

def validateRecord (record : Record) : Except Error Unit := do
  checkLength record.senderHandle senderHandleBytes
  checkLength record.bodyHash bodyHashBytes
  failIf (record.ctHead.length = 0) .identifierShape
  failIf (5 < record.sizeBucket) .sizeBucket
  failIf (¬ (record.retentionClass ≤ classMedia ∨
    (classEphBase ≤ record.retentionClass ∧ record.retentionClass ≤ classEphMax))) .retentionClass
  failIf (record.retentionClass = classEphBase) .transientRecord
  failIf (ephWindowMax < record.ephWindow) .ephWindowRange
  failIf (record.ephWindow ≠ 0 ∧ ¬ ephWindowClassAllows record.retentionClass) .ephWindowClass
  failIf (record.ctBody.isSome ∧ record.blobId.isSome) .inlineOrBlob
  match record.blobId with
  | none => pure ()
  | some blobId => checkLength blobId blobIdBytes
  validateAttachment record

end Store

end MessageServer
