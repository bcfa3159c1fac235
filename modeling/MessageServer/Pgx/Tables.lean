import MessageServer.Lib.Transaction
import MessageServer.Pgx.Kek
import MessageServer.Store.Submit

/-! # The tables of the SQL store

The columns of the seven tables a group has rows in, with their CHECKs and the
ranges of their types, and the projections between a record and its row. A
`bigint` is an integer, a `timestamp` is one of microseconds, and a byte column
that may be NULL is a slice.
-/

namespace MessageServer.Pgx

open Store Transaction

/-- Go's conversion of an unsigned integer to a signed one of the same width. -/
def int64 (n : ℕ) : ℤ := Int.bmod n (2 ^ 64)
def int32 (n : ℕ) : ℤ := Int.bmod n (2 ^ 32)

/-- Go's conversion of a signed integer to an unsigned one. -/
def uint64 (z : ℤ) : ℕ := (z % 18446744073709551616).toNat
def uint32 (z : ℤ) : ℕ := (z % 4294967296).toNat
def uint8 (z : ℤ) : ℕ := (z % 256).toNat

/-- The microseconds of an instant, which is what a `timestamp` column takes of it. -/
def timestamp (t : Time) : ℤ := t / 1000

/--
What the driver sends of an instant: the microseconds since the year 2000, of 64 bits, which wrap.
The instants of the clock, and the deadlines counted from it, are far from where they do.
-/
def sent (t : Time) : ℤ := Int.bmod (timestamp t - 946684800000000) (2 ^ 64) + 946684800000000

def instant (column : ℤ) : Time := column * 1000

section Conversions

variable {n : ℕ} {z : ℤ}

theorem uint64_of_nonneg (h : 0 ≤ z) (hz : z < 18446744073709551616) : uint64 z = z.toNat := by
  rw [uint64, Int.emod_eq_of_lt h hz]

theorem uint8_of_nonneg (h : 0 ≤ z) (hz : z < 256) : uint8 z = z.toNat := by
  rw [uint8, Int.emod_eq_of_lt h hz]

theorem uint64_natCast (h : n < 2 ^ 64) : uint64 n = n := by
  unfold uint64
  omega

theorem uint32_natCast (h : n < 2 ^ 32) : uint32 n = n := by
  unfold uint32
  omega

theorem int64_of_lt (h : n < 2 ^ 63) : int64 n = n := by
  unfold int64
  rw [Int.bmod_def]
  split <;> omega

theorem int32_of_lt (h : n < 2 ^ 31) : int32 n = n := by
  unfold int32
  rw [Int.bmod_def]
  split <;> omega

theorem int64_neg (h : 2 ^ 63 ≤ n) (hn : n < 2 ^ 64) : int64 n < 0 := by
  unfold int64
  rw [Int.bmod_def]
  split <;> omega

theorem int32_neg (h : 2 ^ 31 ≤ n) (hn : n < 2 ^ 32) : int32 n < 0 := by
  unfold int32
  rw [Int.bmod_def]
  split <;> omega

end Conversions

structure MessageGroup where
  createTime : ℤ
  currentEpoch : ℤ
  nextRecordId : ℤ
  mediaTtlSeconds : ℤ
  durableTtlSeconds : Option ℤ
  groupContextHash : Slice
  policyVersion : ℤ
  epochComplete : Bool
  closed : Bool
  closeTime : Option ℤ
  deriving DecidableEq

structure MessageEpoch where
  writeKeyWrapped : Slice
  readKeyWrapped : Slice
  readKeyInstall : Option ℤ
  algId : ℤ
  openedByRecord : Option ℤ
  acceptTime : ℤ
  retireTime : Option ℤ
  expectedWrapCount : ℤ
  deriving DecidableEq

structure AttachmentColumns where
  kind : ℤ
  epoch : Option ℤ := none
  algId : Option ℤ := none
  mediaTtl : Option ℤ := none
  durableTtl : Option ℤ := none
  groupContextHash : Slice := none
  expectedWrapCount : Option ℤ := none
  leafIndex : Option ℤ := none
  verifyPub : Slice := none
  wrapCount : Option ℤ := none
  recoveryHandle : Slice := none
  wrapTarget : Slice := none
  epochKeysDigest : Slice := none
  deriving DecidableEq

structure MessageRecord where
  senderHandle : Bytes
  epoch : ℤ
  streamIndex : ℤ
  isCommit : Bool
  retentionClass : ℤ
  ephWindow : ℤ
  sizeBucket : ℤ
  expireAt : Option ℤ
  pruneAfter : Option ℤ
  policyVersion : ℤ
  bodyHash : Bytes
  ctHead : Bytes
  ctBody : Slice
  blobId : Slice
  serverAttachment : Bytes
  createTime : ℤ
  attachment : AttachmentColumns
  deriving DecidableEq

structure MessageStreamClaim where
  recordId : ℤ
  bodyHash : Bytes
  headHash : Bytes
  createTime : ℤ
  deriving DecidableEq

structure MessageCommit where
  recordId : ℤ
  deriving DecidableEq

structure MessageSender where
  lastStreamIndex : ℤ
  recordCount : ℤ
  byteCount : ℤ
  lastTime : ℤ
  deriving DecidableEq

structure MessageRecovery where
  verifyPub : Bytes
  algId : ℤ
  firstSeen : ℤ
  deriving DecidableEq

inductive Key
  | group (groupId : Bytes)
  | epoch (groupId : Bytes) (epoch : ℤ)
  | record (groupId : Bytes) (recordId : ℤ)
  | claim (groupId senderHandle : Bytes) (streamIndex : ℤ)
  | commit (groupId : Bytes) (epoch : ℤ)
  | sender (groupId senderHandle : Bytes)
  | recovery (groupId recoveryHandle : Bytes)
  deriving DecidableEq

def Key.groupId : Key → Bytes
  | .group g | .epoch g _ | .record g _ | .claim g _ _ | .commit g _ | .sender g _
  | .recovery g _ => g

abbrev Row : Key → Type
  | .group _ => MessageGroup
  | .epoch _ _ => MessageEpoch
  | .record _ _ => MessageRecord
  | .claim _ _ _ => MessageStreamClaim
  | .commit _ _ => MessageCommit
  | .sender _ _ => MessageSender
  | .recovery _ _ => MessageRecovery

abbrev Database := Finmap Row

def isBigint (z : ℤ) : Bool := -9223372036854775808 ≤ z && z ≤ 9223372036854775807
def isInt (z : ℤ) : Bool := -2147483648 ≤ z && z ≤ 2147483647

theorem isBigint_natCast {n : ℕ} (h : n < 2 ^ 63) : isBigint n = true := by
  simp only [isBigint, Bool.and_eq_true, decide_eq_true_eq]
  omega

theorem isInt_natCast {n : ℕ} (h : n < 2 ^ 31) : isInt n = true := by
  simp only [isInt, Bool.and_eq_true, decide_eq_true_eq]
  omega

@[simp] theorem isInt_int32 (n : ℕ) : isInt (int32 n) = true := by
  have hr : -2147483648 ≤ int32 n ∧ int32 n ≤ 2147483647 := by
    unfold int32
    rw [Int.bmod_def]
    split <;> omega
  simp only [isInt, Bool.and_eq_true, decide_eq_true_eq]
  exact hr

def maxInt64 : ℕ := 2 ^ 63 - 1

def isTimestamp (z : ℤ) : Bool := -210866803200000000 ≤ z && z < 9224318016000000000

theorem sent_of_isTimestamp {t : Time} (h : isTimestamp (timestamp t) = true) :
    sent t = timestamp t := by
  simp only [isTimestamp, Bool.and_eq_true, decide_eq_true_eq] at h
  rw [sent, Int.bmod_eq_of_le (by omega) (by omega), Int.sub_add_cancel]

def isNullOr (length : ℕ) (column : Slice) : Bool := column.all (·.length == length)

def MessageGroup.admitted (row : MessageGroup) : Bool :=
  isTimestamp row.createTime && isBigint row.currentEpoch && isBigint row.nextRecordId &&
    isInt row.mediaTtlSeconds && row.durableTtlSeconds.all isInt && isInt row.policyVersion &&
    row.closeTime.all isTimestamp &&
    0 ≤ row.currentEpoch && 1 ≤ row.nextRecordId && 0 < row.mediaTtlSeconds &&
    row.durableTtlSeconds.all (0 < ·) && isNullOr groupContextHashBytes row.groupContextHash &&
    (!row.closed || row.closeTime.isSome)

def MessageEpoch.admitted (row : MessageEpoch) : Bool :=
  row.readKeyInstall.all isTimestamp && isInt row.algId && row.openedByRecord.all isBigint &&
    isTimestamp row.acceptTime && row.retireTime.all isTimestamp &&
    isBigint row.expectedWrapCount && isNullOr wrapSize row.writeKeyWrapped &&
    isNullOr wrapSize row.readKeyWrapped &&
    (row.readKeyWrapped.isNone == row.readKeyInstall.isNone)

def AttachmentColumns.admitted (columns : AttachmentColumns) : Bool :=
  columns.epoch.all isBigint && columns.algId.all isBigint && columns.mediaTtl.all isBigint &&
    columns.durableTtl.all isBigint && columns.expectedWrapCount.all isBigint &&
    columns.leafIndex.all isBigint && columns.wrapCount.all isBigint &&
    isNullOr recoveryHandleBytes columns.recoveryHandle &&
    isNullOr wrapTargetHandleBytes columns.wrapTarget &&
    isNullOr verifyPubBytes columns.verifyPub &&
    isNullOr groupContextHashBytes columns.groupContextHash &&
    isNullOr 32 columns.epochKeysDigest

def MessageRecord.admitted (row : MessageRecord) : Bool :=
  isBigint row.epoch && isBigint row.streamIndex && isBigint row.ephWindow &&
    row.expireAt.all isTimestamp && row.pruneAfter.all isTimestamp && isInt row.policyVersion &&
    isTimestamp row.createTime &&
    row.senderHandle.length == senderHandleBytes && row.bodyHash.length == bodyHashBytes &&
    isNullOr blobIdBytes row.blobId && (row.ctBody.isNone || row.blobId.isNone) &&
    0 ≤ row.streamIndex &&
    (0 ≤ row.retentionClass && row.retentionClass ≤ 2 ||
      16 ≤ row.retentionClass && row.retentionClass ≤ 21) &&
    0 ≤ row.sizeBucket && row.sizeBucket ≤ 5 && 0 ≤ row.ephWindow &&
    (row.ephWindow == 0 || 17 ≤ row.retentionClass && row.retentionClass ≤ 21) &&
    row.attachment.admitted

/-- The row fits the types of its columns and passes the CHECKs of its table. -/
def admits : ∀ k, Row k → Bool
  | .group g, row => g.length == groupIdBytes && MessageGroup.admitted row
  | .epoch g e, row => g.length == groupIdBytes && isBigint e && MessageEpoch.admitted row
  | .record g id, row => g.length == groupIdBytes && isBigint id && MessageRecord.admitted row
  | .claim g h i, row => g.length == groupIdBytes && h.length == senderHandleBytes &&
      isBigint i && isBigint row.recordId && row.bodyHash.length == bodyHashBytes &&
      row.headHash.length == 32 && isTimestamp row.createTime
  | .commit g e, row => g.length == groupIdBytes && isBigint e && isBigint row.recordId
  | .sender g h, row => g.length == groupIdBytes && h.length == senderHandleBytes &&
      isBigint row.lastStreamIndex && isBigint row.recordCount && isBigint row.byteCount &&
      isTimestamp row.lastTime
  | .recovery g h, row => g.length == groupIdBytes && h.length == recoveryHandleBytes &&
      row.verifyPub.length == verifyPubBytes && isInt row.algId && isTimestamp row.firstSeen

def schema : Schema Row Error := ⟨admits, .violation, .lost⟩

@[simp] theorem schema_admits : schema.admits = admits := rfl

def kindCode : AttachmentKind → ℤ
  | .none => 0
  | .epoch => 1
  | .wrap => 2
  | .recovery => 3
  | .epochComplete => 4
  | .epochDigest => 5
  | .undefined code => code.toNat

/-- A byte slice as a column; an empty one stands for nil, which is NULL. -/
def column (bytes : Bytes) : Slice := if bytes = [] then none else some bytes

/-- The attachment of a record, decomposed; the keys of an epoch attachment are left out. -/
def projectAttachment (record : Record) : AttachmentColumns :=
  let columns : AttachmentColumns := { kind := kindCode (attachmentKindOf record) }
  match record.attachment with
  | none => columns
  | some attachment =>
    match attachment.kind with
    | .epoch =>
      match attachment.epoch with
      | none => columns
      | some epoch => { columns with
          epoch := some (int64 epoch.epoch)
          algId := some epoch.algId
          mediaTtl := some epoch.mediaTtlSeconds
          durableTtl := some epoch.durableTtlSeconds
          groupContextHash := epoch.groupContextHash
          expectedWrapCount := some epoch.expectedWrapCount }
    | .wrap =>
      match attachment.wrap with
      | none => columns
      | some wrap => { columns with
          wrapTarget := column wrap.targetHandle
          leafIndex := some wrap.leafIndex }
    | .recovery =>
      match attachment.recovery with
      | none => columns
      | some tag => { columns with
          recoveryHandle := column tag.handle
          verifyPub := column tag.verifyPub
          algId := some tag.algId }
    | .epochComplete =>
      match attachment.epochComplete with
      | none => columns
      | some marker => { columns with
          epoch := some (int64 marker.epoch)
          wrapCount := some marker.wrapCount }
    | .epochDigest =>
      match attachment.epochDigest with
      | none => columns
      | some digest => { columns with
          epoch := some (int64 digest.epoch)
          algId := some digest.algId
          mediaTtl := some digest.mediaTtlSeconds
          durableTtl := some digest.durableTtlSeconds
          groupContextHash := digest.groupContextHash
          expectedWrapCount := some digest.expectedWrapCount
          epochKeysDigest := digest.epochKeysDigest }
    | .none | .undefined _ => columns

def expireAt (milliseconds : ℕ) : Option Time :=
  if milliseconds = 0 then none else some (int64 milliseconds * 1000000)

def recordRow (record : Record) (now : Time) (prune : Option Time) (policyVersion : ℕ) :
    MessageRecord where
  senderHandle := record.senderHandle
  epoch := int64 record.epoch
  streamIndex := int64 record.streamIndex
  isCommit := record.isCommit
  retentionClass := record.retentionClass
  ephWindow := int64 record.ephWindow
  sizeBucket := record.sizeBucket
  expireAt := (expireAt record.expireAtMs).map sent
  pruneAfter := prune.map timestamp
  policyVersion := int32 policyVersion
  bodyHash := record.bodyHash
  ctHead := record.ctHead
  ctBody := record.ctBody
  blobId := record.blobId
  serverAttachment := record.serverAttachment
  createTime := timestamp now
  attachment := projectAttachment record

end MessageServer.Pgx
