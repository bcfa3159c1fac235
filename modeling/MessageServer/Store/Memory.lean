import MessageServer.Store.Retention
import Mathlib.Logic.Function.Basic

/-! # The in-memory store

The transaction of a submission is cut at its locks: the probe reads before the
row lock, the gates and the writes run under it, and an answer decided before
the lock is filled in by one more read.
-/

namespace MessageServer.Store

/-- The limits of a store and the hash `crypto/sha256` computes. -/
structure Config where
  limits : Limits
  sha256 : Bytes → Bytes

structure RecordRow where
  record : Record
  pruneAfter : Option Time
  createTime : Time
  policy : ℕ

structure ClaimKey where
  sender : Bytes
  streamIndex : ℕ
  deriving DecidableEq

structure ClaimRow where
  recordId : ℕ
  bodyHash : Bytes
  headHash : Bytes
  createTime : Time

/-- The winner of an epoch, held whole so that a loser can be handed its bytes. -/
structure CommitRow where
  epoch : ℕ
  recordId : ℕ
  record : Record

structure SenderRow where
  lastStreamIndex : ℕ
  recordCount : ℕ
  byteCount : ℕ
  lastTime : Time

structure EpochRow where
  epoch : ℕ
  writeKey : Slice
  readKey : Slice
  readKeyInstall : Option Time
  algId : ℕ
  expectedWrapCount : ℕ
  openedByRecord : ℕ
  acceptTime : Time
  retireTime : Option Time

structure RecoveryRow where
  verifyPub : Bytes
  algId : ℕ
  firstSeen : Time

structure MemoryGroup where
  groupId : Bytes
  createTime : Time
  currentEpoch : ℕ
  nextRecordId : ℕ
  mediaTtlSeconds : ℕ
  durableTtlSeconds : Option ℕ
  policyVersion : ℕ
  epochComplete : Bool
  groupContextHash : Slice
  closed : Bool
  closeTime : Option Time
  records : List RecordRow
  claims : ClaimKey → Option ClaimRow
  commits : ℕ → Option CommitRow
  senders : Bytes → Option SenderRow
  epochs : ℕ → Option EpochRow
  recovery : Bytes → Option RecoveryRow

structure MemoryStore where
  groups : Bytes → Option MemoryGroup

namespace MemoryStore

def empty : MemoryStore := ⟨fun _ => none⟩

def setGroup (s : MemoryStore) (groupId : Bytes) (g : MemoryGroup) : MemoryStore :=
  ⟨Function.update s.groups groupId (some g)⟩

end MemoryStore

structure GroupState where
  currentEpoch : ℕ
  nextRecordId : ℕ
  mediaTtlSeconds : ℕ
  durableTtlSeconds : Option ℕ
  policyVersion : ℕ
  epochComplete : Bool
  groupContextHash : Slice

def MemoryGroup.state (g : MemoryGroup) : GroupState where
  currentEpoch := g.currentEpoch
  nextRecordId := g.nextRecordId
  mediaTtlSeconds := g.mediaTtlSeconds
  durableTtlSeconds := g.durableTtlSeconds
  policyVersion := g.policyVersion
  epochComplete := g.epochComplete
  groupContextHash := g.groupContextHash

/-- One epoch's key custody, as the store answers it. -/
structure EpochKeys where
  epoch : ℕ
  writeKey : Slice
  readKey : Slice
  readKeyInstall : Option Time
  algId : ℕ
  openedByRecord : ℕ
  acceptTime : Time
  retireTime : Option Time

structure CreateGroupRequest where
  groupId : Bytes
  initialCommit : Option Record
  bootstrapWriteKey : Bytes
  epochKeys : Option EpochKeyDelivery

structure CreateGroupResult where
  reason : Reason
  currentEpoch : ℕ := 0
  recordId : ℕ := 0
  applied : Option RetentionApplied := none

structure SubmitRequest where
  groupId : Bytes
  records : List Record
  epochKeys : Option EpochKeyDelivery

structure SubmitResult where
  reason : Reason := .ok
  recordId : ℕ := 0
  currentEpoch : ℕ := 0
  winningCommit : Option Record := none
  applied : Option RetentionApplied := none
  deriving DecidableEq

structure FetchRequest where
  groupId : Bytes
  sinceRecordId : ℕ
  limit : ℕ
  headsOnly : Bool
  classMask : ℕ
  readEpoch : ℕ

structure FetchResult where
  records : List Record
  nextRecordId : ℕ
  highWaterRecordId : ℕ
  complete : Bool

inductive ProbeOutcome
  | absent | identical | differs
  deriving DecidableEq

structure Pending where
  record : Record
  result : SubmitResult := {}
  probe : ProbeOutcome := .absent
  settled : Bool := false

section Reads

variable (s : MemoryStore)

def groupState (groupId : Bytes) : Except Error GroupState := do
  checkLength groupId groupIdBytes
  match s.groups groupId with
  | none => throw .groupUnavailable
  | some g => if g.closed then throw .groupUnavailable else pure g.state

def epochKeys (groupId : Bytes) (epoch : ℕ) : Except Error EpochKeys := do
  checkLength groupId groupIdBytes
  match s.groups groupId with
  | none => throw .epochKeyUnknown
  | some g =>
    if g.closed then throw .epochKeyUnknown
    else
      match g.epochs epoch with
      | none => throw .epochKeyUnknown
      | some row =>
        if row.writeKey = none ∧ row.readKey = none then throw .epochKeyUnknown
        else pure {
          epoch := row.epoch
          writeKey := row.writeKey
          readKey := row.readKey
          readKeyInstall := row.readKeyInstall
          algId := row.algId
          openedByRecord := row.openedByRecord
          acceptTime := row.acceptTime
          retireTime := row.retireTime }

def classIncluded (mask retentionClass : ℕ) : Bool :=
  mask == 0 || mask.testBit retentionClass

def RecordRow.read (row : RecordRow) (headsOnly : Bool) : Record :=
  { row.record with
    ctBody := if headsOnly then none else row.record.ctBody
    pruneAfter := row.pruneAfter }

/-- The largest record id at or below an epoch ceiling. -/
def highWaterRecordId (readEpoch : ℕ) (rows : List RecordRow) : ℕ :=
  rows.foldl (fun high row =>
    if readEpoch < row.record.epoch then high else max high row.record.recordId) 0

def fetchPage (request : FetchRequest) : FetchResult → List RecordRow → FetchResult
  | result, [] => result
  | result, row :: rows =>
    if request.readEpoch < row.record.epoch then fetchPage request result rows
    else if row.record.recordId ≤ request.sinceRecordId then fetchPage request result rows
    else if ¬ classIncluded request.classMask row.record.retentionClass then
      fetchPage request result rows
    else if request.limit ≠ 0 ∧ result.records.length % 2 ^ 32 = request.limit then
      { result with complete := false }
    else
      fetchPage request
        { result with
          records := result.records ++ [row.read request.headsOnly]
          nextRecordId := row.record.recordId } rows

def fetch (request : FetchRequest) : Except Error FetchResult := do
  checkLength request.groupId groupIdBytes
  match s.groups request.groupId with
  | none => throw .groupUnavailable
  | some g =>
    if g.closed then throw .groupUnavailable
    else pure (fetchPage request {
      records := []
      nextRecordId := request.sinceRecordId
      highWaterRecordId := highWaterRecordId request.readEpoch g.records
      complete := true } g.records)

end Reads

def closeGroup (now : Time) (s : MemoryStore) (groupId : Bytes) : MemoryStore × Except Error Unit :=
  match checkLength groupId groupIdBytes with
  | .error e => (s, .error e)
  | .ok _ =>
    match s.groups groupId with
    | none => (s, .error .groupUnavailable)
    | some g =>
      if g.closed then (s, .error .groupUnavailable)
      else (s.setGroup groupId { g with closed := true, closeTime := some now }, .ok ())

end MessageServer.Store
