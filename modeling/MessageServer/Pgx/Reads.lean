import Mathlib.Data.Finset.Sort
import MessageServer.Pgx.Tables

/-! # Reads of the SQL store

A row back into the record it was made of, with the keys of an epoch attachment
read out of the row of that epoch, and the one statement that answers a fetch:
the high water under the ceiling and a page of the log, of one snapshot.
-/

namespace MessageServer.Pgx

open Store Transaction

/-- The SQL store: its limits, its hash and its keys. -/
structure PgxStore extends Config where
  keys : KekRing

section Decode

variable (ring : KekRing) (groupId : Bytes)

def unwrapColumn (label : WrapLabel) (epoch : ℕ) : Slice → Except Error Slice
  | none => .ok none
  | some wrapped => (ring.unwrap label groupId epoch wrapped).map some

/-- The attachment of a row; the two keys of an epoch attachment come from the joined epoch. -/
def attachmentOf (columns : AttachmentColumns) (writeWrapped readWrapped : Slice) :
    Except Error (Option Attachment) :=
  let epoch := columns.epoch.elim 0 uint64
  match uint8 columns.kind with
  | 1 => do
    let writeKey ← unwrapColumn ring groupId .writeKey epoch writeWrapped
    let readKey ← unwrapColumn ring groupId .readKey epoch readWrapped
    pure (some {
      kind := .epoch
      epoch := some {
        epoch := epoch
        writeKey := writeKey
        readKey := readKey
        algId := columns.algId.elim 0 uint32
        mediaTtlSeconds := columns.mediaTtl.elim 0 uint32
        durableTtlSeconds := columns.durableTtl.elim 0 uint32
        groupContextHash := columns.groupContextHash
        expectedWrapCount := columns.expectedWrapCount.elim 0 uint32 } })
  | 2 => .ok (some {
      kind := .wrap
      wrap := some {
        targetHandle := columns.wrapTarget.getD []
        leafIndex := columns.leafIndex.elim 0 uint32 } })
  | 3 => .ok (some {
      kind := .recovery
      recovery := some {
        handle := columns.recoveryHandle.getD []
        verifyPub := columns.verifyPub.getD []
        algId := columns.algId.elim 0 uint32 } })
  | 4 => .ok (some {
      kind := .epochComplete
      epochComplete := some {
        epoch := epoch
        wrapCount := columns.wrapCount.elim 0 uint32 } })
  | 5 => .ok (some {
      kind := .epochDigest
      epochDigest := some {
        epoch := epoch
        algId := columns.algId.elim 0 uint32
        mediaTtlSeconds := columns.mediaTtl.elim 0 uint32
        durableTtlSeconds := columns.durableTtl.elim 0 uint32
        groupContextHash := columns.groupContextHash
        expectedWrapCount := columns.expectedWrapCount.elim 0 uint32
        epochKeysDigest := columns.epochKeysDigest } })
  | _ => .ok none

def unixMilli (column : ℤ) : ℤ := column / 1000

def recordOf (recordId : ℤ) (row : MessageRecord) (writeWrapped readWrapped : Slice) :
    Except Error Record := do
  let attachment ← attachmentOf ring groupId row.attachment writeWrapped readWrapped
  pure {
    senderHandle := row.senderHandle
    epoch := uint64 row.epoch
    streamIndex := uint64 row.streamIndex
    isCommit := row.isCommit
    retentionClass := uint8 row.retentionClass
    ephWindow := uint64 row.ephWindow
    sizeBucket := uint8 row.sizeBucket
    expireAtMs := row.expireAt.elim 0 fun t => uint64 (unixMilli t)
    bodyHash := row.bodyHash
    ctHead := row.ctHead
    ctBody := row.ctBody
    blobId := row.blobId
    serverAttachment := row.serverAttachment
    attachment := attachment
    recordId := uint64 recordId
    pruneAfter := row.pruneAfter.map instant }

/-- The wrapped keys of the epoch that a row's attachment names. -/
def joinedEpoch (d : Database) (columns : AttachmentColumns) : Slice × Slice :=
  match columns.epoch.bind fun epoch => d.lookup (.epoch groupId epoch) with
  | none => (none, none)
  | some (row : MessageEpoch) => (row.writeKeyWrapped, row.readKeyWrapped)

def readRow (d : Database) (recordId : ℤ) (row : MessageRecord) : Except Error Record :=
  let joined := joinedEpoch groupId d row.attachment
  recordOf ring groupId recordId row joined.1 joined.2

end Decode

def recordIdOf (groupId : Bytes) : Key → Option ℤ
  | .record g id => if g = groupId then some id else none
  | _ => none

theorem recordIdOf_eq_some {groupId : Bytes} {k : Key} {id : ℤ} :
    recordIdOf groupId k = some id ↔ k = .record groupId id := by
  cases k with
  | record g i =>
    by_cases hg : g = groupId
    · simp [recordIdOf, hg]
    · simp [recordIdOf, hg]
  | group | epoch | claim | commit | sender | recovery => simp [recordIdOf]

def recordIds (d : Database) (groupId : Bytes) : List ℤ :=
  (d.keys.filterMap (recordIdOf groupId) fun k k' id hk hk' => by
    rw [Option.mem_def, recordIdOf_eq_some] at hk hk'
    rw [hk, hk']).sort

/-- The rows of a group's log, in the order of their ids. -/
def recordRows (d : Database) (groupId : Bytes) : List (ℤ × MessageRecord) :=
  (recordIds d groupId).filterMap fun id => (d.lookup (.record groupId id)).map fun row => (id, row)

def maxColumn : List ℤ → Option ℤ := List.max?

structure FetchArgs where
  since : ℤ
  limit : Option ℕ
  classMask : ℕ
  ceiling : ℤ

def fetchArgs (request : FetchRequest) : FetchArgs where
  since := min request.sinceRecordId maxInt64
  limit := if request.limit ≠ 0 then some (request.limit + 1) else none
  classMask := request.classMask
  ceiling := min request.readEpoch maxInt64

/-- The columns of a row that the page reads; a page of heads drops the body. -/
def recordColumns (headsOnly : Bool) (row : MessageRecord) : MessageRecord :=
  { row with ctBody := if headsOnly then none else row.ctBody }

def FetchArgs.includes (args : FetchArgs) (row : ℤ × MessageRecord) : Bool :=
  args.since < row.1 && row.2.epoch ≤ args.ceiling &&
    (args.classMask == 0 || args.classMask &&& 1 <<< row.2.retentionClass.toNat != 0)

def FetchArgs.page (args : FetchArgs) (rows : List (ℤ × MessageRecord)) :
    List (ℤ × MessageRecord) :=
  match args.limit with
  | none => rows.filter args.includes
  | some limit => (rows.filter args.includes).take limit

/-- The rows of the fetch statement: the high water and a row of the page, or NULLs for it. -/
def fetchQuery (args : FetchArgs) (headsOnly : Bool) (d : Database) (groupId : Bytes) :
    List (Option ℤ × Option (ℤ × MessageRecord)) :=
  match (d.lookup (.group groupId) : Option MessageGroup) with
  | none => []
  | some state =>
    if state.closed then []
    else
      let rows := recordRows d groupId
      let highWater := maxColumn ((rows.filter fun row => row.2.epoch ≤ args.ceiling).map (·.1))
      let page := args.page rows
      if page = [] then [(highWater, none)]
      else page.map fun row => (highWater, some (row.1, recordColumns headsOnly row.2))

/-- The page of the records that a statement returned, cut to the limit. -/
def pageOf (request : FetchRequest) (highWater : Option ℤ) (records : List Record) : FetchResult :=
  let truncated : Bool := request.limit ≠ 0 ∧ request.limit < records.length % 2 ^ 32
  let records := if truncated then records.take request.limit else records
  { records := records
    nextRecordId := records.getLast?.elim request.sinceRecordId (·.recordId)
    highWaterRecordId := highWater.elim 0 uint64
    complete := !truncated }

def fetchResult (store : PgxStore) (request : FetchRequest) (d : Database) :
    Except Error FetchResult := do
  let rows := fetchQuery (fetchArgs request) request.headsOnly d request.groupId
  let records ← (rows.filterMap (·.2)).mapM fun row =>
    readRow store.keys request.groupId d row.1 row.2
  match rows.head? with
  | none => .error (.store .groupUnavailable)
  | some (highWater, _) => pure (pageOf request highWater records)

/-- A fetch against the database as its one statement sees it. -/
def fetch (store : PgxStore) (d : Database) (request : FetchRequest) : Except Error FetchResult :=
  match checkLength request.groupId groupIdBytes with
  | .error e => .error (.store e)
  | .ok _ => fetchResult store request d

end MessageServer.Pgx
