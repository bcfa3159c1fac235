import MessageServer.Pgx.Reads

/-! # The calls of the SQL store

The four calls as programs of statements. A submission probes its claims on the
pool, in front of the row lock, and everything from the lock on is one
transaction: the gates read, the writes follow them, and a refusal ends it in a
rollback.
-/

namespace MessageServer.Pgx

open Store Transaction

inductive Reply
  | created (result : CreateGroupResult)
  | closed
  | submitted (results : List SubmitResult)

abbrev Statements := Prog Row Error Reply

/-- What a call reads off the clock and the random source. -/
structure Draw where
  now : Time
  nonces : ℕ → Nonce

def orFail {α : Type} : Except Error α → Statements α
  | .ok a => .pure a
  | .error e => .rollback (.error e)

section Rows

variable (groupId : Bytes)

def insertRecord (record : Record) (now : Time) (prune : Option Time) (policyVersion : ℕ) :
    Statements Unit :=
  .insert (.record groupId (int64 record.recordId)) (recordRow record now prune policyVersion)
    .ignore fun _ => pure ()

def claimRow (cfg : Config) (record : Record) (now : Time) : MessageStreamClaim where
  recordId := int64 record.recordId
  bodyHash := record.bodyHash
  headHash := headHash cfg record.ctHead
  createTime := timestamp now

/-- Step (6c): insert, then verify that what is stored is the tag's key. -/
def pinRecoveryHandle (tag : RecoveryTag) (now : Time) : Statements Bool :=
  .insert (.recovery groupId tag.handle) ⟨tag.verifyPub, int32 tag.algId, timestamp now⟩ .ignore
    fun inserted =>
      if inserted then pure false
      else .select fun d =>
        match (d.lookup (.recovery groupId tag.handle) : Option MessageRecovery) with
        | none => .rollback (.error .noRows)
        | some row => pure (row.verifyPub != tag.verifyPub)

def durableColumn (seconds : Option ℕ) : Option ℤ := seconds.map int32

def epochRow (opening : EpochOpening) (writeKey readKey : Bytes) (now : Time) (recordId : ℕ) :
    MessageEpoch where
  writeKeyWrapped := some writeKey
  readKeyWrapped := some readKey
  readKeyInstall := some (timestamp now)
  algId := int32 opening.algId
  openedByRecord := some (int64 recordId)
  acceptTime := timestamp now
  retireTime := none
  expectedWrapCount := opening.expectedWrapCount

def openedColumns (applied : ℕ × Option ℕ × RetentionApplied) (opening : EpochOpening) (opens : ℕ)
    (row : MessageGroup) : MessageGroup :=
  { row with
    currentEpoch := int64 opens
    epochComplete := false
    mediaTtlSeconds := int32 applied.1
    durableTtlSeconds := durableColumn applied.2.1
    groupContextHash := opening.groupContextHash
    policyVersion := row.policyVersion + 1 }

/-- The rows of a group's epochs before one, that still hold a write key. -/
def isSuperseded (epoch : ℤ) : ∀ k, Row k → Bool
  | .epoch g e, row => g = groupId ∧ e < epoch ∧ row.writeKeyWrapped.isSome
  | _, _ => false

def dropWriteKey : ∀ k, Row k → Row k
  | .epoch _ _, row => { row with writeKeyWrapped := none }
  | .group _, row | .record _ _, row | .claim _ _ _, row | .commit _ _, row | .sender _ _, row
  | .recovery _ _, row => row

/-- Step (6b): the marker with the epoch's own wrap count opens the group for ordinary writes. -/
def closeFanOut (currentEpoch : ℕ) (marker : EpochCompleteTag) : Statements Unit :=
  if marker.epoch ≠ currentEpoch then pure ()
  else .select fun d =>
    match (d.lookup (.epoch groupId (int64 currentEpoch)) : Option MessageEpoch) with
    | none => pure ()
    | some row =>
      if uint64 row.expectedWrapCount ≠ marker.wrapCount then pure ()
      else .update (.group groupId) (fun _ => true)
        (fun row => { row with epochComplete := true }) fun _ => pure ()

end Rows

section Epoch

variable (store : PgxStore) (groupId : Bytes) (draw : Draw)

/-- Step (6): open the next epoch, retire the superseded key and erase the older ones. -/
def openEpoch (state : GroupState) (record : Record) (keys : Option EpochKeyDelivery) :
    Statements (ℕ × Option ℕ × RetentionApplied) :=
  match openingOf record keys with
  | none => .rollback (.error (.store .identifierShape))
  | some opening => do
    let opens := state.currentEpoch + 1
    let applied := store.limits.apply opening
    let writeKey ← orFail (store.keys.wrap .writeKey groupId opens (draw.nonces 0) opening.writeKey)
    let readKey ← orFail (store.keys.wrap .readKey groupId opens (draw.nonces 1) opening.readKey)
    .insert (.epoch groupId (int64 opens))
      (epochRow opening writeKey readKey draw.now record.recordId) .raise fun _ =>
    .update (.epoch groupId (int64 state.currentEpoch)) (fun row => row.writeKeyWrapped.isSome)
      (fun row => { row with retireTime := some (timestamp draw.now) }) fun _ =>
    .updateAll (isSuperseded groupId (int64 state.currentEpoch)) dropWriteKey <|
    .update (.group groupId) (fun _ => true) (openedColumns applied opening opens) fun _ =>
    pure applied

/-- The record that consumed an epoch's one commit slot. -/
def winningCommit (epoch : ℕ) (d : Database) : Except Error (Option Record) :=
  match (d.lookup (.commit groupId (int64 epoch)) : Option MessageCommit) with
  | none => .ok none
  | some winner =>
    match (d.lookup (.record groupId winner.recordId) : Option MessageRecord) with
    | none => .ok none
    | some row => (readRow store.keys groupId d winner.recordId row).map some

end Epoch

section Refuse

variable (store : PgxStore) (groupId : Bytes)

/-- The current epoch on a result, and the winner on a refusal of a commit. -/
def fillOne (epoch : ℕ) (p : Pending) : Statements Pending :=
  if ¬ p.record.isCommit ∨ accepted p.result.reason then pure (fillEpoch epoch p)
  else .select fun d => do
    let winner ← orFail (winningCommit store groupId p.record.epoch d)
    let p := fillEpoch epoch p
    pure { p with result := { p.result with winningCommit := winner } }

def fillAll (epoch : ℕ) : List Pending → Statements (List Pending)
  | [] => pure []
  | p :: batch => do
    let p ← fillOne store groupId epoch p
    let batch ← fillAll epoch batch
    pure (p :: batch)

def fill (currentEpoch : ℕ) (batch : List Pending) : Statements (List Pending) :=
  if currentEpoch = 0 then
    .select fun d =>
      match (d.lookup (.group groupId) : Option MessageGroup) with
      | none => pure batch
      | some row =>
        if row.closed then pure batch else fillAll store groupId (uint64 row.currentEpoch) batch
  else fillAll store groupId currentEpoch batch

/-- The end of a batch that wrote nothing, with a reason on every result. -/
def refuse {α : Type} (batch : List Pending) (offender : ℕ) (reason : Reason)
    (currentEpoch : ℕ) : Statements α := do
  let batch ← fill store groupId currentEpoch (markRefused batch offender reason)
  .rollback (.ok (.submitted (resultsOf batch)))

end Refuse

section Gate

variable (store : PgxStore) (groupId : Bytes) (keys : Option EpochKeyDelivery)

/-- Step (3)'s read, for every sender the batch names. -/
def senderHighWater (batch : List Pending) : Statements (Bytes → Option ℕ) :=
  .select fun d => pure fun handle =>
    if handle ∈ batch.map (·.record.senderHandle) then
      (d.lookup (.sender groupId handle) : Option MessageSender).map (uint64 ·.lastStreamIndex)
    else none

def recoveryHandles (batch : List Pending) : List Bytes :=
  batch.filterMap fun p => (recoveryTagOf p.record).map (·.handle)

/-- Step (6c)'s read, skipped when no record carries a recovery tag. -/
def pinnedRecoveryKeys (batch : List Pending) : Statements (Bytes → Option Bytes) :=
  if recoveryHandles batch = [] then pure fun _ => none
  else .select fun d => pure fun handle =>
    if handle ∈ recoveryHandles batch then
      (d.lookup (.recovery groupId handle) : Option MessageRecovery).map (·.verifyPub)
    else none

section Checks

variable (state : GroupState) (record : Record) (highWater : Bytes → Option ℕ)
  (pinned : Bytes → Option Bytes)

/-- The checks of steps (2), (2b), (3) and (6c) behind the one for a lost commit. -/
def gateRest : Reason :=
  if record.epoch ≠ state.currentEpoch then .epochStale
  else if ¬ state.epochComplete ∧ ¬ exemptFromEpochComplete record then .epochIncomplete
  else if record.isCommit ≠ isEpochAttachmentKind (attachmentKindOf record) then .rejected
  else if record.isCommit ∧
      ¬ wellFormedEpochAttachment record (state.currentEpoch + 1) keys then .rejected
  else if (highWater record.senderHandle).any (record.streamIndex ≤ ·) then .streamIndexRegressed
  else if (recoveryTagOf record).any fun tag => (pinned tag.handle).any (· ≠ tag.verifyPub) then
    .rejected
  else .ok

def gate : Statements Reason :=
  if record.isCommit then
    .select fun d =>
      if (d.lookup (.commit groupId (int64 record.epoch)) : Option MessageCommit).isSome then
        pure .commitLost
      else pure (gateRest keys state record highWater pinned)
  else pure (gateRest keys state record highWater pinned)

end Checks

def gateAll (state : GroupState) (batch : List Pending) (pinned : Bytes → Option Bytes) :
    (Bytes → Option ℕ) → ℕ → List Pending → Statements Unit
  | _, _, [] => pure ()
  | highWater, index, p :: rest =>
    if p.settled then gateAll state batch pinned highWater (index + 1) rest
    else do
      let refusal ← gate groupId keys state p.record highWater pinned
      if refusal ≠ .ok then refuse store groupId batch index refusal state.currentEpoch
      else
        gateAll state batch pinned
          (Function.update highWater p.record.senderHandle (some p.record.streamIndex))
          (index + 1) rest

end Gate

section Write

variable (store : PgxStore) (groupId : Bytes) (draw : Draw) (keys : Option EpochKeyDelivery)
  (state : GroupState)

/-- The policy and the epoch that a record is written under, and the answer so far. -/
structure Standing where
  currentEpoch : ℕ
  mediaTtl : ℕ
  durableTtl : Option ℕ
  policy : ℕ
  result : SubmitResult

/-- Steps (5b) and (6): a commit takes its epoch's one slot and opens the next epoch. -/
def advance (batch : List Pending) (offender currentEpoch : ℕ) (record : Record)
    (result : SubmitResult) : Statements Standing :=
  if record.isCommit then
    .insert (.commit groupId (int64 record.epoch)) ⟨int64 record.recordId⟩ .ignore fun won =>
      if won then do
        let applied ← openEpoch store groupId draw state record keys
        pure {
          currentEpoch := state.currentEpoch + 1
          mediaTtl := applied.1
          durableTtl := applied.2.1
          policy := (state.policyVersion + 1) % 2 ^ 32
          result := { result with
            applied := some applied.2.2
            currentEpoch := state.currentEpoch + 1 } }
      else refuse store groupId batch offender .commitLost state.currentEpoch
  else pure ⟨currentEpoch, state.mediaTtlSeconds, state.durableTtlSeconds, state.policyVersion,
    result⟩

/-- Step (7): the sender's high water and accounting. -/
def account (record : Record) : Statements Unit :=
  .insert (.sender groupId record.senderHandle)
    ⟨int64 record.streamIndex, 1, recordBytes record, timestamp draw.now⟩
    (.set fun row => {
      lastStreamIndex := int64 record.streamIndex
      recordCount := row.recordCount + 1
      byteCount := row.byteCount + recordBytes record
      lastTime := timestamp draw.now }) fun _ => pure ()

def completeEpoch (currentEpoch : ℕ) (record : Record) : Statements Unit :=
  match epochCompleteTagOf record with
  | none => pure ()
  | some marker => closeFanOut groupId currentEpoch marker

/-- Step (6c), for a record that carries a recovery tag. -/
def bindRecovery (batch : List Pending) (offender : ℕ) (record : Record) : Statements Unit :=
  match recoveryTagOf record with
  | none => pure ()
  | some tag => do
    let rebound ← pinRecoveryHandle groupId tag draw.now
    if rebound then refuse store groupId batch offender .rejected state.currentEpoch
    else pure ()

/-- The rows of one record, and its answer with the epoch the batch is at then. -/
def writeOne (batch : List Pending) (offender currentEpoch : ℕ) (record : Record)
    (result : SubmitResult) : Statements (ℕ × SubmitResult) := do
  let standing ← advance store groupId draw keys state batch offender currentEpoch record result
  completeEpoch groupId standing.currentEpoch record
  .insert (.claim groupId record.senderHandle (int64 record.streamIndex))
    (claimRow store.toConfig record draw.now) .ignore fun _ => pure ()
  insertRecord groupId record draw.now
    (pruneAfter draw.now record.retentionClass standing.mediaTtl standing.durableTtl)
    standing.policy
  bindRecovery store groupId draw state batch offender record
  account groupId draw record
  pure (standing.currentEpoch, { standing.result with
    reason := acceptanceReason standing.result.applied
    recordId := record.recordId })

/-- The records of a batch that step (0) did not settle, under consecutive ids. -/
def writeAll : ℕ → ℕ → List Pending → List Pending → Statements (ℕ × List Pending)
  | currentEpoch, _, done, [] => pure (currentEpoch, done)
  | currentEpoch, id, done, p :: rest =>
    if p.settled then writeAll currentEpoch id (done ++ [p]) rest
    else do
      let next ← writeOne store groupId draw keys state (done ++ p :: rest) done.length currentEpoch
        (stamp p.record id) p.result
      writeAll next.1 (id + 1) (done ++ [{ p with result := next.2 }]) rest

def write (batch : List Pending) : Statements Empty :=
  let k := batch.countP (!·.settled)
  .update (.group groupId) (fun _ => true)
    (fun row => { row with nextRecordId := row.nextRecordId + k }) fun
  | none => .rollback (.error .noRows)
  | some row => do
    let written ← writeAll store groupId draw keys state state.currentEpoch
      (uint64 (row.nextRecordId - k)) [] batch
    .commit (.submitted (resultsOf (written.2.map (fillEpoch written.1))))

end Write

section Calls

variable (store : PgxStore) (draw : Draw)

def stateOf (row : MessageGroup) : GroupState where
  currentEpoch := uint64 row.currentEpoch
  nextRecordId := uint64 row.nextRecordId
  mediaTtlSeconds := uint32 row.mediaTtlSeconds
  durableTtlSeconds := row.durableTtlSeconds.map uint32
  policyVersion := uint32 row.policyVersion
  epochComplete := row.epochComplete
  groupContextHash := row.groupContextHash

/-- Steps (1) to (7), under one transaction and one row lock. -/
def transact (groupId : Bytes) (keys : Option EpochKeyDelivery) (batch : List Pending) :
    Statements Empty :=
  .lock (.group groupId) (fun row => !row.closed) fun
  | none => .rollback (.ok (.submitted (resultsOf (refuseUnavailable batch))))
  | some row => do
    let state := stateOf row
    let batch := atEpoch state.currentEpoch batch
    let highWater ← senderHighWater groupId batch
    let pinned ← pinnedRecoveryKeys groupId batch
    gateAll store groupId keys state batch pinned highWater 0 batch
    write store groupId draw keys state batch

def probeOne (groupId : Bytes) (d : Database) (p : Pending) : Pending :=
  match (d.lookup (.claim groupId p.record.senderHandle (int64 p.record.streamIndex)) :
    Option MessageStreamClaim) with
  | none => p
  | some claim =>
    if claim.bodyHash = p.record.bodyHash ∧
        claim.headHash = headHash store.toConfig p.record.ctHead then
      { p with
        probe := .identical
        result := { p.result with reason := .ok, recordId := uint64 claim.recordId } }
    else { p with probe := .differs }

/-- What follows step (0): an answer it decides, or the transaction. -/
def submitProbed (request : SubmitRequest) (batch : List Pending) : Statements Empty :=
  match batch.findIdx? (·.probe = .differs) with
  | some offender => refuse store request.groupId batch offender .streamIndexReused 0
  | none =>
    if (settle batch).all (·.settled) then do
      let batch ← fill store request.groupId 0 (settle batch)
      .rollback (.ok (.submitted (resultsOf batch)))
    else transact store draw request.groupId request.epochKeys (settle batch)

def submit (request : SubmitRequest) : Statements Empty :=
  match validateSubmit request with
  | .error e => .rollback (.error (.store e))
  | .ok _ => .select fun d =>
    submitProbed store draw request
      (request.records.map fun record => probeOne store request.groupId d { record := record })

/-- The bootstrap row, which holds the one key that no commit published. -/
def bootstrapRow (bootstrap : Bytes) (now : Time) : MessageEpoch where
  writeKeyWrapped := some bootstrap
  readKeyWrapped := none
  readKeyInstall := none
  algId := 0
  openedByRecord := none
  acceptTime := timestamp now
  retireTime := some (timestamp now)
  expectedWrapCount := 0

/-- Step (6c) of a founding, which nothing can have come before. -/
def pinFounding (groupId : Bytes) (record : Record) : Statements Unit :=
  match recoveryTagOf record with
  | none => pure ()
  | some tag => do
    let _ ← pinRecoveryHandle groupId tag draw.now
    pure ()

def foundEpochs (request : CreateGroupRequest) (record : Record) (opening : EpochOpening) :
    Statements Unit := do
  let groupId := request.groupId
  let bootstrap ← orFail (store.keys.wrap .writeKey groupId 0 (draw.nonces 0)
    (some request.bootstrapWriteKey))
  .insert (.epoch groupId 0) (bootstrapRow bootstrap draw.now) .raise fun _ => pure ()
  let writeKey ← orFail (store.keys.wrap .writeKey groupId 1 (draw.nonces 1) opening.writeKey)
  let readKey ← orFail (store.keys.wrap .readKey groupId 1 (draw.nonces 2) opening.readKey)
  .insert (.epoch groupId 1) (epochRow opening writeKey readKey draw.now record.recordId) .raise
    fun _ => pure ()

def foundRecord (groupId : Bytes) (record : Record) (opening : EpochOpening) : Statements Unit := do
  let applied := store.limits.apply opening
  insertRecord groupId record draw.now
    (pruneAfter draw.now record.retentionClass applied.1 applied.2.1) 1
  .insert (.claim groupId record.senderHandle (int64 record.streamIndex))
    (claimRow store.toConfig record draw.now) .raise fun _ => pure ()
  .insert (.commit groupId (int64 record.epoch)) ⟨int64 record.recordId⟩ .raise fun _ => pure ()
  .insert (.sender groupId record.senderHandle)
    ⟨int64 record.streamIndex, 1, recordBytes record, timestamp draw.now⟩ .raise fun _ => pure ()
  pinFounding draw groupId record

/-- The rows of a group, behind the insert that took its id. -/
def foundRows (request : CreateGroupRequest) (record : Record) (opening : EpochOpening) :
    Statements Empty := do
  let applied := store.limits.apply opening
  foundEpochs store draw request record opening
  foundRecord store draw request.groupId record opening
  .commit (.created {
    reason := acceptanceReason (some applied.2.2)
    currentEpoch := 1
    recordId := record.recordId
    applied := some applied.2.2 })

def foundingRow (opening : EpochOpening) : MessageGroup where
  createTime := timestamp draw.now
  currentEpoch := 1
  nextRecordId := int64 firstRecordId + 1
  mediaTtlSeconds := int32 (store.limits.apply opening).1
  durableTtlSeconds := durableColumn (store.limits.apply opening).2.1
  groupContextHash := opening.groupContextHash
  policyVersion := 1
  epochComplete := false
  closed := false
  closeTime := none

def createGroup (request : CreateGroupRequest) : Statements Empty :=
  match validateCreate request with
  | .error e => .rollback (.error (.store e))
  | .ok initial =>
    if ¬ initial.isCommit ∨ initial.epoch ≠ 0 ∨
        ¬ wellFormedEpochAttachment initial 1 request.epochKeys then
      .rollback (.ok (.created { reason := .rejected }))
    else
      match openingOf initial request.epochKeys with
      | none => .rollback (.ok (.created { reason := .rejected }))
      | some opening =>
        .insert (.group request.groupId) (foundingRow store draw opening) .ignore fun created =>
          if created then foundRows store draw request (stamp initial firstRecordId) opening
          else .rollback (.ok (.created { reason := .rejected }))

def closeGroup (groupId : Bytes) : Statements Empty :=
  match checkLength groupId groupIdBytes with
  | .error e => .rollback (.error (.store e))
  | .ok _ =>
    .update (.group groupId) (fun row => !row.closed)
      (fun row => { row with closed := true, closeTime := some (timestamp draw.now) }) fun
    | none => .rollback (.error (.store .groupUnavailable))
    | some _ => .commit .closed

end Calls

end MessageServer.Pgx
