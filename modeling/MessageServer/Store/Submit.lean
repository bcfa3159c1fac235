import MessageServer.Store.Memory

/-! # The submit transaction

The steps of one submission, in the order the store runs them: the probe of
step (0), the gates of steps (2), (2b) and (3), and the writes of steps (4) to
(7). A refused batch is marked and filled in; an accepted one is written whole.
-/

namespace MessageServer.Store

open Function

def claimKeyOf (record : Record) : ClaimKey := ⟨record.senderHandle, record.streamIndex⟩

def headHash (cfg : Config) (head : Bytes) : Bytes := cfg.sha256 head

def recordBytes (record : Record) : ℕ :=
  record.ctHead.length + record.ctBody.len

def stamp (record : Record) (id : ℕ) : Record :=
  { record with recordId := id, pruneAfter := none }

namespace MemoryGroup

def reserve (g : MemoryGroup) (k : ℕ) : MemoryGroup := { g with nextRecordId := g.nextRecordId + k }

/-- Step (6): open the next epoch, retire the superseded key and erase the older ones. -/
def openEpoch (g : MemoryGroup) (cfg : Config) (now : Time) (currentEpoch : ℕ) (record : Record)
    (opening : EpochOpening) : MemoryGroup :=
  let applied := cfg.limits.apply opening
  let opened := update g.epochs (currentEpoch + 1) (some {
    epoch := currentEpoch + 1
    writeKey := opening.writeKey
    readKey := opening.readKey
    readKeyInstall := some now
    algId := opening.algId
    expectedWrapCount := opening.expectedWrapCount
    openedByRecord := record.recordId
    acceptTime := now
    retireTime := none })
  let retired := update opened currentEpoch ((opened currentEpoch).map fun row =>
    if row.writeKey ≠ none then { row with retireTime := some now } else row)
  { g with
    epochs := fun epoch => (retired epoch).map fun row =>
      if epoch < currentEpoch ∧ row.writeKey ≠ none then { row with writeKey := none } else row
    currentEpoch := currentEpoch + 1
    epochComplete := false
    mediaTtlSeconds := applied.1
    durableTtlSeconds := applied.2.1
    groupContextHash := opening.groupContextHash
    policyVersion := (g.policyVersion + 1) % 2 ^ 32
    commits := update g.commits record.epoch
      (some ⟨record.epoch, record.recordId, record⟩) }

def closesFanOut (g : MemoryGroup) (record : Record) : Bool :=
  match epochCompleteTagOf record, g.epochs g.currentEpoch with
  | some marker, some row =>
    marker.epoch == g.currentEpoch && marker.wrapCount == row.expectedWrapCount
  | _, _ => false

/-- Step (6b): the marker with the epoch's own wrap count opens the group for ordinary writes. -/
def closeFanOut (g : MemoryGroup) (record : Record) : MemoryGroup :=
  { g with epochComplete := if g.closesFanOut record then true else g.epochComplete }

def storeRecord (g : MemoryGroup) (cfg : Config) (now : Time) (record : Record) : MemoryGroup :=
  { g with
    claims := update g.claims (claimKeyOf record) (some {
      recordId := record.recordId
      bodyHash := record.bodyHash
      headHash := headHash cfg record.ctHead
      createTime := now })
    records := g.records ++ [{
      record := record
      pruneAfter := pruneAfter now record.retentionClass g.mediaTtlSeconds g.durableTtlSeconds
      createTime := now
      policy := g.policyVersion }] }

/-- Step (6c): a recovery handle is pinned on first use. -/
def pinRecovery (g : MemoryGroup) (now : Time) (record : Record) : MemoryGroup :=
  { g with
    recovery :=
      match recoveryTagOf record with
      | none => g.recovery
      | some tag =>
        if (g.recovery tag.handle).isSome then g.recovery
        else update g.recovery tag.handle (some ⟨tag.verifyPub, tag.algId, now⟩) }

/-- Step (7): the sender's high water and accounting. -/
def account (g : MemoryGroup) (now : Time) (record : Record) : MemoryGroup :=
  let row := (g.senders record.senderHandle).getD ⟨0, 0, 0, now⟩
  { g with
    senders := update g.senders record.senderHandle (some {
      lastStreamIndex := record.streamIndex
      recordCount := row.recordCount + 1
      byteCount := row.byteCount + recordBytes record
      lastTime := now }) }

/-- A commit opens the next epoch; one the gate passed always has an opening. -/
def advance (g : MemoryGroup) (cfg : Config) (now : Time) (currentEpoch : ℕ)
    (keys : Option EpochKeyDelivery) (record : Record) : MemoryGroup :=
  match record.isCommit, openingOf record keys with
  | true, some opening => g.openEpoch cfg now currentEpoch record opening
  | _, _ => g

def write (g : MemoryGroup) (cfg : Config) (now : Time) (currentEpoch : ℕ)
    (keys : Option EpochKeyDelivery) (record : Record) : MemoryGroup :=
  let opened := g.advance cfg now currentEpoch keys record
  (((opened.closeFanOut record).storeRecord cfg now record).pinRecovery now record).account
    now record

end MemoryGroup

/-- The answer to an accepted record, and its notice when it is a commit. -/
def acceptance (cfg : Config) (currentEpoch : ℕ) (keys : Option EpochKeyDelivery)
    (record : Record) (result : SubmitResult) : SubmitResult :=
  match record.isCommit, openingOf record keys with
  | true, some opening =>
    let applied := (cfg.limits.apply opening).2.2
    { result with
      applied := some applied
      currentEpoch := currentEpoch + 1
      reason := acceptanceReason (some applied)
      recordId := record.recordId }
  | _, _ =>
    { result with
      reason := acceptanceReason result.applied
      recordId := record.recordId }

/-- Steps (4) to (7) over a batch: ids go to the records step (0) did not settle. -/
def writeAll (cfg : Config) (now : Time) (currentEpoch : ℕ) (keys : Option EpochKeyDelivery) :
    MemoryGroup → ℕ → List Pending → MemoryGroup × List Pending
  | g, _, [] => (g, [])
  | g, id, p :: batch =>
    if p.settled then
      let rest := writeAll cfg now currentEpoch keys g id batch
      (rest.1, p :: rest.2)
    else
      let record := stamp p.record id
      let rest := writeAll cfg now currentEpoch keys
        (g.write cfg now currentEpoch keys record) (id + 1) batch
      (rest.1, { p with result := acceptance cfg currentEpoch keys record p.result } :: rest.2)

def probeOne (cfg : Config) (g : MemoryGroup) (p : Pending) : Pending :=
  match g.claims (claimKeyOf p.record) with
  | none => p
  | some claim =>
    if claim.bodyHash = p.record.bodyHash ∧ claim.headHash = headHash cfg p.record.ctHead then
      { p with
        probe := .identical
        result := { p.result with reason := .ok, recordId := claim.recordId } }
    else { p with probe := .differs }

def probe (cfg : Config) (group : Option MemoryGroup) (batch : List Pending) : List Pending :=
  match group with
  | none => batch
  | some g => batch.map (probeOne cfg g)

section Gate

variable (g : MemoryGroup) (state : GroupState) (record : Record)

/-- The sender's last index, of the batch before the group's row. -/
def lastStreamIndex (highWater : Bytes → Option ℕ) : Option ℕ :=
  match highWater record.senderHandle with
  | some last => some last
  | none => (g.senders record.senderHandle).map (·.lastStreamIndex)

/-- The pin of a recovery handle, of the batch before the group's row. -/
def pinnedPub (pinned : Bytes → Option Bytes) (tag : RecoveryTag) : Option Bytes :=
  match pinned tag.handle with
  | some pub => some pub
  | none => (g.recovery tag.handle).map (·.verifyPub)

/-- Steps (2), (2b), (3) and the check of (6c) for one record. -/
def gate (keys : Option EpochKeyDelivery) (highWater : Bytes → Option ℕ)
    (pinned : Bytes → Option Bytes) : Reason :=
  if record.isCommit ∧ (g.commits record.epoch).isSome then .commitLost
  else if record.epoch ≠ state.currentEpoch then .epochStale
  else if ¬ state.epochComplete ∧ ¬ exemptFromEpochComplete record then .epochIncomplete
  else if record.isCommit ≠ isEpochAttachmentKind (attachmentKindOf record) then .rejected
  else if record.isCommit ∧
      ¬ wellFormedEpochAttachment record (state.currentEpoch + 1) keys then .rejected
  else if (lastStreamIndex g record highWater).any (record.streamIndex ≤ ·) then
    .streamIndexRegressed
  else if (recoveryTagOf record).any fun tag =>
      (pinnedPub g pinned tag).any (· ≠ tag.verifyPub) then .rejected
  else .ok

end Gate

/-- What a gated record adds to the batch's own pins. -/
def pin (pinned : Bytes → Option Bytes) (record : Record) : Bytes → Option Bytes :=
  match recoveryTagOf record with
  | none => pinned
  | some tag =>
    if (pinned tag.handle).isSome then pinned
    else update pinned tag.handle (some tag.verifyPub)

/-- The gates over a batch, with what the batch has established so far; the first refusal. -/
def gateAll (g : MemoryGroup) (state : GroupState) (keys : Option EpochKeyDelivery) :
    (Bytes → Option ℕ) → (Bytes → Option Bytes) → ℕ → List Pending → Option (ℕ × Reason)
  | _, _, _, [] => none
  | highWater, pinned, index, p :: batch =>
    if p.settled then gateAll g state keys highWater pinned (index + 1) batch
    else
      let refusal := gate g state p.record keys highWater pinned
      if refusal ≠ .ok then some (index, refusal)
      else
        gateAll g state keys
          (update highWater p.record.senderHandle (some p.record.streamIndex))
          (pin pinned p.record) (index + 1) batch

/-- The reason on every result of a batch that wrote nothing. -/
def markRefused (batch : List Pending) (offender : ℕ) (reason : Reason) : List Pending :=
  batch.mapIdx fun index p =>
    if p.probe = .identical then p
    else { p with
      result := { p.result with reason := if index = offender then reason else .rejected } }

def fillOne (g : MemoryGroup) (p : Pending) : Pending :=
  { p with
    result := { p.result with
      currentEpoch := if p.result.currentEpoch = 0 then g.currentEpoch else p.result.currentEpoch
      winningCommit :=
        if ¬ p.record.isCommit ∨ accepted p.result.reason then p.result.winningCommit
        else match g.commits p.record.epoch with
          | none => p.result.winningCommit
          | some winner => some winner.record } }

def fillCurrentEpoch (group : Option MemoryGroup) (batch : List Pending) : List Pending :=
  match group with
  | none => batch
  | some g => if g.closed then batch else batch.map (fillOne g)

def refuseBatch (g : MemoryGroup) (batch : List Pending) (offender : ℕ) (reason : Reason) :
    List Pending :=
  fillCurrentEpoch (some g) (markRefused batch offender reason)

/-- The refusal of an unknown or closed group, which says nothing beyond its code. -/
def refuseUnavailable (batch : List Pending) : List Pending :=
  batch.map fun p =>
    if p.probe = .identical then p else { p with result := { reason := .rejected } }

/-- The results of a batch; a refusal names no record id. -/
def resultOf (p : Pending) : SubmitResult :=
  if accepted p.result.reason then p.result else { p.result with recordId := 0 }

def resultsOf (batch : List Pending) : List SubmitResult := batch.map resultOf

def fillEpoch (epoch : ℕ) (p : Pending) : Pending :=
  if p.result.currentEpoch = 0 then { p with result := { p.result with currentEpoch := epoch } }
  else p

/-- The group's epoch on every result, as step (1) reads it. -/
def atEpoch (epoch : ℕ) (batch : List Pending) : List Pending :=
  batch.map fun p => { p with result := { p.result with currentEpoch := epoch } }

/-- Steps (4) to (7), behind the compare-and-set of step (5b). -/
def commit (cfg : Config) (now : Time) (g : MemoryGroup) (state : GroupState)
    (keys : Option EpochKeyDelivery) (batch : List Pending) : MemoryGroup × List Pending :=
  match batch.findIdx? fun p =>
      !p.settled && p.record.isCommit && (g.commits p.record.epoch).isSome with
  | some offender => (g, refuseBatch g batch offender .commitLost)
  | none =>
    let written := writeAll cfg now state.currentEpoch keys
      (g.reserve (batch.countP (!·.settled))) g.nextRecordId batch
    (written.1, written.2.map (fillEpoch written.1.currentEpoch))

/-- Everything from step (1) on, under the group's row lock. -/
def submitLocked (cfg : Config) (now : Time) (g : MemoryGroup) (keys : Option EpochKeyDelivery)
    (batch : List Pending) : MemoryGroup × List Pending :=
  if g.closed then (g, refuseUnavailable batch)
  else
    let state := g.state
    let batch := atEpoch state.currentEpoch batch
    match gateAll g state keys (fun _ => none) (fun _ => none) 0 batch with
    | some (offender, reason) => (g, refuseBatch g batch offender reason)
    | none => commit cfg now g state keys batch

/-- The shape of a batch: nonempty, every record valid, and a commit alone. -/
def validateSubmit (request : SubmitRequest) : Except Error Unit := do
  checkLength request.groupId groupIdBytes
  failIf (request.records = []) .emptyBatch
  request.records.forM validateRecord
  failIf (request.records.any (·.isCommit) ∧ request.records.length ≠ 1) .commitBatch

inductive Probed
  /-- Answered by step (0), its epoch and winner still to be filled in. -/
  | answering (batch : List Pending)
  | unavailable (batch : List Pending)
  /-- About to take the row lock. -/
  | waiting (batch : List Pending)

def probed (cfg : Config) (s : MemoryStore) (request : SubmitRequest) : List Pending :=
  probe cfg (s.groups request.groupId) (request.records.map fun record => { record := record })

/-- The batch with the records that step (0) matched settled. -/
def settle (batch : List Pending) : List Pending :=
  batch.map fun p => { p with settled := p.probe = .identical }

/-- Step (0) and the answers it decides, in front of the row lock. -/
def submitProbe (cfg : Config) (s : MemoryStore) (request : SubmitRequest) : Probed :=
  let batch := probed cfg s request
  match batch.findIdx? (·.probe = .differs) with
  | some offender => .answering (markRefused batch offender .streamIndexReused)
  | none =>
    if (settle batch).all (·.settled) then .answering (settle batch)
    else
      match s.groups request.groupId with
      | none => .unavailable (settle batch)
      | some _ => .waiting (settle batch)

/-- A submission that passed its shape checks, with no other call between its steps. -/
def submitBatch (cfg : Config) (now : Time) (s : MemoryStore) (request : SubmitRequest) :
    MemoryStore × List Pending :=
  match submitProbe cfg s request, s.groups request.groupId with
  | .answering batch, group => (s, fillCurrentEpoch group batch)
  | .waiting batch, some g =>
    let next := submitLocked cfg now g request.epochKeys batch
    (s.setGroup request.groupId next.1, next.2)
  | .waiting batch, none | .unavailable batch, _ => (s, refuseUnavailable batch)

/-- A whole submission with no other call between its steps. -/
def submit (cfg : Config) (now : Time) (s : MemoryStore) (request : SubmitRequest) :
    MemoryStore × Except Error (List SubmitResult) :=
  match validateSubmit request with
  | .error e => (s, .error e)
  | .ok _ =>
    let next := submitBatch cfg now s request
    (next.1, .ok (resultsOf next.2))

/-- The founding rows of a group: its first commit, and the epochs 0 and 1. -/
def foundGroup (cfg : Config) (now : Time) (request : CreateGroupRequest) (initial : Record)
    (opening : EpochOpening) : MemoryGroup :=
  let applied := cfg.limits.apply opening
  let record := stamp initial firstRecordId
  let epochs : ℕ → Option EpochRow := fun
    | 0 => some {
        epoch := 0
        writeKey := some request.bootstrapWriteKey
        readKey := none
        readKeyInstall := none
        algId := 0
        expectedWrapCount := 0
        openedByRecord := 0
        acceptTime := now
        retireTime := some now }
    | 1 => some {
        epoch := 1
        writeKey := opening.writeKey
        readKey := opening.readKey
        readKeyInstall := some now
        algId := opening.algId
        expectedWrapCount := opening.expectedWrapCount
        openedByRecord := record.recordId
        acceptTime := now
        retireTime := none }
    | _ => none
  { groupId := request.groupId
    createTime := now
    currentEpoch := 1
    nextRecordId := firstRecordId + 1
    mediaTtlSeconds := applied.1
    durableTtlSeconds := applied.2.1
    policyVersion := 1
    epochComplete := false
    groupContextHash := opening.groupContextHash
    closed := false
    closeTime := none
    records := [{
      record := record
      pruneAfter := pruneAfter now record.retentionClass applied.1 applied.2.1
      createTime := now
      policy := 1 }]
    claims := update (fun _ => none) (claimKeyOf record) (some {
      recordId := record.recordId
      bodyHash := record.bodyHash
      headHash := headHash cfg record.ctHead
      createTime := now })
    commits := update (fun _ => none) record.epoch
      (some ⟨record.epoch, record.recordId, record⟩)
    senders := update (fun _ => none) record.senderHandle (some {
      lastStreamIndex := record.streamIndex
      recordCount := 1
      byteCount := recordBytes record
      lastTime := now })
    epochs := epochs
    recovery :=
      match recoveryTagOf record with
      | none => fun _ => none
      | some tag =>
        update (fun _ => none) tag.handle (some ⟨tag.verifyPub, tag.algId, now⟩) }

/-- The shape of a creation, before anything about its commit is decided. -/
def validateCreate (request : CreateGroupRequest) : Except Error Record := do
  checkLength request.groupId groupIdBytes
  checkLength request.bootstrapWriteKey epochKeyBytes
  match request.initialCommit with
  | none => throw .emptyBatch
  | some initial => do
    validateRecord initial
    pure initial

def createGroup (cfg : Config) (now : Time) (s : MemoryStore) (request : CreateGroupRequest) :
    MemoryStore × Except Error CreateGroupResult :=
  match validateCreate request with
  | .error e => (s, .error e)
  | .ok initial =>
    if ¬ initial.isCommit ∨ initial.epoch ≠ 0 ∨
        ¬ wellFormedEpochAttachment initial 1 request.epochKeys then
      (s, .ok { reason := .rejected })
    else
      match openingOf initial request.epochKeys, s.groups request.groupId with
      | some opening, none =>
        let applied := (cfg.limits.apply opening).2.2
        (s.setGroup request.groupId (foundGroup cfg now request initial opening), .ok {
          reason := acceptanceReason (some applied)
          currentEpoch := 1
          recordId := firstRecordId
          applied := some applied })
      | _, _ => (s, .ok { reason := .rejected })

end MessageServer.Store
