import MessageServer.Pgx.Tables
import MessageServer.Store.LinkBoxes

/-! # Link boxes in the SQL store

The two tables of the link boxes with their CHECKs, and the statements that the
store runs on them. A call that opens a transaction ends in a commit or, on
every other way out, in a rollback.
-/

namespace MessageServer.Pgx

open Store

inductive LinkError
  | store (error : LinkBoxError)
  | database
  deriving DecidableEq

structure MessageRendezvous where
  rendezvousId : Bytes
  kind : ℤ
  depositVerifyPub : Bytes
  collectVerifyPub : Bytes
  cardXwingPub : Slice
  publicCt : Slice
  algId : ℤ
  nextDepositId : ℤ
  depositCount : ℤ
  refusedCount : ℤ
  registerTime : ℤ
  refreshTime : ℤ
  expireTime : ℤ
  retiredTime : Option ℤ
  reclaimAfter : ℤ
  deriving DecidableEq

structure MessageRendezvousDeposit where
  rendezvousId : Bytes
  depositId : ℤ
  depositHash : Bytes
  depositCt : Bytes
  createTime : ℤ
  pruneAfter : ℤ
  deriving DecidableEq

def MessageRendezvousDeposit.key (row : MessageRendezvousDeposit) : Bytes × ℤ :=
  (row.rendezvousId, row.depositId)

structure LinkTables where
  rendezvous : Table MessageRendezvous.rendezvousId
  deposits : Table MessageRendezvousDeposit.key

/-- The CHECKs of `message_rendezvous` and the ranges of its columns. -/
def MessageRendezvous.admitted (row : MessageRendezvous) : Bool :=
  row.kind == 4 &&
    row.cardXwingPub.isNone && row.publicCt.any (·.length == linkCardBytes) && row.algId == 20 &&
    row.nextDepositId ≤ 3 && row.depositCount ≤ 2 &&
    row.rendezvousId.length == 32 && row.depositVerifyPub.length == 32 &&
    row.collectVerifyPub.length == 32 && 1 ≤ row.nextDepositId && 0 ≤ row.depositCount &&
    isBigint row.refusedCount && isTimestamp row.registerTime && isTimestamp row.refreshTime &&
    isTimestamp row.expireTime && row.retiredTime.all isTimestamp && isTimestamp row.reclaimAfter

/-- The CHECKs of `message_rendezvous_deposit` and the ranges of its columns. -/
def MessageRendezvousDeposit.admitted (row : MessageRendezvousDeposit) : Bool :=
  isBigint row.depositId && row.depositHash.length == 32 &&
    row.depositCt.length == linkDepositBytes && row.depositId ≤ 2 &&
    isTimestamp row.createTime && isTimestamp row.pruneAfter

def timeParameter (t : Time) : Except LinkError ℤ :=
  if isTimestamp (sent t) then .ok (sent t) else .error .database

def MessageRendezvous.linkBox (row : MessageRendezvous) : LinkBox where
  rendezvousId := row.rendezvousId
  depositVerifyPub := row.depositVerifyPub
  collectVerifyPub := row.collectVerifyPub
  publicCt := row.publicCt.getD []
  depositCount := uint32 row.depositCount
  depositsTaken := uint64 (row.nextDepositId - 1)
  refusedCount := uint64 row.refusedCount
  registerTime := instant row.registerTime
  expireTime := instant row.expireTime
  retiredTime := row.retiredTime.map instant
  reclaimAfter := instant row.reclaimAfter

/-- How a transaction ends: with its tables committed, or rolled back. -/
inductive Ended (α : Type)
  | commit (tables : LinkTables) (answer : α)
  | rollback (answer : α)

namespace LinkTables

def empty : LinkTables := ⟨.empty, .empty⟩

variable (tables : LinkTables)

def transact {α : Type} (transaction : Except LinkError (Ended α)) :
    LinkTables × Except LinkError α :=
  match transaction with
  | .error e => (tables, .error e)
  | .ok (.rollback answer) => (tables, .ok answer)
  | .ok (.commit tables' answer) => (tables', .ok answer)

def linkBoxOf (rendezvousId : Bytes) : Option LinkBox :=
  (tables.rendezvous.find rendezvousId).map (·.linkBox)

def updateBoxes (cond : MessageRendezvous → Bool) (set : MessageRendezvous → MessageRendezvous)
    (hset : ∀ row, (set row).rendezvousId = row.rendezvousId) : Except LinkError LinkTables :=
  if tables.rendezvous.rows.all fun row => !cond row || (set row).admitted then
    .ok { tables with
      rendezvous := tables.rendezvous.map (fun row => if cond row then set row else row)
        fun row => by split <;> simp [hset] }
  else .error .database

def liveCount (now : ℤ) : ℤ :=
  tables.rendezvous.rows.countP fun row => row.retiredTime.isNone && now < row.expireTime

/-- The insert of a box while the live ones are below the cap, and their count. -/
def insertBox (row : MessageRendezvous) (now capColumn : ℤ) :
    Except LinkError (LinkTables × Bool × ℤ) :=
  let live := tables.liveCount now
  if live < capColumn then
    if row.admitted then
      .ok ({ tables with rendezvous := tables.rendezvous.insert row },
        (tables.rendezvous.find row.rendezvousId).isNone, live)
    else .error .database
  else .ok (tables, false, live)

def registeredRow (registration : LinkBoxRegistration) (now expire : ℤ) : MessageRendezvous where
  rendezvousId := registration.rendezvousId
  kind := linkBoxKind
  depositVerifyPub := registration.depositVerifyPub
  collectVerifyPub := registration.collectVerifyPub
  cardXwingPub := none
  publicCt := some registration.publicCt
  algId := linkBoxAlgId
  nextDepositId := 1
  depositCount := 0
  refusedCount := 0
  registerTime := now
  refreshTime := now
  expireTime := expire
  retiredTime := none
  reclaimAfter := expire

/-- The answer to a registration that inserted nothing. -/
def registeredAgain (registration : LinkBoxRegistration) (now : Time) (capColumn live : ℤ) :
    LinkBoxRegistered :=
  match tables.linkBoxOf registration.rendezvousId with
  | none =>
    if capColumn ≤ live then { reason := .cardRateLimited } else { reason := .rejected }
  | some box =>
    if box.live now && sameLinkBoxRegistration box registration then
      { reason := .ok, expireTime := some box.expireTime, mailboxDepth := box.depositCount }
    else { reason := .rejected }

def registerLinkBox (registration : Option LinkBoxRegistration) (now : Time) (ttl : ℤ)
    (liveCap : ℕ) : LinkTables × Except LinkError LinkBoxRegistered :=
  match validateLinkBoxRegistration registration ttl liveCap with
  | .error e => (tables, .error (.store e))
  | .ok registration => tables.transact do
    let now := linkBoxTime now
    let expire := linkBoxTime (now + ttl)
    let capColumn : ℤ := if liveCap < maxInt64 then liveCap else maxInt64
    let nowColumn ← timeParameter now
    let expireColumn ← timeParameter expire
    let (tables, inserted, live) ←
      tables.insertBox (registeredRow registration nowColumn expireColumn) nowColumn capColumn
    if inserted then return .commit tables { reason := .ok, expireTime := some expire }
    else return .commit tables (tables.registeredAgain registration now capColumn live)

def linkBox (rendezvousId : Bytes) : Except LinkError LinkBox :=
  if rendezvousId.length ≠ rendezvousIdBytes then .error (.store .identifierShape)
  else
    match tables.linkBoxOf rendezvousId with
    | none => .error (.store .unknown)
    | some box => .ok box

/-- The insert of a deposit; octets that stand already are no new row. -/
def insertDeposit (row : MessageRendezvousDeposit) : Except LinkError (LinkTables × Bool) :=
  if ¬ row.admitted then .error .database
  else if tables.deposits.rows.any fun deposit =>
      deposit.rendezvousId = row.rendezvousId ∧ deposit.depositHash = row.depositHash then
    .ok (tables, false)
  else if (tables.deposits.find row.key).isSome ∨
      (tables.rendezvous.find row.rendezvousId).isNone then .error .database
  else .ok ({ tables with deposits := tables.deposits.insert row }, true)

/-- The deposit that stands with some octets, answered as itself. -/
def replayed (box : LinkBox) (depositHash : Bytes) : Option LinkBoxDeposited :=
  (tables.deposits.rows.find? fun deposit =>
    deposit.rendezvousId = box.rendezvousId ∧ deposit.depositHash = depositHash).map fun deposit =>
      { reason := .ok
        depositId := uint64 deposit.depositId
        depositHash := some depositHash
        pendingCount := box.depositCount
        replayed := true }

/-- The transaction of a deposit once the box is live and pinned under the caller's key. -/
def depositInto (box : LinkBox) (depositHash depositCt : Bytes) (now : Time) :
    Except LinkError (Ended LinkBoxDeposited) :=
  if linkBoxDeposits ≤ box.depositsTaken then
    match tables.replayed box depositHash with
    | some answer => .ok (.rollback answer)
    | none => do
      let tables ← tables.updateBoxes (·.rendezvousId = box.rendezvousId)
        (fun row => { row with refusedCount := row.refusedCount + 1 }) fun _ => rfl
      return .commit tables { reason := .cardRateLimited }
  else do
    let depositId := int64 (box.depositsTaken + 1)
    let nowColumn ← timeParameter now
    let expireColumn ← timeParameter box.expireTime
    let (tables, taken) ← tables.insertDeposit
      { rendezvousId := box.rendezvousId
        depositId := depositId
        depositHash := depositHash
        depositCt := depositCt
        createTime := nowColumn
        pruneAfter := expireColumn }
    if taken then
      let tables ← tables.updateBoxes (·.rendezvousId = box.rendezvousId)
        (fun row => { row with
          nextDepositId := row.nextDepositId + 1
          depositCount := row.depositCount + 1 }) fun _ => rfl
      return .commit tables
        { reason := .ok
          depositId := uint64 depositId
          depositHash := some depositHash
          pendingCount := (box.depositCount + 1) % 2 ^ 32 }
    else
      match tables.replayed box depositHash with
      | some answer => return .rollback answer
      | none => .error .database

def liveLinkBox (rendezvousId : Bytes) (now : Time) (verifiedPub : Bytes)
    (pinned : LinkBox → Bytes) : Option LinkBox :=
  (tables.linkBoxOf rendezvousId).filter fun box => box.live now && pinned box = verifiedPub

def depositLinkBox (sha256 : Bytes → Bytes) (rendezvousId verifiedPub depositCt : Bytes)
    (now : Time) : LinkTables × Except LinkError LinkBoxDeposited :=
  match validateLinkBoxDeposit rendezvousId verifiedPub depositCt with
  | .error e => (tables, .error (.store e))
  | .ok _ =>
    let now := linkBoxTime now
    tables.transact <|
      match tables.liveLinkBox rendezvousId now verifiedPub (·.depositVerifyPub) with
      | none => .ok (.rollback { reason := .cardRetired })
      | some box => tables.depositInto box (sha256 depositCt) depositCt now

def linkBoxDepositIdColumn (depositId : ℕ) : ℤ :=
  if maxInt64 < depositId then maxInt64 else depositId

/-- `DELETE FROM message_rendezvous_deposit` of the rows that meet a condition. -/
def deleteDeposits (cond : MessageRendezvousDeposit → Bool) : LinkTables :=
  { tables with deposits := tables.deposits.filter fun deposit => !cond deposit }

/-- The deposits that stand at an id, in the order of their ids. -/
def standing (rendezvousId : Bytes) : List LinkBoxDeposit :=
  ((tables.deposits.rows.filter fun deposit => deposit.rendezvousId = rendezvousId).mergeSort
    fun a b => a.depositId ≤ b.depositId).map fun deposit =>
      { depositId := uint64 deposit.depositId
        depositCt := deposit.depositCt
        createTime := instant deposit.createTime }

/-- The transaction of a collect once the box is live and pinned under the caller's key. -/
def collectFrom (box : LinkBox) (request : LinkBoxCollectRequest) :
    Except LinkError (Ended LinkBoxCollected) := do
  let tables := tables.deleteDeposits fun deposit =>
    deposit.rendezvousId = box.rendezvousId ∧
      deposit.depositId ≤ linkBoxDepositIdColumn request.ackThroughDepositId
  let standing := tables.standing box.rendezvousId
  let tables ← tables.updateBoxes (·.rendezvousId = box.rendezvousId)
    (fun row => { row with depositCount := int32 standing.length, refusedCount := 0 }) fun _ => rfl
  let after := linkBoxDepositsAfter standing request.sinceDepositId request.limit
  return .commit tables
    { reason := .ok
      deposits := after.1
      pendingCount := standing.length % 2 ^ 32
      refusedCount := box.refusedCount
      expireTime := some box.expireTime
      complete := after.2 }

def collectLinkBox (request : Option LinkBoxCollectRequest) (now : Time) :
    LinkTables × Except LinkError LinkBoxCollected :=
  match request with
  | none => (tables, .error (.store .identifierShape))
  | some request =>
    match validateLinkBoxAct request.rendezvousId request.verifiedPub with
    | .error e => (tables, .error (.store e))
    | .ok _ =>
      tables.transact <|
        match tables.liveLinkBox request.rendezvousId (linkBoxTime now) request.verifiedPub
            (·.collectVerifyPub) with
        | none => .ok (.rollback { reason := .cardRetired })
        | some box => tables.collectFrom box request

/-- The transaction of a retire once the box is live and pinned under the caller's key. -/
def retireBox (box : LinkBox) (now : Time) : Except LinkError (Ended LinkBoxRetired) := do
  let discarded := tables.deposits.rows.countP fun deposit =>
    deposit.rendezvousId = box.rendezvousId
  let tables := tables.deleteDeposits fun deposit => deposit.rendezvousId = box.rendezvousId
  let nowColumn ← timeParameter now
  let tables ← tables.updateBoxes (·.rendezvousId = box.rendezvousId)
    (fun row => { row with retiredTime := some nowColumn, depositCount := 0 }) fun _ => rfl
  return .commit tables { reason := .ok, discardedDeposits := discarded % 2 ^ 32 }

def retireLinkBox (rendezvousId verifiedPub : Bytes) (now : Time) :
    LinkTables × Except LinkError LinkBoxRetired :=
  match validateLinkBoxAct rendezvousId verifiedPub with
  | .error e => (tables, .error (.store e))
  | .ok _ =>
    let now := linkBoxTime now
    tables.transact <|
      match tables.liveLinkBox rendezvousId now verifiedPub (·.collectVerifyPub) with
      | none => .ok (.rollback { reason := .cardRetired })
      | some box => tables.retireBox box now

def liveLinkBoxes (now : Time) : Except LinkError ℕ := do
  let nowColumn ← timeParameter (linkBoxTime now)
  return uint64 (tables.liveCount nowColumn)

end LinkTables

def MessageRendezvousDeposit.le (a b : MessageRendezvousDeposit) : Bool :=
  ((compare a.pruneAfter b.pruneAfter).then
    ((compare a.rendezvousId b.rendezvousId).then (compare a.depositId b.depositId))).isLE

def MessageRendezvous.le (a b : MessageRendezvous) : Bool :=
  ((compare a.reclaimAfter b.reclaimAfter).then (compare a.rendezvousId b.rendezvousId)).isLE

namespace LinkTables

variable (tables : LinkTables)

def dueDeposits (now : ℤ) (limit : ℕ) : List MessageRendezvousDeposit :=
  ((tables.deposits.rows.filter fun deposit => deposit.pruneAfter ≤ now).mergeSort
    MessageRendezvousDeposit.le).take limit

def dueBoxes (now : ℤ) (limit : ℕ) : List MessageRendezvous :=
  ((tables.rendezvous.rows.filter fun row => row.reclaimAfter ≤ now).mergeSort
    MessageRendezvous.le).take limit

/-- `DELETE FROM message_rendezvous`, which cascades to the deposits. -/
def deleteBoxes (ids : List Bytes) : LinkTables where
  rendezvous := tables.rendezvous.filter fun row => row.rendezvousId ∉ ids
  deposits := tables.deposits.filter fun deposit => deposit.rendezvousId ∉ ids

def recount (touched : List Bytes) : Except LinkError LinkTables :=
  if touched = [] then .ok tables
  else tables.updateBoxes (fun row => row.rendezvousId ∈ touched)
    (fun row => { row with depositCount :=
      (tables.deposits.rows.countP fun deposit => deposit.rendezvousId = row.rendezvousId : ℕ) })
    fun _ => rfl

/-- One batch; another sweeper may hold the advisory lock. -/
def sweepLinkBoxes (locked : Bool) (now : Time) (bounds : LinkBoxSweepBounds) :
    LinkTables × Except LinkError LinkBoxesSwept :=
  let bounds := bounds.orDefault
  let now := linkBoxTime now
  tables.transact <|
    if ¬ locked then .ok (.rollback { skipped := true })
    else do
      let nowColumn ← timeParameter now
      let due := tables.dueDeposits nowColumn bounds.deposits
      let touched := due.map (·.rendezvousId)
      let tables ← (tables.deleteDeposits (· ∈ due)).recount touched
      let reclaimed := tables.dueBoxes nowColumn bounds.boxes
      return .commit (tables.deleteBoxes (reclaimed.map (·.rendezvousId)))
        { deposits := touched.length % 2 ^ 32, boxes := reclaimed.length % 2 ^ 32 }

/-- An answer of the SQL store; only its database can fail a count or a sweep. -/
inductive Answer
  | registered (answer : Except LinkError LinkBoxRegistered)
  | linkBox (answer : Except LinkError LinkBox)
  | deposited (answer : Except LinkError LinkBoxDeposited)
  | collected (answer : Except LinkError LinkBoxCollected)
  | retired (answer : Except LinkError LinkBoxRetired)
  | live (answer : Except LinkError ℕ)
  | swept (answer : Except LinkError LinkBoxesSwept)

/-- One call on the tables, a sweep with the advisory lock. -/
def perform (sha256 : Bytes → Bytes) : LinkBoxCall → LinkTables × Answer
  | .register registration now ttl liveCap =>
    let next := tables.registerLinkBox registration now ttl liveCap
    (next.1, .registered next.2)
  | .linkBox rendezvousId => (tables, .linkBox (tables.linkBox rendezvousId))
  | .deposit rendezvousId verifiedPub depositCt now =>
    let next := tables.depositLinkBox sha256 rendezvousId verifiedPub depositCt now
    (next.1, .deposited next.2)
  | .collect request now =>
    let next := tables.collectLinkBox request now
    (next.1, .collected next.2)
  | .retire rendezvousId verifiedPub now =>
    let next := tables.retireLinkBox rendezvousId verifiedPub now
    (next.1, .retired next.2)
  | .live now => (tables, .live (tables.liveLinkBoxes now))
  | .sweep now bounds =>
    let next := tables.sweepLinkBoxes true now bounds
    (next.1, .swept next.2)

def after (sha256 : Bytes → Bytes) (calls : List LinkBoxCall) : LinkTables :=
  calls.foldl (fun tables call => (tables.perform sha256 call).1) tables

end LinkTables

end MessageServer.Pgx
