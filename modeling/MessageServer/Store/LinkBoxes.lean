import MessageServer.Lib.Table
import MessageServer.Store.Basic

/-! # Link boxes in memory

A link box stands at a rendezvous id from its registration to the sweep that
reclaims it, and takes two deposits over its life. Every call is handed the time
it decides liveness by. The calls run under one mutex, so each is one step.
-/

namespace MessageServer.Store

def rendezvousIdBytes : ℕ := 32
def linkCardBytes : ℕ := 4124
def linkDepositBytes : ℕ := 17526
def linkBoxKind : ℕ := 4
def linkBoxAlgId : ℕ := 0x0014

def linkBoxDeposits : ℕ := 2

inductive LinkBoxError
  | identifierShape | shape | ttl | unknown | liveCap
  deriving DecidableEq, Repr

structure LinkBoxRegistration where
  rendezvousId : Bytes
  depositVerifyPub : Bytes
  collectVerifyPub : Bytes
  publicCt : Bytes
  deriving DecidableEq

structure LinkBox where
  rendezvousId : Bytes
  depositVerifyPub : Bytes
  collectVerifyPub : Bytes
  publicCt : Bytes
  depositCount : ℕ
  depositsTaken : ℕ
  refusedCount : ℕ
  registerTime : Time
  expireTime : Time
  retiredTime : Option Time
  reclaimAfter : Time
  deriving DecidableEq

structure LinkBoxRegistered where
  reason : Reason
  expireTime : Option Time := none
  mailboxDepth : ℕ := 0
  deriving DecidableEq

structure LinkBoxDeposited where
  reason : Reason
  depositId : ℕ := 0
  depositHash : Slice := none
  pendingCount : ℕ := 0
  replayed : Bool := false
  deriving DecidableEq

structure LinkBoxCollectRequest where
  rendezvousId : Bytes
  sinceDepositId : ℕ
  ackThroughDepositId : ℕ
  limit : ℕ
  verifiedPub : Bytes

structure LinkBoxDeposit where
  depositId : ℕ
  depositCt : Bytes
  createTime : Time
  deriving DecidableEq

structure LinkBoxCollected where
  reason : Reason
  deposits : List LinkBoxDeposit := []
  pendingCount : ℕ := 0
  refusedCount : ℕ := 0
  expireTime : Option Time := none
  complete : Bool := false
  deriving DecidableEq

structure LinkBoxRetired where
  reason : Reason
  discardedDeposits : ℕ := 0
  deriving DecidableEq

structure LinkBoxSweepBounds where
  deposits : ℕ
  boxes : ℕ

structure LinkBoxesSwept where
  deposits : ℕ := 0
  boxes : ℕ := 0
  skipped : Bool := false
  deriving DecidableEq

def linkBoxTime (now : Time) : Time := now - now % 1000

def LinkBox.live (box : LinkBox) (now : Time) : Bool :=
  box.retiredTime.isNone && decide (linkBoxTime now < box.expireTime)

def defaultLinkBoxSweepBounds : LinkBoxSweepBounds := ⟨1000, 500⟩

/-- The bounds of a batch, each zero taken as the default. -/
def LinkBoxSweepBounds.orDefault (bounds : LinkBoxSweepBounds) : LinkBoxSweepBounds where
  deposits := if bounds.deposits = 0 then defaultLinkBoxSweepBounds.deposits else bounds.deposits
  boxes := if bounds.boxes = 0 then defaultLinkBoxSweepBounds.boxes else bounds.boxes

/-- The registration behind a pointer, once its shape is checked. -/
def validateLinkBoxRegistration (registration : Option LinkBoxRegistration) (ttl : ℤ)
    (liveCap : ℕ) : Except LinkBoxError LinkBoxRegistration :=
  match registration with
  | none => .error .identifierShape
  | some registration => do
    failIf (registration.rendezvousId.length ≠ rendezvousIdBytes) .identifierShape
    failIf (registration.depositVerifyPub.length ≠ verifyPubBytes) .identifierShape
    failIf (registration.collectVerifyPub.length ≠ verifyPubBytes) .identifierShape
    failIf (registration.publicCt.length ≠ linkCardBytes) .shape
    failIf (ttl ≤ 0) .ttl
    failIf (liveCap = 0) .liveCap
    return registration

def validateLinkBoxDeposit (rendezvousId verifiedPub depositCt : Bytes) :
    Except LinkBoxError Unit := do
  failIf (rendezvousId.length ≠ rendezvousIdBytes) .identifierShape
  failIf (verifiedPub.length ≠ verifyPubBytes) .identifierShape
  failIf (depositCt.length ≠ linkDepositBytes) .shape

def validateLinkBoxAct (rendezvousId verifiedPub : Bytes) : Except LinkBoxError Unit := do
  failIf (rendezvousId.length ≠ rendezvousIdBytes) .identifierShape
  failIf (verifiedPub.length ≠ verifyPubBytes) .identifierShape

def sameLinkBoxRegistration (box : LinkBox) (registration : LinkBoxRegistration) : Bool :=
  box.depositVerifyPub = registration.depositVerifyPub &&
    box.collectVerifyPub = registration.collectVerifyPub && box.publicCt = registration.publicCt

def linkBoxDepositsAfter (standing : List LinkBoxDeposit) (since limit : ℕ) :
    List LinkBoxDeposit × Bool :=
  let after := standing.filter fun deposit => since < deposit.depositId
  if limit ≠ 0 ∧ limit < after.length % 2 ^ 32 then (after.take limit, false) else (after, true)

structure LinkBoxRow where
  rendezvousId : Bytes
  kind : ℕ
  depositVerifyPub : Bytes
  collectVerifyPub : Bytes
  cardXwingPub : Slice
  publicCt : Bytes
  algId : ℕ
  nextDepositId : ℕ
  depositCount : ℕ
  refusedCount : ℕ
  registerTime : Time
  refreshTime : Time
  expireTime : Time
  retiredTime : Option Time
  reclaimAfter : Time
  deriving DecidableEq

structure LinkDepositRow where
  rendezvousId : Bytes
  depositId : ℕ
  depositHash : Bytes
  depositCt : Bytes
  createTime : Time
  pruneAfter : Time
  deriving DecidableEq

/-- The boxes by their ids, and the deposits of all boxes in the order of their arrival. -/
structure MemoryBoxes where
  boxes : Table LinkBoxRow.rendezvousId
  deposits : List LinkDepositRow

def LinkBoxRow.linkBox (row : LinkBoxRow) : LinkBox where
  rendezvousId := row.rendezvousId
  depositVerifyPub := row.depositVerifyPub
  collectVerifyPub := row.collectVerifyPub
  publicCt := row.publicCt
  depositCount := row.depositCount
  depositsTaken := row.nextDepositId - 1
  refusedCount := row.refusedCount
  registerTime := row.registerTime
  expireTime := row.expireTime
  retiredTime := row.retiredTime
  reclaimAfter := row.reclaimAfter

namespace LinkBoxRow

def refuse (row : LinkBoxRow) : LinkBoxRow := { row with refusedCount := row.refusedCount + 1 }

def take (row : LinkBoxRow) : LinkBoxRow :=
  { row with nextDepositId := row.nextDepositId + 1, depositCount := row.depositCount + 1 }

/-- What stands counted again, and the refusals handed over. -/
def collect (kept : ℕ) (row : LinkBoxRow) : LinkBoxRow :=
  { row with depositCount := kept, refusedCount := 0 }

def retire (now : Time) (row : LinkBoxRow) : LinkBoxRow :=
  { row with retiredTime := some now, depositCount := 0 }

def nextDeposit (row : LinkBoxRow) (depositHash depositCt : Bytes) (now : Time) :
    LinkDepositRow where
  rendezvousId := row.rendezvousId
  depositId := row.nextDepositId
  depositHash := depositHash
  depositCt := depositCt
  createTime := now
  pruneAfter := row.expireTime

@[simp] theorem refuse_rendezvousId (row : LinkBoxRow) :
    row.refuse.rendezvousId = row.rendezvousId := rfl

@[simp] theorem take_rendezvousId (row : LinkBoxRow) :
    row.take.rendezvousId = row.rendezvousId := rfl

@[simp] theorem collect_rendezvousId (kept : ℕ) (row : LinkBoxRow) :
    (row.collect kept).rendezvousId = row.rendezvousId := rfl

@[simp] theorem retire_rendezvousId (now : Time) (row : LinkBoxRow) :
    (row.retire now).rendezvousId = row.rendezvousId := rfl

end LinkBoxRow

namespace MemoryBoxes

def empty : MemoryBoxes := ⟨.empty, []⟩

variable (s : MemoryBoxes)

def depositsAt (rendezvousId : Bytes) : List LinkDepositRow :=
  s.deposits.filter fun deposit => deposit.rendezvousId = rendezvousId

/-- The row at an id, if it is live and pinned under the key its caller verified. -/
def liveLinkBox (rendezvousId : Bytes) (now : Time) (verifiedPub : Bytes)
    (pinned : LinkBoxRow → Bytes) : Option LinkBoxRow :=
  (s.boxes.find rendezvousId).filter fun row =>
    row.linkBox.live now && pinned row = verifiedPub

def liveCount (now : Time) : ℕ := s.boxes.rows.countP fun row => row.linkBox.live now

def registeredRow (registration : LinkBoxRegistration) (now expire : Time) : LinkBoxRow where
  rendezvousId := registration.rendezvousId
  kind := linkBoxKind
  depositVerifyPub := registration.depositVerifyPub
  collectVerifyPub := registration.collectVerifyPub
  cardXwingPub := none
  publicCt := registration.publicCt
  algId := linkBoxAlgId
  nextDepositId := 1
  depositCount := 0
  refusedCount := 0
  registerTime := now
  refreshTime := now
  expireTime := expire
  retiredTime := none
  reclaimAfter := expire

/-- The answer to a registration at an id that has a row. -/
def registerAgain (row : LinkBoxRow) (registration : LinkBoxRegistration) (now : Time) :
    LinkBoxRegistered :=
  if row.linkBox.live now && sameLinkBoxRegistration row.linkBox registration then
    { reason := .ok, expireTime := some row.expireTime, mailboxDepth := row.depositCount }
  else { reason := .rejected }

def registerLinkBox (registration : Option LinkBoxRegistration) (now : Time) (ttl : ℤ)
    (liveCap : ℕ) : MemoryBoxes × Except LinkBoxError LinkBoxRegistered :=
  match validateLinkBoxRegistration registration ttl liveCap with
  | .error e => (s, .error e)
  | .ok registration =>
    let now := linkBoxTime now
    match s.boxes.find registration.rendezvousId with
    | some row => (s, .ok (registerAgain row registration now))
    | none =>
      if liveCap ≤ s.liveCount now then (s, .ok { reason := .cardRateLimited })
      else
        let expire := linkBoxTime (now + ttl)
        ({ s with boxes := s.boxes.insert (registeredRow registration now expire) },
          .ok { reason := .ok, expireTime := some expire })

def linkBox (rendezvousId : Bytes) : Except LinkBoxError LinkBox := do
  failIf (rendezvousId.length ≠ rendezvousIdBytes) .identifierShape
  match s.boxes.find rendezvousId with
  | none => .error .unknown
  | some row => return row.linkBox

/-- The box a caller reads and then finds live; an unknown box and a box past its life are none. -/
def readLive (rendezvousId : Bytes) (now : Time) : Except LinkBoxError (Option LinkBox) :=
  match s.linkBox rendezvousId with
  | .error .unknown => .ok none
  | .error e => .error e
  | .ok box => if box.live now then .ok (some box) else .ok none

/-- A deposit into a live box; the same octets again are the deposit that stands. -/
def depositInto (row : LinkBoxRow) (depositHash depositCt : Bytes) (now : Time) :
    MemoryBoxes × LinkBoxDeposited :=
  match (s.depositsAt row.rendezvousId).find? fun deposit => deposit.depositHash = depositHash with
  | some deposit => (s, {
      reason := .ok
      depositId := deposit.depositId
      depositHash := some deposit.depositHash
      pendingCount := row.depositCount
      replayed := true })
  | none =>
    if linkBoxDeposits ≤ row.nextDepositId - 1 then
      ({ s with boxes := s.boxes.modify row.rendezvousId .refuse LinkBoxRow.refuse_rendezvousId },
        { reason := .cardRateLimited })
    else
      ({ boxes := s.boxes.modify row.rendezvousId .take LinkBoxRow.take_rendezvousId
         deposits := s.deposits ++ [row.nextDeposit depositHash depositCt now] },
        { reason := .ok
          depositId := row.nextDepositId
          depositHash := some depositHash
          pendingCount := row.depositCount + 1 })

def depositLinkBox (sha256 : Bytes → Bytes) (rendezvousId verifiedPub depositCt : Bytes)
    (now : Time) : MemoryBoxes × Except LinkBoxError LinkBoxDeposited :=
  match validateLinkBoxDeposit rendezvousId verifiedPub depositCt with
  | .error e => (s, .error e)
  | .ok _ =>
    let now := linkBoxTime now
    match s.liveLinkBox rendezvousId now verifiedPub (·.depositVerifyPub) with
    | none => (s, .ok { reason := .cardRetired })
    | some row =>
      let next := s.depositInto row (sha256 depositCt) depositCt now
      (next.1, .ok next.2)

/-- The acknowledged deposits deleted, and what stands after an id read. -/
def collectFrom (row : LinkBoxRow) (request : LinkBoxCollectRequest) :
    MemoryBoxes × LinkBoxCollected :=
  let kept := (s.depositsAt row.rendezvousId).filter fun deposit =>
    request.ackThroughDepositId < deposit.depositId
  let standing := kept.map fun deposit =>
    { depositId := deposit.depositId
      depositCt := deposit.depositCt
      createTime := deposit.createTime : LinkBoxDeposit }
  let after := linkBoxDepositsAfter standing request.sinceDepositId request.limit
  ({ boxes := s.boxes.modify row.rendezvousId (.collect kept.length)
        (LinkBoxRow.collect_rendezvousId _)
     deposits := s.deposits.filter fun deposit =>
        deposit.rendezvousId ≠ row.rendezvousId ∨ request.ackThroughDepositId < deposit.depositId },
    { reason := .ok
      deposits := after.1
      pendingCount := kept.length
      refusedCount := row.refusedCount
      expireTime := some row.expireTime
      complete := after.2 })

def collectLinkBox (request : Option LinkBoxCollectRequest) (now : Time) :
    MemoryBoxes × Except LinkBoxError LinkBoxCollected :=
  match request with
  | none => (s, .error .identifierShape)
  | some request =>
    match validateLinkBoxAct request.rendezvousId request.verifiedPub with
    | .error e => (s, .error e)
    | .ok _ =>
      match s.liveLinkBox request.rendezvousId (linkBoxTime now) request.verifiedPub
          (·.collectVerifyPub) with
      | none => (s, .ok { reason := .cardRetired })
      | some row =>
        let next := s.collectFrom row request
        (next.1, .ok next.2)

def retireBox (row : LinkBoxRow) (now : Time) : MemoryBoxes × LinkBoxRetired :=
  ({ boxes := s.boxes.modify row.rendezvousId (.retire now) (LinkBoxRow.retire_rendezvousId now)
     deposits := s.deposits.filter fun deposit => deposit.rendezvousId ≠ row.rendezvousId },
    { reason := .ok, discardedDeposits := (s.depositsAt row.rendezvousId).length })

def retireLinkBox (rendezvousId verifiedPub : Bytes) (now : Time) :
    MemoryBoxes × Except LinkBoxError LinkBoxRetired :=
  match validateLinkBoxAct rendezvousId verifiedPub with
  | .error e => (s, .error e)
  | .ok _ =>
    let now := linkBoxTime now
    match s.liveLinkBox rendezvousId now verifiedPub (·.collectVerifyPub) with
    | none => (s, .ok { reason := .cardRetired })
    | some row =>
      let next := s.retireBox row now
      (next.1, .ok next.2)

def liveLinkBoxes (now : Time) : ℕ := s.liveCount (linkBoxTime now)

end MemoryBoxes

/-- The deposits of a batch, oldest first, then by their keys. -/
def LinkDepositRow.le (a b : LinkDepositRow) : Bool :=
  ((compare a.pruneAfter b.pruneAfter).then
    ((compare a.rendezvousId b.rendezvousId).then (compare a.depositId b.depositId))).isLE

/-- The boxes of a batch, oldest first, then by their ids. -/
def LinkBoxRow.le (a b : LinkBoxRow) : Bool :=
  ((compare a.reclaimAfter b.reclaimAfter).then (compare a.rendezvousId b.rendezvousId)).isLE

/-- The rows of a batch: those that are due, in order, as far as the bound reaches. -/
def batchOf {α : Type} (le : α → α → Bool) (bound : ℕ) (due : List α) : List α :=
  let sorted := due.mergeSort le
  if bound < sorted.length % 2 ^ 32 then sorted.take bound else sorted

namespace MemoryBoxes

variable (s : MemoryBoxes)

def dueDeposits (now : Time) (bound : ℕ) : List LinkDepositRow :=
  batchOf LinkDepositRow.le bound (s.deposits.filter fun deposit => deposit.pruneAfter ≤ now)

def sweepDeposits (due : List LinkDepositRow) : MemoryBoxes :=
  let deposits := s.deposits.diff due
  { boxes := s.boxes.map (fun row =>
      if row.rendezvousId ∈ due.map (·.rendezvousId) then
        { row with depositCount :=
            (deposits.filter fun deposit => deposit.rendezvousId = row.rendezvousId).length }
      else row) fun row => by split <;> rfl
    deposits := deposits }

def dueBoxes (now : Time) (bound : ℕ) : List LinkBoxRow :=
  batchOf LinkBoxRow.le bound (s.boxes.rows.filter fun row => row.reclaimAfter ≤ now)

def deleteBoxes (ids : List Bytes) : MemoryBoxes where
  boxes := s.boxes.filter fun row => row.rendezvousId ∉ ids
  deposits := s.deposits.filter fun deposit => deposit.rendezvousId ∉ ids

def sweepLinkBoxes (now : Time) (bounds : LinkBoxSweepBounds) : MemoryBoxes × LinkBoxesSwept :=
  let bounds := bounds.orDefault
  let now := linkBoxTime now
  let due := s.dueDeposits now bounds.deposits
  let swept := s.sweepDeposits due
  let reclaimable := swept.dueBoxes now bounds.boxes
  (swept.deleteBoxes (reclaimable.map (·.rendezvousId)),
    { deposits := due.length % 2 ^ 32, boxes := reclaimable.length % 2 ^ 32 })

end MemoryBoxes

inductive LinkBoxCall
  | register (registration : Option LinkBoxRegistration) (now : Time) (ttl : ℤ) (liveCap : ℕ)
  | linkBox (rendezvousId : Bytes)
  | deposit (rendezvousId verifiedPub depositCt : Bytes) (now : Time)
  | collect (request : Option LinkBoxCollectRequest) (now : Time)
  | retire (rendezvousId verifiedPub : Bytes) (now : Time)
  | live (now : Time)
  | sweep (now : Time) (bounds : LinkBoxSweepBounds)

inductive LinkBoxAnswer
  | registered (answer : Except LinkBoxError LinkBoxRegistered)
  | linkBox (answer : Except LinkBoxError LinkBox)
  | deposited (answer : Except LinkBoxError LinkBoxDeposited)
  | collected (answer : Except LinkBoxError LinkBoxCollected)
  | retired (answer : Except LinkBoxError LinkBoxRetired)
  | live (boxes : ℕ)
  | swept (answer : LinkBoxesSwept)

def MemoryBoxes.perform (sha256 : Bytes → Bytes) (s : MemoryBoxes) :
    LinkBoxCall → MemoryBoxes × LinkBoxAnswer
  | .register registration now ttl liveCap =>
    let next := s.registerLinkBox registration now ttl liveCap
    (next.1, .registered next.2)
  | .linkBox rendezvousId => (s, .linkBox (s.linkBox rendezvousId))
  | .deposit rendezvousId verifiedPub depositCt now =>
    let next := s.depositLinkBox sha256 rendezvousId verifiedPub depositCt now
    (next.1, .deposited next.2)
  | .collect request now =>
    let next := s.collectLinkBox request now
    (next.1, .collected next.2)
  | .retire rendezvousId verifiedPub now =>
    let next := s.retireLinkBox rendezvousId verifiedPub now
    (next.1, .retired next.2)
  | .live now => (s, .live (s.liveLinkBoxes now))
  | .sweep now bounds =>
    let next := s.sweepLinkBoxes now bounds
    (next.1, .swept next.2)

def MemoryBoxes.after (sha256 : Bytes → Bytes) (s : MemoryBoxes) (calls : List LinkBoxCall) :
    MemoryBoxes :=
  calls.foldl (fun s call => (s.perform sha256 call).1) s

end MessageServer.Store
