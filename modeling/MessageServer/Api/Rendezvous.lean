import Mathlib.Algebra.Ring.Int.Defs
import MessageServer.Api.Calls
import MessageServer.Api.Delivery
import MessageServer.Store.LinkBoxes

/-! # The rendezvous arms

Open, Deposit, Collect and Retire read the box at an id, verify the signature of
the request under the key that the box is pinned under, and write with that key.
A Collect that subscribes claims its subscription before its write and settles
the claim after it; a Deposit notifies after its write.
-/

namespace MessageServer

open Protocol Store

namespace Protocol

structure RendezvousOpenRequest where
  rendezvousId : Bytes
  openAuth : Bytes

structure RendezvousDepositRequest where
  rendezvousId : Bytes
  depositCt : Bytes
  depositAuth : Bytes

structure RendezvousCollectRequest where
  rendezvousId : Bytes
  sinceDepositId : ℕ
  ackThroughDepositId : ℕ
  limit : ℕ
  subscribe : Bool
  collectAuth : Bytes

structure RendezvousRetireRequest where
  rendezvousId : Bytes
  retireAuth : Bytes

structure RendezvousOpenResponse where
  algId : ℕ
  depositBytes : ℕ
  publicCt : Bytes
  depositSizes : List ℕ

structure RendezvousDepositResponse where
  depositId : ℕ
  depositHash : Slice

structure RendezvousDeposit where
  depositId : ℕ
  depositCt : Bytes
  createTimeMs : ℕ

structure RendezvousCollectResponse where
  pendingCount : ℕ
  refusedCount : ℕ
  expireTimeMs : ℕ
  complete : Bool
  deposits : List RendezvousDeposit

structure RendezvousRetireResponse where
  discardedDeposits : ℕ

end Protocol

namespace Api

open Runs

/-- A request on one of the four arms after Register. -/
inductive RendezvousRequest
  | openBox (request : RendezvousOpenRequest)
  | deposit (request : RendezvousDepositRequest)
  | collect (request : RendezvousCollectRequest)
  | retire (request : RendezvousRetireRequest)

inductive RendezvousResponse
  | openBox (response : RendezvousOpenResponse)
  | deposit (response : RendezvousDepositResponse)
  | collect (response : RendezvousCollectResponse)
  | retire (response : RendezvousRetireResponse)

structure RendezvousAnswer where
  reason : Reason
  body : Option RendezvousResponse := none
  error : Option LinkBoxError := none

structure RendezvousArms where
  linkBoxes : Bool
  rejectFloor : ℤ
  sha256 : Bytes → Bytes
  verifyOpen : (pub nonce rendezvousId auth : Bytes) → Bool
  verifyDeposit : (pub nonce rendezvousId depositCt auth : Bytes) → Bool
  verifyCollect : (pub nonce : Bytes) → RendezvousCollectRequest → Bool
  verifyRetire : (pub nonce rendezvousId auth : Bytes) → Bool

namespace RendezvousRequest

def rendezvousId : RendezvousRequest → Bytes
  | .openBox request => request.rendezvousId
  | .deposit request => request.rendezvousId
  | .collect request => request.rendezvousId
  | .retire request => request.rendezvousId

def shaped : RendezvousRequest → Bool
  | .deposit request => request.rendezvousId.length = rendezvousIdBytes &&
      request.depositCt.length = linkDepositBytes
  | request => request.rendezvousId.length = rendezvousIdBytes

end RendezvousRequest

def RendezvousRequest.pinned (request : RendezvousRequest) (box : LinkBox) : Bytes :=
  match request with
  | .openBox _ | .deposit _ => box.depositVerifyPub
  | .collect _ | .retire _ => box.collectVerifyPub

def RendezvousArms.verify (arms : RendezvousArms) (pub nonce : Bytes) : RendezvousRequest → Bool
  | .openBox request => arms.verifyOpen pub nonce request.rendezvousId request.openAuth
  | .deposit request =>
    arms.verifyDeposit pub nonce request.rendezvousId request.depositCt request.depositAuth
  | .collect request => arms.verifyCollect pub nonce request
  | .retire request => arms.verifyRetire pub nonce request.rendezvousId request.retireAuth

structure RendezvousServer where
  boxes : MemoryBoxes
  subscriptions : Option Registry

/-- Where a request stands between two of its steps, with the time it was handed. -/
inductive RendezvousCall
  | arrived (r : Incoming RendezvousRequest)
  | depositing (request : RendezvousDepositRequest) (box : LinkBox) (now : Time)
  | notifying (rendezvousId : Bytes) (deposited : LinkBoxDeposited) (now : Time)
  | subscribing (conn : Connection) (request : RendezvousCollectRequest)
      (box : LinkBox) (now : Time)
  | collecting (conn : Connection) (request : RendezvousCollectRequest)
      (box : LinkBox) (now : Time) (claimed : Option ℕ)
  | settling (conn : Connection) (rendezvousId : Bytes) (claimed : ℕ)
      (collected : Except LinkBoxError LinkBoxCollected)
  | retiring (request : RendezvousRetireRequest) (box : LinkBox) (now : Time)
  | ending (rendezvousId : Bytes) (retired : LinkBoxRetired)
  | answered (answer : RendezvousAnswer)

def unixMilli (time : Time) : ℕ := (time / 1000000 % 2 ^ 64).toNat

def depositedAnswer (deposited : LinkBoxDeposited) : RendezvousAnswer where
  reason := .ok
  body := some (.deposit ⟨deposited.depositId, deposited.depositHash⟩)

def collectedAnswer (collected : Except LinkBoxError LinkBoxCollected) :
    RendezvousAnswer :=
  match collected with
  | .error e => { reason := .internal, error := some e }
  | .ok collected =>
    if collected.reason ≠ .ok then { reason := collected.reason }
    else
      { reason := .ok
        body := some (.collect {
          pendingCount := collected.pendingCount
          refusedCount := collected.refusedCount
          expireTimeMs := (collected.expireTime.map unixMilli).getD 0
          complete := collected.complete
          deposits := collected.deposits.map fun deposit =>
            ⟨deposit.depositId, deposit.depositCt, unixMilli deposit.createTime⟩ }) }

def collectTaken : Except LinkBoxError LinkBoxCollected → Bool
  | .error _ => false
  | .ok collected => collected.reason = .ok

namespace RendezvousArms

variable (arms : RendezvousArms)

def rendezvousServed : Bool := arms.linkBoxes && 0 < arms.rejectFloor

def verified (subscribes : Bool) (conn : Connection) (box : LinkBox) (now : Time) :
    RendezvousRequest → RendezvousCall
  | .openBox _ => .answered {
      reason := .ok
      body := some (.openBox {
        algId := linkBoxAlgId
        depositBytes := linkDepositBytes
        publicCt := box.publicCt
        depositSizes := [linkDepositBytes] }) }
  | .deposit request => .depositing request box now
  | .collect request =>
    if request.subscribe && subscribes then .subscribing conn request box now
    else .collecting conn request box now none
  | .retire request => .retiring request box now

/-- The checks of an arm, with the one read of the store that they make. -/
def check (server : RendezvousServer) (r : Incoming RendezvousRequest) (now : Time) :
    RendezvousCall :=
  if frontChecks r.front ≠ .ok then .answered { reason := frontChecks r.front }
  else if !arms.rendezvousServed then .answered { reason := .internal }
  else if !r.body.shaped then .answered { reason := .rejected }
  else
    match server.boxes.readLive r.body.rendezvousId now with
    | .error e => .answered { reason := .internal, error := some e }
    | .ok none => .answered { reason := .cardRetired }
    | .ok (some box) =>
      if !arms.verify (r.body.pinned box) r.conn.serverNonce r.body then
        .answered { reason := .cardRetired }
      else verified server.subscriptions.isSome r.conn box now r.body

def deposit (server : RendezvousServer) (request : RendezvousDepositRequest)
    (box : LinkBox) (now : Time) : RendezvousServer × RendezvousCall :=
  let next := server.boxes.depositLinkBox arms.sha256 request.rendezvousId box.depositVerifyPub
    request.depositCt now
  ({ server with boxes := next.1 }, match next.2 with
    | .error e => .answered { reason := .internal, error := some e }
    | .ok deposited =>
      if deposited.reason ≠ .ok then .answered { reason := deposited.reason }
      else if server.subscriptions.isSome && !deposited.replayed then
        .notifying request.rendezvousId deposited now
      else .answered (depositedAnswer deposited))

def subscribe (server : RendezvousServer) (conn : Connection)
    (request : RendezvousCollectRequest) (box : LinkBox) (now : Time) :
    RendezvousServer × RendezvousCall :=
  match server.subscriptions with
  | none => (server, .collecting conn request box now none)
  | some registry =>
    let next := registry.rendezvous.subscribeRendezvous conn request.rendezvousId box.expireTime now
    ({ server with subscriptions := some { registry with rendezvous := next.1 } }, match next.2 with
      | .error _ => .answered { reason := .cardRateLimited }
      | .ok (claimed, _) => .collecting conn request box now claimed)

def collect (server : RendezvousServer) (conn : Connection)
    (request : RendezvousCollectRequest) (box : LinkBox) (now : Time)
    (claimed : Option ℕ) : RendezvousServer × RendezvousCall :=
  let next := server.boxes.collectLinkBox (some {
    rendezvousId := request.rendezvousId
    sinceDepositId := request.sinceDepositId
    ackThroughDepositId := request.ackThroughDepositId
    limit := request.limit
    verifiedPub := box.collectVerifyPub }) now
  ({ server with boxes := next.1 }, match claimed with
    | none => .answered (collectedAnswer next.2)
    | some claimed => .settling conn request.rendezvousId claimed next.2)

def retire (server : RendezvousServer) (request : RendezvousRetireRequest)
    (box : LinkBox) (now : Time) : RendezvousServer × RendezvousCall :=
  let next := server.boxes.retireLinkBox request.rendezvousId box.collectVerifyPub now
  ({ server with boxes := next.1 }, match next.2 with
    | .error e => .answered { reason := .internal, error := some e }
    | .ok retired =>
      if retired.reason ≠ .ok then .answered { reason := retired.reason }
      else .ending request.rendezvousId retired)

/-- The next step of a request; the clock is read once, where its box is. -/
def advance (now : Time) (server : RendezvousServer) :
    RendezvousCall → RendezvousServer × RendezvousCall
  | .arrived r => (server, arms.check server r now)
  | .depositing request box now => arms.deposit server request box now
  | .notifying rendezvousId deposited now =>
    ({ server with
        subscriptions := server.subscriptions.map
          (·.depositedRendezvous rendezvousId deposited.pendingCount now) },
      .answered (depositedAnswer deposited))
  | .subscribing conn request box now => subscribe server conn request box now
  | .collecting conn request box now claimed => collect server conn request box now claimed
  | .settling conn rendezvousId claimed collected =>
    ({ server with
        subscriptions := server.subscriptions.map fun registry =>
          { registry with
            rendezvous := registry.rendezvous.settleRendezvous conn rendezvousId claimed
              (collectTaken collected) } },
      .answered (collectedAnswer collected))
  | .retiring request box now => retire server request box now
  | .ending rendezvousId retired =>
    ({ server with
        subscriptions := server.subscriptions.map fun registry =>
          { registry with rendezvous := registry.rendezvous.retiredRendezvous rendezvousId } },
      .answered { reason := .ok, body := some (.retire ⟨retired.discardedDeposits⟩) })
  | .answered answer => (server, .answered answer)

end RendezvousArms

end Api

end MessageServer
