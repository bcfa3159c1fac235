import Mathlib.Data.List.Sort
import MessageServer.Api.Subscriptions
import MessageServer.Lib.Table

/-! # The rendezvous half of the subscription registry

Subscriptions to link boxes are kept by box, each box with its expiry, and the
boxes once more in the order of their expiries. A Collect claims a subscription
before its write and settles the claim after it.
-/

namespace MessageServer.Api

open Function

structure RendezvousKey where
  connection : Bytes
  box : Bytes
  deriving DecidableEq

/-- A subscription to a box; its serial number tells it from a later one under the same key. -/
structure RendezvousSubscription where
  serial : ℕ
  clientId : Bytes
  serverNonce : Bytes
  rendezvousId : Bytes
  pending : ℕ
  claims : ℤ
  kept : Bool

def RendezvousSubscription.connection (sub : RendezvousSubscription) : Bytes :=
  connectionKeyOf ⟨sub.serverNonce, sub.clientId⟩

structure RendezvousBox where
  expireTime : Time
  subscribers : Table RendezvousSubscription.connection

structure RendezvousExpiryEntry where
  expireTime : Time
  box : Bytes

inductive RendezvousError
  | subscriptionsFull
  deriving DecidableEq

/-- A push to a subscriber of a box, with the lock released. -/
structure RendezvousPush where
  key : RendezvousKey
  serial : ℕ
  clientId : Bytes
  serverNonce : Bytes
  rendezvousId : Bytes
  pending : ℕ

structure RendezvousSubscriptions where
  maxPerConnection : ℕ
  nextSerial : ℕ
  boxes : Bytes → Option RendezvousBox
  held : Bytes → Option ℕ
  count : ℤ
  expiry : List RendezvousExpiryEntry
  ready : RendezvousKey → Bool
  visited : ℕ

namespace RendezvousSubscription

def owe (pending : ℕ) (sub : RendezvousSubscription) : RendezvousSubscription :=
  { sub with pending := pending }

def claim (sub : RendezvousSubscription) : RendezvousSubscription :=
  { sub with claims := sub.claims + 1 }

/-- One Collect fewer holds the subscription, and a write that took keeps it. -/
def settle (taken : Bool) (sub : RendezvousSubscription) : RendezvousSubscription :=
  { sub with claims := sub.claims - 1, kept := taken || sub.kept }

@[simp] theorem owe_connection (pending : ℕ) (sub : RendezvousSubscription) :
    (sub.owe pending).connection = sub.connection := rfl

@[simp] theorem claim_connection (sub : RendezvousSubscription) :
    sub.claim.connection = sub.connection := rfl

@[simp] theorem settle_connection (taken : Bool) (sub : RendezvousSubscription) :
    (sub.settle taken).connection = sub.connection := rfl

def push (sub : RendezvousSubscription) (key : RendezvousKey) : RendezvousPush where
  key := key
  serial := sub.serial
  clientId := sub.clientId
  serverNonce := sub.serverNonce
  rendezvousId := sub.rendezvousId
  pending := sub.pending

end RendezvousSubscription

namespace RendezvousBox

def claim (connection : Bytes) (record : RendezvousBox) : RendezvousBox where
  expireTime := record.expireTime
  subscribers := record.subscribers.modify connection .claim
    RendezvousSubscription.claim_connection

def settle (connection : Bytes) (taken : Bool) (record : RendezvousBox) : RendezvousBox where
  expireTime := record.expireTime
  subscribers := record.subscribers.modify connection (.settle taken)
    (RendezvousSubscription.settle_connection taken)

/-- The box with every subscription owed a push of a count. -/
def owe (pending : ℕ) (record : RendezvousBox) : RendezvousBox where
  expireTime := record.expireTime
  subscribers := record.subscribers.map (.owe pending)
    (RendezvousSubscription.owe_connection pending)

def add (sub : RendezvousSubscription) (record : RendezvousBox) : RendezvousBox :=
  { record with subscribers := record.subscribers.insert sub }

def remove (connection : Bytes) (record : RendezvousBox) : RendezvousBox :=
  { record with subscribers := record.subscribers.filter (·.connection ≠ connection) }

end RendezvousBox

namespace RendezvousSubscriptions

def empty (maxPerConnection : ℕ) : RendezvousSubscriptions where
  maxPerConnection := maxPerConnection
  nextSerial := 0
  boxes := fun _ => none
  held := fun _ => none
  count := 0
  expiry := []
  ready := fun _ => false
  visited := 0

variable (registry : RendezvousSubscriptions)

def standing (key : RendezvousKey) : Option RendezvousSubscription :=
  (registry.boxes key.box).bind fun record => record.subscribers.find key.connection

/-- One subscription fewer, counted against its connection and in the whole. -/
def releaseRendezvous (connection : Bytes) : RendezvousSubscriptions :=
  { registry with
    count := registry.count - 1
    held := update registry.held connection
      (if (registry.held connection).getD 0 ≤ 1 then none
        else (registry.held connection).map (· - 1)) }

def setBox (box : Bytes) (record : Option RendezvousBox) : RendezvousSubscriptions :=
  { registry with boxes := update registry.boxes box record }

def unmark (key : RendezvousKey) : RendezvousSubscriptions :=
  { registry with ready := update registry.ready key false }

def removeRendezvous (box connection : Bytes) : RendezvousSubscriptions :=
  match registry.boxes box with
  | none => registry
  | some record =>
    if (record.subscribers.find connection).isNone then registry
    else
      let record := record.remove connection
      ((registry.unmark ⟨connection, box⟩).releaseRendezvous connection).setBox box
        (if record.subscribers.rows = [] then none else some record)

def dropSubscriber (box connection : Bytes) : RendezvousSubscriptions :=
  let registry := { registry with visited := registry.visited + 1 }
  (registry.unmark ⟨connection, box⟩).releaseRendezvous connection

def dropRendezvousBox (box : Bytes) : RendezvousSubscriptions :=
  match registry.boxes box with
  | none => registry
  | some record =>
    ((record.subscribers.rows.map (·.connection)).foldl
      (fun registry connection => registry.dropSubscriber box connection) registry).setBox box none

/-- Drop a box that an entry names, if it is past its expiry. -/
def expire (now : Time) (box : Bytes) : RendezvousSubscriptions :=
  match registry.boxes box with
  | none => registry
  | some record => if now < record.expireTime then registry else registry.dropRendezvousBox box

/-- Pop the entries that are due, and drop the boxes that they name. -/
def pruneEntries (now : Time) :
    List RendezvousExpiryEntry → RendezvousSubscriptions → RendezvousSubscriptions
  | [], registry => { registry with expiry := [] }
  | entry :: rest, registry =>
    if now < entry.expireTime then { registry with expiry := entry :: rest }
    else pruneEntries now rest (registry.expire now entry.box)

/-- Drop the subscriptions of every box past its expiry, in the order of the expiries. -/
def pruneRendezvous (now : Time) : RendezvousSubscriptions :=
  pruneEntries now registry.expiry registry

def made (conn : Connection) (rendezvousId : Bytes) : RendezvousSubscription where
  serial := registry.nextSerial
  clientId := conn.clientId
  serverNonce := conn.serverNonce
  rendezvousId := rendezvousId
  pending := 0
  claims := 1
  kept := false

def addSubscriber (rendezvousId : Bytes) (record : RendezvousBox) (sub : RendezvousSubscription) :
    RendezvousSubscriptions :=
  { registry with
    nextSerial := registry.nextSerial + 1
    boxes := update registry.boxes rendezvousId (some (record.add sub))
    held := update registry.held sub.connection
      (some ((registry.held sub.connection).getD 0 + 1))
    count := registry.count + 1 }

/-- Push an entry onto the boxes in the order of their expiries. -/
def pushExpiry (entry : RendezvousExpiryEntry) : RendezvousSubscriptions :=
  { registry with
    expiry := registry.expiry.orderedInsert (fun a b => a.expireTime ≤ b.expireTime) entry }

def makeRendezvous (conn : Connection) (rendezvousId : Bytes) (expireTime : Time)
    (record : Option RendezvousBox) :
    RendezvousSubscriptions × Except RendezvousError (Option ℕ × Bool) :=
  if registry.maxPerConnection ≤ (registry.held (connectionKeyOf conn)).getD 0 then
    (registry, .error .subscriptionsFull)
  else
    let sub := registry.made conn rendezvousId
    let next := match record with
      | some record => registry.addSubscriber rendezvousId record sub
      | none => (registry.pushExpiry ⟨expireTime, rendezvousId⟩).addSubscriber rendezvousId
          ⟨expireTime, .empty⟩ sub
    (next, .ok (some sub.serial, true))

/-- Register a connection for the pushes of a box, and claim the subscription for its Collect. -/
def subscribeRendezvous (conn : Connection) (rendezvousId : Bytes) (expireTime now : Time) :
    RendezvousSubscriptions × Except RendezvousError (Option ℕ × Bool) :=
  let registry := registry.pruneRendezvous now
  match registry.boxes rendezvousId with
  | none => registry.makeRendezvous conn rendezvousId expireTime none
  | some record =>
    if expireTime < record.expireTime then (registry, .ok (none, false))
    else if record.expireTime < expireTime then
      (registry.dropRendezvousBox rendezvousId).makeRendezvous conn rendezvousId expireTime none
    else
      match record.subscribers.find (connectionKeyOf conn) with
      | some present =>
        (registry.setBox rendezvousId (some (record.claim (connectionKeyOf conn))),
          .ok (some present.serial, false))
      | none => registry.makeRendezvous conn rendezvousId expireTime (some record)

/-- Settle the claim of a Collect whose write has answered. -/
def settleRendezvous (conn : Connection) (rendezvousId : Bytes) (claimed : ℕ) (taken : Bool) :
    RendezvousSubscriptions :=
  let connection := connectionKeyOf conn
  match registry.boxes rendezvousId with
  | none => registry
  | some record =>
    match record.subscribers.find connection with
    | none => registry
    | some sub =>
      if sub.serial ≠ claimed then registry
      else
        let settled := registry.setBox rendezvousId (some (record.settle connection taken))
        if !taken && !sub.kept && sub.claims - 1 = 0 then
          settled.removeRendezvous rendezvousId connection
        else settled

/-- Mark every subscription to a box as owed a push of a count, and whether there was one. -/
def depositedRendezvous (rendezvousId : Bytes) (pending : ℕ) (now : Time) :
    RendezvousSubscriptions × Bool :=
  let registry := registry.pruneRendezvous now
  match registry.boxes rendezvousId with
  | none => (registry, false)
  | some record =>
    ({ registry with
        boxes := update registry.boxes rendezvousId (some (record.owe pending))
        ready := fun key =>
          if key.box = rendezvousId ∧ (record.subscribers.find key.connection).isSome then true
          else registry.ready key
        visited := registry.visited + record.subscribers.rows.length },
      !record.subscribers.rows.isEmpty)

def retiredRendezvous (rendezvousId : Bytes) : RendezvousSubscriptions :=
  registry.dropRendezvousBox rendezvousId

end RendezvousSubscriptions

end MessageServer.Api
