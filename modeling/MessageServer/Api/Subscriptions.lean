import Mathlib.Data.Finset.Card
import MessageServer.Api.Messages

/-! # The subscription registry

A registry keeps the subscriptions of every connection under one lock. A
submission marks what each subscriber is owed, and a delivery takes one marked
subscription, pushes with the lock released, and settles under the lock again.
-/

namespace MessageServer.Api

open Function

structure SubscriptionKey where
  connection : Bytes
  group : Bytes
  deriving DecidableEq

/-- A subscription; its serial number tells it from a later one under the same key. -/
structure Subscription where
  serial : ℕ
  clientId : Bytes
  serverNonce : Bytes
  groupId : Bytes
  readEpoch : ℕ
  owed : ℕ
  notified : ℕ

structure Subscriptions where
  maxPerConnection : ℕ
  nextSerial : ℕ
  byKey : SubscriptionKey → Option Subscription
  byConnection : Bytes → Option (Finset Bytes)
  ready : SubscriptionKey → Bool
  pushed : ℕ
  dropped : ℕ

structure PublishedRecord where
  recordId : ℕ
  epoch : ℕ

/-- A push on its way to a connection, with the lock released. -/
structure Push where
  key : SubscriptionKey
  serial : ℕ
  owed : ℕ

def connectionKeyOf (conn : Connection) : Bytes := conn.clientId ++ 0 :: conn.serverNonce

def subscriptionKeyOf (conn : Connection) (groupId : Bytes) : SubscriptionKey :=
  ⟨connectionKeyOf conn, groupId⟩

def Subscription.owe (sub : Subscription) (records : List PublishedRecord) : Subscription :=
  records.foldl (fun sub record =>
    if record.epoch ≤ sub.readEpoch ∧ sub.owed < record.recordId then
      { sub with owed := record.recordId }
    else sub) sub

namespace Subscriptions

variable (registry : Subscriptions)

def empty (maxPerConnection : ℕ) : Subscriptions where
  maxPerConnection := maxPerConnection
  nextSerial := 0
  byKey := fun _ => none
  byConnection := fun _ => none
  ready := fun _ => false
  pushed := 0
  dropped := 0

def dropConnection (connection : Bytes) : Subscriptions :=
  { registry with
    byKey := fun key =>
      if key.connection = connection ∧
          key.group ∈ (registry.byConnection connection).getD ∅ then none
      else registry.byKey key
    byConnection := update registry.byConnection connection none }

def subscribe (conn : Connection) (groupId : Bytes) (readEpoch snapshot : ℕ) (replace : Bool) :
    Subscriptions × Bool :=
  let connection := connectionKeyOf conn
  let registry := if replace then registry.dropConnection connection else registry
  let key := subscriptionKeyOf conn groupId
  let groups := (registry.byConnection connection).getD ∅
  if (registry.byKey key).isNone ∧ registry.maxPerConnection ≤ groups.card then (registry, false)
  else
    ({ registry with
        nextSerial := registry.nextSerial + 1
        byConnection := update registry.byConnection connection
          (some (insert groupId groups))
        byKey := update registry.byKey key (some {
          serial := registry.nextSerial
          clientId := conn.clientId
          serverNonce := conn.serverNonce
          groupId := groupId
          readEpoch := readEpoch
          owed := snapshot
          notified := snapshot }) }, true)

def removeGroups (connection : Bytes) (groupIds : List Bytes) : Bytes → Option (Finset Bytes) :=
  let groups := ((registry.byConnection connection).getD ∅).filter (· ∉ groupIds)
  update registry.byConnection connection (if groups = ∅ then none else some groups)

/-- Cancel a connection's subscriptions to the named groups, or all of them. -/
def unsubscribe (conn : Connection) (groupIds : List Bytes) (all : Bool) : Subscriptions :=
  let connection := connectionKeyOf conn
  if all then registry.dropConnection connection
  else
    { registry with
      byKey := fun key =>
        if key.connection = connection ∧ key.group ∈ groupIds then none else registry.byKey key
      byConnection := registry.removeGroups connection groupIds }

def published (groupId : Bytes) (records : List PublishedRecord) : Subscriptions :=
  if records.length = 0 then registry
  else
    { registry with
      byKey := fun key =>
        if key.group = groupId then (registry.byKey key).map (·.owe records)
        else registry.byKey key
      ready := fun key =>
        if key.group = groupId ∧
            (registry.byKey key).any fun sub => (sub.owe records).notified < (sub.owe records).owed
        then true
        else registry.ready key }

/-- The first critical section of a delivery: take a marked subscription. -/
def deliverTake (candidate : SubscriptionKey) : Subscriptions × Option Push :=
  if registry.ready candidate then
    ({ registry with ready := update registry.ready candidate false },
      (registry.byKey candidate).map fun sub => ⟨candidate, sub.serial, sub.owed⟩)
  else (registry, none)

/-- The second critical section: note the push, or drop a subscription it did not reach. -/
def deliverSettle (push : Push) (delivered : Bool) : Subscriptions :=
  match registry.byKey push.key with
  | none => registry
  | some sub =>
    if sub.serial ≠ push.serial then registry
    else if delivered then
      let sub := { sub with notified := max sub.notified push.owed }
      { registry with
        byKey := update registry.byKey push.key (some sub)
        ready :=
          if sub.notified < sub.owed then update registry.ready push.key true
          else registry.ready
        pushed := registry.pushed + 1 }
    else
      { registry with
        byKey := update registry.byKey push.key none
        byConnection := registry.removeGroups push.key.connection [push.key.group]
        dropped := registry.dropped + 1 }

end Subscriptions

end MessageServer.Api
