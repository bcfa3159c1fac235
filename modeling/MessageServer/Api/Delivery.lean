import MessageServer.Api.RendezvousEffects
import MessageServer.Lib.Runs

/-! # The delivery goroutine

One goroutine delivers the pushes of both halves of the registry. It waits for a
signal, pushes to every marked rendezvous subscription and then to every marked
group subscription, and waits again. Every critical section is one step, in any
order with the others.
-/

namespace MessageServer.Api

open Runs Function

/-- Where the delivery goroutine stands; a push holds the pusher that was read with it. -/
inductive Delivery
  | waiting
  | rendezvous
  | rendezvousPush (push : RendezvousPush) (pusher : Bool)
  | groups
  | groupPush (push : Push) (pusher : Bool)
  | returned

/-- The whole registry, with the calls that have still to signal and the delivery goroutine. -/
structure Registry where
  groups : Subscriptions
  rendezvous : RendezvousSubscriptions
  pusher : Bool
  signal : Bool
  closed : Bool
  signalling : ℕ
  delivery : Delivery

inductive Event
  | subscribe (conn : Connection) (groupId : Bytes) (readEpoch snapshot : ℕ) (replace : Bool)
  | unsubscribe (conn : Connection) (groupIds : List Bytes) (all : Bool)
  | published (groupId : Bytes) (records : List PublishedRecord)
  | subscribeRendezvous (conn : Connection) (rendezvousId : Bytes) (expireTime now : Time)
  | settleRendezvous (conn : Connection) (rendezvousId : Bytes) (claimed : ℕ) (taken : Bool)
  | depositedRendezvous (rendezvousId : Bytes) (pending : ℕ) (now : Time)
  | retiredRendezvous (rendezvousId : Bytes)
  | setPusher (pusher : Bool)
  | close
  | signal
  | deliver (delivered : Bool)

def Subscriptions.Woken (registry : Subscriptions) (groupId : Bytes)
    (records : List PublishedRecord) : Prop :=
  records ≠ [] ∧ ∃ key sub, registry.byKey key = some sub ∧ key.group = groupId ∧
    (sub.owe records).notified < (sub.owe records).owed

namespace Registry

/-- A registry that holds nothing, with its goroutine started. -/
def empty (maxPerConnection maxRendezvousPerConnection : ℕ) : Registry where
  groups := .empty maxPerConnection
  rendezvous := .empty maxRendezvousPerConnection
  pusher := false
  signal := false
  closed := false
  signalling := 0
  delivery := .waiting

variable (s : Registry)

/-- Mark the subscribers of a box, and have the call signal if there are any. -/
def depositedRendezvous (rendezvousId : Bytes) (pending : ℕ) (now : Time) : Registry :=
  let next := s.rendezvous.depositedRendezvous rendezvousId pending now
  { s with
    rendezvous := next.1
    signalling := if next.2 then s.signalling + 1 else s.signalling }

/-- Note a rendezvous push, or drop a subscription it did not reach. -/
def settleRendezvousPush (push : RendezvousPush) (delivered : Bool) : Registry :=
  match s.rendezvous.standing push.key with
  | none => s
  | some sub =>
    if sub.serial ≠ push.serial then s
    else if delivered then { s with groups := { s.groups with pushed := s.groups.pushed + 1 } }
    else
      { s with
        groups := { s.groups with dropped := s.groups.dropped + 1 }
        rendezvous := s.rendezvous.removeRendezvous push.key.box push.key.connection }

inductive Step : Registry → Event → Registry → Prop
  | subscribe (s : Registry) (conn : Connection) (groupId : Bytes) (readEpoch snapshot : ℕ)
      (replace : Bool) :
      Step s (.subscribe conn groupId readEpoch snapshot replace)
        { s with groups := (s.groups.subscribe conn groupId readEpoch snapshot replace).1 }
  | unsubscribe (s : Registry) (conn : Connection) (groupIds : List Bytes) (all : Bool) :
      Step s (.unsubscribe conn groupIds all)
        { s with groups := s.groups.unsubscribe conn groupIds all }
  | woke (s : Registry) (groupId : Bytes) (records : List PublishedRecord)
      (hwoke : s.groups.Woken groupId records) :
      Step s (.published groupId records)
        { s with
          groups := s.groups.published groupId records
          signalling := s.signalling + 1 }
  | quiet (s : Registry) (groupId : Bytes) (records : List PublishedRecord)
      (hquiet : ¬ s.groups.Woken groupId records) :
      Step s (.published groupId records) { s with groups := s.groups.published groupId records }
  | subscribeRendezvous (s : Registry) (conn : Connection) (rendezvousId : Bytes)
      (expireTime now : Time) :
      Step s (.subscribeRendezvous conn rendezvousId expireTime now)
        { s with
          rendezvous := (s.rendezvous.subscribeRendezvous conn rendezvousId expireTime now).1 }
  | settleRendezvous (s : Registry) (conn : Connection) (rendezvousId : Bytes) (claimed : ℕ)
      (taken : Bool) :
      Step s (.settleRendezvous conn rendezvousId claimed taken)
        { s with rendezvous := s.rendezvous.settleRendezvous conn rendezvousId claimed taken }
  | depositedRendezvous (s : Registry) (rendezvousId : Bytes) (pending : ℕ) (now : Time) :
      Step s (.depositedRendezvous rendezvousId pending now)
        (s.depositedRendezvous rendezvousId pending now)
  | retiredRendezvous (s : Registry) (rendezvousId : Bytes) :
      Step s (.retiredRendezvous rendezvousId)
        { s with rendezvous := s.rendezvous.retiredRendezvous rendezvousId }
  | setPusher (s : Registry) (pusher : Bool) :
      Step s (.setPusher pusher) { s with pusher := pusher }
  | close (s : Registry) : Step s .close { s with closed := true }
  | signal (s : Registry) (hsignal : 0 < s.signalling) :
      Step s .signal { s with signal := true, signalling := s.signalling - 1 }
  | stop (s : Registry) (delivered : Bool) (hat : s.delivery = .waiting)
      (hclosed : s.closed = true) : Step s (.deliver delivered) { s with delivery := .returned }
  | wake (s : Registry) (delivered : Bool) (hat : s.delivery = .waiting)
      (hsignal : s.signal = true) :
      Step s (.deliver delivered) { s with signal := false, delivery := .rendezvous }
  | takeRendezvous (s : Registry) (delivered : Bool) (key : RendezvousKey)
      (sub : RendezvousSubscription) (ready : RendezvousKey → Bool)
      (hat : s.delivery = .rendezvous)
      (hvisit : Visit (fun key => (s.rendezvous.standing key).isSome) s.rendezvous.ready
        (some key) ready)
      (hsub : s.rendezvous.standing key = some sub) :
      Step s (.deliver delivered)
        { s with
          rendezvous := { s.rendezvous with ready := ready }
          delivery := .rendezvousPush (sub.push key) s.pusher }
  | rendezvousDone (s : Registry) (delivered : Bool) (ready : RendezvousKey → Bool)
      (hat : s.delivery = .rendezvous)
      (hvisit : Visit (fun key => (s.rendezvous.standing key).isSome) s.rendezvous.ready
        none ready) :
      Step s (.deliver delivered)
        { s with rendezvous := { s.rendezvous with ready := ready }, delivery := .groups }
  | rendezvousPushed (s : Registry) (delivered : Bool) (push : RendezvousPush) (pusher : Bool)
      (hat : s.delivery = .rendezvousPush push pusher) :
      Step s (.deliver delivered)
        { s.settleRendezvousPush push (pusher && delivered) with delivery := .rendezvous }
  | takeGroup (s : Registry) (delivered : Bool) (key : SubscriptionKey) (sub : Subscription)
      (ready : SubscriptionKey → Bool) (hat : s.delivery = .groups)
      (hvisit : Visit (fun key => (s.groups.byKey key).isSome) s.groups.ready (some key) ready)
      (hsub : s.groups.byKey key = some sub) :
      Step s (.deliver delivered)
        { s with
          groups := { s.groups with ready := ready }
          delivery := .groupPush ⟨key, sub.serial, sub.owed⟩ s.pusher }
  | groupsDone (s : Registry) (delivered : Bool) (ready : SubscriptionKey → Bool)
      (hat : s.delivery = .groups)
      (hvisit : Visit (fun key => (s.groups.byKey key).isSome) s.groups.ready none ready) :
      Step s (.deliver delivered)
        { s with groups := { s.groups with ready := ready }, delivery := .waiting }
  | groupPushed (s : Registry) (delivered : Bool) (push : Push) (pusher : Bool)
      (hat : s.delivery = .groupPush push pusher) :
      Step s (.deliver delivered)
        { s with
          groups := s.groups.deliverSettle push (pusher && delivered)
          delivery := .groups }

end Registry

theorem Subscription.owe_eq (sub : Subscription) (records : List PublishedRecord) :
    sub.owe records = { sub with owed := (sub.owe records).owed } := by
  induction records generalizing sub with
  | nil => rfl
  | cons x records ih =>
    rw [owe, List.foldl_cons]
    split
    · exact ih { sub with owed := x.recordId }
    · exact ih sub

namespace Subscriptions

variable (registry : Subscriptions) {key : SubscriptionKey} {sub : Subscription}

theorem dropConnection_of_ne {connection : Bytes} (hne : key.connection ≠ connection) :
    (registry.dropConnection connection).byKey key = registry.byKey key :=
  if_neg fun h => hne h.1

def subscribeBase (conn : Connection) (replace : Bool) : Subscriptions :=
  if replace then registry.dropConnection (connectionKeyOf conn) else registry

theorem subscribe_spec (conn : Connection) (groupId : Bytes) (readEpoch snapshot : ℕ)
    (replace : Bool) :
    (registry.subscribe conn groupId readEpoch snapshot replace).1.ready = registry.ready ∧
      ∀ key, (registry.subscribe conn groupId readEpoch snapshot replace).1.byKey key =
          (registry.subscribeBase conn replace).byKey key ∨
        key = subscriptionKeyOf conn groupId ∧ ∃ sub,
          (registry.subscribe conn groupId readEpoch snapshot replace).1.byKey key = some sub ∧
            sub.owed = sub.notified := by
  have hr : (registry.subscribeBase conn replace).ready = registry.ready := by
    unfold subscribeBase
    split <;> rfl
  have hb : (if replace = true then registry.dropConnection (connectionKeyOf conn)
      else registry) = registry.subscribeBase conn replace := rfl
  unfold subscribe
  dsimp only
  rw [hb]
  generalize registry.subscribeBase conn replace = base at hr ⊢
  split
  · exact ⟨hr, fun _ => .inl rfl⟩
  · refine ⟨hr, fun key => ?_⟩
    by_cases hk : key = subscriptionKeyOf conn groupId
    · subst hk
      exact .inr ⟨rfl, _, update_self .., rfl⟩
    · exact .inl (update_of_ne hk ..)

variable {conn : Connection} {replace : Bool}

theorem subscribeBase_of_some (h : (registry.subscribeBase conn replace).byKey key = some sub) :
    registry.byKey key = some sub := by
  unfold subscribeBase at h
  split at h
  · simp only [dropConnection] at h
    split at h
    · cases h
    · exact h
  · exact h

theorem subscribe_owed {groupId : Bytes} {readEpoch snapshot : ℕ}
    (h : (registry.subscribe conn groupId readEpoch snapshot replace).1.byKey key = some sub) :
    registry.byKey key = some sub ∨ sub.owed = sub.notified := by
  rcases (registry.subscribe_spec conn groupId readEpoch snapshot replace).2 key with
    hs | ⟨-, sub', hs', ho⟩
  · exact .inl (registry.subscribeBase_of_some (hs ▸ h))
  · cases h.symm.trans hs'
    exact .inr ho

theorem subscribe_ends (conn : Connection) (groupId : Bytes) (readEpoch snapshot : ℕ)
    (replace : Bool) (h : registry.byKey key = some sub) :
    (registry.subscribe conn groupId readEpoch snapshot replace).1.byKey key = some sub ∨
      key.connection = connectionKeyOf conn ∧ (replace = true ∨ key.group = groupId) := by
  rcases (registry.subscribe_spec conn groupId readEpoch snapshot replace).2 key with
    hs | ⟨rfl, -⟩
  · by_cases hc : key.connection = connectionKeyOf conn ∧ replace = true
    · exact .inr ⟨hc.1, .inl hc.2⟩
    · left
      rw [hs, subscribeBase]
      split
      · rw [dropConnection_of_ne registry fun hk => hc ⟨hk, ‹_›⟩]
        exact h
      · exact h
  · exact .inr ⟨rfl, .inr rfl⟩

theorem unsubscribe_ready (conn : Connection) (groupIds : List Bytes) (all : Bool) :
    (registry.unsubscribe conn groupIds all).ready = registry.ready := by
  cases all <;> rfl

theorem unsubscribe_of_some {groupIds : List Bytes} {all : Bool}
    (h : (registry.unsubscribe conn groupIds all).byKey key = some sub) :
    registry.byKey key = some sub := by
  cases all with
  | true =>
    have hb : (registry.subscribeBase conn true).byKey key = some sub := h
    exact registry.subscribeBase_of_some hb
  | false =>
    simp only [unsubscribe, Bool.false_eq_true, if_false] at h
    split at h
    · cases h
    · exact h

theorem unsubscribe_ends (conn : Connection) (groupIds : List Bytes) (all : Bool)
    (h : registry.byKey key = some sub) :
    (registry.unsubscribe conn groupIds all).byKey key = some sub ∨
      key.connection = connectionKeyOf conn ∧ (all = true ∨ key.group ∈ groupIds) := by
  cases all with
  | true =>
    by_cases hc : key.connection = connectionKeyOf conn
    · exact .inr ⟨hc, .inl rfl⟩
    · exact .inl ((dropConnection_of_ne registry hc).trans h)
  | false =>
    by_cases hk : key.connection = connectionKeyOf conn ∧ key.group ∈ groupIds
    · exact .inr ⟨hk.1, .inr hk.2⟩
    · exact .inl ((if_neg hk).trans h)

theorem published_spec (groupId : Bytes) (records : List PublishedRecord) (key : SubscriptionKey) :
    (registry.published groupId records).byKey key = registry.byKey key ∧
        (registry.published groupId records).ready key = registry.ready key ∨
      ∃ sub, registry.byKey key = some sub ∧
        (registry.published groupId records).byKey key = some (sub.owe records) ∧
        ((registry.published groupId records).ready key = registry.ready key ∧
            (sub.owe records).owed ≤ (sub.owe records).notified ∨
          (registry.published groupId records).ready key = true ∧
            registry.Woken groupId records) := by
  unfold published
  split
  · exact .inl ⟨rfl, rfl⟩
  next hr =>
    by_cases hg : key.group = groupId
    · cases hs : registry.byKey key with
      | none => exact .inl ⟨by simp [hs], by simp [hs]⟩
      | some sub =>
        refine .inr ⟨sub, rfl, by simp [hg, hs], ?_⟩
        by_cases ho : (sub.owe records).notified < (sub.owe records).owed
        · refine .inr ⟨by simp [hg, hs, ho], fun hn => hr (by simp [hn]), ?_⟩
          exact ⟨key, sub, hs, hg, ho⟩
        · exact .inl ⟨by simp [hs, ho], Nat.le_of_not_lt ho⟩
    · exact .inl ⟨by simp [hg], by simp [hg]⟩

inductive Settled (push : Push) (delivered : Bool) (registry next : Subscriptions)
    (key : SubscriptionKey) : Prop
  | same (hbyKey : next.byKey key = registry.byKey key)
      (hready : next.ready key = registry.ready key)
      (hother : key = push.key → ∀ sub, registry.byKey key = some sub → sub.serial ≠ push.serial)
  | noted (sub : Subscription) (hkey : key = push.key) (hsub : registry.byKey key = some sub)
      (hserial : sub.serial = push.serial)
      (hnext : next.byKey key = some { sub with notified := max sub.notified push.owed })
      (hready : next.ready key =
        (decide (max sub.notified push.owed < sub.owed) || registry.ready key))
  | dropped (sub : Subscription) (hkey : key = push.key) (hsub : registry.byKey key = some sub)
      (hserial : sub.serial = push.serial) (hrefused : delivered = false)
      (hnext : next.byKey key = none) (hready : next.ready key = registry.ready key)

theorem deliverSettle_settled (push : Push) (delivered : Bool) (key : SubscriptionKey) :
    Settled push delivered registry (registry.deliverSettle push delivered) key := by
  unfold deliverSettle
  cases hsb : registry.byKey push.key with
  | none =>
    apply Settled.same rfl rfl
    rintro rfl sub hs'
    rw [hsb] at hs'
    cases hs'
  | some sub =>
    dsimp only
    split
    next hs =>
      apply Settled.same rfl rfl
      rintro rfl sub' hs'
      rwa [← Option.some.inj (hsb.symm.trans hs')]
    next hs =>
      have hs : sub.serial = push.serial := Classical.not_not.mp hs
      by_cases hk : key = push.key
      · subst hk
        cases delivered with
        | true =>
          apply Settled.noted sub rfl hsb hs
          · exact update_self ..
          · by_cases ho : max sub.notified push.owed < sub.owed <;> simp [ho]
        | false => exact .dropped sub rfl hsb hs rfl (update_self ..) rfl
      · have hot : key = push.key → ∀ sub, registry.byKey key = some sub →
            sub.serial ≠ push.serial := fun h => (hk h).elim
        cases delivered with
        | true =>
          refine .same (update_of_ne hk ..) ?_ hot
          by_cases ho : max sub.notified push.owed < sub.owed <;> simp [ho, hk]
        | false => exact .same (update_of_ne hk ..) rfl hot

end Subscriptions

end MessageServer.Api
