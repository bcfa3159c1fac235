import MessageServer.Api.Wakeups

/-! # The two indexes of the group subscriptions

The registry finds a subscription by its key, and a connection's groups by the
connection. Every critical section keeps the two indexes in step, and one that acts
for a connection leaves what the other connections hold.
-/

namespace MessageServer.Api

open Runs Function

namespace Subscriptions

variable {registry base next : Subscriptions} {connection : Bytes} {groups : Finset Bytes}

def groupsOf (registry : Subscriptions) (connection : Bytes) : Finset Bytes :=
  (registry.byConnection connection).getD ∅

def heldBy (registry : Subscriptions) (conn : Connection) :
    Option (Finset Bytes) × (Bytes → Option Subscription) :=
  (registry.byConnection (connectionKeyOf conn),
    fun groupId => registry.byKey (subscriptionKeyOf conn groupId))

structure Indexed (registry : Subscriptions) : Prop where
  listed : ∀ key, (registry.byKey key).isSome ↔ key.group ∈ registry.groupsOf key.connection
  inhabited : ∀ connection, registry.byConnection connection ≠ some ∅
  bounded : ∀ connection, (registry.groupsOf connection).card ≤ registry.maxPerConnection

/-- One connection has come to hold these groups, and nothing else has changed. -/
structure Moved (connection : Bytes) (groups : Finset Bytes) (registry next : Subscriptions) :
    Prop where
  byConnection : next.byConnection =
    update registry.byConnection connection (if groups = ∅ then none else some groups)
  others : ∀ key, key.connection ≠ connection → next.byKey key = registry.byKey key
  listed : ∀ group, (next.byKey ⟨connection, group⟩).isSome ↔ group ∈ groups
  maxPerConnection : next.maxPerConnection = registry.maxPerConnection

namespace Moved

theorem groupsOf_self (h : Moved connection groups registry next) :
    next.groupsOf connection = groups := by
  rw [groupsOf, h.byConnection, update_self]
  split
  next he => exact he.symm
  · rfl

theorem trans {last : Finset Bytes} (h : Moved connection groups registry base)
    (h' : Moved connection last base next) : Moved connection last registry next where
  byConnection := by rw [h'.byConnection, h.byConnection, update_idem]
  others key hk := (h'.others key hk).trans (h.others key hk)
  listed := h'.listed
  maxPerConnection := h'.maxPerConnection.trans h.maxPerConnection

theorem indexed (h : Moved connection groups registry next) (hr : registry.Indexed)
    (hc : groups.card ≤ registry.maxPerConnection) : next.Indexed := by
  have ho : ∀ other ≠ connection, next.groupsOf other = registry.groupsOf other := by
    intro other hne
    rw [groupsOf, h.byConnection, update_of_ne hne, groupsOf]
  refine ⟨fun ⟨other, group⟩ => ?_, fun other => ?_, fun other => ?_⟩ <;>
    by_cases hne : other = connection
  · rw [hne, h.listed, h.groupsOf_self]
  · rw [h.others _ hne, ho other hne]
    exact hr.listed ⟨other, group⟩
  · rw [hne, h.byConnection, update_self]
    split
    · nofun
    next he => exact fun heq => he (Option.some.inj heq)
  · rw [h.byConnection, update_of_ne hne]
    exact hr.inhabited other
  · rw [hne, h.groupsOf_self, h.maxPerConnection]
    exact hc
  · rw [ho other hne, h.maxPerConnection]
    exact hr.bounded other

theorem heldBy_eq {conn other : Connection} (h : Moved (connectionKeyOf conn) groups registry next)
    (hne : conn ≠ other) (hw : conn.clientId.length = other.clientId.length) :
    next.heldBy other = registry.heldBy other := by
  have hk : connectionKeyOf other ≠ connectionKeyOf conn := by
    intro heq
    obtain ⟨hc, hn⟩ := List.append_inj heq hw.symm
    cases conn
    cases other
    cases hc
    cases hn
    exact hne rfl
  refine congrArg₂ Prod.mk ?_ (funext fun group => h.others _ hk)
  rw [h.byConnection, update_of_ne hk]

end Moved

namespace Indexed

variable (h : registry.Indexed)
include h

theorem of_same (hk : ∀ key, (next.byKey key).isSome = (registry.byKey key).isSome)
    (hc : next.byConnection = registry.byConnection)
    (hm : next.maxPerConnection = registry.maxPerConnection) : next.Indexed := by
  refine ⟨fun key => ?_, hc ▸ h.inhabited, fun connection => ?_⟩
  · rw [hk, groupsOf, hc]
    exact h.listed key
  · rw [groupsOf, hc, hm]
    exact h.bounded connection

theorem dropConnection (connection : Bytes) :
    Moved connection ∅ registry (registry.dropConnection connection) where
  byConnection := rfl
  others key hk := dropConnection_of_ne registry hk
  listed group := by
    have hl := h.listed ⟨connection, group⟩
    rw [groupsOf] at hl
    rw [Subscriptions.dropConnection]
    by_cases hg : group ∈ (registry.byConnection connection).getD ∅
    · simp [hg]
    · simpa [hg] using hl
  maxPerConnection := rfl

theorem removed {groupIds : List Bytes} (hk : ∀ key, next.byKey key =
      if key.connection = connection ∧ key.group ∈ groupIds then none else registry.byKey key)
    (hc : next.byConnection = registry.removeGroups connection groupIds)
    (hm : next.maxPerConnection = registry.maxPerConnection) :
    Moved connection ((registry.groupsOf connection).filter (· ∉ groupIds)) registry next where
  byConnection := hc
  others key ho := by rw [hk, if_neg fun heq => ho heq.1]
  listed group := by
    rw [hk, Finset.mem_filter]
    by_cases hg : group ∈ groupIds
    · simp [hg]
    · simp [hg, h.listed]
  maxPerConnection := hm

/-- A registration that finds room puts its group beside those its connection holds. -/
theorem subscribe_keeping (conn : Connection) (groupId : Bytes) (readEpoch snapshot : ℕ) :
    registry.maxPerConnection ≤ (registry.groupsOf (connectionKeyOf conn)).card ∧
        registry.subscribe conn groupId readEpoch snapshot false = (registry, false) ∨
      (registry.subscribe conn groupId readEpoch snapshot false).2 = true ∧
        (insert groupId (registry.groupsOf (connectionKeyOf conn))).card ≤
          registry.maxPerConnection ∧
        Moved (connectionKeyOf conn) (insert groupId (registry.groupsOf (connectionKeyOf conn)))
          registry (registry.subscribe conn groupId readEpoch snapshot false).1 := by
  have hl := h.listed (subscriptionKeyOf conn groupId)
  by_cases hf : (registry.byKey (subscriptionKeyOf conn groupId)).isNone ∧
      registry.maxPerConnection ≤ (registry.groupsOf (connectionKeyOf conn)).card
  · exact .inl ⟨hf.2, if_pos hf⟩
  · have heq : registry.subscribe conn groupId readEpoch snapshot false = (_, true) := if_neg hf
    rw [heq]
    refine .inr ⟨rfl, ?_, ?_, fun key hk => ?_, fun group => ?_, rfl⟩
    · by_cases hh : groupId ∈ registry.groupsOf (connectionKeyOf conn)
      · rw [Finset.insert_eq_of_mem hh]
        exact h.bounded _
      · rw [Finset.card_insert_of_notMem hh]
        refine Nat.lt_of_not_le fun hle => hf ⟨?_, hle⟩
        rw [Option.not_isSome_iff_eq_none.mp (mt hl.mp hh)]
        rfl
    · rw [if_neg (Finset.insert_ne_empty _ _)]
      rfl
    · exact update_of_ne (fun heq => hk (congrArg SubscriptionKey.connection heq)) ..
    · by_cases hg : group = groupId
      · simp [hg, subscriptionKeyOf]
      · have hne : (⟨connectionKeyOf conn, group⟩ : SubscriptionKey) ≠
            subscriptionKeyOf conn groupId := fun heq =>
          hg (congrArg SubscriptionKey.group heq)
        simp [hg, update_of_ne hne, h.listed]

/-- A replacement drops what its connection holds, and so finds room. -/
theorem subscribe_replacing (hp : 1 ≤ registry.maxPerConnection) (conn : Connection)
    (groupId : Bytes) (readEpoch snapshot : ℕ) :
    (registry.subscribe conn groupId readEpoch snapshot true).2 = true ∧
      Moved (connectionKeyOf conn) {groupId} registry
        (registry.subscribe conn groupId readEpoch snapshot true).1 := by
  have hd := h.dropConnection (connectionKeyOf conn)
  have hk := (hd.indexed h (Nat.zero_le _)).subscribe_keeping conn groupId readEpoch snapshot
  rw [hd.groupsOf_self] at hk
  rcases hk with ⟨hf, -⟩ | ⟨hdn, -, hm⟩
  · exact absurd (Nat.le_trans hp hf) (Nat.not_succ_le_zero 0)
  · exact ⟨hdn, hd.trans hm⟩

/-- A registration is refused and changes nothing, or its connection stays within its bound. -/
theorem subscribe (hp : 1 ≤ registry.maxPerConnection) (conn : Connection) (groupId : Bytes)
    (readEpoch snapshot : ℕ) (replace : Bool) :
    registry.subscribe conn groupId readEpoch snapshot replace = (registry, false) ∨
      (registry.subscribe conn groupId readEpoch snapshot replace).2 = true ∧
        ∃ groups, groups.card ≤ registry.maxPerConnection ∧ Moved (connectionKeyOf conn) groups
          registry (registry.subscribe conn groupId readEpoch snapshot replace).1 := by
  cases replace with
  | true =>
    obtain ⟨hd, hm⟩ := h.subscribe_replacing hp conn groupId readEpoch snapshot
    exact .inr ⟨hd, {groupId}, hp, hm⟩
  | false =>
    rcases h.subscribe_keeping conn groupId readEpoch snapshot with
      ⟨-, heq⟩ | ⟨hd, hc, hm⟩
    · exact .inl heq
    · exact .inr ⟨hd, _, hc, hm⟩

theorem unsubscribe (conn : Connection) (groupIds : List Bytes) (all : Bool) :
    ∃ groups, groups.card ≤ registry.maxPerConnection ∧
      Moved (connectionKeyOf conn) groups registry (registry.unsubscribe conn groupIds all) := by
  cases all with
  | true => exact ⟨∅, Nat.zero_le _, h.dropConnection _⟩
  | false =>
    exact ⟨_, Nat.le_trans (Finset.card_filter_le _ _) (h.bounded _),
      h.removed (fun _ => rfl) rfl rfl⟩

theorem deliverSettle (push : Push) (delivered : Bool) :
    ∃ groups, groups.card ≤ registry.maxPerConnection ∧
      Moved push.key.connection groups registry (registry.deliverSettle push delivered) := by
  have hs : ∀ {next : Subscriptions}, next.byConnection = registry.byConnection →
      (∀ key ≠ push.key, next.byKey key = registry.byKey key) →
      (next.byKey push.key).isSome = (registry.byKey push.key).isSome →
      next.maxPerConnection = registry.maxPerConnection →
      ∃ groups, groups.card ≤ registry.maxPerConnection ∧
        Moved push.key.connection groups registry next := by
    intro next hc ho hsl hm
    refine ⟨_, h.bounded push.key.connection, ?_, fun key hk => ?_, fun group => ?_, hm⟩
    · rw [hc, eq_comm, update_eq_self_iff, groupsOf]
      cases hgr : registry.byConnection push.key.connection with
      | none => rfl
      | some groups => exact if_neg fun he => h.inhabited _ (hgr.trans (congrArg _ he))
    · exact ho key fun heq => hk (congrArg SubscriptionKey.connection heq)
    · rw [← h.listed ⟨_, group⟩]
      by_cases hg : (⟨push.key.connection, group⟩ : SubscriptionKey) = push.key
      · rw [hg, hsl]
      · rw [ho _ hg]
  unfold Subscriptions.deliverSettle
  cases hsb : registry.byKey push.key with
  | none => exact hs rfl (fun _ _ => rfl) rfl rfl
  | some sub =>
    dsimp only
    split
    · exact hs rfl (fun _ _ => rfl) rfl rfl
    split
    · refine hs rfl (fun key hk => update_of_ne hk ..) ?_ rfl
      simp [hsb]
    · refine ⟨_, Nat.le_trans (Finset.card_filter_le _ _) (h.bounded _),
        h.removed (fun key => ?_) rfl rfl⟩
      refine (update_apply ..).trans (if_congr ?_ rfl rfl)
      rw [List.mem_singleton]
      exact ⟨fun heq => heq ▸ ⟨rfl, rfl⟩, fun heq => congrArg₂ SubscriptionKey.mk heq.1 heq.2⟩

end Indexed

end Subscriptions

namespace Registry

theorem Step.indexed {s s' : Registry} {e : Event} (hs : Step s e s') (h : s.groups.Indexed)
    (hps : 1 ≤ s.groups.maxPerConnection) :
    s'.groups.Indexed ∧ s'.groups.maxPerConnection = s.groups.maxPerConnection := by
  have hm : ∀ {connection next}, (∃ groups, groups.card ≤ s.groups.maxPerConnection ∧
      Subscriptions.Moved connection groups s.groups next) →
      next.Indexed ∧ next.maxPerConnection = s.groups.maxPerConnection :=
    fun ⟨_, hc, hm⟩ => ⟨hm.indexed h hc, hm.maxPerConnection⟩
  have hp : ∀ groupId records, (s.groups.published groupId records).Indexed ∧
      (s.groups.published groupId records).maxPerConnection = s.groups.maxPerConnection := by
    intro groupId records
    unfold Subscriptions.published
    split
    · exact ⟨h, rfl⟩
    · refine ⟨h.of_same (fun key => ?_) rfl rfl, rfl⟩
      dsimp only
      split
      · rw [Option.isSome_map]
      · rfl
  cases hs with
  | subscribe conn groupId readEpoch snapshot replace =>
    rcases h.subscribe hps conn groupId readEpoch snapshot replace with heq | ⟨-, hg⟩
    · rw [heq]
      exact ⟨h, rfl⟩
    · exact hm hg
  | unsubscribe conn groupIds all => exact hm (h.unsubscribe conn groupIds all)
  | woke groupId records => exact hp groupId records
  | quiet groupId records => exact hp groupId records
  | rendezvousPushed delivered push pusher hat =>
    obtain ⟨next, pushed, dropped, heq, -⟩ := s.settleRendezvousPush_spec push (pusher && delivered)
    rw [heq]
    exact ⟨h.of_same (fun _ => rfl) rfl rfl, rfl⟩
  | groupPushed delivered push => exact hm (h.deliverSettle push _)
  | subscribeRendezvous | settleRendezvous | depositedRendezvous | retiredRendezvous | setPusher
  | close | signal | stop | wake | takeRendezvous | rendezvousDone | takeGroup | groupsDone =>
    exact ⟨h.of_same (fun _ => rfl) rfl rfl, rfl⟩

/--
After any interleaving the two indexes agree within the bound, and what another connection holds is
never touched.
-/
theorem subscriptions_agree {bound rendezvousBound n : ℕ} (hbound : 1 ≤ bound)
    {σ : ℕ → Registry} {events : ℕ → Event} (hpath : Path Step σ events n)
    (hstart : σ 0 = empty bound rendezvousBound) :
    (∀ connection group, ((σ n).groups.byKey ⟨connection, group⟩).isSome ↔
      ∃ groups, (σ n).groups.byConnection connection = some groups ∧ group ∈ groups) ∧
    (∀ connection groups, (σ n).groups.byConnection connection = some groups →
      groups ≠ ∅ ∧ groups.card ≤ bound) ∧
    (∀ conn groupId readEpoch snapshot replace,
      ((σ n).groups.subscribe conn groupId readEpoch snapshot replace).2 = false →
        ((σ n).groups.subscribe conn groupId readEpoch snapshot replace).1 = (σ n).groups) ∧
    (∀ conn groupId readEpoch snapshot,
      ((σ n).groups.subscribe conn groupId readEpoch snapshot true).2 = true ∧
        ((σ n).groups.subscribe conn groupId readEpoch snapshot true).1.byConnection
          (connectionKeyOf conn) = some {groupId} ∧
        ∀ group, (((σ n).groups.subscribe conn groupId readEpoch snapshot true).1.byKey
          ⟨connectionKeyOf conn, group⟩).isSome ↔ group = groupId) ∧
    ∀ conn other : Connection, conn ≠ other → conn.clientId.length = other.clientId.length →
      (∀ groupId readEpoch snapshot replace,
        ((σ n).groups.subscribe conn groupId readEpoch snapshot replace).1.heldBy other =
          (σ n).groups.heldBy other) ∧
      (∀ groupIds all, ((σ n).groups.unsubscribe conn groupIds all).heldBy other =
        (σ n).groups.heldBy other) ∧
      ∀ push delivered, push.key.connection = connectionKeyOf conn →
        ((σ n).groups.deliverSettle push delivered).heldBy other = (σ n).groups.heldBy other := by
  obtain ⟨h, hmx⟩ : (σ n).groups.Indexed ∧ (σ n).groups.maxPerConnection = bound := by
    apply hpath.invariant (P := fun s => s.groups.Indexed ∧ s.groups.maxPerConnection = bound)
      (Nat.zero_le n)
    · rw [hstart]
      exact ⟨⟨fun _ => ⟨nofun, nofun⟩, nofun, fun _ => Nat.zero_le _⟩, rfl⟩
    · intro k hk hkn hs h
      obtain ⟨hi, hmx⟩ := hs.indexed h.1 (h.2 ▸ hbound)
      exact ⟨hi, hmx.trans h.2⟩
  have hps : 1 ≤ (σ n).groups.maxPerConnection := hmx ▸ hbound
  refine ⟨fun connection group => ?_, fun connection groups hg => ⟨?_, ?_⟩,
    fun conn groupId readEpoch snapshot replace hr => ?_,
    fun conn groupId readEpoch snapshot => ?_, fun conn other hne hw =>
    ⟨fun groupId readEpoch snapshot replace => ?_, fun groupIds all => ?_,
      fun push delivered hp => ?_⟩⟩
  · rw [h.listed, Subscriptions.groupsOf]
    cases (σ n).groups.byConnection connection <;> simp
  · rintro rfl
    exact h.inhabited connection hg
  · have hle := h.bounded connection
    rwa [hmx, Subscriptions.groupsOf, hg] at hle
  · rcases h.subscribe hps conn groupId readEpoch snapshot replace with heq | ⟨hd, -⟩
    · rw [heq]
    · rw [hr] at hd
      cases hd
  · obtain ⟨hd, hm⟩ := h.subscribe_replacing hps conn groupId readEpoch snapshot
    refine ⟨hd, ?_, fun group => (hm.listed group).trans Finset.mem_singleton⟩
    rw [hm.byConnection, update_self, if_neg (Finset.singleton_ne_empty _)]
  · rcases h.subscribe hps conn groupId readEpoch snapshot replace with
      heq | ⟨-, groups, -, hm⟩
    · rw [heq]
    · exact hm.heldBy_eq hne hw
  · obtain ⟨groups, -, hm⟩ := h.unsubscribe conn groupIds all
    exact hm.heldBy_eq hne hw
  · obtain ⟨groups, -, hm⟩ := h.deliverSettle push delivered
    rw [hp] at hm
    exact hm.heldBy_eq hne hw

/-- A connection that was pushed a record replaces its subscription with one to another group. -/
theorem subscriptions_agree_delivered :
    (Sample.pushed.groups.subscribe Sample.caller [4] 0 0 true).1.byConnection
      (connectionKeyOf Sample.caller) = some {[4]} :=
  ((subscriptions_agree (by decide) Sample.path_delivery rfl).2.2.2.1 Sample.caller [4] 0 0).2.1

end Registry

end MessageServer.Api
