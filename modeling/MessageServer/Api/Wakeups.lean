import MessageServer.Api.Delivery

/-! # No push is stranded

A mark in either half of the registry is seen to: a signal is there or on its
way, or the delivery goroutine has yet to look. So a goroutine that waits with
no signal to come leaves nothing behind.
-/

namespace MessageServer.Api

open Runs Function

/-- The goroutine will look at the group subscriptions before it waits again. -/
def Delivery.Awake : Delivery → Prop
  | .waiting | .returned => False
  | .rendezvous | .rendezvousPush _ _ | .groups | .groupPush _ _ => True

/-- The goroutine will look at the rendezvous subscriptions before it waits again. -/
def Delivery.AtRendezvous : Delivery → Prop
  | .rendezvous | .rendezvousPush _ _ => True
  | .waiting | .groups | .groupPush _ _ | .returned => False

namespace Registry

/-- A signal is in the channel, or a call has still to send one. -/
def Signalled (s : Registry) : Prop := s.signal = true ∨ 0 < s.signalling

def Pushing (s : Registry) (key : SubscriptionKey) (serial : ℕ) : Prop :=
  ∃ push pusher, s.delivery = .groupPush push pusher ∧ push.key = key ∧ push.serial = serial

structure Sound (s : Registry) : Prop where
  owed : ∀ key sub, s.groups.byKey key = some sub → sub.notified < sub.owed →
    s.groups.ready key = true ∨ s.Pushing key sub.serial
  groups : ∀ key, s.groups.ready key = true → s.Signalled ∨ s.delivery.Awake
  rendezvous : ∀ key, s.rendezvous.ready key = true → s.Signalled ∨ s.delivery.AtRendezvous
  serials : s.rendezvous.SerialsBelow

variable {s s' : Registry} {e : Event} {key : SubscriptionKey} {sub : Subscription} {pusher : Bool}
  {push : Push}

theorem empty_sound (maxPerConnection maxRendezvousPerConnection : ℕ) :
    (empty maxPerConnection maxRendezvousPerConnection).Sound :=
  ⟨nofun, nofun, nofun, nofun⟩

theorem Sound.marked (h : s.Sound) (hno : ∀ push pusher, s.delivery ≠ .groupPush push pusher)
    (hs : s.groups.byKey key = some sub) (hlt : sub.notified < sub.owed) :
    s.groups.ready key = true := by
  rcases h.owed key sub hs hlt with hm | ⟨push, pusher, hp, -⟩
  · exact hm
  · exact (hno push pusher hp).elim

theorem Sound.set_rendezvous (h : s.Sound) {next : RendezvousSubscriptions}
    (hr : ∀ key, next.ready key = true → s.rendezvous.ready key = true)
    (hs : next.SerialsBelow) : { s with rendezvous := next : Registry }.Sound :=
  ⟨h.owed, h.groups, fun key hm => h.rendezvous key (hr key hm), hs⟩

theorem Sound.set_groups (h : s.Sound) {next : Subscriptions} (hr : next.ready = s.groups.ready)
    (ho : ∀ key sub, next.byKey key = some sub →
      s.groups.byKey key = some sub ∨ sub.owed = sub.notified) :
    { s with groups := next : Registry }.Sound := by
  refine ⟨fun key sub hsb hlt => ?_, fun key hm => ?_, h.rendezvous, h.serials⟩
  · rcases ho key sub hsb with hs | heq
    · rw [hr]
      exact h.owed key sub hs hlt
    · exact absurd heq hlt.ne'
  · rw [hr] at hm
    exact h.groups key hm

theorem Sound.published (h : s.Sound) (groupId : Bytes) (records : List PublishedRecord)
    {signalling : ℕ} (hle : s.signalling ≤ signalling)
    (hw : s.groups.Woken groupId records → 0 < signalling) :
    { s with
      groups := s.groups.published groupId records
      signalling := signalling : Registry }.Sound := by
  have hs : s.Signalled → s.signal = true ∨ 0 < signalling :=
    Or.imp_right fun hlt => Nat.lt_of_lt_of_le hlt hle
  refine ⟨fun key sub hsb hlt => ?_, fun key hm => ?_, fun key hm => ?_, h.serials⟩
  · rcases s.groups.published_spec groupId records key with
      ⟨hb, hr⟩ | ⟨sub', hsb', hb, ⟨-, hle⟩ | ⟨hm, -⟩⟩
    · rw [hb] at hsb
      change (s.groups.published groupId records).ready key = true ∨ _
      rw [hr]
      exact h.owed key sub hsb hlt
    · rw [hb] at hsb
      cases hsb
      exact absurd hle (Nat.not_le_of_lt hlt)
    · exact .inl hm
  · rcases s.groups.published_spec groupId records key with
      ⟨-, hr⟩ | ⟨-, -, -, ⟨hr, -⟩ | ⟨-, hwk⟩⟩
    · rw [hr] at hm
      exact (h.groups key hm).imp_left hs
    · rw [hr] at hm
      exact (h.groups key hm).imp_left hs
    · exact .inl (.inr (hw hwk))
  · exact (h.rendezvous key hm).imp_left hs

theorem Sound.deposited (h : s.Sound) (rendezvousId : Bytes) (pending : ℕ) (now : Time) :
    (s.depositedRendezvous rendezvousId pending now).Sound := by
  have hsp := fun key =>
    (s.rendezvous.depositedRendezvous_deposited key rendezvousId pending now).2
  have hs : s.Signalled → (s.depositedRendezvous rendezvousId pending now).Signalled := by
    refine Or.imp_right fun hlt => ?_
    unfold depositedRendezvous
    dsimp only
    split
    · exact Nat.succ_pos _
    · exact hlt
  refine ⟨h.owed, fun key hm => (h.groups key hm).imp_left hs, fun key hm => ?_,
    h.serials.deposited rendezvousId pending now⟩
  rcases (hsp key).ready_le hm with hm | hmr
  · exact (h.rendezvous key hm).imp_left hs
  · left
    right
    unfold depositedRendezvous
    dsimp only
    rw [if_pos hmr]
    exact Nat.succ_pos _

theorem settleRendezvousPush_spec (push : RendezvousPush) (delivered : Bool) :
    ∃ next pushed dropped, s.settleRendezvousPush push delivered = { s with
          groups := { s.groups with pushed := pushed, dropped := dropped }
          rendezvous := next } ∧
      ∀ key, next.nextSerial = s.rendezvous.nextSerial ∧
        RendezvousSubscriptions.Ends (fun _ => key = push.key ∧ delivered = false) s.rendezvous next
          key := by
  unfold settleRendezvousPush
  cases s.rendezvous.standing push.key with
  | none => exact ⟨_, _, _, rfl, fun _ => ⟨rfl, .refl⟩⟩
  | some sub =>
    dsimp only
    split
    · exact ⟨_, _, _, rfl, fun _ => ⟨rfl, .refl⟩⟩
    · cases delivered with
      | true => exact ⟨_, _, _, rfl, fun _ => ⟨rfl, .refl⟩⟩
      | false =>
        refine ⟨_, _, _, rfl, fun key => ?_⟩
        obtain ⟨hs, he⟩ := s.rendezvous.removeRendezvous_ends key push.key.box push.key.connection
        exact ⟨hs, he.mono fun _ hk => ⟨hk, rfl⟩⟩

theorem Step.sound (h : s.Sound) (hsp : Step s e s') : s'.Sound := by
  cases hsp with
  | subscribe conn groupId readEpoch snapshot replace =>
    apply h.set_groups
    · exact (s.groups.subscribe_spec conn groupId readEpoch snapshot replace).1
    · intro key sub hsb
      exact s.groups.subscribe_owed hsb
  | unsubscribe conn groupIds all =>
    apply h.set_groups
    · exact s.groups.unsubscribe_ready conn groupIds all
    · intro key sub hsb
      exact .inl (s.groups.unsubscribe_of_some hsb)
  | woke groupId records =>
    exact h.published groupId records (Nat.le_succ _) fun _ => Nat.succ_pos _
  | quiet groupId records hq =>
    exact h.published groupId records le_rfl fun hw => (hq hw).elim
  | subscribeRendezvous conn rendezvousId expireTime now =>
    apply h.set_rendezvous
    · intro key hm
      exact (s.rendezvous.subscribeRendezvous_subscribed key conn rendezvousId expireTime
        now).ready_le hm
    · exact h.serials.subscribe conn rendezvousId expireTime now
  | settleRendezvous conn rendezvousId claimed taken =>
    apply h.set_rendezvous
    · intro key hm
      exact (s.rendezvous.settleRendezvous_settled key conn rendezvousId claimed taken).2.ready_le
        hm
    · exact h.serials.settle conn rendezvousId claimed taken
  | depositedRendezvous rendezvousId pending now => exact h.deposited rendezvousId pending now
  | retiredRendezvous rendezvousId =>
    apply h.set_rendezvous
    · intro key hm
      exact (s.rendezvous.retiredRendezvous_ends key rendezvousId).2.ready_le hm
    · exact h.serials.ends fun key => s.rendezvous.retiredRendezvous_ends key rendezvousId
  | setPusher pusher => exact ⟨h.owed, h.groups, h.rendezvous, h.serials⟩
  | close => exact ⟨h.owed, h.groups, h.rendezvous, h.serials⟩
  | signal hsg =>
    exact ⟨h.owed, fun _ _ => .inl (.inl rfl), fun _ _ => .inl (.inl rfl), h.serials⟩
  | stop delivered hat hc =>
    refine ⟨fun key sub hsb hlt => .inl (h.marked ?_ hsb hlt), fun key hm => ?_,
      fun key hm => ?_, h.serials⟩
    · rw [hat]
      nofun
    · have hg := h.groups key hm
      rw [hat] at hg
      exact .inl (hg.resolve_right id)
    · have hr := h.rendezvous key hm
      rw [hat] at hr
      exact .inl (hr.resolve_right id)
  | wake delivered hat hsg =>
    refine ⟨fun key sub hsb hlt => .inl (h.marked ?_ hsb hlt), fun _ _ => .inr trivial,
      fun _ _ => .inr trivial, h.serials⟩
    rw [hat]
    nofun
  | takeRendezvous delivered key sub ready hat hv hsb =>
    refine ⟨fun key sub hsb hlt => .inl (h.marked ?_ hsb hlt), fun _ _ => .inr trivial,
      fun _ _ => .inr trivial, h.serials⟩
    rw [hat]
    nofun
  | rendezvousDone delivered ready hat hv =>
    refine ⟨fun key sub hsb hlt => .inl (h.marked ?_ hsb hlt), fun _ _ => .inr trivial,
      fun key hm => ?_, h.serials⟩
    · rw [hat]
      nofun
    · have hm : ready key = true := hm
      rw [hv.none_left rfl key] at hm
      cases hm
  | rendezvousPushed delivered push pusher hat =>
    obtain ⟨next, pushed, dropped, heq, he⟩ :=
      s.settleRendezvousPush_spec push (pusher && delivered)
    rw [heq]
    refine ⟨fun key sub hsb hlt => .inl (h.marked ?_ hsb hlt), fun _ _ => .inr trivial,
      fun _ _ => .inr trivial, h.serials.ends he⟩
    rw [hat]
    nofun
  | takeGroup delivered key sub ready hat hv hsb =>
    refine ⟨fun key' sub' hsb' hlt => ?_, fun _ _ => .inr trivial, fun key' hm => ?_, h.serials⟩
    · have hm := h.marked (by rw [hat]; nofun) hsb' hlt
      have hst : (s.groups.byKey key').isSome = true := Option.isSome_of_eq_some hsb'
      rcases hv.kept hm hst with hk | hf
      · exact .inl hk
      · cases hf
        cases hsb.symm.trans hsb'
        exact .inr ⟨_, _, rfl, rfl, rfl⟩
    · have hr := h.rendezvous key' hm
      rw [hat] at hr
      exact .inl (hr.resolve_right id)
  | groupsDone delivered ready hat hv =>
    have hnn := hv.none_left rfl
    refine ⟨fun key sub hsb hlt => ?_, fun key hm => ?_, fun key hm => ?_, h.serials⟩
    · have hm := h.marked (by rw [hat]; nofun) hsb hlt
      have hst : (s.groups.byKey key).isSome = true := Option.isSome_of_eq_some hsb
      rcases hv.kept hm hst with hk | hf
      · exact .inl hk
      · cases hf
    · have hm : ready key = true := hm
      rw [hnn key] at hm
      cases hm
    · have hr := h.rendezvous key hm
      rw [hat] at hr
      exact .inl (hr.resolve_right id)
  | groupPushed delivered push pusher hat =>
    refine ⟨fun key sub hsb hlt => .inl ?_, fun _ _ => .inr trivial, fun key hm => ?_, h.serials⟩
    · have hsb : (s.groups.deliverSettle push (pusher && delivered)).byKey key = some sub := hsb
      change (s.groups.deliverSettle push (pusher && delivered)).ready key = true
      cases s.groups.deliverSettle_settled push (pusher && delivered) key with
      | same hb hrd ho =>
        rw [hb] at hsb
        rw [hrd]
        rcases h.owed key sub hsb hlt with hm | ⟨push', pusher', hp, hky, hs⟩
        · exact hm
        · cases hat.symm.trans hp
          exact (ho hky.symm sub hsb hs.symm).elim
      | noted sub' hky hsb' hs hn hrd =>
        rw [hn] at hsb
        cases hsb
        rw [hrd, decide_eq_true hlt]
        rfl
      | dropped sub' hky hsb' hs hrf hn hrd =>
        rw [hn] at hsb
        cases hsb
    · have hr := h.rendezvous key hm
      rw [hat] at hr
      exact .inl (hr.resolve_right id)

theorem Step.push_owed (hs : Step s e s') (hp : s'.delivery = .groupPush push pusher) :
    s.delivery = .groupPush push pusher ∨
      (∃ delivered, e = .deliver delivered) ∧ s.delivery = .groups ∧
        s.groups.ready push.key = true ∧
        ∃ sub, s.groups.byKey push.key = some sub ∧ push.serial = sub.serial ∧
          push.owed = sub.owed := by
  cases hs with
  | takeGroup delivered key sub ready hat hv hsb =>
    cases hp
    exact .inr ⟨⟨delivered, rfl⟩, hat, (hv.found_spec rfl).1, sub, hsb, rfl, rfl⟩
  | stop | wake | takeRendezvous | rendezvousDone | rendezvousPushed | groupsDone | groupPushed =>
    cases hp
  | subscribe | unsubscribe | woke | quiet | subscribeRendezvous | settleRendezvous
  | depositedRendezvous | retiredRendezvous | setPusher | close | signal => exact .inl hp

inductive EndedBy (s : Registry) (key : SubscriptionKey) (sub : Subscription) : Event → Prop
  | unsubscribed {conn : Connection} {groupIds : List Bytes} {all : Bool}
      (hconn : key.connection = connectionKeyOf conn) (hgroup : all = true ∨ key.group ∈ groupIds) :
      EndedBy s key sub (.unsubscribe conn groupIds all)
  | replaced {conn : Connection} {groupId : Bytes} {readEpoch snapshot : ℕ} {replace : Bool}
      (hconn : key.connection = connectionKeyOf conn)
      (hgroup : replace = true ∨ key.group = groupId) :
      EndedBy s key sub (.subscribe conn groupId readEpoch snapshot replace)
  | refused {delivered : Bool} {push : Push} {pusher : Bool}
      (hat : s.delivery = .groupPush push pusher) (hkey : push.key = key)
      (hserial : push.serial = sub.serial) (hrefused : delivered = false ∨ pusher = false) :
      EndedBy s key sub (.deliver delivered)

theorem Step.group_ends (hst : Step s e s') (hsb : s.groups.byKey key = some sub) :
    (∃ sub', s'.groups.byKey key = some sub' ∧ sub'.serial = sub.serial) ∨ EndedBy s key sub e := by
  have hsm : s'.groups.byKey = s.groups.byKey →
      (∃ sub', s'.groups.byKey key = some sub' ∧ sub'.serial = sub.serial) ∨ EndedBy s key sub e :=
    fun heq => .inl ⟨sub, heq ▸ hsb, rfl⟩
  have hp : ∀ groupId records, s'.groups = s.groups.published groupId records →
      (∃ sub', s'.groups.byKey key = some sub' ∧ sub'.serial = sub.serial) ∨
        EndedBy s key sub e := by
    intro groupId records heq
    rcases s.groups.published_spec groupId records key with
      ⟨hb, -⟩ | ⟨sub', hsb', hb, -⟩
    · exact .inl ⟨sub, by rw [heq, hb, hsb], rfl⟩
    · cases hsb.symm.trans hsb'
      exact .inl ⟨sub.owe records, by rw [heq, hb], by rw [Subscription.owe_eq]⟩
  cases hst with
  | subscribe conn groupId readEpoch snapshot replace =>
    rcases s.groups.subscribe_ends conn groupId readEpoch snapshot replace hsb with
      hk | ⟨hc, hg⟩
    · exact .inl ⟨sub, hk, rfl⟩
    · exact .inr (.replaced hc hg)
  | unsubscribe conn groupIds all =>
    rcases s.groups.unsubscribe_ends conn groupIds all hsb with hk | ⟨hc, hg⟩
    · exact .inl ⟨sub, hk, rfl⟩
    · exact .inr (.unsubscribed hc hg)
  | woke groupId records => exact hp groupId records rfl
  | quiet groupId records => exact hp groupId records rfl
  | rendezvousPushed delivered push pusher hat =>
    obtain ⟨next, pushed, dropped, heq, -⟩ := s.settleRendezvousPush_spec push (pusher && delivered)
    apply hsm
    rw [heq]
  | groupPushed delivered push pusher hat =>
    cases s.groups.deliverSettle_settled push (pusher && delivered) key with
    | same hb => exact .inl ⟨sub, hb.trans hsb, rfl⟩
    | noted sub' hky hsb' hs hn =>
      cases hsb.symm.trans hsb'
      exact .inl ⟨_, hn, rfl⟩
    | dropped sub' hky hsb' hs hr =>
      cases hsb.symm.trans hsb'
      exact .inr (.refused hat hky.symm hs.symm ((Bool.and_eq_false_iff.mp hr).symm))
  | subscribeRendezvous | settleRendezvous | depositedRendezvous | retiredRendezvous | setPusher
  | close | signal | stop | wake | takeRendezvous | rendezvousDone | takeGroup | groupsDone =>
    exact hsm rfl

variable {σ : ℕ → Registry} {events : ℕ → Event} {n : ℕ}

theorem path_sound (hp : Path Step σ events n) (hs : (σ 0).Sound) : (σ n).Sound :=
  hp.invariant (Nat.zero_le n) hs fun _ _ _ hst h => hst.sound h

theorem path_push (hpt : Path Step σ events n) (hs : (σ 0).delivery = .waiting)
    (hp : (σ n).delivery = .groupPush push pusher) :
    ∃ k < n, (∃ delivered, events k = .deliver delivered) ∧ (σ k).delivery = .groups ∧
      (σ k).groups.ready push.key = true ∧
      (∃ sub, (σ k).groups.byKey push.key = some sub ∧ push.serial = sub.serial ∧
        push.owed = sub.owed) ∧
      ∀ j, k < j → j ≤ n → (σ j).delivery = .groupPush push pusher := by
  induction n with
  | zero =>
    rw [hs] at hp
    cases hp
  | succ n ih =>
    have hl : ∀ j, n < j → j ≤ n + 1 → (σ j).delivery = .groupPush push pusher := by
      intro j hj hjn
      rwa [show j = n + 1 by omega]
    rcases (hpt n (Nat.lt_succ_self n)).push_owed hp with hb | ⟨he, hat, hr, hsb⟩
    · obtain ⟨k, hk, he, hat, hr, hsb, hw⟩ := ih (hpt.mono n.le_succ) hb
      refine ⟨k, Nat.lt_succ_of_lt hk, he, hat, hr, hsb, fun j hj hjn => ?_⟩
      rcases Nat.lt_or_ge n j with hlt | hge
      · exact hl j hlt hjn
      · exact hw j hj hge
    · exact ⟨n, Nat.lt_succ_self n, he, hat, hr, hsb, hl⟩

/--
A goroutine that waits with no signal to come owes no subscription a push, and every push carries
what was owed when its key was taken.
-/
theorem no_push_stranded (maxPerConnection maxRendezvousPerConnection : ℕ) (σ : ℕ → Registry)
    (events : ℕ → Event) (n : ℕ) (hpath : Path Step σ events n)
    (hstart : σ 0 = empty maxPerConnection maxRendezvousPerConnection) :
    ((σ n).delivery = .waiting → (σ n).signal = false → (σ n).signalling = 0 →
      (∀ key, (σ n).groups.ready key = false) ∧ (∀ key, (σ n).rendezvous.ready key = false) ∧
        ∀ key sub, (σ n).groups.byKey key = some sub → sub.owed ≤ sub.notified) ∧
    (∀ push pusher, (σ n).delivery = .groupPush push pusher →
      ∃ k < n, (∃ delivered, events k = .deliver delivered) ∧ (σ k).delivery = .groups ∧
        (σ k).groups.ready push.key = true ∧
        (∃ sub, (σ k).groups.byKey push.key = some sub ∧ push.serial = sub.serial ∧
          push.owed = sub.owed) ∧
        ∀ j, k < j → j ≤ n → (σ j).delivery = .groupPush push pusher) ∧
    ∀ k < n, ∀ key sub, (σ k).groups.byKey key = some sub →
      (∃ sub', (σ (k + 1)).groups.byKey key = some sub' ∧ sub'.serial = sub.serial) ∨
        EndedBy (σ k) key sub (events k) := by
  have hs : (σ n).Sound := path_sound hpath (hstart ▸ empty_sound ..)
  refine ⟨fun hat hsn hsg => ?_, fun push pusher hp => ?_,
    fun k hk key sub hsb => (hpath k hk).group_ends hsb⟩
  · have hq : ¬ (σ n).Signalled := by
      rintro (h | h)
      · rw [hsn] at h
        cases h
      · exact absurd hsg (Nat.ne_of_gt h)
    have hg : ∀ key, (σ n).groups.ready key = false := by
      intro key
      by_contra hm
      rcases hs.groups key (Bool.not_eq_false _ ▸ hm) with h | h
      · exact hq h
      · rwa [hat] at h
    refine ⟨hg, fun key => ?_, fun key sub hsb => ?_⟩
    · by_contra hm
      rcases hs.rendezvous key (Bool.not_eq_false _ ▸ hm) with h | h
      · exact hq h
      · rwa [hat] at h
    · by_contra hlt
      have hm := hs.marked (by rw [hat]; nofun) hsb (Nat.lt_of_not_le hlt)
      rw [hg key] at hm
      cases hm
  · exact path_push hpath (by rw [hstart]; rfl) hp

namespace Sample

def caller : Connection := ⟨[1], [2]⟩

def subscribed : Registry :=
  { empty 8 8 with pusher := true, groups := ((empty 8 8).groups.subscribe caller [3] 0 0 false).1 }

def published : Registry :=
  { subscribed with groups := subscribed.groups.published [3] [⟨1, 0⟩], signalling := 1 }

def pushing : Registry :=
  { published with
    signalling := 0
    groups := { published.groups with
      ready := update published.groups.ready (subscriptionKeyOf caller [3]) false }
    delivery := .groupPush ⟨subscriptionKeyOf caller [3], 0, 1⟩ true }

def pushed : Registry :=
  { pushing with
    groups := pushing.groups.deliverSettle ⟨subscriptionKeyOf caller [3], 0, 1⟩ true
    delivery := .waiting }

def deliveryStates : ℕ → Registry
  | 0 => empty 8 8
  | 1 => { empty 8 8 with pusher := true }
  | 2 => subscribed
  | 3 => published
  | 4 => { published with signal := true, signalling := 0 }
  | 5 => { published with signalling := 0, delivery := .rendezvous }
  | 6 => { published with signalling := 0, delivery := .groups }
  | 7 => pushing
  | 8 => { pushed with delivery := .groups }
  | _ => pushed

def deliveryEvents : ℕ → Event
  | 0 => .setPusher true
  | 1 => .subscribe caller [3] 0 0 false
  | 2 => .published [3] [⟨1, 0⟩]
  | 3 => .signal
  | _ => .deliver true

theorem published_ready (key : SubscriptionKey) (hk : key ≠ subscriptionKeyOf caller [3]) :
    published.groups.ready key = false := by
  have hn : subscribed.groups.byKey key = none := update_of_ne hk ..
  rcases subscribed.groups.published_spec [3] [⟨1, 0⟩] key with ⟨-, hr⟩ | ⟨sub, hs, -⟩
  · exact hr
  · rw [hn] at hs
    cases hs

theorem path_delivery : Path Step deliveryStates deliveryEvents 9 := by
  intro k hk
  match k with
  | 0 => exact .setPusher (deliveryStates 0) true
  | 1 => exact .subscribe (deliveryStates 1) caller [3] 0 0 false
  | 2 =>
    have hw : subscribed.groups.Woken [3] [⟨1, 0⟩] :=
      ⟨nofun, subscriptionKeyOf caller [3], _, rfl, rfl, by decide⟩
    exact .woke (deliveryStates 2) _ _ hw
  | 3 => exact .signal (deliveryStates 3) Nat.one_pos
  | 4 => exact .wake (deliveryStates 4) true rfl rfl
  | 5 => exact .rendezvousDone (deliveryStates 5) true _ rfl (.done fun _ => rfl)
  | 6 =>
    exact .takeGroup (deliveryStates 6) true (subscriptionKeyOf caller [3]) _ _ rfl
      (.stop rfl rfl) rfl
  | 7 => exact .groupPushed (deliveryStates 7) true _ true rfl
  | 8 =>
    refine .groupsDone (deliveryStates 8) true _ rfl (.done fun key => ?_)
    change update published.groups.ready (subscriptionKeyOf caller [3]) false key = false
    by_cases hky : key = subscriptionKeyOf caller [3]
    · rw [hky, update_self]
    · rw [update_of_ne hky, published_ready key hky]

end Sample

open Sample

/-- The goroutine waits again, and the subscriber was told of the record. -/
theorem no_push_stranded_delivered : (∀ key, pushed.groups.ready key = false) ∧
      (pushed.groups.byKey (subscriptionKeyOf caller [3])).map
        (fun sub => (sub.owed, sub.notified)) = some (1, 1) :=
  ⟨((no_push_stranded 8 8 deliveryStates deliveryEvents 9 path_delivery rfl).1 rfl rfl rfl).1, rfl⟩

end Registry

end MessageServer.Api
