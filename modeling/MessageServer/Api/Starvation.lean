import MessageServer.Api.Wakeups

/-! # Rendezvous pushes behind a busy group

The goroutine serves the rendezvous subscriptions in one loop and the group
subscriptions in the next. A group whose records arrive faster than they are
pushed keeps the second loop from ending, and a rendezvous subscription that is
marked meanwhile waits for ever.
-/

namespace MessageServer.Api.Registry

open Runs Function RendezvousSubscriptions

variable {s s' : Registry} {e : Event} {key : RendezvousKey} {sub : RendezvousSubscription}

def PushingTo (s : Registry) (key : RendezvousKey) (serial : ℕ) : Prop :=
  ∃ push pusher, s.delivery = .rendezvousPush push pusher ∧ push.key = key ∧ push.serial = serial

def StandsAs (s : Registry) (key : RendezvousKey) (serial : ℕ) : Prop :=
  ∃ t sub, s.rendezvous.entry key = some (t, sub) ∧ sub.serial = serial

theorem standsAs_iff {serial : ℕ} : s.StandsAs key serial ↔
    ∃ sub, s.rendezvous.standing key = some sub ∧ sub.serial = serial := by
  rw [standing_eq]
  constructor
  · rintro ⟨t, sub, hsb, hs⟩
    exact ⟨sub, by rw [hsb]; rfl, hs⟩
  · rintro ⟨sub, hsb, hs⟩
    obtain ⟨⟨t, sub'⟩, hsb', rfl⟩ := Option.map_eq_some_iff.mp hsb
    exact ⟨t, sub', hsb', hs⟩

/-- A push to the subscription goes on the wire between the two states. -/
def PushStarts (s s' : Registry) (key : RendezvousKey) (serial : ℕ) : Prop :=
  ¬ s.PushingTo key serial ∧ s'.PushingTo key serial

theorem Step.mark_stays (h : s.Sound) (hsp : Step s e s') {serial : ℕ}
    (hst : s.StandsAs key serial) (hm : s.rendezvous.ready key = true) :
    s'.rendezvous.ready key = true ∨ PushStarts s s' key serial ∨ ¬ s'.StandsAs key serial := by
  obtain ⟨t, sub, hsb, rfl⟩ := hst
  have hg : s'.rendezvous.entry key = none → ¬ s'.StandsAs key sub.serial := by
    rintro hn ⟨_, _, hs', -⟩
    rw [hn] at hs'
    cases hs'
  have he : ∀ {P : Time → Prop}, Ends P s.rendezvous s'.rendezvous key →
      s'.rendezvous.ready key = true ∨ PushStarts s s' key sub.serial ∨
        ¬ s'.StandsAs key sub.serial := by
    rintro P (⟨-, hr⟩ | ⟨_, _, -, -, hn, -⟩)
    · exact .inl (hr ▸ hm)
    · exact .inr (.inr (hg hn))
  have hf : (s.rendezvous.standing key).isSome = true := by
    rw [standing_eq, hsb]
    rfl
  cases hsp with
  | subscribeRendezvous conn rendezvousId expireTime now =>
    cases s.rendezvous.subscribeRendezvous_subscribed key conn rendezvousId expireTime now with
    | ends he' => exact he he'
    | claimed _ _ _ _ hr => exact .inl (hr ▸ hm)
    | made _ _ hen =>
      refine .inr (.inr ?_)
      rintro ⟨_, sub', hs', hs⟩
      cases hen.symm.trans hs'
      exact absurd hs (h.serials key t sub hsb).ne'
  | settleRendezvous conn rendezvousId claimed taken =>
    cases (s.rendezvous.settleRendezvous_settled key conn rendezvousId claimed taken).2 with
    | same _ hr => exact .inl (hr ▸ hm)
    | settled _ _ _ _ _ _ hr => exact .inl (hr ▸ hm)
    | removed _ _ _ _ _ _ _ _ hen => exact .inr (.inr (hg hen))
  | depositedRendezvous rendezvousId pending now =>
    cases (s.rendezvous.depositedRendezvous_deposited key rendezvousId pending now).2 with
    | ends he' => exact he he'
    | owed _ _ _ _ _ hr => exact .inl hr
  | retiredRendezvous rendezvousId =>
    exact he (s.rendezvous.retiredRendezvous_ends key rendezvousId).2
  | takeRendezvous delivered key' sub' ready hat hv hs' =>
    rcases hv.kept hm hf with hk | hky
    · exact .inl hk
    · cases hky
      rw [standing_eq, hsb] at hs'
      cases hs'
      refine .inr (.inl ⟨?_, _, _, rfl, rfl, rfl⟩)
      rintro ⟨_, _, hp, -⟩
      cases hat.symm.trans hp
  | rendezvousDone delivered ready hat hv =>
    rcases hv.kept hm hf with hk | hky
    · exact .inl hk
    · cases hky
  | rendezvousPushed delivered push pusher hat =>
    obtain ⟨next, pushed, dropped, heq, he'⟩ :=
      s.settleRendezvousPush_spec push (pusher && delivered)
    apply he
    rw [heq]
    exact (he' key).2
  | subscribe | unsubscribe | woke | quiet | setPusher | close | signal | stop | wake | takeGroup
  | groupsDone | groupPushed => exact .inl hm

theorem Step.leaves_rendezvous (hst : Step s e s') (hat : s.delivery.AtRendezvous)
    (ha : ¬ s'.delivery.AtRendezvous) (hm : s.rendezvous.ready key = true) :
    s.rendezvous.standing key = none := by
  cases hst with
  | rendezvousDone delivered ready _ hv =>
    by_contra hs
    rcases hv.kept hm (Option.isSome_iff_ne_none.mpr hs) with hk | hky
    · rw [hv.none_left rfl key] at hk
      cases hk
    · cases hky
  | takeRendezvous | rendezvousPushed | wake => exact (ha trivial).elim
  | stop _ hw =>
    rw [hw] at hat
    exact hat.elim
  | takeGroup _ _ _ _ hg =>
    rw [hg] at hat
    exact hat.elim
  | groupsDone _ _ hg =>
    rw [hg] at hat
    exact hat.elim
  | groupPushed _ _ _ hp =>
    rw [hp] at hat
    exact hat.elim
  | subscribe | unsubscribe | woke | quiet | setPusher | close | signal | subscribeRendezvous
  | settleRendezvous | depositedRendezvous | retiredRendezvous => exact (ha hat).elim

theorem Step.leaves_groups {delivered : Bool} (hs : Step s (.deliver delivered) s')
    (hat : s.delivery = .groups)
    (hn : ∀ key, s.groups.ready key = true → s.groups.byKey key = none) :
    s'.delivery = .waiting := by
  cases hs with
  | groupsDone => rfl
  | takeGroup _ key sub _ _ hv hsb =>
    rw [hn key (hv.found_spec rfl).1] at hsb
    cases hsb
  | stop _ hat' | wake _ hat' | takeRendezvous _ _ _ _ hat' | rendezvousDone _ _ hat'
  | rendezvousPushed _ _ _ hat' | groupPushed _ _ _ hat' =>
    rw [hat] at hat'
    cases hat'

theorem Step.waiting_cases (hs : Step s e s') (hat : s.delivery = .waiting) :
    (s'.delivery = .rendezvous ∨ s'.delivery = .returned) ∨
      s'.delivery = .waiting ∧ (∀ delivered, e ≠ .deliver delivered) ∧
        (s.signal = true → s'.signal = true) ∧ (e = .signal → s'.signal = true) := by
  cases hs with
  | wake => exact .inl (.inl rfl)
  | stop => exact .inl (.inr rfl)
  | takeRendezvous _ _ _ _ hat' | rendezvousDone _ _ hat' | rendezvousPushed _ _ _ hat'
  | groupPushed _ _ _ hat' | takeGroup _ _ _ _ hat' | groupsDone _ _ hat' =>
    rw [hat] at hat'
    cases hat'
  | signal => exact .inr ⟨hat, nofun, fun _ => rfl, fun _ => rfl⟩
  | subscribe | unsubscribe | woke | quiet | setPusher | close | subscribeRendezvous
  | settleRendezvous | depositedRendezvous | retiredRendezvous =>
    exact .inr ⟨hat, nofun, id, nofun⟩

def CanStep (s : Registry) : Prop :=
  s.delivery ≠ .returned ∧ (s.delivery = .waiting → s.signal = true ∨ s.closed = true)

/-- A goroutine that can go on does so, and so does a call that has still to signal. -/
structure Fair (σ : ℕ → Registry) (events : ℕ → Event) : Prop where
  deliver : ∀ n, (∀ m, n ≤ m → (σ m).CanStep) →
    ∃ m, n ≤ m ∧ ∃ delivered, events m = .deliver delivered
  signal : ∀ n, (∀ m, n ≤ m → 0 < (σ m).signalling) → ∃ m, n ≤ m ∧ events m = .signal

/-- From every point off its wait the goroutine comes to look for a group push when nothing that
is marked stands. -/
def LoopsEnd (σ : ℕ → Registry) (events : ℕ → Event) : Prop :=
  ∀ n, (σ n).delivery ≠ .waiting → ∃ m, n ≤ m ∧ (∃ delivered, events m = .deliver delivered) ∧
    (σ m).delivery = .groups ∧
    ∀ key, (σ m).groups.ready key = true → (σ m).groups.byKey key = none

section Live

variable {σ : ℕ → Registry} {events : ℕ → Event}

theorem exists_rendezvous (hp : ∀ n, Path Step σ events n) (hf : Fair σ events)
    (hr : ∀ n, (σ n).delivery ≠ .returned) {n : ℕ} (hat : (σ n).delivery = .waiting)
    (hsg : ∀ m, n ≤ m → (σ m).delivery = .waiting → (σ m).Signalled) :
    ∃ m, n ≤ m ∧ (σ m).delivery = .rendezvous := by
  by_contra hno
  push Not at hno
  have hst : ∀ m, n ≤ m → (σ m).delivery = .waiting → (σ (m + 1)).delivery = .waiting ∧
      (∀ delivered, events m ≠ .deliver delivered) ∧
      ((σ m).signal = true → (σ (m + 1)).signal = true) ∧
      (events m = .signal → (σ (m + 1)).signal = true) := by
    intro m hm hw
    rcases (hp (m + 1) m (Nat.lt_succ_self m)).waiting_cases hw with (h | h) | h
    · exact (hno (m + 1) (Nat.le_succ_of_le hm) h).elim
    · exact (hr (m + 1) h).elim
    · exact h
  have hw : ∀ m, n ≤ m → (σ m).delivery = .waiting := by
    intro m hm
    induction m, hm using Nat.le_induction with
    | base => exact hat
    | succ m hm ih => exact (hst m hm ih).1
  have hq : ∀ m, n ≤ m → (σ m).signal = false := by
    intro m hm
    by_contra hs
    have hsy : ∀ k, m ≤ k → (σ k).signal = true := by
      intro k hk
      induction k, hk using Nat.le_induction with
      | base => exact Bool.not_eq_false _ ▸ hs
      | succ k hk ih => exact (hst k (hm.trans hk) (hw k (hm.trans hk))).2.2.1 ih
    obtain ⟨k, hk, delivered, hd⟩ := hf.deliver m fun k hk =>
      ⟨hr k, fun _ => .inl (hsy k hk)⟩
    exact (hst k (hm.trans hk) (hw k (hm.trans hk))).2.1 delivered hd
  obtain ⟨m, hm, hs⟩ := hf.signal n fun m hm => by
    rcases hsg m hm (hw m hm) with h | h
    · rw [hq m hm] at h
      cases h
    · exact h
  have hse := (hst m hm (hw m hm)).2.2.2 hs
  rw [hq (m + 1) (Nat.le_succ_of_le hm)] at hse
  cases hse

/-- As long as the loops of the goroutine end, a push starts to every rendezvous subscription that
is marked, or it is removed. -/
theorem rendezvous_pushes_arrive (maxPerConnection maxRendezvousPerConnection : ℕ)
    (σ : ℕ → Registry) (events : ℕ → Event) (hpath : ∀ n, Path Step σ events n)
    (hstart : σ 0 = empty maxPerConnection maxRendezvousPerConnection) (hfair : Fair σ events)
    (hrunning : ∀ n, (σ n).delivery ≠ .returned) (hloops : LoopsEnd σ events) (n : ℕ)
    (key : RendezvousKey) (serial : ℕ) (hmark : (σ n).rendezvous.ready key = true) :
    ∃ m, n ≤ m ∧ (PushStarts (σ m) (σ (m + 1)) key serial ∨ ¬ (σ m).StandsAs key serial) := by
  by_contra hno
  push Not at hno
  have hsn : ∀ m, (σ m).Sound := fun m => path_sound (hpath m) (hstart ▸ empty_sound ..)
  have hs : ∀ m, Step (σ m) (events m) (σ (m + 1)) := fun m =>
    hpath (m + 1) m (Nat.lt_succ_self m)
  have hmr : ∀ m, n ≤ m → (σ m).rendezvous.ready key = true := by
    intro m hm
    induction m, hm using Nat.le_induction with
    | base => exact hmark
    | succ m hm ih =>
      obtain ⟨hp, hst⟩ := hno m hm
      rcases (hs m).mark_stays (hsn m) hst ih with h | h | h
      · exact h
      · exact (hp h).elim
      · exact (h (hno (m + 1) (Nat.le_succ_of_le hm)).2).elim
  have hsy : ∀ a b, n ≤ a → a ≤ b → (σ a).delivery.AtRendezvous → (σ b).delivery.AtRendezvous := by
    intro a b hna hab ha
    by_contra hb
    obtain ⟨k, hak, -, hk, hk'⟩ := exists_last (P := fun m => (σ m).delivery.AtRendezvous) hab ha hb
    have hn := (hs k).leaves_rendezvous hk hk' (hmr k (hna.trans hak))
    obtain ⟨sub', hs', -⟩ := standsAs_iff.mp (hno k (hna.trans hak)).2
    rw [hn] at hs'
    cases hs'
  have hl : ∀ a, n ≤ a → ¬ (σ a).delivery.AtRendezvous := by
    intro a hna ha
    have hne : (σ a).delivery ≠ .waiting := by
      intro hwt
      rw [hwt] at ha
      exact ha
    obtain ⟨b, hab, -, hg, -⟩ := hloops a hne
    have hb := hsy a b hna hab ha
    rw [hg] at hb
    exact hb
  have hws : ∃ m, n ≤ m ∧ (σ m).delivery = .waiting := by
    by_cases hwt : (σ n).delivery = .waiting
    · exact ⟨n, le_rfl, hwt⟩
    · obtain ⟨m, hm, ⟨delivered, hd⟩, hat, hn⟩ := hloops n hwt
      have he := hs m
      rw [hd] at he
      exact ⟨m + 1, Nat.le_succ_of_le hm, he.leaves_groups hat hn⟩
  obtain ⟨w, hw, hwt⟩ := hws
  obtain ⟨a, ha, hat⟩ := exists_rendezvous hpath hfair hrunning hwt fun m hm _ =>
    ((hsn m).rendezvous key (hmr m (hw.trans hm))).resolve_right (hl m (hw.trans hm))
  exact hl a (hw.trans ha) (hat ▸ trivial)

end Live

namespace Sample

def collector : Connection := ⟨[1], [4]⟩

def collectorKey : RendezvousKey := ⟨connectionKeyOf collector, [5]⟩

def callerKey : SubscriptionKey := subscriptionKeyOf caller [3]

def collecting : Registry :=
  { subscribed with rendezvous := (subscribed.rendezvous.subscribeRendezvous collector [5] 9 0).1 }

def owing : Registry :=
  { collecting with groups := collecting.groups.published [3] [⟨1, 0⟩] }

def flooded : Registry :=
  { owing with
    groups := { owing.groups with ready := update owing.groups.ready callerKey false }
    delivery := .groupPush ⟨callerKey, 0, 1⟩ true }

def beforeBusy : ℕ → Registry
  | 0 => empty 8 8
  | 1 => { empty 8 8 with pusher := true }
  | 2 => subscribed
  | 3 => collecting
  | 4 => { owing with signalling := 1 }
  | 5 => { owing with signal := true }
  | 6 => { owing with delivery := .rendezvous }
  | 7 => { owing with delivery := .groups }
  | 8 => flooded
  | _ => flooded.depositedRendezvous [5] 1 1

structure Busy (phase : ℕ) (s : Registry) : Prop where
  rendezvous : s.rendezvous = (beforeBusy 9).rendezvous
  pusher : s.pusher = true
  signalling : phase = 1 → 0 < s.signalling
  sub : ∃ sub, s.groups.byKey callerKey = some sub ∧ sub.serial = 0 ∧ sub.readEpoch = 0 ∧
    sub.notified < sub.owed ∧
    if phase = 3 then s.delivery = .groups ∧ s.groups.ready callerKey = true
    else ∃ m, s.delivery = .groupPush ⟨callerKey, 0, m⟩ true ∧
      if phase = 0 then m = sub.owed else m < sub.owed

def Labelled (phase : ℕ) (e : Event) : Prop :=
  (phase = 1 → e = .signal) ∧ (phase = 2 → e = .deliver true)

theorem Busy.published {s : Registry} (h : Busy 0 s) :
    ∃ e s', Step s e s' ∧ Labelled 0 e ∧ Busy 1 s' := by
  obtain ⟨sub, hsb, hs, he, hn, m, hat, rfl⟩ := h.sub
  have ho : sub.owe [⟨sub.owed + 1, 0⟩] = { sub with owed := sub.owed + 1 } := by
    simp [Subscription.owe, he]
  have hw : s.groups.Woken [3] [⟨sub.owed + 1, 0⟩] :=
    ⟨List.cons_ne_nil _ _, callerKey, sub, hsb, rfl, by rw [ho]; exact Nat.lt_succ_of_lt hn⟩
  refine ⟨_, _, .woke s _ _ hw, by simp [Labelled], h.rendezvous, h.pusher,
    fun _ => Nat.succ_pos _, { sub with owed := sub.owed + 1 }, ?_, hs, he,
    Nat.lt_succ_of_lt hn, _, hat, Nat.lt_succ_self _⟩
  change (s.groups.published [3] [⟨sub.owed + 1, 0⟩]).byKey callerKey = _
  rw [Subscriptions.published, if_neg (by simp)]
  simp only [show callerKey.group = [3] from rfl, if_true, hsb, Option.map_some, ho]

theorem Busy.pushed {s : Registry} (h : Busy 2 s) :
    ∃ e s', Step s e s' ∧ Labelled 2 e ∧ Busy 3 s' := by
  obtain ⟨sub, hsb, hs, he, hn, m, hat, hm⟩ := h.sub
  have hlt : max sub.notified m < sub.owed := max_lt hn hm
  refine ⟨_, _, .groupPushed s true _ true hat, ⟨nofun, fun _ => rfl⟩, h.rendezvous, h.pusher,
    nofun, { sub with notified := max sub.notified m }, ?_⟩
  cases s.groups.deliverSettle_settled ⟨callerKey, 0, m⟩ true callerKey with
  | same _ _ ho => exact (ho rfl _ hsb hs).elim
  | noted sub' _ hsb' _ hnx hrd =>
    cases hsb.symm.trans hsb'
    refine ⟨hnx, hs, he, hlt, rfl, hrd.trans ?_⟩
    rw [decide_eq_true hlt, Bool.true_or]
  | dropped _ _ _ _ hr => cases hr

theorem Busy.taken {s : Registry} (h : Busy 3 s) :
    ∃ e s', Step s e s' ∧ Labelled 3 e ∧ Busy 0 s' := by
  obtain ⟨sub, hsb, hs, he, hn, hat, hr⟩ := h.sub
  refine ⟨_, _, .takeGroup s true callerKey sub _ hat
    (.stop hr (Option.isSome_of_eq_some hsb)) hsb, ⟨nofun, nofun⟩, h.rendezvous, h.pusher, nofun,
    sub, hsb, hs, he, hn, sub.owed, ?_, rfl⟩
  rw [← hs, ← h.pusher]

variable {n : ℕ}

theorem Busy.step {s : Registry} (h : Busy (n % 4) s) :
    ∃ e s', Step s e s' ∧ Labelled (n % 4) e ∧ Busy ((n + 1) % 4) s' := by
  have hr : n % 4 = 0 ∨ n % 4 = 1 ∨ n % 4 = 2 ∨ n % 4 = 3 := by omega
  rcases hr with hr | hr | hr | hr <;> rw [Nat.add_mod, hr] <;> rw [hr] at h
  · exact h.published
  · refine ⟨_, _, .signal s (h.signalling rfl), ⟨fun _ => rfl, nofun⟩, h.rendezvous, h.pusher,
      nofun, h.sub⟩
  · exact h.pushed
  · exact h.taken

def BusyRun : ℕ → Registry → Prop
  | n + 10, s => Busy (n % 4) s
  | n, s => s = beforeBusy n

theorem BusyRun.step {s : Registry} (h : BusyRun n s) :
    ∃ e s', Step s e s' ∧ (10 ≤ n → Labelled ((n - 10) % 4) e) ∧ BusyRun (n + 1) s' := by
  match n, h with
  | 0, rfl => exact ⟨_, _, .setPusher _ true, nofun, rfl⟩
  | 1, rfl => exact ⟨_, _, .subscribe _ caller [3] 0 0 false, nofun, rfl⟩
  | 2, rfl => exact ⟨_, _, .subscribeRendezvous _ collector [5] 9 0, nofun, rfl⟩
  | 3, rfl =>
    have hw : collecting.groups.Woken [3] [⟨1, 0⟩] :=
      ⟨List.cons_ne_nil _ _, callerKey, _, rfl, rfl, by decide⟩
    exact ⟨_, _, .woke _ _ _ hw, nofun, rfl⟩
  | 4, rfl => exact ⟨_, _, .signal _ Nat.one_pos, nofun, rfl⟩
  | 5, rfl => exact ⟨_, _, .wake _ true rfl rfl, nofun, rfl⟩
  | 6, rfl => exact ⟨_, _, .rendezvousDone _ true _ rfl (.done fun _ => rfl), nofun, rfl⟩
  | 7, rfl => exact ⟨_, _, .takeGroup _ true callerKey _ _ rfl (.stop rfl rfl) rfl, nofun, rfl⟩
  | 8, rfl => exact ⟨_, _, .depositedRendezvous _ [5] 1 1, nofun, rfl⟩
  | 9, rfl => exact ⟨_, _, .signal _ Nat.one_pos, nofun, rfl, rfl, nofun, _, rfl, rfl, rfl,
      Nat.one_pos, 1, rfl, rfl⟩
  | n + 10, h =>
    obtain ⟨e, s', hs, hl, hb⟩ := Busy.step h
    exact ⟨e, s', hs, fun _ => hl, hb⟩

theorem Busy.pushing {s : Registry} (h : Busy n s) :
    s.delivery = .groups ∨ ∃ push pusher, s.delivery = .groupPush push pusher := by
  obtain ⟨sub, -, -, -, -, hat⟩ := h.sub
  split at hat
  · exact .inl hat.1
  · obtain ⟨m, hat, -⟩ := hat
    exact .inr ⟨_, _, hat⟩

theorem BusyRun.running {s : Registry} (h : BusyRun n s) : s.delivery ≠ .returned := by
  match n, h with
  | 0, rfl | 1, rfl | 2, rfl | 3, rfl | 4, rfl | 5, rfl | 6, rfl | 7, rfl | 8, rfl | 9, rfl => nofun
  | n + 10, h =>
    rcases Busy.pushing h with h | ⟨_, _, h⟩ <;> rw [h] <;> nofun

end Sample

open Sample

/-- While one group is busy, a collector that is owed a push is neither pushed to nor removed. -/
theorem rendezvous_push_starved :
    ∃ (σ : ℕ → Registry) (events : ℕ → Event) (key : RendezvousKey) (serial : ℕ),
      (∀ n, Path Step σ events n) ∧ σ 0 = empty 8 8 ∧ Fair σ events ∧
      (∀ n, (σ n).delivery ≠ .returned) ∧
      ∀ n, 11 ≤ n → (σ n).rendezvous.ready key = true ∧ (σ n).StandsAs key serial ∧
        ¬ (σ n).PushingTo key serial := by
  obtain ⟨σ, events, h0, h⟩ := exists_run (P := BusyRun) rfl fun n s hs => hs.step
  have hl : ∀ n, Labelled (n % 4) (events (n + 10)) := fun n =>
    (h (n + 10)).2.1 (Nat.le_add_left 10 n)
  refine ⟨σ, events, collectorKey, 0, fun n k _ => (h k).2.2, h0,
    ⟨fun n _ => ⟨4 * n + 2 + 10, by omega, true, (hl _).2 (by omega)⟩,
      fun n _ => ⟨4 * n + 1 + 10, by omega, (hl _).1 (by omega)⟩⟩,
    fun n => (h n).1.running, fun n hn => ?_⟩
  obtain ⟨k, rfl⟩ := Nat.exists_eq_add_of_le' (Nat.le_of_succ_le hn)
  have hb : Busy (k % 4) (σ (k + 10)) := (h (k + 10)).1
  refine ⟨?_, ?_, ?_⟩
  · rw [hb.rendezvous]
    rfl
  · rw [StandsAs, hb.rendezvous]
    exact ⟨_, _, rfl, rfl⟩
  · rintro ⟨push, pusher, hp, -⟩
    rcases hb.pushing with h | ⟨_, _, h⟩ <;> cases h.symm.trans hp

namespace Sample

def collected : Registry :=
  { empty 8 8 with
    pusher := true
    rendezvous := ((empty 8 8).rendezvous.subscribeRendezvous collector [5] 9 0).1.settleRendezvous
      collector [5] 0 true }

def notifying : Registry :=
  { collected with
    rendezvous := { (collected.rendezvous.depositedRendezvous [5] 1 1).1 with
      ready := update (collected.rendezvous.depositedRendezvous [5] 1 1).1.ready
        collectorKey false }
    delivery := .rendezvousPush ⟨collectorKey, 0, collector.clientId, collector.serverNonce, [5], 1⟩
      true }

def notified : Registry :=
  { notifying with groups := { notifying.groups with pushed := 1 }, delivery := .waiting }

def calm : ℕ → Registry
  | 0 => empty 8 8
  | 1 => { empty 8 8 with pusher := true }
  | 2 =>
    { empty 8 8 with
      pusher := true
      rendezvous := ((empty 8 8).rendezvous.subscribeRendezvous collector [5] 9 0).1 }
  | 3 => collected
  | 4 => collected.depositedRendezvous [5] 1 1
  | 5 => { collected.depositedRendezvous [5] 1 1 with signal := true, signalling := 0 }
  | 6 => { collected.depositedRendezvous [5] 1 1 with signalling := 0, delivery := .rendezvous }
  | 7 => notifying
  | 8 => { notified with delivery := .rendezvous }
  | 9 => { notified with delivery := .groups }
  | _ => notified

def calmEvents : ℕ → Event
  | 1 => .subscribeRendezvous collector [5] 9 0
  | 2 => .settleRendezvous collector [5] 0 true
  | 3 => .depositedRendezvous [5] 1 1
  | 4 => .signal
  | 5 | 6 | 7 | 8 | 9 => .deliver true
  | _ => .setPusher true

theorem notified_ready (key : RendezvousKey) : notified.rendezvous.ready key = false := by
  by_cases hk : key = collectorKey
  · rw [hk]
    rfl
  · change update (collected.rendezvous.depositedRendezvous [5] 1 1).1.ready collectorKey false
      key = false
    rw [update_of_ne hk]
    by_contra hm
    cases (collected.rendezvous.depositedRendezvous_deposited key [5] 1 1).2 with
    | ends he => exact absurd (he.ready_le (Bool.not_eq_false _ ▸ hm)) nofun
    | owed t sub hb hs =>
      rw [entry, hb] at hs
      obtain ⟨sub', hf, -⟩ := Option.map_eq_some_iff.mp hs
      obtain ⟨hmm, hc⟩ := Table.find_eq_some.mp hf
      obtain rfl := List.mem_singleton.mp hmm
      apply hk
      rw [collectorKey, ← hb]
      exact congrArg (RendezvousKey.mk · key.box) hc.symm

theorem calm_step (n : ℕ) : Step (calm n) (calmEvents n) (calm (n + 1)) := by
  match n with
  | 0 => exact .setPusher (calm 0) true
  | 1 => exact .subscribeRendezvous (calm 1) collector [5] 9 0
  | 2 => exact .settleRendezvous (calm 2) collector [5] 0 true
  | 3 => exact .depositedRendezvous (calm 3) [5] 1 1
  | 4 => exact .signal (calm 4) Nat.one_pos
  | 5 => exact .wake (calm 5) true rfl rfl
  | 6 => exact .takeRendezvous (calm 6) true collectorKey _ _ rfl (.stop rfl rfl) rfl
  | 7 => exact .rendezvousPushed (calm 7) true _ true rfl
  | 8 => exact .rendezvousDone (calm 8) true _ rfl (.done notified_ready)
  | 9 => exact .groupsDone (calm 9) true _ rfl (.done fun _ => rfl)
  | n + 10 => exact .setPusher (calm (n + 10)) true

theorem calm_path (n : ℕ) : Path Step calm calmEvents n := fun k _ => calm_step k

theorem calm_running (n : ℕ) : (calm n).delivery ≠ .returned := by
  match n with
  | 0 | 1 | 2 | 3 | 4 | 5 | 6 | 7 | 8 | 9 | _ + 10 => nofun

theorem calm_tail {n : ℕ} (h : 10 ≤ n) : calm n = notified := by
  obtain ⟨k, rfl⟩ := Nat.exists_eq_add_of_le' h
  rfl

theorem calm_fair : Fair calm calmEvents where
  deliver n hc := by
    have hw := (hc (max n 10) (le_max_left n 10)).2
    rw [calm_tail (le_max_right n 10)] at hw
    rcases hw rfl with h | h <;> cases h
  signal n hp := by
    have hl := hp (max n 10) (le_max_left n 10)
    rw [calm_tail (le_max_right n 10)] at hl
    exact absurd hl (Nat.lt_irrefl 0)

theorem calm_loops : LoopsEnd calm calmEvents := by
  intro n hat
  have hn : n ≤ 9 := by
    by_contra hn
    exact hat (by rw [calm_tail (Nat.lt_of_not_le hn)]; rfl)
  exact ⟨9, hn, ⟨true, rfl⟩, rfl, nofun⟩

end Sample

/-- The deposit of the run reaches its collector. -/
theorem rendezvous_pushes_arrive_calm : (calm 4).rendezvous.ready collectorKey = true ∧
      ∃ m, 4 ≤ m ∧ (PushStarts (calm m) (calm (m + 1)) collectorKey 0 ∨
        ¬ (calm m).StandsAs collectorKey 0) :=
  ⟨rfl, rendezvous_pushes_arrive 8 8 calm calmEvents calm_path rfl
    calm_fair calm_running calm_loops 4 collectorKey 0 rfl⟩

end MessageServer.Api.Registry
