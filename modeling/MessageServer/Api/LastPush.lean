import MessageServer.Api.Collector

/-! # The count that the last push carries

Deposits into a box are counted under the lock of the store, and notified later
under the lock of the registry. A notification overwrites the count that a
subscription is owed, so the last push carries the count of the last
notification.
-/

namespace MessageServer.Api

open Runs Store Function RendezvousArms

variable {ι : Type*} [DecidableEq ι]

def RendezvousRequest.Touches (id : Bytes) : RendezvousRequest → Prop
  | .collect request => request.rendezvousId = id
  | .retire request => request.rendezvousId = id
  | .openBox _ | .deposit _ => False

def RendezvousCall.Touches (id : Bytes) : RendezvousCall → Prop
  | .arrived r => r.body.Touches id
  | .subscribing _ request _ _ | .collecting _ request _ _ _ => request.rendezvousId = id
  | .settling _ rendezvousId _ _ | .ending rendezvousId _ => rendezvousId = id
  | .retiring request _ _ => request.rendezvousId = id
  | .depositing .. | .notifying .. | .answered _ => False

namespace RendezvousWorld

def count (w : RendezvousWorld ι) (id : Bytes) : ℕ := (w.boxes.depositsAt id).length

def Waits (w : RendezvousWorld ι) (id : Bytes) (i : ι) (pending : ℕ) : Prop :=
  ∃ deposited t, w.calls i = .notifying id deposited t ∧ deposited.pendingCount = pending

def OnWire (w : RendezvousWorld ι) (key : RendezvousKey) (serial : ℕ) (push : RendezvousPush) :
    Prop :=
  push.key = key ∧ push.serial = serial ∧
    ∃ pusher, w.registry.delivery = .rendezvousPush push pusher

def Sends (w : RendezvousWorld ι) (label : RendezvousLabel ι) (key : RendezvousKey) (serial : ℕ)
    (push : RendezvousPush) : Prop :=
  push.key = key ∧ push.serial = serial ∧ w.registry.delivery = .rendezvousPush push true ∧
    label = .registry (.deliver true)

end RendezvousWorld

open RendezvousWorld

section Call

variable {arms : RendezvousArms} {now : Time} {boxes boxes' : MemoryBoxes}
  {registry registry' : Registry} {l l' : RendezvousCall} {id : Bytes}
  {r : Incoming RendezvousRequest} {deposited : LinkBoxDeposited} {server : RendezvousServer}
  {t : Time} {box : LinkBox}

theorem verified_touches {subscribes : Bool} {conn : Connection} {request : RendezvousRequest}
    (h : (verified subscribes conn box now request).Touches id) :
    request.Touches id := by
  cases request with
  | openBox | deposit => exact h.elim
  | collect request =>
    simp only [verified] at h
    split at h <;> exact h
  | retire request => exact h

theorem check_touches (h : (arms.check server r now).Touches id) : r.body.Touches id := by
  unfold check at h
  repeat' split at h
  all_goals first | exact h.elim | exact verified_touches h

theorem advance_touches (h : arms.advance now ⟨boxes, some registry⟩ l =
    (⟨boxes', some registry'⟩, l')) (ht : l'.Touches id) : l.Touches id := by
  cases l with
  | arrived r =>
    cases h
    exact check_touches ht
  | subscribing conn request box t =>
    cases h
    split at ht
    · exact ht.elim
    · exact ht
  | collecting conn request box t claimed =>
    cases h
    split at ht
    · exact ht.elim
    · exact ht
  | retiring request box t =>
    cases h
    repeat' split at ht
    · exact ht.elim
    · exact ht.elim
    · exact ht
  | depositing request box t =>
    cases h
    repeat' split at ht
    all_goals exact ht.elim
  | notifying | settling | ending | answered =>
    cases h
    exact ht.elim

theorem check_ne_notifying : arms.check server r now ≠ .notifying id deposited t := by
  unfold check
  repeat' split
  all_goals first
    | exact RendezvousCall.noConfusion
    | unfold verified
      repeat' split
      all_goals nofun

/-- What a step of a call means for the count of a box and for one subscription to it. -/
inductive CallEffect (key : RendezvousKey) (boxes : MemoryBoxes) (registry : Registry)
    (l : RendezvousCall) (boxes' : MemoryBoxes) (registry' : Registry) (l' : RendezvousCall) : Prop
  | quiet (hcount : boxes'.depositsAt key.box = boxes.depositsAt key.box)
      (hentry : registry'.rendezvous.entry key = registry.rendezvous.entry key)
      (hready : registry'.rendezvous.ready key = registry.rendezvous.ready key)
      (hl : ∀ deposited t, l ≠ .notifying key.box deposited t)
      (hl' : ∀ deposited t, l' ≠ .notifying key.box deposited t)
  | taken (deposited : LinkBoxDeposited) (t : Time)
      (hcount : (boxes'.depositsAt key.box).length = (boxes.depositsAt key.box).length + 1)
      (hl : ∀ deposited t, l ≠ .notifying key.box deposited t)
      (hl' : l' = .notifying key.box deposited t)
      (hpending : deposited.pendingCount = (boxes'.depositsAt key.box).length)
  | notified (deposited : LinkBoxDeposited) (t : Time)
      (hcount : boxes'.depositsAt key.box = boxes.depositsAt key.box)
      (hl : l = .notifying key.box deposited t)
      (hl' : ∀ deposited t, l' ≠ .notifying key.box deposited t)
      (hready : registry'.rendezvous.ready key = true)
      (hpending : ∀ t sub, registry'.rendezvous.entry key = some (t, sub) →
        sub.pending = deposited.pendingCount)

variable {key : RendezvousKey}

theorem ends_of_stands {P : Time → Prop} {next : RendezvousSubscriptions}
    (h : RendezvousSubscriptions.Ends P registry.rendezvous next key)
    (hs : (next.entry key).isSome) :
    next.entry key = registry.rendezvous.entry key ∧
      next.ready key = registry.rendezvous.ready key := by
  rcases h with hsm | ⟨_, _, -, -, hn, -⟩
  · exact hsm
  · rw [hn] at hs
    cases hs

theorem depositing_effect {request : Protocol.RendezvousDepositRequest}
    (h : arms.advance now ⟨boxes, some registry⟩ (.depositing request box t) =
      (⟨boxes', some registry'⟩, l')) (hsn : boxes.Sound) :
    CallEffect key boxes registry (.depositing request box t) boxes' registry' l' := by
  obtain ⟨hb, rfl, hl'⟩ := advance_deposited h
  by_cases hid : request.rendezvousId = key.box
  · rw [hid] at hb hl'
    rcases @depositLinkBox_counted arms.sha256 boxes key.box hsn box.depositVerifyPub
      request.depositCt t with
      ⟨answer, ha, hok, hn, hp, hcn⟩ | ⟨ho, hs⟩
    · rcases hl' with ⟨deposited, ha', -, -, rfl⟩ | ⟨ho, -⟩
      · cases ha.symm.trans ha'
        rw [← hb] at hp
        exact .taken answer t (hp.symm.trans hcn) nofun rfl hp
      · cases hn.symm.trans (ho answer ha hok)
    · rcases hl' with ⟨deposited, ha', hok, hn, -⟩ | ⟨-, answer, rfl⟩
      · cases hn.symm.trans (ho deposited ha' hok)
      · rw [← hb] at hs
        exact .quiet hs rfl rfl nofun nofun
  · have hv := (perform_life arms.sha256 boxes (.deposit request.rendezvousId
      box.depositVerifyPub request.depositCt t) key.box).other trivial hid
    refine .quiet (hb ▸ congrArg BoxView.deposits hv) rfl rfl nofun fun deposited t' hc => ?_
    rcases hl' with ⟨_, -, -, -, hc'⟩ | ⟨-, _, hc'⟩
    · exact hid (RendezvousCall.notifying.inj (hc'.symm.trans hc)).1
    · cases hc'.symm.trans hc

theorem notifying_effect
    (hs : ((registry.depositedRendezvous id deposited.pendingCount t).rendezvous.entry
      key).isSome) :
    CallEffect key boxes registry (.notifying id deposited t) boxes
      (registry.depositedRendezvous id deposited.pendingCount t)
      (.answered (depositedAnswer deposited)) := by
  cases (registry.rendezvous.depositedRendezvous_deposited key id deposited.pendingCount t).2 with
  | ends hen ho =>
    obtain ⟨he, hr⟩ := ends_of_stands hen hs
    refine .quiet rfl he hr (fun _ _ hc => ?_) nofun
    cases hc
    rw [Option.isSome_iff_ne_none] at hs
    exact hs (ho rfl)
  | owed _ sub hb _ he hr =>
    subst hb
    refine .notified deposited t rfl rfl nofun hr ?_
    intro t' sub' hs'
    cases he.symm.trans hs'
    rfl

variable (h : arms.advance now ⟨boxes, some registry⟩ l = (⟨boxes', some registry'⟩, l'))
include h

theorem advance_effect (hsn : boxes.Sound) (ht : ¬ l.Touches key.box)
    (hs : (registry'.rendezvous.entry key).isSome) :
    CallEffect key boxes registry l boxes' registry' l' := by
  cases l with
  | arrived r =>
    cases h
    exact .quiet rfl rfl rfl (by rintro _ _ ⟨⟩) fun _ _ => check_ne_notifying
  | depositing request box t => exact depositing_effect h hsn
  | notifying id deposited t =>
    cases h
    exact notifying_effect hs
  | subscribing conn request box t =>
    have hl' : ∀ deposited t', l' ≠ .notifying key.box deposited t' := by
      rintro deposited t' rfl
      have hc := congrArg Prod.snd h
      simp only [advance, subscribe] at hc
      split at hc <;> cases hc
    cases h
    cases registry.rendezvous.subscribeRendezvous_subscribed key conn request.rendezvousId
      box.expireTime t with
    | ends hen =>
      obtain ⟨he, hr⟩ := ends_of_stands hen hs
      exact .quiet rfl he hr (by rintro _ _ ⟨⟩) hl'
    | claimed _ hk => exact (ht (congrArg RendezvousKey.box hk).symm).elim
    | made hk => exact (ht (congrArg RendezvousKey.box hk).symm).elim
  | collecting conn request box t claimed =>
    have hv := (perform_life arms.sha256 boxes (.collect (some ⟨request.rendezvousId,
      request.sinceDepositId, request.ackThroughDepositId, request.limit,
      box.collectVerifyPub⟩) t) key.box).other trivial ht
    cases h
    refine .quiet (congrArg BoxView.deposits hv) rfl rfl (by rintro _ _ ⟨⟩) fun _ _ => ?_
    split <;> exact RendezvousCall.noConfusion
  | settling conn rendezvousId claimed collected =>
    cases h
    cases (registry.rendezvous.settleRendezvous_settled key conn rendezvousId claimed
      (collectTaken collected)).2 with
    | same he hr => exact .quiet rfl he hr (by rintro _ _ ⟨⟩) (by rintro _ _ ⟨⟩)
    | settled _ _ hk => exact (ht (congrArg RendezvousKey.box hk).symm).elim
    | removed _ _ hk => exact (ht (congrArg RendezvousKey.box hk).symm).elim
  | retiring request box t =>
    have hv := (perform_life arms.sha256 boxes (.retire request.rendezvousId
      box.collectVerifyPub t) key.box).other trivial ht
    cases h
    refine .quiet (congrArg BoxView.deposits hv) rfl rfl (by rintro _ _ ⟨⟩) fun _ _ => ?_
    repeat' split
    all_goals exact RendezvousCall.noConfusion
  | ending rendezvousId retired =>
    cases h
    obtain ⟨he, hr⟩ :=
      ends_of_stands (registry.rendezvous.retiredRendezvous_ends key rendezvousId).2 hs
    exact .quiet rfl he hr (by rintro _ _ ⟨⟩) (by rintro _ _ ⟨⟩)
  | answered answer =>
    cases h
    exact .quiet rfl rfl rfl (by rintro _ _ ⟨⟩) (by rintro _ _ ⟨⟩)

theorem advance_delivery : registry'.delivery = registry.delivery := by
  cases advance_registry h with
  | quiet hr => rw [hr]
  | subscribed _ _ _ _ _ hr => rw [hr]
  | notified _ _ _ _ hr => rw [hr]; rfl
  | settled _ _ _ _ _ hr => rw [hr]
  | ended _ _ _ hr => rw [hr]

theorem advance_registry_sound (hs : registry.Sound) : registry'.Sound := by
  cases advance_registry h with
  | quiet hr => rwa [hr]
  | subscribed conn request box t _ hr =>
    subst hr
    exact (Registry.Step.subscribeRendezvous registry conn request.rendezvousId box.expireTime
      t).sound hs
  | notified id deposited t _ hr =>
    subst hr
    exact (Registry.Step.depositedRendezvous registry id deposited.pendingCount t).sound hs
  | settled conn id claimed collected _ hr =>
    subst hr
    exact (Registry.Step.settleRendezvous registry conn id claimed _).sound hs
  | ended id retired _ hr =>
    subst hr
    exact (Registry.Step.retiredRendezvous registry id).sound hs

end Call

section Background

variable {s s' : Registry} {event : Event} {key : RendezvousKey} {serial : ℕ}

/-- What a step beside the calls means for one subscription and its pushes. -/
inductive DeliveryEffect (key : RendezvousKey) (serial : ℕ) (s : Registry) (event : Event)
    (s' : Registry) : Prop
  | quiet (hready : s'.rendezvous.ready key = s.rendezvous.ready key)
      (hwire : ∀ push pusher, push.key = key → push.serial = serial →
        (s'.delivery = .rendezvousPush push pusher ↔ s.delivery = .rendezvousPush push pusher))
  | taken (t : Time) (sub : RendezvousSubscription) (pusher : Bool)
      (hsub : s.rendezvous.entry key = some (t, sub)) (hmark : s.rendezvous.ready key = true)
      (hready : s'.rendezvous.ready key = false)
      (hwire : s'.delivery = .rendezvousPush (sub.push key) pusher)
  | sent (push : RendezvousPush) (hkey : push.key = key) (hserial : push.serial = serial)
      (hat : s.delivery = .rendezvousPush push true) (hevent : event = .deliver true)
      (hready : s'.rendezvous.ready key = s.rendezvous.ready key)
      (hidle : s'.delivery = .rendezvous)

variable {push : RendezvousPush}

theorem settleRendezvousPush_refused {t : Time} {sub : RendezvousSubscription}
    (hsb : s.rendezvous.entry push.key = some (t, sub)) (hsr : sub.serial = push.serial) :
    (s.settleRendezvousPush push false).rendezvous.entry push.key = none := by
  have hs : s.rendezvous.standing push.key = some sub := by
    rw [RendezvousSubscriptions.standing_eq, hsb]
    rfl
  rw [Registry.settleRendezvousPush, hs]
  dsimp only
  rw [if_neg (not_not.mpr hsr), if_neg Bool.false_ne_true]
  exact (s.rendezvous.remove_spec push.key push.key.box push.key.connection).2.1.trans (if_pos rfl)

theorem pushed_effect {pusher delivered : Bool} (hat : s.delivery = .rendezvousPush push pusher)
    (hsr : ∀ t sub, s.rendezvous.entry key = some (t, sub) → sub.serial = serial)
    (hst : ((s.settleRendezvousPush push (pusher && delivered)).rendezvous.entry key).isSome) :
    (s.settleRendezvousPush push (pusher && delivered)).rendezvous.entry key =
        s.rendezvous.entry key ∧
      DeliveryEffect key serial s (.deliver delivered)
        { s.settleRendezvousPush push (pusher && delivered) with delivery := .rendezvous } := by
  obtain ⟨next, pushed, dropped, heq, he⟩ := s.settleRendezvousPush_spec push (pusher && delivered)
  have hs : (s.settleRendezvousPush push (pusher && delivered)).rendezvous.entry key =
      s.rendezvous.entry key ∧
      (s.settleRendezvousPush push (pusher && delivered)).rendezvous.ready key =
        s.rendezvous.ready key := by
    rw [heq] at hst ⊢
    exact ends_of_stands (he key).2 hst
  refine ⟨hs.1, ?_⟩
  by_cases hps : push.key = key ∧ push.serial = serial
  · obtain ⟨hk, hp⟩ := hps
    have hd : (pusher && delivered) = true := by
      by_contra hr
      rw [hs.1] at hst
      obtain ⟨⟨t, sub⟩, hsb⟩ := Option.isSome_iff_exists.mp hst
      have hn := settleRendezvousPush_refused (hk ▸ hsb) ((hsr t sub hsb).trans hp.symm)
      rw [Bool.not_eq_true] at hr
      rw [hr, ← hk, hn] at hs
      rw [← hk, ← hs.1] at hsb
      cases hsb
    obtain ⟨rfl, rfl⟩ := Bool.and_eq_true_iff.mp hd
    exact .sent push hk hp hat rfl hs.2 rfl
  · refine .quiet hs.2 fun push' pusher' hk hp => ⟨fun h => (nomatch h), fun h => ?_⟩
    cases hat.symm.trans h
    exact (hps ⟨hk, hp⟩).elim

theorem background_effect (hsp : Registry.Step s event s') (hb : event.Background)
    (hsr : ∀ t sub, s.rendezvous.entry key = some (t, sub) → sub.serial = serial)
    (hst : (s'.rendezvous.entry key).isSome) :
    s'.rendezvous.entry key = s.rendezvous.entry key ∧ DeliveryEffect key serial s event s' := by
  have hi : ∀ {d d' : Delivery}, (∀ push pusher, d ≠ .rendezvousPush push pusher) →
      (∀ push pusher, d' ≠ .rendezvousPush push pusher) → ∀ push pusher, push.key = key →
        push.serial = serial →
        (d' = .rendezvousPush push pusher ↔ d = .rendezvousPush push pusher) :=
    fun hd hd' push pusher _ _ =>
      ⟨fun h => (hd' push pusher h).elim, fun h => (hd push pusher h).elim⟩
  have hsd : (s.rendezvous.entry key).isSome → (s.rendezvous.standing key).isSome := by
    rw [RendezvousSubscriptions.standing_eq, Option.isSome_map]
    exact id
  cases hsp with
  | subscribeRendezvous | settleRendezvous | depositedRendezvous | retiredRendezvous =>
    exact hb.elim
  | takeRendezvous delivered key' sub ready hat hv hsb =>
    refine ⟨rfl, ?_⟩
    by_cases hk : key' = key
    · subst hk
      obtain ⟨⟨t, sub'⟩, he, rfl⟩ : ∃ entry, s.rendezvous.entry key' = some entry ∧
          entry.2 = sub := by
        rw [RendezvousSubscriptions.standing_eq] at hsb
        exact Option.map_eq_some_iff.mp hsb
      exact .taken t sub' s.pusher he (hv.found_spec rfl).1 (hv.found_deleted rfl) rfl
    · refine .quiet (hv.same_of_stands (hsd hst) fun h => hk (Option.some.inj h))
        fun push pusher hp _ => ⟨fun h => ?_, fun h => ?_⟩
      · cases h
        exact (hk hp).elim
      · cases hat.symm.trans h
  | rendezvousDone delivered ready hat hv =>
    refine ⟨rfl, .quiet (hv.same_of_stands (hsd hst) (Option.some_ne_none key).symm) (hi ?_ ?_)⟩
    · rw [hat]
      nofun
    · nofun
  | rendezvousPushed delivered push pusher hat => exact pushed_effect hat hsr hst
  | subscribe | unsubscribe | woke | quiet | setPusher | close | signal =>
    exact ⟨rfl, .quiet rfl fun _ _ _ _ => .rfl⟩
  | stop _ hat | wake _ hat | takeGroup _ _ _ _ hat | groupsDone _ _ hat | groupPushed _ _ _ hat =>
    refine ⟨rfl, .quiet rfl (hi ?_ nofun)⟩
    rw [hat]
    nofun

end Background

section Run

variable {arms : RendezvousArms} {σ : ℕ → RendezvousWorld ι} {ℓ : ℕ → RendezvousLabel ι} {n k : ℕ}
  {key : RendezvousKey} {serial : ℕ} {push push' : RendezvousPush}

/-- A run in which a subscription stands, and its box is opened and deposited into at most. -/
structure DepositsOnly (arms : RendezvousArms) (key : RendezvousKey) (serial : ℕ)
    (σ : ℕ → RendezvousWorld ι) (ℓ : ℕ → RendezvousLabel ι) (n : ℕ) : Prop where
  run : Path (Step arms) σ ℓ n
  boxes : ∃ calls, (σ 0).boxes = MemoryBoxes.empty.after arms.sha256 calls
  registry : (σ 0).registry.Sound
  arrived : ∀ i, ∃ r, (σ 0).calls i = .arrived r ∧ ¬ r.body.Touches key.box
  stands : ∀ k ≤ n, ∃ t sub, (σ k).registry.rendezvous.entry key = some (t, sub) ∧
    sub.serial = serial

structure RendezvousWorld.Undisturbed (key : RendezvousKey) (w : RendezvousWorld ι) : Prop where
  boxes : w.boxes.Sound
  registry : w.registry.Sound
  touches : ∀ i, ¬ (w.calls i).Touches key.box

variable {label : RendezvousLabel ι}

theorem RendezvousWorld.Step.undisturbed {w w' : RendezvousWorld ι} (hs : Step arms w label w')
    (h : w.Undisturbed key) : w'.Undisturbed key := by
  cases hs with
  | call i now boxes registry l ha =>
    refine ⟨advance_sound ha h.boxes, advance_registry_sound ha h.registry, fun j ht => ?_⟩
    dsimp only at ht
    by_cases hj : j = i
    · subst hj
      rw [update_self] at ht
      exact h.touches j (advance_touches ha ht)
    · rw [update_of_ne hj] at ht
      exact h.touches j ht
  | registry event registry hs hb =>
    exact ⟨h.boxes, hs.sound h.registry, h.touches⟩

theorem DepositsOnly.undisturbed (h : DepositsOnly arms key serial σ ℓ n) (hk : k ≤ n) :
    (σ k).Undisturbed key := by
  apply (h.run.mono hk).invariant (Nat.zero_le k) _ fun _ _ _ hs => hs.undisturbed
  refine ⟨?_, h.registry, fun i ht => ?_⟩
  · obtain ⟨calls, hc⟩ := h.boxes
    rw [hc]
    exact after_sound arms.sha256 empty_sound calls
  · obtain ⟨r, hr, hb⟩ := h.arrived i
    rw [hr] at ht
    exact hb ht

/-- The newest push to a subscription at a point of a run: on the wire, or the last one sent. -/
inductive Newest (σ : ℕ → RendezvousWorld ι) (ℓ : ℕ → RendezvousLabel ι) (key : RendezvousKey)
    (serial k : ℕ) (push : RendezvousPush) : Prop
  | wire (hwire : (σ k).OnWire key serial push)
  | sent (j : ℕ) (hj : j < k) (hsent : (σ j).Sends (ℓ j) key serial push)
      (hlast : ∀ i, j < i → i < k → ∀ push', ¬ (σ i).Sends (ℓ i) key serial push')
      (hwire : ∀ push', ¬ (σ k).OnWire key serial push')

omit [DecidableEq ι] in
theorem RendezvousWorld.Sends.onWire {w : RendezvousWorld ι} (h : w.Sends label key serial push) :
    w.OnWire key serial push :=
  ⟨h.1, h.2.1, true, h.2.2.1⟩

omit [DecidableEq ι] in
theorem Newest.of_succ (h : Newest σ ℓ key serial (k + 1) push)
    (hw : ∀ push, (σ (k + 1)).OnWire key serial push → (σ k).OnWire key serial push)
    (hs : ∀ push, (σ k).OnWire key serial push →
      (σ (k + 1)).OnWire key serial push ∨ (σ k).Sends (ℓ k) key serial push) :
    Newest σ ℓ key serial k push := by
  cases h with
  | wire h => exact .wire (hw push h)
  | sent j hj h hl hno =>
    rcases Nat.lt_succ_iff_lt_or_eq.mp hj with hlt | rfl
    · refine .sent j hlt h (fun i hji hik => hl i hji (Nat.lt_succ_of_lt hik)) fun push' hw' => ?_
      rcases hs push' hw' with hw' | hs'
      · exact hno push' hw'
      · exact hl k hlt (Nat.lt_succ_self k) push' hs'
    · exact .wire h.onWire

omit [DecidableEq ι] in
theorem Newest.eq_of_onWire (h : Newest σ ℓ key serial k push)
    (hw : (σ k).OnWire key serial push') : push = push' := by
  cases h with
  | wire h =>
    obtain ⟨-, -, pusher, hat⟩ := h
    obtain ⟨-, -, pusher', hat'⟩ := hw
    cases hat.symm.trans hat'
    rfl
  | sent _ _ _ _ hno => exact (hno push' hw).elim

/-- What a subscription has been told, or is owed, is the count that stands. -/
def Told (σ : ℕ → RendezvousWorld ι) (ℓ : ℕ → RendezvousLabel ι) (key : RendezvousKey)
    (serial k : ℕ) : Prop :=
  ((σ k).registry.rendezvous.ready key = true ∧ ∀ t sub,
    (σ k).registry.rendezvous.entry key = some (t, sub) → sub.pending = (σ k).count key.box) ∨
  (σ k).registry.rendezvous.ready key = false ∧
    ∀ push, Newest σ ℓ key serial k push → push.pending = (σ k).count key.box

/-- The count that stands is told, or a deposit has still to notify it. -/
structure Fresh (σ : ℕ → RendezvousWorld ι) (ℓ : ℕ → RendezvousLabel ι) (key : RendezvousKey)
    (serial k : ℕ) : Prop where
  bound : ∀ i pending, (σ k).Waits key.box i pending → pending ≤ (σ k).count key.box
  fresh : (∃ i, (σ k).Waits key.box i ((σ k).count key.box)) ∨
    (∀ i pending, ¬ (σ k).Waits key.box i pending) ∧ Told σ ℓ key serial k

omit [DecidableEq ι] in
theorem Told.of_same (h : Told σ ℓ key serial k)
    (hc : (σ (k + 1)).count key.box = (σ k).count key.box)
    (he : (σ (k + 1)).registry.rendezvous.entry key = (σ k).registry.rendezvous.entry key)
    (hr : (σ (k + 1)).registry.rendezvous.ready key = (σ k).registry.rendezvous.ready key)
    (hn : ∀ push, Newest σ ℓ key serial (k + 1) push → Newest σ ℓ key serial k push) :
    Told σ ℓ key serial (k + 1) := by
  rw [Told, hc, he, hr]
  exact h.imp_right fun ht => ⟨ht.1, fun push hp => ht.2 push (hn push hp)⟩

omit [DecidableEq ι] in
theorem Fresh.of_same (h : Fresh σ ℓ key serial k)
    (hc : (σ (k + 1)).count key.box = (σ k).count key.box)
    (hw : ∀ i pending, (σ (k + 1)).Waits key.box i pending ↔ (σ k).Waits key.box i pending)
    (ht : Told σ ℓ key serial k → Told σ ℓ key serial (k + 1)) :
    Fresh σ ℓ key serial (k + 1) := by
  refine ⟨fun i pending hi => ?_, ?_⟩
  · rw [hc]
    exact h.bound i pending ((hw i pending).mp hi)
  · rcases h.fresh with ⟨i, hi⟩ | ⟨hno, h⟩
    · exact .inl ⟨i, by rwa [hc, hw]⟩
    · exact .inr ⟨fun i pending hi => hno i pending ((hw i pending).mp hi), ht h⟩

/-- A deposit that notifies leaves no smaller count behind it. -/
def NotifiesInOrder (σ : ℕ → RendezvousWorld ι) (ℓ : ℕ → RendezvousLabel ι) (id : Bytes) (k : ℕ) :
    Prop :=
  ∀ i now pending, ℓ k = .call i now → (σ k).Waits id i pending →
    ∀ j pending', j ≠ i → (σ k).Waits id j pending' → pending < pending'

section Step

variable {i : ι} {now : Time} {boxes : MemoryBoxes} {registry : Registry} {l : RendezvousCall}

theorem waits_update {w : RendezvousWorld ι} {id : Bytes} {j : ι} {pending : ℕ}
    (hl : ∀ deposited t, l ≠ .notifying id deposited t) :
    (⟨boxes, registry, update w.calls i l⟩ : RendezvousWorld ι).Waits id j pending ↔
      j ≠ i ∧ w.Waits id j pending := by
  unfold Waits
  dsimp only
  by_cases hj : j = i
  · subst hj
    rw [update_self]
    constructor
    · rintro ⟨deposited, t, hc, -⟩
      exact (hl deposited t hc).elim
    · rintro ⟨hne, -⟩
      exact (hne rfl).elim
  · rw [update_of_ne hj]
    exact ⟨fun h => ⟨hj, h⟩, fun h => h.2⟩

theorem Fresh.call (h : Fresh σ ℓ key serial k)
    (hn : σ (k + 1) = ⟨boxes, registry, update (σ k).calls i l⟩)
    (hlb : ℓ k = .call i now) (hd : registry.delivery = (σ k).registry.delivery)
    (he : CallEffect key (σ k).boxes (σ k).registry ((σ k).calls i) boxes registry l)
    (ho : NotifiesInOrder σ ℓ key.box k) : Fresh σ ℓ key serial (k + 1) := by
  have hwr : ∀ push, (σ (k + 1)).OnWire key serial push ↔ (σ k).OnWire key serial push := by
    intro push
    rw [OnWire, OnWire, hn, hd]
  have hnw : ∀ push, Newest σ ℓ key serial (k + 1) push → Newest σ ℓ key serial k push :=
    fun push hps => hps.of_succ (fun push => (hwr push).mp)
      fun push hat => .inl ((hwr push).mpr hat)
  cases he with
  | quiet hc hen hr hl hl' =>
    have hc : (σ (k + 1)).count key.box = (σ k).count key.box := by
      rw [count, count, hn, hc]
    apply h.of_same hc
    · intro j pending
      rw [hn, waits_update hl']
      refine ⟨And.right, fun hj => ⟨?_, hj⟩⟩
      rintro rfl
      obtain ⟨deposited, t, hcl, -⟩ := hj
      exact hl deposited t hcl
    · intro ht
      apply ht.of_same hc _ _ hnw
      · rw [hn, hen]
      · rw [hn, hr]
  | taken deposited t hc hl hl' hp =>
    have hc : (σ (k + 1)).count key.box = (σ k).count key.box + 1 := by
      rw [count, count, hn, hc]
    have hm : (σ (k + 1)).calls i = .notifying key.box deposited t := by
      rw [hn]
      exact (update_self ..).trans hl'
    have hp : deposited.pendingCount = (σ (k + 1)).count key.box := by
      rw [count, hn, hp]
    refine ⟨fun j pending hj => ?_, .inl ⟨i, deposited, t, hm, hp⟩⟩
    obtain ⟨deposited', t', hcl, rfl⟩ := hj
    by_cases hji : j = i
    · subst hji
      cases hm.symm.trans hcl
      exact hp.le
    · rw [hn] at hcl
      have hw : (σ k).Waits key.box j deposited'.pendingCount :=
        ⟨deposited', t', (update_of_ne hji ..).symm.trans hcl, rfl⟩
      rw [hc]
      exact Nat.le_succ_of_le (h.bound j _ hw)
  | notified deposited t hc hl hl' hr hp =>
    have hc : (σ (k + 1)).count key.box = (σ k).count key.box := by
      rw [count, count, hn, hc]
    have hm : (σ k).Waits key.box i deposited.pendingCount := ⟨deposited, t, hl, rfl⟩
    have hw : ∀ j pending, (σ (k + 1)).Waits key.box j pending ↔
        j ≠ i ∧ (σ k).Waits key.box j pending := by
      intro j pending
      rw [hn, waits_update hl']
    refine ⟨fun j pending hj => ?_, ?_⟩
    · rw [hc]
      exact h.bound j pending ((hw j pending).mp hj).2
    · rcases Nat.eq_or_lt_of_le (h.bound i _ hm) with heq | hlt
      · refine .inr ⟨fun j pending hj => ?_, .inl ⟨by rw [hn]; exact hr, ?_⟩⟩
        · obtain ⟨hne, hj⟩ := (hw j pending).mp hj
          have hmr := ho i now _ hlb hm j pending hne hj
          rw [heq] at hmr
          exact Nat.not_le.mpr hmr (h.bound j pending hj)
        · intro t' sub hs
          rw [hn] at hs
          rw [hc, ← heq]
          exact hp t' sub hs
      · rcases h.fresh with ⟨j, hj⟩ | ⟨hno, -⟩
        · refine .inl ⟨j, ?_⟩
          rw [hc, hw]
          refine ⟨?_, hj⟩
          rintro rfl
          obtain ⟨deposited', t', hcl, hp'⟩ := hj
          cases hl.symm.trans hcl
          exact hlt.ne hp'
        · exact (hno i _ hm).elim

omit [DecidableEq ι] in
theorem Fresh.background {event : Event} (h : Fresh σ ℓ key serial k)
    (hn : σ (k + 1) = { σ k with registry := registry }) (hl : ℓ k = .registry event)
    (hsr : ∀ t sub, (σ k).registry.rendezvous.entry key = some (t, sub) → sub.serial = serial)
    (he : registry.rendezvous.entry key = (σ k).registry.rendezvous.entry key)
    (hef : DeliveryEffect key serial (σ k).registry event registry) :
    Fresh σ ℓ key serial (k + 1) := by
  have hc : (σ (k + 1)).count key.box = (σ k).count key.box := by
    rw [count, count, hn]
  apply h.of_same hc
  · intro j pending
    rw [hn]
    rfl
  · intro ht
    have he : (σ (k + 1)).registry.rendezvous.entry key = (σ k).registry.rendezvous.entry key := by
      rw [hn, he]
    cases hef with
    | quiet hr hw =>
      have hs : ∀ push, (σ (k + 1)).OnWire key serial push ↔ (σ k).OnWire key serial push := by
        intro push
        rw [OnWire, OnWire, hn]
        exact and_congr_right fun hk => and_congr_right fun hp =>
          exists_congr fun pusher => hw push pusher hk hp
      apply ht.of_same hc he
      · rw [hn, hr]
      · exact fun push hps => hps.of_succ (fun push => (hs push).mp)
          fun push hat => .inl ((hs push).mpr hat)
    | taken t sub pusher hsb hm hr hw =>
      have hat : (σ (k + 1)).OnWire key serial (sub.push key) :=
        ⟨rfl, hsr t sub hsb, pusher, by rw [hn]; exact hw⟩
      refine .inr ⟨by rw [hn]; exact hr, fun push hps => ?_⟩
      obtain rfl := hps.eq_of_onWire hat
      rcases ht with ⟨-, hpn⟩ | ⟨hu, -⟩
      · rw [hc]
        exact hpn t sub hsb
      · rw [hm] at hu
        cases hu
    | sent push hk hp hat hev hr hi =>
      subst hev
      apply ht.of_same hc he
      · rw [hn, hr]
      · refine fun push' hps' => hps'.of_succ (fun push'' hw => ?_) fun push'' hw => .inr ?_
        · obtain ⟨-, -, pusher, hw⟩ := hw
          rw [hn] at hw
          cases hi.symm.trans hw
        · obtain ⟨hk', hp', pusher, hw⟩ := hw
          cases hat.symm.trans hw
          exact ⟨hk', hp', hat, hl⟩

end Step

/-- What a subscription is owed at the start of a run, or is sent then, is the count that stands. -/
def RendezvousWorld.OwesCount (w : RendezvousWorld ι) (key : RendezvousKey) (serial : ℕ) : Prop :=
  (w.registry.rendezvous.ready key = true → ∀ t sub,
    w.registry.rendezvous.entry key = some (t, sub) → sub.pending = w.count key.box) ∧
  (w.registry.rendezvous.ready key = false → ∀ push, w.OnWire key serial push →
    push.pending = w.count key.box)

omit [DecidableEq ι] in
theorem fresh_start (ha : ∀ i, ∃ r, (σ 0).calls i = .arrived r)
    (ho : (σ 0).OwesCount key serial) : Fresh σ ℓ key serial 0 := by
  have hno : ∀ i pending, ¬ (σ 0).Waits key.box i pending := by
    rintro i pending ⟨deposited, t, hc, -⟩
    obtain ⟨r, hr⟩ := ha i
    cases hr.symm.trans hc
  refine ⟨fun i pending hi => (hno i pending hi).elim, .inr ⟨hno, ?_⟩⟩
  cases hrd : (σ 0).registry.rendezvous.ready key with
  | true => exact .inl ⟨hrd, ho.1 hrd⟩
  | false =>
    refine .inr ⟨hrd, fun push hp => ?_⟩
    cases hp with
    | wire hw => exact ho.2 hrd push hw
    | sent j hj => exact (Nat.not_lt_zero j hj).elim

/-- The counts are fresh throughout a run whose deposits notify in the order of their writes. -/
theorem fresh_of_run (h : DepositsOnly arms key serial σ ℓ n)
    (how : (σ 0).OwesCount key serial) (ho : ∀ j < n, NotifiesInOrder σ ℓ key.box j)
    (hk : k ≤ n) : Fresh σ ℓ key serial k := by
  induction k with
  | zero =>
    apply fresh_start _ how
    intro i
    obtain ⟨r, hr, -⟩ := h.arrived i
    exact ⟨r, hr⟩
  | succ k ih =>
    have ih := ih (Nat.le_of_lt hk)
    have hu := h.undisturbed (Nat.le_of_lt hk)
    have hs : ∀ t sub, (σ k).registry.rendezvous.entry key = some (t, sub) →
        sub.serial = serial := by
      intro t sub hsb
      obtain ⟨_, _, hsb', hs⟩ := h.stands k (Nat.le_of_lt hk)
      cases hsb'.symm.trans hsb
      exact hs
    obtain ⟨t, sub, hsb, -⟩ := h.stands (k + 1) hk
    have hst := h.run k hk
    generalize hl : ℓ k = label at hst
    generalize hn : σ (k + 1) = w' at hst hsb
    cases hst with
    | call i now boxes registry l ha =>
      have he := advance_effect ha hu.boxes (hu.touches i) (Option.isSome_of_eq_some hsb)
      exact ih.call hn hl (advance_delivery ha) he (ho k hk)
    | registry event registry hst hb =>
      obtain ⟨hen, he⟩ := background_effect hst hb hs (Option.isSome_of_eq_some hsb)
      exact ih.background hn hl hs hen he

/-- Where the deposits notify in the order of their writes, the last push carries the count that
stands. -/
theorem last_push_counts (h : DepositsOnly arms key serial σ ℓ n)
    (howed : (σ 0).OwesCount key serial) (horder : ∀ j < n, NotifiesInOrder σ ℓ key.box j)
    (hreturned : ∀ i pending, ¬ (σ n).Waits key.box i pending)
    (hidle : (σ n).registry.delivery = .waiting) (hsignal : (σ n).registry.signal = false)
    (hsignalling : (σ n).registry.signalling = 0) (hk : k < n)
    (hsent : (σ k).Sends (ℓ k) key serial push)
    (hlast : ∀ j, k < j → j < n → ∀ push', ¬ (σ j).Sends (ℓ j) key serial push') :
    push.pending = (σ n).count key.box := by
  rcases (fresh_of_run h howed horder (Nat.le_refl n)).fresh with ⟨i, hi⟩ | ⟨-, ht⟩
  · exact (hreturned i _ hi).elim
  · rcases ht with ⟨hm, -⟩ | ⟨-, hn⟩
    · rcases (h.undisturbed (Nat.le_refl n)).registry.rendezvous key hm with
        (hs | hlt) | ha
      · cases hsignal.symm.trans hs
      · exact (Nat.ne_of_gt hlt hsignalling).elim
      · rw [hidle] at ha
        exact ha.elim
    · apply hn push
      refine .sent k hk hsent hlast ?_
      rintro push' ⟨-, -, pusher, hw⟩
      cases hidle.symm.trans hw

end Run

namespace Sample

def linkKey : RendezvousKey := ⟨connectionKeyOf collector, linkId⟩

def settled : Registry :=
  { Registry.empty 8 8 with
    pusher := true
    rendezvous := (((Registry.empty 8 8).rendezvous.subscribeRendezvous collector linkId 1000000
      0).1.settleRendezvous collector linkId 0 true) }

theorem settled_sound : settled.Sound := by
  have hs := (Registry.Step.subscribeRendezvous (Registry.empty 8 8) collector linkId
    1000000 0).sound (Registry.empty_sound 8 8)
  have hst := (Registry.Step.settleRendezvous _ collector linkId 0 true).sound hs
  exact (Registry.Step.setPusher _ true).sound hst

variable {key : RendezvousKey}

theorem settled_entry (hk : key ≠ linkKey) :
    settled.rendezvous.entry key = none ∧ settled.rendezvous.ready key = false := by
  have hem : (Registry.empty 8 8).rendezvous.entry key = none := rfl
  have hs : ((Registry.empty 8 8).rendezvous.subscribeRendezvous collector linkId 1000000
      0).1.entry key = none ∧ ((Registry.empty 8 8).rendezvous.subscribeRendezvous collector linkId
      1000000 0).1.ready key = false := by
    cases (Registry.empty 8 8).rendezvous.subscribeRendezvous_subscribed key collector linkId
      1000000 0 with
    | ends hen =>
      rcases hen with ⟨he, hr⟩ | ⟨_, _, hsb, -⟩
      · exact ⟨he, hr⟩
      · cases hem.symm.trans hsb
    | claimed _ h => exact (hk h).elim
    | made h => exact (hk h).elim
  cases (((Registry.empty 8 8).rendezvous.subscribeRendezvous collector linkId 1000000
    0).1.settleRendezvous_settled key collector linkId 0 true).2 with
  | same he hr => exact ⟨he.trans hs.1, hr.trans hs.2⟩
  | settled _ _ h => exact (hk h).elim
  | removed _ _ h => exact (hk h).elim

theorem notified_entry {s : Registry} {pending : ℕ}
    (h : s.rendezvous.entry key = none ∧ s.rendezvous.ready key = false) :
    (s.depositedRendezvous linkId pending 0).rendezvous.entry key = none ∧
      (s.depositedRendezvous linkId pending 0).rendezvous.ready key = false := by
  cases (s.rendezvous.depositedRendezvous_deposited key linkId pending 0).2 with
  | ends hen =>
    rcases hen with ⟨he, hr⟩ | ⟨_, _, hs, -⟩
    · exact ⟨he.trans h.1, hr.trans h.2⟩
    · cases h.1.symm.trans hs
  | owed _ _ _ hs => cases h.1.symm.trans hs

def octet (i : Bool) : UInt8 := if i then 6 else 5

def oneDeposit : MemoryBoxes :=
  ⟨linkBoxes.boxes.modify linkId .take LinkBoxRow.take_rendezvousId, linkBoxes.deposits ++
      [linkRow.nextDeposit [octet false] (depositRequest (octet false)).depositCt 0]⟩

def twoDeposits : MemoryBoxes :=
  ⟨oneDeposit.boxes.modify linkId .take LinkBoxRow.take_rendezvousId, oneDeposit.deposits ++
      [linkRow.take.nextDeposit [octet true] (depositRequest (octet true)).depositCt 0]⟩

def depositCount (i : Bool) : ℕ := if i then 2 else 1

def answerTo (i : Bool) : LinkBoxDeposited where
  reason := .ok
  depositId := depositCount i
  depositHash := some [octet i]
  pendingCount := depositCount i

def depositors (i : Bool) : RendezvousCall :=
  .arrived ⟨⟨[3], [4]⟩, checksNotImplemented, .deposit (depositRequest (octet i))⟩

def notifiedBy (first : Bool) : Registry :=
  (settled.depositedRendezvous linkId (depositCount first) 0).depositedRendezvous linkId
    (depositCount !first) 0

def marked (first : Bool) : RendezvousSubscription :=
  { (RendezvousSubscriptions.empty 8).made collector linkId with
    pending := depositCount !first
    claims := 0
    kept := true }

variable (first : Bool)

theorem notifiedBy_standing :
    (notifiedBy first).rendezvous.standing linkKey = some (marked first) := by
  cases first <;> rfl

def takenBy (first : Bool) : Registry :=
  { notifiedBy first with
    signalling := 0
    rendezvous := { (notifiedBy first).rendezvous with
      ready := update (notifiedBy first).rendezvous.ready linkKey false }
    delivery := .rendezvousPush ((marked first).push linkKey) true }

def pushedBy (first : Bool) : Registry :=
  { (takenBy first).settleRendezvousPush ((marked first).push linkKey) true with
    delivery := .rendezvous }

theorem pushedBy_ready (key : RendezvousKey) : (pushedBy first).rendezvous.ready key = false := by
  have hr : (pushedBy first).rendezvous.ready =
      update (notifiedBy first).rendezvous.ready linkKey false := by
    cases first <;> rfl
  rw [hr]
  by_cases hk : key = linkKey
  · rw [hk, update_self]
  · rw [update_of_ne hk]
    exact (notified_entry (notified_entry (settled_entry hk))).2

def waiting (i : Bool) : RendezvousCall := .notifying linkId (answerTo i) 0

def returned (i : Bool) : RendezvousCall := .answered (depositedAnswer (answerTo i))

def depositStates (first : Bool) : ℕ → RendezvousWorld Bool
  | 0 => ⟨linkBoxes, settled, depositors⟩
  | 1 => ⟨linkBoxes, settled, update depositors false
        (.depositing (depositRequest (octet false)) linkRow.linkBox 0)⟩
  | 2 => ⟨oneDeposit, settled, update depositors false (waiting false)⟩
  | 3 => ⟨oneDeposit, settled, update waiting true
        (.depositing (depositRequest (octet true)) linkRow.take.linkBox 0)⟩
  | 4 => ⟨twoDeposits, settled, waiting⟩
  | 5 => ⟨twoDeposits, settled.depositedRendezvous linkId (depositCount first) 0,
      update waiting first (returned first)⟩
  | 6 => ⟨twoDeposits, notifiedBy first, returned⟩
  | 7 => ⟨twoDeposits, { notifiedBy first with signal := true, signalling := 1 }, returned⟩
  | 8 => ⟨twoDeposits, { notifiedBy first with signal := true, signalling := 0 }, returned⟩
  | 9 => ⟨twoDeposits, { notifiedBy first with signalling := 0, delivery := .rendezvous }, returned⟩
  | 10 => ⟨twoDeposits, takenBy first, returned⟩
  | 11 => ⟨twoDeposits, pushedBy first, returned⟩
  | 12 => ⟨twoDeposits, { pushedBy first with delivery := .groups }, returned⟩
  | _ => ⟨twoDeposits, { pushedBy first with delivery := .waiting }, returned⟩

def depositLabels (first : Bool) : ℕ → RendezvousLabel Bool
  | 0 | 1 => .call false 0
  | 2 | 3 => .call true 0
  | 4 => .call first 0
  | 5 => .call (!first) 0
  | 6 | 7 => .registry .signal
  | _ => .registry (.deliver true)

variable {boxes : MemoryBoxes} {registry : Registry}

theorem step_call {w : RendezvousWorld Bool} {i : Bool} {calls : Bool → RendezvousCall}
    {l : RendezvousCall} (ha : trusting.advance 0 ⟨w.boxes, some w.registry⟩ (w.calls i) =
      (⟨boxes, some registry⟩, l)) (hc : calls = update w.calls i l) :
    Step trusting w (.call i 0) ⟨boxes, registry, calls⟩ := by
  rw [hc]
  exact .call w i 0 boxes registry l ha

theorem linkBoxes_find : linkBoxes.boxes.find linkId = some linkRow := rfl

theorem oneDeposit_find : oneDeposit.boxes.find linkId = some linkRow.take := rfl

theorem advance_depositors {row : LinkBoxRow} (i : Bool) (hr : boxes.boxes.find linkId = some row)
    (hl : row.linkBox.live 0 = true) :
    trusting.advance 0 ⟨boxes, some registry⟩ (depositors i) =
      (⟨boxes, some registry⟩, .depositing (depositRequest (octet i)) row.linkBox 0) := by
  rw [depositors, advance, check_depositRequest _ hr hl]

theorem advance_firstDeposit : trusting.advance 0 ⟨linkBoxes, some settled⟩
    (.depositing (depositRequest (octet false)) linkRow.linkBox 0) =
      (⟨oneDeposit, some settled⟩, waiting false) := by
  rw [advance, deposit_depositRequest linkBoxes_find rfl rfl
    (fun _ h => (List.not_mem_nil h).elim) (by decide)]
  rfl

theorem advance_secondDeposit : trusting.advance 0 ⟨oneDeposit, some settled⟩
    (.depositing (depositRequest (octet true)) linkRow.take.linkBox 0) =
      (⟨twoDeposits, some settled⟩, waiting true) := by
  have hn : ∀ d ∈ oneDeposit.depositsAt linkId, d.depositHash ≠ [octet true] := by
    intro d hd
    have hm : d ∈ [linkRow.nextDeposit [octet false] (depositRequest (octet false)).depositCt 0] :=
      (List.mem_filter.mp hd).1
    rw [List.mem_singleton.mp hm, LinkBoxRow.nextDeposit]
    decide
  rw [advance, deposit_depositRequest oneDeposit_find rfl rfl hn (by decide)]
  rfl

theorem path_deposits : Path (Step trusting) (depositStates first) (depositLabels first) 13 := by
  have hs : (notifiedBy first).signalling = 2 := by cases first <;> rfl
  intro k hk
  match k with
  | 0 => exact step_call (advance_depositors false linkBoxes_find rfl) rfl
  | 1 =>
    exact step_call (w := depositStates first 1) advance_firstDeposit (update_idem ..).symm
  | 2 =>
    refine step_call (advance_depositors true oneDeposit_find rfl) ?_
    funext i
    cases i <;> rfl
  | 3 =>
    refine step_call (w := depositStates first 3) advance_secondDeposit ?_
    funext i
    cases i <;> rfl
  | 4 => exact step_call (l := returned first) rfl rfl
  | 5 =>
    have hcl : update waiting first (returned first) (!first) = waiting !first := by
      cases first <;> rfl
    have hc : returned = update (update waiting first (returned first))
        (!first) (returned !first) := by
      funext i
      cases first <;> cases i <;> rfl
    have ha : trusting.advance 0 ⟨twoDeposits,
        some (settled.depositedRendezvous linkId (depositCount first) 0)⟩
        (update waiting first (returned first) !first) =
          (⟨twoDeposits, some (notifiedBy first)⟩, returned !first) := by
      rw [hcl]
      rfl
    exact step_call (w := depositStates first 5) ha hc
  | 6 =>
    have hsp := Registry.Step.signal (notifiedBy first) (by rw [hs]; decide)
    rw [hs] at hsp
    exact .registry _ .signal _ hsp trivial
  | 7 => exact .registry _ .signal _ (.signal _ Nat.one_pos) trivial
  | 8 => exact .registry _ (.deliver true) _ (.wake _ true rfl rfl) trivial
  | 9 =>
    have hm : (notifiedBy first).rendezvous.ready linkKey = true := by cases first <;> rfl
    have hst := notifiedBy_standing first
    exact .registry _ (.deliver true) _ (.takeRendezvous _ true linkKey (marked first) _ rfl
      (.stop hm (Option.isSome_of_eq_some hst)) hst) trivial
  | 10 => exact .registry _ (.deliver true) _ (.rendezvousPushed _ true _ true rfl) trivial
  | 11 =>
    exact .registry _ (.deliver true) _ (.rendezvousDone _ true _ rfl
      (.done (pushedBy_ready first))) trivial
  | 12 =>
    have hr : ∀ key, (pushedBy first).groups.ready key = false := by
      intro key
      cases first <;> rfl
    exact .registry _ (.deliver true) _ (.groupsDone _ true _ rfl (.done hr)) trivial
  | k + 13 => exact (Nat.not_lt.mpr (Nat.le_add_left 13 k) hk).elim

theorem deposits_only :
    DepositsOnly trusting linkKey 0 (depositStates first) (depositLabels first) 13 where
  run := path_deposits first
  boxes := ⟨_, linkBoxes_eq⟩
  registry := settled_sound
  arrived _ := ⟨_, rfl, False.elim⟩
  stands k _ := by
    match k with
    | 0 | 1 | 2 | 3 | 4 => exact ⟨_, _, rfl, rfl⟩
    | 5 | 6 | 7 | 8 | 9 | 10 | 11 | 12 => cases first <;> exact ⟨_, _, rfl, rfl⟩
    | k + 13 => cases first <;> exact ⟨_, _, rfl, rfl⟩

theorem deposits_start : (depositStates first 0).OwesCount linkKey 0 := by
  refine ⟨fun hr => (nomatch hr), fun _ push hp => ?_⟩
  obtain ⟨-, -, _, hw⟩ := hp
  cases hw

theorem deposits_sent : (depositStates first 10).Sends (depositLabels first 10)
    linkKey 0 ((marked first).push linkKey) := ⟨rfl, rfl, rfl, rfl⟩

theorem deposits_last : ∀ j, 10 < j → j < 13 → ∀ push,
    ¬ (depositStates first j).Sends (depositLabels first j) linkKey 0 push := by
  rintro j hj hlt push ⟨-, -, hw, -⟩
  obtain rfl | rfl : j = 11 ∨ j = 12 := by omega
  · cases hw
  · cases hw

theorem deposits_in_order (j : ℕ) :
    NotifiesInOrder (depositStates false) (depositLabels false) linkId j := by
  rintro i now pending hl ⟨deposited, t, hc, rfl⟩ m pending' hne ⟨deposited', t', hc', rfl⟩
  match j with
  | 0 | 1 | 2 | 3 =>
    cases hl
    cases hc
  | 4 =>
    cases hl
    cases m with
    | false => exact (hne rfl).elim
    | true =>
      cases hc
      cases hc'
      decide
  | 5 =>
    cases hl
    cases m with
    | false => cases hc'
    | true => exact (hne rfl).elim
  | 6 | 7 | 8 | 9 | 10 | 11 | 12 => cases hl
  | j + 13 => cases hl

end Sample

open Sample

theorem last_push_counts_in_order :
    ((marked false).push linkKey).pending = (depositStates false 13).count linkId := by
  apply last_push_counts (deposits_only false) (deposits_start false)
    (fun j _ => deposits_in_order j) _ rfl rfl rfl (show 10 < 13 by decide)
    (deposits_sent false) (deposits_last false)
  rintro i pending ⟨deposited, t, hc, -⟩
  cases hc

/-- The second deposit notifies before the first: the last push says one, and two stand. -/
theorem last_push_understates : DepositsOnly trusting linkKey 0 (depositStates true)
      (depositLabels true) 13 ∧
    (∃ t sub, (depositStates true 0).registry.rendezvous.entry linkKey =
      some (t, sub) ∧ sub.claims = 0 ∧ sub.kept = true) ∧
    (depositStates true 0).OwesCount linkKey 0 ∧
    (∃ row, (depositStates true 13).boxes.boxes.find linkId = some row ∧
      row.linkBox.live 0 = true) ∧
    (∀ i, ∃ answer, (depositStates true 13).calls i = .answered answer) ∧
    (depositStates true 13).registry.delivery = .waiting ∧
    (depositStates true 13).registry.signal = false ∧
    (depositStates true 13).registry.signalling = 0 ∧
    ∃ push, (depositStates true 10).Sends (depositLabels true 10) linkKey 0
        push ∧
      (∀ j, 10 < j → j < 13 → ∀ push', ¬ (depositStates true j).Sends
        (depositLabels true j) linkKey 0 push') ∧
      push.pending = 1 ∧ (depositStates true 13).count linkId = 2 :=
  ⟨deposits_only true, ⟨_, _, rfl, rfl, rfl⟩, deposits_start true, ⟨_, rfl, rfl⟩,
    fun _ => ⟨_, rfl⟩, rfl, rfl, rfl, _, deposits_sent true, deposits_last true, rfl,
    rfl⟩

end MessageServer.Api
