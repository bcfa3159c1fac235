import MessageServer.Api.CardRetired
import MessageServer.Api.RendezvousWorld

/-! # A subscribed collector misses no deposit

A Collect claims its subscription before its write. A deposit whose write comes
after the write of the Collect therefore finds the subscription when it
notifies.
-/

namespace MessageServer.Api

open Runs Store Function Protocol Finset RendezvousArms MemoryBoxes

variable {ι : Type*} [DecidableEq ι] {arms : RendezvousArms} {boxes : MemoryBoxes} {c : ι}
  {key : RendezvousKey} {expireTime : Time} {serial : ℕ}

namespace RendezvousWorld

variable {w w' : RendezvousWorld ι} {label : RendezvousLabel ι} {i : ι} {now : Time}

theorem Step.advance (h : Step arms w (.call i now) w') :
    arms.advance now ⟨w.boxes, some w.registry⟩ (w.calls i) =
      (⟨w'.boxes, some w'.registry⟩, w'.calls i) := by
  cases h with
  | call _ _ boxes registry l ha =>
    rw [ha]
    dsimp only
    rw [update_self]

theorem Step.changed (h : Step arms w label w') (hne : w'.calls i ≠ w.calls i) :
    ∃ now, label = .call i now := by
  cases h with
  | call j now boxes registry l ha =>
    by_cases hi : i = j
    · exact ⟨now, by rw [hi]⟩
    · exact (hne (update_of_ne hi ..)).elim
  | registry => exact (hne rfl).elim

/-- The subscription of a Collect stands: the Collect still holds it, or a write kept it. -/
def Held (w : RendezvousWorld ι) (c : ι) (key : RendezvousKey) (expireTime : Time) (serial : ℕ) :
    Prop :=
  ∃ sub, w.registry.rendezvous.entry key = some (expireTime, sub) ∧ sub.serial = serial ∧
    ((w.calls c).Claims key serial ∨ sub.kept = true)

inductive Ending (w : RendezvousWorld ι) (label : RendezvousLabel ι) (key : RendezvousKey)
    (expireTime : Time) : Prop
  | expired (i : ι) (t : Time) (ht : (w.calls i).time = some t) (hdue : expireTime ≤ t)
  | superseded (i : ι) (later : Time) (hread : (w.calls i).HasRead key.box later)
      (hlater : expireTime < later)
  | retired (i : ι) (retired : LinkBoxRetired) (hcall : w.calls i = .ending key.box retired)
  | refused (event : Event) (hlabel : label = .registry event)
      (hrefused : w.registry.Refuses key event)

section Call

variable {l : RendezvousCall}

theorem claims_update (h : (w.calls c).Claims key serial) (hi : c = i → l.Claims key serial) :
    (update w.calls i l c).Claims key serial := by
  by_cases hci : c = i
  · rw [hci, update_self]
    exact hi hci
  · rwa [update_of_ne hci]

variable (h : w.Held c key expireTime serial)
include h

variable {conn : Connection} {id : Bytes} {t : Time}

theorem Held.subscribed {request : RendezvousCollectRequest} {box : LinkBox}
    (hca : w.calls i = .subscribing conn request box t) :
    Held (⟨boxes, { w.registry with
      rendezvous := (w.registry.rendezvous.subscribeRendezvous conn request.rendezvousId
        box.expireTime t).1 }, update w.calls i l⟩ : RendezvousWorld ι)
        c key expireTime serial ∨
      w.Ending label key expireTime := by
  obtain ⟨sub, hsb, hs, hh⟩ := h
  have hcl : (w.calls c).Claims key serial → (update w.calls i l c).Claims key serial := by
    intro hc
    apply claims_update hc
    rintro rfl
    rw [hca] at hc
    exact hc.elim
  have hd : expireTime ≤ t → w.Ending label key expireTime := .expired i t (by rw [hca]; rfl)
  have hl : key.box = request.rendezvousId → expireTime < box.expireTime →
      w.Ending label key expireTime := by
    intro hb
    apply Ending.superseded i
    rw [hca]
    exact ⟨hb.symm, rfl⟩
  cases w.registry.rendezvous.subscribeRendezvous_subscribed key conn request.rendezvousId
    box.expireTime t with
  | ends he =>
    rcases he with ⟨hen, -⟩ | ⟨_, _, hsb', he, -⟩
    · exact .inl ⟨sub, hen.trans hsb, hs, hh.imp_left hcl⟩
    · cases hsb.symm.trans hsb'
      exact .inr (he.elim hd fun he => hl he.1 he.2)
  | claimed _ _ hsb' hen =>
    cases hsb.symm.trans hsb'
    exact .inl ⟨_, hen, hs, hh.imp_left hcl⟩
  | made hk he =>
    exact .inr ((he _ _ hsb).elim hd (hl (by rw [hk])))

theorem Held.notified {deposited : LinkBoxDeposited} (hca : w.calls i = .notifying id deposited t) :
    Held (⟨boxes, w.registry.depositedRendezvous id deposited.pendingCount t,
        update w.calls i l⟩ : RendezvousWorld ι) c key expireTime serial ∨
      w.Ending label key expireTime := by
  obtain ⟨sub, hsb, hs, hh⟩ := h
  have hcl : (w.calls c).Claims key serial → (update w.calls i l c).Claims key serial := by
    intro hc
    apply claims_update hc
    rintro rfl
    rw [hca] at hc
    exact hc.elim
  cases (w.registry.rendezvous.depositedRendezvous_deposited key id deposited.pendingCount t).2 with
  | ends hen =>
    rcases hen with ⟨he, -⟩ | ⟨_, _, hs', hd, -⟩
    · exact .inl ⟨sub, he.trans hsb, hs, hh.imp_left hcl⟩
    · cases hsb.symm.trans hs'
      exact .inr (.expired i t (by rw [hca]; rfl) hd)
  | owed _ _ _ hs' he =>
    cases hsb.symm.trans hs'
    exact .inl ⟨_, he, hs, hh.imp_left hcl⟩

theorem Held.settled (ha : w.Accounted) {claimed : ℕ}
    {collected : Except LinkBoxError LinkBoxCollected}
    (hca : w.calls i = .settling conn id claimed collected)
    (ht : c = i → collectTaken collected = true) :
    Held (⟨boxes, { w.registry with
      rendezvous := w.registry.rendezvous.settleRendezvous conn id claimed
        (collectTaken collected) }, update w.calls i l⟩ : RendezvousWorld ι)
      c key expireTime serial := by
  obtain ⟨sub, hsb, hs, hh⟩ := h
  cases (w.registry.rendezvous.settleRendezvous_settled key conn id claimed
    (collectTaken collected)).2 with
  | same he _ ho =>
    refine ⟨sub, he.trans hsb, hs, hh.imp_left fun hc => ?_⟩
    apply claims_update hc
    rintro rfl
    rw [hca] at hc
    exact (ho hc.1 _ sub hsb (hs.trans hc.2.symm)).elim
  | settled _ _ _ hsb' _ he =>
    cases hsb.symm.trans hsb'
    refine ⟨_, he, hs, ?_⟩
    by_cases hi : c = i
    · right
      simp only [RendezvousSubscription.settle, ht hi, Bool.true_or]
    · rcases hh with hc | hk
      · exact .inl (claims_update hc fun hci => (hi hci).elim)
      · right
        simp only [RendezvousSubscription.settle, hk, Bool.or_true]
  | removed _ _ hky hsb' hcl hf hk hl =>
    exfalso
    cases hsb.symm.trans hsb'
    have hc := hh.resolve_right (by rw [hk]; exact Bool.false_ne_true)
    have hne : c ≠ i := by
      intro hi
      rw [ht hi] at hf
      cases hf
    have hcr := ha.claims key _ sub hsb {c, i} ?_
    · rw [card_pair hne, hl] at hcr
      omega
    · intro j hj
      rw [hs]
      rcases mem_insert.mp hj with rfl | hj
      · exact hc
      · rw [mem_singleton.mp hj, hca]
        exact ⟨hky, hcl.symm.trans hs⟩

end Call

/-- A held subscription stays held through every step that does not end it. -/
theorem Step.held (hst : Step arms w label w') (ha : w.Accounted)
    (h : w.Held c key expireTime serial)
    (ht : ∀ conn id claimed collected, w.calls c = .settling conn id claimed collected →
      collectTaken collected = true) :
    w'.Held c key expireTime serial ∨ w.Ending label key expireTime := by
  cases hst with
  | call i now boxes registry l had =>
    cases advance_registry had with
    | quiet hr hcm =>
      subst hr
      obtain ⟨sub, hsb, hs, hh⟩ := h
      refine .inl ⟨sub, hsb, hs, hh.imp_left fun hcl => ?_⟩
      apply claims_update hcl
      rintro rfl
      exact (hcm key serial).mpr hcl
    | subscribed conn request box t hc hr =>
      subst hr
      exact h.subscribed hc
    | notified id deposited t hc hr =>
      subst hr
      exact h.notified hc
    | settled conn id claimed collected hc hr =>
      subst hr
      left
      apply h.settled ha hc
      rintro rfl
      exact ht conn id claimed collected hc
    | ended id retired hc hr =>
      subst hr
      obtain ⟨sub, hsb, hs, hh⟩ := h
      rcases (w.registry.rendezvous.retiredRendezvous_ends key id).2 with
        ⟨he, -⟩ | ⟨_, _, -, hbx, -⟩
      · refine .inl ⟨sub, he.trans hsb, hs, hh.imp_left fun hcl => ?_⟩
        apply claims_update hcl
        rintro rfl
        rw [hc] at hcl
        exact hcl.elim
      · exact .inr (.retired i retired (by rw [hc, hbx]))
  | registry event registry hst hb =>
    obtain ⟨sub, hsb, hs, hh⟩ := h
    rcases (hst.background hb).2 key with he | ⟨-, hrf⟩
    · exact .inl ⟨sub, he.trans hsb, hs, hh⟩
    · exact .inr (.refused event rfl hrf)

variable (hs : Step arms w label w')
include hs

theorem Step.claimed (hcl : (w'.calls c).Claims key serial) : (w.calls c).Claims key serial ∨
      ∃ t, (w.calls c).HasRead key.box t ∧ w'.Held c key t serial := by
  cases hs with
  | call i now boxes registry l had =>
    by_cases hi : c = i
    · subst hi
      have hc := hcl
      dsimp only at hc
      rw [update_self] at hc
      cases advance_registry had with
      | quiet _ hq => exact .inl ((hq key serial).mp hc)
      | subscribed conn request box t hca hr hl =>
        subst hr
        obtain ⟨rfl, added, ha⟩ := hl key serial hc
        refine .inr ⟨box.expireTime, by rw [hca]; exact ⟨rfl, rfl⟩, ?_⟩
        cases w.registry.rendezvous.subscribeRendezvous_subscribed
          ⟨connectionKeyOf conn, request.rendezvousId⟩ conn request.rendezvousId
          box.expireTime t with
        | ends _ _ hn => exact (hn rfl serial added ha).elim
        | claimed sub _ _ he _ _ ha' =>
          cases ha.symm.trans ha'
          exact ⟨_, he, rfl, .inl hcl⟩
        | made _ _ he _ _ ha' =>
          cases ha.symm.trans ha'
          exact ⟨_, he, rfl, .inl hcl⟩
      | notified _ _ _ _ _ hl =>
        rw [hl] at hc
        exact hc.elim
      | settled _ _ _ _ _ _ hl =>
        rw [hl] at hc
        exact hc.elim
      | ended _ _ _ _ hl => exact (hl key serial hc).elim
    · dsimp only at hcl
      rw [update_of_ne hi] at hcl
      exact .inl hcl
  | registry => exact .inl hcl

theorem Step.written (h : (∃ answer, w.calls c = .answered answer) ∨
      ∃ conn id claimed collected, w.calls c = .settling conn id claimed collected) :
    (∃ answer, w'.calls c = .answered answer) ∨ w'.calls c = w.calls c := by
  cases hs with
  | call i now boxes registry l ha =>
    by_cases hi : c = i
    · subst hi
      left
      dsimp only
      rw [update_self]
      rcases h with ⟨answer, hc⟩ | ⟨conn, id, claimed, collected, hc⟩
      all_goals
        rw [hc] at ha
        cases ha
        exact ⟨_, rfl⟩
    · exact .inr (update_of_ne hi ..)
  | registry => exact .inr rfl

/-- What the calls know of the boxes is true of them, and the accounts are right. -/
structure Consistent (boxes : MemoryBoxes) (w : RendezvousWorld ι) : Prop where
  accounted : w.Accounted
  sound : w.boxes.Sound
  expiry : ∀ id, expiryAt w.boxes id = expiryAt boxes id
  reads : ∀ i id t, (w.calls i).HasRead id t → expiryAt boxes id = some t
  ending : ∀ i id retired, w.calls i = .ending id retired → RetiredAt w.boxes id

omit hs in
theorem advance_sound {boxes boxes' : MemoryBoxes} {registry registry' : Registry}
    {l l' : RendezvousCall} (h : arms.advance now ⟨boxes, some registry⟩ l =
      (⟨boxes', some registry'⟩, l')) (hs : boxes.Sound) : boxes'.Sound := by
  cases advance_boxes h with
  | quiet hb => rwa [hb]
  | deposited _ _ _ _ hb | collected _ _ _ _ _ _ hb | retired _ _ _ _ hb =>
    rw [hb]
    exact perform_sound arms.sha256 hs _

theorem Step.retired {id : Bytes} (h : RetiredAt w.boxes id) : RetiredAt w'.boxes id := by
  cases hs with
  | call i now boxes registry l ha => exact (advance_box ha id).2 h
  | registry => exact h

theorem Step.consistent (h : w.Consistent boxes) : w'.Consistent boxes := by
  have hac := hs.accounted h.accounted
  have hrt : ∀ id, RetiredAt w.boxes id → RetiredAt w'.boxes id := fun _ => hs.retired
  cases hs with
  | call i now boxes' registry l ha =>
    refine ⟨hac, advance_sound ha h.sound,
      fun id => (advance_box ha id).1.trans (h.expiry id), fun j id t hr => ?_,
      fun j id retired hc => ?_⟩
    · by_cases hj : j = i
      · subst hj
        dsimp only at hr
        rw [update_self] at hr
        rcases advance_read ha hr with hr | hr
        · exact h.reads j id t hr
        · rw [← h.expiry id, hr]
      · dsimp only at hr
        rw [update_of_ne hj] at hr
        exact h.reads j id t hr
    · by_cases hj : j = i
      · subst hj
        dsimp only at hc
        rw [update_self] at hc
        subst hc
        exact advance_ending ha
      · dsimp only at hc
        rw [update_of_ne hj] at hc
        exact hrt id (h.ending j id retired hc)
  | registry event registry hs hb =>
    exact ⟨hac, h.sound, h.expiry, h.reads, h.ending⟩

end RendezvousWorld

section Run

open RendezvousWorld

variable {σ : ℕ → RendezvousWorld ι} {ℓ : ℕ → RendezvousLabel ι} {n k : ℕ}

/-- A run starts with its calls arrived, on boxes and subscriptions that calls before it left. -/
structure RendezvousWorld.Started (arms : RendezvousArms) (w : RendezvousWorld ι) : Prop where
  boxes : ∃ calls, w.boxes = empty.after arms.sha256 calls
  serials : w.registry.rendezvous.SerialsBelow
  claims : ∀ key t sub, w.registry.rendezvous.entry key = some (t, sub) → 0 ≤ sub.claims
  arrived : ∀ i, ∃ r, w.calls i = .arrived r

omit [DecidableEq ι] in
theorem RendezvousWorld.Started.consistent {w : RendezvousWorld ι} (h : w.Started arms) :
    w.Consistent w.boxes := by
  have hc : ∀ i key serial, ¬ (w.calls i).Claims key serial := by
    intro i key serial
    obtain ⟨r, hr⟩ := h.arrived i
    rw [hr]
    exact False.elim
  refine ⟨⟨h.serials, fun i key serial hcm => (hc i key serial hcm).elim, ?_⟩, ?_,
    fun _ => rfl, fun i id t hrd => ?_, fun i id retired hca => ?_⟩
  · intro key t sub hs holders hh
    rw [eq_empty_iff_forall_notMem.mpr fun i hi => hc i key _ (hh i hi)]
    exact h.claims key t sub hs
  · obtain ⟨calls, hcl⟩ := h.boxes
    rw [hcl]
    exact after_sound arms.sha256 empty_sound calls
  · obtain ⟨r, hr⟩ := h.arrived i
    rw [hr] at hrd
    exact hrd.elim
  · obtain ⟨r, hr⟩ := h.arrived i
    cases hr.symm.trans hca

/-- By a point of a run, the box of a subscription is retired, a call has run past its expiry, or
a push to the subscription was refused. -/
inductive Excused (σ : ℕ → RendezvousWorld ι) (ℓ : ℕ → RendezvousLabel ι) (key : RendezvousKey)
    (expireTime : Time) (k : ℕ) : Prop
  | retired (hretired : RetiredAt (σ k).boxes key.box)
  | expired (j : ℕ) (i : ι) (t : Time) (hj : j ≤ k) (ht : ((σ j).calls i).time = some t)
      (hdue : expireTime ≤ t)
  | refused (j : ℕ) (event : Event) (hj : j < k) (hlabel : ℓ j = .registry event)
      (hrefused : (σ j).registry.Refuses key event)

theorem Excused.succ (hs : Step arms (σ k) (ℓ k) (σ (k + 1)))
    (h : Excused σ ℓ key expireTime k) : Excused σ ℓ key expireTime (k + 1) := by
  cases h with
  | retired hrt => exact .retired (hs.retired hrt)
  | expired j i t hj ht hd => exact .expired j i t (Nat.le_succ_of_le hj) ht hd
  | refused j event hj hl hr =>
    exact .refused j event (Nat.lt_succ_of_lt hj) hl hr

theorem RendezvousWorld.Ending.excused
    (h : (σ k).Ending (ℓ k) key expireTime) (hs : Step arms (σ k) (ℓ k) (σ (k + 1)))
    (hc : (σ k).Consistent boxes) (he : expiryAt boxes key.box = some expireTime) :
    Excused σ ℓ key expireTime (k + 1) := by
  cases h with
  | expired i t ht hd => exact .expired k i t (Nat.le_succ k) ht hd
  | superseded i later hrd hlt =>
    cases he.symm.trans (hc.reads i _ later hrd)
    exact (lt_irrefl _ hlt).elim
  | retired i retired hcl =>
    exact .retired (hs.retired (hc.ending i _ retired hcl))
  | refused event hl hr => exact .refused k event (Nat.lt_succ_self k) hl hr

theorem held_succ (hs : Step arms (σ k) (ℓ k) (σ (k + 1))) (hc : (σ k).Consistent boxes)
    (hex : expiryAt boxes key.box = some expireTime)
    (ht : ∀ conn id claimed collected, (σ k).calls c = .settling conn id claimed collected →
      collectTaken collected = true)
    (h : (σ k).Held c key expireTime serial ∨ Excused σ ℓ key expireTime k) :
    (σ (k + 1)).Held c key expireTime serial ∨ Excused σ ℓ key expireTime (k + 1) := by
  rcases h with hh | he
  · rcases hs.held hc.accounted hh ht with hh | hen
    · exact .inl hh
    · exact .inr (hen.excused hs hc hex)
  · exact .inr (he.succ hs)

theorem consistent_of_run (hs : (σ 0).Started arms) (hr : Path (Step arms) σ ℓ n) {k : ℕ}
    (hk : k ≤ n) : (σ k).Consistent (σ 0).boxes :=
  (hr.mono hk).invariant (Nat.zero_le k) hs.consistent fun _ _ _ hst h =>
    hst.consistent h

section Collect

variable {conn : Connection} {request : RendezvousCollectRequest} {box : LinkBox} {t : Time}
  {kw : ℕ}

theorem not_settling_of_collecting (hr : Path (Step arms) σ ℓ n) (hw : kw ≤ n)
    (hc : (σ kw).calls c = .collecting conn request box t (some serial))
    (hk : k ≤ kw) (conn' : Connection) (id : Bytes) (claimed : ℕ)
    (collected : Except LinkBoxError LinkBoxCollected) :
    (σ k).calls c ≠ .settling conn' id claimed collected := by
  intro hs
  have hwr := (hr.mono hw).invariant (P := fun w => (∃ answer, w.calls c = .answered answer) ∨
    ∃ conn id claimed collected, w.calls c = .settling conn id claimed collected) hk
    (.inr ⟨conn', id, claimed, collected, hs⟩) fun j _ _ hst h => by
      rcases hst.written h with ha | hsm
      · exact .inl ha
      · rwa [hsm]
  rcases hwr with ⟨answer, hcl⟩ | ⟨_, _, _, _, hcl⟩ <;> cases hc.symm.trans hcl

/-- Up to the write of a Collect, a subscription that it holds stands. -/
theorem held_until_write (hs : (σ 0).Started arms) (hrn : Path (Step arms) σ ℓ n)
    (hw : kw ≤ n) (hcl : (σ kw).calls c = .collecting conn request box t (some serial))
    (he : expiryAt (σ 0).boxes key.box = some expireTime) (hk : k ≤ kw)
    (hc : ((σ k).calls c).Claims key serial) :
    (σ k).Held c key expireTime serial ∨ Excused σ ℓ key expireTime k := by
  induction k with
  | zero =>
    obtain ⟨r, hr⟩ := hs.arrived c
    rw [hr] at hc
    exact hc.elim
  | succ k ih =>
    have hst := hrn k (Nat.lt_of_lt_of_le hk hw)
    have hcn := consistent_of_run hs hrn (Nat.le_of_lt (Nat.lt_of_lt_of_le hk hw))
    rcases hst.claimed hc with hc | ⟨t', hrd, hh⟩
    · apply held_succ hst hcn he _ (ih (Nat.le_of_lt hk) hc)
      intro conn id claimed collected hca
      exact (not_settling_of_collecting hrn hw hcl (Nat.le_of_lt hk) conn id claimed
        collected hca).elim
    · cases he.symm.trans (hcn.reads c _ t' hrd)
      exact .inl hh

theorem settling_of_written (hr : Path (Step arms) σ ℓ n)
    {collected : Except LinkBoxError LinkBoxCollected}
    (hs : (σ (kw + 1)).calls c = .settling conn request.rendezvousId serial collected)
    (hkw : kw < k) (hk : k ≤ n) : (∃ answer, (σ k).calls c = .answered answer) ∨
      (σ k).calls c = .settling conn request.rendezvousId serial collected := by
  apply (hr.mono hk).invariant (P := fun w => (∃ answer, w.calls c = .answered answer) ∨
    w.calls c = .settling conn request.rendezvousId serial collected) hkw (.inr hs)
  intro j _ _ hst h
  rcases hst.written (h.imp_right fun hc => ⟨_, _, _, _, hc⟩) with ha | hsm
  · exact .inl ha
  · rwa [hsm]

theorem held_from_write (hs : (σ 0).Started arms) (hr : Path (Step arms) σ ℓ n)
    {collected : LinkBoxCollected} (hw : kw < n)
    (hc : (σ kw).calls c = .collecting conn request box t (some serial))
    (hst : (σ (kw + 1)).calls c = .settling conn request.rendezvousId serial (.ok collected))
    (hok : collected.reason = .ok) (hkw : kw ≤ k) (hk : k ≤ n) :
    (σ k).Held c ⟨connectionKeyOf conn, request.rendezvousId⟩ box.expireTime serial ∨
      Excused σ ℓ ⟨connectionKeyOf conn, request.rendezvousId⟩ box.expireTime k := by
  have he : expiryAt (σ 0).boxes request.rendezvousId = some box.expireTime := by
    apply (consistent_of_run hs hr (Nat.le_of_lt hw)).reads c
    rw [hc]
    exact ⟨rfl, rfl⟩
  induction k, hkw using Nat.le_induction with
  | base =>
    apply held_until_write hs hr (Nat.le_of_lt hw) hc he (Nat.le_refl kw)
    rw [hc]
    exact ⟨rfl, rfl⟩
  | succ k hkw ih =>
    apply held_succ (hr k hk) (consistent_of_run hs hr (Nat.le_of_lt hk)) he _
      (ih (Nat.le_of_lt hk))
    intro conn' id claimed answer hcl
    rcases Nat.eq_or_lt_of_le hkw with rfl | hkw
    · cases hc.symm.trans hcl
    · rcases settling_of_written hr hst hkw (Nat.le_of_lt hk) with ⟨_, hc'⟩ | hc'
      · cases hc'.symm.trans hcl
      · cases hc'.symm.trans hcl
        exact decide_eq_true hok

end Collect

section Deposit

variable {d : ι} {row : LinkDepositRow} {m : ℕ}

/-- The write of a Collect acknowledges a deposit and takes, from one point of a run to another. -/
def Acknowledged (σ : ℕ → RendezvousWorld ι) (ℓ : ℕ → RendezvousLabel ι) (row : LinkDepositRow)
    (m n : ℕ) : Prop :=
  ∃ k, m ≤ k ∧ k < n ∧ ∃ i now conn request box t claimed, ℓ k = .call i now ∧
    (σ k).calls i = .collecting conn request box t claimed ∧
    request.rendezvousId = row.rendezvousId ∧ row.depositId ≤ request.ackThroughDepositId ∧
    LinkBoxAnswer.reason (.collected ((σ k).boxes.collectLinkBox (some ⟨request.rendezvousId,
      request.sinceDepositId, request.ackThroughDepositId, request.limit, box.collectVerifyPub⟩)
      t).2) = some .ok

omit [DecidableEq ι] in
theorem Acknowledged.succ (h : Acknowledged σ ℓ row m k) : Acknowledged σ ℓ row m (k + 1) := by
  obtain ⟨j, hm, hj, hc⟩ := h
  exact ⟨j, hm, Nat.lt_succ_of_lt hj, hc⟩

/-- A deposit stands through every step that neither acknowledges it nor retires its box. -/
theorem standing_succ (hs : Step arms (σ k) (ℓ k) (σ (k + 1))) (hsn : (σ k).boxes.Sound)
    (hm : m ≤ k) (h : row ∈ (σ k).boxes.deposits ∨ Acknowledged σ ℓ row m k ∨
      RetiredAt (σ k).boxes row.rendezvousId) :
    row ∈ (σ (k + 1)).boxes.deposits ∨ Acknowledged σ ℓ row m (k + 1) ∨
      RetiredAt (σ (k + 1)).boxes row.rendezvousId := by
  rcases h with hmm | hac | hr
  · generalize hlb : ℓ k = label at hs
    generalize hn : σ (k + 1) = w' at hs
    cases hs with
    | registry => exact .inl hmm
    | call i now boxes registry l had =>
      have he := fun call =>
        (perform_life arms.sha256 (σ k).boxes call row.rendezvousId).mem_or_ends (hsn _) rfl
          (mem_view.mpr hmm)
      cases advance_boxes had with
      | quiet hb =>
        rw [hb]
        exact .inl hmm
      | deposited request box t hl hb =>
        rw [hb]
        exact .inl (mem_view.mp ((he _).resolve_right False.elim))
      | collected conn request box t claimed hl hb =>
        rcases he (.collect (some ⟨request.rendezvousId, request.sinceDepositId,
          request.ackThroughDepositId, request.limit, box.collectVerifyPub⟩) t) with
          hmm | ⟨hid, hle, hok⟩
        · rw [hb]
          exact .inl (mem_view.mp hmm)
        · exact .inr (.inl ⟨k, hm, Nat.lt_succ_self k, i, now, conn, request, box, t, claimed,
            hlb, hl, hid, hle, hok⟩)
      | retired request box t hl hb =>
        rcases he (.retire request.rendezvousId box.collectVerifyPub t) with hmm | ⟨hid, hok⟩
        · rw [hb]
          exact .inl (mem_view.mp hmm)
        · have hok : LinkBoxAnswer.reason (.retired ((σ k).boxes.retireLinkBox
              request.rendezvousId box.collectVerifyPub t).2) = some .ok := hok
          rw [hb, ← hid]
          cases ha : ((σ k).boxes.retireLinkBox request.rendezvousId box.collectVerifyPub t).2 with
          | error =>
            rw [ha] at hok
            cases hok
          | ok answer =>
            rw [ha] at hok
            exact .inr (.inr (retireLinkBox_retired ha (Option.some.inj hok)))
  · exact .inr (.inl hac.succ)
  · exact .inr (.inr (hs.retired hr))

theorem standing_or_acknowledged (hs : (σ 0).Started arms) (hr : Path (Step arms) σ ℓ n)
    (hmm : row ∈ (σ m).boxes.deposits) (hm : m ≤ k) (hk : k ≤ n) :
    row ∈ (σ k).boxes.deposits ∨ Acknowledged σ ℓ row m k ∨
      RetiredAt (σ k).boxes row.rendezvousId := by
  induction k, hm using Nat.le_induction with
  | base => exact .inl hmm
  | succ k hm ih =>
    exact standing_succ (hr k hk) (consistent_of_run hs hr (Nat.le_of_lt hk)).sound hm
      (ih (Nat.le_of_lt hk))

end Deposit

variable {registry registry' : Registry} {boxes' : MemoryBoxes} {box : LinkBox} {now t : Time}

theorem advance_deposited {request : RendezvousDepositRequest} {l' : RendezvousCall}
    (h : arms.advance now ⟨boxes, some registry⟩ (.depositing request box t) =
      (⟨boxes', some registry'⟩, l')) :
    boxes' = (boxes.depositLinkBox arms.sha256 request.rendezvousId box.depositVerifyPub
        request.depositCt t).1 ∧ registry' = registry ∧
      ((∃ deposited, (boxes.depositLinkBox arms.sha256 request.rendezvousId box.depositVerifyPub
          request.depositCt t).2 = .ok deposited ∧ deposited.reason = .ok ∧
          deposited.replayed = false ∧ l' = .notifying request.rendezvousId deposited t) ∨
        (∀ deposited, (boxes.depositLinkBox arms.sha256 request.rendezvousId box.depositVerifyPub
          request.depositCt t).2 = .ok deposited → deposited.reason = .ok →
          deposited.replayed = true) ∧ ∃ answer, l' = .answered answer) := by
  rw [advance, deposit, Prod.mk.injEq] at h
  obtain ⟨hs, rfl⟩ := h
  cases hs
  refine ⟨rfl, rfl, ?_⟩
  cases ha : (boxes.depositLinkBox arms.sha256 request.rendezvousId box.depositVerifyPub
      request.depositCt t).2 with
  | error e =>
    refine .inr ⟨?_, _, rfl⟩
    rintro _ ⟨⟩
  | ok deposited =>
    dsimp only
    by_cases hr : deposited.reason = .ok
    · rw [if_neg (not_not.mpr hr)]
      cases hrp : deposited.replayed with
      | true =>
        refine .inr ⟨?_, _, rfl⟩
        rintro _ ⟨⟩ -
        exact hrp
      | false => exact .inl ⟨deposited, rfl, hr, hrp, rfl⟩
    · rw [if_pos hr]
      refine .inr ⟨?_, _, rfl⟩
      rintro _ ⟨⟩ hok
      exact (hr hok).elim

theorem advance_collected {conn : Connection} {request : RendezvousCollectRequest}
    {conn' : Connection} {id : Bytes} {claimed : ℕ}
    {collected : Except LinkBoxError LinkBoxCollected}
    (h : arms.advance now ⟨boxes, some registry⟩ (.collecting conn request box t (some serial)) =
      (⟨boxes', some registry'⟩, .settling conn' id claimed collected)) :
    boxes' = (boxes.collectLinkBox (some ⟨request.rendezvousId, request.sinceDepositId,
        request.ackThroughDepositId, request.limit, box.collectVerifyPub⟩) t).1 ∧
      (boxes.collectLinkBox (some ⟨request.rendezvousId, request.sinceDepositId,
        request.ackThroughDepositId, request.limit, box.collectVerifyPub⟩) t).2 = collected := by
  cases h
  exact ⟨rfl, rfl⟩

def RendezvousWorld.Owes (w : RendezvousWorld ι) (key : RendezvousKey) (serial pending : ℕ) :
    Prop :=
  w.registry.rendezvous.ready key = true ∧ ∃ t sub,
    w.registry.rendezvous.entry key = some (t, sub) ∧ sub.serial = serial ∧ sub.pending = pending

theorem RendezvousWorld.Held.owes {w w' : RendezvousWorld ι} {c d : ι}
    (hh : w.Held c key expireTime serial) {now : Time} (hst : Step arms w (.call d now) w')
    {deposited : LinkBoxDeposited} {t : Time} (hc : w.calls d = .notifying key.box deposited t) :
    w'.Owes key serial deposited.pendingCount ∨ expireTime ≤ t := by
  obtain ⟨sub, hsb, hs, -⟩ := hh
  have ha := hst.advance
  rw [hc] at ha
  have hr : some (w.registry.depositedRendezvous key.box deposited.pendingCount t) =
      some w'.registry := congrArg (·.1.subscriptions) ha
  rw [Owes, ← Option.some.inj hr]
  cases (w.registry.rendezvous.depositedRendezvous_deposited key key.box deposited.pendingCount
    t).2 with
  | ends hen ho =>
    rcases hen with ⟨he, -⟩ | ⟨_, _, hs', hd, -⟩
    · cases (ho rfl).symm.trans (he.trans hsb)
    · cases hsb.symm.trans hs'
      exact .inr hd
  | owed _ _ _ hs' he hrd =>
    cases hsb.symm.trans hs'
    exact .inl ⟨hrd, _, _, he, hs, rfl⟩

/--
A deposit that is taken is there for a subscribed Collect, or marks its subscription while that
stands.
-/
theorem collector_misses_no_deposit (hstart : (σ 0).Started arms) (hrun : Path (Step arms) σ ℓ n)
    {c d : ι} {kw kd : ℕ} (hw : kw < n) (hd : kd < n)
    {conn : Connection} {collect : RendezvousCollectRequest} {read : LinkBox}
    {collectTime : Time} {serial : ℕ} {collected : LinkBoxCollected}
    (hcollecting : (σ kw).calls c = .collecting conn collect read collectTime (some serial))
    (hsettling : (σ (kw + 1)).calls c = .settling conn collect.rendezvousId serial (.ok collected))
    (hok : collected.reason = .ok)
    {deposit : RendezvousDepositRequest} {read' : LinkBox} {depositTime : Time}
    {deposited : LinkBoxDeposited}
    (hdepositing : (σ kd).calls d = .depositing deposit read' depositTime)
    (hnotifying : (σ (kd + 1)).calls d = .notifying deposit.rendezvousId deposited depositTime)
    (hbox : deposit.rendezvousId = collect.rendezvousId) :
    (kd < kw ∧ ∃ row ∈ (σ (kd + 1)).boxes.depositsAt collect.rendezvousId,
      row.depositId = deposited.depositId ∧ row.depositHash = arms.sha256 deposit.depositCt ∧
      (Acknowledged σ ℓ row (kd + 1) kw ∨ row ∈ (σ kw).boxes.depositsAt collect.rendezvousId ∧
          (row.depositId ≤ collect.ackThroughDepositId ∨
            row ∈ (σ (kw + 1)).boxes.depositsAt collect.rendezvousId)) ∧
      collected.pendingCount = ((σ (kw + 1)).boxes.depositsAt collect.rendezvousId).length) ∨
    (kw < kd ∧ ∀ kn now, kd < kn → kn < n → ℓ kn = .call d now →
      (σ kn).calls d = .notifying deposit.rendezvousId deposited depositTime →
      (σ (kn + 1)).Owes ⟨connectionKeyOf conn, collect.rendezvousId⟩ serial
          deposited.pendingCount ∨
        Excused σ ℓ ⟨connectionKeyOf conn, collect.rendezvousId⟩ read.expireTime kn) := by
  obtain ⟨now, hc⟩ := (hrun kw hw).changed (i := c) (by
    rw [hcollecting, hsettling]
    nofun)
  obtain ⟨now', hdp⟩ := (hrun kd hd).changed (i := d) (by
    rw [hdepositing, hnotifying]
    nofun)
  rcases Nat.lt_trichotomy kd kw with hlt | rfl | hlt
  · left
    have hwr := (hdp ▸ hrun kd hd).advance
    rw [hdepositing, hnotifying] at hwr
    obtain ⟨hb, -, ⟨_, ha, hrs, -, ⟨⟩⟩ | ⟨-, _, ⟨⟩⟩⟩ := advance_deposited hwr
    obtain ⟨row, hm, hid, hds, hh⟩ := exists_of_accepted ha hrs
    rw [← hb] at hm
    rw [hbox] at hid
    have hwr := (hc ▸ hrun kw hw).advance
    rw [hcollecting, hsettling] at hwr
    obtain ⟨hb, ha⟩ := advance_collected hwr
    obtain ⟨⟨found, hf, hlv⟩, hk, hcn⟩ := collectLinkBox_ok ha hok
    rw [← hb] at hk hcn
    have hat : ∀ {s : MemoryBoxes}, row ∈ s.depositsAt collect.rendezvousId ↔ row ∈ s.deposits :=
      hid ▸ mem_view
    refine ⟨hlt, row, hat.mpr hm, hds, hh, ?_, hcn⟩
    rcases standing_or_acknowledged hstart hrun hm hlt (Nat.le_of_lt hw) with
      hm | hac | ⟨found', hf', hr⟩
    · refine .inr ⟨hat.mpr hm, ?_⟩
      by_cases hle : row.depositId ≤ collect.ackThroughDepositId
      · exact .inl hle
      · right
        rw [hk]
        exact List.mem_filter.mpr ⟨hat.mpr hm, decide_eq_true (Nat.lt_of_not_le hle)⟩
    · exact .inl hac
    · rw [hid] at hf'
      cases hf.symm.trans hf'
      rw [hlv] at hr
      cases hr
  · cases hc.symm.trans hdp
    cases hcollecting.symm.trans hdepositing
  · right
    refine ⟨hlt, fun kn now hkn hn hl hcl => ?_⟩
    rw [hbox] at hcl
    rcases held_from_write hstart hrun hw hcollecting hsettling hok
      (Nat.le_of_lt (Nat.lt_trans hlt hkn)) (Nat.le_of_lt hn) with hhl | he
    · rcases hhl.owes (hl ▸ hrun kn hn) hcl with ho | hdu
      · exact .inl ho
      · exact .inr (.expired kn d depositTime (Nat.le_refl kn) (by rw [hcl]; rfl) hdu)
    · exact .inr he

end Run

def RendezvousWorld.play (arms : RendezvousArms) (w : RendezvousWorld ι) (i : ι) (now : Time) :
    RendezvousWorld ι :=
  let next := arms.advance now ⟨w.boxes, some w.registry⟩ (w.calls i)
  { boxes := next.1.boxes
    registry := next.1.subscriptions.getD w.registry
    calls := update w.calls i next.2 }

theorem RendezvousWorld.play_step (arms : RendezvousArms) (w : RendezvousWorld ι) (i : ι)
    (now : Time) : Step arms w (.call i now) (w.play arms i now) := by
  have hs : (arms.advance now ⟨w.boxes, some w.registry⟩ (w.calls i)).1.subscriptions.isSome := by
    cases w.calls i <;> rfl
  obtain ⟨registry, hr⟩ := Option.isSome_iff_exists.mp hs
  apply Step.call
  rw [hr, Option.getD_some, ← hr]

namespace Sample

def trusting : RendezvousArms where
  linkBoxes := true
  rejectFloor := 1
  sha256 bytes := bytes.take 1
  verifyOpen _ _ _ _ := true
  verifyDeposit _ _ _ _ _ := true
  verifyCollect _ _ _ := true
  verifyRetire _ _ _ _ := true

def linkId : Bytes := List.replicate rendezvousIdBytes 0

def linkPub : Bytes := List.replicate verifyPubBytes 1

def registration : LinkBoxRegistration where
  rendezvousId := linkId
  depositVerifyPub := linkPub
  collectVerifyPub := linkPub
  publicCt := List.replicate linkCardBytes 0

def linkRow : LinkBoxRow := registeredRow registration 0 1000000

def linkBoxes : MemoryBoxes := ⟨Table.insert .empty linkRow, []⟩

theorem linkBoxes_eq : linkBoxes = empty.after trusting.sha256
    [.register (some registration) 0 1000000 1] := by
  have hv : validateLinkBoxRegistration (some registration) 1000000 1 = .ok registration :=
    validateLinkBoxRegistration_eq_ok.mpr ⟨rfl, List.length_replicate, List.length_replicate,
      List.length_replicate, List.length_replicate, by decide, by decide⟩
  have hr : empty.registerLinkBox (some registration) 0 1000000 1 =
      (linkBoxes, .ok { reason := .ok, expireTime := some 1000000 }) := by
    unfold registerLinkBox
    rw [hv]
    rfl
  rw [after, List.foldl_cons, List.foldl_nil, perform, hr]

def collector : Connection := ⟨[1], [2]⟩

def collectRequest : RendezvousCollectRequest where
  rendezvousId := linkId
  sinceDepositId := 0
  ackThroughDepositId := 0
  limit := 0
  subscribe := true
  collectAuth := []

def depositRequest (octet : UInt8) : RendezvousDepositRequest where
  rendezvousId := linkId
  depositCt := List.replicate linkDepositBytes octet
  depositAuth := []

def arrivals : Bool → RendezvousCall
  | false => .arrived ⟨collector, checksNotImplemented, .collect collectRequest⟩
  | true => .arrived ⟨⟨[3], [4]⟩, checksNotImplemented, .deposit (depositRequest 5)⟩

def collectorStates : ℕ → RendezvousWorld Bool
  | 0 => ⟨linkBoxes, .empty 8 8, arrivals⟩
  | k + 1 => (collectorStates k).play trusting (decide (3 ≤ k)) 0

def collectorLabels (k : ℕ) : RendezvousLabel Bool := .call (decide (3 ≤ k)) 0

theorem path_collector : Path (RendezvousWorld.Step trusting) collectorStates collectorLabels 6 :=
  fun k _ => RendezvousWorld.play_step trusting (collectorStates k) (decide (3 ≤ k)) 0

theorem collector_started : (collectorStates 0).Started trusting where
  boxes := ⟨_, linkBoxes_eq⟩
  serials _ _ _ h := nomatch h
  claims _ _ _ h := nomatch h
  arrived i := by cases i <;> exact ⟨_, rfl⟩

theorem collector_collecting : (collectorStates 2).calls false =
    .collecting collector collectRequest linkRow.linkBox 0 (some 0) := rfl

theorem collector_settling : ∃ collected, (collectorStates 3).calls false =
    .settling collector linkId 0 (.ok collected) ∧ collected.reason = .ok := ⟨_, rfl, rfl⟩

section Deposit

variable {registry : Registry} {row : LinkBoxRow} {octet : UInt8}

theorem check_depositRequest (conn : Connection) (hrw : boxes.boxes.find linkId = some row)
    (hlv : row.linkBox.live 0 = true) :
    trusting.check ⟨boxes, some registry⟩
        ⟨conn, checksNotImplemented, .deposit (depositRequest octet)⟩ 0 =
      .depositing (depositRequest octet) row.linkBox 0 := by
  have hsh : (RendezvousRequest.deposit (depositRequest octet)).shaped = true := by
    simp only [RendezvousRequest.shaped, depositRequest, linkId, List.length_replicate, decide_true,
      Bool.and_self]
  have hl : linkId.length = rendezvousIdBytes := List.length_replicate
  have hr : boxes.readLive linkId 0 = .ok (some row.linkBox) := by
    rw [readLive_of_find hl hrw, if_pos hlv]
  have hid : (RendezvousRequest.deposit (depositRequest octet)).rendezvousId = linkId := rfl
  have hf : frontChecks checksNotImplemented = .ok := rfl
  have hs : trusting.rendezvousServed = true := rfl
  rw [check_eq (r := ⟨conn, checksNotImplemented, .deposit (depositRequest octet)⟩) hf hs
    hsh, hid, hr]
  rfl

theorem deposit_depositRequest (hrw : boxes.boxes.find linkId = some row)
    (hl : row.linkBox.live 0 = true) (hp : row.depositVerifyPub = linkPub)
    (hnw : ∀ d ∈ boxes.depositsAt linkId, d.depositHash ≠ [octet])
    (hrm : row.nextDepositId ≤ 2) :
    trusting.deposit ⟨boxes, some registry⟩ (depositRequest octet) row.linkBox 0 =
      (⟨⟨boxes.boxes.modify linkId .take LinkBoxRow.take_rendezvousId,
          boxes.deposits ++ [row.nextDeposit [octet] (depositRequest octet).depositCt 0]⟩,
        some registry⟩,
        .notifying linkId
          { reason := .ok
            depositId := row.nextDepositId
            depositHash := some [octet]
            pendingCount := row.depositCount + 1 } 0) := by
  have hid := rendezvousId_of_find hrw
  have hv : validateLinkBoxDeposit linkId row.linkBox.depositVerifyPub
      (depositRequest octet).depositCt = .ok () := by
    rw [show row.linkBox.depositVerifyPub = linkPub from hp, validateLinkBoxDeposit]
    simp only [failIf, linkId, linkPub, depositRequest, List.length_replicate, ne_eq,
      not_true_eq_false, if_false]
    rfl
  have hf : boxes.liveLinkBox linkId (linkBoxTime 0) row.linkBox.depositVerifyPub
      (·.depositVerifyPub) = some row := by
    rw [liveLinkBox_eq_some, LinkBox.live_linkBoxTime]
    exact ⟨hrw, hl, rfl⟩
  have hh : trusting.sha256 (depositRequest octet).depositCt = [octet] := rfl
  have hn : (boxes.depositsAt linkId).find? (fun d => d.depositHash = [octet]) = none := by
    rw [List.find?_eq_none]
    intro d hd
    simpa using hnw d hd
  have hlt : ¬ linkBoxDeposits ≤ row.nextDepositId - 1 := by
    unfold linkBoxDeposits
    omega
  have hr : (depositRequest octet).rendezvousId = linkId := rfl
  rw [deposit, hr, depositLinkBox, hv]
  dsimp only
  rw [hf, hh]
  dsimp only [depositInto]
  rw [hid, hn, if_neg hlt]
  rfl

end Deposit

theorem collector_depositing : (collectorStates 4).calls true =
    .depositing (depositRequest 5) (linkRow.collect 0).linkBox 0 := by
  have hc : (collectorStates 3).calls true =
    .arrived ⟨⟨[3], [4]⟩, checksNotImplemented, .deposit (depositRequest 5)⟩ := rfl
  have hr : (collectorStates 3).boxes.boxes.find linkId = some (linkRow.collect 0) := rfl
  have ha := (path_collector 3 (by decide)).advance
  rw [show decide (3 ≤ 3) = true from rfl, hc, advance, check_depositRequest _ hr rfl] at ha
  exact (Prod.mk.inj ha).2.symm

theorem collector_notifying : (collectorStates 5).calls true = .notifying linkId
      { reason := .ok, depositId := 1, depositHash := some [5], pendingCount := 1 } 0 := by
  have hr : (collectorStates 4).boxes.boxes.find linkId = some (linkRow.collect 0) := rfl
  have ha := (path_collector 4 (by decide)).advance
  rw [show decide (3 ≤ 4) = true from rfl, collector_depositing, advance,
    deposit_depositRequest hr rfl rfl (fun _ h => (List.not_mem_nil h).elim)
    (by decide)] at ha
  exact (Prod.mk.inj ha).2.symm

end Sample

open Sample

theorem collector_misses_no_deposit_later :
    (collectorStates 6).Owes ⟨connectionKeyOf collector, linkId⟩ 0 1 ∨
      Excused collectorStates collectorLabels
        ⟨connectionKeyOf collector, linkId⟩ 1000000 5 := by
  obtain ⟨collected, hs, hok⟩ := collector_settling
  rcases collector_misses_no_deposit collector_started path_collector
    (show 2 < 6 by decide) (show 4 < 6 by decide) collector_collecting hs hok
    collector_depositing collector_notifying rfl with ⟨hlt, -⟩ | ⟨-, hn⟩
  · exact (Nat.not_lt.mpr (by decide) hlt).elim
  · exact hn 5 0 (by decide) (by decide) rfl collector_notifying

end MessageServer.Api
