import Mathlib.Data.Finset.Card
import MessageServer.Api.Rendezvous
import MessageServer.Api.Wakeups
import MessageServer.Store.LinkBoxHistory

/-! # Interleaved rendezvous calls

Calls on the rendezvous arms run step by step over one store of link boxes and
one registry, with the delivery goroutine and the group half of the registry
beside them. A call that has claimed a subscription and not settled it yet holds
it.
-/

namespace MessageServer.Api

open Runs Store Function Protocol Finset RendezvousArms

namespace RendezvousCall

def Claims (key : RendezvousKey) (serial : ℕ) : RendezvousCall → Prop
  | .collecting conn request _ _ (some claimed) =>
    key = ⟨connectionKeyOf conn, request.rendezvousId⟩ ∧ claimed = serial
  | .settling conn rendezvousId claimed _ =>
    key = ⟨connectionKeyOf conn, rendezvousId⟩ ∧ claimed = serial
  | _ => False

def time : RendezvousCall → Option Time
  | .depositing _ _ now | .notifying _ _ now | .subscribing _ _ _ now | .collecting _ _ _ now _
  | .retiring _ _ now => some now
  | .arrived _ | .settling .. | .ending .. | .answered _ => none

def HasRead (id : Bytes) (expireTime : Time) : RendezvousCall → Prop
  | .depositing request box _ => request.rendezvousId = id ∧ box.expireTime = expireTime
  | .subscribing _ request box _ | .collecting _ request box _ _ =>
    request.rendezvousId = id ∧ box.expireTime = expireTime
  | .retiring request box _ => request.rendezvousId = id ∧ box.expireTime = expireTime
  | _ => False

end RendezvousCall

def Event.Background : Event → Prop
  | .subscribeRendezvous .. | .settleRendezvous .. | .depositedRendezvous ..
  | .retiredRendezvous .. => False
  | _ => True

/-- The shared state with the local state of every call. -/
structure RendezvousWorld (ι : Type*) where
  boxes : MemoryBoxes
  registry : Registry
  calls : ι → RendezvousCall

/-- Who takes a step: a call, with what the clock says, or the rest of the registry. -/
inductive RendezvousLabel (ι : Type*)
  | call (i : ι) (now : Time)
  | registry (event : Event)

variable {ι : Type*} [DecidableEq ι]

namespace RendezvousWorld

inductive Step (arms : RendezvousArms) :
    RendezvousWorld ι → RendezvousLabel ι → RendezvousWorld ι → Prop
  | call (w : RendezvousWorld ι) (i : ι) (now : Time) (boxes : MemoryBoxes) (registry : Registry)
      (l : RendezvousCall)
      (hadvance : arms.advance now ⟨w.boxes, some w.registry⟩ (w.calls i) =
        (⟨boxes, some registry⟩, l)) :
      Step arms w (.call i now) ⟨boxes, registry, update w.calls i l⟩
  | registry (w : RendezvousWorld ι) (event : Event) (registry : Registry)
      (hstep : Registry.Step w.registry event registry) (hbackground : event.Background) :
      Step arms w (.registry event) { w with registry := registry }

end RendezvousWorld

section Advance

variable {arms : RendezvousArms} {now : Time} {boxes boxes' : MemoryBoxes}
  {registry registry' : Registry} {l l' : RendezvousCall}

inductive RegistryEffect (registry : Registry) (l : RendezvousCall) (registry' : Registry)
    (l' : RendezvousCall) : Prop
  | quiet (hregistry : registry' = registry)
      (hclaims : ∀ key serial, l'.Claims key serial ↔ l.Claims key serial)
  | subscribed (conn : Connection) (request : RendezvousCollectRequest) (box : LinkBox)
      (t : Time) (hl : l = .subscribing conn request box t)
      (hregistry : registry' = { registry with
        rendezvous := (registry.rendezvous.subscribeRendezvous conn request.rendezvousId
          box.expireTime t).1 })
      (hclaims : ∀ key serial, l'.Claims key serial →
        key = ⟨connectionKeyOf conn, request.rendezvousId⟩ ∧
          ∃ added, (registry.rendezvous.subscribeRendezvous conn request.rendezvousId
            box.expireTime t).2 = .ok (some serial, added))
  | notified (id : Bytes) (deposited : LinkBoxDeposited) (t : Time)
      (hl : l = .notifying id deposited t)
      (hregistry : registry' = registry.depositedRendezvous id deposited.pendingCount t)
      (hl' : l' = .answered (depositedAnswer deposited))
  | settled (conn : Connection) (id : Bytes) (claimed : ℕ)
      (collected : Except LinkBoxError LinkBoxCollected)
      (hl : l = .settling conn id claimed collected)
      (hregistry : registry' = { registry with
        rendezvous := registry.rendezvous.settleRendezvous conn id claimed
          (collectTaken collected) })
      (hl' : l' = .answered (collectedAnswer collected))
  | ended (id : Bytes) (retired : LinkBoxRetired) (hl : l = .ending id retired)
      (hregistry : registry' = { registry with
        rendezvous := registry.rendezvous.retiredRendezvous id })
      (hclaims : ∀ key serial, ¬ l'.Claims key serial)

variable {r : Incoming RendezvousRequest} {server : RendezvousServer}

theorem not_claims_check
    {key : RendezvousKey} {serial : ℕ} : ¬ (arms.check server r now).Claims key serial := by
  unfold check
  repeat' split
  all_goals first
    | exact id
    | unfold verified
      repeat' split
      all_goals exact id

theorem advance_registry (h : arms.advance now ⟨boxes, some registry⟩ l =
    (⟨boxes', some registry'⟩, l')) : RegistryEffect registry l registry' l' := by
  cases l with
  | arrived r =>
    cases h
    exact .quiet rfl fun _ _ => ⟨fun hc => (not_claims_check hc).elim, False.elim⟩
  | depositing request box t =>
    cases h
    refine .quiet rfl fun key serial => ⟨?_, False.elim⟩
    repeat' split
    all_goals exact False.elim
  | notifying rendezvousId deposited t =>
    cases h
    exact .notified rendezvousId deposited t rfl rfl rfl
  | subscribing conn request box t =>
    cases h
    refine .subscribed conn request box t rfl rfl fun key serial => ?_
    split
    · exact False.elim
    next claimed added ha =>
      cases claimed with
      | none => exact False.elim
      | some claimed =>
        rintro ⟨hk, rfl⟩
        exact ⟨hk, added, ha⟩
  | collecting conn request box t claimed =>
    cases h
    refine .quiet rfl fun key serial => ?_
    cases claimed with
    | none => exact .rfl
    | some claimed => exact .rfl
  | settling conn rendezvousId claimed collected =>
    cases h
    exact .settled conn rendezvousId claimed collected rfl rfl rfl
  | retiring request box t =>
    cases h
    refine .quiet rfl fun key serial => ⟨?_, False.elim⟩
    repeat' split
    all_goals exact False.elim
  | ending rendezvousId retired =>
    cases h
    exact .ended rendezvousId retired rfl rfl fun _ _ => False.elim
  | answered answer =>
    cases h
    exact .quiet rfl fun _ _ => .rfl

/-- What a step of a call does to the boxes: nothing, or one call of the store. -/
inductive BoxesEffect (arms : RendezvousArms) (boxes : MemoryBoxes) (l : RendezvousCall)
    (boxes' : MemoryBoxes) (l' : RendezvousCall) : Prop
  | quiet (hboxes : boxes' = boxes) (hending : ∀ id retired, l' ≠ .ending id retired)
  | deposited (request : RendezvousDepositRequest) (box : LinkBox) (t : Time)
      (hl : l = .depositing request box t)
      (hboxes : boxes' = (boxes.perform arms.sha256 (.deposit request.rendezvousId
        box.depositVerifyPub request.depositCt t)).1)
      (hending : ∀ id retired, l' ≠ .ending id retired)
  | collected (conn : Connection) (request : RendezvousCollectRequest) (box : LinkBox)
      (t : Time) (claimed : Option ℕ) (hl : l = .collecting conn request box t claimed)
      (hboxes : boxes' = (boxes.perform arms.sha256 (.collect (some ⟨request.rendezvousId,
        request.sinceDepositId, request.ackThroughDepositId, request.limit,
        box.collectVerifyPub⟩) t)).1)
      (hending : ∀ id retired, l' ≠ .ending id retired)
  | retired (request : RendezvousRetireRequest) (box : LinkBox) (t : Time)
      (hl : l = .retiring request box t)
      (hboxes : boxes' = (boxes.perform arms.sha256 (.retire request.rendezvousId
        box.collectVerifyPub t)).1)
      (hending : ∀ id retired, l' = .ending id retired → id = request.rendezvousId ∧
        (boxes.retireLinkBox request.rendezvousId box.collectVerifyPub t).2 = .ok retired ∧
        retired.reason = .ok)

variable {id : Bytes} {retired : LinkBoxRetired}

theorem check_ne_ending : arms.check server r now ≠ .ending id retired := by
  unfold check
  repeat' split
  all_goals first
    | exact RendezvousCall.noConfusion
    | unfold verified
      repeat' split
      all_goals nofun

variable (h : arms.advance now ⟨boxes, some registry⟩ l = (⟨boxes', some registry'⟩, l'))
include h

theorem advance_boxes : BoxesEffect arms boxes l boxes' l' := by
  cases l with
  | arrived r =>
    cases h
    exact .quiet rfl fun _ _ => check_ne_ending
  | depositing request box t =>
    cases h
    refine .deposited request box t rfl rfl fun id retired => ?_
    repeat' split
    all_goals nofun
  | subscribing conn request box t =>
    cases h
    refine .quiet rfl fun id retired => ?_
    repeat' split
    all_goals nofun
  | collecting conn request box t claimed =>
    cases h
    refine .collected conn request box t claimed rfl rfl fun id retired => ?_
    split <;> nofun
  | retiring request box t =>
    cases h
    refine .retired request box t rfl rfl fun id retired => ?_
    repeat' split
    · nofun
    · nofun
    next hr =>
      rintro ⟨⟩
      exact ⟨rfl, by assumption, not_not.mp hr⟩
  | notifying | settling | ending | answered =>
    cases h
    exact .quiet rfl nofun

def expiryAt (boxes : MemoryBoxes) (id : Bytes) : Option Time :=
  (boxes.boxes.find id).map (·.expireTime)

def RetiredAt (boxes : MemoryBoxes) (id : Bytes) : Prop :=
  ∃ row, boxes.boxes.find id = some row ∧ row.retiredTime.isSome

variable {expireTime : Time}

omit h in
theorem check_reads (h : (arms.check server r now).HasRead id expireTime) :
    expiryAt server.boxes id = some expireTime := by
  unfold check at h
  split at h
  · exact h.elim
  split at h
  · exact h.elim
  split at h
  · exact h.elim
  split at h
  · exact h.elim
  · exact h.elim
  next box hr =>
    split at h
    · exact h.elim
    obtain ⟨row, hrw, rfl⟩ := readLive_eq_some hr
    have hf : expiryAt server.boxes r.body.rendezvousId = some row.linkBox.expireTime := by
      rw [expiryAt, hrw]
      rfl
    cases hb : r.body with
    | openBox request =>
      rw [hb] at h
      exact h.elim
    | collect request =>
      rw [hb] at h hf
      simp only [verified] at h
      split at h
      all_goals
        obtain ⟨rfl, rfl⟩ := h
        exact hf
    | deposit request | retire request =>
      rw [hb] at h hf
      obtain ⟨rfl, rfl⟩ := h
      exact hf

theorem advance_read (hr : l'.HasRead id expireTime) :
    l.HasRead id expireTime ∨ expiryAt boxes id = some expireTime := by
  cases l with
  | arrived r =>
    cases h
    exact .inr (check_reads hr)
  | subscribing conn request box t =>
    cases h
    split at hr
    · exact hr.elim
    · exact .inl hr
  | depositing request box t =>
    cases h
    repeat' split at hr
    all_goals exact hr.elim
  | collecting conn request box t claimed =>
    cases h
    split at hr <;> exact hr.elim
  | retiring request box t =>
    cases h
    repeat' split at hr
    all_goals exact hr.elim
  | notifying | settling | ending | answered =>
    cases h
    exact hr.elim

theorem advance_box (id : Bytes) :
    expiryAt boxes' id = expiryAt boxes id ∧ (RetiredAt boxes id → RetiredAt boxes' id) := by
  cases advance_boxes h with
  | quiet hb =>
    rw [hb]
    exact ⟨rfl, fun hr => hr⟩
  | deposited _ _ _ _ hb | collected _ _ _ _ _ _ hb | retired _ _ _ _ hb =>
    rw [hb]
    exact (perform_life arms.sha256 boxes _ id).acts trivial

omit h

theorem advance_ending (h : arms.advance now ⟨boxes, some registry⟩ l =
      (⟨boxes', some registry'⟩, .ending id retired)) : RetiredAt boxes' id := by
  cases advance_boxes h with
  | quiet _ he | deposited _ _ _ _ _ he | collected _ _ _ _ _ _ _ he =>
    exact (he id retired rfl).elim
  | retired request box t _ hb he =>
    obtain ⟨rfl, ha, hok⟩ := he id retired rfl
    rw [hb]
    exact retireLinkBox_retired ha hok

end Advance

def Registry.Refuses (s : Registry) (key : RendezvousKey) (event : Event) : Prop :=
  ∃ push pusher delivered, s.delivery = .rendezvousPush push pusher ∧ push.key = key ∧
    event = .deliver delivered ∧ (pusher && delivered) = false

theorem Registry.Step.background {s s' : Registry} {event : Event} (hs : Registry.Step s event s')
    (hb : event.Background) :
    s'.rendezvous.nextSerial = s.rendezvous.nextSerial ∧
      ∀ key, s'.rendezvous.entry key = s.rendezvous.entry key ∨
        s'.rendezvous.entry key = none ∧ s.Refuses key event := by
  cases hs with
  | subscribeRendezvous | settleRendezvous | depositedRendezvous | retiredRendezvous =>
    exact hb.elim
  | rendezvousPushed delivered push pusher hat =>
    obtain ⟨next, pushed, dropped, heq, he⟩ :=
      s.settleRendezvousPush_spec push (pusher && delivered)
    rw [heq]
    refine ⟨(he push.key).1, fun key => ?_⟩
    rcases (he key).2 with ⟨hen, -⟩ | ⟨t, sub, -, ⟨hk, hd⟩, hn, -⟩
    · exact .inl hen
    · exact .inr ⟨hn, push, pusher, delivered, hat, hk.symm, rfl, hd⟩
  | subscribe | unsubscribe | woke | quiet | setPusher | close | signal | stop | wake
  | takeRendezvous | rendezvousDone | takeGroup | groupsDone | groupPushed =>
    exact ⟨rfl, fun _ => .inl rfl⟩

namespace RendezvousWorld

variable {arms : RendezvousArms} {w w' : RendezvousWorld ι} {label : RendezvousLabel ι}

/-- A subscription has at least as many claims as holders, and their serial was given out. -/
structure Accounted (w : RendezvousWorld ι) : Prop where
  serials : w.registry.rendezvous.SerialsBelow
  given : ∀ i key serial, (w.calls i).Claims key serial → serial < w.registry.rendezvous.nextSerial
  claims : ∀ key t sub, w.registry.rendezvous.entry key = some (t, sub) → ∀ holders : Finset ι,
    (∀ i ∈ holders, (w.calls i).Claims key sub.serial) → (holders.card : ℤ) ≤ sub.claims

omit [DecidableEq ι] in
theorem Accounted.of_le (h : w.Accounted)
    (hs : w'.registry.rendezvous.nextSerial = w.registry.rendezvous.nextSerial)
    (he : ∀ key t sub', w'.registry.rendezvous.entry key = some (t, sub') →
      ∃ sub, w.registry.rendezvous.entry key = some (t, sub) ∧ sub.serial = sub'.serial ∧
        sub.claims = sub'.claims)
    (hc : ∀ i key serial, (w'.calls i).Claims key serial → (w.calls i).Claims key serial) :
    w'.Accounted where
  serials key t sub' hs' := by
    obtain ⟨sub, hsb, heq, -⟩ := he key t sub' hs'
    rw [hs, ← heq]
    exact h.serials key t sub hsb
  given i key serial hcl := by
    rw [hs]
    exact h.given i key serial (hc i key serial hcl)
  claims key t sub' hs' holders hh := by
    obtain ⟨sub, hsb, heq, hcn⟩ := he key t sub' hs'
    rw [← hcn]
    apply h.claims key t sub hsb
    intro i hi
    rw [heq]
    exact hc i key _ (hh i hi)

section Call

variable {i : ι} {boxes : MemoryBoxes} {registry : Registry} {l : RendezvousCall}
  {conn : Connection} {id : Bytes}

theorem claims_of_update (hl : ∀ key serial, ¬ l.Claims key serial) {j : ι} {key : RendezvousKey}
    {serial : ℕ} (h : (update w.calls i l j).Claims key serial) :
    j ≠ i ∧ (w.calls j).Claims key serial := by
  by_cases hj : j = i
  · subst hj
    rw [update_self] at h
    exact (hl key serial h).elim
  · rw [update_of_ne hj] at h
    exact ⟨hj, h⟩

theorem Accounted.settled (h : w.Accounted) {claimed : ℕ} {taken : Bool}
    {collected : Except LinkBoxError LinkBoxCollected}
    (hcl : w.calls i = .settling conn id claimed collected)
    (hl : ∀ key serial, ¬ l.Claims key serial) :
    Accounted (⟨boxes, { w.registry with
      rendezvous := w.registry.rendezvous.settleRendezvous conn id claimed taken },
      update w.calls i l⟩ : RendezvousWorld ι) where
  serials := h.serials.settle conn id claimed taken
  given j key serial hc := by
    rw [(w.registry.rendezvous.settleRendezvous_settled key conn id claimed taken).1]
    exact h.given j key serial (claims_of_update hl hc).2
  claims key t sub' hs' holders hh := by
    have hb := fun j hj => claims_of_update hl (hh j hj)
    cases (w.registry.rendezvous.settleRendezvous_settled key conn id claimed taken).2 with
    | same he =>
      exact h.claims key t sub' (he ▸ hs') holders fun j hj => (hb j hj).2
    | settled t' sub hk hsb hs he =>
      cases hs'.symm.trans he
      have hi : i ∉ holders := fun hi => (hb i hi).1 rfl
      have ha := h.claims key t sub hsb (insert i holders) ?_
      · rw [card_insert_of_notMem hi] at ha
        simp only [RendezvousSubscription.settle]
        omega
      · intro j hj
        rcases mem_insert.mp hj with rfl | hj
        · rw [hcl]
          exact ⟨hk, hs.symm⟩
        · exact (hb j hj).2
    | removed _ _ _ _ _ _ _ _ hn =>
      rw [hn] at hs'
      cases hs'

theorem Accounted.subscribed (h : w.Accounted) {expireTime t : Time}
    (hcl : ∀ key serial, ¬ (w.calls i).Claims key serial)
    (hl : ∀ key serial, l.Claims key serial → key = ⟨connectionKeyOf conn, id⟩ ∧
      ∃ added, (w.registry.rendezvous.subscribeRendezvous conn id expireTime t).2 =
        .ok (some serial, added)) :
    Accounted (⟨boxes, { w.registry with
      rendezvous := (w.registry.rendezvous.subscribeRendezvous conn id expireTime t).1 },
      update w.calls i l⟩ : RendezvousWorld ι) := by
  have hsp := fun key =>
    w.registry.rendezvous.subscribeRendezvous_subscribed key conn id expireTime t
  have ho : ∀ {j key serial}, (update w.calls i l j).Claims key serial → j ≠ i →
      (w.calls j).Claims key serial := by
    intro j key serial hc hj
    rwa [update_of_ne hj] at hc
  have how : ∀ {key serial}, (update w.calls i l i).Claims key serial →
      key = ⟨connectionKeyOf conn, id⟩ ∧
        ∃ added, (w.registry.rendezvous.subscribeRendezvous conn id expireTime t).2 =
          .ok (some serial, added) := by
    intro key serial hc
    rw [update_self] at hc
    exact hl key serial hc
  refine ⟨h.serials.subscribe conn id expireTime t, fun j key serial hc => ?_,
    fun key t' sub' hs' holders hh => ?_⟩
  · by_cases hj : j = i
    · subst hj
      obtain ⟨hk, added, ha⟩ := how hc
      cases hsp key with
      | ends _ _ hn => exact (hn hk serial added ha).elim
      | claimed sub _ hsb _ _ hs ha' =>
        cases ha.symm.trans ha'
        exact Nat.lt_of_lt_of_le (h.serials key _ sub hsb) hs.le
      | made _ _ _ _ hs ha' =>
        cases ha.symm.trans ha'
        exact hs ▸ Nat.lt_succ_self _
    · exact Nat.lt_of_lt_of_le (h.given j key serial (ho hc hj)) (hsp key).serial_le
  · have hb : ∀ j ∈ holders.erase i, (w.calls j).Claims key sub'.serial := by
      intro j hj
      obtain ⟨hne, hm⟩ := mem_erase.mp hj
      exact ho (hh j hm) hne
    have hcr : (holders.card : ℤ) ≤ (holders.erase i).card + 1 := by
      have hp : holders.card - 1 ≤ (holders.erase i).card := pred_card_le_card_erase
      omega
    cases hsp key with
    | ends hen _ hn =>
      have hi : i ∉ holders := by
        intro hi
        obtain ⟨hk, added, ha⟩ := how (hh i hi)
        exact hn hk _ added ha
      rw [erase_eq_of_notMem hi] at hb
      exact h.claims key t' sub' (hen.entry_le hs') holders hb
    | claimed sub _ hsb he =>
      cases hs'.symm.trans he
      have hal := h.claims key _ sub hsb _ hb
      simp only [RendezvousSubscription.claim]
      omega
    | made _ _ he =>
      cases hs'.symm.trans he
      have hem : holders.erase i = ∅ := by
        rw [eq_empty_iff_forall_notMem]
        intro j hj
        exact (h.given j key _ (hb j hj)).ne rfl
      rw [hem, card_empty] at hcr
      exact hcr

end Call

/-- The accounts stay right through every step. -/
theorem Step.accounted (hst : Step arms w label w') (h : w.Accounted) : w'.Accounted := by
  cases hst with
  | call i now boxes registry l ha =>
    cases advance_registry ha with
    | quiet hr hcl =>
      subst hr
      refine h.of_le rfl (fun key t sub hsb => ⟨sub, hsb, rfl, rfl⟩) fun j key serial hc => ?_
      dsimp only at hc
      by_cases hj : j = i
      · subst hj
        rw [update_self] at hc
        exact (hcl key serial).mp hc
      · rwa [update_of_ne hj] at hc
    | subscribed conn request box t hca hr hcl =>
      subst hr
      exact h.subscribed (fun _ _ => by rw [hca]; exact False.elim) hcl
    | notified id deposited t hca hr hl =>
      subst hr hl
      have hs := fun key => w.registry.rendezvous.depositedRendezvous_deposited key id
        deposited.pendingCount t
      refine h.of_le (hs ⟨[], []⟩).1 (fun key t' sub' hs' => ?_) fun j key serial hc =>
          (claims_of_update (l := .answered _) (fun _ _ => False.elim) hc).2
      cases (hs key).2 with
      | ends hen => exact ⟨sub', hen.entry_le hs', rfl, rfl⟩
      | owed _ sub _ hsb he =>
        cases hs'.symm.trans he
        exact ⟨sub, hsb, rfl, rfl⟩
    | settled conn id claimed collected hca hr hl =>
      subst hr hl
      exact h.settled hca fun _ _ => False.elim
    | ended id retired hca hr hcl =>
      subst hr
      have hs := fun key => w.registry.rendezvous.retiredRendezvous_ends key id
      refine h.of_le (hs ⟨[], []⟩).1 (fun key t' sub' hs' => ?_)
        fun j key serial hc => (claims_of_update hcl hc).2
      exact ⟨sub', (hs key).2.entry_le hs', rfl, rfl⟩
  | registry event registry hst hb =>
    obtain ⟨hsr, he⟩ := hst.background hb
    refine h.of_le hsr (fun key t sub' hs' => ?_) fun _ _ _ hc => hc
    rcases he key with heq | ⟨hn, -⟩
    · exact ⟨sub', heq ▸ hs', rfl, rfl⟩
    · rw [hn] at hs'
      cases hs'

end RendezvousWorld

end MessageServer.Api
