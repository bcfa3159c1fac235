import MessageServer.Api.Rendezvous
import MessageServer.Store.LinkBoxHistory

/-! # One answer for every box that a caller may not use

An unknown box, a retired one, one past its expiry and one pinned under a key
that the request's signature does not verify under are answered alike, and
nothing is written.
-/

namespace MessageServer.Api

open Store Sample RendezvousArms MemoryBoxes
open Protocol

variable {boxes : MemoryBoxes} {arms : RendezvousArms} {server : RendezvousServer} {id : Bytes}
  {now : Time}

/-- The answer of an arm that has nothing to say of a box. -/
def cardRetired : RendezvousAnswer := { reason := .cardRetired }

/-- The box at the id of a request is unknown, retired, past its expiry, or not its signer's. -/
inductive Barred (arms : RendezvousArms) (boxes : MemoryBoxes) (r : Incoming RendezvousRequest)
    (now : Time) : Prop
  | unknown (hrow : boxes.boxes.find r.body.rendezvousId = none)
  | retired (row : LinkBoxRow) (hrow : boxes.boxes.find r.body.rendezvousId = some row)
      (hretired : row.retiredTime.isSome)
  | expired (row : LinkBoxRow) (hrow : boxes.boxes.find r.body.rendezvousId = some row)
      (hexpired : row.expireTime ≤ now)
  | unverified (row : LinkBoxRow) (hrow : boxes.boxes.find r.body.rendezvousId = some row)
      (hverify : arms.verify (r.body.pinned row.linkBox) r.conn.serverNonce r.body = false)

variable {row : LinkBoxRow}

theorem not_live_of_expired (hs : row.Shaped) (he : row.expireTime ≤ now) :
    row.linkBox.live now = false := by
  have hle : row.linkBox.expireTime ≤ linkBoxTime now := by
    rw [show row.linkBox.expireTime = linkBoxTime row.expireTime from hs.expireTime.symm]
    exact linkBoxTime_mono he
  rw [LinkBox.live, decide_eq_false (Int.not_lt.mpr hle), Bool.and_false]

theorem not_live_of_retired (hr : row.retiredTime.isSome) : row.linkBox.live now = false := by
  have hn : row.linkBox.retiredTime.isNone = false := Option.isNone_eq_false_iff.mpr hr
  rw [LinkBox.live, hn, Bool.false_and]

section Read

variable (hid : id.length = rendezvousIdBytes)
include hid

theorem readLive_of_find (hr : boxes.boxes.find id = some row) :
    boxes.readLive id now = .ok (if row.linkBox.live now then some row.linkBox else none) := by
  unfold readLive linkBox
  rw [failIf, if_neg (not_not.mpr hid), hr]
  by_cases hl : row.linkBox.live now = true
  · simp [hl]
  · simp [hl]

theorem readLive_of_none (hr : boxes.boxes.find id = none) : boxes.readLive id now = .ok none := by
  unfold readLive linkBox
  rw [failIf, if_neg (not_not.mpr hid), hr]
  rfl

end Read

theorem shaped_rendezvousId {request : RendezvousRequest} (h : request.shaped = true) :
    request.rendezvousId.length = rendezvousIdBytes := by
  cases request <;> simp [RendezvousRequest.shaped] at h <;> first | exact h | exact h.1

variable {r : Incoming RendezvousRequest}

theorem check_eq (hf : frontChecks r.front = .ok) (hs : arms.rendezvousServed = true)
    (hsh : r.body.shaped = true) :
    arms.check server r now = match server.boxes.readLive r.body.rendezvousId now with
      | .error e => .answered { reason := .internal, error := some e }
      | .ok none => .answered cardRetired
      | .ok (some box) =>
        if !arms.verify (r.body.pinned box) r.conn.serverNonce r.body then .answered cardRetired
        else verified server.subscriptions.isSome r.conn box now r.body := by
  rw [check, if_neg (not_not.mpr hf), if_neg (by simp [hs]), if_neg (by simp [hsh])]
  rfl

theorem check_barred (hs : server.boxes.Shaped) (hf : frontChecks r.front = .ok)
    (hsr : arms.rendezvousServed = true) (hsh : r.body.shaped = true)
    (hb : Barred arms server.boxes r now) :
    arms.check server r now = .answered cardRetired := by
  have hid := shaped_rendezvousId hsh
  rw [check_eq hf hsr hsh]
  cases hb with
  | unknown hrw => rw [readLive_of_none hid hrw]
  | retired row hrw hr =>
    rw [readLive_of_find hid hrw, not_live_of_retired hr]
    rfl
  | expired row hrw he =>
    rw [readLive_of_find hid hrw, not_live_of_expired (hs _ row hrw) he]
    rfl
  | unverified row hrw hv =>
    rw [readLive_of_find hid hrw]
    by_cases hl : row.linkBox.live now = true
    · rw [if_pos hl]
      dsimp only
      rw [hv]
      rfl
    · rw [if_neg hl]

section Replaced

variable {pub : Bytes}

/-- The row at an id is pinned under another key than one that was verified. -/
def Replaced (boxes : MemoryBoxes) (id pub : Bytes) (pinned : LinkBox → Bytes) : Prop :=
  ∃ row, boxes.boxes.find id = some row ∧ pinned row.linkBox ≠ pub

theorem liveLinkBox_of_replaced {pinned : LinkBox → Bytes} (h : Replaced boxes id pub pinned)
    (t : Time) : boxes.liveLinkBox id t pub (fun row => pinned row.linkBox) = none := by
  obtain ⟨row, hr, ho⟩ := h
  rw [liveLinkBox, hr, Option.filter_some_neg]
  simp [ho]

theorem depositLinkBox_replaced {sha256 : Bytes → Bytes} {ct : Bytes}
    (h : Replaced boxes id pub (·.depositVerifyPub)) (hid : id.length = rendezvousIdBytes)
    (hp : pub.length = verifyPubBytes) (hct : ct.length = linkDepositBytes) :
    boxes.depositLinkBox sha256 id pub ct now = (boxes, .ok { reason := .cardRetired }) := by
  have hv : validateLinkBoxDeposit id pub ct = .ok () := by
    simp [validateLinkBoxDeposit, failIf, hid, hp, hct]
  have hn := liveLinkBox_of_replaced h (linkBoxTime now)
  rw [depositLinkBox, hv]
  dsimp only
  rw [show boxes.liveLinkBox id (linkBoxTime now) pub (·.depositVerifyPub) = none from hn]

theorem validateLinkBoxAct_ok (hid : id.length = rendezvousIdBytes)
    (hp : pub.length = verifyPubBytes) : validateLinkBoxAct id pub = .ok () := by
  simp [validateLinkBoxAct, failIf, hid, hp]

theorem collectLinkBox_replaced {request : LinkBoxCollectRequest}
    (h : Replaced boxes request.rendezvousId request.verifiedPub (·.collectVerifyPub))
    (hid : request.rendezvousId.length = rendezvousIdBytes)
    (hp : request.verifiedPub.length = verifyPubBytes) :
    boxes.collectLinkBox (some request) now = (boxes, .ok { reason := .cardRetired }) := by
  have hn := liveLinkBox_of_replaced h (linkBoxTime now)
  rw [collectLinkBox]
  rw [validateLinkBoxAct_ok hid hp]
  rw [show boxes.liveLinkBox request.rendezvousId (linkBoxTime now) request.verifiedPub
    (·.collectVerifyPub) = none from hn]

theorem retireLinkBox_replaced (h : Replaced boxes id pub (·.collectVerifyPub))
    (hid : id.length = rendezvousIdBytes) (hp : pub.length = verifyPubBytes) :
    boxes.retireLinkBox id pub now = (boxes, .ok { reason := .cardRetired }) := by
  have hn := liveLinkBox_of_replaced h (linkBoxTime now)
  rw [retireLinkBox, validateLinkBoxAct_ok hid hp]
  dsimp only
  rw [show boxes.liveLinkBox id (linkBoxTime now) pub (·.collectVerifyPub) = none from hn]

theorem check_verified {call : RendezvousCall} (hf : frontChecks r.front = .ok)
    (hsr : arms.rendezvousServed = true) (hs : r.body.shaped = true)
    (hc : arms.check server r now = call) (hcl : ∀ answer, call ≠ .answered answer) :
    ∃ row, server.boxes.boxes.find r.body.rendezvousId = some row ∧
      call = verified server.subscriptions.isSome r.conn row.linkBox now r.body := by
  have hid := shaped_rendezvousId hs
  rw [check_eq hf hsr hs] at hc
  cases hr : server.boxes.boxes.find r.body.rendezvousId with
  | none =>
    rw [readLive_of_none hid hr] at hc
    exact (hcl _ hc.symm).elim
  | some row =>
    refine ⟨row, rfl, ?_⟩
    rw [readLive_of_find hid hr] at hc
    by_cases hl : row.linkBox.live now = true
    · rw [if_pos hl] at hc
      dsimp only at hc
      split at hc
      · exact (hcl _ hc.symm).elim
      · exact hc.symm
    · rw [if_neg hl] at hc
      exact (hcl _ hc.symm).elim

end Replaced

section Verified

variable {subscribes : Bool} {conn conn' : Connection} {box box' : LinkBox} {t : Time}
  {body : RendezvousRequest}

theorem body_of_depositing {request : RendezvousDepositRequest}
    (h : verified subscribes conn box now body = .depositing request box' t) :
    body = .deposit request ∧ box' = box := by
  cases body with
  | deposit =>
    cases h
    exact ⟨rfl, rfl⟩
  | collect =>
    simp only [verified] at h
    split at h <;> cases h
  | openBox | retire => cases h

theorem body_of_retiring {request : RendezvousRetireRequest}
    (h : verified subscribes conn box now body = .retiring request box' t) :
    body = .retire request ∧ box' = box := by
  cases body with
  | retire =>
    cases h
    exact ⟨rfl, rfl⟩
  | collect =>
    simp only [verified] at h
    split at h <;> cases h
  | openBox | deposit => cases h

theorem body_of_collecting {request : RendezvousCollectRequest}
    (h : verified subscribes conn box now body = .collecting conn' request box' t none ∨
      verified subscribes conn box now body = .subscribing conn' request box' t) :
    body = .collect request ∧ box' = box := by
  cases body with
  | collect =>
    simp only [verified] at h
    rcases h with h | h <;> split at h <;> cases h <;> exact ⟨rfl, rfl⟩
  | openBox | deposit | retire => rcases h with h | h <;> cases h

end Verified

/-- Where a collect goes on after a write that found nothing for it. -/
def collectRefused (conn : Connection) (id : Bytes) : Option ℕ → RendezvousCall
  | none => .answered cardRetired
  | some claimed => .settling conn id claimed (.ok { reason := .cardRetired })

/--
Every request that may not use its box is answered alike and changes nothing, also where another row
took the place of the one it verified under.
-/
theorem barred_boxes_answered_alike (arms : RendezvousArms) (calls : List LinkBoxCall)
    (server : RendezvousServer)
    (hreached : server.boxes = empty.after arms.sha256 calls)
    (r : Incoming RendezvousRequest) (now : Time) (hfront : frontChecks r.front = .ok)
    (hserved : arms.rendezvousServed = true) (hshaped : r.body.shaped = true) :
    (Barred arms server.boxes r now →
      arms.advance now server (.arrived r) = (server, .answered cardRetired)) ∧
    (∀ request box t, arms.check server r now = .depositing request box t → ∀ server' clock,
        Replaced server'.boxes request.rendezvousId box.depositVerifyPub (·.depositVerifyPub) →
        arms.advance clock server' (.depositing request box t) = (server', .answered cardRetired)) ∧
    (∀ request box t, arms.check server r now = .retiring request box t → ∀ server' clock,
        Replaced server'.boxes request.rendezvousId box.collectVerifyPub (·.collectVerifyPub) →
        arms.advance clock server' (.retiring request box t) = (server', .answered cardRetired)) ∧
    ∀ conn request box t, arms.check server r now = .collecting conn request box t none ∨
        arms.check server r now = .subscribing conn request box t →
      ∀ server' clock claimed,
        Replaced server'.boxes request.rendezvousId box.collectVerifyPub (·.collectVerifyPub) →
        arms.advance clock server' (.collecting conn request box t claimed) =
          (server', collectRefused conn request.rendezvousId claimed) ∧
        ∀ server'' clock' claimed', (arms.advance clock' server''
          (.settling conn request.rendezvousId claimed' (.ok { reason := .cardRetired }))).2 =
            .answered cardRetired := by
  have hs : server.boxes.Shaped := by
    rw [hreached]
    exact after_shaped empty_shaped calls
  have hid := shaped_rendezvousId hshaped
  have hrd : ∀ call, arms.check server r now = call → (∀ answer, call ≠ .answered answer) →
      ∃ row : LinkBoxRow, row.Shaped ∧
        verified server.subscriptions.isSome r.conn row.linkBox now r.body =
          call := by
    intro call hc hcl
    obtain ⟨row, hrw, hcl⟩ := check_verified hfront hserved hshaped hc hcl
    exact ⟨row, hs _ row hrw, hcl.symm⟩
  refine ⟨fun hbr => ?_, ?_, ?_, ?_⟩
  · rw [advance, check_barred hs hfront hserved hshaped hbr]
  · intro request box t hc server' clock hr
    obtain ⟨row, hrw, hcl⟩ := hrd _ hc nofun
    obtain ⟨hb, rfl⟩ := body_of_depositing hcl
    rw [hb] at hid hshaped
    have hct : request.depositCt.length = linkDepositBytes := by
      rw [RendezvousRequest.shaped, Bool.and_eq_true, decide_eq_true_eq,
        decide_eq_true_eq] at hshaped
      exact hshaped.2
    simp only [advance, deposit, depositLinkBox_replaced hr hid hrw.depositVerifyPub hct]
    rfl
  · intro request box t hc server' clock hr
    obtain ⟨row, hrw, hcl⟩ := hrd _ hc nofun
    obtain ⟨hb, rfl⟩ := body_of_retiring hcl
    rw [hb] at hid
    simp only [advance, retire, retireLinkBox_replaced hr hid hrw.collectVerifyPub]
    rfl
  · intro conn request box t hc server' clock claimed hr
    refine ⟨?_, fun _ _ _ => rfl⟩
    obtain ⟨row, hrw, hb, rfl⟩ : ∃ row : LinkBoxRow, row.Shaped ∧
        r.body = .collect request ∧ box = row.linkBox := by
      rcases hc with hc | hc
      · obtain ⟨row, hrw, hcl⟩ := hrd _ hc nofun
        exact ⟨row, hrw, body_of_collecting (.inl hcl)⟩
      · obtain ⟨row, hrw, hcl⟩ := hrd _ hc nofun
        exact ⟨row, hrw, body_of_collecting (.inr hcl)⟩
    rw [hb] at hid
    have hw : server'.boxes.collectLinkBox (some ⟨request.rendezvousId, request.sinceDepositId,
        request.ackThroughDepositId, request.limit, row.linkBox.collectVerifyPub⟩) t =
        (server'.boxes, .ok { reason := .cardRetired }) :=
      collectLinkBox_replaced hr hid hrw.collectVerifyPub
    simp only [advance, collect, hw]
    cases claimed <;> rfl

namespace Sample

/-- Deposits verify, and nothing else does. -/
def depositsOnly : RendezvousArms where
  linkBoxes := true
  rejectFloor := 1
  sha256 bytes := bytes
  verifyOpen _ _ _ _ := false
  verifyDeposit _ _ _ _ _ := true
  verifyCollect _ _ _ := false
  verifyRetire _ _ _ _ := false

def card (pub : UInt8) : LinkBoxRegistration where
  rendezvousId := List.replicate rendezvousIdBytes 0
  depositVerifyPub := List.replicate verifyPubBytes pub
  collectVerifyPub := List.replicate verifyPubBytes pub
  publicCt := List.replicate linkCardBytes 0

def registering (pub : UInt8) : List LinkBoxCall := [.register (some (card pub)) 0 1000000 1]

def serving (pub : UInt8) : RendezvousServer :=
  ⟨empty.after depositsOnly.sha256 (registering pub), none⟩

def rowOf (pub : UInt8) : LinkBoxRow := registeredRow (card pub) 0 1000000

theorem serving_row (pub : UInt8) :
    (serving pub).boxes.boxes.find (card 0).rendezvousId = some (rowOf pub) := by
  have hv : validateLinkBoxRegistration (some (card pub)) 1000000 1 = .ok (card pub) :=
    validateLinkBoxRegistration_eq_ok.mpr ⟨rfl, List.length_replicate, List.length_replicate,
      List.length_replicate, List.length_replicate, by decide, by decide⟩
  rw [serving, registering, after, List.foldl_cons, List.foldl_nil, perform, registerLinkBox, hv]
  exact (Table.find_insert rfl _).trans (if_pos rfl)

def guess : Incoming RendezvousRequest :=
  ⟨⟨[1], [2]⟩, checksNotImplemented, .openBox ⟨(card 0).rendezvousId, []⟩⟩

def deposited : RendezvousDepositRequest :=
  ⟨(card 0).rendezvousId, List.replicate linkDepositBytes 0, []⟩

def depositing : Incoming RendezvousRequest :=
  ⟨⟨[1], [2]⟩, checksNotImplemented, .deposit deposited⟩

theorem shaped_depositing : depositing.body.shaped = true := by
  simp [RendezvousRequest.shaped, depositing, deposited, card]

theorem check_depositing : depositsOnly.check (serving 0) depositing 5 =
    .depositing deposited (rowOf 0).linkBox 5 := by
  have hr : (serving 0).boxes.readLive (card 0).rendezvousId 5 = _ :=
    readLive_of_find List.length_replicate (serving_row 0)
  rw [check_eq (r := depositing) rfl (by decide) shaped_depositing,
    show depositing.body.rendezvousId = (card 0).rendezvousId from rfl, hr]
  rfl

end Sample

/--
A box that stands and does not verify the request, one that has expired, and one that another took
the place of once the deposit had been verified.
-/
theorem barred_boxes_answered_alike_standing :
    depositsOnly.advance 5 (serving 0) (.arrived guess) = (serving 0, .answered cardRetired) ∧
    depositsOnly.advance 1000000 (serving 0) (.arrived guess) = (serving 0, .answered cardRetired) ∧
    depositsOnly.advance 6 (serving 1) (.depositing deposited (rowOf 0).linkBox 5) =
      (serving 1, .answered cardRetired) := by
  have hr : (serving 0).boxes = empty.after depositsOnly.sha256 (registering 0) := by
    rw [serving]
  have hb := fun now => (barred_boxes_answered_alike depositsOnly (registering 0) (serving 0) hr
    guess now rfl (by decide) (by decide)).1
  have hd := (barred_boxes_answered_alike depositsOnly (registering 0) (serving 0) hr
    depositing 5 rfl (by decide) shaped_depositing).2.1
  refine ⟨hb 5 (.unverified _ (serving_row 0) rfl), hb 1000000 (.expired _ (serving_row 0) ?_),
    hd deposited (rowOf 0).linkBox 5 check_depositing _ 6 ⟨rowOf 1, serving_row 1, ?_⟩⟩
  · exact Int.le_refl _
  · decide

end MessageServer.Api
