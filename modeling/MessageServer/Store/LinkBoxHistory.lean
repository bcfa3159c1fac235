import Mathlib.Data.List.Induction
import MessageServer.Store.LinkBoxLife

/-! # Histories of link boxes

What every sequence of calls on the link boxes keeps: sound counters, the keys,
the card and the expiry of a standing box, every accepted deposit until it is
acknowledged, retired or swept, and, under a clock that does not run backwards,
the cap on live boxes.
-/

namespace MessageServer.Store

open MemoryBoxes

variable {sha256 : Bytes → Bytes} {s : MemoryBoxes} {id : Bytes}

def LinkBoxRow.pins (row : LinkBoxRow) : Bytes × Bytes × Bytes × Time :=
  (row.depositVerifyPub, row.collectVerifyPub, row.publicCt, row.expireTime)

variable {answer : LinkBoxAnswer} {call : LinkBoxCall} {row' : LinkBoxRow} {v v' : BoxView}
  {row : LinkBoxRow} {calls : List LinkBoxCall}

theorem Life.pins (h : Life sha256 id call answer v v') (hr : v.row = some row)
    (hr' : v'.row = some row') : row'.pins = row.pins := by
  cases h with
  | idle => cases hr.symm.trans hr'; rfl
  | registered => cases hr
  | refused | taken | collected | retired => cases hr; cases hr'; rfl
  | pruned => cases hr; cases hr'; rfl
  | reclaimed => cases hr'

variable {now : Time} {box : LinkBox}

theorem readLive_eq_some (h : s.readLive id now = .ok (some box)) :
    ∃ row, s.boxes.find id = some row ∧ box = row.linkBox := by
  unfold readLive at h
  split at h
  · cases h
  · cases h
  next read hr =>
    split at h
    · cases h
      simp only [linkBox, bind_eq_ok, failIf_eq_ok] at hr
      obtain ⟨-, hr⟩ := hr
      cases hrw : s.boxes.find id with
      | none =>
        rw [hrw] at hr
        cases hr
      | some row =>
        rw [hrw] at hr
        cases hr
        exact ⟨row, rfl, rfl⟩
    · cases h

/-- What a registration has checked of a row: the lengths of its keys, and an expiry in whole
microseconds. -/
structure LinkBoxRow.Shaped (row : LinkBoxRow) : Prop where
  depositVerifyPub : row.depositVerifyPub.length = verifyPubBytes
  collectVerifyPub : row.collectVerifyPub.length = verifyPubBytes
  expireTime : linkBoxTime row.expireTime = row.expireTime

theorem LinkBoxRow.Shaped.of_pins (h : row.Shaped) (hp : row'.pins = row.pins) : row'.Shaped := by
  simp only [pins, Prod.mk.injEq] at hp
  obtain ⟨hd, hc, -, he⟩ := hp
  exact ⟨by rw [hd, h.1], by rw [hc, h.2], by rw [he, h.3]⟩

def MemoryBoxes.Shaped (s : MemoryBoxes) : Prop :=
  ∀ id row, s.boxes.find id = some row → row.Shaped

theorem registerLinkBox_shaped (hs : s.Shaped) (registration : Option LinkBoxRegistration)
    (now : Time) (ttl : ℤ) (liveCap : ℕ) :
    (s.registerLinkBox registration now ttl liveCap).1.Shaped := by
  unfold registerLinkBox
  split
  · exact hs
  next r hr =>
    obtain ⟨-, -, hd, hc, -⟩ := validateLinkBoxRegistration_eq_ok.mp hr
    dsimp only
    split
    · exact hs
    next hf =>
      split
      · exact hs
      · intro id row hrw
        rw [Table.find_insert (show s.boxes.find (registeredRow r _ _).rendezvousId = none
          from hf)] at hrw
        split at hrw
        · cases hrw
          exact ⟨hd, hc, linkBoxTime_idem _⟩
        · exact hs id row hrw

theorem perform_shaped (hs : s.Shaped) (call : LinkBoxCall) : (s.perform sha256 call).1.Shaped := by
  by_cases hr : ∃ registration now ttl liveCap, call = .register registration now ttl liveCap
  · obtain ⟨registration, now, ttl, liveCap, rfl⟩ := hr
    exact registerLinkBox_shaped hs registration now ttl liveCap
  · intro id row hrw
    have hl := perform_life sha256 s call id
    cases ho : s.boxes.find id with
    | some old => exact (hs id old ho).of_pins (hl.pins ho hrw)
    | none =>
      exfalso
      generalize hv : s.view id = v at hl
      generalize hv' : (s.perform sha256 call).1.view id = v' at hl
      have hn : v.row = none := by rw [← hv, view, ho]
      have hsm : v'.row = some row := by rw [← hv', view, hrw]
      cases hl with
      | idle =>
        rw [hn] at hsm
        cases hsm
      | registered => exact hr ⟨_, _, _, _, rfl⟩
      | refused | taken | collected | retired => cases hn
      | pruned =>
        obtain rfl : _ = none := hn
        cases hsm
      | reclaimed => cases hsm

theorem after_shaped (hs : s.Shaped) (calls : List LinkBoxCall) :
    (s.after sha256 calls).Shaped := by
  induction calls generalizing s with
  | nil => exact hs
  | cons call calls ih => exact ih (perform_shaped hs call)

theorem empty_shaped : empty.Shaped := fun _ _ h => nomatch h

/-- A call of one of the arms that write to a standing box. -/
def LinkBoxCall.Acts : LinkBoxCall → Prop
  | .deposit .. | .collect .. | .retire .. => True
  | _ => False

theorem Life.acts (h : Life sha256 id call answer v v') (ha : call.Acts) :
    v'.row.map (·.expireTime) = v.row.map (·.expireTime) ∧
      ((∃ row, v.row = some row ∧ row.retiredTime.isSome) →
        ∃ row, v'.row = some row ∧ row.retiredTime.isSome) := by
  cases h with
  | idle => exact ⟨rfl, fun hr => hr⟩
  | registered | pruned | reclaimed => exact ha.elim
  | retired => exact ⟨rfl, fun _ => ⟨_, rfl, rfl⟩⟩
  | refused row | taken row | collected row =>
    refine ⟨rfl, ?_⟩
    rintro ⟨_, ⟨⟩, hr⟩
    exact ⟨_, rfl, hr⟩

def LinkBoxCall.On (id : Bytes) : LinkBoxCall → Prop
  | .deposit rendezvousId _ _ _ | .retire rendezvousId _ _ => rendezvousId = id
  | .collect (some request) _ => request.rendezvousId = id
  | _ => False

theorem Life.other (h : Life sha256 id call answer v v') (ha : call.Acts) (ho : ¬ call.On id) :
    v' = v := by
  cases h with
  | idle => rfl
  | registered | pruned | reclaimed => exact ha.elim
  | refused | taken | retired => exact (ho rfl).elim
  | collected row ds hid => exact (ho hid).elim

theorem depositLinkBox_counted (hs : s.Sound) (pub ct : Bytes) (now : Time) :
    (∃ answer, (s.depositLinkBox sha256 id pub ct now).2 = .ok answer ∧ answer.reason = .ok ∧
      answer.replayed = false ∧
      answer.pendingCount = ((s.depositLinkBox sha256 id pub ct now).1.depositsAt id).length ∧
      answer.pendingCount = (s.depositsAt id).length + 1) ∨
    (∀ answer, (s.depositLinkBox sha256 id pub ct now).2 = .ok answer → answer.reason = .ok →
      answer.replayed = true) ∧
      (s.depositLinkBox sha256 id pub ct now).1.depositsAt id = s.depositsAt id := by
  unfold depositLinkBox
  split
  · exact .inr ⟨fun _ h => (nomatch h), rfl⟩
  · dsimp only
    split
    · refine .inr ⟨?_, rfl⟩
      rintro answer ⟨⟩ ⟨⟩
    next row hr =>
      obtain ⟨hf, -, -⟩ := liveLinkBox_eq_some.mp hr
      obtain rfl := rendezvousId_of_find hf
      unfold depositInto
      split
      · refine .inr ⟨?_, rfl⟩
        rintro answer ⟨⟩ -
        rfl
      · split
        · refine .inr ⟨?_, rfl⟩
          rintro answer ⟨⟩ ⟨⟩
        · have hc : row.depositCount = (s.depositsAt row.rendezvousId).length := by
            have hv := hs row.rendezvousId
            rw [BoxView.Sound, view, hf] at hv
            exact hv.count
          refine .inl ⟨_, rfl, rfl, rfl, ?_, congrArg (· + 1) hc⟩
          simp [depositsAt, List.filter_append, LinkBoxRow.nextDeposit, hc]

theorem collectLinkBox_ok {request : LinkBoxCollectRequest} {collected : LinkBoxCollected}
    (h : (s.collectLinkBox (some request) now).2 = .ok collected) (hok : collected.reason = .ok) :
    (∃ row, s.boxes.find request.rendezvousId = some row ∧ row.retiredTime = none) ∧
      (s.collectLinkBox (some request) now).1.depositsAt request.rendezvousId =
        (s.depositsAt request.rendezvousId).filter (request.ackThroughDepositId < ·.depositId) ∧
      collected.pendingCount = ((s.collectLinkBox (some request) now).1.depositsAt
        request.rendezvousId).length := by
  revert h
  unfold collectLinkBox
  dsimp only
  split
  · rintro ⟨⟩
  · split
    · rintro ⟨⟩
      cases hok
    next row hr =>
      obtain ⟨hf, hl, -⟩ := liveLinkBox_eq_some.mp hr
      have hid := rendezvousId_of_find hf
      simp only [LinkBox.live, Bool.and_eq_true, Option.isNone_iff_eq_none] at hl
      have hk : (s.collectFrom row request).1.depositsAt request.rendezvousId =
          (s.depositsAt request.rendezvousId).filter
            (request.ackThroughDepositId < ·.depositId) := by
        rw [← hid]
        exact filter_kept
      rintro ⟨⟩
      refine ⟨⟨row, hf, hl.1⟩, hk, ?_⟩
      rw [hk, ← hid]
      rfl

theorem retireLinkBox_retired {pub : Bytes} {answer : LinkBoxRetired}
    (h : (s.retireLinkBox id pub now).2 = .ok answer) (hok : answer.reason = .ok) :
    ∃ row, (s.retireLinkBox id pub now).1.boxes.find id = some row ∧ row.retiredTime.isSome := by
  revert h
  unfold retireLinkBox
  split
  · rintro ⟨⟩
  · dsimp only
    split
    · rintro ⟨⟩
      cases hok
    next row hr =>
      obtain ⟨hf, -, -⟩ := liveLinkBox_eq_some.mp hr
      obtain rfl := rendezvousId_of_find hf
      intro _
      refine ⟨row.retire (linkBoxTime now), ?_, rfl⟩
      rw [retireBox, Table.find_modify, if_pos rfl, hf]
      rfl

/-- A call that deletes a deposit, with the answer it gave. -/
def LinkBoxCall.Ends (d : LinkDepositRow) : LinkBoxCall → LinkBoxAnswer → Prop
  | .collect (some request) _, answer => request.rendezvousId = d.rendezvousId ∧
      d.depositId ≤ request.ackThroughDepositId ∧ answer.reason = some .ok
  | .retire rendezvousId _ _, answer =>
      rendezvousId = d.rendezvousId ∧ answer.reason = some .ok
  | .sweep now _, _ => d.pruneAfter ≤ linkBoxTime now
  | _, _ => False

variable {d : LinkDepositRow}

theorem Life.mem_or_ends (h : Life sha256 id call answer v v') (hv : v.Sound)
    (hid : d.rendezvousId = id) (hd : d ∈ v.deposits) : d ∈ v'.deposits ∨ call.Ends d answer := by
  cases h with
  | idle | registered | refused => exact .inl hd
  | taken => exact .inl (List.mem_append_left _ hd)
  | @collected request now _ row ds hrq hr =>
    by_cases ha : request.ackThroughDepositId < d.depositId
    · exact .inl (List.mem_filter.mpr ⟨hd, by simpa using ha⟩)
    · exact .inr ⟨hrq.trans hid.symm, Nat.le_of_not_lt ha, hr⟩
  | retired row ds hr => exact .inr ⟨hid.symm, hr⟩
  | @pruned now _ _ row ds ds' hs hk =>
    by_cases hdu : linkBoxTime now < d.pruneAfter
    · have hm : d ∈ ds.filter (linkBoxTime now < ·.pruneAfter) :=
        List.mem_filter.mpr ⟨hd, by simpa using hdu⟩
      rw [← hk] at hm
      exact .inl (List.mem_of_mem_filter hm)
    · exact .inr (Int.not_lt.mp hdu)
  | reclaimed row ds hdu =>
    have hv : RowSound row ds := hv
    rw [hv.reclaim, ← hv.prune d hd] at hdu
    exact .inr hdu

theorem mem_view : d ∈ (s.view d.rendezvousId).deposits ↔ d ∈ s.deposits := by
  simp [view, depositsAt]

theorem exists_of_accepted {rendezvousId pub ct : Bytes} {answer : LinkBoxDeposited}
    (h : (s.depositLinkBox sha256 rendezvousId pub ct now).2 = .ok answer)
    (hok : answer.reason = .ok) :
    ∃ d ∈ (s.depositLinkBox sha256 rendezvousId pub ct now).1.deposits,
      d.rendezvousId = rendezvousId ∧ d.depositId = answer.depositId ∧
      d.depositHash = sha256 ct := by
  revert h
  unfold depositLinkBox
  split
  · rintro ⟨⟩
  · dsimp only
    split
    · rintro ⟨⟩
      cases hok
    next row hr =>
      obtain ⟨hf, -, -⟩ := liveLinkBox_eq_some.mp hr
      obtain rfl := rendezvousId_of_find hf
      unfold depositInto
      split
      next d hd =>
        rintro ⟨⟩
        have hm := List.mem_filter.mp (List.mem_of_find?_eq_some hd)
        exact ⟨d, hm.1, by simpa using hm.2, rfl, by simpa using List.find?_some hd⟩
      · split
        · rintro ⟨⟩
          cases hok
        · rintro ⟨⟩
          exact ⟨_, List.mem_append_right _ List.mem_cons_self, rfl, rfl, rfl⟩

variable {t : Time} {t' : Time}

theorem Life.live (h : Life sha256 id call answer v v') (hr' : v'.row = some row')
    (hl : row'.linkBox.live t = true) :
    (∃ row, v.row = some row ∧ row.linkBox.live t = true) ∨
      ∃ registration now ttl liveCap, call = .register registration now ttl liveCap := by
  cases h with
  | idle => exact .inl ⟨row', hr', hl⟩
  | registered => exact .inr ⟨_, _, _, _, rfl⟩
  | refused row | taken row | collected row =>
    cases hr'
    exact .inl ⟨row, rfl, hl⟩
  | retired row =>
    cases hr'
    cases hl
  | pruned row =>
    obtain ⟨row, rfl, rfl⟩ := Option.map_eq_some_iff.mp hr'
    exact .inl ⟨row, rfl, hl⟩
  | reclaimed => cases hr'

def LinkBoxCall.time : LinkBoxCall → Option Time
  | .register _ now _ _ | .deposit _ _ _ now | .collect _ now | .retire _ _ now | .live now
  | .sweep now _ => some now
  | .linkBox _ => none

end MessageServer.Store
