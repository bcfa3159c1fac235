import MessageServer.Store.LinkBoxes

/-! # The life of a link box

Seen at one rendezvous id, the link boxes are a row, if one stands there, and
the deposits under it. Every call moves each such view by one step of a box's
life.
-/

namespace MessageServer.Store

structure BoxView where
  row : Option LinkBoxRow
  deposits : List LinkDepositRow

def MemoryBoxes.view (s : MemoryBoxes) (id : Bytes) : BoxView := ⟨s.boxes.find id, s.depositsAt id⟩

/-- The reason an answer carries; a read carries none, and a sweep needs none. -/
def LinkBoxAnswer.reason : LinkBoxAnswer → Option Reason
  | .registered (.ok answer) => some answer.reason
  | .deposited (.ok answer) => some answer.reason
  | .collected (.ok answer) => some answer.reason
  | .retired (.ok answer) => some answer.reason
  | _ => none

/-- One step in the life of the box at an id, by a call and its answer. -/
inductive Life (sha256 : Bytes → Bytes) (id : Bytes) :
    LinkBoxCall → LinkBoxAnswer → BoxView → BoxView → Prop
  | idle {call answer} (v : BoxView) : Life sha256 id call answer v v
  | registered {registration now ttl liveCap answer} (ds : List LinkDepositRow)
      (hid : registration.rendezvousId = id) :
      Life sha256 id (.register (some registration) now ttl liveCap) answer ⟨none, ds⟩
        ⟨some (MemoryBoxes.registeredRow registration (linkBoxTime now)
          (linkBoxTime (linkBoxTime now + ttl))), ds⟩
  | refused {pub ct now answer} (row : LinkBoxRow) (ds : List LinkDepositRow)
      (hreason : answer.reason = some .cardRateLimited) :
      Life sha256 id (.deposit id pub ct now) answer ⟨some row, ds⟩ ⟨some row.refuse, ds⟩
  | taken {pub ct now answer} (row : LinkBoxRow) (ds : List LinkDepositRow)
      (hid : row.rendezvousId = id) (hlive : row.linkBox.live now = true)
      (hnew : ∀ d ∈ ds, d.depositHash ≠ sha256 ct) (hroom : row.nextDepositId ≤ 2) :
      Life sha256 id (.deposit id pub ct now) answer ⟨some row, ds⟩
        ⟨some row.take, ds ++ [row.nextDeposit (sha256 ct) ct (linkBoxTime now)]⟩
  | collected {request now answer} (row : LinkBoxRow) (ds : List LinkDepositRow)
      (hid : request.rendezvousId = id) (hreason : answer.reason = some .ok) :
      Life sha256 id (.collect (some request) now) answer ⟨some row, ds⟩
        ⟨some (row.collect (ds.filter (request.ackThroughDepositId < ·.depositId)).length),
          ds.filter (request.ackThroughDepositId < ·.depositId)⟩
  | retired {pub now answer} (row : LinkBoxRow) (ds : List LinkDepositRow)
      (hreason : answer.reason = some .ok) :
      Life sha256 id (.retire id pub now) answer ⟨some row, ds⟩
        ⟨some (row.retire (linkBoxTime now)), []⟩
  | pruned {now bounds answer} (row : Option LinkBoxRow) (ds ds' : List LinkDepositRow)
      (hsub : ds'.Sublist ds)
      (hkeep : ds'.filter (linkBoxTime now < ·.pruneAfter) =
        ds.filter (linkBoxTime now < ·.pruneAfter)) :
      Life sha256 id (.sweep now bounds) answer ⟨row, ds⟩
        ⟨row.map fun row => { row with depositCount := ds'.length }, ds'⟩
  | reclaimed {now bounds answer} (row : LinkBoxRow) (ds : List LinkDepositRow)
      (hdue : row.reclaimAfter ≤ linkBoxTime now) :
      Life sha256 id (.sweep now bounds) answer ⟨some row, ds⟩ ⟨none, []⟩

theorem linkBoxTime_idem (now : Time) : linkBoxTime (linkBoxTime now) = linkBoxTime now := by
  have h : ∀ n : ℤ, n - n % 1000 - (n - n % 1000) % 1000 = n - n % 1000 := by omega
  exact h now

theorem linkBoxTime_le (now : Time) : linkBoxTime now ≤ now := by
  have h : ∀ n : ℤ, n - n % 1000 ≤ n := by omega
  exact h now

theorem linkBoxTime_mono {t t' : Time} (h : t ≤ t') : linkBoxTime t ≤ linkBoxTime t' := by
  have hm : ∀ m n : ℤ, m ≤ n → m - m % 1000 ≤ n - n % 1000 := by omega
  exact hm t t' h

@[simp] theorem LinkBox.live_linkBoxTime (box : LinkBox) (now : Time) :
    box.live (linkBoxTime now) = box.live now := by
  simp [live, linkBoxTime_idem]

variable {sha256 : Bytes → Bytes} {s : MemoryBoxes} {id : Bytes} {row : LinkBoxRow}

namespace MemoryBoxes

theorem liveLinkBox_eq_some {now : Time} {pub : Bytes} {pinned : LinkBoxRow → Bytes} :
    s.liveLinkBox id now pub pinned = some row ↔
      s.boxes.find id = some row ∧ row.linkBox.live now = true ∧ pinned row = pub := by
  simp [liveLinkBox, Option.filter_eq_some_iff]

theorem rendezvousId_of_find (h : s.boxes.find id = some row) :
    row.rendezvousId = id := (Table.find_eq_some.mp h).2

theorem filter_taken_of_ne {hash ct : Bytes} {now : Time} (hid : id ≠ row.rendezvousId) :
    (s.deposits ++ [row.nextDeposit hash ct now]).filter (·.rendezvousId = id) =
      s.depositsAt id := by
  simp [depositsAt, List.filter_append, LinkBoxRow.nextDeposit, hid.symm]

theorem filter_filter_of {p : LinkDepositRow → Bool} (hp : ∀ d, d.rendezvousId = id → p d) :
    (s.deposits.filter p).filter (·.rendezvousId = id) = s.depositsAt id := by
  simp only [depositsAt, List.filter_filter]
  refine List.filter_congr fun d _ => ?_
  by_cases hd : d.rendezvousId = id <;> simp [hd, hp d]

theorem filter_kept_of_ne {ack : ℕ} (hid : id ≠ row.rendezvousId) :
    (s.deposits.filter fun d => d.rendezvousId ≠ row.rendezvousId ∨ ack < d.depositId).filter
      (·.rendezvousId = id) = s.depositsAt id :=
  filter_filter_of fun d hd => by simp [hd, hid]

theorem filter_kept {ack : ℕ} :
    (s.deposits.filter fun d => d.rendezvousId ≠ row.rendezvousId ∨ ack < d.depositId).filter
      (·.rendezvousId = row.rendezvousId) =
        (s.depositsAt row.rendezvousId).filter (ack < ·.depositId) := by
  simp only [depositsAt, List.filter_filter]
  refine List.filter_congr fun d _ => ?_
  by_cases hd : d.rendezvousId = row.rendezvousId <;> simp [hd]

theorem filter_discarded_of_ne (hid : id ≠ row.rendezvousId) :
    (s.deposits.filter fun d => d.rendezvousId ≠ row.rendezvousId).filter
      (·.rendezvousId = id) = s.depositsAt id :=
  filter_filter_of fun d hd => by simp [hd, hid]

theorem view_modify {f : LinkBoxRow → LinkBoxRow}
    {hf : ∀ r, (f r).rendezvousId = r.rendezvousId} {deposits : List LinkDepositRow}
    (hr : s.boxes.find row.rendezvousId = some row) (ho : ∀ id, id ≠ row.rendezvousId →
      deposits.filter (·.rendezvousId = id) = s.depositsAt id) (id : Bytes) :
    (MemoryBoxes.mk (s.boxes.modify row.rendezvousId f hf) deposits).view id =
      if id = row.rendezvousId then ⟨some (f row), deposits.filter (·.rendezvousId = id)⟩
      else s.view id := by
  by_cases hid : id = row.rendezvousId
  · subst hid
    simp [view, depositsAt, Table.find_modify, hr]
  · simp [view, depositsAt, Table.find_modify, hid, ho id hid]

end MemoryBoxes

open MemoryBoxes

theorem validateLinkBoxRegistration_eq_ok {registration : Option LinkBoxRegistration} {ttl : ℤ}
    {liveCap : ℕ} {r : LinkBoxRegistration} :
    validateLinkBoxRegistration registration ttl liveCap = .ok r ↔
      registration = some r ∧ r.rendezvousId.length = rendezvousIdBytes ∧
      r.depositVerifyPub.length = verifyPubBytes ∧ r.collectVerifyPub.length = verifyPubBytes ∧
      r.publicCt.length = linkCardBytes ∧ 0 < ttl ∧ liveCap ≠ 0 := by
  cases registration with
  | none => simp [validateLinkBoxRegistration]
  | some r' =>
    simp only [validateLinkBoxRegistration, bind_eq_ok, failIf_eq_ok, not_not, Int.not_le,
      Option.some.injEq]
    constructor
    · rintro ⟨hid, hd, hc, hcr, ht, hcp, ⟨⟩⟩
      exact ⟨rfl, hid, hd, hc, hcr, ht, hcp⟩
    · rintro ⟨rfl, hid, hd, hc, hcr, ht, hcp⟩
      exact ⟨hid, hd, hc, hcr, ht, hcp, rfl⟩

theorem registerLinkBox_life (registration : Option LinkBoxRegistration) (now : Time) (ttl : ℤ)
    (liveCap : ℕ) (answer : LinkBoxAnswer) (id : Bytes) :
    Life sha256 id (.register registration now ttl liveCap) answer (s.view id)
      ((s.registerLinkBox registration now ttl liveCap).1.view id) := by
  unfold registerLinkBox
  split
  · exact .idle _
  next r hr =>
    have hrg := (validateLinkBoxRegistration_eq_ok.mp hr).1
    dsimp only
    split
    · exact .idle _
    next hf =>
      split
      · exact .idle _
      · subst hrg
        have hv : ∀ row : LinkBoxRow, row.rendezvousId = r.rendezvousId →
            ({ s with boxes := s.boxes.insert row } : MemoryBoxes).view id =
              if id = r.rendezvousId then ⟨some row, s.depositsAt id⟩ else s.view id := by
          intro row hrw
          have hn : s.boxes.find row.rendezvousId = none := by rw [hrw, hf]
          by_cases hid : id = r.rendezvousId
          · simp [view, depositsAt, Table.find_insert hn, hid, hrw]
          · simp [view, depositsAt, Table.find_insert hn, hid, hrw]
        rw [hv _ rfl]
        split
        next hid =>
          rw [view, hid, hf]
          exact .registered _ rfl
        · exact .idle _

theorem depositLinkBox_life (rendezvousId pub ct : Bytes) (now : Time) (id : Bytes) :
    Life sha256 id (.deposit rendezvousId pub ct now)
      (.deposited (s.depositLinkBox sha256 rendezvousId pub ct now).2) (s.view id)
      ((s.depositLinkBox sha256 rendezvousId pub ct now).1.view id) := by
  unfold depositLinkBox
  split
  · exact .idle _
  · dsimp only
    split
    · exact .idle _
    next row hrw =>
      obtain ⟨hf, hl, -⟩ := liveLinkBox_eq_some.mp hrw
      have hid := rendezvousId_of_find hf
      subst hid
      rw [LinkBox.live_linkBoxTime] at hl
      unfold depositInto
      split
      · exact .idle _
      next hn =>
        have hn : ∀ d ∈ s.depositsAt row.rendezvousId, d.depositHash ≠ sha256 ct := by
          simpa using hn
        split
        · rw [view_modify hf fun _ _ => rfl]
          split
          next hid =>
            subst hid
            rw [view, hf]
            exact .refused row _ rfl
          · exact .idle _
        next hr =>
          rw [view_modify hf fun _ => filter_taken_of_ne]
          split
          next hid =>
            subst hid
            have hds : (s.deposits ++ [row.nextDeposit (sha256 ct) ct (linkBoxTime now)]).filter
                (·.rendezvousId = row.rendezvousId) = s.depositsAt row.rendezvousId ++
                  [row.nextDeposit (sha256 ct) ct (linkBoxTime now)] := by
              simp [depositsAt, List.filter_append, LinkBoxRow.nextDeposit]
            rw [hds, view, hf]
            refine .taken row _ rfl hl hn ?_
            unfold linkBoxDeposits at hr
            omega
          · exact .idle _

theorem collectLinkBox_life (request : Option LinkBoxCollectRequest) (now : Time) (id : Bytes) :
    Life sha256 id (.collect request now) (.collected (s.collectLinkBox request now).2) (s.view id)
      ((s.collectLinkBox request now).1.view id) := by
  unfold collectLinkBox
  split
  · exact .idle _
  next request =>
    split
    · exact .idle _
    · split
      · exact .idle _
      next row hr =>
        obtain ⟨hf, -, -⟩ := liveLinkBox_eq_some.mp hr
        have hid := rendezvousId_of_find hf
        rw [← hid] at hf
        unfold collectFrom
        rw [view_modify hf fun _ => filter_kept_of_ne]
        split
        next hv =>
          subst hv
          rw [filter_kept, view, hf]
          exact .collected row _ hid.symm rfl
        · exact .idle _

theorem retireLinkBox_life (rendezvousId pub : Bytes) (now : Time) (id : Bytes) :
    Life sha256 id (.retire rendezvousId pub now)
      (.retired (s.retireLinkBox rendezvousId pub now).2) (s.view id)
      ((s.retireLinkBox rendezvousId pub now).1.view id) := by
  unfold retireLinkBox
  split
  · exact .idle _
  · dsimp only
    split
    · exact .idle _
    next row hr =>
      obtain ⟨hf, -, -⟩ := liveLinkBox_eq_some.mp hr
      have hid := rendezvousId_of_find hf
      subst hid
      unfold retireBox
      rw [view_modify hf fun _ => filter_discarded_of_ne]
      split
      next hv =>
        subst hv
        have hn : (s.deposits.filter fun d => d.rendezvousId ≠ row.rendezvousId).filter
            (·.rendezvousId = row.rendezvousId) = [] := by
          simp [List.filter_filter]
        rw [hn, view, hf]
        exact .retired row _ rfl
      · exact .idle _

theorem mem_of_mem_batchOf {α : Type} {le : α → α → Bool} {bound : ℕ} {due : List α} {x : α}
    (h : x ∈ batchOf le bound due) : x ∈ due := by
  unfold batchOf at h
  dsimp only at h
  split at h
  · exact List.mem_mergeSort.mp (List.mem_of_mem_take h)
  · exact List.mem_mergeSort.mp h

theorem view_sweepDeposits (due : List LinkDepositRow) (id : Bytes) :
    (s.sweepDeposits due).view id = let ds := (s.deposits.diff due).filter (·.rendezvousId = id)
      ⟨(s.boxes.find id).map fun row =>
        if id ∈ due.map (·.rendezvousId) then { row with depositCount := ds.length } else row,
        ds⟩ := by
  simp only [view, sweepDeposits, depositsAt, Table.find_map, BoxView.mk.injEq, and_true]
  cases h : s.boxes.find id with
  | none => rfl
  | some row =>
    obtain rfl := rendezvousId_of_find h
    rfl

theorem view_deleteBoxes (ids : List Bytes) (id : Bytes) :
    (s.deleteBoxes ids).view id = if id ∈ ids then ⟨none, []⟩ else s.view id := by
  simp only [view, deleteBoxes, depositsAt, Table.find_filter, List.filter_filter]
  by_cases hid : id ∈ ids
  · rw [if_pos hid, BoxView.mk.injEq]
    refine ⟨?_, ?_⟩
    · rw [Option.filter_eq_none_iff]
      intro row hr
      simp [rendezvousId_of_find hr, hid]
    · rw [List.filter_eq_nil_iff]
      rintro d -
      by_cases hd : d.rendezvousId = id <;> simp [hd, hid]
  · rw [if_neg hid, BoxView.mk.injEq]
    refine ⟨?_, List.filter_congr fun d _ => ?_⟩
    · cases h : s.boxes.find id with
      | none => rfl
      | some row => simp [rendezvousId_of_find h, hid]
    · by_cases hd : d.rendezvousId = id <;> simp [hd, hid]

theorem due_of_reclaimed {now : Time} {bound : ℕ} {due : List LinkDepositRow}
    (h : id ∈ ((s.sweepDeposits due).dueBoxes now bound).map (·.rendezvousId)) :
    ∃ row, s.boxes.find id = some row ∧ row.reclaimAfter ≤ now := by
  obtain ⟨row', hr', rfl⟩ := List.mem_map.mp h
  obtain ⟨hm, hd⟩ := List.mem_filter.mp (mem_of_mem_batchOf hr')
  have hf := congrArg BoxView.row (view_sweepDeposits (s := s) due row'.rendezvousId)
  simp only [view, Table.find_key hm] at hf
  obtain ⟨row, hr, hr'⟩ := Option.map_eq_some_iff.mp hf.symm
  refine ⟨row, hr, ?_⟩
  have hd : row'.reclaimAfter ≤ now := by simpa using hd
  rw [← hr'] at hd
  split at hd <;> exact hd

theorem sweepLinkBoxes_life (sha256 : Bytes → Bytes) (s : MemoryBoxes) (now : Time)
    (bounds : LinkBoxSweepBounds) (answer : LinkBoxAnswer) (id : Bytes) :
    Life sha256 id (.sweep now bounds) answer (s.view id)
      ((s.sweepLinkBoxes now bounds).1.view id) := by
  unfold sweepLinkBoxes
  dsimp only
  set due := s.dueDeposits (linkBoxTime now) bounds.orDefault.deposits with hdu
  rw [view_deleteBoxes]
  split
  next hid =>
    obtain ⟨row, hrw, hr⟩ := due_of_reclaimed hid
    rw [view, hrw]
    exact .reclaimed row _ hr
  · rw [view_sweepDeposits]
    by_cases hid : id ∈ due.map (·.rendezvousId)
    · simp only [hid, if_true]
      refine .pruned _ _ _ ((List.diff_sublist _ _).filter _) ?_
      simp only [depositsAt, List.filter_filter]
      refine filter_diff _ fun d hd => ?_
      have hm := mem_of_mem_batchOf hd
      simp only [List.mem_filter, decide_eq_true_eq] at hm
      simp [Int.not_lt.mpr hm.2]
    · have hds : (s.deposits.diff due).filter (·.rendezvousId = id) = s.depositsAt id :=
        filter_diff _ fun d hd => by
          simp only [decide_eq_false_iff_not]
          rintro rfl
          exact hid (List.mem_map_of_mem hd)
      simp only [hid, if_false, hds, Option.map_id']
      exact .idle _

theorem perform_life (sha256 : Bytes → Bytes) (s : MemoryBoxes) (call : LinkBoxCall) (id : Bytes) :
    Life sha256 id call (s.perform sha256 call).2 (s.view id)
      ((s.perform sha256 call).1.view id) := by
  cases call with
  | register registration now ttl liveCap => exact registerLinkBox_life ..
  | linkBox rendezvousId => exact .idle _
  | deposit rendezvousId pub ct now => exact depositLinkBox_life ..
  | collect request now => exact collectLinkBox_life ..
  | retire rendezvousId pub now => exact retireLinkBox_life ..
  | live now => exact .idle _
  | sweep now bounds => exact sweepLinkBoxes_life ..

structure RowSound (row : LinkBoxRow) (ds : List LinkDepositRow) : Prop where
  count : row.depositCount = ds.length
  next_pos : 1 ≤ row.nextDepositId
  next_le : row.nextDepositId ≤ 3
  increasing : (ds.map (·.depositId)).Pairwise (· < ·)
  range : ∀ d ∈ ds, 1 ≤ d.depositId ∧ d.depositId < row.nextDepositId
  hashes : (ds.map (·.depositHash)).Nodup
  prune : ∀ d ∈ ds, d.pruneAfter = row.expireTime
  retired : row.retiredTime.isSome → ds = []
  reclaim : row.reclaimAfter = row.expireTime

def BoxView.Sound (v : BoxView) : Prop :=
  match v.row with
  | none => v.deposits = []
  | some row => RowSound row v.deposits

variable {ds : List LinkDepositRow}

theorem RowSound.length_lt (h : RowSound row ds) : ds.length < row.nextDepositId := by
  have hnd : (ds.map (·.depositId)).Nodup := h.increasing.imp Nat.ne_of_lt
  have hs : ds.map (·.depositId) ⊆ List.range' 1 (row.nextDepositId - 1) := by
    intro n hn
    obtain ⟨d, hd, rfl⟩ := List.mem_map.mp hn
    have hr := h.range d hd
    rw [List.mem_range'_1]
    omega
  have hl := (List.Nodup.subperm hnd hs).length_le
  have hp := h.next_pos
  rw [List.length_map, List.length_range'] at hl
  omega

theorem RowSound.sublist {ds' : List LinkDepositRow} (h : RowSound row ds)
    (hs : ds'.Sublist ds) : RowSound { row with depositCount := ds'.length } ds' where
  count := rfl
  next_pos := h.next_pos
  next_le := h.next_le
  increasing := h.increasing.sublist (hs.map _)
  range d hd := h.range d (hs.subset hd)
  hashes := h.hashes.sublist (hs.map _)
  prune d hd := h.prune d (hs.subset hd)
  retired hr := by
    rw [h.retired hr] at hs
    exact List.sublist_nil.mp hs
  reclaim := h.reclaim

theorem RowSound.taken (h : RowSound row ds)
    {hash ct : Bytes} {now now' : Time} (hl : row.linkBox.live now = true)
    (hnw : ∀ d ∈ ds, d.depositHash ≠ hash) (hrm : row.nextDepositId ≤ 2) :
    RowSound row.take (ds ++ [row.nextDeposit hash ct now']) where
  count := by simp [LinkBoxRow.take, h.count]
  next_pos := Nat.succ_le_succ (Nat.zero_le _)
  next_le := Nat.succ_le_succ hrm
  increasing := by
    rw [List.map_append, List.map_singleton, List.pairwise_append]
    refine ⟨h.increasing, List.pairwise_singleton .., fun a ha b hb => ?_⟩
    obtain ⟨d, hd, rfl⟩ := List.mem_map.mp ha
    rw [List.mem_singleton.mp hb]
    exact (h.range d hd).2
  range d hd := by
    rcases List.mem_append.mp hd with hd | hd
    · exact ⟨(h.range d hd).1, Nat.lt_succ_of_lt (h.range d hd).2⟩
    · rw [List.mem_singleton.mp hd]
      exact ⟨h.next_pos, Nat.lt_succ_self _⟩
  hashes := by
    rw [List.map_append, List.map_singleton, List.nodup_append_comm]
    refine List.nodup_cons.mpr ⟨fun hm => ?_, h.hashes⟩
    obtain ⟨d, hd, hdh⟩ := List.mem_map.mp hm
    exact hnw d hd hdh
  prune d hd := by
    rcases List.mem_append.mp hd with hd | hd
    · exact h.prune d hd
    · rw [List.mem_singleton.mp hd]
      rfl
  retired hr := by
    have hn : row.retiredTime.isNone = true := (Bool.and_eq_true_iff.mp hl).1
    rw [Option.isNone_iff_eq_none] at hn
    rw [show row.take.retiredTime = row.retiredTime from rfl, hn] at hr
    cases hr
  reclaim := h.reclaim

theorem Life.sound {call : LinkBoxCall} {answer : LinkBoxAnswer} {v v' : BoxView}
    (h : Life sha256 id call answer v v') (hv : v.Sound) : v'.Sound := by
  cases h with
  | idle => exact hv
  | registered ds hid =>
    obtain rfl : ds = [] := hv
    exact {
      count := rfl
      next_pos := Nat.le_refl _
      next_le := show 1 ≤ 3 by decide
      increasing := .nil
      range := fun _ hd => absurd hd List.not_mem_nil
      hashes := .nil
      prune := fun _ hd => absurd hd List.not_mem_nil
      retired := fun _ => rfl
      reclaim := rfl }
  | refused row ds =>
    have hv : RowSound row ds := hv
    exact { hv with }
  | taken row ds hid hl hn hr =>
    have hv : RowSound row ds := hv
    exact hv.taken hl hn hr
  | @collected request _ _ row ds =>
    have hv : RowSound row ds := hv
    have hk : (ds.filter (request.ackThroughDepositId < ·.depositId)).Sublist ds :=
      List.filter_sublist
    exact { hv.sublist hk with }
  | retired row ds =>
    have hv : RowSound row ds := hv
    exact { hv.sublist (List.nil_sublist ds) with retired := fun _ => rfl }
  | pruned row ds ds' hs =>
    cases row with
    | none =>
      obtain rfl : ds = [] := hv
      exact List.sublist_nil.mp hs
    | some row => exact RowSound.sublist hv hs
  | reclaimed => rfl

def MemoryBoxes.Sound (s : MemoryBoxes) : Prop := ∀ id, (s.view id).Sound

theorem perform_sound (sha256 : Bytes → Bytes) (hs : s.Sound) (call : LinkBoxCall) :
    (s.perform sha256 call).1.Sound :=
  fun id => (perform_life sha256 s call id).sound (hs id)

theorem empty_sound : empty.Sound := fun _ => rfl

theorem after_append (p q : List LinkBoxCall) :
    s.after sha256 (p ++ q) = (s.after sha256 p).after sha256 q := List.foldl_append

theorem after_snoc (p : List LinkBoxCall) (call : LinkBoxCall) :
    s.after sha256 (p ++ [call]) = ((s.after sha256 p).perform sha256 call).1 := after_append ..

theorem after_sound (sha256 : Bytes → Bytes) (hs : s.Sound) (calls : List LinkBoxCall) :
    (s.after sha256 calls).Sound := by
  induction calls generalizing s with
  | nil => exact hs
  | cons call calls ih => exact ih (perform_sound sha256 hs call)

end MessageServer.Store
