import MessageServer.Store.Calls
import MessageServer.Store.LinkBoxHistory

/-! # The sweep of link boxes

Two states are alike at a time when they hold the same live boxes with the same
deposits. A sweep deletes nothing that is live at its own time or later, so that
no arm but Register can tell whether it has run.
-/

namespace MessageServer.Store

open MemoryBoxes BoxView

variable {sha256 : Bytes → Bytes} {s s' : MemoryBoxes} {id : Bytes} {t : Time}

def BoxView.liveAt (v : BoxView) (t : Time) : Option (LinkBoxRow × List LinkDepositRow) :=
  (v.row.filter fun row => row.linkBox.live t).map fun row => (row, v.deposits)

variable {row : LinkBoxRow} {v : BoxView}

theorem BoxView.liveAt_eq_some {ds : List LinkDepositRow} : v.liveAt t = some (row, ds) ↔
      v.row = some row ∧ row.linkBox.live t = true ∧ v.deposits = ds := by
  simp only [liveAt, Option.map_eq_some_iff, Option.filter_eq_some_iff, Prod.mk.injEq]
  constructor
  · rintro ⟨_, ⟨hr, hl⟩, rfl, hds⟩
    exact ⟨hr, hl, hds⟩
  · rintro ⟨hr, hl, hds⟩
    exact ⟨row, ⟨hr, hl⟩, rfl, hds⟩

theorem BoxView.liveAt_eq_none :
    v.liveAt t = none ↔ ∀ row, v.row = some row → row.linkBox.live t = false := by
  simp [liveAt, Option.filter_eq_none_iff]

/-- Two states hold the same live boxes, with the same deposits. -/
def SameLive (t : Time) (s s' : MemoryBoxes) : Prop :=
  ∀ id, (s.view id).liveAt t = (s'.view id).liveAt t

theorem SameLive.find (h : SameLive t s s') (id : Bytes) :
    (s.boxes.find id).filter (·.linkBox.live t) = (s'.boxes.find id).filter (·.linkBox.live t) := by
  have hid := congrArg (Option.map Prod.fst) (h id)
  simpa [liveAt, view, Function.comp_def] using hid

theorem SameLive.deposits (h : SameLive t s s')
    (hr : s.boxes.find id = some row) (hl : row.linkBox.live t = true) :
    s'.boxes.find id = some row ∧ s'.depositsAt id = s.depositsAt id := by
  have hid : (s.view id).liveAt t = some (row, s.depositsAt id) :=
    liveAt_eq_some.mpr ⟨hr, hl, rfl⟩
  rw [h id] at hid
  obtain ⟨hr', -, hds⟩ := liveAt_eq_some.mp hid
  exact ⟨hr', hds⟩

theorem SameLive.liveLinkBox (h : SameLive t s s') (pub : Bytes) (pinned : LinkBoxRow → Bytes) :
    s.liveLinkBox id t pub pinned = s'.liveLinkBox id t pub pinned := by
  have hf : ∀ s : MemoryBoxes, s.liveLinkBox id t pub pinned =
      ((s.boxes.find id).filter (·.linkBox.live t)).filter (pinned · = pub) := fun s => by
    rw [MemoryBoxes.liveLinkBox, Option.filter_filter]
  rw [hf s, hf s', h.find]

theorem SameLive.liveCount (h : SameLive t s s') : s.liveCount t = s'.liveCount t :=
  Table.countP_congr h.find

theorem SameLive.modify (h : SameLive t s s')
    (hr : s.boxes.find row.rendezvousId = some row) (hl : row.linkBox.live t = true)
    {f : LinkBoxRow → LinkBoxRow} {hf : ∀ r, (f r).rendezvousId = r.rendezvousId}
    {ds ds' : List LinkDepositRow}
    (hds : ∀ id, id ≠ row.rendezvousId → ds.filter (·.rendezvousId = id) = s.depositsAt id)
    (hds' : ∀ id, id ≠ row.rendezvousId → ds'.filter (·.rendezvousId = id) = s'.depositsAt id)
    (hs : ds.filter (·.rendezvousId = row.rendezvousId) =
      ds'.filter (·.rendezvousId = row.rendezvousId)) :
    SameLive t ⟨s.boxes.modify row.rendezvousId f hf, ds⟩
      ⟨s'.boxes.modify row.rendezvousId f hf, ds'⟩ := by
  intro id
  rw [view_modify hr hds, view_modify (h.deposits hr hl).1 hds']
  split
  next hid => rw [hid, hs]
  · exact h id

theorem sameLive_linkBoxTime : SameLive (linkBoxTime t) s s' ↔ SameLive t s s' := by
  simp [SameLive, liveAt]

variable (h : SameLive t s s')
include h

theorem SameLive.depositLinkBox (id pub ct : Bytes) :
    (s.depositLinkBox sha256 id pub ct t).2 = (s'.depositLinkBox sha256 id pub ct t).2 ∧
      SameLive t (s.depositLinkBox sha256 id pub ct t).1
        (s'.depositLinkBox sha256 id pub ct t).1 := by
  unfold MemoryBoxes.depositLinkBox
  split
  · exact ⟨rfl, h⟩
  · dsimp only
    rw [← (sameLive_linkBoxTime.mpr h).liveLinkBox]
    split
    · exact ⟨rfl, h⟩
    next row hr =>
      obtain ⟨hf, hl, -⟩ := liveLinkBox_eq_some.mp hr
      obtain rfl := rendezvousId_of_find hf
      rw [LinkBox.live_linkBoxTime] at hl
      obtain ⟨hf', hds⟩ := h.deposits hf hl
      unfold depositInto
      rw [hds]
      split
      · exact ⟨rfl, h⟩
      · split
        · exact ⟨rfl, h.modify hf hl (fun _ _ => rfl) (fun _ _ => rfl) hds.symm⟩
        · refine ⟨rfl, h.modify hf hl (fun _ => filter_taken_of_ne)
            (fun _ => filter_taken_of_ne) ?_⟩
          rw [List.filter_append, List.filter_append]
          exact congrArg (· ++ _) hds.symm

theorem SameLive.collectLinkBox (request : Option LinkBoxCollectRequest) :
    (s.collectLinkBox request t).2 = (s'.collectLinkBox request t).2 ∧
      SameLive t (s.collectLinkBox request t).1 (s'.collectLinkBox request t).1 := by
  unfold MemoryBoxes.collectLinkBox
  split
  · exact ⟨rfl, h⟩
  next request =>
    split
    · exact ⟨rfl, h⟩
    · rw [← (sameLive_linkBoxTime.mpr h).liveLinkBox]
      split
      · exact ⟨rfl, h⟩
      next row hr =>
        obtain ⟨hf, hl, -⟩ := liveLinkBox_eq_some.mp hr
        rw [← rendezvousId_of_find hf] at hf
        rw [LinkBox.live_linkBoxTime] at hl
        obtain ⟨hf', hds⟩ := h.deposits hf hl
        unfold collectFrom
        rw [hds]
        refine ⟨rfl, h.modify hf hl (fun _ => filter_kept_of_ne) (fun _ => filter_kept_of_ne) ?_⟩
        rw [filter_kept, filter_kept, hds]

theorem SameLive.retireLinkBox (id pub : Bytes) :
    (s.retireLinkBox id pub t).2 = (s'.retireLinkBox id pub t).2 ∧
      SameLive t (s.retireLinkBox id pub t).1 (s'.retireLinkBox id pub t).1 := by
  unfold MemoryBoxes.retireLinkBox
  split
  · exact ⟨rfl, h⟩
  · dsimp only
    rw [← (sameLive_linkBoxTime.mpr h).liveLinkBox]
    split
    · exact ⟨rfl, h⟩
    next row hr =>
      obtain ⟨hf, hl, -⟩ := liveLinkBox_eq_some.mp hr
      obtain rfl := rendezvousId_of_find hf
      rw [LinkBox.live_linkBoxTime] at hl
      obtain ⟨hf', hds⟩ := h.deposits hf hl
      unfold retireBox
      rw [hds]
      refine ⟨rfl, h.modify hf hl (fun _ => filter_discarded_of_ne)
        (fun _ => filter_discarded_of_ne) ?_⟩
      simp [List.filter_filter]

theorem SameLive.readLive (id : Bytes) : s.readLive id t = s'.readLive id t := by
  have hr : ∀ s : MemoryBoxes, s.readLive id t =
      if id.length ≠ rendezvousIdBytes then .error .identifierShape
      else .ok (((s.boxes.find id).filter (·.linkBox.live t)).map (·.linkBox)) := fun s => by
    unfold MemoryBoxes.readLive MemoryBoxes.linkBox failIf
    by_cases hid : id.length ≠ rendezvousIdBytes
    · rw [if_pos hid, if_pos hid]
      rfl
    · rw [if_neg hid, if_neg hid]
      cases s.boxes.find id with
      | none => rfl
      | some row =>
        by_cases hl : row.linkBox.live t = true
        · simp [bind, Except.bind, pure, Except.pure, hl, Option.filter]
        · simp [bind, Except.bind, pure, Except.pure, hl, Option.filter]
  rw [hr s, hr s', h.find]

theorem SameLive.registerAgain {row' : LinkBoxRow}
    (hrw : s.boxes.find id = some row) (hr' : s'.boxes.find id = some row')
    (registration : LinkBoxRegistration) : registerAgain row registration (linkBoxTime t) =
      registerAgain row' registration (linkBoxTime t) := by
  simp only [MemoryBoxes.registerAgain, LinkBox.live_linkBoxTime]
  by_cases hl : row.linkBox.live t = true
  · have hs := (h.deposits hrw hl).1
    rw [hr'] at hs
    rw [Option.some.inj hs]
  · have hd : row.linkBox.live t = false := by simpa using hl
    have hn : (s.view id).liveAt t = none := liveAt_eq_none.mpr fun r hr => by
      rw [← Option.some.inj (hrw.symm.trans hr)]
      exact hd
    rw [h id] at hn
    have hd' : row'.linkBox.live t = false := liveAt_eq_none.mp hn row' hr'
    simp [hd, hd']

theorem SameLive.insert
    (hn : s.boxes.find row.rendezvousId = none) (hn' : s'.boxes.find row.rendezvousId = none)
    (hds : s.depositsAt row.rendezvousId = s'.depositsAt row.rendezvousId) :
    SameLive t { s with boxes := s.boxes.insert row } { s' with boxes := s'.boxes.insert row } := by
  intro id
  have hid := h id
  simp only [liveAt, view, depositsAt, Table.find_insert hn, Table.find_insert hn'] at hid ⊢
  by_cases hr : id = row.rendezvousId
  · subst hr
    rw [if_pos rfl, if_pos rfl]
    exact congrArg (fun ds => Option.map (fun row => (row, ds)) _) hds
  · rw [if_neg hr, if_neg hr]
    exact hid

omit h in
theorem BoxView.Sound.deposits_eq_nil (h : v.Sound) (hr : v.row = none) : v.deposits = [] := by
  simpa [BoxView.Sound, hr] using h

theorem SameLive.registerLinkBox (hs : s.Sound) (hs' : s'.Sound)
    (registration : Option LinkBoxRegistration) (ttl : ℤ) (liveCap : ℕ)
    (hrw : ∀ r, registration = some r →
      (s.boxes.find r.rendezvousId = none ↔ s'.boxes.find r.rendezvousId = none)) :
    (s.registerLinkBox registration t ttl liveCap).2 =
        (s'.registerLinkBox registration t ttl liveCap).2 ∧
      SameLive t (s.registerLinkBox registration t ttl liveCap).1
        (s'.registerLinkBox registration t ttl liveCap).1 := by
  unfold MemoryBoxes.registerLinkBox
  split
  · exact ⟨rfl, h⟩
  next r hr =>
    have hrw := hrw r (validateLinkBoxRegistration_eq_ok.mp hr).1
    dsimp only
    rw [← (sameLive_linkBoxTime.mpr h).liveCount]
    cases hf : s.boxes.find r.rendezvousId with
    | none =>
      have hf' := hrw.mp hf
      rw [hf']
      dsimp only
      split
      · exact ⟨rfl, h⟩
      · refine ⟨rfl, h.insert hf hf' ?_⟩
        have hds : s.depositsAt r.rendezvousId = [] := (hs r.rendezvousId).deposits_eq_nil hf
        have hds' : s'.depositsAt r.rendezvousId = [] := (hs' r.rendezvousId).deposits_eq_nil hf'
        exact hds.trans hds'.symm
    | some row =>
      cases hf' : s'.boxes.find r.rendezvousId with
      | none => rw [hrw.mpr hf'] at hf; cases hf
      | some row' => exact ⟨congrArg Except.ok (h.registerAgain hf hf' r), h⟩

omit h

variable {now : Time} {bounds : LinkBoxSweepBounds}

theorem Life.liveAt_sweep {answer : LinkBoxAnswer} {v' : BoxView}
    (h : Life sha256 id (.sweep now bounds) answer v v') (hv : v.Sound) (hn : now ≤ t) :
    v.liveAt t = v'.liveAt t := by
  have he : ∀ {row : LinkBoxRow}, row.linkBox.live t = true →
      linkBoxTime now < row.expireTime := fun {row} hl =>
    Int.lt_of_le_of_lt (linkBoxTime_mono hn)
      (of_decide_eq_true (Bool.and_eq_true_iff.mp hl).2)
  cases h with
  | idle => rfl
  | pruned row ds ds' hs hk =>
    cases row with
    | none => rfl
    | some row =>
      have hv : RowSound row ds := hv
      by_cases hl : row.linkBox.live t = true
      · have ha : ds.filter (linkBoxTime now < ·.pruneAfter) = ds :=
          List.filter_eq_self.mpr fun d hd => by
            simpa [hv.prune d hd] using he hl
        rw [ha] at hk
        have hds : ds' = ds := hs.antisymm (hk ▸ List.filter_sublist)
        subst hds
        simp only [Option.map_some, ← hv.count]
      · have hdd : row.linkBox.live t = false := by simpa using hl
        have hdd' : ({ row with depositCount := ds'.length } : LinkBoxRow).linkBox.live t =
            false := hdd
        simp [liveAt, hdd, hdd', Option.filter]
  | reclaimed row ds hdu =>
    have hv : RowSound row ds := hv
    have hdd : row.linkBox.live t = false := by
      rw [Bool.eq_false_iff]
      intro hl
      rw [hv.reclaim] at hdu
      exact absurd (he hl) (Int.not_lt.mpr hdu)
    simp [liveAt, hdd, Option.filter]

theorem sweep_sameLive (hs : s.Sound) (hn : now ≤ t) (bounds : LinkBoxSweepBounds) :
    SameLive t s (s.sweepLinkBoxes now bounds).1 :=
  fun id => (sweepLinkBoxes_life (fun bytes => bytes) s now bounds (.swept {}) id).liveAt_sweep
    (hs id) hn

def Reclaimed (s swept : MemoryBoxes) (id : Bytes) : Prop :=
  (s.boxes.find id).isSome ∧ swept.boxes.find id = none

theorem sweep_find_none (h : s.boxes.find id = none) :
    (s.sweepLinkBoxes now bounds).1.boxes.find id = none := by
  have hl := sweepLinkBoxes_life (fun bytes => bytes) s now bounds (.swept {}) id
  have hr : (s.view id).row = none := h
  change ((s.sweepLinkBoxes now bounds).1.view id).row = none
  generalize s.view id = v at hl hr
  generalize (s.sweepLinkBoxes now bounds).1.view id = v' at hl
  cases hl with
  | idle => exact hr
  | pruned row => rw [show row = none from hr]; rfl
  | reclaimed => rfl

theorem find_deleteBoxes_singleton (s : MemoryBoxes) (id : Bytes) :
    (s.deleteBoxes [id]).boxes.find id = none := by
  have h := congrArg row (view_deleteBoxes (s := s) [id] id)
  rwa [if_pos (List.mem_singleton_self id)] at h

theorem sameLive_deleteBoxes (hd : ∀ row, s.boxes.find id = some row →
    row.linkBox.live t = false) : SameLive t s (s.deleteBoxes [id]) := by
  intro id'
  rw [view_deleteBoxes]
  split
  next hid =>
    rw [List.mem_singleton.mp hid]
    exact liveAt_eq_none.mpr hd
  · rfl

variable {liveCap : ℕ} {ttl : ℤ}

theorem registerLinkBox_answer_of_none {r : LinkBoxRegistration} (h : SameLive t s s')
    (hf : s.boxes.find r.rendezvousId = none) (hf' : s'.boxes.find r.rendezvousId = none) :
    (s.registerLinkBox (some r) t ttl liveCap).2 =
      (s'.registerLinkBox (some r) t ttl liveCap).2 := by
  unfold MemoryBoxes.registerLinkBox
  split
  · rfl
  next r' hr =>
    obtain rfl := Option.some.inj (validateLinkBoxRegistration_eq_ok.mp hr).1
    dsimp only
    rw [← (sameLive_linkBoxTime.mpr h).liveCount, hf, hf']
    dsimp only
    split <;> rfl

theorem registerLinkBox_rejected {r r' : LinkBoxRegistration}
    (hr : validateLinkBoxRegistration (some r) ttl liveCap = .ok r')
    (hrw : s.boxes.find r.rendezvousId = some row) (hd : row.linkBox.live t = false) :
    (s.registerLinkBox (some r) t ttl liveCap).2 = .ok { reason := .rejected } := by
  obtain rfl := Option.some.inj (validateLinkBoxRegistration_eq_ok.mp hr).1
  simp [MemoryBoxes.registerLinkBox, hr, hrw, registerAgain, hd]

/-- What the arms of a link box answer at a time no earlier than a sweep's. -/
theorem sweep_invisible (sha256 : Bytes → Bytes) (calls : List LinkBoxCall) (t t' : Time)
    (bounds : LinkBoxSweepBounds) (ht : t ≤ t') :
    let s := empty.after sha256 calls
    let swept := (s.sweepLinkBoxes t bounds).1
    (∀ id pub ct,
      (s.depositLinkBox sha256 id pub ct t').2 = (swept.depositLinkBox sha256 id pub ct t').2 ∧
      SameLive t' (s.depositLinkBox sha256 id pub ct t').1
        (swept.depositLinkBox sha256 id pub ct t').1) ∧
    (∀ request, (s.collectLinkBox request t').2 = (swept.collectLinkBox request t').2 ∧
      SameLive t' (s.collectLinkBox request t').1 (swept.collectLinkBox request t').1) ∧
    (∀ id pub, (s.retireLinkBox id pub t').2 = (swept.retireLinkBox id pub t').2 ∧
      SameLive t' (s.retireLinkBox id pub t').1 (swept.retireLinkBox id pub t').1) ∧
    s.liveLinkBoxes t' = swept.liveLinkBoxes t' ∧
    (∀ id, s.readLive id t' = swept.readLive id t') ∧
    ∀ registration ttl liveCap, ((∀ r, registration = some r → ¬ Reclaimed s swept r.rendezvousId) →
        (s.registerLinkBox registration t' ttl liveCap).2 =
            (swept.registerLinkBox registration t' ttl liveCap).2 ∧
          SameLive t' (s.registerLinkBox registration t' ttl liveCap).1
            (swept.registerLinkBox registration t' ttl liveCap).1) ∧
      ∀ r, validateLinkBoxRegistration registration ttl liveCap = .ok r →
        Reclaimed s swept r.rendezvousId →
        (s.registerLinkBox registration t' ttl liveCap).2 = .ok { reason := .rejected } ∧
          (swept.registerLinkBox registration t' ttl liveCap).2 =
            ((s.deleteBoxes [r.rendezvousId]).registerLinkBox registration t' ttl liveCap).2 := by
  intro s swept
  have hs : s.Sound := after_sound sha256 empty_sound calls
  have hsw : swept.Sound := perform_sound sha256 hs (.sweep t bounds)
  have h : SameLive t' s swept := sweep_sameLive hs ht bounds
  refine ⟨h.depositLinkBox, h.collectLinkBox, h.retireLinkBox,
    (sameLive_linkBoxTime.mpr h).liveCount, h.readLive, fun registration ttl liveCap => ⟨?_, ?_⟩⟩
  · intro hk
    refine h.registerLinkBox hs hsw registration ttl liveCap fun r hr => ⟨sweep_find_none, ?_⟩
    intro hn
    have hsm : ¬ (s.boxes.find r.rendezvousId).isSome := fun hsm => hk r hr ⟨hsm, hn⟩
    simpa using hsm
  · rintro r hr ⟨hsm, hn⟩
    obtain ⟨row, hrw⟩ := Option.isSome_iff_exists.mp hsm
    have hd : row.linkBox.live t' = false := by
      have hl : (swept.view r.rendezvousId).liveAt t' = none :=
        liveAt_eq_none.mpr fun row' hr' => by cases hn.symm.trans hr'
      rw [← h r.rendezvousId] at hl
      exact liveAt_eq_none.mp hl row hrw
    obtain ⟨rfl, -⟩ := validateLinkBoxRegistration_eq_ok.mp hr
    refine ⟨registerLinkBox_rejected hr hrw hd, ?_⟩
    have hg : SameLive t' s (s.deleteBoxes [r.rendezvousId]) :=
      sameLive_deleteBoxes fun row' hr' => by
        rw [Option.some.inj (hr'.symm.trans hrw)]
        exact hd
    exact registerLinkBox_answer_of_none (fun id => (h id).symm.trans (hg id)) hn
      (find_deleteBoxes_singleton s r.rendezvousId)

namespace Sample

def registration : LinkBoxRegistration where
  rendezvousId := List.replicate 32 0
  depositVerifyPub := List.replicate 32 1
  collectVerifyPub := List.replicate 32 2
  publicCt := List.replicate 4124 3

def registered : MemoryBoxes :=
  empty.after config.sha256 [.register (some registration) 0 1000000 1]

end Sample

open Sample

/-- The one answer that a sweep changes: an id that it freed is registered again. -/
theorem sweep_invisible_registered :
    Reclaimed registered (registered.sweepLinkBoxes 1000000 ⟨0, 0⟩).1
      registration.rendezvousId ∧
    (registered.registerLinkBox (some registration) 1000000 1000000 1).2 =
      .ok { reason := .rejected } ∧
    ((registered.sweepLinkBoxes 1000000 ⟨0, 0⟩).1.registerLinkBox
      (some registration) 1000000 1000000 1).2 =
      ((registered.deleteBoxes [registration.rendezvousId]).registerLinkBox
        (some registration) 1000000 1000000 1).2 := by
  have hv : validateLinkBoxRegistration (some registration) 1000000 1 =
      .ok registration := validateLinkBoxRegistration_eq_ok.mpr
    ⟨rfl, List.length_replicate, List.length_replicate, List.length_replicate,
      List.length_replicate, by decide, by decide⟩
  have hg : Reclaimed registered (registered.sweepLinkBoxes 1000000 ⟨0, 0⟩).1
      registration.rendezvousId := by
    unfold Reclaimed
    decide +kernel
  have h := sweep_invisible config.sha256 [.register (some registration) 0 1000000 1]
    1000000 1000000 ⟨0, 0⟩ (Int.le_refl _)
  exact ⟨hg, (h.2.2.2.2.2 (some registration) 1000000 1).2 _ hv hg⟩

end MessageServer.Store
