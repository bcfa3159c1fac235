import MessageServer.Pgx.LinkBoxAgree

/-! # The two link box stores over whole runs

A sweep deletes the same deposits and the same boxes from the tables as from
memory. With it every call of a run gives the same answer on both sides, as long
as the columns hold the times it is handed and the numbers it counts to.
-/

namespace MessageServer.Pgx

open Store Store.Sample MemoryBoxes

variable {tables : LinkTables} {s : MemoryBoxes}

theorem batchOf_eq_take {α : Type} {le : α → α → Bool} {bound : ℕ} {due : List α}
    (h : due.length < 2 ^ 32) : batchOf le bound due = (due.mergeSort le).take bound := by
  simp only [batchOf, List.length_mergeSort, Nat.mod_eq_of_lt h]
  split
  · rfl
  next hle => exact (List.take_of_length_le (by rw [List.length_mergeSort]; omega)).symm

theorem compare_timestamp {t t' : Time} (h : t % 1000 = 0) (h' : t' % 1000 = 0) :
    compare (timestamp t) (timestamp t') = compare t t' := by
  have heq : timestamp t = timestamp t' ↔ t = t' :=
    ⟨fun he => by rw [← instant_timestamp_of_whole h, he, instant_timestamp_of_whole h'],
      congrArg timestamp⟩
  change compareOfLessAndEq _ _ = compareOfLessAndEq _ _
  simp only [compareOfLessAndEq, timestamp_lt_iff h h', heq]

theorem compare_natCast (m n : ℕ) : compare (m : ℤ) n = compare m n := by
  change compareOfLessAndEq _ _ = compareOfLessAndEq _ _
  simp only [compareOfLessAndEq, Int.ofNat_lt, Int.natCast_inj]

namespace Mirrors

variable (h : Mirrors tables s)

include h

variable {d d' : LinkDepositRow} (bound : ℕ) {now : Time}

theorem depositColumns_le (hd : d ∈ s.deposits) (hd' : d' ∈ s.deposits) :
    (depositColumns d).le (depositColumns d') = d.le d' := by
  rw [MessageRendezvousDeposit.le, LinkDepositRow.le]
  simp only [depositColumns, compare_timestamp (h.whole d hd).2 (h.whole d' hd').2, compare_natCast]

theorem dueDeposits (hn : now % 1000 = 0)
    (hdu : (s.deposits.filter fun d => d.pruneAfter ≤ now).length < 2 ^ 32) :
    tables.dueDeposits (timestamp now) bound = (s.dueDeposits now bound).map depositColumns := by
  have hf : (tables.deposits.rows.filter fun d => d.pruneAfter ≤ timestamp now) =
      (s.deposits.filter fun d => d.pruneAfter ≤ now).map depositColumns := by
    rw [h.deposits, List.filter_map]
    refine congrArg _ (List.filter_congr fun d hd => ?_)
    exact decide_eq_decide.mpr (timestamp_le_iff (h.whole d hd).2 hn)
  rw [LinkTables.dueDeposits, MemoryBoxes.dueDeposits, batchOf_eq_take hdu, hf, List.map_take,
    List.map_mergeSort fun a ha b hb => (h.depositColumns_le (List.mem_of_mem_filter ha)
      (List.mem_of_mem_filter hb)).symm]

theorem eq_of_key (hd : d ∈ s.deposits) (hd' : d' ∈ s.deposits)
    (hk : (depositColumns d).key = (depositColumns d').key) : d = d' := by
  have hn := tables.deposits.nodup
  rw [h.deposits, List.map_map] at hn
  exact List.inj_on_of_nodup_map hn hd hd' hk

theorem nodup_deposits : s.deposits.Nodup := by
  have hn := tables.deposits.nodup
  rw [h.deposits, List.map_map] at hn
  exact .of_map _ hn

variable {due : List LinkDepositRow}

theorem deleteDeposits (hdu : ∀ d ∈ due, d ∈ s.deposits) :
    (tables.deposits.rows.filter fun d => !decide (d ∈ due.map depositColumns)) =
      (s.deposits.diff due).map depositColumns := by
  rw [h.deposits, List.filter_map, h.nodup_deposits.sdiff_eq_filter]
  refine congrArg _ (List.filter_congr fun d hd => ?_)
  have hm : depositColumns d ∈ due.map depositColumns ↔ d ∈ due := by
    constructor
    · intro hc
      obtain ⟨d', hd', heq⟩ := List.mem_map.mp hc
      rwa [← h.eq_of_key (hdu d' hd') hd (congrArg MessageRendezvousDeposit.key heq)]
    · exact List.mem_map_of_mem
  rw [Function.comp_apply, Bool.eq_iff_iff, Bool.not_eq_true', decide_eq_false_iff_not, hm,
    decide_eq_true_eq]

theorem recount (hs : s.Sound) (hdu : ∀ d ∈ due, d ∈ s.deposits) :
    ∃ tables', (tables.deleteDeposits (· ∈ due.map depositColumns)).recount
        ((due.map depositColumns).map (·.rendezvousId)) = pure tables' ∧
      Mirrors tables' (s.sweepDeposits due) := by
  have hdp := h.deleteDeposits hdu
  have hw : ∀ d ∈ s.deposits.diff due, d.createTime % 1000 = 0 ∧ d.pruneAfter % 1000 = 0 :=
    fun d hd => h.whole d ((List.diff_subset _ _) hd)
  have ht : (due.map depositColumns).map (·.rendezvousId) = due.map (·.rendezvousId) := by
    rw [List.map_map]
    rfl
  have hc : ∀ row ∈ s.boxes.rows, ((s.deposits.diff due).filter fun d =>
      d.rendezvousId = row.rendezvousId).length ≤ 2 := fun row hrw => by
    have hsn := rowSound_of_find hs (Table.find_key hrw)
    have hle := ((List.diff_sublist s.deposits due).filter fun d =>
      d.rendezvousId = row.rendezvousId).length_le
    have hlt : (s.depositsAt row.rendezvousId).length < row.nextDepositId := hsn.length_lt
    have hnx := hsn.next_le
    exact Nat.le_trans hle (by change (s.depositsAt row.rendezvousId).length ≤ 2; omega)
  obtain ⟨f, hfe⟩ : ∃ f : LinkBoxRow → LinkBoxRow, f = fun row =>
      if row.rendezvousId ∈ due.map (·.rendezvousId) then
        { row with depositCount := ((s.deposits.diff due).filter fun d =>
            d.rendezvousId = row.rendezvousId).length } else row := ⟨_, rfl⟩
  have hf : ∀ row ∈ s.boxes.rows, RowFits (f row) := fun row hrw => by
    rw [hfe]
    dsimp only
    split
    · exact { h.fits row hrw with count_le := hc row hrw }
    · exact h.fits row hrw
  have hsw : (s.sweepDeposits due).boxes.rows = s.boxes.rows.map f := hfe ▸ rfl
  have hrs : ∀ tables' : LinkTables, tables'.rendezvous.rows =
      (s.sweepDeposits due).boxes.rows.map boxColumns →
      tables'.deposits.rows = (s.deposits.diff due).map depositColumns →
      Mirrors tables' (s.sweepDeposits due) := by
    intro tables' hb hr
    refine ⟨hb, hr, fun row hrw => ?_, hw⟩
    rw [hsw] at hrw
    obtain ⟨row', hrw', rfl⟩ := List.mem_map.mp hrw
    exact hf row' hrw'
  rw [ht, LinkTables.recount]
  by_cases hn : due.map (·.rendezvousId) = []
  · rw [if_pos hn]
    refine ⟨_, rfl, hrs _ ?_ hdp⟩
    simp only [hsw, hfe, hn, List.not_mem_nil, if_false, List.map_id']
    exact h.boxes
  · rw [if_neg hn]
    have hst : ∀ row ∈ s.boxes.rows,
        (if (boxColumns row).rendezvousId ∈ due.map (·.rendezvousId) then
          { boxColumns row with depositCount :=
            ((tables.deposits.rows.filter fun d => !decide (d ∈ due.map depositColumns)).countP
              fun deposit => deposit.rendezvousId = (boxColumns row).rendezvousId : ℕ) }
          else boxColumns row) =
        boxColumns (f row) := fun row _ => by
      rw [hfe, hdp, List.countP_map, List.countP_eq_length_filter]
      change (if row.rendezvousId ∈ due.map (·.rendezvousId) then _ else _) =
        boxColumns (if _ then _ else _)
      split <;> rfl
    have hb : (tables.deleteDeposits (· ∈ due.map depositColumns)).rendezvous.rows =
        s.boxes.rows.map boxColumns := h.boxes
    obtain ⟨tables', hu, hr, hsm⟩ := updateBoxes_map hb
      (fun row => row.rendezvousId ∈ due.map (·.rendezvousId))
      (fun row => { row with depositCount :=
        ((tables.deposits.rows.filter fun d => !decide (d ∈ due.map depositColumns)).countP
          fun deposit => deposit.rendezvousId = row.rendezvousId : ℕ) }) (fun _ => rfl) _
      (fun row hrw => by simpa only [decide_eq_true_eq] using hst row hrw) hf
    exact ⟨tables', hu, hrs tables' (hsw ▸ hr) ((congrArg Table.rows hsm).trans hdp)⟩

omit h in
theorem boxColumns_le {row row' : LinkBoxRow} (hr : RowFits row) (hr' : RowFits row') :
    (boxColumns row).le (boxColumns row') = row.le row' := by
  rw [MessageRendezvous.le, LinkBoxRow.le]
  simp only [boxColumns, compare_timestamp hr.reclaim.2 hr'.reclaim.2]

theorem dueBoxes (hn : now % 1000 = 0)
    (hd : (s.boxes.rows.filter fun row => row.reclaimAfter ≤ now).length < 2 ^ 32) :
    tables.dueBoxes (timestamp now) bound = (s.dueBoxes now bound).map boxColumns := by
  have hf : (tables.rendezvous.rows.filter fun row => row.reclaimAfter ≤ timestamp now) =
      (s.boxes.rows.filter fun row => row.reclaimAfter ≤ now).map boxColumns := by
    rw [h.boxes, List.filter_map]
    refine congrArg _ (List.filter_congr fun row hr => ?_)
    exact decide_eq_decide.mpr (timestamp_le_iff (h.fits row hr).reclaim.2 hn)
  rw [LinkTables.dueBoxes, MemoryBoxes.dueBoxes, batchOf_eq_take hd, hf, List.map_take,
    List.map_mergeSort fun a ha b hb => (boxColumns_le (h.fits a (List.mem_of_mem_filter ha))
      (h.fits b (List.mem_of_mem_filter hb))).symm]

theorem deleteBoxes (ids : List Bytes) : Mirrors (tables.deleteBoxes ids) (s.deleteBoxes ids) where
  boxes := by
    simp only [LinkTables.deleteBoxes, MemoryBoxes.deleteBoxes, Table.filter, h.boxes,
      List.filter_map]
    rfl
  deposits := by
    simp only [LinkTables.deleteBoxes, MemoryBoxes.deleteBoxes, Table.filter, h.deposits,
      List.filter_map]
    rfl
  fits := fun row hr => h.fits row (List.mem_of_mem_filter hr)
  whole := fun d hd => h.whole d (List.mem_of_mem_filter hd)

omit h in
theorem length_dueBoxes_sweepDeposits (due : List LinkDepositRow) (now : Time) :
    ((s.sweepDeposits due).boxes.rows.filter fun row => row.reclaimAfter ≤ now).length =
      (s.boxes.rows.filter fun row => row.reclaimAfter ≤ now).length := by
  simp only [sweepDeposits, Table.map, List.filter_map, List.length_map]
  refine congrArg List.length (List.filter_congr fun row _ => ?_)
  rw [Function.comp_apply]
  split <;> rfl

theorem sweepLinkBoxes (hs : s.Sound) (now : Time) (bounds : LinkBoxSweepBounds)
    (hn : isTimestamp (timestamp now) = true)
    (hdp : (s.deposits.filter fun d => d.pruneAfter ≤ linkBoxTime now).length < 2 ^ 32)
    (hb : (s.boxes.rows.filter fun row => row.reclaimAfter ≤ linkBoxTime now).length < 2 ^ 32) :
    (tables.sweepLinkBoxes true now bounds).2 = .ok (s.sweepLinkBoxes now bounds).2 ∧
      Mirrors (tables.sweepLinkBoxes true now bounds).1 (s.sweepLinkBoxes now bounds).1 := by
  rw [← timestamp_linkBoxTime] at hn
  have hw := linkBoxTime_whole now
  have hdu := h.dueDeposits bounds.orDefault.deposits hw hdp
  have hmm : ∀ d ∈ s.dueDeposits (linkBoxTime now) bounds.orDefault.deposits, d ∈ s.deposits :=
    fun d hd => List.mem_of_mem_filter (mem_of_mem_batchOf hd)
  obtain ⟨tables', hrc, hm⟩ := h.recount hs hmm
  have hr := hm.dueBoxes bounds.orDefault.boxes hw (by rwa [length_dueBoxes_sweepDeposits])
  have hi : ∀ rows : List LinkBoxRow,
      (rows.map boxColumns).map (·.rendezvousId) = rows.map (·.rendezvousId) := fun rows => by
    rw [List.map_map]
    rfl
  refine agrees_commit ?_ (hm.deleteBoxes _)
  simp only [not_true_eq_false, if_false, timeParameter_eq_pure hn, pure_bind, hdu, hrc,
    hr, hi, List.length_map]
  rfl

end Mirrors

def answerOf : LinkBoxAnswer → LinkTables.Answer
  | .registered answer => .registered (answer.mapError .store)
  | .linkBox answer => .linkBox (answer.mapError .store)
  | .deposited answer => .deposited (answer.mapError .store)
  | .collected answer => .collected (answer.mapError .store)
  | .retired answer => .retired (answer.mapError .store)
  | .live boxes => .live (.ok boxes)
  | .swept answer => .swept (.ok answer)

/-- The columns hold the times that a call writes or compares, and the counters what it counts. -/
def LinkFits (s : MemoryBoxes) : LinkBoxCall → Prop
  | .register _ now ttl _ =>
    isTimestamp (timestamp now) = true ∧ isTimestamp (timestamp (linkBoxTime now + ttl)) = true ∧
      s.boxes.rows.length < maxInt64
  | .linkBox _ => True
  | .deposit rendezvousId _ _ now =>
    isTimestamp (timestamp now) = true ∧
      ∀ row, s.boxes.find rendezvousId = some row → row.refusedCount + 1 < 2 ^ 63
  | .collect _ _ => True
  | .retire _ _ now => isTimestamp (timestamp now) = true
  | .live now => isTimestamp (timestamp now) = true ∧ s.boxes.rows.length < maxInt64
  | .sweep now _ =>
    isTimestamp (timestamp now) = true ∧
      (s.deposits.filter fun d => d.pruneAfter ≤ linkBoxTime now).length < 2 ^ 32 ∧
      (s.boxes.rows.filter fun row => row.reclaimAfter ≤ linkBoxTime now).length < 2 ^ 32

variable {sha256 : Bytes → Bytes}

/-- One call on both sides. -/
theorem Mirrors.perform (hsh : ∀ bytes, (sha256 bytes).length = 32) (h : Mirrors tables s)
    (hs : s.Sound) {call : LinkBoxCall} (hf : LinkFits s call) :
    (tables.perform sha256 call).2 = answerOf (s.perform sha256 call).2 ∧
      Mirrors (tables.perform sha256 call).1 (s.perform sha256 call).1 := by
  cases call with
  | register registration now ttl liveCap =>
    obtain ⟨hn, he, hr⟩ := hf
    exact (h.registerLinkBox registration now ttl liveCap hn he hr).imp_left
      (congrArg LinkTables.Answer.registered)
  | linkBox id => exact ⟨congrArg LinkTables.Answer.linkBox (h.linkBox id), h⟩
  | deposit id pub ct now =>
    exact (h.depositLinkBox hsh hs id pub ct now hf.1 hf.2).imp_left
      (congrArg LinkTables.Answer.deposited)
  | collect request now =>
    exact (h.collectLinkBox hs request now).imp_left (congrArg LinkTables.Answer.collected)
  | retire id pub now =>
    exact (h.retireLinkBox hs id pub now hf).imp_left (congrArg LinkTables.Answer.retired)
  | live now =>
    exact ⟨congrArg LinkTables.Answer.live (h.liveLinkBoxes hf.1 hf.2), h⟩
  | sweep now bounds =>
    obtain ⟨hn, hd, hb⟩ := hf
    exact (h.sweepLinkBoxes hs now bounds hn hd hb).imp_left (congrArg LinkTables.Answer.swept)

theorem mirrors_empty : Mirrors .empty .empty := ⟨rfl, rfl, nofun, nofun⟩

def RunFits (sha256 : Bytes → Bytes) (calls : List LinkBoxCall) : Prop :=
  ∀ p call, p ++ [call] <+: calls → LinkFits (empty.after sha256 p) call

theorem mirrors_after (hsh : ∀ bytes, (sha256 bytes).length = 32) {calls : List LinkBoxCall}
    (hf : RunFits sha256 calls) :
    Mirrors (LinkTables.empty.after sha256 calls) (empty.after sha256 calls) := by
  induction calls using List.reverseRecOn with
  | nil => exact mirrors_empty
  | append_singleton calls call ih =>
    have hm := ih fun p c hp => hf p c (hp.trans (List.prefix_append ..))
    have hs := after_sound sha256 empty_sound calls
    rw [after_snoc, LinkTables.after, List.foldl_append]
    exact (hm.perform hsh hs (hf calls call List.prefix_rfl)).2

/-- In a run whose calls all fit, both stores give each call one answer and then hold the same
boxes and deposits. -/
theorem link_box_stores_agree (sha256 : Bytes → Bytes)
    (hsha : ∀ bytes, (sha256 bytes).length = 32) (calls : List LinkBoxCall)
    (hfits : RunFits sha256 calls) (p : List LinkBoxCall) (call : LinkBoxCall)
    (hp : p ++ [call] <+: calls) :
    ((LinkTables.empty.after sha256 p).perform sha256 call).2 =
        answerOf ((empty.after sha256 p).perform sha256 call).2 ∧
      Mirrors (LinkTables.empty.after sha256 (p ++ [call]))
        (empty.after sha256 (p ++ [call])) := by
  have hb : RunFits sha256 (p ++ [call]) := fun q c hq => hfits q c (hq.trans hp)
  have hm := mirrors_after hsha fun q c hq =>
    hb q c (hq.trans (List.prefix_append p [call]))
  have hs := after_sound sha256 empty_sound p
  exact ⟨(hm.perform hsha hs (hb p call List.prefix_rfl)).1, mirrors_after hsha hb⟩

namespace Sample

def digest (_ : Bytes) : Bytes := List.replicate 32 0

def sweptRun : List LinkBoxCall :=
  [.register (some registration) 0 1000000 1, .sweep 1000000 ⟨0, 0⟩]

theorem runFits_sweptRun : RunFits digest sweptRun := by
  rintro p call ⟨q, hq⟩
  match p, hq with
  | [], hq =>
    cases hq
    exact ⟨by decide, by decide, by decide⟩
  | [_], hq =>
    obtain ⟨rfl, hr⟩ := List.cons.inj hq
    cases hr
    exact ⟨by decide, by decide +kernel, by decide +kernel⟩
  | _ :: _ :: p, hq =>
    have hl := congrArg List.length hq
    simp [sweptRun] at hl

end Sample

open Sample

theorem link_box_stores_agree_swept :
    ((LinkTables.empty.after digest (sweptRun.take 1)).perform digest
      (.sweep 1000000 ⟨0, 0⟩)).2 = .swept (.ok { deposits := 0, boxes := 1 }) := by
  have h := link_box_stores_agree digest (fun _ => List.length_replicate) sweptRun
    runFits_sweptRun (sweptRun.take 1) (.sweep 1000000 ⟨0, 0⟩) List.prefix_rfl
  have hs : ((empty.after digest (sweptRun.take 1)).sweepLinkBoxes
      1000000 ⟨0, 0⟩).2 = { deposits := 0, boxes := 1 } := by decide +kernel
  exact h.1.trans (congrArg (fun answer => LinkTables.Answer.swept (.ok answer)) hs)

end MessageServer.Pgx
