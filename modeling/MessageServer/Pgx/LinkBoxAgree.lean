import MessageServer.Pgx.LinkBoxes
import MessageServer.Store.LinkBoxSweep

/-! # The two link box stores agree

The tables mirror the boxes in memory when their rows are the columns of the rows
there. Under times and counters that the columns hold, every call gives the same
answer on both sides and leaves the tables mirroring the boxes.
-/

namespace MessageServer.Pgx

open Store

variable {t : Time} {t' : Time}

theorem instant_timestamp_of_whole (h : t % 1000 = 0) : instant (timestamp t) = t := by
  have hz : ∀ z : ℤ, z % 1000 = 0 → z / 1000 * 1000 = z := by omega
  exact hz t h

theorem timestamp_linkBoxTime (t : Time) : timestamp (linkBoxTime t) = timestamp t := by
  have hz : ∀ z : ℤ, (z - z % 1000) / 1000 = z / 1000 := by omega
  exact hz t

theorem linkBoxTime_whole (t : Time) : linkBoxTime t % 1000 = 0 := by
  have hz : ∀ z : ℤ, (z - z % 1000) % 1000 = 0 := by omega
  exact hz t

theorem timestamp_lt_iff (h : t % 1000 = 0) (h' : t' % 1000 = 0) :
    timestamp t < timestamp t' ↔ t < t' := by
  have hz : ∀ a b : ℤ, a % 1000 = 0 → b % 1000 = 0 → (a / 1000 < b / 1000 ↔ a < b) := by omega
  exact hz t t' h h'

theorem timestamp_le_iff (h : t % 1000 = 0) (h' : t' % 1000 = 0) :
    timestamp t ≤ timestamp t' ↔ t ≤ t' := by
  have hz : ∀ a b : ℤ, a % 1000 = 0 → b % 1000 = 0 → (a / 1000 ≤ b / 1000 ↔ a ≤ b) := by omega
  exact hz t t' h h'

variable {α : Type}

theorem timeParameter_eq_pure (h : isTimestamp (timestamp t) = true) :
    timeParameter t = pure (timestamp t) := by
  rw [timeParameter, sent_of_isTimestamp h, if_pos h]
  rfl

def boxColumns (row : LinkBoxRow) : MessageRendezvous where
  rendezvousId := row.rendezvousId
  kind := row.kind
  depositVerifyPub := row.depositVerifyPub
  collectVerifyPub := row.collectVerifyPub
  cardXwingPub := row.cardXwingPub
  publicCt := some row.publicCt
  algId := row.algId
  nextDepositId := row.nextDepositId
  depositCount := row.depositCount
  refusedCount := row.refusedCount
  registerTime := timestamp row.registerTime
  refreshTime := timestamp row.refreshTime
  expireTime := timestamp row.expireTime
  retiredTime := row.retiredTime.map timestamp
  reclaimAfter := timestamp row.reclaimAfter

def depositColumns (deposit : LinkDepositRow) : MessageRendezvousDeposit where
  rendezvousId := deposit.rendezvousId
  depositId := deposit.depositId
  depositHash := deposit.depositHash
  depositCt := deposit.depositCt
  createTime := timestamp deposit.createTime
  pruneAfter := timestamp deposit.pruneAfter

structure RowFits (row : LinkBoxRow) : Prop where
  kind : row.kind = 4
  card : row.cardXwingPub = none
  publicCt : row.publicCt.length = linkCardBytes
  algId : row.algId = 20
  next_le : row.nextDepositId ≤ 3
  count_le : row.depositCount ≤ 2
  idBytes : row.rendezvousId.length = 32
  depositKey : row.depositVerifyPub.length = 32
  collectKey : row.collectVerifyPub.length = 32
  next_pos : 1 ≤ row.nextDepositId
  refused : row.refusedCount < 2 ^ 63
  register : isTimestamp (timestamp row.registerTime) = true ∧ row.registerTime % 1000 = 0
  refresh : isTimestamp (timestamp row.refreshTime) = true ∧ row.refreshTime % 1000 = 0
  expire : isTimestamp (timestamp row.expireTime) = true ∧ row.expireTime % 1000 = 0
  retired : ∀ t ∈ row.retiredTime, isTimestamp (timestamp t) = true ∧ t % 1000 = 0
  reclaim : isTimestamp (timestamp row.reclaimAfter) = true ∧ row.reclaimAfter % 1000 = 0

structure Mirrors (tables : LinkTables) (s : MemoryBoxes) : Prop where
  boxes : tables.rendezvous.rows = s.boxes.rows.map boxColumns
  deposits : tables.deposits.rows = s.deposits.map depositColumns
  fits : ∀ row ∈ s.boxes.rows, RowFits row
  whole : ∀ d ∈ s.deposits, d.createTime % 1000 = 0 ∧ d.pruneAfter % 1000 = 0

variable {tables : LinkTables} {s : MemoryBoxes} {id : Bytes} {row : LinkBoxRow}

theorem RowFits.admitted (h : RowFits row) : (boxColumns row).admitted = true := by
  have hrt : (row.retiredTime.map timestamp).all isTimestamp = true := by
    cases hr : row.retiredTime with
    | none => rfl
    | some t => exact (h.retired t hr).1
  have hn : (row.nextDepositId : ℤ) ≤ 3 := by exact_mod_cast h.next_le
  have hc : (row.depositCount : ℤ) ≤ 2 := by exact_mod_cast h.count_le
  have hp : (1 : ℤ) ≤ row.nextDepositId := by exact_mod_cast h.next_pos
  simp [MessageRendezvous.admitted, boxColumns, h.kind, h.card, h.publicCt, h.algId, hn, hc,
    h.idBytes, h.depositKey, h.collectKey, hp, isBigint_natCast h.refused, h.register.1,
    h.refresh.1, h.expire.1, hrt, h.reclaim.1]

theorem RowFits.linkBox (h : RowFits row) : (boxColumns row).linkBox = row.linkBox := by
  have hc : uint32 row.depositCount = row.depositCount :=
    uint32_natCast (Nat.lt_of_le_of_lt h.count_le (by decide))
  have ht : uint64 ((row.nextDepositId : ℤ) - 1) = row.nextDepositId - 1 := by
    have hp := h.next_pos
    have hcs : (row.nextDepositId : ℤ) - 1 = (row.nextDepositId - 1 : ℕ) := by omega
    rw [hcs]
    exact uint64_natCast (Nat.lt_of_le_of_lt (Nat.pred_le_pred h.next_le) (by decide))
  have hrf : uint64 row.refusedCount = row.refusedCount :=
    uint64_natCast (Nat.lt_of_lt_of_le h.refused (by decide))
  have hrt : (row.retiredTime.map timestamp).map instant = row.retiredTime := by
    cases hr : row.retiredTime with
    | none => rfl
    | some t => exact congrArg some (instant_timestamp_of_whole (h.retired t hr).2)
  simp only [MessageRendezvous.linkBox, boxColumns, LinkBoxRow.linkBox, Option.getD_some,
    LinkBox.mk.injEq, true_and]
  exact ⟨hc, ht, hrf, instant_timestamp_of_whole h.register.2,
    instant_timestamp_of_whole h.expire.2, hrt, instant_timestamp_of_whole h.reclaim.2⟩

theorem updateBoxes_map (hb : tables.rendezvous.rows = s.boxes.rows.map boxColumns)
    (cond : MessageRendezvous → Bool) (g : MessageRendezvous → MessageRendezvous)
    (hg : ∀ r, (g r).rendezvousId = r.rendezvousId) (f : LinkBoxRow → LinkBoxRow)
    (hs : ∀ r ∈ s.boxes.rows, (if cond (boxColumns r) then g (boxColumns r) else boxColumns r) =
      boxColumns (f r)) (hf : ∀ r ∈ s.boxes.rows, RowFits (f r)) :
    ∃ tables', tables.updateBoxes cond g hg = .ok tables' ∧
      tables'.rendezvous.rows = (s.boxes.rows.map f).map boxColumns ∧
      tables'.deposits = tables.deposits := by
  refine ⟨_, if_pos ?_, ?_, rfl⟩
  · rw [hb, List.all_map, List.all_eq_true]
    intro r hr
    have hr' := hs r hr
    by_cases hc : cond (boxColumns r) = true
    · rw [if_pos hc] at hr'
      simp [hr', (hf r hr).admitted]
    · simp [hc]
  · simp only [Table.map, hb, List.map_map]
    exact List.map_congr_left hs

section InsertBox

variable {row : MessageRendezvous} {now capColumn : ℤ}

theorem insertBox_of_find (ha : row.admitted = true)
    (hf : (tables.rendezvous.find row.rendezvousId).isSome) :
    tables.insertBox row now capColumn = pure (tables, false, tables.liveCount now) := by
  have hn : (tables.rendezvous.find row.rendezvousId).isNone = false := by
    rw [Option.isNone_eq_false_iff]
    exact hf
  rw [LinkTables.insertBox, Table.insert_of_find hf, hn, ha]
  split <;> rfl

theorem insertBox_of_full (hf : ¬ tables.liveCount now < capColumn) :
    tables.insertBox row now capColumn = pure (tables, false, tables.liveCount now) :=
  if_neg hf

theorem insertBox_of_room (ha : row.admitted = true)
    (hf : tables.rendezvous.find row.rendezvousId = none)
    (hr : tables.liveCount now < capColumn) :
    tables.insertBox row now capColumn =
      pure ({ tables with rendezvous := tables.rendezvous.insert row }, true,
        tables.liveCount now) := by
  rw [LinkTables.insertBox, if_pos hr, if_pos ha, hf]
  rfl

end InsertBox

/-- A transaction ends with an answer of memory and leaves tables that mirror it. -/
def Agrees {α : Type} (tables : LinkTables) (transaction : Except LinkError (Ended α))
    (next : MemoryBoxes × α) : Prop :=
  (tables.transact transaction).2 = .ok next.2 ∧ Mirrors (tables.transact transaction).1 next.1

variable {transaction : Except LinkError (Ended α)} {next : MemoryBoxes × α} {tables' : LinkTables}

theorem agrees_commit (hr : transaction = .ok (.commit tables' next.2))
    (h : Mirrors tables' next.1) :
    Agrees tables transaction next := by
  rw [hr]
  exact ⟨rfl, h⟩

theorem agrees_rollback (hr : transaction = .ok (.rollback next.2)) (h : Mirrors tables next.1) :
    Agrees tables transaction next := by
  rw [hr]
  exact ⟨rfl, h⟩

theorem agrees_update {deposits : List LinkDepositRow}
    (hb : tables'.rendezvous.rows = s.boxes.rows.map boxColumns)
    (hd : tables'.deposits.rows = deposits.map depositColumns)
    (hft : ∀ row ∈ s.boxes.rows, RowFits row)
    (hw : ∀ d ∈ deposits, d.createTime % 1000 = 0 ∧ d.pruneAfter % 1000 = 0)
    (hro : s.boxes.find id = some row) {f : LinkBoxRow → LinkBoxRow}
    (hf : ∀ r, (f r).rendezvousId = r.rendezvousId) {g : MessageRendezvous → MessageRendezvous}
    (hg : ∀ r, (g r).rendezvousId = r.rendezvousId) (hst : g (boxColumns row) = boxColumns (f row))
    (hn : RowFits (f row)) (answer : α) :
    Agrees tables (tables'.updateBoxes (·.rendezvousId = id) g hg >>= fun tables =>
      .ok (.commit tables answer)) (⟨s.boxes.modify id f hf, deposits⟩, answer) := by
  obtain ⟨hm, hid⟩ := Table.find_eq_some.mp hro
  have hu : ∀ r ∈ s.boxes.rows, r.rendezvousId = id → r = row := fun r hr hrd =>
    s.boxes.eq_of_key hr hm (hrd.trans hid.symm)
  have hrw : ∀ r ∈ s.boxes.rows, RowFits (if r.rendezvousId = id then f r else r) := by
    intro r hr
    split
    next hrd => exact hu r hr hrd ▸ hn
    · exact hft r hr
  obtain ⟨updated, hup, hb', hs⟩ := updateBoxes_map hb
    (fun r => r.rendezvousId = id) g hg (fun r => if r.rendezvousId = id then f r else r)
    (fun r hr => by
      change (if decide (r.rendezvousId = id) = true then _ else _) = _
      by_cases hrd : r.rendezvousId = id
      · rw [if_pos (decide_eq_true hrd), if_pos hrd, hu r hr hrd, hst]
      · rw [if_neg (by simpa using hrd), if_neg hrd]) hrw
  rw [hup]
  refine ⟨rfl, hb', (congrArg Table.rows hs).trans hd, fun r hr => ?_, hw⟩
  obtain ⟨r', hr', rfl⟩ := List.mem_map.mp hr
  exact hrw r' hr'

theorem rowSound_of_find (hs : s.Sound) (hr : s.boxes.find id = some row) :
    RowSound row (s.depositsAt id) := by
  have hv := hs id
  simpa [BoxView.Sound, MemoryBoxes.view, hr] using hv

namespace Mirrors

variable (h : Mirrors tables s)

include h

theorem find (id : Bytes) : tables.rendezvous.find id = (s.boxes.find id).map boxColumns :=
  Table.find_of_rows (fun _ => rfl) h.boxes id

theorem fits_of_find (hr : s.boxes.find id = some row) : RowFits row :=
  h.fits row (Table.find_eq_some.mp hr).1

theorem linkBoxOf (id : Bytes) : tables.linkBoxOf id = (s.boxes.find id).map (·.linkBox) := by
  rw [LinkTables.linkBoxOf, h.find]
  cases hr : s.boxes.find id with
  | none => rfl
  | some row => exact congrArg some (h.fits_of_find hr).linkBox

variable {pinned : LinkBox → Bytes} {p : LinkBoxRow → Bytes}

theorem liveLinkBox (id : Bytes) (now : Time) (pub : Bytes)
    (hp : ∀ row, pinned row.linkBox = p row) :
    tables.liveLinkBox id now pub pinned = (s.liveLinkBox id now pub p).map (·.linkBox) := by
  rw [LinkTables.liveLinkBox, h.linkBoxOf, MemoryBoxes.liveLinkBox]
  cases hr : s.boxes.find id with
  | none => rfl
  | some row =>
    rw [Option.map_some, Option.filter_some, Option.filter_some, hp]
    split <;> rfl

theorem transact_live (id : Bytes) (now : Time) (pub : Bytes)
    (hp : ∀ row, pinned row.linkBox = p row) {answer : α}
    {act : LinkBox → Except LinkError (Ended α)} {next : LinkBoxRow → MemoryBoxes × α}
    (ha : ∀ row, s.boxes.find row.rendezvousId = some row → row.rendezvousId = id →
      Agrees tables (act row.linkBox) (next row)) :
    let ended := tables.transact <|
      match tables.liveLinkBox id now pub pinned with
      | none => .ok (.rollback answer)
      | some box => act box
    let reached : MemoryBoxes × Except LinkBoxError α :=
      match s.liveLinkBox id now pub p with
      | none => (s, .ok answer)
      | some row => ((next row).1, .ok (next row).2)
    ended.2 = reached.2.mapError .store ∧ Mirrors ended.1 reached.1 := by
  rw [h.liveLinkBox id now pub hp]
  cases hl : s.liveLinkBox id now pub p with
  | none => exact ⟨rfl, h⟩
  | some row =>
    obtain ⟨hr, -, -⟩ := MemoryBoxes.liveLinkBox_eq_some.mp hl
    have hid := MemoryBoxes.rendezvousId_of_find hr
    exact ha row (by rwa [hid]) hid

theorem replayed (hr : s.boxes.find id = some row) (hs : s.Sound)
    (hash : Bytes) : tables.replayed row.linkBox hash =
      ((s.depositsAt row.rendezvousId).find? fun d => d.depositHash = hash).map fun d =>
        { reason := .ok
          depositId := d.depositId
          depositHash := some d.depositHash
          pendingCount := row.depositCount
          replayed := true } := by
  obtain rfl := MemoryBoxes.rendezvousId_of_find hr
  have hf : (s.depositsAt row.rendezvousId).find? (fun d => d.depositHash = hash) =
      s.deposits.find? fun d => d.rendezvousId = row.rendezvousId ∧ d.depositHash = hash := by
    rw [MemoryBoxes.depositsAt, List.find?_filter]
    simp only [decide_eq_true_eq]
  have hc : (tables.deposits.rows.find? fun d =>
      d.rendezvousId = row.linkBox.rendezvousId ∧ d.depositHash = hash) =
      (s.deposits.find? fun d => d.rendezvousId = row.rendezvousId ∧ d.depositHash = hash).map
        depositColumns := by
    rw [h.deposits, List.find?_map]
    rfl
  rw [LinkTables.replayed, hc, hf]
  cases hd : s.deposits.find? fun d =>
      d.rendezvousId = row.rendezvousId ∧ d.depositHash = hash with
  | none => rfl
  | some d =>
    have hat := List.find?_some hd
    simp only [decide_eq_true_eq] at hat
    have hm : d ∈ s.depositsAt row.rendezvousId :=
      List.mem_filter.mpr ⟨List.mem_of_find?_eq_some hd, by simpa using hat.1⟩
    have hsn := rowSound_of_find hs hr
    have hlt : d.depositId < 2 ^ 64 := Nat.lt_of_lt_of_le (hsn.range d hm).2
      (Nat.le_trans hsn.next_le (by decide))
    simp only [Option.map_some, depositColumns, uint64_natCast hlt, hat.2, LinkBoxRow.linkBox]

variable {now : Time}

theorem liveCount (hn : now % 1000 = 0) : tables.liveCount (timestamp now) = s.liveCount now := by
  rw [LinkTables.liveCount, MemoryBoxes.liveCount, h.boxes, List.countP_map]
  congr 1
  refine List.countP_congr fun row hr => ?_
  have hlt := timestamp_lt_iff hn (h.fits row hr).expire.2
  have hi : linkBoxTime now = now := by
    have hz : ∀ z : ℤ, z % 1000 = 0 → z - z % 1000 = z := by omega
    exact hz now hn
  simp [boxColumns, LinkBoxRow.linkBox, LinkBox.live, hlt, hi]

omit h in
theorem lt_capColumn_iff (cap : ℕ) {live : ℕ} (hl : live < maxInt64) :
    (live : ℤ) < (if cap < maxInt64 then (cap : ℤ) else maxInt64) ↔ ¬ cap ≤ live := by
  split <;> omega

theorem insert (hf : RowFits row) (hn : s.boxes.find row.rendezvousId = none) :
    Mirrors { tables with rendezvous := tables.rendezvous.insert (boxColumns row) }
      { s with boxes := s.boxes.insert row } where
  boxes := by
    have hn' : tables.rendezvous.find (boxColumns row).rendezvousId = none := by
      rw [h.find]
      exact congrArg (Option.map boxColumns) hn
    rw [Table.rows_insert hn', Table.rows_insert hn, h.boxes, List.map_append, List.map_singleton]
  deposits := h.deposits
  fits := by
    rw [Table.rows_insert hn]
    intro r hr
    rcases List.mem_append.mp hr with hr | hr
    · exact h.fits r hr
    · rw [List.mem_singleton.mp hr]
      exact hf
  whole := h.whole

omit h in
theorem registeredRow_fits {r : LinkBoxRegistration} {expire : Time} {ttl : ℤ} {liveCap : ℕ}
    {registration : Option LinkBoxRegistration}
    (hr : validateLinkBoxRegistration registration ttl liveCap = .ok r)
    (hn : isTimestamp (timestamp now) = true ∧ now % 1000 = 0)
    (he : isTimestamp (timestamp expire) = true ∧ expire % 1000 = 0) :
    RowFits (MemoryBoxes.registeredRow r now expire) := by
  obtain ⟨-, hid, hd, hc, hcr, -, -⟩ := validateLinkBoxRegistration_eq_ok.mp hr
  exact {
    kind := rfl
    card := rfl
    publicCt := hcr
    algId := rfl
    next_le := show 1 ≤ 3 by decide
    count_le := show 0 ≤ 2 by decide
    idBytes := hid
    depositKey := hd
    collectKey := hc
    next_pos := Nat.le_refl 1
    refused := show 0 < 2 ^ 63 by decide
    register := hn
    refresh := hn
    expire := he
    retired := fun _ ht => by cases ht
    reclaim := he }

theorem registerLinkBox (registration : Option LinkBoxRegistration) (now : Time) (ttl : ℤ)
    (liveCap : ℕ) (hnw : isTimestamp (timestamp now) = true)
    (he : isTimestamp (timestamp (linkBoxTime now + ttl)) = true)
    (hrm : s.boxes.rows.length < maxInt64) :
    (tables.registerLinkBox registration now ttl liveCap).2 =
        (s.registerLinkBox registration now ttl liveCap).2.mapError .store ∧
      Mirrors (tables.registerLinkBox registration now ttl liveCap).1
        (s.registerLinkBox registration now ttl liveCap).1 := by
  rw [← timestamp_linkBoxTime] at hnw he
  cases hr : validateLinkBoxRegistration registration ttl liveCap with
  | error e =>
    simp only [LinkTables.registerLinkBox, MemoryBoxes.registerLinkBox, hr]
    exact ⟨rfl, h⟩
  | ok r =>
    have hft := registeredRow_fits hr ⟨hnw, linkBoxTime_whole now⟩
      ⟨he, linkBoxTime_whole (linkBoxTime now + ttl)⟩
    have hc : LinkTables.registeredRow r (timestamp (linkBoxTime now))
        (timestamp (linkBoxTime (linkBoxTime now + ttl))) =
        boxColumns (MemoryBoxes.registeredRow r (linkBoxTime now)
          (linkBoxTime (linkBoxTime now + ttl))) := rfl
    have hl := h.liveCount (linkBoxTime_whole now)
    have hcp := lt_capColumn_iff liveCap
      (Nat.lt_of_le_of_lt (List.countP_le_length ..) hrm : s.liveCount (linkBoxTime now) < _)
    rw [← hl] at hcp
    simp only [LinkTables.registerLinkBox, hr, timeParameter_eq_pure hnw,
      timeParameter_eq_pure he, pure_bind, hc]
    generalize (if liveCap < maxInt64 then (liveCap : ℤ) else maxInt64) = capColumn at hcp ⊢
    cases hf : s.boxes.find r.rendezvousId with
    | some row =>
      have hs : tables.rendezvous.find r.rendezvousId = some (boxColumns row) := by
        rw [h.find, hf, Option.map_some]
      rw [insertBox_of_find hft.admitted (Option.isSome_of_eq_some hs)]
      simp only [MemoryBoxes.registerLinkBox, hr, hf, LinkTables.registeredAgain, h.linkBoxOf,
        pure_bind]
      exact ⟨rfl, h⟩
    | none =>
      have hn : tables.rendezvous.find r.rendezvousId = none := by
        rw [h.find, hf, Option.map_none]
      by_cases hfl : liveCap ≤ s.liveCount (linkBoxTime now)
      · have hle : ¬ tables.liveCount (timestamp (linkBoxTime now)) < capColumn := fun hlt =>
          hcp.mp hlt hfl
        rw [insertBox_of_full hle]
        simp only [MemoryBoxes.registerLinkBox, hr, hf, LinkTables.registeredAgain, h.linkBoxOf,
          Option.map_none, pure_bind, if_pos (Int.not_lt.mp hle), if_pos hfl]
        exact ⟨rfl, h⟩
      · rw [insertBox_of_room hft.admitted hn (hcp.mpr hfl)]
        simp only [MemoryBoxes.registerLinkBox, hr, hf, pure_bind, if_neg hfl]
        exact ⟨rfl, h.insert hft hf⟩

theorem linkBox (id : Bytes) : tables.linkBox id = (s.linkBox id).mapError .store := by
  rw [LinkTables.linkBox, MemoryBoxes.linkBox, h.linkBoxOf, failIf]
  by_cases hid : id.length ≠ rendezvousIdBytes
  · rw [if_pos hid, if_pos hid]
    rfl
  · rw [if_neg hid, if_neg hid]
    cases s.boxes.find id <;> rfl

variable {hash ct : Bytes}

theorem insertDeposit (hs : s.Sound) (hr : s.boxes.find row.rendezvousId = some row)
    (hn : ∀ d ∈ s.depositsAt row.rendezvousId, d.depositHash ≠ hash)
    (ha : (depositColumns (row.nextDeposit hash ct now)).admitted = true) :
    ∃ tables', tables.insertDeposit (depositColumns (row.nextDeposit hash ct now)) =
        pure (tables', true) ∧ tables'.rendezvous = tables.rendezvous ∧
      tables'.deposits.rows = (s.deposits ++ [row.nextDeposit hash ct now]).map depositColumns := by
  have hsn := rowSound_of_find hs hr
  have hat : ∀ d ∈ s.deposits, d.rendezvousId = row.rendezvousId →
      d ∈ s.depositsAt row.rendezvousId := fun d hd hid =>
    List.mem_filter.mpr ⟨hd, by simpa using hid⟩
  have han : (tables.deposits.rows.any fun d =>
      d.rendezvousId = (depositColumns (row.nextDeposit hash ct now)).rendezvousId ∧
      d.depositHash = (depositColumns (row.nextDeposit hash ct now)).depositHash) = false := by
    rw [h.deposits, List.any_map, List.any_eq_false]
    intro d hd
    simp only [Function.comp_apply, decide_eq_true_eq]
    rintro ⟨hid, hh⟩
    exact hn d (hat d hd hid) hh
  have hk : tables.deposits.find (depositColumns (row.nextDeposit hash ct now)).key = none := by
    rw [Table.find_eq_none, h.deposits]
    intro d' hd' hk
    obtain ⟨d, hd, rfl⟩ := List.mem_map.mp hd'
    simp only [MessageRendezvousDeposit.key, depositColumns, LinkBoxRow.nextDeposit,
      Prod.mk.injEq] at hk
    have hlt := (hsn.range d (hat d hd hk.1)).2
    omega
  have hb : tables.rendezvous.find (depositColumns (row.nextDeposit hash ct now)).rendezvousId =
      some (boxColumns row) := by
    change tables.rendezvous.find row.rendezvousId = _
    rw [h.find, hr, Option.map_some]
  refine ⟨⟨tables.rendezvous, tables.deposits.insert
    (depositColumns (row.nextDeposit hash ct now))⟩, ?_, rfl, ?_⟩
  · rw [LinkTables.insertDeposit, han, hk, hb, ha]
    rfl
  · rw [Table.rows_insert hk, h.deposits, List.map_append, List.map_singleton]

theorem insertDeposit_of_standing {d : LinkDepositRow} (hd : d ∈ s.depositsAt row.rendezvousId)
    (hh : d.depositHash = hash)
    (ha : (depositColumns (row.nextDeposit hash ct now)).admitted = true) :
    tables.insertDeposit (depositColumns (row.nextDeposit hash ct now)) = pure (tables, false) := by
  obtain ⟨hm, hid⟩ := List.mem_filter.mp hd
  have han : (tables.deposits.rows.any fun d =>
      d.rendezvousId = (depositColumns (row.nextDeposit hash ct now)).rendezvousId ∧
      d.depositHash = (depositColumns (row.nextDeposit hash ct now)).depositHash) = true := by
    rw [h.deposits, List.any_map, List.any_eq_true]
    refine ⟨d, hm, ?_⟩
    simp only [Function.comp_apply, decide_eq_true_eq]
    exact ⟨by simpa [depositColumns, LinkBoxRow.nextDeposit] using hid, hh⟩
  rw [LinkTables.insertDeposit, han, ha]
  rfl

theorem depositInto (hs : s.Sound) (hrw : s.boxes.find row.rendezvousId = some row)
    (hh : hash.length = 32) (hct : ct.length = linkDepositBytes)
    (hnw : isTimestamp (timestamp now) = true ∧ now % 1000 = 0)
    (hrf : row.refusedCount + 1 < 2 ^ 63) :
    Agrees tables (tables.depositInto row.linkBox hash ct now) (s.depositInto row hash ct now) := by
  have hsn := rowSound_of_find hs hrw
  have hf := h.fits_of_find hrw
  have hr := h.replayed hrw hs hash
  have ht : row.linkBox.depositsTaken = row.nextDepositId - 1 := rfl
  have hdp : int64 (row.linkBox.depositsTaken + 1) = row.nextDepositId := by
    have hn : row.linkBox.depositsTaken + 1 = row.nextDepositId := Nat.sub_add_cancel hf.next_pos
    rw [hn]
    exact int64_of_lt (Nat.lt_of_le_of_lt hf.next_le (by decide))
  unfold MemoryBoxes.depositInto
  by_cases hfl : linkBoxDeposits ≤ row.nextDepositId - 1
  · rw [LinkTables.depositInto, if_pos (ht ▸ hfl), hr]
    cases hd : (s.depositsAt row.rendezvousId).find? fun d => d.depositHash = hash with
    | some d => exact agrees_rollback rfl h
    | none =>
      simp only [if_pos hfl]
      apply agrees_update h.boxes h.deposits h.fits h.whole hrw
      · rfl
      · exact { hf with refused := hrf }
  · have he : timeParameter row.linkBox.expireTime = pure (timestamp row.expireTime) :=
      timeParameter_eq_pure hf.expire.1
    have hrm : row.nextDepositId ≤ 2 := by
      unfold linkBoxDeposits at hfl
      omega
    have ha : (depositColumns (row.nextDeposit hash ct now)).admitted = true := by
      have hle : (row.nextDepositId : ℤ) ≤ 2 := by exact_mod_cast hrm
      have hb := isBigint_natCast (Nat.lt_of_le_of_lt hf.next_le (by decide : 3 < 2 ^ 63))
      simp [MessageRendezvousDeposit.admitted, depositColumns, LinkBoxRow.nextDeposit, hh, hct,
        hle, hb, hnw.1, hf.expire.1]
    have hc : (⟨row.linkBox.rendezvousId, (row.nextDepositId : ℤ), hash, ct, timestamp now,
        timestamp row.expireTime⟩ : MessageRendezvousDeposit) =
        depositColumns (row.nextDeposit hash ct now) := rfl
    rw [LinkTables.depositInto, if_neg (ht ▸ hfl)]
    simp only [timeParameter_eq_pure hnw.1, he, hdp, hc, pure_bind]
    cases hd : (s.depositsAt row.rendezvousId).find? fun d => d.depositHash = hash with
    | some d =>
      have hm := List.mem_of_find?_eq_some hd
      have hsm : d.depositHash = hash := by simpa using List.find?_some hd
      rw [h.insertDeposit_of_standing hm hsm ha]
      refine agrees_rollback ?_ h
      simp only [pure_bind, hr, hd]
      rfl
    | none =>
      have hne : ∀ d ∈ s.depositsAt row.rendezvousId, d.depositHash ≠ hash := by simpa using hd
      obtain ⟨taken, hi, hrn, hds⟩ := h.insertDeposit hs hrw hne ha
      have htk : RowFits row.take := { hf with
        next_le := Nat.succ_le_succ hrm
        next_pos := Nat.succ_le_succ (Nat.zero_le _)
        count_le := by
          have hl := hsn.length_lt
          have hcn := hsn.count
          change row.depositCount + 1 ≤ 2
          omega }
      have hid : uint64 row.nextDepositId = row.nextDepositId :=
        uint64_natCast (Nat.lt_of_le_of_lt hf.next_le (by decide))
      have hp : (row.linkBox.depositCount + 1) % 2 ^ 32 = row.depositCount + 1 :=
        Nat.mod_eq_of_lt (Nat.lt_of_le_of_lt (Nat.succ_le_succ hf.count_le) (by decide))
      simp only [if_neg hfl, hi, pure_bind, if_true, hid, hp]
      apply agrees_update (hrn ▸ h.boxes) hds h.fits _ hrw
      · rfl
      · exact htk
      · intro d hd
        rcases List.mem_append.mp hd with hd | hd
        · exact h.whole d hd
        · rw [List.mem_singleton.mp hd]
          exact ⟨hnw.2, hf.expire.2⟩

theorem depositLinkBox {sha256 : Bytes → Bytes} (hsh : ∀ bytes, (sha256 bytes).length = 32)
    (hs : s.Sound) (id pub ct : Bytes) (now : Time) (hn : isTimestamp (timestamp now) = true)
    (hr : ∀ row, s.boxes.find id = some row → row.refusedCount + 1 < 2 ^ 63) :
    (tables.depositLinkBox sha256 id pub ct now).2 =
        (s.depositLinkBox sha256 id pub ct now).2.mapError .store ∧
      Mirrors (tables.depositLinkBox sha256 id pub ct now).1
        (s.depositLinkBox sha256 id pub ct now).1 := by
  rw [← timestamp_linkBoxTime] at hn
  cases hv : validateLinkBoxDeposit id pub ct with
  | error e =>
    simp only [LinkTables.depositLinkBox, MemoryBoxes.depositLinkBox, hv]
    exact ⟨rfl, h⟩
  | ok _ =>
    have hct : ct.length = linkDepositBytes := by
      simp only [validateLinkBoxDeposit, bind_eq_ok, failIf_eq_ok, not_not] at hv
      exact hv.2.2
    simp only [LinkTables.depositLinkBox, MemoryBoxes.depositLinkBox, hv]
    refine h.transact_live id _ pub (fun _ => rfl) fun row hrw hid => ?_
    exact h.depositInto hs hrw (hsh ct) hct ⟨hn, linkBoxTime_whole now⟩ (hr row (hid ▸ hrw))

omit h in
theorem standing {ds : List LinkDepositRow}
    (hr : (tables.deposits.rows.filter fun d => d.rendezvousId = id) = ds.map depositColumns)
    (hi : (ds.map (·.depositId)).Pairwise (· < ·)) (hlt : ∀ d ∈ ds, d.depositId < 2 ^ 64)
    (hw : ∀ d ∈ ds, d.createTime % 1000 = 0) :
    tables.standing id = ds.map fun d =>
      { depositId := d.depositId, depositCt := d.depositCt, createTime := d.createTime } := by
  have hs : (ds.map depositColumns).mergeSort (fun a b => a.depositId ≤ b.depositId) =
      ds.map depositColumns := by
    refine List.mergeSort_of_pairwise ?_
    rw [List.pairwise_map]
    exact (List.pairwise_map.mp hi).imp fun hlt =>
      decide_eq_true (Int.ofNat_le.mpr (Nat.le_of_lt hlt))
  rw [LinkTables.standing, hr, hs, List.map_map]
  refine List.map_congr_left fun d hd => ?_
  simp only [Function.comp_apply, depositColumns, uint64_natCast (hlt d hd),
    instant_timestamp_of_whole (hw d hd)]

omit h in
theorem le_linkBoxDepositIdColumn_iff (ack : ℕ) {n : ℕ} (hn : n ≤ maxInt64) :
    (n : ℤ) ≤ LinkTables.linkBoxDepositIdColumn ack ↔ n ≤ ack := by
  unfold LinkTables.linkBoxDepositIdColumn
  split <;> omega

theorem collectFrom (hs : s.Sound)
    (hro : s.boxes.find row.rendezvousId = some row) (request : LinkBoxCollectRequest) :
    Agrees tables (tables.collectFrom row.linkBox request) (s.collectFrom row request) := by
  have hsn := rowSound_of_find hs hro
  have hf := h.fits_of_find hro
  have hat : ∀ d ∈ s.deposits, d.rendezvousId = row.rendezvousId →
      d ∈ s.depositsAt row.rendezvousId := fun d hd hid =>
    List.mem_filter.mpr ⟨hd, by simpa using hid⟩
  have hsm : ∀ d ∈ s.depositsAt row.rendezvousId, d.depositId ≤ 2 := fun d hd => by
    have hlt := (hsn.range d hd).2
    have hle := hsn.next_le
    omega
  set kept := (s.depositsAt row.rendezvousId).filter fun d =>
    request.ackThroughDepositId < d.depositId with hk
  have hdp : (tables.deposits.rows.filter fun d =>
      !decide (d.rendezvousId = row.rendezvousId ∧
        d.depositId ≤ LinkTables.linkBoxDepositIdColumn request.ackThroughDepositId)) =
      (s.deposits.filter fun d => d.rendezvousId ≠ row.rendezvousId ∨
        request.ackThroughDepositId < d.depositId).map depositColumns := by
    rw [h.deposits, List.filter_map]
    refine congrArg _ (List.filter_congr fun d hd => ?_)
    by_cases hid : d.rendezvousId = row.rendezvousId
    · have hle := le_linkBoxDepositIdColumn_iff request.ackThroughDepositId
        (Nat.le_trans (hsm d (hat d hd hid)) (by decide))
      rw [Bool.eq_iff_iff]
      simp [depositColumns, hid, hle]
    · simp [depositColumns, hid]
  have hst : ∀ tables' : LinkTables, tables'.deposits.rows = (s.deposits.filter fun d =>
      d.rendezvousId ≠ row.rendezvousId ∨ request.ackThroughDepositId < d.depositId).map
        depositColumns → tables'.standing row.rendezvousId = kept.map fun d =>
      { depositId := d.depositId, depositCt := d.depositCt, createTime := d.createTime } := by
    intro tables' hrw
    refine standing ?_ (hsn.increasing.sublist (List.filter_sublist.map _))
      (fun d hd => Nat.lt_of_le_of_lt (hsm d (List.mem_of_mem_filter hd)) (by decide))
      fun d hd => (h.whole d (List.mem_of_mem_filter (List.mem_of_mem_filter hd))).1
    rw [hrw, List.filter_map]
    exact congrArg _ MemoryBoxes.filter_kept
  have hl : kept.length ≤ 2 := by
    have hle : kept.length ≤ (s.depositsAt row.rendezvousId).length := List.length_filter_le ..
    have hlt := hsn.length_lt
    have hn := hsn.next_le
    omega
  have hc : RowFits (row.collect kept.length) :=
    { hf with count_le := hl, refused := show 0 < 2 ^ 63 by decide }
  have hi : int32 kept.length = kept.length := int32_of_lt (Nat.lt_of_le_of_lt hl (by decide))
  have hm : kept.length % 2 ^ 32 = kept.length :=
    Nat.mod_eq_of_lt (Nat.lt_of_le_of_lt hl (by decide))
  have hr : (tables.deleteDeposits fun d => d.rendezvousId = row.linkBox.rendezvousId ∧
      d.depositId ≤ LinkTables.linkBoxDepositIdColumn request.ackThroughDepositId).standing
        row.linkBox.rendezvousId = _ := hst _ hdp
  rw [LinkTables.collectFrom]
  simp only [hr, List.length_map, hm]
  apply agrees_update _ hdp h.fits (fun d hd => h.whole d (List.mem_of_mem_filter hd)) hro
  · rw [hi]
    rfl
  · exact hc
  · exact h.boxes

theorem collectLinkBox (hs : s.Sound) (request : Option LinkBoxCollectRequest) (now : Time) :
    (tables.collectLinkBox request now).2 = (s.collectLinkBox request now).2.mapError .store ∧
      Mirrors (tables.collectLinkBox request now).1 (s.collectLinkBox request now).1 := by
  cases request with
  | none => exact ⟨rfl, h⟩
  | some request =>
    cases hv : validateLinkBoxAct request.rendezvousId request.verifiedPub with
    | error e =>
      simp only [LinkTables.collectLinkBox, MemoryBoxes.collectLinkBox, hv]
      exact ⟨rfl, h⟩
    | ok _ =>
      simp only [LinkTables.collectLinkBox, MemoryBoxes.collectLinkBox, hv]
      exact h.transact_live _ _ _ (fun _ => rfl) fun _ hr _ => h.collectFrom hs hr request

theorem retireBox (hs : s.Sound) (hrw : s.boxes.find row.rendezvousId = some row)
    (hn : isTimestamp (timestamp now) = true ∧ now % 1000 = 0) :
    Agrees tables (tables.retireBox row.linkBox now) (s.retireBox row now) := by
  have hsn := rowSound_of_find hs hrw
  have hf := h.fits_of_find hrw
  have hdp : (tables.deposits.rows.filter fun d => !decide (d.rendezvousId =
      row.rendezvousId)) = (s.deposits.filter fun d => d.rendezvousId ≠ row.rendezvousId).map
        depositColumns := by
    rw [h.deposits, List.filter_map]
    refine congrArg _ (List.filter_congr fun d _ => ?_)
    change (!decide (d.rendezvousId = row.rendezvousId)) = _
    simp
  have hds : (tables.deposits.rows.countP fun d => d.rendezvousId = row.linkBox.rendezvousId) %
      2 ^ 32 = (s.depositsAt row.rendezvousId).length := by
    rw [h.deposits, List.countP_map, List.countP_eq_length_filter]
    have hlt := hsn.length_lt
    have hle := hsn.next_le
    exact Nat.mod_eq_of_lt (by change (s.depositsAt row.rendezvousId).length < _; omega)
  have hr : RowFits (row.retire now) := { hf with
    count_le := Nat.zero_le _
    retired := fun t ht => by
      rw [← Option.some.inj ht]
      exact hn }
  rw [LinkTables.retireBox]
  simp only [timeParameter_eq_pure hn.1, pure_bind, hds]
  apply agrees_update _ hdp h.fits (fun d hd => h.whole d (List.mem_of_mem_filter hd)) hrw
  · rfl
  · exact hr
  · exact h.boxes

theorem retireLinkBox (hs : s.Sound) (id pub : Bytes) (now : Time)
    (hn : isTimestamp (timestamp now) = true) :
    (tables.retireLinkBox id pub now).2 = (s.retireLinkBox id pub now).2.mapError .store ∧
      Mirrors (tables.retireLinkBox id pub now).1 (s.retireLinkBox id pub now).1 := by
  rw [← timestamp_linkBoxTime] at hn
  cases hv : validateLinkBoxAct id pub with
  | error e =>
    simp only [LinkTables.retireLinkBox, MemoryBoxes.retireLinkBox, hv]
    exact ⟨rfl, h⟩
  | ok _ =>
    simp only [LinkTables.retireLinkBox, MemoryBoxes.retireLinkBox, hv]
    exact h.transact_live _ _ _ (fun _ => rfl) fun _ hr _ =>
      h.retireBox hs hr ⟨hn, linkBoxTime_whole now⟩

theorem liveLinkBoxes (hn : isTimestamp (timestamp now) = true)
    (hr : s.boxes.rows.length < maxInt64) :
    tables.liveLinkBoxes now = .ok (s.liveLinkBoxes now) := by
  rw [← timestamp_linkBoxTime] at hn
  have hlt : s.liveCount (linkBoxTime now) < 2 ^ 64 :=
    Nat.lt_of_le_of_lt (List.countP_le_length ..) (Nat.lt_trans hr (by decide))
  simp only [LinkTables.liveLinkBoxes, timeParameter_eq_pure hn, pure_bind,
    h.liveCount (linkBoxTime_whole now), uint64_natCast hlt]
  rfl

end Mirrors

end MessageServer.Pgx
