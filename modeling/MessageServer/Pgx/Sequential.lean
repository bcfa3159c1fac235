import MessageServer.Pgx.Prune
import MessageServer.Pgx.Ranges
import MessageServer.Store.Retry

/-! # Calls one after another on the two stores

The same calls, run one at a time on the store in memory and on the SQL store: the
database goes on holding the groups in memory, to the microsecond, and both
answer alike. Calls that are interleaved in memory leave what some of them leave
one at a time.
-/

namespace MessageServer.Pgx

open Store Transaction Interleaving

section Calls

variable {store : PgxStore} {d : Database} {s : MemoryStore}

/-- The call converts and writes only values that fit their columns. -/
def Suits (store : PgxStore) (draw : Draw) (s : MemoryStore) (request : Request) : Prop :=
  NarrowCall request ∧ CallFits store draw s request

/-- The two stores after the same calls. -/
inductive Together (store : PgxStore) : Database → MemoryStore → Prop
  | empty : Together store ∅ .empty
  | after {d : Database} {s : MemoryStore} (h : Together store d s) (draw : Draw)
      {request : Request} (hf : Suits store draw s request) :
      Together store (perform store draw d request).1 (call store.toConfig draw.now s request).1

theorem Together.each {P : MemoryGroup → Prop}
    (hP : ∀ now o g, GroupStep store.toConfig now o g → (∀ g₀, o = some g₀ → P g₀) → P g)
    (h : Together store d s) : s.Each P := by
  induction h with
  | empty => exact fun _ _ h => nomatch h
  | after _ draw _ ih => exact (call_step store.toConfig draw.now _ _).each (hP draw.now) ih

theorem Together.next (hl : Bounded store.limits) (h : Together store d s)
    (hd : HoldsStore store.keys d s) {draw : Draw} {request : Request}
    (hf : Suits store draw s request) :
    HoldsStore store.keys (perform store draw d request).1
        (call store.toConfig draw.now s request).1 ∧
      SameAnswer (perform store draw d request).2 (call store.toConfig draw.now s request).2 :=
  perform_beside hd (call_meets hl hd (h.each fun _ _ _ h => h.sound)
    (h.each fun _ _ _ h => h.custody) hf.1 id) (.inl hf.2)

theorem Together.holds (hl : Bounded store.limits) (h : Together store d s) :
    HoldsStore store.keys d s := by
  induction h with
  | empty => exact holdsStore_empty store.keys
  | after h draw hf ih => exact (h.next hl ih hf).1

/-- After any calls the database holds the groups in memory, and the next call is answered alike. -/
theorem calls_together (hl : Bounded store.limits) (h : Together store d s) :
    HoldsStore store.keys d s ∧ ∀ draw request, Suits store draw s request →
      SameAnswer (perform store draw d request).2
        (call store.toConfig draw.now s request).2 :=
  ⟨h.holds hl, fun _ _ hf => (h.next hl (h.holds hl) hf).2⟩

end Calls

section Tables

variable {store : PgxStore} {d : Database} {s : MemoryStore} {groupId : Bytes} {g : MemoryGroup}

/-- The rows of a group follow its counters, and its claims follow its records. -/
structure InOrder (d : Database) (groupId : Bytes) (group : MessageGroup) : Prop where
  records : ∀ z, d.lookup (.record groupId z) ≠ none ↔ 1 ≤ z ∧ z < group.nextRecordId
  commits : ∀ z, d.lookup (.commit groupId z) ≠ none ↔ 0 ≤ z ∧ z < group.currentEpoch
  claimed : ∀ z (r : MessageRecord), d.lookup (.record groupId z) = some r →
    ∃ c : MessageStreamClaim, d.lookup (.claim groupId r.senderHandle r.streamIndex) = some c ∧
      c.recordId = z
  claims : ∀ handle z (c : MessageStreamClaim), d.lookup (.claim groupId handle z) = some c →
    ∃ r : MessageRecord, d.lookup (.record groupId c.recordId) = some r ∧
      r.senderHandle = handle ∧ r.streamIndex = z
  ordered : ∀ z z' (r r' : MessageRecord), d.lookup (.record groupId z) = some r →
    d.lookup (.record groupId z') = some r' → z < z' → r.epoch ≤ r'.epoch ∧
      (r.senderHandle = r'.senderHandle → r.streamIndex < r'.streamIndex)

variable {ring : KekRing} {cfg : Config}

theorem HoldsGroup.record_iff (h : HoldsGroup ring groupId d g) (hs : Sound cfg g) {z : ℤ}
    {r : MessageRecord} : d.lookup (.record groupId z) = some r ↔
      ∃ row ∈ g.records, row.record.recordId = z ∧ storedColumns row = r := by
  rw [h.record, Option.map_eq_some_iff]
  constructor
  · rintro ⟨row, hr, rfl⟩
    cases z with
    | ofNat n =>
      exact ⟨row, List.mem_of_find?_eq_some hr, congrArg Nat.cast (of_decide_eq_true
        (List.find?_some (p := fun r : RecordRow => r.id = n) hr)), rfl⟩
    | negSucc n => cases hr
  · rintro ⟨row, hr, rfl, rfl⟩
    exact ⟨row, recordAt_of_mem hs hr, rfl⟩

theorem HoldsGroup.inOrder (h : HoldsGroup ring groupId d g) (hs : Sound cfg g) :
    InOrder d groupId (groupColumns g) where
  records z := by
    have hm : ∀ n, n ∈ g.records.map (·.record.recordId) ↔ 1 ≤ n ∧ n < g.nextRecordId := by
      intro n
      have hn := hs.groupLog.next_pos
      rw [hs.groupLog.ids, List.mem_range'_1]
      omega
    rw [Option.ne_none_iff_exists']
    change _ ↔ 1 ≤ z ∧ z < (g.nextRecordId : ℤ)
    constructor
    · rintro ⟨r, hr⟩
      obtain ⟨row, hrow, rfl, -⟩ := (h.record_iff hs).mp hr
      exact_mod_cast (hm _).mp (List.mem_map_of_mem hrow)
    · rintro ⟨hz, hn⟩
      obtain ⟨n, rfl⟩ := Int.eq_ofNat_of_zero_le (by omega : 0 ≤ z)
      obtain ⟨row, hr, rfl⟩ := List.mem_map.mp ((hm n).mpr (by omega))
      exact ⟨_, (h.record_iff hs).mpr ⟨row, hr, rfl, rfl⟩⟩
  commits z := by
    rw [h.commit, ne_eq, Option.map_eq_none_iff, ← ne_eq, Option.ne_none_iff_exists', groupColumns]
    cases z with
    | ofNat n => exact (hs.groupLog.commits n).trans (by simp)
    | negSucc n => simp [natAt]
  claimed z r hr := by
    obtain ⟨row, hrow, rfl, rfl⟩ := (h.record_iff hs).mp hr
    refine ⟨claimColumns (claimOf cfg row), ?_, rfl⟩
    rw [h.claim]
    exact congrArg (Option.map claimColumns) (hs.groupLog.claimed row hrow)
  claims handle z c hc := by
    rw [h.claim, Option.map_eq_some_iff] at hc
    obtain ⟨claim, hc, rfl⟩ := hc
    cases z with
    | ofNat n =>
      obtain ⟨row, hr, hk, rfl⟩ := hs.groupLog.claims _ _ hc
      obtain ⟨hh, hi⟩ := ClaimKey.mk.inj hk
      exact ⟨_, (h.record_iff hs).mpr ⟨row, hr, rfl, rfl⟩, hh, congrArg Nat.cast hi⟩
    | negSucc n => cases hc
  ordered z z' r r' hr hr' hz := by
    obtain ⟨row, hrow, rfl, rfl⟩ := (h.record_iff hs).mp hr
    obtain ⟨row', hrow', rfl, rfl⟩ := (h.record_iff hs).mp hr'
    have hi : (g.records.map (·.record.recordId)).Pairwise (· < ·) := by
      rw [hs.groupLog.ids]
      exact List.pairwise_lt_range' ..
    have hp := List.pairwise_iff_getElem.mp ((List.pairwise_map.mp hi).and
      (hs.groupLog.epochs.and hs.groupLog.streams))
    obtain ⟨m, hm, rfl⟩ := List.getElem_of_mem hrow
    obtain ⟨n, hn, rfl⟩ := List.getElem_of_mem hrow'
    rcases lt_trichotomy m n with hlt | rfl | hgt
    · obtain ⟨-, he, hst⟩ := hp m n hm hn hlt
      exact ⟨Int.ofNat_le.mpr he, fun hh => Int.ofNat_lt.mpr (hst hh)⟩
    · exact (lt_irrefl _ hz).elim
    · exact (hz.asymm (by exact_mod_cast (hp n m hn hm hgt).1)).elim

/-- After any calls the rows of every group are in order. -/
theorem tables_in_order (hl : Bounded store.limits) (h : Together store d s)
    {group : MessageGroup} (hg : d.lookup (.group groupId) = some group) :
    InOrder d groupId group := by
  have hd := h.holds hl
  cases hs : s.groups groupId with
  | none => cases (hd.others (.group groupId) hs).symm.trans hg
  | some g =>
    have hh := hd.groups _ g hs
    cases hh.group.symm.trans hg
    exact hh.inOrder (h.each (fun _ _ _ h => h.sound) _ g hs)

end Tables

section Interleaved

variable {cfg : Config} {now : Time} {s s₀ : MemoryStore} {request : SubmitRequest}
  {g g' : MemoryGroup} {batch : List Pending}

theorem unclaimed_of_appends {L : Ledger} {complete : Bool} {keys : Option EpochKeyDelivery}
    {id : ℕ} {records : List Record} (h : Represents cfg g L) (hid : id = L.log.length + 1)
    (ha : Appends cfg now complete keys g id records g') :
    ∀ record ∈ records, g.claims (claimKeyOf record) = none := by
  induction ha generalizing L with
  | nil => exact fun _ h => (List.not_mem_nil h).elim
  | cons hr _ ih =>
    refine List.forall_mem_cons.mpr ⟨h.unclaimed hr.stream, fun record hm => ?_⟩
    have hn := ih (h.write hr now hid) (by simp [Ledger.append, hid]) record hm
    cases hc : MemoryGroup.claims _ (claimKeyOf record) with
    | none => rfl
    | some c => cases hn.symm.trans ((h.write_grows hr now _).claims _ c hc)

/-- What a probe left to write and the lock lets through, a probe under the lock leaves as well. -/
theorem submitProbe_of_appends (hs : Sound cfg g) (hg : s.groups request.groupId = some g)
    (h₀ : StoreGrows s₀ s) (hp : submitProbe cfg s₀ request = .waiting batch)
    (ha : Appends cfg now g.epochComplete request.epochKeys (g.reserve (fresh batch).length)
      g.nextRecordId (fresh batch) g') : submitProbe cfg s request = .waiting batch := by
  obtain ⟨hb, -, g₀, hg₀⟩ := submitProbe_waiting hp
  obtain ⟨g₁, hg₁, hgr⟩ := h₀ _ g₀ hg₀
  cases hg.symm.trans hg₁
  obtain ⟨L, hL, hn⟩ := hs
  have hu := unclaimed_of_appends (hL.reserve _) hn ha
  rw [hb, probed_of_group hg₀] at hu
  have he : probed cfg s request = probed cfg s₀ request := by
    rw [probed_of_group hg, probed_of_group hg₀]
    refine List.map_congr_left fun record hr => ?_
    unfold probeRecord Store.probeOne
    cases hc : g₀.claims (claimKeyOf record) with
    | some c => rw [hgr.claims _ c hc]
    | none =>
      have hf : record ∈ fresh (startBatch cfg g₀ request.records) := by
        rw [fresh_startBatch, unmatched, List.mem_filter]
        exact ⟨hr, by simp [matchedId, hc]⟩
      rw [show g.claims (claimKeyOf record) = none from hu record hf]
  rw [← hp]
  unfold submitProbe
  rw [he, hg, hg₀]

def replyOf : Call → Option (Except Store.Error Reply)
  | .created _ result => some (result.map .created)
  | .closed _ result => some (result.map fun _ => .closed)
  | .failed _ e => some (.error e)
  | .submitted _ batch => some (.ok (.submitted (resultsOf batch)))
  | _ => none

theorem step_call (hs : s.Each (Sound cfg)) {c : Call} (hc : c.ReadFrom cfg (StoreGrows · s)) :
    (c.step cfg now s).1 = s ∨ (c.step cfg now s).1 = (call cfg now s c.request).1 ∧
      replyOf (c.step cfg now s).2 = some (call cfg now s c.request).2 := by
  cases c with
  | start request =>
    cases request with
    | createGroup | closeGroup => exact .inr ⟨rfl, rfl⟩
    | submit request =>
      left
      unfold Call.step
      dsimp only
      split
      · rfl
      · split <;> rfl
  | waiting request batch =>
    obtain ⟨hv, s₀, h₀, hp⟩ := hc
    obtain ⟨hb, -, g₀, hg₀⟩ := submitProbe_waiting hp
    obtain ⟨g, hg, -⟩ := h₀ _ g₀ hg₀
    have ha : Alone (batch.map (·.record)) := by
      rw [hb, map_record_settle, map_record_probed]
      exact alone_of_validateSubmit hv
    simp only [Call.step, hg]
    rcases submitLocked_group cfg now g request.epochKeys ha with h | ⟨-, h⟩
    · rw [h, MemoryStore.setGroup_eq_self hg]
      exact .inl rfl
    · refine .inr ?_
      have hu := submitProbe_of_appends (hs _ _ hg) hg h₀ hp h
      simp only [call, Call.request, Store.submit, submitBatch, hv, hu, hg]
      exact ⟨trivial, rfl⟩
  | created | closed | failed | answering | submitted => exact .inl rfl

theorem atomic (cfg : Config) : (machine cfg).Atomic (MemoryStore.Each (Sound cfg))
    (fun s c => c.ReadFrom cfg (StoreGrows · s)) (call cfg) Call.request replyOf where
  invariant := soundness cfg
  named _ _ c := c.request_step
  ended _ _ c hc := by
    cases c with
    | start | answering | waiting => exact (hc rfl).elim
    | created | closed | failed | submitted => rfl
  step _ _ _ hs hc := step_call hs hc

/--
The groups that any interleaving of calls leaves are those that some of its calls leave, made one
at a time in the order of their steps, and each of these is replied to alike.
-/
theorem interleaved_calls_serial {ι : Type*} [DecidableEq ι] (cfg : Config)
    (requests : ι → Request) (sched : List (ι × Time)) :
    ∃ order, order.Sublist sched ∧ Serial (call cfg) requests .empty
      (fun i => replyOf ((run cfg requests sched).calls i)) order
      (run cfg requests sched).shared :=
  (atomic cfg).serial (w := initial .empty requests) each_sound_empty (fun _ => trivial) sched

end Interleaved

open Store.Sample (groupId)

namespace Sample

def media : Request := Store.Sample.submit [Store.Sample.expiring]

theorem narrow_expiring : Narrow Store.Sample.expiring :=
  narrow_of_typed ⟨by decide, by decide, by decide, by rintro _ ⟨⟩⟩
    (valid_of_validateRecord (by decide +kernel)) (by decide +kernel)

/-- The rows of a record that a group stores next fit, as `Room` has it of a batch of one. -/
def rowsFit (now : Time) (record : Record) (g : MemoryGroup) : Bool :=
  let stamped := stamp record g.nextRecordId
  let advanced := (g.reserve 1).advance store.toConfig now (g.reserve 1).currentEpoch none stamped
  decide (g.nextRecordId + 1 < 2 ^ 63) &&
    admits (.claim groupId stamped.senderHandle (int64 stamped.streamIndex))
      (claimRow store.toConfig stamped now) &&
    admits (.record groupId (int64 stamped.recordId)) (recordRow stamped now
      (pruneAfter now stamped.retentionClass advanced.mediaTtlSeconds advanced.durableTtlSeconds)
      advanced.policyVersion) &&
    admits (.sender groupId stamped.senderHandle)
      ⟨stamped.streamIndex, 1, recordBytes stamped, timestamp now⟩ &&
    ((g.reserve 1).senders stamped.senderHandle).all fun sender =>
      admits (.sender groupId stamped.senderHandle) ⟨stamped.streamIndex,
        sender.recordCount + 1, sender.byteCount + recordBytes stamped, timestamp now⟩

theorem callFits_single {now : Time} {s : MemoryStore} {record : Record}
    (hc : record.isCommit = false) (ht : recoveryTagOf record = none)
    (hf : fresh (settle (probed store.toConfig s
      ⟨groupId, [record], none⟩)) = [record])
    (hr : (s.groups groupId).all (rowsFit now record) = true) :
    CallFits store (draw now) s (Store.Sample.submit [record]) := by
  intro g _ hg _
  rw [show s.groups groupId = some g from hg, Option.all_some] at hr
  simp only [rowsFit, Bool.and_eq_true, decide_eq_true_eq, Option.all_eq_true] at hr
  obtain ⟨⟨⟨⟨hi, hcl⟩, hrw⟩, hsn⟩, hct⟩ := hr
  change Room store groupId (draw now) g none
    (fresh (settle (probed store.toConfig s ⟨groupId, [record], none⟩)))
  rw [hf]
  exact ⟨hi, ⟨fun h => absurd (hc.symm.trans h) nofun, hcl, hrw,
    fun _ h => absurd (ht.symm.trans h) nofun, hsn, hct⟩, trivial⟩

theorem suits_founding : Suits store (draw 0) .empty Store.Sample.createGroup := by
  refine ⟨by rintro _ ⟨⟩ -; exact narrow_commit, ?_⟩
  rintro _ _ ⟨⟩ - - - ⟨⟩
  exact ⟨⟨rfl, by decide, by decide +kernel, by decide +kernel, rfl, by decide⟩,
    by decide +kernel, by decide +kernel, nofun, by decide +kernel⟩

theorem founded_together : Together store founded foundedStore := by
  refine .after (.after .empty (draw 0) suits_founding) (draw 2) ⟨?_, ?_⟩
  · rintro - _ hr
    rw [List.mem_singleton.mp hr]
    exact narrow_marker
  · exact callFits_single rfl rfl (by decide +kernel) (by decide +kernel)

theorem suits_media : Suits store (draw 3) foundedStore media := by
  refine ⟨?_, callFits_single rfl rfl (by decide +kernel) (by decide +kernel)⟩
  rintro - _ hr
  rw [List.mem_singleton.mp hr]
  exact narrow_expiring

end Sample

open Sample

theorem calls_together_media : SameAnswer (perform store (draw 3) founded media).2
    (call store.toConfig 3 foundedStore media).2 :=
  (calls_together bounded_store founded_together).2 _ _ suits_media

theorem tables_in_order_founded : ∃ group, founded.lookup (.group groupId) = some group ∧
      InOrder founded groupId group := by
  obtain ⟨g, hg⟩ : ∃ g, foundedStore.groups groupId = some g :=
    Option.isSome_iff_exists.mp (by decide +kernel)
  have hh := ((founded_together.holds bounded_store).groups _ g hg).group
  exact ⟨_, hh, tables_in_order bounded_store founded_together hh⟩

/-- The time to prune a record at is kept to the nanosecond in memory alone. -/
theorem prune_times_apart : ∃ d s g row column, Together store d s ∧
    s.groups groupId = some g ∧ row ∈ g.records ∧
    d.lookup (.record groupId row.record.recordId) = some column ∧
    (column : MessageRecord).pruneAfter.map instant ≠ row.pruneAfter := by
  have h := founded_together.after (draw 3) suits_media
  obtain ⟨g, row, hg, hrow, hp⟩ := exists_row_of_any (call store.toConfig 3 foundedStore media).1
    groupId (fun _ row => row.pruneAfter = some (3 + 2592000 * second)) (by decide +kernel)
  refine ⟨_, _, g, row, storedColumns row, h, hg, hrow, ?_, ?_⟩
  · rw [((h.holds bounded_store).groups _ g hg).record, natAt_natCast,
      recordAt_of_mem (h.each (fun _ _ _ h => h.sound) _ g hg) hrow]
    rfl
  · change (row.pruneAfter.map timestamp).map instant ≠ row.pruneAfter
    rw [of_decide_eq_true hp]
    decide

end MessageServer.Pgx
