import MessageServer.Pgx.Holds
import MessageServer.Store.Log

/-! # Prune times

The retention rule prunes a record at the earlier of the deadline of its class
and its own expiry. What is stored is the deadline of the class alone, without
the grace of the ephemeral classes.
-/

namespace MessageServer.Store

open Interleaving

section Rule

def grace : Time := 3600 * second

def classDeadline (accepted : Time) (retentionClass mediaTtl : ℕ) (durableTtl : Option ℕ) :
    Option Time :=
  if retentionClass = classPermanent then none
  else if retentionClass = classDurable then durableTtl.map fun ttl => accepted + ttl * second
  else if retentionClass = classMedia then some (accepted + mediaTtl * second)
  else some (accepted + ephBucketSeconds.getD (retentionClass - classEphBase) 0 * second + grace)

/-- The instant that a record declares its own end, `none` for a record that declares none. -/
def expiry (record : Record) : Option Time :=
  if record.expireAtMs = 0 then none else some (record.expireAtMs * 1000000)

/-- The prune time of the retention rule: the earlier of the two, where `none` is never. -/
def ruledPrune (accepted : Time) (record : Record) (mediaTtl : ℕ) (durableTtl : Option ℕ) :
    Option Time :=
  (classDeadline accepted record.retentionClass mediaTtl durableTtl).merge min (expiry record)

/--
A lasting record declares no end before its class does; an ephemeral one, the end of its bucket.
-/
def Unshortened (accepted : Time) (record : Record) (mediaTtl : ℕ) (durableTtl : Option ℕ) : Prop :=
  if record.retentionClass ≤ classMedia then
    ∀ t, expiry record = some t →
      ∃ deadline, classDeadline accepted record.retentionClass mediaTtl durableTtl = some deadline ∧
        deadline ≤ t
  else expiry record =
    some (accepted + ephBucketSeconds.getD (record.retentionClass - classEphBase) 0 * second)

variable {accepted : Time} {record : Record} {mediaTtl : ℕ} {durableTtl : Option ℕ}

theorem pruneAfter_of_lasting (h : record.retentionClass ≤ classMedia) :
    pruneAfter accepted record.retentionClass mediaTtl durableTtl =
      classDeadline accepted record.retentionClass mediaTtl durableTtl := by
  have hc : record.retentionClass = classPermanent ∨ record.retentionClass = classDurable ∨
      record.retentionClass = classMedia := by
    simp only [classPermanent, classDurable, classMedia] at h ⊢
    omega
  unfold pruneAfter classDeadline
  rcases hc with hc | hc | hc <;> simp [hc]

theorem merge_min_eq_left {a b : Option Time} :
    a = a.merge min b ↔ ∀ t, b = some t → ∃ deadline, a = some deadline ∧ deadline ≤ t := by
  cases a with
  | none => cases b <;> simp
  | some a => cases b <;> simp

theorem some_eq_merge_grace {ending : Time} {b : Option Time} :
    some ending = (some (ending + grace)).merge min b ↔ b = some ending := by
  cases b with
  | none => simp [grace, second]
  | some t =>
    have hg : (0 : ℤ) < grace := by decide
    rw [Option.merge_some_some, Option.some.injEq, Option.some.injEq]
    constructor
    · intro h
      rcases min_choice (ending + grace) t with hm | hm
      · rw [hm] at h
        exact absurd h (by simp [grace, second])
      · rw [h, hm]
    · rintro rfl
      exact (min_eq_right (le_add_of_nonneg_right hg.le)).symm

theorem pruneAfter_eq_ruledPrune_iff :
    pruneAfter accepted record.retentionClass mediaTtl durableTtl =
      ruledPrune accepted record mediaTtl durableTtl ↔
    Unshortened accepted record mediaTtl durableTtl := by
  unfold ruledPrune Unshortened
  split
  · rename_i hl
    rw [pruneAfter_of_lasting hl, merge_min_eq_left]
  · rename_i hl
    have hc : record.retentionClass ≠ classPermanent ∧ record.retentionClass ≠ classDurable ∧
        record.retentionClass ≠ classMedia := by
      simp only [classPermanent, classDurable, classMedia] at hl ⊢
      omega
    unfold pruneAfter classDeadline
    rw [if_neg hc.1, if_neg hc.2.1, if_neg hc.2.2, if_neg hc.1, if_neg hc.2.1, if_neg hc.2.2,
      some_eq_merge_grace]

end Rule

section Step

variable {cfg : Config} {now : Time} {complete : Bool} {keys : Option EpochKeyDelivery}
  {g g' : MemoryGroup} {id : ℕ} {records : List Record}

structure WrittenUnder (now : Time) (g : MemoryGroup) (row : RecordRow) : Prop where
  createTime : row.createTime = now
  pruneAfter : row.pruneAfter =
    pruneAfter now row.record.retentionClass g.mediaTtlSeconds g.durableTtlSeconds

theorem write_policy (e : ℕ) (record : Record) : (g.write cfg now e keys record).mediaTtlSeconds =
      (g.advance cfg now e keys record).mediaTtlSeconds ∧
    (g.write cfg now e keys record).durableTtlSeconds =
      (g.advance cfg now e keys record).durableTtlSeconds := ⟨rfl, rfl⟩

variable {row : RecordRow}

theorem writtenUnder_write (e : ℕ) {record : Record}
    (hr : row ∈ (g.write cfg now e keys record).records) :
    row ∈ g.records ∨ WrittenUnder now (g.write cfg now e keys record) row := by
  rw [MemoryGroup.write_records, List.mem_append, List.mem_singleton] at hr
  rcases hr with hr | rfl
  · exact .inl hr
  · exact .inr ⟨rfl, rfl⟩

theorem WrittenUnder.congr (h : WrittenUnder now g row)
    (hm : g'.mediaTtlSeconds = g.mediaTtlSeconds)
    (hd : g'.durableTtlSeconds = g.durableTtlSeconds) : WrittenUnder now g' row :=
  ⟨h.createTime, by rw [hm, hd, h.pruneAfter]⟩

theorem Appends.policy (h : Appends cfg now complete keys g id records g')
    (hc : ∀ record ∈ records, record.isCommit = false) :
    g'.mediaTtlSeconds = g.mediaTtlSeconds ∧ g'.durableTtlSeconds = g.durableTtlSeconds := by
  induction h with
  | nil => exact ⟨rfl, rfl⟩
  | @cons g g' id record records _ _ ih =>
    obtain ⟨hm, hd⟩ := ih fun r hr => hc r (List.mem_cons_of_mem _ hr)
    have hp : (stamp record id).isCommit = false := hc record List.mem_cons_self
    rw [hm, hd, (write_policy _ _).1, (write_policy _ _).2]
    simp [MemoryGroup.advance, hp]

theorem Appends.writtenUnder (h : Appends cfg now complete keys g id records g')
    (ha : Alone records) (hr : row ∈ g'.records) : row ∈ g.records ∨ WrittenUnder now g' row := by
  induction h with
  | nil => exact .inl hr
  | @cons g g' id record records _ hrs ih =>
    rcases ih ha.tail hr with ho | hn
    · rcases writtenUnder_write _ ho with ho | hn
      · exact .inl ho
      · refine .inr ?_
        by_cases hc : ∃ r ∈ records, r.isCommit = true
        · obtain ⟨r, hr', hcr⟩ := hc
          have hon := ha r (List.mem_cons_of_mem _ hr') hcr
          rw [(List.cons.inj hon).2] at hr'
          cases hr'
        · have hp := hrs.policy fun r hr' => by simpa using fun hcr => hc ⟨r, hr', hcr⟩
          exact hn.congr hp.1 hp.2
    · exact .inr hn

theorem GroupStep.writtenUnder {o : Option MemoryGroup} (h : GroupStep cfg now o g')
    (hr : row ∈ g'.records) :
    (∃ g, o = some g ∧ row ∈ g.records) ∨ WrittenUnder now g' row := by
  cases h with
  | found =>
    obtain rfl := List.mem_singleton.mp hr
    exact .inr ⟨rfl, rfl⟩
  | close => exact .inl ⟨_, rfl, hr⟩
  | append _ alone appends =>
    rcases appends.writtenUnder alone hr with ho | hn
    · exact .inl ⟨_, rfl, ho⟩
    · exact .inr hn

theorem StoreStep.writtenUnder {s s' : MemoryStore} (h : StoreStep cfg now s s') {groupId : Bytes}
    (hg : s'.groups groupId = some g') (hr : row ∈ g'.records) :
    (∃ g, s.groups groupId = some g ∧ row ∈ g.records) ∨ WrittenUnder now g' row := by
  cases h with
  | refl => exact .inl ⟨g', hg, hr⟩
  | @group other g shape step =>
    by_cases ho : groupId = other
    · subst ho
      rw [MemoryStore.setGroup_self] at hg
      cases hg
      exact step.writtenUnder hr
    · rw [MemoryStore.setGroup_of_ne ho] at hg
      exact .inl ⟨g', hg, hr⟩

end Step

section Run

variable {cfg : Config} {ι : Type*} [DecidableEq ι]

structure WrittenAt (cfg : Config) (requests : ι → Request) (groupId : Bytes) (row : RecordRow)
    (p : List (ι × Time)) (m : ι × Time) (g : MemoryGroup) : Prop where
  before : ∀ g₀, (run cfg requests p).shared.groups groupId = some g₀ → row ∉ g₀.records
  after : (run cfg requests (p ++ [m])).shared.groups groupId = some g
  mem : row ∈ g.records
  under : WrittenUnder m.2 g row

theorem exists_writtenAt (cfg : Config) (requests : ι → Request) (sched : List (ι × Time))
    {groupId : Bytes} {g : MemoryGroup}
    (hg : (run cfg requests sched).shared.groups groupId = some g) {row : RecordRow}
    (hr : row ∈ g.records) :
    ∃ p m q g', sched = p ++ m :: q ∧ WrittenAt cfg requests groupId row p m g' := by
  induction sched using List.reverseRecOn generalizing g with
  | nil => cases hg
  | append_singleton sched m ih =>
    have hi : (machine cfg).Invariant (fun _ => True) _ := invariant_of_step fun _ _ _ _ h => h
    have hrd := (hi.exec (w := initial .empty requests) trivial (fun _ => trivial) sched).2
    have hs : StoreStep cfg m.2 (run cfg requests sched).shared
        (run cfg requests (sched ++ [m])).shared := by
      unfold run runFrom
      rw [Machine.exec_snoc]
      exact Call.step_store (hrd m.1)
    by_cases ho : ∃ g₀, (run cfg requests sched).shared.groups groupId = some g₀ ∧ row ∈ g₀.records
    · obtain ⟨g₀, hg₀, hr₀⟩ := ho
      obtain ⟨p, m', q, g', rfl, hat⟩ := ih hg₀ hr₀
      exact ⟨p, m', q ++ [m], g', by simp, hat⟩
    · refine ⟨sched, m, [], g, rfl, fun g₀ hg₀ hr₀ => ho ⟨g₀, hg₀, hr₀⟩, hg, hr, ?_⟩
      exact (hs.writtenUnder hg hr).resolve_left ho

end Run

namespace Sample

def expiring : Record :=
  { record alice 1 3 none with retentionClass := classMedia, expireAtMs := 1 }

def expiringRequests : ℕ → Request
  | 0 => createGroup
  | 1 => submit [marker alice 1 2]
  | _ => submit [expiring]

/-- A record of the media class that declares no end of its own. -/
def lasting : Record := { record alice 1 3 none with retentionClass := classMedia }

def lastingRequests : ℕ → Request
  | 0 => createGroup
  | 1 => submit [marker alice 1 2]
  | _ => submit [lasting]

def expiringOrder : List (ℕ × Time) := [(0, 0), (1, 1), (1, 2), (2, 3), (2, 4)]

end Sample

end MessageServer.Store

namespace MessageServer.Pgx

open Store

section Main

variable {cfg : Config} {ι : Type*} [DecidableEq ι]

theorem recordAt_of_mem {g : MemoryGroup} (hs : Sound cfg g) {row : RecordRow}
    (hr : row ∈ g.records) : recordAt g row.record.recordId = some row := by
  obtain ⟨other, ho⟩ : ∃ other, recordAt g row.record.recordId = some other :=
    Option.isSome_iff_exists.mp (List.find?_isSome.mpr ⟨row, hr, decide_eq_true rfl⟩)
  have hid : other.record.recordId = row.record.recordId :=
    of_decide_eq_true (List.find?_some (p := fun r : RecordRow => r.id = row.record.recordId) ho)
  have hn : (g.records.map (·.record.recordId)).Nodup := by
    rw [hs.groupLog.ids]
    exact List.nodup_range' ..
  rw [ho, List.inj_on_of_nodup_map hn (List.mem_of_find?_eq_some ho) hr hid]

/--
The prune time stored with a record is the one of the retention rule, under the policy in force when
it was written, exactly when the record is unshortened; a database holds the same.
-/
theorem prune_times_of_run (cfg : Config) (requests : ι → Request) (sched : List (ι × Time))
    {groupId : Bytes} {g : MemoryGroup}
    (hg : (run cfg requests sched).shared.groups groupId = some g) {row : RecordRow}
    (hr : row ∈ g.records) :
    (∃ p m q g', sched = p ++ m :: q ∧ WrittenAt cfg requests groupId row p m g' ∧
      (row.pruneAfter = ruledPrune m.2 row.record g'.mediaTtlSeconds g'.durableTtlSeconds ↔
        Unshortened m.2 row.record g'.mediaTtlSeconds g'.durableTtlSeconds)) ∧
    ∀ ring d, HoldsStore ring d (run cfg requests sched).shared →
      (d.lookup (.record groupId row.record.recordId) : Option MessageRecord).map (·.pruneAfter) =
        some (row.pruneAfter.map timestamp) := by
  constructor
  · obtain ⟨p, m, q, g', hs, hat⟩ := exists_writtenAt cfg requests sched hg hr
    refine ⟨p, m, q, g', hs, hat, ?_⟩
    rw [hat.under.pruneAfter]
    exact pruneAfter_eq_ruledPrune_iff
  · intro ring d hd
    rw [(hd.groups groupId g hg).record, natAt_natCast,
      recordAt_of_mem (run_sound cfg requests sched groupId g hg) hr]
    rfl

theorem exists_row_of_any (s : MemoryStore) (groupId : Bytes) (p : MemoryGroup → RecordRow → Bool)
    (h : (s.groups groupId).any (fun g => g.records.any (p g)) = true) :
    ∃ g row, s.groups groupId = some g ∧ row ∈ g.records ∧ p g row = true := by
  obtain ⟨g, hg, h⟩ := (Option.any_eq_true _ _).mp h
  obtain ⟨row, hr, hp⟩ := List.any_eq_true.mp h
  exact ⟨g, row, hg, hr, hp⟩

open Store.Sample (config groupId expiringRequests lastingRequests expiringOrder)

/-- A media record that declares an end of its own is kept as long as any other. -/
theorem expiry_ignored : ∃ g row,
    (run config expiringRequests expiringOrder).shared.groups groupId = some g ∧
    row ∈ g.records ∧ row.record.recordId = 3 ∧
    row.pruneAfter = some (4 + 2592000 * second) ∧
    ruledPrune row.createTime row.record g.mediaTtlSeconds g.durableTtlSeconds = some 1000000 := by
  obtain ⟨g, row, hg, hr, hp⟩ := exists_row_of_any
    (run config expiringRequests expiringOrder).shared groupId (fun g row =>
      row.record.recordId = 3 ∧ row.pruneAfter = some (4 + 2592000 * second) ∧
      ruledPrune row.createTime row.record g.mediaTtlSeconds g.durableTtlSeconds = some 1000000)
    (by decide +kernel)
  exact ⟨g, row, hg, hr, of_decide_eq_true hp⟩

/-- A media record that declares no end is kept as long as its class has it. -/
theorem prune_times_of_lasting : ∃ g row,
    (run config lastingRequests expiringOrder).shared.groups groupId = some g ∧
    row ∈ g.records ∧ row.pruneAfter = some (4 + 2592000 * second) ∧
    ∃ p m q g', expiringOrder = p ++ m :: q ∧ WrittenAt config lastingRequests groupId row p m g' ∧
      row.pruneAfter = ruledPrune m.2 row.record g'.mediaTtlSeconds g'.durableTtlSeconds := by
  obtain ⟨g, row, hg, hr, hp⟩ := exists_row_of_any (run config lastingRequests expiringOrder).shared
    groupId (fun _ row => row.pruneAfter = some (4 + 2592000 * second) ∧
      row.record.retentionClass = classMedia ∧ row.record.expireAtMs = 0) (by decide +kernel)
  obtain ⟨hpr, hrc⟩ := of_decide_eq_true hp
  obtain ⟨p, m, q, g', hs, hat, hi⟩ := (prune_times_of_run _ _ _ hg hr).1
  refine ⟨g, row, hg, hr, hpr, p, m, q, g', hs, hat, hi.mpr ?_⟩
  simp [Unshortened, expiry, hrc]

end Main

end MessageServer.Pgx
