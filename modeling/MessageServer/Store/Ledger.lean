import MessageServer.Lib.EpochLog
import MessageServer.Store.Steps

/-! # The group as an epoch log

The purpose of a group is one ordered log of records, cut into epochs by its
commits. A `Ledger` is that log with nothing else; a group represents a ledger
when its claims, senders and commits are what the log determines.
-/

namespace MessageServer.Store

open EpochLog Function MemoryGroup

def recordShape : Shape Record Bytes where
  id := Record.recordId
  key := Record.senderHandle
  index := Record.streamIndex
  epoch := Record.epoch
  closes := Record.isCommit

structure Ledger where
  log : List Record
  epoch : ℕ
  ordered : Ordered recordShape log epoch

namespace Ledger

structure Takes (L : Ledger) (record : Record) : Prop where
  id : record.recordId = L.log.length + 1
  stream : ∀ r ∈ L.log, r.senderHandle = record.senderHandle → r.streamIndex < record.streamIndex
  epoch : record.epoch = L.epoch

def append (L : Ledger) (record : Record) (h : L.Takes record) : Ledger where
  log := L.log ++ [record]
  epoch := recordShape.after record
  ordered := L.ordered.append h.id h.stream h.epoch

end Ledger

def claimOf (cfg : Config) (row : RecordRow) : ClaimRow where
  recordId := row.record.recordId
  bodyHash := row.record.bodyHash
  headHash := headHash cfg row.record.ctHead
  createTime := row.createTime

def commitOf (record : Record) : CommitRow := ⟨record.epoch, record.recordId, record⟩

/-- The group holds the ledger, and its other rows are what the ledger determines. -/
structure Represents (cfg : Config) (g : MemoryGroup) (L : Ledger) : Prop where
  log : g.records.map (·.record) = L.log
  epoch : g.currentEpoch = L.epoch
  claimed : ∀ row ∈ g.records, g.claims (claimKeyOf row.record) = some (claimOf cfg row)
  stored : ∀ k, g.claims k ≠ none → ∃ row ∈ g.records, claimKeyOf row.record = k
  senders : ∀ h, (g.senders h).map (·.lastStreamIndex) = recordShape.highWater L.log h
  commits : ∀ e c, g.commits e = some c ↔
    ∃ r ∈ L.log, r.isCommit = true ∧ r.epoch = e ∧ c = commitOf r

section Write

variable {cfg : Config} {g : MemoryGroup} {L : Ledger} {complete : Bool}
  {keys : Option EpochKeyDelivery} {record : Record}

variable (h : Represents cfg g L)
include h

theorem Represents.stream (hs : ∀ row,
    g.senders record.senderHandle = some row → row.lastStreamIndex < record.streamIndex) :
    ∀ r ∈ L.log, r.senderHandle = record.senderHandle → r.streamIndex < record.streamIndex := by
  intro r hr hk
  obtain ⟨n, hn, hle⟩ := L.ordered.le_highWater hr hk
  rw [← h.senders] at hn
  obtain ⟨row, hrw, rfl⟩ := Option.map_eq_some_iff.mp hn
  exact lt_of_le_of_lt hle (hs row hrw)

theorem Represents.takes (ha : Admitted g complete keys record) {id : ℕ}
    (hid : id = L.log.length + 1) : L.Takes (stamp record id) :=
  ⟨hid, fun r hr hk => h.stream ha.stream r hr hk, ha.epoch.trans h.epoch⟩

theorem Represents.unclaimed (hs : ∀ row,
    g.senders record.senderHandle = some row → row.lastStreamIndex < record.streamIndex) :
    g.claims (claimKeyOf record) = none := by
  by_contra hc
  obtain ⟨row, hrw, hk⟩ := h.stored _ hc
  have hr : row.record ∈ L.log := h.log ▸ List.mem_map_of_mem hrw
  obtain ⟨hk, hi⟩ := ClaimKey.mk.inj hk
  exact absurd (h.stream hs _ hr hk) (by omega)

theorem Represents.write_claimed (ha : Admitted g complete keys record) (now : Time) (id : ℕ) :
    ∀ row ∈ (g.write cfg now g.currentEpoch keys (stamp record id)).records,
      (g.write cfg now g.currentEpoch keys (stamp record id)).claims (claimKeyOf row.record) =
        some (claimOf cfg row) := by
  intro row hr
  rw [write_records, List.mem_append, List.mem_singleton] at hr
  rw [write_claims]
  rcases hr with hr | rfl
  · have hk : claimKeyOf row.record ≠ claimKeyOf (stamp record id) := by
      intro hk
      have hc := h.claimed row hr
      rw [hk] at hc
      exact absurd ((h.unclaimed ha.stream).symm.trans hc) (by simp)
    rw [update_of_ne hk, h.claimed row hr]
  · exact update_self ..

theorem Represents.write_stored (now : Time) (e id : ℕ) (k : ClaimKey)
    (hk : (g.write cfg now e keys (stamp record id)).claims k ≠ none) :
    ∃ row ∈ (g.write cfg now e keys (stamp record id)).records, claimKeyOf row.record = k := by
  rw [write_claims] at hk
  rw [write_records]
  by_cases hn : k = claimKeyOf (stamp record id)
  · exact ⟨_, List.mem_append_right _ (List.mem_singleton_self _), hn.symm⟩
  · rw [update_of_ne hn] at hk
    obtain ⟨row, hrw, hr⟩ := h.stored k hk
    exact ⟨row, List.mem_append_left _ hrw, hr⟩

theorem Represents.write_senders (now : Time) (e id : ℕ) (s : Bytes) :
    ((g.write cfg now e keys (stamp record id)).senders s).map (·.lastStreamIndex) =
      recordShape.highWater (L.log ++ [stamp record id]) s := by
  rw [MemoryGroup.write_senders, highWater_append]
  by_cases hs : s = record.senderHandle
  · subst hs
    simp [account, stamp, recordShape]
  · have hn : recordShape.key (stamp record id) ≠ s := Ne.symm hs
    rw [if_neg hn, ← h.senders]
    simp [account, stamp, hs]

theorem Represents.write_commits (ha : Admitted g complete keys record)
    (now : Time) (id e : ℕ) (c : CommitRow) :
    (g.write cfg now g.currentEpoch keys (stamp record id)).commits e = some c ↔
      ∃ r ∈ L.log ++ [stamp record id], r.isCommit = true ∧ r.epoch = e ∧ c = commitOf r := by
  rw [MemoryGroup.write_commits]
  simp only [List.mem_append, List.mem_singleton, or_and_right, exists_or, exists_eq_left,
    ← h.commits]
  rcases ha.advance cfg now id with ⟨hc, had⟩ | ⟨hc, opening, -, had⟩
  · rw [had]
    simp [stamp, hc]
  · rw [had]
    have ho : (g.openEpoch cfg now g.currentEpoch (stamp record id) opening).commits =
        update g.commits record.epoch (some (commitOf (stamp record id))) := rfl
    rw [ho]
    by_cases he : e = record.epoch
    · subst he
      simp [ha.uncommitted hc, stamp, hc, eq_comm]
    · rw [update_of_ne he]
      simp [stamp, Ne.symm he]

omit h in
theorem Admitted.write_currentEpoch (ha : Admitted g complete keys record) (cfg : Config)
    (now : Time) (id : ℕ) :
    (g.write cfg now g.currentEpoch keys (stamp record id)).currentEpoch =
      recordShape.after (stamp record id) := by
  rw [MemoryGroup.write_currentEpoch]
  rcases ha.advance cfg now id with ⟨hc, had⟩ | ⟨hc, opening, -, had⟩
  · rw [had, recordShape.after_of_not_closes (x := stamp record id) hc]
    exact ha.epoch.symm
  · rw [had, recordShape.after_of_closes (x := stamp record id) hc]
    exact congrArg (· + 1) ha.epoch.symm

theorem Represents.write (ha : Admitted g complete keys record)
    (now : Time) {id : ℕ} (hid : id = L.log.length + 1) :
    Represents cfg (g.write cfg now g.currentEpoch keys (stamp record id))
      (L.append (stamp record id) (h.takes ha hid)) where
  log := by
    rw [write_records, List.map_append, h.log]
    rfl
  epoch := ha.write_currentEpoch cfg now id
  claimed := h.write_claimed ha now id
  stored := h.write_stored now _ id
  senders := h.write_senders now _ id
  commits := h.write_commits ha now id

end Write

def stampFrom : ℕ → List Record → List Record
  | _, [] => []
  | id, record :: records => stamp record id :: stampFrom (id + 1) records

@[simp] theorem length_stampFrom (id : ℕ) (records : List Record) :
    (stampFrom id records).length = records.length := by
  induction records generalizing id with
  | nil => rfl
  | cons r records ih => simp [stampFrom, ih]

/-- The group represents a ledger and is about to number its next entry. -/
def Sound (cfg : Config) (g : MemoryGroup) : Prop :=
  ∃ L, Represents cfg g L ∧ g.nextRecordId = L.log.length + 1

section Appends

variable {cfg : Config} {now : Time} {complete : Bool} {keys : Option EpochKeyDelivery}
  {g g' : MemoryGroup} {id : ℕ} {records : List Record}

theorem Appends.log (h : Appends cfg now complete keys g id records g') :
    g'.records.map (·.record) = g.records.map (·.record) ++ stampFrom id records := by
  induction h with
  | nil => simp [stampFrom]
  | cons _ _ ih =>
    rw [ih, write_records]
    simp [stampFrom, rowOf]

theorem Appends.nextRecordId (h : Appends cfg now complete keys g id records g') :
    g'.nextRecordId = g.nextRecordId := by
  induction h with
  | nil => rfl
  | cons _ _ ih => rw [ih, write_nextRecordId]

theorem Represents.appends {L : Ledger} (h : Represents cfg g L) (hid : id = L.log.length + 1)
    (ha : Appends cfg now complete keys g id records g') : ∃ L', Represents cfg g' L' := by
  induction ha generalizing L with
  | nil => exact ⟨L, h⟩
  | cons hr _ ih => exact ih (h.write hr now hid) (by simp [Ledger.append, hid])

end Appends

section Sound

variable {cfg : Config} {now : Time}

variable {g : MemoryGroup} {L : Ledger}

theorem Represents.reserve (h : Represents cfg g L) (k : ℕ) : Represents cfg (g.reserve k) L :=
  ⟨h.log, h.epoch, h.claimed, h.stored, h.senders, h.commits⟩

theorem Represents.length (h : Represents cfg g L) : L.log.length = g.records.length := by
  rw [← h.log, List.length_map]

theorem Sound.append {g' : MemoryGroup} {keys : Option EpochKeyDelivery} {records : List Record}
    {complete : Bool} (h : Sound cfg g)
    (ha : Appends cfg now complete keys (g.reserve records.length) g.nextRecordId records g') :
    Sound cfg g' := by
  obtain ⟨L, hL, hn⟩ := h
  obtain ⟨L', hL'⟩ := (hL.reserve records.length).appends hn ha
  have hl := congrArg List.length ha.log
  simp only [List.length_append, List.length_map, length_stampFrom] at hl
  refine ⟨L', hL', ?_⟩
  rw [ha.nextRecordId, hL'.length, hl]
  change g.nextRecordId + records.length = g.records.length + records.length + 1
  rw [hn, hL.length]
  omega

theorem sound_foundGroup (request : CreateGroupRequest) {initial : Record}
    (hc : initial.isCommit = true) (he : initial.epoch = 0) (opening : EpochOpening) :
    Sound cfg (foundGroup cfg now request initial opening) := by
  have ht : (⟨[], 0, .nil recordShape⟩ : Ledger).Takes (stamp initial firstRecordId) :=
    ⟨rfl, by simp, he⟩
  refine ⟨Ledger.append _ _ ht, ⟨rfl, ?_, ?_, ?_, ?_, ?_⟩, rfl⟩
  · have ha := recordShape.after_of_closes (x := stamp initial firstRecordId) hc
    exact (ha.trans (congrArg (· + 1) he)).symm
  · intro row hr
    obtain rfl := List.mem_singleton.mp hr
    simp [foundGroup, claimOf]
  · intro k hk
    refine ⟨_, List.mem_singleton_self _, ?_⟩
    by_contra hn
    exact hk (by simp [foundGroup, Ne.symm hn])
  · intro s
    by_cases hs : s = initial.senderHandle
    · simp [foundGroup, Ledger.append, stamp, recordShape, Shape.highWater, hs]
    · simp [foundGroup, Ledger.append, stamp, recordShape, Shape.highWater, hs, Ne.symm hs]
  · intro e c
    by_cases hn : e = initial.epoch
    · subst hn
      simp [foundGroup, Ledger.append, commitOf, stamp, hc, eq_comm (a := c)]
    · simp [foundGroup, Ledger.append, stamp, hn, Ne.symm hn]

theorem Sound.close (h : Sound cfg g) :
    Sound cfg { g with closed := true, closeTime := some now } := by
  obtain ⟨L, hL, hn⟩ := h
  exact ⟨L, ⟨hL.log, hL.epoch, hL.claimed, hL.stored, hL.senders, hL.commits⟩, hn⟩

theorem GroupStep.sound {o : Option MemoryGroup} (h : GroupStep cfg now o g)
    (ho : ∀ g₀, o = some g₀ → Sound cfg g₀) : Sound cfg g := by
  cases h with
  | found _ hc he _ _ => exact sound_foundGroup _ hc he _
  | close => exact (ho _ rfl).close
  | append _ _ ha => exact (ho _ rfl).append ha

end Sound

end MessageServer.Store
