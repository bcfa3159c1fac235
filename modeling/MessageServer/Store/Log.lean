import MessageServer.Store.Ledger

/-! # The log of a group under interleaved calls

Along every schedule a group only grows: its records and claims stay as they
are and new ones follow. What the ledger of a group determines is read back
here on the rows the store holds.
-/

namespace MessageServer.Store

open Interleaving EpochLog Sample

/-- What a later state of a group keeps of an earlier one. -/
structure Grows (g g' : MemoryGroup) : Prop where
  records : g.records <+: g'.records
  claims : ∀ k c, g.claims k = some c → g'.claims k = some c
  commits : ∀ e c, g.commits e = some c → g'.commits e = some c
  epoch : g.currentEpoch ≤ g'.currentEpoch
  closed : g.closed = true → g'.closed = true

namespace Grows

variable {g g' g'' : MemoryGroup}

theorem refl (g : MemoryGroup) : Grows g g :=
  ⟨List.prefix_refl _, fun _ _ h => h, fun _ _ h => h, le_rfl, fun h => h⟩

theorem trans (h : Grows g g') (h' : Grows g' g'') : Grows g g'' :=
  ⟨h.records.trans h'.records, fun k c hc => h'.claims k c (h.claims k c hc),
    fun e c hc => h'.commits e c (h.commits e c hc), h.epoch.trans h'.epoch,
    fun hc => h'.closed (h.closed hc)⟩

end Grows

section Growth

variable {cfg : Config} {now : Time} {complete : Bool} {keys : Option EpochKeyDelivery}
  {g g' : MemoryGroup} {L : Ledger} {record : Record} {id : ℕ} {records : List Record}

theorem Represents.write_grows (h : Represents cfg g L) (ha : Admitted g complete keys record)
    (now : Time) (id : ℕ) : Grows g (g.write cfg now g.currentEpoch keys (stamp record id)) where
  records := by
    rw [MemoryGroup.write_records]
    exact List.prefix_append ..
  claims k c hc := by
    have hk : k ≠ claimKeyOf (stamp record id) := by
      rintro rfl
      exact absurd ((h.unclaimed ha.stream).symm.trans hc) (by simp)
    rw [MemoryGroup.write_claims, Function.update_of_ne hk, hc]
  commits e c hc := by
    obtain ⟨r, hr, h'⟩ := (h.commits e c).mp hc
    exact (h.write_commits ha now id e c).mpr ⟨r, List.mem_append_left _ hr, h'⟩
  epoch := by
    rw [ha.write_currentEpoch, ← ha.epoch]
    exact recordShape.epoch_le_after (stamp record id)
  closed hc := by rw [MemoryGroup.write_closed, hc]

theorem Represents.appends_grows (h : Represents cfg g L) (hid : id = L.log.length + 1)
    (ha : Appends cfg now complete keys g id records g') : Grows g g' := by
  induction ha generalizing L with
  | nil => exact .refl _
  | cons hr _ ih =>
    exact (h.write_grows hr now _).trans (ih (h.write hr now hid) (by simp [Ledger.append, hid]))

theorem GroupStep.grows (h : GroupStep cfg now (some g) g') (hs : Sound cfg g) : Grows g g' := by
  cases h with
  | close => exact ⟨List.prefix_refl _, fun _ _ h => h, fun _ _ h => h, le_rfl, fun _ => rfl⟩
  | append _ _ ha =>
    obtain ⟨L, hL, hn⟩ := hs
    have hg := (hL.reserve _).appends_grows hn ha
    exact ⟨hg.records, hg.claims, hg.commits, hg.epoch, hg.closed⟩

def StoreGrows (s s' : MemoryStore) : Prop :=
  ∀ groupId g, s.groups groupId = some g → ∃ g', s'.groups groupId = some g' ∧ Grows g g'

theorem StoreGrows.refl (s : MemoryStore) : StoreGrows s s := fun _ g hg => ⟨g, hg, .refl g⟩

theorem StoreGrows.trans {s s' s'' : MemoryStore} (h : StoreGrows s s') (h' : StoreGrows s' s'') :
    StoreGrows s s'' := by
  intro groupId g hg
  obtain ⟨g', hg', hgg⟩ := h groupId g hg
  obtain ⟨g'', hg'', hgg'⟩ := h' groupId g' hg'
  exact ⟨g'', hg'', hgg.trans hgg'⟩

theorem StoreStep.grows {s s' : MemoryStore} (h : StoreStep cfg now s s')
    (hs : s.Each (Sound cfg)) : StoreGrows s s' :=
  fun _ _ hg => h.rel .refl (fun _ _ step hg => step.grows hg) hs hg

end Growth

section Runs

variable {cfg : Config} {ι : Type*} [DecidableEq ι] {s : MemoryStore}

theorem soundness (cfg : Config) : (machine cfg).Invariant (MemoryStore.Each (Sound cfg))
    fun s c => c.ReadFrom cfg (StoreGrows · s) where
  shared _ _ _ hs hc := (Call.step_store hc).each (fun _ _ step => step.sound) hs
  own _ s _ hs hc := (Call.readFrom_step hc (.refl s)).mono fun _ h =>
    h.trans ((Call.step_store hc).grows hs)
  others _ _ _ _ hs hc hc' := hc'.mono fun _ h => h.trans ((Call.step_store hc).grows hs)

theorem each_sound_empty : MemoryStore.empty.Each (Sound cfg) := fun _ _ h => nomatch h

theorem runFrom_sound (hs : s.Each (Sound cfg)) (requests : ι → Request) (sched : List (ι × Time)) :
    (runFrom cfg s requests sched).shared.Each (Sound cfg) :=
  runFrom_each (fun _ _ _ step => step.sound) hs requests sched

theorem run_sound (cfg : Config) (requests : ι → Request) (sched : List (ι × Time)) :
    (run cfg requests sched).shared.Each (Sound cfg) :=
  runFrom_sound each_sound_empty requests sched

theorem runFrom_grows (hs : s.Each (Sound cfg)) (requests : ι → Request) (p q : List (ι × Time)) :
    StoreGrows (runFrom cfg s requests p).shared (runFrom cfg s requests (p ++ q)).shared := by
  unfold runFrom
  rw [Machine.exec_append]
  have hp := (soundness cfg).exec (w := initial s requests) hs (fun _ => trivial) p
  exact (soundness cfg).exec_rel .refl .trans
    (fun _ _ _ hs hc => (Call.step_store hc).grows hs) hp.1 hp.2 q

end Runs

/-- The log of a group and the rows that follow it, on the rows themselves. -/
structure GroupLog (cfg : Config) (g : MemoryGroup) : Prop where
  next_pos : 0 < g.nextRecordId
  ids : g.records.map (·.record.recordId) = List.range' 1 (g.nextRecordId - 1)
  claimed : ∀ row ∈ g.records, g.claims (claimKeyOf row.record) = some (claimOf cfg row)
  claims : ∀ k c, g.claims k = some c →
    ∃ row ∈ g.records, claimKeyOf row.record = k ∧ c = claimOf cfg row
  claims_distinct : g.records.Pairwise fun a b => claimKeyOf a.record ≠ claimKeyOf b.record
  streams : g.records.Pairwise fun a b => a.record.senderHandle = b.record.senderHandle →
    a.record.streamIndex < b.record.streamIndex
  senders : ∀ row ∈ g.records, ∃ sender, g.senders row.record.senderHandle = some sender ∧
    row.record.streamIndex ≤ sender.lastStreamIndex
  last : ∀ handle sender, g.senders handle = some sender →
    ∃ row ∈ g.records, row.record.senderHandle = handle ∧
      row.record.streamIndex = sender.lastStreamIndex
  epochs : g.records.Pairwise fun a b => a.record.epoch ≤ b.record.epoch
  epoch_le : ∀ row ∈ g.records, row.record.epoch ≤ g.currentEpoch
  commits : ∀ e, (∃ c, g.commits e = some c) ↔ e < g.currentEpoch
  commit : ∀ e c, g.commits e = some c → c.epoch = e ∧
    ∃ row ∈ g.records, row.record = c.record ∧ row.record.recordId = c.recordId ∧
      row.record.isCommit = true ∧ row.record.epoch = e ∧
      ∀ other ∈ g.records, other.record.epoch = e → other.record.recordId ≤ row.record.recordId

section GroupLog

variable {cfg : Config} {g : MemoryGroup} {L : Ledger}

variable (h : Represents cfg g L)
include h

theorem Represents.mem {row : RecordRow} (hr : row ∈ g.records) :
    row.record ∈ L.log := h.log ▸ List.mem_map_of_mem hr

theorem Represents.exists_row {r : Record} (hr : r ∈ L.log) :
    ∃ row ∈ g.records, row.record = r := List.mem_map.mp (h.log ▸ hr)

theorem Represents.pairwise {R : Record → Record → Prop}
    (hR : L.log.Pairwise R) : g.records.Pairwise fun a b => R a.record b.record :=
  List.pairwise_map.mp (h.log ▸ hR)

theorem Represents.streams : g.records.Pairwise fun a b =>
    a.record.senderHandle = b.record.senderHandle → a.record.streamIndex < b.record.streamIndex :=
  h.pairwise L.ordered.streams

theorem Represents.commit {e : ℕ} {c : CommitRow} (hc : g.commits e = some c) : c.epoch = e ∧
    ∃ row ∈ g.records, row.record = c.record ∧ row.record.recordId = c.recordId ∧
      row.record.isCommit = true ∧ row.record.epoch = e ∧
      ∀ other ∈ g.records, other.record.epoch = e →
        other.record.recordId ≤ row.record.recordId := by
  obtain ⟨r, hr, hrc, hre, rfl⟩ := (h.commits e c).mp hc
  obtain ⟨row, hrw, rfl⟩ := h.exists_row hr
  refine ⟨hre, row, hrw, rfl, rfl, hrc, hre, fun other ho hoe => ?_⟩
  exact L.ordered.id_le_of_closes hr (h.mem ho) hrc (hoe.trans hre.symm)

theorem Represents.commits_iff (e : ℕ) : (∃ c, g.commits e = some c) ↔ e < g.currentEpoch := by
  rw [h.epoch]
  constructor
  · rintro ⟨c, hc⟩
    obtain ⟨r, hr, hrc, rfl, -⟩ := (h.commits e c).mp hc
    exact L.ordered.epoch_lt_of_closes hr hrc
  · intro he
    obtain ⟨r, hr, hre, hrc⟩ := L.ordered.covered e he
    exact ⟨commitOf r, (h.commits e _).mpr ⟨r, hr, hrc, hre, rfl⟩⟩

omit h

theorem Sound.groupLog (h : Sound cfg g) : GroupLog cfg g := by
  obtain ⟨L, hL, hn⟩ := h
  refine ⟨by omega, ?_, hL.claimed, fun k c hc => ?_, ?_, hL.streams, fun row hrw => ?_,
    fun handle sender hs => ?_, ?_, fun row hrw => ?_, hL.commits_iff, fun _ _ hc => hL.commit hc⟩
  · have hid := L.ordered.ids
    rw [← hL.log, List.map_map, List.length_map] at hid
    rw [hn, Nat.add_sub_cancel, hL.length]
    exact hid
  · obtain ⟨row, hrw, rfl⟩ := hL.stored k (by simp [hc])
    exact ⟨row, hrw, rfl, Option.some.inj (hc.symm.trans (hL.claimed row hrw))⟩
  · refine hL.streams.imp fun {a b} hab hk => ?_
    obtain ⟨hs, hi⟩ := ClaimKey.mk.inj hk
    exact absurd (hab hs) (by omega)
  · obtain ⟨n, hn, hle⟩ := L.ordered.le_highWater (hL.mem hrw) rfl
    rw [← hL.senders] at hn
    obtain ⟨sender, hs, rfl⟩ := Option.map_eq_some_iff.mp hn
    exact ⟨sender, hs, hle⟩
  · have hw := hL.senders handle
    rw [hs, Option.map_some] at hw
    obtain ⟨r, hr, hk, hi⟩ := exists_of_highWater hw.symm
    obtain ⟨row, hrw, rfl⟩ := hL.exists_row hr
    exact ⟨row, hrw, hk, hi⟩
  · exact hL.pairwise (L.ordered.epochs.imp (recordShape.epoch_le_after _).trans)
  · exact hL.epoch ▸ L.ordered.epoch_le (hL.mem hrw)

end GroupLog

section Main

variable {ι : Type*} [DecidableEq ι]

/--
Every group holds one log that its claims, senders and commits follow, and no claim is changed.
-/
theorem groupLog_of_run (cfg : Config) (requests : ι → Request) (sched : List (ι × Time))
    (groupId : Bytes) (g : MemoryGroup)
    (hg : (run cfg requests sched).shared.groups groupId = some g) :
    GroupLog cfg g ∧ ∀ later, ∃ g', (run cfg requests (sched ++ later)).shared.groups groupId =
      some g' ∧ ∀ k c, g.claims k = some c → g'.claims k = some c := by
  refine ⟨(run_sound cfg requests sched groupId g hg).groupLog, fun later => ?_⟩
  obtain ⟨g', hg', h⟩ := runFrom_grows each_sound_empty requests sched later groupId g hg
  exact ⟨g', hg', h.claims⟩

theorem groupLog_of_run_founding : ∃ g,
    (run config founding foundingOrder).shared.groups groupId = some g ∧
      g.records.length = 2 ∧ GroupLog config g :=
  ⟨_, rfl, rfl, (groupLog_of_run config founding foundingOrder groupId _ rfl).1⟩

/-- Whatever is called next, a group only grows, and once it is closed nothing of it changes. -/
theorem groups_only_grow (cfg : Config) (requests : ι → Request) (p q : List (ι × Time))
    (groupId : Bytes) (g : MemoryGroup)
    (hg : (run cfg requests p).shared.groups groupId = some g) :
    ∃ g', (run cfg requests (p ++ q)).shared.groups groupId = some g' ∧ Grows g g' ∧
      (g.closed = true → g' = g) := by
  obtain ⟨g', hg', h⟩ := runFrom_grows each_sound_empty requests p q groupId g hg
  refine ⟨g', hg', h, fun hc => ?_⟩
  have hp := (soundness cfg).exec (w := initial .empty requests) each_sound_empty
    (fun _ => trivial) p
  have hr := (soundness cfg).exec_rel (R := fun s s' => ∀ g, s.groups groupId = some g →
      g.closed = true → s'.groups groupId = some g) (fun _ _ h _ => h)
    (fun h h' g hg hc => h' g (h g hg hc) hc) ?_ hp.1 hp.2 q g hg hc
  · rw [runFrom, Machine.exec_append, hr] at hg'
    exact (Option.some.inj hg').symm
  · intro now s c hs hc g hg hcl
    have hst : StoreStep cfg now s (c.step cfg now s).1 := Call.step_store hc
    obtain ⟨g', hg', he⟩ := hst.rel (R := fun g g' => g.closed = true → g' = g)
      (fun _ _ => rfl) (fun g₀ g step _ hcl => by
        cases step with
        | close ho | append ho => cases ho.symm.trans hcl) hs hg
    exact hg'.trans (congrArg some (he hcl))

/-- A submission that read its claims before the close takes the row lock after it. -/
theorem groups_only_grow_closed : ∃ g, g.closed = true ∧
    (run config ![Sample.createGroup, .closeGroup groupId, Sample.submit [marker alice 1 2]]
      [(0, 0), (2, 1), (1, 2), (2, 3)]).shared.groups groupId = some g := by
  obtain ⟨g, hg, -, he⟩ := groups_only_grow config
    ![Sample.createGroup, .closeGroup groupId, Sample.submit [marker alice 1 2]] [(0, 0), (2, 1),
      (1, 2)] [(2, 3)] groupId _ rfl
  exact ⟨g, by rw [he rfl], hg⟩

end Main

end MessageServer.Store
