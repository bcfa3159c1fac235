import MessageServer.Store.Custody
import MessageServer.Store.Retry

/-! # What the calls of a run keep

A call keeps what it was asked and what it has stored. The answers of a finished
submission stay true of the store: step (0) matches every record it accepted
under the id it was told. The write key of an epoch is one along a whole run.
-/

namespace MessageServer.Store

open Interleaving Machine MemoryStore

def MemoryStore.writeKey (s : MemoryStore) (groupId : Bytes) (epoch : ℕ) : Slice := do
  let g ← s.groups groupId
  let row ← g.epochs epoch
  row.writeKey

variable {s : MemoryStore} {groupId key : Bytes} {epoch : ℕ}

theorem MemoryStore.writeKey_eq_some : s.writeKey groupId epoch = some key ↔
      ∃ g row, s.groups groupId = some g ∧ g.epochs epoch = some row ∧ row.writeKey = some key := by
  simp [writeKey, Option.bind_eq_some_iff]

theorem writeKey_of_epochKeys {keys : EpochKeys} (h : epochKeys s groupId epoch = .ok keys)
    (hk : keys.writeKey = some key) :
    s.writeKey groupId epoch = some key := by
  unfold epochKeys at h
  rw [bind_eq_ok] at h
  replace h := h.2
  split at h
  · cases h
  · rename_i g hg
    split at h
    · cases h
    · split at h
      · cases h
      · rename_i row hr
        split at h
        · cases h
        · cases h
          exact writeKey_eq_some.mpr ⟨g, row, hg, hr, hk⟩

section Step

variable {cfg : Config} {now : Time} {s s' : MemoryStore} {c : Call}

/-- A submission past its shape checks; its batch stands in the order of its records. -/
def Call.InOrder : Call → Prop
  | .answering request batch | .waiting request batch | .submitted request batch =>
    validateSubmit request = .ok () ∧ batch.map (·.record) = request.records
  | _ => True

def Call.Matched (cfg : Config) (s : MemoryStore) : Call → Prop
  | .answering request batch | .waiting request batch | .submitted request batch =>
    Store.Matched cfg (s.groups request.groupId) batch
  | _ => True

theorem Matched.grows {groupId : Bytes} {batch : List Pending}
    (h : Matched cfg (s.groups groupId) batch) (hg : StoreGrows s s') :
    Matched cfg (s'.groups groupId) batch := by
  intro q hq hi
  obtain ⟨g, hs, hm⟩ := Option.bind_eq_some_iff.mp (h q hq hi)
  obtain ⟨g', hs', hgr⟩ := hg groupId g hs
  exact Option.bind_eq_some_iff.mpr ⟨g', hs', matchedId_mono hgr hm⟩

theorem Call.Matched.grows (h : c.Matched cfg s) (hg : StoreGrows s s') : c.Matched cfg s' := by
  cases c with
  | answering | waiting | submitted => exact Store.Matched.grows h hg
  | start | created | closed | failed => trivial

theorem submitProbe_batch (cfg : Config) (s : MemoryStore) (request : SubmitRequest) :
    match submitProbe cfg s request with
    | .answering batch | .unavailable batch | .waiting batch =>
      batch.map (·.record) = request.records ∧ Matched cfg (s.groups request.groupId) batch := by
  have hp := matched_probed cfg s request
  have hs : Matched cfg (s.groups request.groupId) (settle (probed cfg s request)) :=
    hp.map fun p => ⟨rfl, rfl, fun _ => rfl⟩
  have hr : (settle (probed cfg s request)).map (·.record) = request.records := by
    rw [map_record_settle, map_record_probed]
  rcases submitProbe_cases cfg s request with
    ⟨o, -, h⟩ | ⟨-, ⟨-, h⟩ | ⟨-, ⟨-, h⟩ | ⟨-, h⟩⟩⟩ <;> rw [h]
  · exact ⟨by rw [map_record_markRefused, map_record_probed], hp.markRefused _ _⟩
  · exact ⟨hr, hs⟩
  · exact ⟨hr, hs⟩
  · exact ⟨hr, hs⟩

/-- A step keeps the batch in order and its answers true of the store the step found. -/
theorem Call.batch_step {R : MemoryStore → Prop} (hr : c.ReadFrom cfg R) (ho : c.InOrder)
    (hm : c.Matched cfg s) :
    (c.step cfg now s).2.InOrder ∧ (c.step cfg now s).2.Matched cfg s := by
  cases c with
  | start request =>
    cases request with
    | createGroup | closeGroup => exact ⟨trivial, trivial⟩
    | submit request =>
      have hb := submitProbe_batch cfg s request
      unfold Call.step
      dsimp only
      split
      · exact ⟨trivial, trivial⟩
      · rename_i hv
        cases hp : submitProbe cfg s request with
        | unavailable batch =>
          rw [hp] at hb
          exact ⟨⟨hv, (map_record_refuseUnavailable batch).trans hb.1⟩, hb.2.refuseUnavailable⟩
        | answering | waiting =>
          rw [hp] at hb
          exact ⟨⟨hv, hb.1⟩, hb.2⟩
  | answering request batch =>
    exact ⟨⟨ho.1, (map_record_fillCurrentEpoch _ batch).trans ho.2⟩,
      Store.Matched.fillCurrentEpoch hm _⟩
  | waiting request batch =>
    obtain ⟨-, s₀, -, hp⟩ := hr
    cases hg : s.groups request.groupId with
    | none =>
      simp only [Call.step, hg]
      exact ⟨ho, hm⟩
    | some g =>
      simp only [Call.step, hg]
      refine ⟨⟨ho.1, (map_record_submitLocked cfg now g _ batch).trans ho.2⟩,
        Store.Matched.submitLocked hm ?_ now g _⟩
      rw [(submitProbe_waiting hp).1]
      exact settled_settle _
  | created | closed | failed | submitted => exact ⟨ho, hm⟩

theorem createGroup_writeKey {request : CreateGroupRequest}
    (h : (Call.created request (createGroup cfg now s request).2).stored ≠ []) :
    (createGroup cfg now s request).1.writeKey request.groupId 0 =
      some request.bootstrapWriteKey := by
  rcases createGroup_cases cfg now s request with ⟨-, hst⟩ | ⟨initial, opening, -, -, -, hs, -⟩
  · exact absurd hst h
  · rw [hs]
    exact writeKey_eq_some.mpr ⟨_, _, setGroup_self, rfl, rfl⟩

theorem Call.step_groups {groupId : Bytes} {g : MemoryGroup}
    (h : (c.step cfg now s).1.groups groupId = some g) :
    (∃ g₀, s.groups groupId = some g₀) ∨ ∃ request result,
      (c.step cfg now s).2 = .created request result ∧ request.groupId = groupId ∧
      (Call.created request result).stored ≠ [] := by
  have hse : ∀ {other g₀ g₁}, s.groups other = some g₀ →
      (s.setGroup other g₁).groups groupId = some g → ∃ g₀, s.groups groupId = some g₀ := by
    intro other g₀ g₁ hg₀ hse
    by_cases ho : groupId = other
    · exact ⟨g₀, ho ▸ hg₀⟩
    · exact ⟨g, by rwa [setGroup_of_ne ho] at hse⟩
  cases c with
  | start request =>
    cases request with
    | createGroup request =>
      rcases createGroup_cases cfg now s request with ⟨hs, -⟩ | ⟨_, _, -, -, -, hs, hst⟩
      · rw [Call.step, hs] at h
        exact .inl ⟨g, h⟩
      · by_cases ho : groupId = request.groupId
        · exact .inr ⟨request, _, rfl, ho.symm, by simp [hst]⟩
        · rw [Call.step, hs, setGroup_of_ne ho] at h
          exact .inl ⟨g, h⟩
    | closeGroup other =>
      simp only [Call.step, closeGroup] at h
      repeat' split at h
      case h_2.isFalse hg₀ _ => exact .inl (hse hg₀ h)
      all_goals exact .inl ⟨g, h⟩
    | submit request =>
      simp only [Call.step] at h
      split at h
      · exact .inl ⟨g, h⟩
      · split at h <;> exact .inl ⟨g, h⟩
  | waiting request batch =>
    simp only [Call.step] at h
    split at h
    · exact .inl ⟨g, h⟩
    · rename_i hg₀
      exact .inl (hse hg₀ h)
  | created | closed | failed | answering | submitted => exact .inl ⟨g, h⟩

end Step

theorem fetchPage_highWaterRecordId (request : FetchRequest) (rows : List RecordRow)
    (result : FetchResult) :
    (fetchPage request result rows).highWaterRecordId = result.highWaterRecordId := by
  induction rows generalizing result with
  | nil => rfl
  | cons row rows ih =>
    simp only [fetchPage]
    split_ifs <;> first | exact ih _ | rfl

theorem le_highWaterRecordId {readEpoch : ℕ} {rows : List RecordRow} {row : RecordRow}
    (hr : row ∈ rows) (he : row.record.epoch ≤ readEpoch) :
    row.record.recordId ≤ highWaterRecordId readEpoch rows := by
  induction rows using List.reverseRecOn with
  | nil => cases hr
  | append_singleton rows last ih =>
    simp only [highWaterRecordId, List.foldl_append, List.foldl_cons, List.foldl_nil]
    rcases List.mem_append.mp hr with hr | hr
    · have hle := ih hr
      unfold highWaterRecordId at hle
      split
      · exact hle
      · exact hle.trans (le_max_left ..)
    · rw [← List.mem_singleton.mp hr, if_neg (not_lt.mpr he)]
      exact le_max_right ..

theorem fetch_highWater {request : FetchRequest} {result : FetchResult}
    (h : fetch s request = .ok result) : s.groups request.groupId ≠ none ∧
      ∀ r ∈ s.log request.groupId, r.epoch ≤ request.readEpoch →
        r.recordId ≤ result.highWaterRecordId := by
  unfold fetch at h
  rw [bind_eq_ok] at h
  replace h := h.2
  split at h
  · cases h
  · rename_i g hg
    split at h
    · cases h
    · refine ⟨by simp [hg], fun r hr he => ?_⟩
      rw [← Except.ok.inj h, fetchPage_highWaterRecordId]
      rw [log_of_group hg] at hr
      obtain ⟨row, hrw, rfl⟩ := List.mem_map.mp hr
      exact le_highWaterRecordId hrw he

section Run

variable {cfg : Config} {ι : Type*} [DecidableEq ι] {s : MemoryStore} {e : ℕ} {i : ι}

theorem runFrom_request (cfg : Config) (s : MemoryStore) (requests : ι → Request)
    (sched : List (ι × Time)) (i : ι) :
    ((runFrom cfg s requests sched).calls i).request = requests i :=
  exec_calls (A := fun i c => c.request = requests i)
    (fun _ _ _ c hc => (Call.request_step c).trans hc) (fun _ => rfl) sched i

theorem runFrom_stored (hs : s.Each (Sound cfg)) (requests : ι → Request) (p q : List (ι × Time))
    {r : Record} (hr : r ∈ ((runFrom cfg s requests p).calls i).stored) :
    r ∈ ((runFrom cfg s requests (p ++ q)).calls i).stored := by
  have hrd : ∀ j, ((runFrom cfg s requests p).calls j).ReadFrom cfg fun _ => True :=
    fun j => ((history hs requests p).read j).mono fun _ _ => trivial
  unfold runFrom at hr hrd ⊢
  rw [exec_append]
  have h := exec_calls (M := machine cfg)
    (A := fun j c => c.ReadFrom cfg (fun _ => True) ∧ (j = i → r ∈ c.stored))
    (fun j now s c hc => ⟨Call.readFrom_step hc.1 trivial, fun hj => ?_⟩)
    (fun j => ⟨hrd j, fun hj => hj ▸ hr⟩) q i
  · exact h.2 rfl
  · have hm := hc.2 hj
    rcases Call.step_log cfg now s hc.1 with hst | ⟨hn, -⟩
    · exact (congrArg (fun x => r ∈ x.2.stored) hst).mpr hm
    · simp [hn] at hm

theorem runFrom_answered (hs : s.Each (Sound cfg)) (requests : ι → Request)
    (sched : List (ι × Time)) {request : SubmitRequest} {batch : List Pending}
    (hc : (runFrom cfg s requests sched).calls i = .submitted request batch) :
    validateSubmit request = .ok () ∧ batch.map (·.record) = request.records ∧
      ∀ q ∈ batch, accepted q.result.reason = true →
        ∃ g, (runFrom cfg s requests sched).shared.groups request.groupId = some g ∧
          matchedId cfg g q.record = some q.result.recordId := by
  have hin : (machine cfg).Invariant (Each (Sound cfg)) fun s c =>
      c.ReadFrom cfg (fun _ => True) ∧ c.InOrder ∧ c.Matched cfg s := by
    refine ⟨fun now s c hs hc => ?_, fun now s c hs hc => ?_, fun now s c c' hs hc hc' => ?_⟩
    · exact (Call.step_store hc.1).each (fun _ _ step => step.sound) hs
    · obtain ⟨ho, hm⟩ : (c.step cfg now s).2.InOrder ∧ (c.step cfg now s).2.Matched cfg s :=
        Call.batch_step hc.1 hc.2.1 hc.2.2
      exact ⟨Call.readFrom_step hc.1 trivial, ho, hm.grows ((Call.step_store hc.1).grows hs)⟩
    · exact ⟨hc'.1, hc'.2.1, hc'.2.2.grows ((Call.step_store hc.1).grows hs)⟩
  have h := (hin.exec (w := initial s requests) hs (fun _ => ⟨trivial, trivial, trivial⟩) sched).2 i
  have his := history hs requests sched
  unfold runFrom at hc his ⊢
  rw [hc] at h
  obtain ⟨-, ho, hm⟩ := h
  refine ⟨ho.1, ho.2, fun q hq ha => ?_⟩
  by_cases hi : q.probe = .identical
  · exact Option.bind_eq_some_iff.mp (hm q hq hi)
  · have hap : stamp q.record q.result.recordId ∈ appended batch :=
      List.mem_map.mpr ⟨q, List.mem_filter.mpr ⟨hq, by simp [hi, ha]⟩, rfl⟩
    have hl := (his.log request.groupId _).mpr (.inr ⟨i, by rw [hc]; rfl, by rw [hc]; exact hap⟩)
    obtain ⟨g, L, hg, hL, -, hmm⟩ := exists_ledger his.sound hl
    exact ⟨g, hg, hL.matchedId hmm⟩

theorem run_founded (cfg : Config) (requests : ι → Request) (sched : List (ι × Time))
    {groupId : Bytes} {g : MemoryGroup}
    (hg : (run cfg requests sched).shared.groups groupId = some g) :
    ∃ i request result, (run cfg requests sched).calls i = .created request result ∧
      request.groupId = groupId ∧ (Call.created request result).stored ≠ [] := by
  have h := exec_induction (M := machine cfg) (w := initial .empty requests)
    (P := fun w => ∀ g, w.shared.groups groupId = some g → ∃ i request result,
      w.calls i = .created request result ∧ request.groupId = groupId ∧
      (Call.created request result).stored ≠ [])
    (fun _ h => nomatch h) (fun w m hw g hg => ?_) sched
  · exact h g hg
  · rcases Call.step_groups hg with ⟨g₀, hg₀⟩ | ⟨request, result, hc, hid, hne⟩
    · obtain ⟨i, request, result, hc, hid, hne⟩ := hw g₀ hg₀
      refine ⟨i, request, result, ?_, hid, hne⟩
      by_cases hi : i = m.1
      · rw [hi, turn_calls_self, ← hi, hc]
        rfl
      · rw [turn_calls_of_ne hi, hc]
    · exact ⟨m.1, request, result, (turn_calls_self ..).trans hc, hid, hne⟩

theorem run_writeKey (cfg : Config) (requests : ι → Request) (p q : List (ι × Time))
    {groupId key key' : Bytes} (hk : (run cfg requests p).shared.writeKey groupId e = some key)
    (hk' : (run cfg requests (p ++ q)).shared.writeKey groupId e = some key') : key' = key := by
  obtain ⟨g, row, hg, hr, hk⟩ := writeKey_eq_some.mp hk
  obtain ⟨g', row', hg', hr', hk'⟩ := writeKey_eq_some.mp hk'
  obtain ⟨g₁, hg₁, hkp⟩ := run_keepsKeys cfg requests p q hg
  cases hg'.symm.trans hg₁
  obtain ⟨row₁, hr₁, hkt⟩ := hkp e row hr
  cases hr'.symm.trans hr₁
  rcases hkt.writeKey with h | h
  · rw [h, hk] at hk'
    exact (Option.some.inj hk').symm
  · rw [h] at hk'
    cases hk'

theorem run_announced (cfg : Config) (requests : ι → Request) (sched : List (ι × Time))
    (hk : (run cfg requests sched).shared.writeKey groupId (e + 1) = some key) :
    ∃ g c i readKey, (run cfg requests sched).shared.groups groupId = some g ∧
      g.commits e = some c ∧ ((run cfg requests sched).calls i).groupId = groupId ∧
      c.record ∈ ((run cfg requests sched).calls i).stored ∧
      Announces c.record ((run cfg requests sched).calls i).epochKeys (some key) readKey := by
  obtain ⟨g, row, hg, hr, hw⟩ := writeKey_eq_some.mp hk
  obtain ⟨c, i, writeKey, readKey, hc, hi, hs, ha, -, hky, -⟩ :=
    run_installed cfg requests sched hg hr
  obtain rfl : some key = writeKey := hw.symm.trans (hky (by simp [hw]))
  exact ⟨g, c, i, readKey, hg, hc, hi, hs, ha⟩

end Run

end MessageServer.Store
