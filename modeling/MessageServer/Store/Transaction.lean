import MessageServer.Store.Calls

/-! # What a transaction does to a group

A batch under the row lock either leaves the group alone or appends its
unsettled records one after another, each admitted by the group as it stands
when its turn comes. The gates test the whole batch before the first write.
-/

namespace MessageServer.Store

namespace MemoryGroup

section Write

variable (g : MemoryGroup) (cfg : Config) (now : Time) (e : ℕ) (keys : Option EpochKeyDelivery)
  (record : Record)

theorem advance_of_commit {opening : EpochOpening} (hc : record.isCommit = true)
    (ho : openingOf record keys = some opening) :
    g.advance cfg now e keys record = g.openEpoch cfg now e record opening := by
  simp [advance, hc, ho]

theorem advance_of_not_commit (hc : record.isCommit = false) :
    g.advance cfg now e keys record = g := by
  simp [advance, hc]

@[simp] theorem advance_records : (g.advance cfg now e keys record).records = g.records := by
  unfold advance; split <;> rfl

@[simp] theorem advance_claims : (g.advance cfg now e keys record).claims = g.claims := by
  unfold advance; split <;> rfl

@[simp] theorem advance_senders : (g.advance cfg now e keys record).senders = g.senders := by
  unfold advance; split <;> rfl

@[simp] theorem advance_recovery : (g.advance cfg now e keys record).recovery = g.recovery := by
  unfold advance; split <;> rfl

@[simp] theorem advance_nextRecordId :
    (g.advance cfg now e keys record).nextRecordId = g.nextRecordId := by
  unfold advance; split <;> rfl

@[simp] theorem advance_closed : (g.advance cfg now e keys record).closed = g.closed := by
  unfold advance; split <;> rfl

def rowOf (g : MemoryGroup) (now : Time) (record : Record) : RecordRow where
  record := record
  pruneAfter := pruneAfter now record.retentionClass g.mediaTtlSeconds g.durableTtlSeconds
  createTime := now
  policy := g.policyVersion

theorem write_records : (g.write cfg now e keys record).records =
    g.records ++ [(g.advance cfg now e keys record).rowOf now record] := by
  simp only [write, account, pinRecovery, storeRecord, closeFanOut, rowOf, advance_records]

theorem write_claims : (g.write cfg now e keys record).claims =
    Function.update g.claims (claimKeyOf record)
      (some ⟨record.recordId, record.bodyHash, headHash cfg record.ctHead, now⟩) := by
  simp only [write, account, pinRecovery, storeRecord, closeFanOut, advance_claims]

theorem write_senders : (g.write cfg now e keys record).senders =
    (g.account now record).senders := by
  simp only [write, account, pinRecovery, storeRecord, closeFanOut, advance_senders]

theorem write_recovery : (g.write cfg now e keys record).recovery =
    (g.pinRecovery now record).recovery := by
  simp only [write, account, pinRecovery, storeRecord, closeFanOut, advance_recovery]

theorem write_nextRecordId : (g.write cfg now e keys record).nextRecordId = g.nextRecordId := by
  simp only [write, account, pinRecovery, storeRecord, closeFanOut, advance_nextRecordId]

theorem write_closed : (g.write cfg now e keys record).closed = g.closed := by
  simp only [write, account, pinRecovery, storeRecord, closeFanOut, advance_closed]

theorem write_currentEpoch : (g.write cfg now e keys record).currentEpoch =
    (g.advance cfg now e keys record).currentEpoch := by
  simp only [write, account, pinRecovery, storeRecord, closeFanOut]

theorem write_commits : (g.write cfg now e keys record).commits =
    (g.advance cfg now e keys record).commits := by
  simp only [write, account, pinRecovery, storeRecord, closeFanOut]

theorem write_epochs : (g.write cfg now e keys record).epochs =
    (g.advance cfg now e keys record).epochs := by
  simp only [write, account, pinRecovery, storeRecord, closeFanOut]

theorem write_epochComplete : (g.write cfg now e keys record).epochComplete =
    ((g.advance cfg now e keys record).closeFanOut record).epochComplete := by
  simp only [write, account, pinRecovery, storeRecord, closeFanOut]

end Write

end MemoryGroup

/--
The group takes the record as its next one. The flag is the `epochComplete` that the
transaction read once, at its start.
-/
structure Admitted (g : MemoryGroup) (complete : Bool) (keys : Option EpochKeyDelivery)
    (record : Record) : Prop where
  epoch : record.epoch = g.currentEpoch
  window : complete = true ∨ exemptFromEpochComplete record = true
  kind : record.isCommit = isEpochAttachmentKind (attachmentKindOf record)
  uncommitted : record.isCommit = true → g.commits record.epoch = none
  opens : record.isCommit = true → wellFormedEpochAttachment record (g.currentEpoch + 1) keys = true
  stream : ∀ row, g.senders record.senderHandle = some row →
    row.lastStreamIndex < record.streamIndex
  pinned : ∀ tag row, recoveryTagOf record = some tag → g.recovery tag.handle = some row →
    row.verifyPub = tag.verifyPub

section Admitted

variable {g : MemoryGroup} {complete : Bool} {keys : Option EpochKeyDelivery} {record : Record}

theorem exists_opening {opens : ℕ} (h : wellFormedEpochAttachment record opens keys = true) :
    ∃ opening writeKey readKey, openingOf record keys = some opening ∧ opening.epoch = opens ∧
      opening.writeKey = some writeKey ∧ writeKey.length = epochKeyBytes ∧
      opening.readKey = some readKey ∧ readKey.length = epochKeyBytes := by
  unfold wellFormedEpochAttachment at h
  split at h
  · cases h
  rename_i opening ho
  by_cases he : opening.epoch = opens
  · by_cases hw : opening.writeKey.len = epochKeyBytes
    · by_cases hr : opening.readKey.len = epochKeyBytes
      · cases hwk : opening.writeKey with
        | none => simp [Slice.len, hwk, epochKeyBytes] at hw
        | some writeKey =>
          cases hrk : opening.readKey with
          | none => simp [Slice.len, hrk, epochKeyBytes] at hr
          | some readKey =>
            refine ⟨opening, writeKey, readKey, ho, he, hwk, ?_, hrk, ?_⟩
            · simpa [Slice.len, hwk] using hw
            · simpa [Slice.len, hrk] using hr
      · simp [he, hw, hr] at h
    · simp [he, hw] at h
  · simp [he] at h

theorem Admitted.advance (h : Admitted g complete keys record) (cfg : Config) (now : Time)
    (id : ℕ) :
    (record.isCommit = false ∧ g.advance cfg now g.currentEpoch keys (stamp record id) = g) ∨
    (record.isCommit = true ∧ ∃ opening, openingOf record keys = some opening ∧
      g.advance cfg now g.currentEpoch keys (stamp record id) =
        g.openEpoch cfg now g.currentEpoch (stamp record id) opening) := by
  cases hc : record.isCommit with
  | false => exact .inl ⟨rfl, g.advance_of_not_commit _ _ _ _ _ hc⟩
  | true =>
    obtain ⟨opening, _, _, ho, -⟩ := exists_opening (h.opens hc)
    exact .inr ⟨rfl, opening, ho, g.advance_of_commit _ _ _ _ _ hc ho⟩

end Admitted

/-- Records written one after another under consecutive ids, each admitted in its turn. -/
inductive Appends (cfg : Config) (now : Time) (complete : Bool) (keys : Option EpochKeyDelivery) :
    MemoryGroup → ℕ → List Record → MemoryGroup → Prop
  | nil (g : MemoryGroup) (id : ℕ) : Appends cfg now complete keys g id [] g
  | cons {g g' : MemoryGroup} {id : ℕ} {record : Record} {records : List Record}
      (admitted : Admitted g complete keys record)
      (rest : Appends cfg now complete keys
        (g.write cfg now g.currentEpoch keys (stamp record id)) (id + 1) records g') :
      Appends cfg now complete keys g id (record :: records) g'

section Gate

variable {g₀ g : MemoryGroup} {keys : Option EpochKeyDelivery} {highWater : Bytes → Option ℕ}
  {pinned : Bytes → Option Bytes} {record : Record}

/-- The gates of a batch see in their side maps what the group would hold by then. -/
structure Sync (g₀ : MemoryGroup) (highWater : Bytes → Option ℕ) (pinned : Bytes → Option Bytes)
    (g : MemoryGroup) : Prop where
  currentEpoch : g.currentEpoch = g₀.currentEpoch
  commits : g.commits = g₀.commits
  senders : ∀ record, (g.senders record.senderHandle).map (·.lastStreamIndex) =
    lastStreamIndex g₀ record highWater
  recovery : ∀ tag, (g.recovery tag.handle).map (·.verifyPub) = pinnedPub g₀ pinned tag

theorem Sync.start (g : MemoryGroup) (k : ℕ) :
    Sync g (fun _ => none) (fun _ => none) (g.reserve k) :=
  ⟨rfl, rfl, fun _ => rfl, fun _ => rfl⟩

theorem ite_eq_ok {c : Prop} [Decidable c] {refusal rest : Reason} (h : refusal ≠ .ok) :
    (if c then refusal else rest) = .ok ↔ ¬ c ∧ rest = .ok := by
  split <;> simp_all

theorem gate_eq_ok {state : GroupState} : gate g state record keys highWater pinned = .ok ↔
    ¬ (record.isCommit ∧ (g.commits record.epoch).isSome) ∧
    ¬ record.epoch ≠ state.currentEpoch ∧
    ¬ (¬ state.epochComplete ∧ ¬ exemptFromEpochComplete record) ∧
    ¬ record.isCommit ≠ isEpochAttachmentKind (attachmentKindOf record) ∧
    ¬ (record.isCommit ∧ ¬ wellFormedEpochAttachment record (state.currentEpoch + 1) keys) ∧
    ¬ (lastStreamIndex g record highWater).any (record.streamIndex ≤ ·) ∧
    ¬ (recoveryTagOf record).any fun tag =>
      (pinnedPub g pinned tag).any (· ≠ tag.verifyPub) := by
  rw [gate, ite_eq_ok (by decide), ite_eq_ok (by decide), ite_eq_ok (by decide),
    ite_eq_ok (by decide), ite_eq_ok (by decide), ite_eq_ok (by decide), ite_eq_ok (by decide)]
  simp only [and_true]

theorem Sync.admitted (h : Sync g₀ highWater pinned g)
    (hg : gate g₀ g₀.state record keys highWater pinned = .ok) :
    Admitted g g₀.epochComplete keys record := by
  obtain ⟨hl, hep, hwn, hk, ho, hs, hpn⟩ := gate_eq_ok.mp hg
  have he : g₀.state.currentEpoch = g.currentEpoch := h.currentEpoch.symm
  rw [he] at hep ho
  rw [← h.senders] at hs
  refine ⟨not_not.mp hep, ?_, not_not.mp hk, ?_, ?_, ?_, ?_⟩
  · by_contra hw
    exact hwn ⟨fun hc => hw (.inl hc), fun hx => hw (.inr hx)⟩
  · intro hc
    rw [h.commits]
    simpa [hc] using hl
  · intro hc
    simpa [hc] using ho
  · intro row hr
    simpa [hr] using hs
  · intro tag row ht hr
    have hp := h.recovery tag
    simp only [hr, Option.map_some] at hp
    simpa [ht, ← hp] using hpn

theorem pinnedPub_pin (hp : ∀ tag, (g.recovery tag.handle).map (·.verifyPub) =
    pinnedPub g₀ pinned tag) (ha : ∀ tag row, recoveryTagOf record = some tag →
    g.recovery tag.handle = some row → row.verifyPub = tag.verifyPub) (now : Time)
    (tag : RecoveryTag) : ((g.pinRecovery now record).recovery tag.handle).map (·.verifyPub) =
      pinnedPub g₀ (pin pinned record) tag := by
  unfold MemoryGroup.pinRecovery pin
  cases hr : recoveryTagOf record with
  | none => exact hp tag
  | some own =>
    have ho := hp own
    have ht := hp tag
    unfold pinnedPub at ho ht ⊢
    dsimp only
    by_cases hh : tag.handle = own.handle
    · rw [hh] at ht ⊢
      cases hrw : g.recovery own.handle with
      | none =>
        cases hpn : pinned own.handle with
        | none => simp
        | some pub => simp [hrw, hpn] at ho
      | some row =>
        have hpb := ha own row hr hrw
        cases hpn : pinned own.handle with
        | none => simp [hrw, hpb]
        | some pub => simpa [hrw, hpn] using ho
    · cases g.recovery own.handle <;> cases pinned own.handle <;> simpa [hh] using ht

theorem Sync.write (h : Sync g₀ highWater pinned g) {complete : Bool}
    (ha : Admitted g complete keys record) (hc : record.isCommit = false) (cfg : Config)
    (now : Time) (id : ℕ) :
    Sync g₀ (Function.update highWater record.senderHandle (some record.streamIndex))
      (pin pinned record) (g.write cfg now g.currentEpoch keys (stamp record id)) := by
  have had : g.advance cfg now g.currentEpoch keys (stamp record id) = g :=
    g.advance_of_not_commit _ _ _ _ _ hc
  refine ⟨?_, ?_, fun r => ?_, fun tag => ?_⟩
  · rw [MemoryGroup.write_currentEpoch, had, h.currentEpoch]
  · rw [MemoryGroup.write_commits, had, h.commits]
  · have hs := h.senders r
    rw [MemoryGroup.write_senders]
    by_cases hr : r.senderHandle = record.senderHandle
    · simp [MemoryGroup.account, lastStreamIndex, stamp, hr]
    · simpa [MemoryGroup.account, lastStreamIndex, stamp, hr] using hs
  · rw [MemoryGroup.write_recovery]
    exact pinnedPub_pin h.recovery ha.pinned now tag

end Gate

section Batch

variable {cfg : Config} {now : Time} {g₀ g : MemoryGroup} {keys : Option EpochKeyDelivery}
  {highWater : Bytes → Option ℕ} {pinned : Bytes → Option Bytes} {batch : List Pending}

/-- The records of a batch that step (0) left to the transaction. -/
def fresh (batch : List Pending) : List Record := (batch.filter (!·.settled)).map (·.record)

def Alone (records : List Record) : Prop :=
  ∀ record ∈ records, record.isCommit = true → records = [record]

theorem Alone.tail {record : Record} {records : List Record} (h : Alone (record :: records)) :
    Alone records := by
  intro r hr hc
  cases h r (List.mem_cons_of_mem _ hr) hc
  simp at hr

theorem fresh_cons_of_settled {p : Pending} (h : p.settled = true) :
    fresh (p :: batch) = fresh batch := by
  simp [fresh, h]

theorem fresh_cons_of_unsettled {p : Pending} (h : p.settled = false) :
    fresh (p :: batch) = p.record :: fresh batch := by
  simp [fresh, h]

theorem alone_fresh (h : Alone (batch.map (·.record))) : Alone (fresh batch) := by
  intro r hr hc
  have hsb : (fresh batch).Sublist (batch.map (·.record)) :=
    (List.filter_sublist (l := batch)).map _
  rw [h r (hsb.subset hr) hc] at hsb
  rcases List.sublist_singleton.mp hsb with hn | hs
  · rw [hn] at hr
    cases hr
  · exact hs

theorem length_fresh (batch : List Pending) : (fresh batch).length = batch.countP (!·.settled) := by
  simp [fresh, List.countP_eq_length_filter]

@[simp] theorem map_record_atEpoch (e : ℕ) (batch : List Pending) :
    (atEpoch e batch).map (·.record) = batch.map (·.record) := by
  simp [atEpoch, Function.comp_def]

@[simp] theorem fresh_atEpoch (e : ℕ) (batch : List Pending) :
    fresh (atEpoch e batch) = fresh batch := by
  induction batch with
  | nil => rfl
  | cons p batch ih =>
    cases h : p.settled with
    | true =>
      rw [fresh_cons_of_settled h, ← ih]
      exact fresh_cons_of_settled h
    | false =>
      rw [fresh_cons_of_unsettled h, ← ih]
      exact fresh_cons_of_unsettled h

variable {index : ℕ} {state : GroupState}

/-- A batch that passes the gates is written as a run of admitted appends. -/
theorem appends_of_gateAll (hs : Sync g₀ highWater pinned g) (ha : Alone (batch.map (·.record)))
    (hg : gateAll g₀ g₀.state keys highWater pinned index batch = none) (cfg : Config) (now : Time)
    (id : ℕ) :
    Appends cfg now g₀.epochComplete keys g id (fresh batch)
      (writeAll cfg now g₀.currentEpoch keys g id batch).1 := by
  induction batch generalizing g highWater pinned index id with
  | nil => exact .nil g id
  | cons p batch ih =>
    cases hp : p.settled with
    | true =>
      simp only [gateAll, writeAll, hp, if_true] at hg ⊢
      rw [fresh_cons_of_settled hp]
      exact ih hs ha.tail hg id
    | false =>
      simp only [gateAll, writeAll, hp, Bool.false_eq_true, if_false] at hg ⊢
      split at hg
      · cases hg
      rename_i hok
      have had := hs.admitted (not_not.mp hok)
      rw [fresh_cons_of_unsettled hp, ← hs.currentEpoch]
      refine .cons had ?_
      cases hc : p.record.isCommit with
      | true =>
        obtain ⟨-, hb⟩ := List.cons.inj (ha p.record List.mem_cons_self hc)
        obtain rfl := List.map_eq_nil_iff.mp hb
        exact .nil _ _
      | false =>
        have hw := hs.write had hc cfg now id
        rw [hs.currentEpoch] at hw ⊢
        exact ih hw ha.tail hg (id + 1)

theorem uncommitted_of_gateAll (hg : gateAll g state keys highWater pinned index batch = none) :
    ∀ p ∈ batch, p.settled = false → p.record.isCommit = true →
      g.commits p.record.epoch = none := by
  induction batch generalizing highWater pinned index with
  | nil => simp
  | cons p batch ih =>
    cases hp : p.settled with
    | true =>
      simp only [gateAll, hp, if_true] at hg
      simpa [hp] using ih hg
    | false =>
      simp only [gateAll, hp, Bool.false_eq_true, if_false] at hg
      split at hg
      · cases hg
      rename_i hok
      have hl := (gate_eq_ok.mp (not_not.mp hok)).1
      refine List.forall_mem_cons.mpr ⟨fun _ hc => ?_, ih hg⟩
      simpa [hc] using hl

theorem findIdx?_of_gateAll (hg : gateAll g state keys highWater pinned index batch = none) :
    (batch.findIdx? fun p =>
      !p.settled && p.record.isCommit && (g.commits p.record.epoch).isSome) = none := by
  rw [List.findIdx?_eq_none_iff]
  intro p hp
  have hu := uncommitted_of_gateAll hg p hp
  cases hs : p.settled <;> cases hc : p.record.isCommit <;> simp_all

section Results

variable (p : Pending)

@[simp] theorem resultOf_reason : (resultOf p).reason = p.result.reason := by
  unfold resultOf; split <;> rfl

@[simp] theorem resultOf_winningCommit : (resultOf p).winningCommit = p.result.winningCommit := by
  unfold resultOf; split <;> rfl

end Results

section Locked

variable (cfg now)

/-- The gates of a batch against the group its transaction reads. -/
def refusal (g : MemoryGroup) (keys : Option EpochKeyDelivery) (batch : List Pending) :
    Option (ℕ × Reason) :=
  gateAll g g.state keys (fun _ => none) (fun _ => none) 0 (atEpoch g.currentEpoch batch)

theorem submitLocked_of_closed (h : g.closed = true) :
    submitLocked cfg now g keys batch = (g, refuseUnavailable batch) := by
  simp [submitLocked, h]

theorem submitLocked_of_refusal (h : g.closed = false) {offender : ℕ} {reason : Reason}
    (hr : refusal g keys batch = some (offender, reason)) :
    submitLocked cfg now g keys batch =
      (g, refuseBatch g (atEpoch g.currentEpoch batch) offender reason) := by
  have hr' : gateAll g g.state keys (fun _ => none) (fun _ => none) 0
    (atEpoch g.state.currentEpoch batch) = some (offender, reason) := hr
  simp [submitLocked, h, hr']
  rfl

def written (g : MemoryGroup) (keys : Option EpochKeyDelivery) (batch : List Pending) :
    MemoryGroup × List Pending :=
  writeAll cfg now g.currentEpoch keys (g.reserve (fresh batch).length) g.nextRecordId
    (atEpoch g.currentEpoch batch)

theorem submitLocked_of_passed (h : g.closed = false) (hr : refusal g keys batch = none) :
    submitLocked cfg now g keys batch =
      ((written cfg now g keys batch).1, (written cfg now g keys batch).2.map
        (fillEpoch (written cfg now g keys batch).1.currentEpoch)) := by
  have hr' : gateAll g g.state keys (fun _ => none) (fun _ => none) 0
    (atEpoch g.state.currentEpoch batch) = none := hr
  have hl : (fresh batch).length = (atEpoch g.state.currentEpoch batch).countP (!·.settled) := by
    rw [← length_fresh, fresh_atEpoch]
  simp only [submitLocked, h, hr', commit, findIdx?_of_gateAll hr', written, hl]
  rfl

theorem written_appends (ha : Alone (batch.map (·.record))) (hr : refusal g keys batch = none) :
    Appends cfg now g.epochComplete keys (g.reserve (fresh batch).length) g.nextRecordId
      (fresh batch) (written cfg now g keys batch).1 := by
  rw [← map_record_atEpoch g.currentEpoch] at ha
  have h := appends_of_gateAll (Sync.start g (fresh batch).length) ha hr cfg now g.nextRecordId
  rwa [fresh_atEpoch] at h

theorem submitLocked_group (g : MemoryGroup) (keys : Option EpochKeyDelivery)
    (ha : Alone (batch.map (·.record))) :
    (submitLocked cfg now g keys batch).1 = g ∨ g.closed = false ∧
      Appends cfg now g.epochComplete keys (g.reserve (fresh batch).length) g.nextRecordId
        (fresh batch) (submitLocked cfg now g keys batch).1 := by
  rcases Bool.eq_false_or_eq_true g.closed with hc | hc
  · exact .inl (by rw [submitLocked_of_closed cfg now hc])
  · cases hr : refusal g keys batch with
    | some refused => exact .inl (by rw [submitLocked_of_refusal cfg now hc hr])
    | none =>
      rw [submitLocked_of_passed cfg now hc hr]
      exact .inr ⟨hc, written_appends cfg now ha hr⟩

end Locked

end Batch

end MessageServer.Store
