import MessageServer.Pgx.Holds
import MessageServer.Store.Custody

/-! # The writes of one record

Each statement of a transaction that writes a record changes the rows of its
group as the matching step in memory changes the group. A record that the group
takes is written whole; an error is left only where a row would not fit its
columns.
-/

namespace MessageServer.Pgx

open Store Transaction Function MemoryGroup

section Epochs

variable {ring : KekRing} {groupId : Bytes} {d : Database} {g : MemoryGroup} {e : ℕ}
  {row : MessageEpoch}

theorem isSome_of_unwrapColumn {label : WrapLabel} {n : ℕ} {wrapped key : Slice}
    (h : unwrapColumn ring groupId label n wrapped = .ok key) : key.isSome = wrapped.isSome := by
  cases wrapped with
  | none =>
    cases h
    rfl
  | some bytes =>
    simp only [unwrapColumn, Except.map] at h
    split at h
    · cases h
    · cases h
      rfl

theorem HoldsGroup.epoch_eq_none (h : HoldsGroup ring groupId d g) (e : ℕ) :
    d.lookup (.epoch groupId e) = none ↔ g.epochs e = none := by
  have he := h.epoch e
  rw [natAt_natCast] at he
  constructor
  · intro hn
    rw [hn] at he
    exact Option.map_eq_none_iff.mp he.symm
  · intro hn
    rw [hn] at he
    exact Option.map_eq_none_iff.mp he

theorem HoldsGroup.exists_epoch (h : HoldsGroup ring groupId d g)
    (hl : d.lookup (.epoch groupId e) = some row) :
    ∃ r, g.epochs e = some r ∧ openRow ring groupId e row = .ok (epochColumns r) := by
  have he := h.epoch e
  rw [natAt_natCast, hl] at he
  obtain ⟨r, hr, ho⟩ := Option.map_eq_some_iff.mp he.symm
  exact ⟨r, hr, ho.symm⟩

end Epochs

section Group

variable {ring : KekRing} {groupId : Bytes} {d : Database} {g g' : MemoryGroup}

/-- Two groups that differ at most in the columns of their own row. -/
structure SameRows (g g' : MemoryGroup) : Prop where
  epochs : g'.epochs = g.epochs
  records : g'.records = g.records
  claims : g'.claims = g.claims
  commits : g'.commits = g.commits
  senders : g'.senders = g.senders
  recovery : g'.recovery = g.recovery

variable (h : HoldsGroup ring groupId d g)
include h

theorem HoldsGroup.setGroup (hs : SameRows g g')
    (ha : admits (.group groupId) (groupColumns g') = true) :
    HoldsGroup ring groupId (d.insert (.group groupId) (groupColumns g')) g' := by
  obtain ⟨he, hr, hc, hm, hsd, hrc⟩ := hs
  have hra : recordAt g' = recordAt g := by
    funext id
    rw [recordAt, recordAt, hr]
  refine h.insert ha rfl fun k hk hg r hr' => ?_
  cases k with
  | group _ => exact absurd (congrArg Key.group hg) hk
  | epoch _ _ => simpa only [HoldsAt, he] using hr'
  | record _ _ => simpa only [HoldsAt, hra] using hr'
  | claim _ _ _ => simpa only [HoldsAt, hc] using hr'
  | commit _ _ => simpa only [HoldsAt, hm] using hr'
  | sender _ _ => simpa only [HoldsAt, hsd] using hr'
  | recovery _ _ => simpa only [HoldsAt, hrc] using hr'

theorem HoldsGroup.insertEpoch {e : ℕ} {r : EpochRow}
    {row : MessageEpoch} (ha : admits (.epoch groupId e) row = true)
    (ho : openRow ring groupId e row = .ok (epochColumns r)) :
    HoldsGroup ring groupId (d.insert (.epoch groupId e) row)
      { g with epochs := update g.epochs e (some r) } := by
  refine h.insert ha ?_ fun k hk hg r' hr => ?_
  · simp [HoldsAt, ho]
  · cases k with
    | epoch g' e' =>
      subst hg
      have hne : e' ≠ e := fun he => hk (he ▸ rfl)
      simpa only [HoldsAt, natAt_update_of_ne _ hne] using hr
    | group | record | claim | commit | sender | recovery => exact hr

theorem HoldsGroup.insertRecord (row : RecordRow) (hf : recordAt g row.id = none)
    (ha : admits (.record groupId row.id) (storedColumns row) = true) :
    HoldsGroup ring groupId (d.insert (.record groupId row.id) (storedColumns row))
      { g with records := g.records ++ [row] } := by
  have hap : ∀ id, recordAt { g with records := g.records ++ [row] } id =
      if row.id = id then some row else recordAt g id := by
    intro id
    simp only [recordAt, List.find?_append, List.find?_singleton]
    by_cases he : row.id = id
    · subst he
      simp only [recordAt] at hf
      simp [hf]
    · simp [he]
  refine h.insert ha ?_ fun k hk hg r hr => ?_
  · simp [HoldsAt, hap]
  · cases k with
    | record g' id =>
      subst hg
      cases id with
      | ofNat n =>
        have hne : row.id ≠ n := fun he => hk (he ▸ rfl)
        change r = (recordAt { g with records := g.records ++ [row] } n).map storedColumns
        rw [hap, if_neg hne]
        exact hr
      | negSucc n => exact hr
    | group | epoch | claim | commit | sender | recovery => exact hr

theorem HoldsGroup.insertClaim (key : ClaimKey) {claim : ClaimRow}
    (ha : admits (.claim groupId key.sender key.streamIndex) (claimColumns claim) = true) :
    HoldsGroup ring groupId (d.insert (.claim groupId key.sender key.streamIndex)
      (claimColumns claim)) { g with claims := update g.claims key (some claim) } := by
  refine h.insert ha ?_ fun k hk hg r hr => ?_
  · simp [HoldsAt]
  · cases k with
    | claim g' handle i =>
      subst hg
      cases i with
      | ofNat n =>
        have hne : (⟨handle, n⟩ : ClaimKey) ≠ key := fun he => hk (he ▸ rfl)
        change r = (update g.claims key (some claim) ⟨handle, n⟩).map claimColumns
        rw [update_of_ne hne]
        exact hr
      | negSucc n => exact hr
    | group | epoch | record | commit | sender | recovery => exact hr

theorem HoldsGroup.insertCommit {e : ℕ} (commit : CommitRow)
    (ha : admits (.commit groupId e) (commitColumns commit) = true) :
    HoldsGroup ring groupId (d.insert (.commit groupId e) (commitColumns commit))
      { g with commits := update g.commits e (some commit) } := by
  refine h.insert ha ?_ fun k hk hg r hr => ?_
  · simp [HoldsAt]
  · cases k with
    | commit g' e' =>
      subst hg
      have hne : e' ≠ e := fun he => hk (he ▸ rfl)
      simpa only [HoldsAt, natAt_update_of_ne _ hne] using hr
    | group | epoch | record | claim | sender | recovery => exact hr

variable {handle : Bytes}

theorem HoldsGroup.insertSender (sender : SenderRow)
    (ha : admits (.sender groupId handle) (senderColumns sender) = true) :
    HoldsGroup ring groupId (d.insert (.sender groupId handle) (senderColumns sender))
      { g with senders := update g.senders handle (some sender) } := by
  refine h.insert ha ?_ fun k hk hg r hr => ?_
  · simp [HoldsAt]
  · cases k with
    | sender g' handle' =>
      subst hg
      have hne : handle' ≠ handle := fun he => hk (he ▸ rfl)
      simpa only [HoldsAt, update_of_ne hne] using hr
    | group | epoch | record | claim | commit | recovery => exact hr

theorem HoldsGroup.insertRecovery (row : RecoveryRow)
    (ha : admits (.recovery groupId handle) (recoveryColumns row) = true) :
    HoldsGroup ring groupId (d.insert (.recovery groupId handle) (recoveryColumns row))
      { g with recovery := update g.recovery handle (some row) } := by
  refine h.insert ha ?_ fun k hk hg r hr => ?_
  · simp [HoldsAt]
  · cases k with
    | recovery g' handle' =>
      subst hg
      have hne : handle' ≠ handle := fun he => hk (he ▸ rfl)
      simpa only [HoldsAt, update_of_ne hne] using hr
    | group | epoch | record | claim | commit | sender => exact hr

end Group

section FanOut

variable {ring : KekRing} {groupId : Bytes} {d : Database} {g : MemoryGroup} {record : Record}
  {marker : EpochCompleteTag}

theorem closeFanOut_of_not (h : g.closesFanOut record = false) : g.closeFanOut record = g := by
  simp [MemoryGroup.closeFanOut, h]

/-- The marker of an epoch is measured against the row of that epoch. -/
theorem closeFanOut_meets (h : HoldsGroup ring groupId d g)
    (hm : epochCompleteTagOf record = some marker) :
    (closeFanOut groupId g.currentEpoch marker).Meets schema d
      { value := fun d' _ => HoldsGroup ring groupId d' (g.closeFanOut record) } := by
  unfold closeFanOut
  by_cases he : marker.epoch = g.currentEpoch
  · rw [if_neg (not_not.mpr he), int64_of_lt h.inRange.currentEpoch, Prog.meets_select]
    cases hl : d.lookup (.epoch groupId g.currentEpoch) with
    | none =>
      have hn := (h.epoch_eq_none _).mp hl
      rw [Prog.meets_pure, closeFanOut_of_not (by simp [closesFanOut, hm, hn])]
      exact h
    | some row =>
      obtain ⟨r, hr, ho⟩ := h.exists_epoch hl
      obtain ⟨_, _, -, -, hcs⟩ := openRow_eq_ok.mp ho
      have hw : row.expectedWrapCount = r.expectedWrapCount :=
        (congrArg MessageEpoch.expectedWrapCount hcs).symm
      have hb := h.admitted _ _ rfl hl
      simp only [admits, MessageEpoch.admitted, isBigint, Bool.and_eq_true, decide_eq_true_eq] at hb
      have hu : uint64 row.expectedWrapCount = r.expectedWrapCount := by
        rw [hw]
        exact uint64_natCast (by omega)
      by_cases hc : r.expectedWrapCount = marker.wrapCount
      · dsimp only
        rw [if_neg (not_not.mpr (hu.trans hc))]
        have hcl : g.closesFanOut record = true := by
          simp [closesFanOut, hm, hr, he, hc]
        have hs : { groupColumns g with epochComplete := true } =
            groupColumns (g.closeFanOut record) := by
          simp [MemoryGroup.closeFanOut, hcl, groupColumns]
        have ha : admits (.group groupId) (groupColumns (g.closeFanOut record)) = true := by
          rw [← hs]
          exact (h.admitted _ _ rfl h.group :)
        refine Prog.meets_update_of_some h.group rfl (fun hf => ?_) fun _ => ?_
        · rw [schema_admits, hs, ha] at hf
          cases hf
        · rw [hs]
          exact h.setGroup ⟨rfl, rfl, rfl, rfl, rfl, rfl⟩ ha
      · dsimp only
        rw [if_pos (by rwa [hu]), Prog.meets_pure, closeFanOut_of_not]
        · exact h
        · simp [closesFanOut, hm, hr, Ne.symm hc]
  · rw [if_pos he, Prog.meets_pure, closeFanOut_of_not]
    · exact h
    · cases hr : g.epochs g.currentEpoch <;> simp [closesFanOut, hm, hr, he]

end FanOut

section Store

variable {store : PgxStore} {groupId : Bytes} {draw : Draw} {d : Database} {g : MemoryGroup}
  {record : Record} {E : Prop}

/-- What a record must be like for its conversions to columns to be faithful. -/
structure Narrow (record : Record) : Prop where
  epoch : record.epoch < 2 ^ 64
  streamIndex : record.streamIndex < 2 ^ 64
  ephWindow : record.ephWindow < 2 ^ 63
  expireAt : ((expireAt record.expireAtMs).map timestamp).all isTimestamp = true
  opening : ∀ keys opening, openingOf record keys = some opening →
    opening.mediaTtlSeconds < 2 ^ 32 ∧ opening.durableTtlSeconds < 2 ^ 32 ∧
      opening.expectedWrapCount < 2 ^ 32

theorem map_sent {o : Option Time} (h : (o.map timestamp).all isTimestamp = true) :
    o.map sent = o.map timestamp := by
  cases o with
  | none => rfl
  | some t => exact congrArg some (sent_of_isTimestamp h)

theorem recordRow_eq {now : Time} {prune : Option Time} {policy : ℕ} (hn : Narrow record)
    (he : record.epoch < 2 ^ 63) (hp : policy < 2 ^ 31)
    (ha : MessageRecord.admitted (recordRow record now prune policy) = true) :
    recordRow record now prune policy = storedColumns ⟨record, prune, now, policy⟩ ∧
      int64 record.streamIndex = record.streamIndex := by
  have hs : record.streamIndex < 2 ^ 63 := by
    by_contra hge
    have hng := int64_neg (not_lt.mp hge) hn.streamIndex
    simp only [MessageRecord.admitted, Bool.and_eq_true, decide_eq_true_eq] at ha
    simp only [recordRow] at ha
    omega
  refine ⟨?_, int64_of_lt hs⟩
  simp only [storedColumns, recordRow, int64_of_lt hs, int64_of_lt he, int64_of_lt hn.ephWindow,
    int32_of_lt hp, map_sent hn.expireAt]

variable (h : HoldsGroup store.keys groupId d g)
include h

/-- Step (5a): the claim, then the row. -/
theorem storeRecord_meets (hn : Narrow record)
    (hcm : g.claims (claimKeyOf record) = none) (hfr : recordAt g record.recordId = none)
    (hid : record.recordId < 2 ^ 63) (he : record.epoch < 2 ^ 63)
    (hE : E → admits (.claim groupId record.senderHandle (int64 record.streamIndex))
        (claimRow store.toConfig record draw.now) = true ∧
      admits (.record groupId (int64 record.recordId)) (recordRow record draw.now
        (pruneAfter draw.now record.retentionClass g.mediaTtlSeconds g.durableTtlSeconds)
        g.policyVersion) = true) :
    (do
      Prog.insert (.claim groupId record.senderHandle (int64 record.streamIndex))
        (claimRow store.toConfig record draw.now) .ignore fun _ => pure ()
      insertRecord groupId record draw.now
        (pruneAfter draw.now record.retentionClass g.mediaTtlSeconds g.durableTtlSeconds)
        g.policyVersion : Statements Unit).Meets schema d
      { value := fun d' _ =>
          HoldsGroup store.keys groupId d' (g.storeRecord store.toConfig draw.now record) ∧
            int64 record.streamIndex = record.streamIndex
        error := fun _ => ¬ E } := by
  refine Prog.meets_bind ?_
  cases hr : admits (.record groupId (int64 record.recordId)) (recordRow record draw.now
      (pruneAfter draw.now record.retentionClass g.mediaTtlSeconds g.durableTtlSeconds)
      g.policyVersion) with
  | false =>
    have hno : ¬ E := fun hE' => by simp [(hE hE').2] at hr
    refine Prog.meets_insert_ignore (fun _ => hno) (fun _ _ => ?_) fun _ _ _ => ?_
    · exact Prog.meets_insert_of_not_admits hr hno
    · exact Prog.meets_insert_of_not_admits hr hno
  | true =>
    have had := hr
    simp only [admits, Bool.and_eq_true] at had
    obtain ⟨hcl, hsi⟩ := recordRow_eq hn he h.inRange.policyVersion had.2
    rw [int64_of_lt hid, hcl] at hr
    have hc : claimRow store.toConfig record draw.now = claimColumns ⟨record.recordId,
        record.bodyHash, headHash store.toConfig record.ctHead, draw.now⟩ := by
      simp [claimRow, claimColumns, int64_of_lt hid]
    rw [hsi, hc] at hE ⊢
    refine Prog.meets_insert_of_none ?_ (fun hf hE' => ?_) fun ha => ?_
    · rw [h.claim, natAt_natCast]
      exact Option.map_eq_none_iff.mpr hcm
    · rw [schema_admits, (hE hE').1] at hf
      cases hf
    · have h' := h.insertClaim ⟨record.senderHandle, record.streamIndex⟩ ha
      rw [Prog.meets_pure]
      unfold Pgx.insertRecord
      rw [int64_of_lt hid, hcl]
      refine Prog.meets_insert_of_none ?_ (fun hf => ?_) fun ha' => ?_
      · rw [h'.record, natAt_natCast]
        exact Option.map_eq_none_iff.mpr hfr
      · rw [schema_admits, hr] at hf
        cases hf
      · rw [Prog.meets_pure]
        exact ⟨h'.insertRecord ⟨record, _, draw.now, g.policyVersion⟩ hfr ha', rfl⟩

/-- Step (6c): the handle is pinned, or what is stored is compared. -/
theorem pinRecoveryHandle_meets {tag : RecoveryTag} (ht : recoveryTagOf record = some tag)
    (hE : E → admits (.recovery groupId tag.handle)
      ⟨tag.verifyPub, int32 tag.algId, timestamp draw.now⟩ = true) :
    (pinRecoveryHandle groupId tag draw.now).Meets schema d
      { value := fun d' rebound =>
          HoldsGroup store.keys groupId d' (g.pinRecovery draw.now record) ∧
            rebound = (g.recovery tag.handle).any (·.verifyPub ≠ tag.verifyPub)
        error := fun _ => ¬ E } := by
  unfold pinRecoveryHandle
  have hrw := h.recovery tag.handle
  refine Prog.meets_insert_ignore (fun hf hE' => ?_) (fun ha hl => ?_) fun _ old hl => ?_
  · rw [schema_admits, hE hE'] at hf
    cases hf
  · rw [hl] at hrw
    have hn : g.recovery tag.handle = none := Option.map_eq_none_iff.mp hrw.symm
    rw [if_pos rfl, Prog.meets_pure]
    refine ⟨?_, by simp [hn]⟩
    have hp : g.pinRecovery draw.now record = { g with
        recovery := update g.recovery tag.handle
          (some ⟨tag.verifyPub, tag.algId, draw.now⟩) } := by
      simp [pinRecovery, ht, hn]
    rw [hp]
    exact h.insertRecovery ⟨tag.verifyPub, tag.algId, draw.now⟩ ha
  · rw [hl] at hrw
    obtain ⟨row, hr, rfl⟩ := Option.map_eq_some_iff.mp hrw.symm
    rw [if_neg (by simp), Prog.meets_select, hl]
    rw [Prog.meets_pure]
    refine ⟨?_, by simp [hr, recoveryColumns, bne, beq_eq_decide]⟩
    have hp : g.pinRecovery draw.now record = g := by simp [pinRecovery, ht, hr]
    rwa [hp]

/-- Step (7): the sender's row is inserted, or counted up. -/
theorem account_meets (hs : int64 record.streamIndex = record.streamIndex)
    (hE : E → admits (.sender groupId record.senderHandle)
        ⟨record.streamIndex, 1, recordBytes record, timestamp draw.now⟩ = true ∧
      ∀ sender, g.senders record.senderHandle = some sender →
        admits (.sender groupId record.senderHandle) ⟨record.streamIndex, sender.recordCount + 1,
          sender.byteCount + recordBytes record, timestamp draw.now⟩ = true) :
    (account groupId draw record).Meets schema d
      { value := fun d' _ => HoldsGroup store.keys groupId d' (g.account draw.now record)
        error := fun _ => ¬ E } := by
  unfold account
  rw [hs]
  have hr := h.sender record.senderHandle
  cases hl : g.senders record.senderHandle with
  | none =>
    rw [hl, Option.map_none] at hr
    refine Prog.meets_insert_of_none hr (fun hf hE' => ?_) fun ha => ?_
    · rw [schema_admits, (hE hE').1] at hf
      cases hf
    · have hc : (⟨record.streamIndex, 1, recordBytes record, timestamp draw.now⟩ :
          MessageSender) = senderColumns ⟨record.streamIndex, 0 + 1, 0 + recordBytes record,
            draw.now⟩ := by simp [senderColumns]
      rw [hc] at ha ⊢
      rw [Prog.meets_pure]
      simpa only [MemoryGroup.account, hl, Option.getD_none] using h.insertSender _ ha
  | some sender =>
    rw [hl, Option.map_some] at hr
    have hc : (⟨record.streamIndex, (senderColumns sender).recordCount + 1,
        (senderColumns sender).byteCount + recordBytes record, timestamp draw.now⟩ :
        MessageSender) = senderColumns ⟨record.streamIndex, sender.recordCount + 1,
          sender.byteCount + recordBytes record, draw.now⟩ := by
      simp [senderColumns]
    refine Prog.meets_insert_set hr (fun hf hE' => ?_) (fun hf hE' => ?_) fun ha => ?_
    · rw [schema_admits, (hE hE').1] at hf
      cases hf
    · have := (hE hE').2 sender hl
      rw [schema_admits] at hf
      exact absurd this (by simpa [senderColumns] using hf)
    · rw [hc] at ha ⊢
      rw [Prog.meets_pure]
      simpa only [MemoryGroup.account, hl, Option.getD_some] using h.insertSender _ ha

end Store

section Limits

variable {limits : Limits} {opening : EpochOpening}

structure Bounded (limits : Limits) : Prop where
  mediaTtlMax : limits.mediaTtlMaxSeconds < 2 ^ 32
  mediaTtlDefault : limits.mediaTtlDefaultSeconds < 2 ^ 32
  durableTtlMax : limits.durableTtlMaxSeconds < 2 ^ 32
  durableTtlDefault : limits.durableTtlDefaultSeconds < 2 ^ 32
  durableRetentionMin : limits.durableRetentionMinSeconds < 2 ^ 32

theorem Bounded.media (h : Bounded limits) (ho : opening.mediaTtlSeconds < 2 ^ 32) :
    (limits.apply opening).1 < 2 ^ 32 := by
  have h₁ := h.mediaTtlMax
  have h₂ := h.mediaTtlDefault
  simp only [Limits.apply, Limits.media]
  split_ifs <;> assumption

theorem Bounded.durable (h : Bounded limits) (ho : opening.durableTtlSeconds < 2 ^ 32) :
    ∀ ttl, (limits.apply opening).2.1 = some ttl → ttl < 2 ^ 32 := by
  have h₁ := h.durableTtlMax
  have h₂ := h.durableTtlDefault
  have h₃ := h.durableRetentionMin
  intro ttl ht
  simp only [Limits.apply, Limits.durable] at ht
  split_ifs at ht <;> simp only [Option.some.injEq] at ht <;> omega

end Limits

section Open

variable {store : PgxStore} {groupId : Bytes} {draw : Draw} {d : Database} {g : MemoryGroup}
  {record : Record} {E : Prop}

variable {opening : EpochOpening} {n : ℕ} {writeKey readKey wrapped wrapped' : Bytes}
  {nonce nonce' : Nonce}

theorem openRow_epochRow (hn : n + 1 < 2 ^ 63) (hid : record.recordId ≠ 0)
    (hi : record.recordId < 2 ^ 63) (hw : opening.writeKey = some writeKey)
    (hr : opening.readKey = some readKey)
    (hww : store.keys.wrap .writeKey groupId (n + 1) nonce opening.writeKey = .ok wrapped)
    (hrw : store.keys.wrap .readKey groupId (n + 1) nonce' opening.readKey = .ok wrapped') :
    openRow store.keys groupId (n + 1 : ℕ)
        (epochRow opening wrapped wrapped' draw.now record.recordId) =
      .ok (epochColumns (openedRow draw.now n record opening)) := by
  rw [hw] at hww
  rw [hr] at hrw
  refine openRow_eq_ok.mpr ⟨some writeKey, some readKey, ?_, ?_, ?_⟩
  · rw [uint64_natCast (by omega)]
    simp [unwrapColumn, epochRow, KekRing.unwrap_of_wrap hww, Except.map]
  · rw [uint64_natCast (by omega)]
    simp [unwrapColumn, epochRow, KekRing.unwrap_of_wrap hrw, Except.map]
  · simp [epochColumns, openedRow, epochRow, hw, hr, hid, int64_of_lt hi]

theorem admitted_epochRow {e : ℕ} (hl : groupId.length = groupIdBytes) (he : e < 2 ^ 63)
    (hi : record.recordId < 2 ^ 63) (hc : opening.expectedWrapCount < 2 ^ 32)
    (ht : isTimestamp (timestamp draw.now) = true) (hw : opening.writeKey = some writeKey)
    (hr : opening.readKey = some readKey)
    (hww : store.keys.wrap .writeKey groupId e nonce opening.writeKey = .ok wrapped)
    (hrw : store.keys.wrap .readKey groupId e nonce' opening.readKey = .ok wrapped') :
    admits (.epoch groupId e) (epochRow opening wrapped wrapped' draw.now record.recordId) =
      true := by
  rw [hw] at hww
  rw [hr] at hrw
  simp [admits, MessageEpoch.admitted, epochRow, hl, ht, isBigint_natCast he, int64_of_lt hi,
    isBigint_natCast hi, isBigint_natCast (show opening.expectedWrapCount < 2 ^ 63 by omega),
    isNullOr, KekRing.length_of_wrap hww, KekRing.length_of_wrap hrw]

variable {row : MessageEpoch} {r : EpochRow} {z : ℤ}

variable (h : openRow store.keys groupId z row = .ok (epochColumns r))
include h

theorem openRow_setRetire {now : Time} :
    openRow store.keys groupId z { row with retireTime := some (timestamp now) } =
      .ok (epochColumns { r with retireTime := some now }) := by
  obtain ⟨w, k, hw, hk, hc⟩ := openRow_eq_ok.mp h
  refine openRow_eq_ok.mpr ⟨w, k, hw, hk, ?_⟩
  have hcl : epochColumns { r with retireTime := some now } =
      { epochColumns r with retireTime := some (timestamp now) } := by
    simp only [epochColumns, Option.map_some]
  rw [hcl, hc]

theorem openRow_dropWriteKey : openRow store.keys groupId z { row with writeKeyWrapped := none } =
      .ok (epochColumns { r with writeKey := none }) := by
  obtain ⟨w, k, hw, hk, hc⟩ := openRow_eq_ok.mp h
  refine openRow_eq_ok.mpr ⟨none, k, rfl, hk, ?_⟩
  have hcl : epochColumns { r with writeKey := none } =
      { epochColumns r with writeKeyWrapped := none } := by
    simp only [epochColumns]
  rw [hcl, hc]

theorem isSome_writeKey : row.writeKeyWrapped.isSome = r.writeKey.isSome := by
  obtain ⟨w, k, hw, hk, hc⟩ := openRow_eq_ok.mp h
  rw [← isSome_of_unwrapColumn hw]
  exact congrArg (fun c => c.writeKeyWrapped.isSome) hc.symm

omit h

/-- The superseded epoch gets its retire time while it holds its write key. -/
theorem retire_meets (h : HoldsGroup store.keys groupId d g) {α : Type}
    {next : Option MessageEpoch → Statements α} {Q : Post Row Error Reply α}
    (hE : isTimestamp (timestamp draw.now) = false → Q.error .violation)
    (hnx : ∀ d' row, HoldsGroup store.keys groupId d' { g with
        epochs := update g.epochs n ((g.epochs n).map fun row =>
          if row.writeKey ≠ none then { row with retireTime := some draw.now } else row) } →
      (next row).Meets schema d' Q) :
    (Prog.update (.epoch groupId n) (fun row => row.writeKeyWrapped.isSome)
      (fun row => { row with retireTime := some (timestamp draw.now) }) next).Meets schema d Q := by
  cases hl : d.lookup (.epoch groupId n) with
  | none =>
    refine Prog.meets_update_of_none (fun row hr => by rw [hl] at hr; cases hr) (hnx _ _ ?_)
    have hn := (h.epoch_eq_none n).mp hl
    rw [hn, Option.map_none, ← hn, update_eq_self]
    exact h
  | some row =>
    obtain ⟨r, hr, ho⟩ := h.exists_epoch hl
    have hs := isSome_writeKey ho
    by_cases hk : r.writeKey = none
    · refine Prog.meets_update_of_none (fun row' hr' => ?_) (hnx _ _ ?_)
      · rw [hl] at hr'
        cases hr'
        rw [hs, hk]
        rfl
      · rw [hr, Option.map_some, if_neg (not_not.mpr hk), ← hr, update_eq_self]
        exact h
    · refine Prog.meets_update_of_some hl ?_ (fun hf => hE ?_) fun ha => hnx _ _ ?_
      · rw [hs]
        exact Option.isSome_iff_ne_none.mpr hk
      · have had := h.admitted _ _ rfl hl
        simp only [schema_admits, admits, MessageEpoch.admitted, Option.all_some] at hf had
        by_contra ht
        simp_all
      · rw [hr, Option.map_some, if_pos hk]
        exact h.insertEpoch ha (openRow_setRetire ho)

theorem holdsAt_supersede {e : ℤ}
    (h : HoldsAt store.keys g (.epoch groupId e) (d.lookup (.epoch groupId e))) :
    HoldsAt store.keys { g with
        epochs := fun e => (g.epochs e).map fun row =>
          if e < n ∧ row.writeKey ≠ none then { row with writeKey := none } else row }
      (.epoch groupId e) (if .epoch groupId e ∈ selected (isSuperseded groupId n) d then
        (d.lookup (.epoch groupId e)).map (dropWriteKey (.epoch groupId e))
        else d.lookup (.epoch groupId e)) := by
  cases hl : d.lookup (.epoch groupId e) with
  | none =>
    rw [if_neg fun hk => by obtain ⟨_, hs, -⟩ := mem_selected.mp hk; rw [hl] at hs; cases hs]
    rw [hl] at h
    cases e with
    | ofNat m =>
      have hn : g.epochs m = none := Option.map_eq_none_iff.mp h.symm
      simp [HoldsAt, natAt, hn]
    | negSucc m => rfl
  | some row =>
    rw [hl] at h
    cases e with
    | negSucc m => cases h
    | ofNat m =>
      obtain ⟨r, hr, ho⟩ := Option.map_eq_some_iff.mp h.symm
      have hsm := isSome_writeKey ho.symm
      change g.epochs m = some r at hr
      by_cases hc : m < n ∧ r.writeKey ≠ none
      · rw [if_pos]
        · change some (openRow store.keys groupId (Int.ofNat m)
            { row with writeKeyWrapped := none }) = ((g.epochs m).map _).map _
          rw [openRow_dropWriteKey ho.symm, hr, Option.map_some, Option.map_some, if_pos hc]
        · refine mem_selected.mpr ⟨row, hl, ?_⟩
          simp only [isSuperseded, decide_eq_true_eq, hsm]
          exact ⟨trivial, by simpa using hc.1, Option.isSome_iff_ne_none.mpr hc.2⟩
      · rw [if_neg]
        · change some (openRow store.keys groupId (Int.ofNat m) row) = ((g.epochs m).map _).map _
          rw [← ho, hr, Option.map_some, Option.map_some, if_neg hc]
        · intro hk
          obtain ⟨row', hl', hs⟩ := mem_selected.mp hk
          cases hl.symm.trans hl'
          simp only [isSuperseded, decide_eq_true_eq, hsm] at hs
          exact hc ⟨by simpa using hs.2.1, Option.isSome_iff_ne_none.mp hs.2.2⟩

/-- The write keys of every older epoch are erased. -/
theorem supersede_meets (h : HoldsGroup store.keys groupId d g) {α : Type}
    {next : Statements α} {Q : Post Row Error Reply α}
    (hn : ∀ d', HoldsGroup store.keys groupId d' { g with
        epochs := fun e => (g.epochs e).map fun row =>
          if e < n ∧ row.writeKey ≠ none then { row with writeKey := none } else row } →
      next.Meets schema d' Q) :
    (Prog.updateAll (isSuperseded groupId n) dropWriteKey next).Meets schema d Q := by
  have hs : ∀ k row, k ∈ selected (isSuperseded groupId n) d → d.lookup k = some row →
      ∃ e, k = .epoch groupId e ∧ e < n := by
    intro k row hk hl
    obtain ⟨row', hl', hc⟩ := mem_selected.mp hk
    cases k with
    | epoch g' e =>
      simp only [isSuperseded, decide_eq_true_eq] at hc
      exact ⟨e, by rw [hc.1], hc.2.1⟩
    | group | record | claim | commit | sender | recovery => cases hc
  have hd : ∀ k row, k.groupId = groupId → d.lookup k = some row →
      admits k (dropWriteKey k row) = true := by
    intro k row hg hl
    have ha := h.admitted k row hg hl
    cases k with
    | epoch g' e =>
      simp only [dropWriteKey, admits, MessageEpoch.admitted, isNullOr, Option.all_none] at ha ⊢
      simp_all
    | group | record | claim | commit | sender | recovery => exact ha
  have had : schema.admitsAll (updated (selected (isSuperseded groupId n) d) dropWriteKey d) =
      true := by
    refine Schema.admitsAll_eq_true fun k row hl => ?_
    rw [lookup_updated] at hl
    split at hl
    · rename_i hk
      obtain ⟨old, ho, rfl⟩ := Option.map_eq_some_iff.mp hl
      obtain ⟨e, rfl, -⟩ := hs k old hk ho
      exact hd _ old rfl ho
    · cases hl
  refine Prog.meets_updateAll (fun hf => by rw [had] at hf; cases hf) fun _ => hn _ ?_
  constructor
  · intro k hg
    rw [lookup_updated_union]
    have hat := h.at_key k hg
    cases k with
    | epoch g' e =>
      obtain rfl : g' = groupId := hg
      exact holdsAt_supersede hat
    | group | record | claim | commit | sender | recovery =>
      rw [if_neg fun hk => by obtain ⟨_, -, hc⟩ := mem_selected.mp hk; cases hc]
      exact hat
  · intro k row hg hl
    rw [lookup_updated_union] at hl
    split at hl
    · obtain ⟨old, ho, rfl⟩ := Option.map_eq_some_iff.mp hl
      exact hd k old hg ho
    · exact h.admitted k row hg hl

/-- What keeps every row of an opened epoch within its columns. -/
structure EpochFits (store : PgxStore) (draw : Draw) (policyVersion : ℕ) (opening : EpochOpening) :
    Prop where
  key : (store.keys.keys store.keys.current).isSome
  clock : isTimestamp (timestamp draw.now) = true
  media : 0 < (store.limits.apply opening).1 ∧ (store.limits.apply opening).1 < 2 ^ 31
  durable : ∀ ttl, (store.limits.apply opening).2.1 = some ttl → 0 < ttl ∧ ttl < 2 ^ 31
  hash : isNullOr groupContextHashBytes opening.groupContextHash = true
  policy : policyVersion + 1 < 2 ^ 31

theorem durableColumn_eq {seconds : Option ℕ} (hlt : ∀ ttl, seconds = some ttl → ttl < 2 ^ 32)
    (hps : ∀ z, durableColumn seconds = some z → 0 < z) :
    durableColumn seconds = seconds.map (↑) := by
  cases seconds with
  | none => simp only [durableColumn, Option.map_none]
  | some ttl =>
    have hp := hps (int32 ttl) (by simp only [durableColumn, Option.map_some])
    have hl : ttl < 2 ^ 31 := by
      by_contra hge
      have hn := int32_neg (not_lt.mp hge) (hlt ttl rfl)
      omega
    simp only [durableColumn, Option.map_some, int32_of_lt hl]

theorem openedColumns_eq (h : InRange g)
    (hn : g.currentEpoch + 1 < 2 ^ 63) (hm : (store.limits.apply opening).1 < 2 ^ 32)
    (hd : ∀ ttl, (store.limits.apply opening).2.1 = some ttl → ttl < 2 ^ 32)
    (ha : MessageGroup.admitted (openedColumns (store.limits.apply opening) opening
      (g.currentEpoch + 1) (groupColumns g)) = true) (now : Time) (record : Record) :
    openedColumns (store.limits.apply opening) opening (g.currentEpoch + 1) (groupColumns g) =
      groupColumns (g.openEpoch store.toConfig now g.currentEpoch record opening) := by
  simp only [MessageGroup.admitted, Bool.and_eq_true, decide_eq_true_eq] at ha
  obtain ⟨⟨⟨⟨_, hps⟩, hal⟩, _⟩, _⟩ := ha
  simp only [openedColumns] at hps hal
  have hmd : int32 (store.limits.apply opening).1 = (store.limits.apply opening).1 := by
    refine int32_of_lt ?_
    by_contra hge
    have hng := int32_neg (not_lt.mp hge) hm
    omega
  have hdr := durableColumn_eq hd fun z hz => by
    rw [hz, Option.all_some, decide_eq_true_eq] at hal
    exact hal
  have hp := h.policyVersion
  have hpl : ((g.policyVersion + 1) % 2 ^ 32 : ℕ) = g.policyVersion + 1 :=
    Nat.mod_eq_of_lt (by omega)
  have hc : ((g.policyVersion + 1 : ℕ) : ℤ) = g.policyVersion + 1 := by omega
  simp only [openedColumns, hmd, hdr, int64_of_lt hn, groupColumns, MemoryGroup.openEpoch, hpl, hc]

theorem admits_openedColumns (h : HoldsGroup store.keys groupId d g)
    (hn : g.currentEpoch + 1 < 2 ^ 63) (hf : EpochFits store draw g.policyVersion opening) :
    admits (.group groupId) (openedColumns (store.limits.apply opening) opening
      (g.currentEpoch + 1) (groupColumns g)) = true := by
  have ha := h.admitted _ _ rfl h.group
  have hpl : isInt ((groupColumns g).policyVersion + 1) = true := by
    have hp := hf.policy
    simp only [isInt, Bool.and_eq_true, decide_eq_true_eq]
    simp only [groupColumns]
    omega
  have hd : ∀ z, durableColumn (store.limits.apply opening).2.1 = some z →
      isInt z = true ∧ 0 < z := by
    intro z hz
    obtain ⟨ttl, ht, rfl⟩ := Option.map_eq_some_iff.mp hz
    obtain ⟨hps, hlt⟩ := hf.durable ttl ht
    refine ⟨isInt_int32 _, ?_⟩
    rw [int32_of_lt hlt]
    omega
  have hm : 0 < int32 (store.limits.apply opening).1 := by
    rw [int32_of_lt hf.media.2]
    have := hf.media.1
    omega
  simp only [admits, MessageGroup.admitted, Bool.and_eq_true, decide_eq_true_eq] at ha ⊢
  simp only [openedColumns, int64_of_lt hn]
  refine ⟨ha.1, ?_⟩
  obtain ⟨-, ⟨⟨⟨⟨⟨⟨⟨⟨⟨⟨⟨⟨hc, -⟩, hnx⟩, -⟩, -⟩, -⟩, hcs⟩, -⟩, hn'⟩, -⟩, -⟩, -⟩, hcl⟩⟩ := ha
  refine ⟨⟨⟨⟨⟨⟨⟨⟨⟨⟨⟨⟨hc, isBigint_natCast hn⟩, hnx⟩, isInt_int32 _⟩, ?_⟩, hpl⟩, hcs⟩, ?_⟩,
    hn'⟩, hm⟩, ?_⟩, hf.hash⟩, hcl⟩
  · cases hz : durableColumn (store.limits.apply opening).2.1 with
    | none => rfl
    | some z => exact (hd z hz).1
  · omega
  · cases hz : durableColumn (store.limits.apply opening).2.1 with
    | none => rfl
    | some z => simpa using (hd z hz).2

/-- Step (6): the epoch opens, the superseded key retires and the older keys go. -/
theorem openEpoch_meets {keys : Option EpochKeyDelivery}
    {writeKey readKey : Bytes} {state : GroupState} (h : HoldsGroup store.keys groupId d g)
    (hs : state.currentEpoch = g.currentEpoch)
    (hnn : g.epochs (g.currentEpoch + 1) = none) (hn : g.currentEpoch + 1 < 2 ^ 63)
    (hid : record.recordId ≠ 0) (hi : record.recordId < 2 ^ 63)
    (ho : openingOf record keys = some opening) (hw : opening.writeKey = some writeKey)
    (hwl : writeKey.length = epochKeyBytes) (hr : opening.readKey = some readKey)
    (hrl : readKey.length = epochKeyBytes) (hrc : Narrow record) (hl : Bounded store.limits)
    (hE : E → EpochFits store draw g.policyVersion opening) :
    (openEpoch store groupId draw state record keys).Meets schema d
      { value := fun d' applied => applied = store.limits.apply opening ∧
          HoldsGroup store.keys groupId d' { g.openEpoch store.toConfig draw.now g.currentEpoch
            record opening with commits := g.commits }
        error := fun _ => ¬ E } := by
  unfold openEpoch
  rw [ho]
  have hn0 : g.currentEpoch < 2 ^ 63 := by omega
  obtain ⟨hom, hod, hc⟩ := hrc.opening keys opening ho
  dsimp only
  rw [hs, int64_of_lt hn, int64_of_lt hn0]
  refine Prog.meets_bind (orFail_meets (fun e he hE' => ?_) fun wrapped hww => ?_)
  · rw [hw] at he
    exact KekRing.wrap_ne_error (hE hE').key hwl he
  refine Prog.meets_bind (orFail_meets (fun e he hE' => ?_) fun wrapped' hrw => ?_)
  · rw [hr] at he
    exact KekRing.wrap_ne_error (hE hE').key hrl he
  refine Prog.meets_insert_of_none ((h.epoch_eq_none _).mpr hnn) (fun hf hE' => ?_) fun ha => ?_
  · rw [schema_admits, admitted_epochRow h.length_groupId hn hi hc (hE hE').clock hw hr hww
      hrw] at hf
    cases hf
  have h₁ := h.insertEpoch ha (openRow_epochRow hn hid hi hw hr hww hrw)
  refine retire_meets h₁ (fun hf hE' => ?_) fun d₂ _ h₂ => supersede_meets h₂ fun d₃ h₃ => ?_
  · rw [(hE hE').clock] at hf
    cases hf
  have hg : d₃.lookup (.group groupId) = some (groupColumns g) := h₃.group
  refine Prog.meets_update_of_some hg rfl (fun hf hE' => ?_) fun ha₃ => ?_
  · rw [schema_admits, admits_openedColumns h hn (hE hE')] at hf
    cases hf
  · rw [schema_admits] at ha₃
    have hcl := openedColumns_eq h.inRange hn (hl.media hom) (hl.durable hod) (by
      simp only [admits, Bool.and_eq_true] at ha₃
      exact ha₃.2) draw.now record
    rw [hcl] at ha₃ ⊢
    rw [Prog.meets_pure]
    have hst : HoldsGroup store.keys groupId _ { g.openEpoch store.toConfig draw.now
      g.currentEpoch record opening with commits := g.commits } :=
      h₃.setGroup ⟨rfl, rfl, rfl, rfl, rfl, rfl⟩ ha₃
    exact ⟨rfl, hst⟩

end Open

end MessageServer.Pgx
