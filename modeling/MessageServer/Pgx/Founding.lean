import MessageServer.Pgx.Batch
import MessageServer.Pgx.Beside

/-! # Creating and closing a group

The rows of a founding are inserted behind the row that takes the group's id,
into a database that has no other row of that id. Together they are the group
that the store in memory founds.
-/

namespace MessageServer.Pgx

open Store Transaction Function Prog

section Close

variable {store : PgxStore} {groupId : Bytes} {draw : Draw} {d : Database} {g : MemoryGroup}
  {E : Prop}

theorem closeGroup_of_open (h : HoldsGroup store.keys groupId d g) (ho : g.closed = false)
    (hE : E → isTimestamp (timestamp draw.now) = true) :
    (closeGroup draw groupId).Meets schema d
      { commit := fun d' w => HoldsGroup store.keys groupId d'
          { g with closed := true, closeTime := some draw.now } ∧ w = .closed
        error := fun _ => ¬ E } := by
  have hs : { groupColumns g with closed := true, closeTime := some (timestamp draw.now) } =
      groupColumns { g with closed := true, closeTime := some draw.now } := by
    simp only [groupColumns, Option.map_some]
  unfold closeGroup checkLength failIf
  rw [if_neg (not_not.mpr h.length_groupId)]
  refine meets_update_of_some h.group (by simpa [groupColumns] using ho) (fun hf hE' => ?_)
    fun ha => ?_
  · have had := h.admitted _ _ rfl h.group
    have ht := hE hE'
    simp only [schema_admits, admits, MessageGroup.admitted] at hf had
    simp_all
  · rw [hs] at ha ⊢
    exact ⟨h.setGroup ⟨rfl, rfl, rfl, rfl, rfl, rfl⟩ ha, rfl⟩

theorem closeGroup_of_unavailable (hl : groupId.length = groupIdBytes)
    (h : ∀ row, (d.lookup (.group groupId) : Option MessageGroup) = some row → row.closed = true) :
    (closeGroup draw groupId).Meets schema d
      { error := fun e => e = .store .groupUnavailable } := by
  unfold closeGroup checkLength failIf
  rw [if_neg (not_not.mpr hl)]
  exact meets_update_of_none (fun row hr => by simp [h row hr]) rfl

/-- A close closes the group in memory, or answers as it is answered there. -/
theorem closeGroup_meets {s : MemoryStore} (h : HoldsStore store.keys d s)
    (hE : E → isTimestamp (timestamp draw.now) = true) :
    (closeGroup draw groupId).Meets schema d
      (beside store.keys s (call store.toConfig draw.now s (.closeGroup groupId)) E) := by
  refine meets_beside h (inGroup_closeGroup draw groupId) ?_
  simp only [call]
  by_cases hl : groupId.length = groupIdBytes
  · have hc : checkLength groupId groupIdBytes = .ok () := failIf_eq_ok.mpr (not_not.mpr hl)
    have hun : (∀ g, s.groups groupId = some g → g.closed = true) →
        (closeGroup draw groupId).Meets schema d
          (besideGroup store.keys s (s, .error .groupUnavailable) E groupId) := fun hg =>
      (closeGroup_of_unavailable hl (h.closed_of_unavailable hg)).mono (fun _ _ => False.elim)
        (fun _ _ => False.elim) (fun _ => False.elim) fun _ he => .inl ⟨_, rfl, he⟩
    unfold Store.closeGroup
    rw [hc]
    cases hg : s.groups groupId with
    | none => exact hun fun g hg' => by rw [hg] at hg'; cases hg'
    | some g =>
      dsimp only
      split
      · rename_i hcl
        exact hun fun g' hg' => by rw [hg, Option.some.injEq] at hg'; rwa [← hg']
      · rename_i hop
        refine (closeGroup_of_open (h.groups _ g hg) (by simpa using hop) hE).mono
          (fun _ _ => False.elim) ?_ (fun _ => False.elim) fun _ => .inr
        rintro d' w ⟨hd, rfl⟩
        exact ⟨_, _, rfl, hd, .refl _⟩
  · have hc : checkLength groupId groupIdBytes = .error .identifierShape := if_pos hl
    unfold closeGroup Store.closeGroup
    rw [hc]
    exact .inl ⟨_, rfl, rfl⟩

end Close

section Found

variable {store : PgxStore} {draw : Draw} {d : Database} {request : CreateGroupRequest}
  {initial : Record} {opening : EpochOpening} {E : Prop}

/-- The group that a founding starts from: its row, and nothing besides. -/
def bareGroup (store : PgxStore) (draw : Draw) (request : CreateGroupRequest)
    (opening : EpochOpening) : MemoryGroup where
  groupId := request.groupId
  createTime := draw.now
  currentEpoch := 1
  nextRecordId := firstRecordId + 1
  mediaTtlSeconds := (store.limits.apply opening).1
  durableTtlSeconds := (store.limits.apply opening).2.1
  policyVersion := 1
  epochComplete := false
  groupContextHash := opening.groupContextHash
  closed := false
  closeTime := none
  records := []
  claims := fun _ => none
  commits := fun _ => none
  senders := fun _ => none
  epochs := fun _ => none
  recovery := fun _ => none

theorem foundingRow_eq (hl : Bounded store.limits) (hn : Narrow initial)
    (ho : openingOf initial request.epochKeys = some opening)
    (ha : MessageGroup.admitted (foundingRow store draw opening) = true) :
    foundingRow store draw opening = groupColumns (bareGroup store draw request opening) := by
  obtain ⟨hom, hod, -⟩ := hn.opening _ _ ho
  simp only [MessageGroup.admitted, Bool.and_eq_true, decide_eq_true_eq] at ha
  obtain ⟨⟨⟨⟨_, hp⟩, hal⟩, _⟩, _⟩ := ha
  simp only [foundingRow] at hp hal
  have hm : int32 (store.limits.apply opening).1 = (store.limits.apply opening).1 := by
    refine int32_of_lt ?_
    by_contra hge
    have hng := int32_neg (not_lt.mp hge) (hl.media hom)
    omega
  have hd := durableColumn_eq (hl.durable hod) fun z hz => by
    rw [hz, Option.all_some, decide_eq_true_eq] at hal
    exact hal
  have hnx : int64 firstRecordId + 1 = ((firstRecordId + 1 : ℕ) : ℤ) := by
    rw [int64_of_lt (by decide)]
    rfl
  have hon : ((1 : ℕ) : ℤ) = 1 := rfl
  simp only [foundingRow, groupColumns, bareGroup, hm, hd, hnx, Option.map_none, hon]

theorem holds_bareGroup (h : ∀ k : Key, k.groupId = request.groupId → d.lookup k = none)
    (ha : admits (.group request.groupId)
      (groupColumns (bareGroup store draw request opening)) = true) :
    HoldsGroup store.keys request.groupId (d.insert (.group request.groupId)
      (groupColumns (bareGroup store draw request opening)))
      (bareGroup store draw request opening) := by
  have ho : ∀ k : Key, k.groupId = request.groupId → k ≠ .group request.groupId →
      (d.insert (.group request.groupId)
        (groupColumns (bareGroup store draw request opening))).lookup k = none := by
    intro k hk hne
    rw [Finmap.lookup_insert_of_ne _ hne, h k hk]
  constructor
  · intro k hk
    cases k with
    | group g =>
      obtain rfl : g = request.groupId := hk
      exact Finmap.lookup_insert ..
    | epoch g z =>
      rw [ho _ hk (by simp)]
      cases z <;> rfl
    | record g z =>
      rw [ho _ hk (by simp)]
      cases z <;> rfl
    | claim g handle z =>
      rw [ho _ hk (by simp)]
      cases z <;> rfl
    | commit g z =>
      rw [ho _ hk (by simp)]
      cases z <;> rfl
    | sender | recovery =>
      rw [ho _ hk (by simp)]
      rfl
  · intro k row hk hl
    by_cases hg : k = .group request.groupId
    · subst hg
      rw [Finmap.lookup_insert] at hl
      exact Option.some.inj hl ▸ ha
    · rw [ho k hk hg] at hl
      cases hl

/-- What keeps every row of a founding within its columns. -/
structure FoundingFits (store : PgxStore) (draw : Draw) (groupId : Bytes) (record : Record)
    (opening : EpochOpening) : Prop where
  epoch : EpochFits store draw 0 opening
  claim : admits (.claim groupId record.senderHandle (int64 record.streamIndex))
    (claimRow store.toConfig record draw.now) = true
  row : admits (.record groupId (int64 record.recordId)) (recordRow record draw.now
    (pruneAfter draw.now record.retentionClass (store.limits.apply opening).1
      (store.limits.apply opening).2.1) 1) = true
  recovery : ∀ tag, recoveryTagOf record = some tag → admits (.recovery groupId tag.handle)
    ⟨tag.verifyPub, int32 tag.algId, timestamp draw.now⟩ = true
  sender : admits (.sender groupId record.senderHandle)
    ⟨record.streamIndex, 1, recordBytes record, timestamp draw.now⟩ = true

def bootstrapEpoch (now : Time) (key : Bytes) : EpochRow where
  epoch := 0
  writeKey := some key
  readKey := none
  readKeyInstall := none
  algId := 0
  expectedWrapCount := 0
  openedByRecord := 0
  acceptTime := now
  retireTime := some now

variable {groupId key wrapped : Bytes} {g : MemoryGroup} {record : Record} {nonce : Nonce}

theorem openRow_bootstrapRow
    (hw : store.keys.wrap .writeKey groupId 0 nonce (some key) = .ok wrapped) :
    openRow store.keys groupId ((0 : ℕ) : ℤ) (bootstrapRow wrapped draw.now) =
      .ok (epochColumns (bootstrapEpoch draw.now key)) := by
  have h0 : int32 0 = 0 := int32_of_lt (by decide)
  refine openRow_eq_ok.mpr ⟨some key, none, ?_, rfl, ?_⟩
  · rw [uint64_natCast (by decide)]
    simp [unwrapColumn, bootstrapRow, KekRing.unwrap_of_wrap hw, Except.map]
  · simp [epochColumns, bootstrapEpoch, bootstrapRow, h0]

theorem admits_bootstrapRow (hl : groupId.length = groupIdBytes)
    (ht : isTimestamp (timestamp draw.now) = true)
    (hw : store.keys.wrap .writeKey groupId 0 nonce (some key) = .ok wrapped) :
    admits (.epoch groupId ((0 : ℕ) : ℤ)) (bootstrapRow wrapped draw.now) = true := by
  have h0 : isBigint ((0 : ℕ) : ℤ) = true := isBigint_natCast (by decide)
  have h0' : isInt ((0 : ℕ) : ℤ) = true := isInt_natCast (by decide)
  simp only [Int.natCast_zero] at h0 h0'
  simp [admits, MessageEpoch.admitted, bootstrapRow, hl, ht, h0, h0', isNullOr,
    KekRing.length_of_wrap hw]

theorem foundGroup_epochs : (foundGroup store.toConfig draw.now request initial opening).epochs =
    update (update (fun _ => none) 0
      (some (bootstrapEpoch draw.now request.bootstrapWriteKey))) 1
      (some (openedRow draw.now 0 (stamp initial firstRecordId) opening)) := by
  funext e
  match e with
  | 0 => rfl
  | 1 => rfl
  | _ + 2 => rfl

theorem pinFounding_meets {groupId : Bytes} (h : HoldsGroup store.keys groupId d g)
    (hE : E → ∀ tag, recoveryTagOf record = some tag → admits (.recovery groupId tag.handle)
      ⟨tag.verifyPub, int32 tag.algId, timestamp draw.now⟩ = true) :
    (pinFounding draw groupId record).Meets schema d
      { value := fun d' _ => HoldsGroup store.keys groupId d' (g.pinRecovery draw.now record)
        error := fun _ => ¬ E } := by
  unfold pinFounding
  split
  · rename_i ht
    have hp : g.pinRecovery draw.now record = g := by simp [MemoryGroup.pinRecovery, ht]
    rw [hp]
    exact h
  · rename_i tag ht
    refine (pinRecoveryHandle_meets h ht fun hE' => hE hE' tag ht).bind_value ?_ fun _ => id
    exact fun _ _ hd => hd.1

theorem foundEpochs_meets {writeKey readKey : Bytes}
    (h : HoldsGroup store.keys request.groupId d (bareGroup store draw request opening))
    (hn : Narrow initial) (hb : request.bootstrapWriteKey.length = epochKeyBytes)
    (ho : openingOf initial request.epochKeys = some opening)
    (hw : opening.writeKey = some writeKey) (hwl : writeKey.length = epochKeyBytes)
    (hr : opening.readKey = some readKey) (hrl : readKey.length = epochKeyBytes)
    (hE : E → EpochFits store draw 0 opening) :
    (foundEpochs store draw request (stamp initial firstRecordId) opening).Meets schema d
      { value := fun d' _ => HoldsGroup store.keys request.groupId d'
          { bareGroup store draw request opening with
            epochs := (foundGroup store.toConfig draw.now request initial opening).epochs }
        error := fun _ => ¬ E } := by
  have hl := h.length_groupId
  have hi : (stamp initial firstRecordId).recordId < 2 ^ 63 := show firstRecordId < 2 ^ 63 by decide
  rw [foundGroup_epochs]
  unfold foundEpochs
  refine meets_bind (orFail_meets (fun e he' hE' => ?_) fun bootstrap hbw => ?_)
  · exact KekRing.wrap_ne_error (hE hE').key hb he'
  refine meets_bind (meets_insert_of_none ((h.epoch_eq_none 0).mpr rfl)
    (fun hf hE' => ?_) fun ha₁ => ?_)
  · exact absurd (admits_bootstrapRow hl (hE hE').clock hbw) (by simpa using hf)
  have h₁ := h.insertEpoch (e := 0) ha₁ (openRow_bootstrapRow hbw)
  refine meets_bind (orFail_meets (fun e he' hE' => ?_) fun wrapped hww => ?_)
  · rw [hw] at he'
    exact KekRing.wrap_ne_error (hE hE').key hwl he'
  refine meets_bind (orFail_meets (fun e he' hE' => ?_) fun wrapped' hrw => ?_)
  · rw [hr] at he'
    exact KekRing.wrap_ne_error (hE hE').key hrl he'
  have hro : openRow store.keys request.groupId ((0 + 1 : ℕ) : ℤ) (epochRow opening wrapped
      wrapped' draw.now (stamp initial firstRecordId).recordId) = .ok (epochColumns
        (openedRow draw.now 0 (stamp initial firstRecordId) opening)) :=
    openRow_epochRow (by decide) (show firstRecordId ≠ 0 by decide) hi hw hr hww hrw
  refine meets_insert_of_none ((h₁.epoch_eq_none 1).mpr rfl) (fun hf hE' => ?_) fun ha₂ => ?_
  · have ha := admitted_epochRow (e := 1) hl (by decide) hi (hn.opening _ _ ho).2.2
      (hE hE').clock hw hr hww hrw
    exact absurd ha (by simpa using hf)
  exact h₁.insertEpoch (e := 1) ha₂ hro

/-- The rows of a record in a group that has none, behind the row of the group. -/
theorem foundRecord_meets {groupId : Bytes} (h : HoldsGroup store.keys groupId d g)
    (hn : Narrow record) (he : record.epoch = 0) (hid : record.recordId < 2 ^ 63)
    (hr : g.records = []) (hc : g.claims = fun _ => none) (hm : g.commits = fun _ => none)
    (hs : g.senders = fun _ => none) (hE : E → FoundingFits store draw groupId record opening) :
    (foundRecord store draw groupId record opening).Meets schema d
      { value := fun d' _ => HoldsGroup store.keys groupId d' { g with
            records := [⟨record, pruneAfter draw.now record.retentionClass
              (store.limits.apply opening).1 (store.limits.apply opening).2.1, draw.now, 1⟩]
            claims := update (fun _ => none) (claimKeyOf record) (some ⟨record.recordId,
              record.bodyHash, headHash store.toConfig record.ctHead, draw.now⟩)
            commits := update (fun _ => none) record.epoch
              (some ⟨record.epoch, record.recordId, record⟩)
            senders := update (fun _ => none) record.senderHandle
              (some ⟨record.streamIndex, 1, recordBytes record, draw.now⟩)
            recovery := (g.pinRecovery draw.now record).recovery }
        error := fun _ => ¬ E } := by
  have hfr : recordAt g record.recordId = none := by simp [recordAt, hr]
  unfold foundRecord insertRecord
  refine meets_bind (meets_insert_of_none ?_ (fun hf hE' => ?_) fun ha₁ => ?_)
  · rw [int64_of_lt hid, h.record, natAt_natCast, hfr, Option.map_none]
  · rw [schema_admits, (hE hE').row] at hf
    cases hf
  have ha : MessageRecord.admitted (recordRow record draw.now (pruneAfter draw.now
      record.retentionClass (store.limits.apply opening).1 (store.limits.apply opening).2.1) 1) =
      true := by
    simp only [schema_admits, admits, Bool.and_eq_true] at ha₁
    exact ha₁.2
  obtain ⟨hcs, hsi⟩ := recordRow_eq hn (by omega) (by decide) ha
  rw [int64_of_lt hid, hcs] at ha₁ ⊢
  have h₁ := h.insertRecord ⟨record, _, draw.now, 1⟩ hfr ha₁
  refine meets_bind (meets_insert_of_none ?_ (fun hf hE' => ?_) fun ha₂ => ?_)
  · rw [hsi]
    exact (h₁.claim _ _).trans (by simp [hc])
  · rw [schema_admits, (hE hE').claim] at hf
    cases hf
  have hcl : claimRow store.toConfig record draw.now = claimColumns ⟨record.recordId,
      record.bodyHash, headHash store.toConfig record.ctHead, draw.now⟩ := by
    simp [claimRow, claimColumns, int64_of_lt hid]
  rw [hsi, hcl] at ha₂ ⊢
  have h₂ := h₁.insertClaim ⟨record.senderHandle, record.streamIndex⟩ ha₂
  have hep : int64 record.epoch = record.epoch := int64_of_lt (by omega)
  have hcm : (⟨record.recordId⟩ : MessageCommit) =
      commitColumns ⟨record.epoch, record.recordId, record⟩ := rfl
  rw [hep, hcm]
  refine meets_bind (meets_insert_of_none ?_ (fun hf hE' => ?_) fun ha₃ => ?_)
  · exact (h₂.commit _).trans (by simp [hm])
  · rw [schema_admits, ← hcm] at hf
    have hep' : isBigint record.epoch = true := isBigint_natCast (by omega)
    simp [admits, h.length_groupId, isBigint_natCast hid, hep'] at hf
  have h₃ := h₂.insertCommit ⟨record.epoch, record.recordId, record⟩ ha₃
  have hsn : (⟨record.streamIndex, 1, recordBytes record, timestamp draw.now⟩ :
      MessageSender) = senderColumns ⟨record.streamIndex, 1, recordBytes record, draw.now⟩ := rfl
  refine meets_bind (meets_insert_of_none ?_ (fun hf hE' => ?_) fun ha₄ => ?_)
  · exact (h₃.sender _).trans (by simp [hs])
  · rw [schema_admits, (hE hE').sender] at hf
    cases hf
  rw [hsn] at ha₄ ⊢
  have h₄ := h₃.insertSender ⟨record.streamIndex, 1, recordBytes record, draw.now⟩ ha₄
  refine (pinFounding_meets h₄ fun hE' => (hE hE').recovery).mono (fun d' _ hd => ?_)
    (fun _ _ => False.elim) (fun _ => False.elim) fun _ => id
  convert hd using 1
  simp [MemoryGroup.pinRecovery, hr, hc, hm, hs, claimKeyOf]

/-- The rows of a founding are those of the group that is founded in memory. -/
theorem foundRows_meets (h : HoldsGroup store.keys request.groupId d
      (bareGroup store draw request opening)) (hn : Narrow initial) (he : initial.epoch = 0)
    (hb : request.bootstrapWriteKey.length = epochKeyBytes)
    (hw : wellFormedEpochAttachment initial 1 request.epochKeys = true)
    (ho : openingOf initial request.epochKeys = some opening)
    (hE : E → FoundingFits store draw request.groupId (stamp initial firstRecordId) opening) :
    (foundRows store draw request (stamp initial firstRecordId) opening).Meets schema d
      { commit := fun d' w => HoldsGroup store.keys request.groupId d'
            (foundGroup store.toConfig draw.now request initial opening) ∧
          w = .created {
            reason := acceptanceReason (some (store.limits.apply opening).2.2)
            currentEpoch := 1
            recordId := firstRecordId
            applied := some (store.limits.apply opening).2.2 }
        error := fun _ => ¬ E } := by
  obtain ⟨opening', writeKey, readKey, ho', -, hwk, hwl, hrk, hrl⟩ := exists_opening hw
  cases ho'.symm.trans ho
  unfold foundRows
  refine (foundEpochs_meets h hn hb ho hwk hwl hrk hrl fun hE' => (hE hE').epoch).bind_value ?_
    fun _ => id
  intro d₁ _ h₁
  refine (foundRecord_meets h₁ (narrow_stamp hn _) he (show firstRecordId < 2 ^ 63 by decide) rfl
    rfl rfl rfl hE).bind_value ?_ fun _ => id
  intro d₂ _ h₂
  refine ⟨?_, rfl⟩
  convert h₂ using 1
  unfold foundGroup MemoryGroup.pinRecovery
  cases recoveryTagOf (stamp initial firstRecordId) <;> rfl

theorem admits_foundingRow (hl : request.groupId.length = groupIdBytes)
    (hf : EpochFits store draw 0 opening) :
    admits (.group request.groupId) (foundingRow store draw opening) = true := by
  have hd : ∀ z, durableColumn (store.limits.apply opening).2.1 = some z →
      isInt z = true ∧ 0 < z := by
    intro z hz
    obtain ⟨ttl, ht, rfl⟩ := Option.map_eq_some_iff.mp hz
    obtain ⟨hp, hlt⟩ := hf.durable ttl ht
    refine ⟨isInt_int32 _, ?_⟩
    rw [int32_of_lt hlt]
    omega
  have hm : 0 < int32 (store.limits.apply opening).1 := by
    rw [int32_of_lt hf.media.2]
    have := hf.media.1
    omega
  have hn : int64 firstRecordId + 1 = 2 := by
    rw [int64_of_lt (by decide)]
    rfl
  simp only [admits, MessageGroup.admitted, Bool.and_eq_true, decide_eq_true_eq]
  simp only [foundingRow, hn]
  refine ⟨by simpa using hl, ⟨⟨⟨⟨⟨⟨⟨⟨⟨⟨⟨⟨hf.clock, by decide⟩, by decide⟩, isInt_int32 _⟩, ?_⟩,
    by decide⟩, rfl⟩, by decide⟩, by decide⟩, hm⟩, ?_⟩, hf.hash⟩, rfl⟩⟩
  · cases hz : durableColumn (store.limits.apply opening).2.1 with
    | none => rfl
    | some z => exact (hd z hz).1
  · cases hz : durableColumn (store.limits.apply opening).2.1 with
    | none => rfl
    | some z => simpa using (hd z hz).2

/-- A creation founds the group that is founded in memory, or answers as it is answered there. -/
theorem createGroup_meets {s : MemoryStore} (hl : Bounded store.limits)
    (h : HoldsStore store.keys d s)
    (hn : ∀ initial, request.initialCommit = some initial → validateRecord initial = .ok () →
      Narrow initial)
    (hE : E → ∀ initial opening, request.initialCommit = some initial →
      validateRecord initial = .ok () → initial.epoch = 0 →
      wellFormedEpochAttachment initial 1 request.epochKeys = true →
      openingOf initial request.epochKeys = some opening →
      FoundingFits store draw request.groupId (stamp initial firstRecordId) opening) :
    (createGroup store draw request).Meets schema d
      (beside store.keys s (call store.toConfig draw.now s (.createGroup request)) E) := by
  refine meets_beside h (inGroup_createGroup store draw request) ?_
  simp only [call]
  unfold createGroup Store.createGroup
  cases hv : validateCreate request with
  | error e => exact .inl ⟨e, rfl, rfl⟩
  | ok initial =>
    dsimp only
    split
    · exact ⟨_, rfl, .refl _⟩
    · rename_i hs
      simp only [not_or, not_not] at hs
      obtain ⟨-, he, hw⟩ := hs
      obtain ⟨hgl, hbl, hin, hvl⟩ := validateCreate_eq_ok.mp hv
      cases ho : openingOf initial request.epochKeys with
      | none => exact ⟨_, rfl, .refl _⟩
      | some opening =>
        have hft := fun hE' => hE hE' initial opening hin hvl he hw ho
        cases hg : s.groups request.groupId with
        | some g =>
          refine meets_insert_ignore (fun hf => .inr fun hE' => ?_) (fun _ hnn => ?_)
            fun _ _ _ => ?_
          · rw [schema_admits, admits_foundingRow hgl (hft hE').epoch] at hf
            cases hf
          · rw [(h.groups _ g hg).group] at hnn
            cases hnn
          · exact ⟨_, rfl, .refl _⟩
        | none =>
          have hfr : ∀ k : Key, k.groupId = request.groupId → d.lookup k = none :=
            fun k hk => h.others k (hk ▸ hg)
          refine meets_insert_of_none (hfr _ rfl) (fun hf => .inr fun hE' => ?_) fun ha => ?_
          · rw [schema_admits, admits_foundingRow hgl (hft hE').epoch] at hf
            cases hf
          · have had := ha
            simp only [schema_admits, admits, Bool.and_eq_true] at had
            rw [foundingRow_eq hl (hn _ hin hvl) ho had.2] at ha ⊢
            rw [if_pos rfl]
            refine (foundRows_meets (holds_bareGroup hfr ha) (hn _ hin hvl) he hbl hw ho hft).mono
              (fun _ _ => False.elim) ?_ (fun _ => False.elim) fun _ => .inr
            rintro d' w ⟨hd, rfl⟩
            exact ⟨_, _, rfl, hd, .refl _⟩

end Found

end MessageServer.Pgx
