import MessageServer.Pgx.Calls

/-! # What the columns can hold

The checks of a record in front of the database, the widths that its numbers
have in the source, and the ranges and CHECKs of the columns it is written to.
A record that fits its columns reads back as it was written.
-/

namespace MessageServer.Pgx

open Store

section Valid

variable {record : Record}

theorem ephWindowClassAllows_iff {retentionClass : ℕ} :
    ephWindowClassAllows retentionClass = true ↔ 17 ≤ retentionClass ∧ retentionClass ≤ 21 := by
  simp only [ephWindowClassAllows, Bool.and_eq_true, decide_eq_true_eq]
  simp only [classEphBase, classEphMax]
  omega

structure Valid (record : Record) : Prop where
  senderHandle : record.senderHandle.length = senderHandleBytes
  bodyHash : record.bodyHash.length = bodyHashBytes
  sizeBucket : record.sizeBucket ≤ 5
  retentionClass : record.retentionClass ≤ 2 ∨
    17 ≤ record.retentionClass ∧ record.retentionClass ≤ 21
  ephWindow : record.ephWindow < 2 ^ 63
  ephWindowClass : record.ephWindow = 0 ∨ 17 ≤ record.retentionClass ∧ record.retentionClass ≤ 21
  inlineOrBlob : record.ctBody = none ∨ record.blobId = none
  blobId : ∀ blobId, record.blobId = some blobId → blobId.length = blobIdBytes
  attachment : validateAttachment record = .ok ()

theorem valid_of_validateRecord (h : validateRecord record = .ok ()) : Valid record := by
  unfold validateRecord checkLength at h
  simp only [bind_eq_ok, failIf_eq_ok, not_not] at h
  obtain ⟨hs, hb, -, hz, hc, ht, hw, hwc, hi, hr⟩ := h
  rw [ephWindowClassAllows_iff] at hwc
  simp only [classMedia, classEphBase, classEphMax, ephWindowMax] at hc ht hw
  have ha : (∀ blobId, record.blobId = some blobId → blobId.length = blobIdBytes) ∧
      validateAttachment record = .ok () := by
    cases hbl : record.blobId with
    | none =>
      rw [hbl] at hr
      exact ⟨fun _ hb => (by cases hb), hr⟩
    | some blobId =>
      rw [hbl] at hr
      simp only [bind_eq_ok, failIf_eq_ok, not_not] at hr
      exact ⟨fun _ hb => Option.some.inj hb ▸ hr.1, hr.2⟩
  refine ⟨hs, hb, by omega, by omega, by omega, by omega, ?_, ha.1, ha.2⟩
  cases hct : record.ctBody with
  | none => exact .inl rfl
  | some body =>
    refine .inr (Option.not_isSome_iff_eq_none.mp fun hbl => hi ⟨?_, hbl⟩)
    rw [hct]
    rfl

end Valid

section Typed

/-- The numbers of an attachment have the widths that they have in the source. -/
structure TypedAttachment (a : Attachment) : Prop where
  epoch : ∀ e, a.epoch = some e → e.epoch < 2 ^ 64 ∧ e.algId < 2 ^ 32 ∧
    e.mediaTtlSeconds < 2 ^ 32 ∧ e.durableTtlSeconds < 2 ^ 32 ∧ e.expectedWrapCount < 2 ^ 32
  wrap : ∀ tag, a.wrap = some tag → tag.leafIndex < 2 ^ 32
  recovery : ∀ tag, a.recovery = some tag → tag.algId < 2 ^ 32
  epochComplete : ∀ tag, a.epochComplete = some tag → tag.epoch < 2 ^ 64 ∧ tag.wrapCount < 2 ^ 32
  epochDigest : ∀ e, a.epochDigest = some e → e.epoch < 2 ^ 64 ∧ e.algId < 2 ^ 32 ∧
    e.mediaTtlSeconds < 2 ^ 32 ∧ e.durableTtlSeconds < 2 ^ 32 ∧ e.expectedWrapCount < 2 ^ 32

/-- The numbers of a record have the widths that they have in the source. -/
structure Typed (record : Record) : Prop where
  epoch : record.epoch < 2 ^ 64
  streamIndex : record.streamIndex < 2 ^ 64
  expireAtMs : record.expireAtMs < 2 ^ 64
  attachment : ∀ a, record.attachment = some a → TypedAttachment a

/-- An attachment is absent, or of a defined kind with the body of that kind alone. -/
inductive Canonical : Option Attachment → Prop
  | absent : Canonical none
  | epoch (e : EpochAttachment) : Canonical (some { kind := .epoch, epoch := some e })
  | wrap (tag : WrapTag) : Canonical (some { kind := .wrap, wrap := some tag })
  | recovery (tag : RecoveryTag) : Canonical (some { kind := .recovery, recovery := some tag })
  | epochComplete (tag : EpochCompleteTag) :
      Canonical (some { kind := .epochComplete, epochComplete := some tag })
  | epochDigest (e : EpochDigestAttachment) :
      Canonical (some { kind := .epochDigest, epochDigest := some e })

variable {record : Record}

theorem Typed.opening (h : Typed record) {keys : Option EpochKeyDelivery} {opening : EpochOpening}
    (ho : openingOf record keys = some opening) : opening.mediaTtlSeconds < 2 ^ 32 ∧
      opening.durableTtlSeconds < 2 ^ 32 ∧ opening.expectedWrapCount < 2 ^ 32 := by
  unfold openingOf at ho
  split at ho
  · cases ho
  · rename_i a ha
    split at ho
    · rename_i e _ he
      cases ho
      obtain ⟨-, -, hm, hd, hw⟩ := (h.attachment a ha).epoch e he
      exact ⟨hm, hd, hw⟩
    · rename_i e _ _ he
      cases ho
      obtain ⟨-, -, hm, hd, hw⟩ := (h.attachment a ha).epochDigest e he
      exact ⟨hm, hd, hw⟩
    · cases ho

theorem narrow_of_typed (h : Typed record) (hv : Valid record)
    (he : ((expireAt record.expireAtMs).map timestamp).all isTimestamp = true) : Narrow record :=
  ⟨h.epoch, h.streamIndex, hv.ephWindow, he, fun _ _ ho => h.opening ho⟩

end Typed

variable {n : ℕ}

theorem uint64_int64 (h : n < 2 ^ 64) : uint64 (int64 n) = n := by
  unfold uint64 int64
  rw [Int.bmod_def]
  split <;> omega

theorem isBigint_int64 (n : ℕ) : isBigint (int64 n) = true := by
  have hr : -9223372036854775808 ≤ int64 n ∧ int64 n ≤ 9223372036854775807 := by
    unfold int64
    rw [Int.bmod_def]
    split <;> omega
  simp only [isBigint, Bool.and_eq_true, decide_eq_true_eq]
  exact hr

theorem int64_nonneg_iff (h : n < 2 ^ 64) : 0 ≤ int64 n ↔ n < 2 ^ 63 := by
  constructor
  · intro hn
    by_contra hge
    have := int64_neg (not_lt.mp hge) h
    omega
  · intro hlt
    rw [int64_of_lt hlt]
    omega

theorem int32_pos_iff (h : n < 2 ^ 32) : 0 < int32 n ↔ 0 < n ∧ n < 2 ^ 31 := by
  constructor
  · intro hn
    by_cases hlt : n < 2 ^ 31
    · rw [int32_of_lt hlt] at hn
      omega
    · have := int32_neg (not_lt.mp hlt) h
      omega
  · rintro ⟨hp, hlt⟩
    rw [int32_of_lt hlt]
    omega

theorem getD_column (bytes : Bytes) : (column bytes).getD [] = bytes := by
  unfold column
  split
  · rename_i h
    exact h.symm
  · rfl

theorem isNullOr_column {bytes : Bytes} :
    isNullOr n (column bytes) = true ↔ bytes = [] ∨ bytes.length = n := by
  unfold isNullOr column
  split
  · rename_i h
    simp [h]
  · rename_i h
    simp [h]

/--
An expiry is kept where it is in the range of a column. What is sent of another one is out of
range as well, or comes back as a different expiry.
-/
theorem expireAt_kept_iff {ms : ℕ} (h : ms < 2 ^ 64) :
    ((expireAt ms).map sent).all isTimestamp = true ∧
        ((expireAt ms).map sent).elim 0 (fun t => uint64 (unixMilli t)) = ms ↔
      ms < 9224318016000000 ∨ 2 ^ 64 - 210866803200000 ≤ ms := by
  have hz : int64 ms = ms ∧ ms < 2 ^ 63 ∨ int64 ms = ms - 18446744073709551616 ∧ 2 ^ 63 ≤ ms := by
    unfold int64
    rw [Int.bmod_def]
    split <;> omega
  unfold expireAt
  by_cases h0 : ms = 0
  · rw [if_pos h0]
    exact iff_of_true ⟨rfl, h0.symm⟩ (.inl (by omega))
  · have ht : timestamp (int64 ms * 1000000) = int64 ms * 1000 := by
      unfold timestamp
      omega
    rw [if_neg h0, Option.map_some, Option.all_some, Option.elim_some]
    constructor
    · rintro ⟨hr, hb⟩
      simp only [isTimestamp, Bool.and_eq_true, decide_eq_true_eq] at hr
      simp only [uint64, unixMilli] at hb
      omega
    · intro hr
      have hi : isTimestamp (timestamp (int64 ms * 1000000)) = true := by
        rw [ht, isTimestamp, Bool.and_eq_true, decide_eq_true_eq, decide_eq_true_eq]
        omega
      rw [sent_of_isTimestamp hi]
      refine ⟨hi, ?_⟩
      rw [ht, unixMilli, Int.mul_ediv_cancel _ (by decide), uint64_int64 h]

section ReadBack

variable {ring : KekRing} {groupId : Bytes} {record : Record} {writeWrapped readWrapped : Slice}
  {writeKey readKey : Slice}

def rekey (writeKey readKey : Slice) (a : Attachment) : Attachment :=
  { a with epoch := a.epoch.map fun e => { e with writeKey := writeKey, readKey := readKey } }

theorem elim_int64 (h : n < 2 ^ 64) : (some (int64 n)).elim 0 uint64 = n := by
  rw [Option.elim_some, uint64_int64 h]

theorem elim_natCast (h : n < 2 ^ 32) : (some (n : ℤ)).elim 0 uint32 = n := by
  rw [Option.elim_some, uint32_natCast h]

/-- An attachment with the keys that the row of its epoch holds, if it is of the kind with keys. -/
def joinKeys (ring : KekRing) (groupId : Bytes) (writeWrapped readWrapped : Slice)
    (attachment : Option Attachment) : Except Error (Option Attachment) :=
  match attachment.bind (·.epoch) with
  | none => .ok attachment
  | some e => do
    let writeKey ← unwrapColumn ring groupId .writeKey e.epoch writeWrapped
    let readKey ← unwrapColumn ring groupId .readKey e.epoch readWrapped
    return attachment.map (rekey writeKey readKey)

/-- A canonical attachment reads back out of its columns, with the keys of the joined epoch. -/
theorem attachmentOf_projectAttachment (hc : Canonical record.attachment)
    (hty : ∀ a, record.attachment = some a → TypedAttachment a) :
    attachmentOf ring groupId (projectAttachment record) writeWrapped readWrapped =
      joinKeys ring groupId writeWrapped readWrapped record.attachment := by
  unfold projectAttachment attachmentKindOf
  generalize record.attachment = attachment at hc hty
  cases hc with
  | absent => rfl
  | epoch e =>
    obtain ⟨he, ha, hm, hd, hc⟩ := (hty _ rfl).epoch e rfl
    have h1 : uint8 (kindCode .epoch) = 1 := by decide
    simp only [attachmentOf, h1, elim_int64 he, elim_natCast ha, elim_natCast hm,
      elim_natCast hd, elim_natCast hc]
    rfl
  | wrap tag =>
    have hl := (hty _ rfl).wrap tag rfl
    have h2 : uint8 (kindCode .wrap) = 2 := by decide
    simp only [attachmentOf, h2, getD_column, elim_natCast hl]
    rfl
  | recovery tag =>
    have ha := (hty _ rfl).recovery tag rfl
    have h3 : uint8 (kindCode .recovery) = 3 := by decide
    simp only [attachmentOf, h3, getD_column, elim_natCast ha]
    rfl
  | epochComplete tag =>
    obtain ⟨he, hw⟩ := (hty _ rfl).epochComplete tag rfl
    have h4 : uint8 (kindCode .epochComplete) = 4 := by decide
    simp only [attachmentOf, h4, elim_int64 he, elim_natCast hw]
    rfl
  | epochDigest e =>
    obtain ⟨he, ha, hm, hd, hc⟩ := (hty _ rfl).epochDigest e rfl
    have h5 : uint8 (kindCode .epochDigest) = 5 := by decide
    simp only [attachmentOf, h5, elim_int64 he, elim_natCast ha, elim_natCast hm,
      elim_natCast hd, elim_natCast hc]
    rfl

theorem joinKeys_of_unwrap {attachment : Option Attachment} (hc : Canonical attachment)
    (hk : ∀ a e, attachment = some a → a.epoch = some e →
      unwrapColumn ring groupId .writeKey e.epoch writeWrapped = .ok writeKey ∧
        unwrapColumn ring groupId .readKey e.epoch readWrapped = .ok readKey) :
    joinKeys ring groupId writeWrapped readWrapped attachment =
      .ok (attachment.map (rekey writeKey readKey)) := by
  cases hc with
  | epoch e =>
    obtain ⟨hw, hr⟩ := hk _ e rfl rfl
    simp only [joinKeys, Option.bind_some, hw, hr]
    rfl
  | _ => rfl

/--
The columns of an attachment read back as the attachment, and tell attachments apart, keys aside.
-/
theorem attachment_columns_round_trip (ring : KekRing) (groupId : Bytes) (record : Record)
    (hc : Canonical record.attachment) (ht : ∀ a, record.attachment = some a → TypedAttachment a) :
    (∀ writeWrapped readWrapped,
      attachmentOf ring groupId (projectAttachment record) writeWrapped readWrapped =
        joinKeys ring groupId writeWrapped readWrapped record.attachment) ∧
    ∀ other : Record, Canonical other.attachment →
      (∀ a, other.attachment = some a → TypedAttachment a) →
      projectAttachment record = projectAttachment other →
        record.attachment.map (rekey none none) = other.attachment.map (rekey none none) := by
  refine ⟨fun _ _ => attachmentOf_projectAttachment hc ht, fun other hc' ht' hs => ?_⟩
  have hr : ∀ {r : Record}, Canonical r.attachment →
      (∀ a, r.attachment = some a → TypedAttachment a) →
      attachmentOf ring groupId (projectAttachment r) none none =
        .ok (r.attachment.map (rekey none none)) :=
    fun hc ht => (attachmentOf_projectAttachment hc ht).trans
      (joinKeys_of_unwrap hc fun _ _ _ _ => ⟨rfl, rfl⟩)
  exact Except.ok.inj ((hr hc ht).symm.trans (hs ▸ hr hc' ht'))

/-- A record reads back out of its row. -/
theorem recordOf_recordRow (hv : Valid record) (hc : Canonical record.attachment)
    (ht : Typed record)
    (hx : ((expireAt record.expireAtMs).map sent).elim 0 (fun t => uint64 (unixMilli t)) =
      record.expireAtMs) {id : ℕ} (hid : id < 2 ^ 64) (now : Time) (prune : Option Time)
    (policy : ℕ)
    (hk : ∀ a e, record.attachment = some a → a.epoch = some e →
      unwrapColumn ring groupId .writeKey e.epoch writeWrapped = .ok writeKey ∧
        unwrapColumn ring groupId .readKey e.epoch readWrapped = .ok readKey) :
    recordOf ring groupId (int64 id) (recordRow record now prune policy) writeWrapped
        readWrapped =
      .ok { record with
        attachment := record.attachment.map (rekey writeKey readKey)
        recordId := id
        pruneAfter := prune.map fun t => instant (timestamp t) } := by
  have ha := (attachmentOf_projectAttachment hc ht.attachment).trans (joinKeys_of_unwrap hc hk)
  have hcl : uint8 record.retentionClass = record.retentionClass := by
    have := hv.retentionClass
    rw [uint8_of_nonneg (by omega) (by omega)]
    exact Int.toNat_natCast _
  have hs : uint8 record.sizeBucket = record.sizeBucket := by
    have := hv.sizeBucket
    rw [uint8_of_nonneg (by omega) (by omega)]
    exact Int.toNat_natCast _
  have he : record.ephWindow < 2 ^ 64 := hv.ephWindow.trans (by decide)
  have hp : (prune.map timestamp).map instant = prune.map fun t => instant (timestamp t) := by
    rw [Option.map_map]
    rfl
  unfold recordOf recordRow
  rw [ha, hcl, hs, uint64_int64 ht.epoch, uint64_int64 ht.streamIndex, uint64_int64 he,
    hx, uint64_int64 hid, hp]
  rfl

end ReadBack

section Canonical

variable {ring : KekRing} {groupId : Bytes} {writeWrapped readWrapped : Slice}

theorem canonical_of_attachmentOf {columns : AttachmentColumns} {attachment : Option Attachment}
    (h : attachmentOf ring groupId columns writeWrapped readWrapped = .ok attachment) :
    Canonical attachment := by
  unfold attachmentOf at h
  dsimp only at h
  split at h
  · simp only [bind, Except.bind] at h
    split at h
    · cases h
    · split at h
      · cases h
      · cases h
        exact .epoch _
  · cases h
    exact .wrap _
  · cases h
    exact .recovery _
  · cases h
    exact .epochComplete _
  · cases h
    exact .epochDigest _
  · cases h
    exact .absent

theorem of_recordOf {id : ℤ} {row : MessageRecord} {record : Record}
    (h : recordOf ring groupId id row writeWrapped readWrapped = .ok record) :
    Canonical record.attachment ∧ record.pruneAfter = row.pruneAfter.map instant ∧
      row.expireAt.elim 0 (fun t => uint64 (unixMilli t)) = record.expireAtMs := by
  unfold recordOf at h
  simp only [bind, Except.bind] at h
  split at h
  · cases h
  · rename_i attachment ha
    cases h
    exact ⟨canonical_of_attachmentOf ha, rfl, rfl⟩

theorem instant_timestamp {t : ℤ} : instant (timestamp t) = t ↔ t % 1000 = 0 := by
  change t / 1000 * 1000 = t ↔ t % 1000 = 0
  omega

end Canonical

section Admitted

variable {store : PgxStore} {groupId : Bytes} {draw : Draw} {record : Record}

theorem all_isTimestamp_map {o : Option Time} : (o.map timestamp).all isTimestamp = true ↔
    ∀ t, o = some t → isTimestamp (timestamp t) = true := by
  cases o <;> simp

theorem admits_claimRow_iff (hg : groupId.length = groupIdBytes) (hv : Valid record)
    (hs : (store.sha256 record.ctHead).length = 32) :
    admits (.claim groupId record.senderHandle (int64 record.streamIndex))
        (claimRow store.toConfig record draw.now) = true ↔
      isTimestamp (timestamp draw.now) = true := by
  simp only [admits, claimRow, headHash, isBigint_int64, Bool.and_eq_true, beq_iff_eq, hg,
    hv.senderHandle, hv.bodyHash, hs, true_and]

theorem all_isBigint {z : ℤ} (h : isBigint z = true) : (some z).all isBigint = true := by
  rw [Option.all_some, h]

theorem admitted_projectAttachment_iff (ht : Typed record) (hv : Valid record)
    (hc : Canonical record.attachment)
    (hh : ∀ keys opening, openingOf record keys = some opening →
      isNullOr groupContextHashBytes opening.groupContextHash = true) :
    (projectAttachment record).admitted = true ↔
      ∀ a e, record.attachment = some a → a.epochDigest = some e →
        isNullOr 32 e.epochKeysDigest = true := by
  have hty := ht.attachment
  have hvl := hv.attachment
  unfold projectAttachment attachmentKindOf
  unfold validateAttachment attachmentKindOf at hvl
  unfold openingOf at hh
  generalize record.attachment = attachment at hc hty hvl hh
  have hb : ∀ n : ℕ, n < 2 ^ 32 → (some (n : ℤ)).all isBigint = true := fun n hn =>
    all_isBigint (isBigint_natCast (hn.trans (by decide)))
  have hnl : ∀ n, isNullOr n none = true := fun _ => rfl
  cases hc with
  | absent => exact iff_of_true rfl (by rintro _ _ ⟨⟩)
  | epoch e =>
    obtain ⟨-, ha, hm, hd, hw⟩ := (hty _ rfl).epoch e rfl
    have hash : isNullOr groupContextHashBytes e.groupContextHash = true := hh none _ rfl
    refine iff_of_true ?_ (by rintro _ _ ⟨⟩ ⟨⟩)
    simp only [AttachmentColumns.admitted, Option.all_none, all_isBigint (isBigint_int64 _),
      hb _ ha, hb _ hm, hb _ hd, hb _ hw, hash, hnl, Bool.and_self]
  | wrap tag =>
    have hl := (hty _ rfl).wrap tag rfl
    have hln := isNullOr_column.mpr (.inr (not_not.mp (failIf_eq_ok.mp hvl)))
    refine iff_of_true ?_ (by rintro _ _ ⟨⟩ ⟨⟩)
    simp only [AttachmentColumns.admitted, Option.all_none, hb _ hl, hln, hnl, Bool.and_self]
  | recovery tag =>
    have ha := (hty _ rfl).recovery tag rfl
    simp only [checkLength, bind_eq_ok, failIf_eq_ok, not_not] at hvl
    refine iff_of_true ?_ (by rintro _ _ ⟨⟩ ⟨⟩)
    simp only [AttachmentColumns.admitted, Option.all_none, hb _ ha, hnl,
      isNullOr_column.mpr (.inr hvl.1), isNullOr_column.mpr (.inr hvl.2), Bool.and_self]
  | epochComplete tag =>
    obtain ⟨-, hw⟩ := (hty _ rfl).epochComplete tag rfl
    refine iff_of_true ?_ (by rintro _ _ ⟨⟩ ⟨⟩)
    simp only [AttachmentColumns.admitted, Option.all_none, all_isBigint (isBigint_int64 _),
      hb _ hw, hnl, Bool.and_self]
  | epochDigest e =>
    obtain ⟨-, ha, hm, hd, hw⟩ := (hty _ rfl).epochDigest e rfl
    have hash : isNullOr groupContextHashBytes e.groupContextHash = true :=
      hh (some ⟨none, none⟩) _ rfl
    simp only [AttachmentColumns.admitted, Option.all_none, all_isBigint (isBigint_int64 _),
      hb _ ha, hb _ hm, hb _ hd, hb _ hw, hash, hnl, Bool.and_self, Bool.true_and]
    constructor
    · rintro h _ _ ⟨⟩ ⟨⟩
      exact h
    · exact fun h => h _ e rfl rfl

theorem admits_recordRow_iff (hg : groupId.length = groupIdBytes) (ht : Typed record)
    (hv : Valid record) (id : ℕ) (prune : Option Time) (policy : ℕ) :
    admits (.record groupId (int64 id)) (recordRow record draw.now prune policy) = true ↔
      isTimestamp (timestamp draw.now) = true ∧ record.streamIndex < 2 ^ 63 ∧
      ((expireAt record.expireAtMs).map sent).all isTimestamp = true ∧
      (∀ t, prune = some t → isTimestamp (timestamp t) = true) ∧
      (projectAttachment record).admitted = true := by
  have hc := hv.retentionClass
  have hs := hv.sizeBucket
  have he := int64_of_lt hv.ephWindow
  have hw := hv.ephWindowClass
  have hbl : isNullOr blobIdBytes record.blobId = true := by
    cases hb : record.blobId with
    | none => rfl
    | some blobId => simpa [isNullOr] using hv.blobId blobId hb
  have hor : (record.ctBody.isNone || record.blobId.isNone) = true := by
    rcases hv.inlineOrBlob with h | h <;> simp [h]
  rw [← all_isTimestamp_map, ← int64_nonneg_iff ht.streamIndex]
  simp only [admits, MessageRecord.admitted, recordRow, isBigint_int64, isInt_int32, hg, hbl,
    hor, hv.senderHandle, hv.bodyHash, he, isBigint_natCast hv.ephWindow, Bool.and_eq_true,
    Bool.or_eq_true, beq_iff_eq, decide_eq_true_eq, true_and, and_true]
  constructor
  · rintro ⟨⟨⟨⟨⟨⟨⟨⟨⟨h3, h4⟩, h1⟩, h2⟩, -⟩, -⟩, -⟩, -⟩, -⟩, h5⟩
    exact ⟨h1, h2, h3, h4, h5⟩
  · rintro ⟨h1, h2, h3, h4, h5⟩
    refine ⟨⟨⟨⟨⟨⟨⟨⟨⟨h3, h4⟩, h1⟩, h2⟩, ?_⟩, ?_⟩, ?_⟩, ?_⟩, ?_⟩, h5⟩ <;> omega

theorem all_durableColumn {seconds : Option ℕ} (h : ∀ ttl, seconds = some ttl → ttl < 2 ^ 32) :
    (durableColumn seconds).all (fun z => decide (0 < z)) = true ↔
      ∀ ttl, seconds = some ttl → 0 < ttl ∧ ttl < 2 ^ 31 := by
  cases seconds with
  | none => exact iff_of_true rfl (by rintro _ ⟨⟩)
  | some ttl =>
    rw [durableColumn, Option.map_some, Option.all_some, decide_eq_true_eq,
      int32_pos_iff (h ttl rfl)]
    constructor
    · rintro ht _ ⟨⟩
      exact ht
    · exact fun ht => ht ttl rfl

theorem admits_openedColumns_iff {row : MessageGroup} {opening : EpochOpening} {opens : ℕ}
    {applied : ℕ × Option ℕ × RetentionApplied} (hr : admits (.group groupId) row = true)
    (hp : 0 ≤ row.policyVersion) (hm : applied.1 < 2 ^ 32)
    (hd : ∀ ttl, applied.2.1 = some ttl → ttl < 2 ^ 32) (ho : opens < 2 ^ 64)
    (hh : isNullOr groupContextHashBytes opening.groupContextHash = true) :
    admits (.group groupId) (openedColumns applied opening opens row) = true ↔
      opens < 2 ^ 63 ∧ row.policyVersion < 2147483647 ∧
      (0 < applied.1 ∧ applied.1 < 2 ^ 31) ∧
      ∀ ttl, applied.2.1 = some ttl → 0 < ttl ∧ ttl < 2 ^ 31 := by
  have hi : (durableColumn applied.2.1).all isInt = true := by
    cases hs : applied.2.1 with
    | none => rfl
    | some ttl => rw [durableColumn, Option.map_some, Option.all_some, isInt_int32]
  have hv : isInt (row.policyVersion + 1) = true ↔ row.policyVersion < 2147483647 := by
    simp only [isInt, Bool.and_eq_true, decide_eq_true_eq]
    omega
  have hb := isBigint_int64 opens
  have hmd := isInt_int32 applied.1
  rw [← int64_nonneg_iff ho, ← int32_pos_iff hm, ← all_durableColumn hd, ← hv]
  unfold openedColumns
  generalize int64 opens = epoch at hb ⊢
  generalize int32 applied.1 = media at hmd ⊢
  generalize durableColumn applied.2.1 = durable at hi ⊢
  simp only [admits, MessageGroup.admitted, Bool.and_eq_true, decide_eq_true_eq] at hr ⊢
  simp only [hb, hmd, hi, hh, and_true]
  obtain ⟨hg, ⟨⟨⟨⟨⟨⟨⟨⟨⟨⟨⟨⟨hc, -⟩, hn⟩, -⟩, -⟩, -⟩, hcs⟩, -⟩, hn'⟩, -⟩, -⟩, -⟩, hcl⟩⟩ := hr
  constructor
  · rintro ⟨-, ⟨⟨⟨⟨⟨⟨⟨_, h1⟩, -⟩, h2⟩, -⟩, h3⟩, h4⟩, -⟩⟩
    exact ⟨h2, h1, h3, h4⟩
  · rintro ⟨h2, h1, h3, h4⟩
    exact ⟨hg, ⟨⟨⟨⟨⟨⟨⟨⟨hc, hn⟩, h1⟩, hcs⟩, h2⟩, hn'⟩, h3⟩, h4⟩, hcl⟩⟩

end Admitted

section Held

variable (store : PgxStore) (draw : Draw) (groupId : Bytes) (g : MemoryGroup)
  (keys : Option EpochKeyDelivery)

def prunedAt (record : Record) : Option Time :=
  let policy := g.advance store.toConfig draw.now g.currentEpoch keys record
  pruneAfter draw.now record.retentionClass policy.mediaTtlSeconds policy.durableTtlSeconds

def insertedRow (record : Record) : MessageRecord :=
  recordRow record draw.now (prunedAt store draw g keys record)
    (g.advance store.toConfig draw.now g.currentEpoch keys record).policyVersion

def openedKeys (record : Record) : Slice × Slice :=
  match openingOf record keys with
  | none => (none, none)
  | some opening =>
    ((store.keys.wrap .writeKey groupId (g.currentEpoch + 1) (draw.nonces 0)
        opening.writeKey).toOption,
      (store.keys.wrap .readKey groupId (g.currentEpoch + 1) (draw.nonces 1)
        opening.readKey).toOption)

/--
Everything that is written for a record of a batch that takes some ids fits its columns and their
CHECKs, and the record reads back as it was.
-/
structure Held (taken : ℕ) (record : Record) : Prop where
  allocated : admits (.group groupId) (groupColumns (g.reserve taken)) = true
  claim : admits (.claim groupId record.senderHandle (int64 record.streamIndex))
    (claimRow store.toConfig record draw.now) = true
  row : admits (.record groupId (int64 record.recordId))
    (insertedRow store draw g keys record) = true
  opened : record.isCommit = true → ∀ opening writeKey readKey,
    openingOf record keys = some opening →
    openedKeys store draw groupId g keys record = (some writeKey, some readKey) →
    admits (.epoch groupId (int64 (g.currentEpoch + 1)))
      (epochRow opening writeKey readKey draw.now record.recordId) = true ∧
    admits (.group groupId) (openedColumns (store.limits.apply opening) opening
      (g.currentEpoch + 1) (groupColumns (g.reserve taken))) = true
  reads : recordOf store.keys groupId (int64 record.recordId) (insertedRow store draw g keys record)
    (openedKeys store draw groupId g keys record).1
    (openedKeys store draw groupId g keys record).2 =
      .ok { record with pruneAfter := prunedAt store draw g keys record }

structure Holdable (taken : ℕ) (record : Record) : Prop where
  clock : isTimestamp (timestamp draw.now) = true
  ids : g.nextRecordId + taken < 2 ^ 63
  streamIndex : record.streamIndex < 2 ^ 63
  expireAt : record.expireAtMs < 9224318016000000 ∨ 2 ^ 64 - 210866803200000 ≤ record.expireAtMs
  prune : ∀ t, prunedAt store draw g keys record = some t →
    isTimestamp (timestamp t) = true ∧ t % 1000 = 0
  attachment : Canonical record.attachment
  digest : ∀ a e, record.attachment = some a → a.epochDigest = some e →
    isNullOr 32 e.epochKeysDigest = true
  opened : record.isCommit = true → ∀ opening, openingOf record keys = some opening →
    g.currentEpoch + 1 < 2 ^ 63 ∧ g.policyVersion + 1 < 2 ^ 31 ∧
    (0 < (store.limits.apply opening).1 ∧ (store.limits.apply opening).1 < 2 ^ 31) ∧
    ∀ ttl, (store.limits.apply opening).2.1 = some ttl → 0 < ttl ∧ ttl < 2 ^ 31

end Held

section Main

variable {store : PgxStore} {draw : Draw} {groupId : Bytes} {d : Database} {g : MemoryGroup}
  {keys : Option EpochKeyDelivery} {record : Record}

theorem hash_of_wellFormed {opens : ℕ} {opening : EpochOpening}
    (h : wellFormedEpochAttachment record opens keys = true)
    (ho : openingOf record keys = some opening) :
    isNullOr groupContextHashBytes opening.groupContextHash = true := by
  unfold wellFormedEpochAttachment at h
  rw [ho] at h
  cases hh : opening.groupContextHash with
  | none => rfl
  | some hash =>
    by_contra hne
    simp [isNullOr] at hne
    simp [hh, Slice.len, hne] at h

def announcedHash (record : Record) : Slice :=
  record.attachment.bind fun a =>
    if a.kind = .epoch then a.epoch.bind (·.groupContextHash)
    else a.epochDigest.bind (·.groupContextHash)

theorem groupContextHash_openingOf {opening : EpochOpening}
    (ho : openingOf record keys = some opening) :
    opening.groupContextHash = announcedHash record := by
  unfold openingOf at ho
  unfold announcedHash
  split at ho
  · cases ho
  · rename_i a ha
    split at ho
    · rename_i e hk he
      cases ho
      simp [ha, hk, he]
    · rename_i e _ hk he
      cases ho
      simp [ha, hk, he]
    · cases ho

theorem isEpochAttachmentKind_of_opening {opening : EpochOpening}
    (ho : openingOf record keys = some opening) :
    isEpochAttachmentKind (attachmentKindOf record) = true := by
  unfold openingOf at ho
  unfold attachmentKindOf
  split at ho
  · cases ho
  · rename_i a ha
    split at ho
    · rename_i hk _
      simp [hk, isEpochAttachmentKind]
    · rename_i hk _
      simp [hk, isEpochAttachmentKind]
    · cases ho

/-- What the gate of the SQL store checks of the attachment of a record. -/
structure Gated (g : MemoryGroup) (keys : Option EpochKeyDelivery) (record : Record) : Prop where
  kind : record.isCommit = isEpochAttachmentKind (attachmentKindOf record)
  opens : record.isCommit = true → wellFormedEpochAttachment record (g.currentEpoch + 1) keys = true

theorem gated_of_gateRest {highWater : Bytes → Option ℕ} {pinned : Bytes → Option Bytes}
    (h : gateRest keys g.state record highWater pinned = .ok) : Gated g keys record := by
  rw [gateRest, ite_eq_ok (by decide), ite_eq_ok (by decide), ite_eq_ok (by decide),
    ite_eq_ok (by decide)] at h
  obtain ⟨-, -, hk, hw, -⟩ := h
  exact ⟨not_not.mp hk, fun hc => by
    by_contra hne
    exact hw ⟨hc, hne⟩⟩

theorem Gated.opening (h : Gated g keys record) (hc : record.isCommit = true)
    (hk : (store.keys.keys store.keys.current).isSome) (draw : Draw) (groupId : Bytes) :
    ∃ opening key key' writeKey readKey, openingOf record keys = some opening ∧
      opening.epoch = g.currentEpoch + 1 ∧ opening.writeKey = some key ∧
      opening.readKey = some key' ∧
      store.keys.wrap .writeKey groupId (g.currentEpoch + 1) (draw.nonces 0) opening.writeKey =
        .ok writeKey ∧
      store.keys.wrap .readKey groupId (g.currentEpoch + 1) (draw.nonces 1) opening.readKey =
        .ok readKey ∧
      openedKeys store draw groupId g keys record = (some writeKey, some readKey) := by
  obtain ⟨opening, key, key', ho, he, hw, hwl, hr, hrl⟩ := exists_opening (h.opens hc)
  cases hww : store.keys.wrap .writeKey groupId (g.currentEpoch + 1) (draw.nonces 0)
      opening.writeKey with
  | error e =>
    rw [hw] at hww
    exact (KekRing.wrap_ne_error hk hwl hww).elim
  | ok writeKey =>
    cases hrw : store.keys.wrap .readKey groupId (g.currentEpoch + 1) (draw.nonces 1)
        opening.readKey with
    | error e =>
      rw [hr] at hrw
      exact (KekRing.wrap_ne_error hk hrl hrw).elim
    | ok readKey =>
      refine ⟨opening, key, key', writeKey, readKey, ho, he, hw, hr, hww, hrw, ?_⟩
      simp only [openedKeys, ho, hww, hrw, Except.toOption]

theorem Gated.reads (h : Gated g keys record) (hk : (store.keys.keys store.keys.current).isSome)
    (hv : Valid record) (ht : Typed record) (hc : Canonical record.attachment)
    (hx : ((expireAt record.expireAtMs).map sent).elim 0 (fun t => uint64 (unixMilli t)) =
      record.expireAtMs) (hid : record.recordId < 2 ^ 64) :
    recordOf store.keys groupId (int64 record.recordId) (insertedRow store draw g keys record)
      (openedKeys store draw groupId g keys record).1
      (openedKeys store draw groupId g keys record).2 =
    .ok { record with
      pruneAfter := (prunedAt store draw g keys record).map fun t => instant (timestamp t) } := by
  unfold insertedRow
  by_cases he : ∃ a e, record.attachment = some a ∧ a.epoch = some e
  · obtain ⟨a, e, ha, he⟩ := he
    have hke : a.kind = .epoch ∧ a = { kind := .epoch, epoch := some e } := by
      rw [ha] at hc
      cases hc <;> cases he
      exact ⟨rfl, rfl⟩
    have hcm : record.isCommit = true := by
      rw [h.kind, attachmentKindOf, ha]
      simp [hke.1, isEpochAttachmentKind]
    obtain ⟨opening, key, key', writeKey, readKey, ho, hoe, hw, hr, hww, hrw, hky⟩ :=
      h.opening hcm hk draw groupId
    have hop : opening.epoch = e.epoch ∧ opening.writeKey = e.writeKey ∧
        opening.readKey = e.readKey := by
      unfold openingOf at ho
      rw [ha] at ho
      dsimp only at ho
      rw [hke.1, he] at ho
      cases keys with
      | none =>
        cases ho
        exact ⟨rfl, rfl, rfl⟩
      | some _ => cases ho
    have hu : ∀ a e, record.attachment = some a → a.epoch = some e →
        unwrapColumn store.keys groupId .writeKey e.epoch (some writeKey) = .ok opening.writeKey ∧
          unwrapColumn store.keys groupId .readKey e.epoch (some readKey) =
            .ok opening.readKey := by
      intro a' e' ha' he'
      cases ha.symm.trans ha'
      cases he.symm.trans he'
      rw [hw] at hww
      rw [hr] at hrw
      rw [← hop.1, hoe, hw, hr, unwrapColumn, unwrapColumn, KekRing.unwrap_of_wrap hww,
        KekRing.unwrap_of_wrap hrw]
      exact ⟨rfl, rfl⟩
    have hre : rekey opening.writeKey opening.readKey a = a := by
      rw [hop.2.1, hop.2.2, hke.2]
      rfl
    rw [hky, recordOf_recordRow hv hc ht hx hid _ _ _ hu, ha, Option.map_some, hre]
  · have hn : ∀ a e, record.attachment = some a → a.epoch = some e →
        unwrapColumn store.keys groupId .writeKey e.epoch
          (openedKeys store draw groupId g keys record).1 = .ok none ∧
        unwrapColumn store.keys groupId .readKey e.epoch
          (openedKeys store draw groupId g keys record).2 = .ok none :=
      fun a e ha hae => (he ⟨a, e, ha, hae⟩).elim
    have hre : record.attachment.map (rekey none none) = record.attachment := by
      cases ha : record.attachment with
      | none => rfl
      | some a =>
        cases hae : a.epoch with
        | none => rw [Option.map_some, rekey, hae, Option.map_none, ← hae]
        | some e => exact (he ⟨a, e, ha, hae⟩).elim
    rw [recordOf_recordRow hv hc ht hx hid _ _ _ hn, hre]

/--
What the checks accept the database can hold, exactly when the numbers that no check bounds are in
range.
-/
theorem held_iff_holdable (hl : Bounded store.limits)
    (hk : (store.keys.keys store.keys.current).isSome)
    (hsha : (store.sha256 record.ctHead).length = 32) (h : HoldsGroup store.keys groupId d g)
    (ht : Typed record) (hv : validateRecord record = .ok ()) {highWater : Bytes → Option ℕ}
    {pinned : Bytes → Option Bytes}
    (hgate : gateRest keys g.state record highWater pinned = .ok) {taken : ℕ}
    (hid : record.recordId < g.nextRecordId + taken) :
    Held store draw groupId g keys taken record ↔ Holdable store draw g keys taken record := by
  have hvl := valid_of_validateRecord hv
  have hg := gated_of_gateRest hgate
  have hln := h.length_groupId
  have hrn := h.inRange
  have hhs : ∀ keys' opening, openingOf record keys' = some opening →
      isNullOr groupContextHashBytes opening.groupContextHash = true := by
    intro keys' opening ho
    have hc : record.isCommit = true := hg.kind.trans (isEpochAttachmentKind_of_opening ho)
    obtain ⟨opening', -, -, ho', -⟩ := exists_opening (hg.opens hc)
    rw [groupContextHash_openingOf ho, ← groupContextHash_openingOf ho']
    exact hash_of_wellFormed (hg.opens hc) ho'
  have hop : admits (.group groupId) (groupColumns (g.reserve taken)) = true →
      ∀ opening, openingOf record keys = some opening →
      (admits (.group groupId) (openedColumns (store.limits.apply opening) opening
        (g.currentEpoch + 1) (groupColumns (g.reserve taken))) = true ↔
      g.currentEpoch + 1 < 2 ^ 63 ∧ g.policyVersion + 1 < 2 ^ 31 ∧
      (0 < (store.limits.apply opening).1 ∧ (store.limits.apply opening).1 < 2 ^ 31) ∧
      ∀ ttl, (store.limits.apply opening).2.1 = some ttl → 0 < ttl ∧ ttl < 2 ^ 31) := by
    intro ha opening ho
    obtain ⟨hm, hd, -⟩ := ht.opening ho
    have hpl : (groupColumns (g.reserve taken)).policyVersion = g.policyVersion := rfl
    have hep := hrn.currentEpoch
    rw [admits_openedColumns_iff ha (by rw [hpl]; omega) (hl.media hm) (hl.durable hd)
      (by omega) (hhs keys opening ho), hpl]
    have : (g.policyVersion : ℤ) < 2147483647 ↔ g.policyVersion + 1 < 2 ^ 31 := by omega
    rw [this]
  constructor
  · intro hh
    have hi := (admits_reserve h).mp hh.allocated
    obtain ⟨hc, hb, hx⟩ := of_recordOf hh.reads
    obtain ⟨hcl, hs, he, hp, hat⟩ := (admits_recordRow_iff hln ht hvl _ _ _).mp hh.row
    refine ⟨hcl, hi, hs, (expireAt_kept_iff ht.expireAtMs).mp ⟨he, hx⟩,
      fun t htp => ⟨hp t htp, ?_⟩, hc,
      (admitted_projectAttachment_iff ht hvl hc hhs).mp hat, fun hcm opening ho => ?_⟩
    · change prunedAt store draw g keys record =
        ((prunedAt store draw g keys record).map timestamp).map instant at hb
      rw [htp, Option.map_some, Option.map_some, Option.some.injEq] at hb
      exact instant_timestamp.mp hb.symm
    · obtain ⟨opening', -, -, writeKey, readKey, ho', -, -, -, -, -, hky⟩ :=
        hg.opening hcm hk draw groupId
      exact (hop hh.allocated opening ho).mp (hh.opened hcm opening writeKey readKey ho hky).2
  · intro hh
    have ha := (admits_reserve h).mpr hh.ids
    have hid' : record.recordId < 2 ^ 63 := hid.trans hh.ids
    obtain ⟨he, hx⟩ := (expireAt_kept_iff ht.expireAtMs).mpr hh.expireAt
    refine ⟨ha, (admits_claimRow_iff hln hvl hsha).mpr hh.clock,
      (admits_recordRow_iff hln ht hvl _ _ _).mpr ⟨hh.clock, hh.streamIndex, he,
        fun t htp => (hh.prune t htp).1,
        (admitted_projectAttachment_iff ht hvl hh.attachment hhs).mpr hh.digest⟩, ?_, ?_⟩
    · intro hcm opening writeKey readKey ho hky
      obtain ⟨opening', key, key', wrapped, wrapped', ho', -, hw, hr, hww, hrw, hky'⟩ :=
        hg.opening hcm hk draw groupId
      cases ho.symm.trans ho'
      obtain ⟨rfl, rfl⟩ : writeKey = wrapped ∧ readKey = wrapped' := by
        simpa using hky.symm.trans hky'
      have hon := hh.opened hcm opening ho
      refine ⟨?_, (hop ha opening ho).mpr hon⟩
      rw [int64_of_lt hon.1]
      exact admitted_epochRow hln hon.1 hid' (ht.opening ho).2.2 hh.clock hw hr hww hrw
    · have hb : (prunedAt store draw g keys record).map (fun t => instant (timestamp t)) =
          prunedAt store draw g keys record := by
        cases hp : prunedAt store draw g keys record with
        | none => rfl
        | some t => rw [Option.map_some, instant_timestamp.mpr (hh.prune t hp).2]
      rw [hg.reads hk hvl ht hh.attachment hx (hid'.trans (by decide)), hb]

end Main

open Store.Sample (alice marker groupId)

namespace Sample

def aead : Aead where
  sealBytes _ plaintext _ := plaintext ++ List.replicate kekTagSize 0
  openBytes _ sealed _ := some (sealed.take (sealed.length - kekTagSize))
  open_seal _ plaintext _ := by simp
  length_sealBytes _ plaintext _ := by simp

def ring : KekRing := ⟨1, fun id => if id = 1 then some aead else none⟩

def store : PgxStore := { Store.Sample.config with keys := ring }

def draw (now : Time) : Draw := ⟨now, fun _ => ⟨List.replicate kekNonceSize 0, by simp⟩⟩

def marking : Request := Store.Sample.submit [marker alice 1 2]

def founded : Database :=
  (perform store (draw 2) (perform store (draw 0) ∅ Store.Sample.createGroup).1 marking).1

def foundedStore : MemoryStore :=
  (call Store.Sample.config 2 (call Store.Sample.config 0 .empty Store.Sample.createGroup).1
    marking).1

theorem bounded_store : Bounded store.limits :=
  ⟨by decide, by decide, by decide, by decide, by decide⟩

theorem narrow_commit : Narrow (Store.Sample.commit alice 0 1) := by
  refine narrow_of_typed ⟨by decide, by decide, by decide, ?_⟩
    (valid_of_validateRecord (by decide +kernel)) rfl
  rintro _ ⟨⟩
  exact ⟨by rintro _ ⟨⟩; decide, by rintro _ ⟨⟩, by rintro _ ⟨⟩, by rintro _ ⟨⟩, by rintro _ ⟨⟩⟩

theorem typed_marker (a : Attachment)
    (h : (marker alice 1 2).attachment = some a) : TypedAttachment a := by
  cases h
  exact ⟨by rintro _ ⟨⟩, by rintro _ ⟨⟩, by rintro _ ⟨⟩, by rintro _ ⟨⟩; decide, by rintro _ ⟨⟩⟩

theorem narrow_marker : Narrow (marker alice 1 2) :=
  narrow_of_typed ⟨by decide, by decide, by decide, typed_marker⟩
    (valid_of_validateRecord (by decide +kernel)) rfl

theorem holds_founded : HoldsStore store.keys founded foundedStore := by
  have hw₁ : (perform store (draw 0) ∅ Store.Sample.createGroup).2.toBool = true := by
    decide +kernel
  have hw₂ : (perform store (draw 2) (perform store (draw 0) ∅ Store.Sample.createGroup).1
      marking).2.toBool = true := by decide +kernel
  have hs := (call_step store.toConfig 0 .empty Store.Sample.createGroup).each
    (fun _ _ h => h.sound) each_sound_empty
  have hc := (call_step store.toConfig 0 .empty Store.Sample.createGroup).each
    (fun _ _ h => h.custody) fun _ _ h => nomatch h
  have h₁ := (perform_beside (holdsStore_empty store.keys) (call_meets (E := False)
    bounded_store (holdsStore_empty _) each_sound_empty (fun _ _ h => nomatch h)
    (by rintro _ ⟨⟩ -; exact narrow_commit) False.elim) (.inr hw₁)).1
  exact (perform_beside h₁ (call_meets (E := False) bounded_store h₁ hs hc
    (by rintro - _ hr; rw [List.mem_singleton.mp hr]; exact narrow_marker) False.elim)
    (.inr hw₂)).1

def late : Record := stamp (Store.Sample.record alice 1 (2 ^ 63) none) 3

def next : Record := stamp (Store.Sample.record alice 1 3 none) 3

end Sample

open Sample

/-- The marker of an epoch reads back without keys, beside a row that holds some. -/
theorem attachment_columns_round_trip_marker : attachmentOf ring groupId
        (projectAttachment (marker alice 1 2)) (some [1]) none =
      .ok (marker alice 1 2).attachment :=
  (attachment_columns_round_trip ring groupId _ (.epochComplete _)
    typed_marker).1 (some [1]) none

/-- The checks pass a stream index that no column takes. -/
theorem stream_index_not_held : ∃ g highWater pinned, HoldsGroup store.keys groupId founded g ∧
    validateRecord late = .ok () ∧
    gateRest none g.state late highWater pinned = .ok ∧
    ¬ Held store (draw 3000) groupId g none 1 late := by
  have hv : validateRecord late = .ok () := by decide +kernel
  have hgt : (foundedStore.groups groupId).map (fun g => gateRest none g.state
      late (fun h => (g.senders h).map (·.lastStreamIndex)) fun _ => none) = some .ok := by
    decide +kernel
  obtain ⟨g, hg, hok⟩ := Option.map_eq_some_iff.mp hgt
  have hh := holds_founded.groups _ g hg
  refine ⟨g, _, _, hh, hv, hok, fun held => ?_⟩
  have ht : Typed late := ⟨by decide, by decide, by decide, by rintro _ ⟨⟩⟩
  have hr := (admits_recordRow_iff hh.length_groupId ht (valid_of_validateRecord hv) _ _ _).mp
    held.row
  exact absurd hr.2.1 (by decide)

/-- An ordinary record is held. -/
theorem held_iff_holdable_next : ∃ g, HoldsGroup store.keys groupId founded g ∧
    Held store (draw 3000) groupId g none 1 next := by
  have hgt : (foundedStore.groups groupId).map (fun g =>
      (g.nextRecordId, gateRest none g.state next (fun h => (g.senders h).map
        (·.lastStreamIndex)) fun _ => none)) = some (3, .ok) := by decide +kernel
  obtain ⟨g, hg, hok⟩ := Option.map_eq_some_iff.mp hgt
  obtain ⟨hn, hok⟩ := Prod.mk.inj hok
  have hh := holds_founded.groups _ g hg
  have ht : Typed next := ⟨by decide, by decide, by decide, by rintro _ ⟨⟩⟩
  refine ⟨g, hh, (held_iff_holdable bounded_store rfl ?_ hh ht (by decide +kernel) hok
    (by rw [hn]; decide)).mpr ?_⟩
  · decide +kernel
  · refine ⟨by decide, ?_, by decide, .inl (by decide), ?_, .absent, ?_, ?_⟩
    · rw [hn]
      decide
    · rintro _ ⟨⟩
    · rintro _ _ ⟨⟩
    · rintro ⟨⟩

end MessageServer.Pgx
