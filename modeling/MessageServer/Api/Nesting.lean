import MessageServer.Api.EpochKeys
import MessageServer.Api.Window
import MessageServer.Store.Steps

/-! # The edge and the store check alike

The checks at the edge read a parsed record, those of the store read its columns.
Whatever passes the first passes the second, so no client can make the store
answer that its caller handed it something of the wrong shape.
-/

namespace MessageServer.Api

open Store.Sample Protocol
open Message hiding Record
open Store hiding CreateGroupRequest EpochKeyDelivery Record SubmitRequest

def OnLadder : RetentionClass → ℕ → ℕ → Prop
  | .permanent, _, wire => wire = classPermanent
  | .durable, _, wire => wire = classDurable
  | .media, _, wire => wire = classMedia
  | .eph, bucket, wire => bucket ≤ 5 ∧ wire = classEphBase + bucket

/-- The fields of the other attachments that their parser holds to a width. -/
def WidthChecked : ServerAttachment → Prop
  | .wrap body => body.wrapTargetHandle.length = wrapTargetHandleBytes
  | .recovery body => body.handle.length = recoveryHandleBytes ∧
      body.verifyPub.length = verifyPubBytes
  | _ => True

structure Documented (layer : RecordLayer) : Prop where
  sizeBucket : ∀ {bytes record}, layer.parseRecord bytes = some record →
    record.header.sizeBucket ≤ sizeBucketBlob
  blobId : ∀ {bytes record}, layer.parseRecord bytes = some record →
    record.header.sizeBucket ≠ sizeBucketBlob → record.header.blobId = none
  retentionClass : ∀ {retentionClass bucket wire},
    layer.retentionClassWire retentionClass bucket = some wire → OnLadder retentionClass bucket wire
  attachment : ∀ {bytes attachment}, layer.parseServerAttachment bytes = .ok attachment →
    WidthChecked attachment

variable {h : Handler} {record : CheckedRecord} {columns : Store.Record} {now : Time}

theorem Documented.checked {layer : RecordLayer} (hl : Documented layer)
    {bytes : Bytes} {attachment : ServerAttachment}
    (hp : parseServerAttachment layer bytes = .ok attachment) : WidthChecked attachment := by
  unfold parseServerAttachment at hp
  split at hp
  next parsed hs =>
    cases hp
    exact hl.attachment hs
  · split at hp
    · cases hp
    · cases hp
      trivial
  · cases hp

theorem validateAttachment_columns (hcl : columnsOf h.layer record = some columns)
    (hc : WidthChecked record.attachment) : validateAttachment columns = .ok () := by
  obtain ⟨wire, -, rfl⟩ := Option.map_eq_some_iff.mp hcl
  obtain ⟨parsed, attachment⟩ := record
  cases attachment with
  | wrap body =>
    change checkLength body.wrapTargetHandle _ = _
    rw [checkLength, failIf_eq_ok, not_not]
    exact hc
  | recovery body =>
    change (do checkLength body.handle _; checkLength body.verifyPub _) = _
    rw [bind_eq_ok, checkLength, checkLength, failIf_eq_ok, failIf_eq_ok, not_not, not_not]
    exact hc
  | none | epoch | complete | epochDigest => rfl

theorem window_of_ephWindow {header : RecordHeader} (hnw : now / 1000000 < 2 ^ 63)
    (hw : h.ephWindow now header = .ok ()) :
    header.ephWindow ≤ ephWindowMax ∧ (header.ephWindow ≠ 0 → header.retentionClass = .eph) := by
  by_cases hc : header.retentionClass = .eph ∧ 0 < h.layer.ephBucketSeconds header.ephBucket
  · refine ⟨?_, fun _ => hc.1⟩
    by_cases he : now / 1000000 < 0
    · rw [h.ephWindow_before hc.1 hc.2 he] at hw
      cases hw
    · have hwt := (h.ephWindow_within hc.1 hc.2 (Int.not_lt.mp he)).mp hw
      have hm : ∀ millis : ℤ, millis < 2 ^ 63 → millis.toNat < 2 ^ 63 := by omega
      have hl : 1000 ≤ (h.layer.ephBucketSeconds header.ephBucket).toNat * 1000 := by omega
      calc header.ephWindow ≤ _ := hwt.1
        _ ≤ (now / 1000000).toNat / 1000 + 1 :=
          Nat.succ_le_succ (Nat.div_le_div_left hl (by decide))
        _ ≤ ephWindowMax := by
          have hbn := hm _ hnw
          unfold ephWindowMax
          omega
  · have hn : header.retentionClass ≠ .eph ∨ h.layer.ephBucketSeconds header.ephBucket ≤ 0 := by
      by_contra hb
      rw [not_or, not_not, Int.not_le] at hb
      exact hc hb
    rw [(h.ephWindow_without hn).mp hw]
    exact ⟨Nat.zero_le _, fun h => (h rfl).elim⟩

theorem OnLadder.stored {retentionClass : RetentionClass} {bucket wire : ℕ}
    (hl : OnLadder retentionClass bucket wire)
    (ht : ¬ (retentionClass = .eph ∧ bucket = 0)) :
    (wire ≤ classMedia ∨ classEphBase < wire ∧ wire ≤ classEphMax) ∧
      (retentionClass = .eph → classEphBase < wire ∧ wire ≤ classEphMax) := by
  unfold classMedia classEphBase classEphMax
  cases retentionClass with
  | eph =>
    obtain ⟨hb, rfl⟩ := hl
    have hp : bucket ≠ 0 := fun hz => ht ⟨rfl, hz⟩
    unfold classEphBase
    omega
  | permanent | durable | media =>
    obtain rfl := hl
    exact ⟨.inl (by decide), nofun⟩

theorem validateRecord_columns (hl : Documented h.layer) {groupId : Bytes} {sent : Record}
    (hn : now / 1000000 < 2 ^ 63) (hs : h.Shaped now groupId sent record)
    (hst : h.storeRecord record = .ok columns) :
    validateRecord columns = .ok () := by
  obtain ⟨ht, hbl, hc⟩ := Handler.storeRecord_eq_ok.mp hst
  have ha := validateAttachment_columns hc (hl.checked hs.attachment)
  obtain ⟨wire, hwr, rfl⟩ := Option.map_eq_some_iff.mp hc
  obtain ⟨hr, he⟩ := (hl.retentionClass hwr).stored ht
  obtain ⟨hw, hcl⟩ := window_of_ephWindow hn hs.window
  have hb := hl.sizeBucket hs.parsed
  have hi := hl.blobId hs.parsed hbl
  have hbs : classMedia < classEphBase := by decide
  unfold validateRecord checkLength
  simp only [bind_eq_ok, failIf_eq_ok, not_not, hi]
  refine ⟨record.parsed.header.senderHandle.property, record.parsed.header.bodyHash.property,
    hs.head, Nat.not_lt.mpr hb, ?_, ?_, Nat.not_lt.mpr hw, ?_, by simp, ha⟩
  · exact hr.imp_right fun hln => ⟨Nat.le_of_lt hln.1, hln.2⟩
  · omega
  · rintro ⟨hw, hf⟩
    obtain ⟨hlw, hh⟩ := he (hcl hw)
    exact hf (by simp [ephWindowClassAllows, hlw, hh])

theorem validateSubmit_columns (hly : Documented h.layer) {clock : ℕ → Time}
    (hcc : ∀ index, clock index / 1000000 < 2 ^ 63) {request : SubmitRequest}
    {pass : Pass} (hps : h.checkStaticShape clock request = .ok pass)
    {records : List KeyedRecord} (hr : records.map (·.toCheckedRecord) = pass.records)
    {batch : List Store.Record} (hb : h.storeRecords records = .ok batch)
    (keys : Option Store.EpochKeyDelivery) :
    (∀ columns ∈ batch, validateRecord columns = .ok ()) ∧
      validateSubmit ⟨request.groupId, batch, keys⟩ = .ok () := by
  have hp := Handler.checkStaticShape_eq_ok.mp hps
  have hst := forall₂_of_forEach hb
  have hl : batch.length = pass.records.length := by
    rw [← hst.length_eq, ← hr, List.length_map]
  have hv : ∀ columns ∈ batch, validateRecord columns = .ok () := by
    intro columns hm
    obtain ⟨keyed, hk, _, ho⟩ := (exists_of_forall₂ hst).2 columns hm
    have hc : keyed.toCheckedRecord ∈ pass.records := by
      rw [← hr]
      exact List.mem_map_of_mem hk
    obtain ⟨_, -, index, hs⟩ := (exists_of_forall₂ (forall₂_of_forEach hp.shaped)).2 _ hc
    obtain ⟨sent, -, hsh⟩ := Handler.staticShape_eq_ok.mp hs
    exact validateRecord_columns hly (hcc index) hsh ho
  refine ⟨hv, validateSubmit_eq_ok.mpr ⟨hp.groupId, ?_, forM_eq_ok.mpr hv, ?_⟩⟩
  · rintro rfl
    apply hp.nonempty
    rw [(forall₂_of_forEach hp.shaped).length_eq, ← hl]
    rfl
  · intro columns hm hcm
    obtain ⟨keyed, hk, _, ho⟩ := (exists_of_forall₂ hst).2 columns hm
    have hky : keyed.parsed.header.isCommit = true := by
      obtain ⟨-, -, hcl⟩ := Handler.storeRecord_eq_ok.mp ho
      obtain ⟨wire, -, rfl⟩ := Option.map_eq_some_iff.mp hcl
      exact hcm
    have hcn : pass.records.countP (·.parsed.header.isCommit) ≠ 0 := by
      rw [← hr]
      exact fun hz => List.countP_eq_zero.mp hz _ (List.mem_map_of_mem hk) hky
    have hsn : batch.length = 1 := by
      by_contra hne
      exact hp.alone ⟨hcn, hl ▸ hne⟩
    obtain ⟨only, rfl⟩ := List.length_eq_one_iff.mp hsn
    rw [List.mem_singleton.mp hm]

theorem validateCreate_columns (hl : Documented h.layer) (hn : now / 1000000 < 2 ^ 63)
    {request : CreateGroupRequest} {delivered : Option EpochKeyDelivery}
    (hc : h.checkCreate now request = .ok (record, delivered))
    (hst : h.storeRecord record = .ok columns) (keys : Option Store.EpochKeyDelivery) :
    validateCreate ⟨request.groupId, some columns, request.bootstrapWriteKey, keys⟩ =
      .ok columns := by
  obtain ⟨hb, ⟨sent, hs⟩, -⟩ := Handler.founding_of_checkCreate hc
  refine validateCreate_eq_ok.mpr ⟨?_, hb, rfl, validateRecord_columns hl hn hs hst⟩
  rw [← hs.group]
  exact record.parsed.header.groupId.property

theorem submit_answers {request : Store.SubmitRequest}
    (hv : validateSubmit request = .ok ()) (cfg : Config) (now : Time)
    (s : MemoryStore) : ∃ results, (Store.submit cfg now s request).2 = .ok results := by
  unfold Store.submit
  rw [hv]
  exact ⟨_, rfl⟩

theorem createGroup_answers {request : Store.CreateGroupRequest} {initial : Store.Record}
    (hv : validateCreate request = .ok initial) (cfg : Config) (now : Time)
    (s : MemoryStore) : ∃ result, (Store.createGroup cfg now s request).2 = .ok result := by
  unfold Store.createGroup
  rw [hv]
  dsimp only
  split
  · exact ⟨_, rfl⟩
  · split <;> exact ⟨_, rfl⟩

/-- No request that passes the checks of the edge is answered with a shape error by the store. -/
theorem no_store_shape_error (h : Handler) (hlayer : Documented h.layer) :
    (∀ (clock : ℕ → Time) (request : SubmitRequest) (pass : Pass)
        (records : List KeyedRecord) (batch : List Store.Record),
      (∀ index, clock index / 1000000 < 2 ^ 63) → h.checkStaticShape clock request = .ok pass →
      records.map (·.toCheckedRecord) = pass.records → h.storeRecords records = .ok batch →
      (∀ columns ∈ batch, validateRecord columns = .ok ()) ∧ batch ≠ [] ∧
        Alone batch ∧ request.groupId.length = groupIdBytes ∧
        ∀ (cfg : Config) (now : Time) (s : MemoryStore)
            (keys : Option Store.EpochKeyDelivery),
          validateSubmit ⟨request.groupId, batch, keys⟩ = .ok () ∧
            ∃ results, (Store.submit cfg now s ⟨request.groupId, batch, keys⟩).2 = .ok results) ∧
    (∀ (now : Time) (request : CreateGroupRequest) (record : CheckedRecord)
        (delivered : Option EpochKeyDelivery) (columns : Store.Record),
      now / 1000000 < 2 ^ 63 → h.checkCreate now request = .ok (record, delivered) →
      h.storeRecord record = .ok columns →
      validateRecord columns = .ok () ∧ request.groupId.length = groupIdBytes ∧
        request.bootstrapWriteKey.length = epochKeyBytes ∧
        ∀ (cfg : Config) (now : Time) (s : MemoryStore)
            (keys : Option Store.EpochKeyDelivery),
          ∃ result, (Store.createGroup cfg now s
            ⟨request.groupId, some columns, request.bootstrapWriteKey, keys⟩).2 = .ok result) := by
  constructor
  · intro clock request pass records batch hcl hp hr hbt
    have hv := validateSubmit_columns hlayer hcl hp hr hbt
    obtain ⟨hg, hne, -, ha⟩ := validateSubmit_eq_ok.mp (hv none).2
    refine ⟨(hv none).1, hne, ha, hg, fun cfg now s keys => ?_⟩
    exact ⟨(hv keys).2, submit_answers (hv keys).2 cfg now s⟩
  · intro now request record delivered columns hn hc hs
    have hv := validateCreate_columns hlayer hn hc hs
    obtain ⟨hg, hb, -, hrc⟩ := validateCreate_eq_ok.mp (hv none)
    refine ⟨hrc, hg, hb, fun cfg now s keys => ?_⟩
    exact createGroup_answers (hv keys) cfg now s

namespace Sample

def ladderLayer : RecordLayer :=
  { layer with
    retentionClassWire
      | .permanent, _ => some 0
      | .durable, _ => some 1
      | .media, _ => some 2
      | .eph, bucket => if bucket ≤ 5 then some (16 + bucket) else none }

def ladderHandler : Handler := { handler with layer := ladderLayer }

theorem ladderLayer_documented : Documented ladderLayer where
  sizeBucket {bytes record} hp := by
    change layer.parseRecord bytes = _ at hp
    unfold layer at hp
    dsimp only at hp
    split at hp
    · cases hp
      exact Nat.zero_le _
    · cases hp
  blobId {bytes record} hp _ := by
    change layer.parseRecord bytes = _ at hp
    unfold layer at hp
    dsimp only at hp
    split at hp
    · cases hp
      rfl
    · cases hp
  retentionClass {retentionClass bucket wire} hw := by
    cases retentionClass with
    | eph =>
      change (if bucket ≤ 5 then some (16 + bucket) else none) = some wire at hw
      split at hw
      next hb => exact ⟨hb, (Option.some.inj hw).symm⟩
      · cases hw
    | permanent | durable | media => exact (Option.some.inj hw).symm
  attachment {bytes attachment} hp := by
    change parseAttachment bytes = _ at hp
    unfold parseAttachment at hp
    split at hp
    · cases hp
      trivial
    · cases hp
      trivial
    · cases hp
      trivial
    · cases hp

def markerRequest : SubmitRequest := ⟨groupId, [sent 4 1 2 5], []⟩

def markerParsed : CheckedRecord := ⟨parsed 4 1 2 6, .complete ⟨1, 1⟩⟩

def markerKeyed : KeyedRecord := ⟨markerParsed, writeKey 1⟩

end Sample

open Sample

/-- The marker of an epoch reaches an empty store, and is answered there. -/
theorem no_store_shape_error_marker :
    ∃ batch, ladderHandler.storeRecords [markerKeyed] = .ok batch ∧
      ∃ results, (Store.submit config 0 .empty
        ⟨groupId, batch, none⟩).2 = .ok results := by
  have hs : ladderHandler.checkStaticShape (fun _ => 0) markerRequest =
      .ok ⟨[markerParsed], none⟩ :=
    Handler.checkStaticShape_eq_ok.mpr
      { groupId := rfl
        nonempty := by decide
        bounded := by decide
        shaped := by decide +kernel
        alone := by decide
        keys := rfl }
  obtain ⟨batch, hb⟩ : ∃ batch, ladderHandler.storeRecords [markerKeyed] = .ok batch := ⟨_, rfl⟩
  obtain ⟨-, -, -, -, ha⟩ := (no_store_shape_error ladderHandler
    ladderLayer_documented).1 (fun _ => 0) markerRequest _ [markerKeyed] batch
      (fun _ => by decide) hs rfl hb
  exact ⟨batch, hb, (ha config 0 .empty none).2⟩

end MessageServer.Api
