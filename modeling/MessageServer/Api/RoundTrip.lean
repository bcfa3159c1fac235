import MessageServer.Api.Authentic
import MessageServer.Api.Secrecy

/-! # A record on its way through the server

A record is parsed, cut into columns, stored, read back and encoded again. What
a reader parses is what was sent, apart from the authenticator and, where only
heads are asked for, the body; the projection beside it is recomputed.
-/

namespace MessageServer

open Protocol
open Store hiding FetchRequest Record

theorem Message.length_noAuth :
    (List.replicate writeAuthBytes (0 : UInt8)).length = writeAuthBytes :=
  List.length_replicate

/-- A record as the read path sends it: no authenticator, and a body unless only heads go out. -/
def Message.Record.served (record : Message.Record) (headsOnly : Bool) : Message.Record :=
  { record with
    ctBody := if headsOnly then none else record.ctBody
    writeAuth := ⟨List.replicate Message.writeAuthBytes 0, Message.length_noAuth⟩ }

namespace Api

namespace Sample

def parseSample : Bytes → Option Message.Record
  | [kind, epoch, streamIndex, tag] => some (parsed kind epoch streamIndex tag)
  | [kind, epoch, streamIndex, tag, 0] =>
    some { parsed kind epoch streamIndex tag with ctBody := none }
  | _ => none

def kindOf (record : Message.Record) : UInt8 :=
  if record.header.isCommit then 1
  else if record.header.retentionClass = .eph then 16
  else if record.header.serverAttachment = [] then 0
  else 4

def encodeSample (record : Message.Record) : Option Bytes :=
  let bytes := [kindOf record, .ofNat record.header.epoch, .ofNat record.header.streamIndex,
    record.writeAuth.val.headD 0] ++ if record.ctBody = none then [0] else []
  if parseSample bytes = some record then some bytes else none

def codec : Message.RecordLayer :=
  { layer with
    parseRecord := parseSample
    encodeRecord := encodeSample
    retentionClassWire
      | .permanent, 0 => some 0
      | .durable, 0 => some 1
      | .media, 0 => some 2
      | .eph, bucket => some (16 + bucket)
      | _, _ => none }

def codecReader : Reader := { reader with layer := codec }

end Sample

/--
What the server relies on of the record layer: what the parser answers is encoded and read back.
-/
structure Lawful (layer : Message.RecordLayer) : Prop where
  encode_of_parse : ∀ {bytes record}, layer.parseRecord bytes = some record →
    ∀ headsOnly, ∃ served, layer.encodeRecord (record.served headsOnly) = some served
  parse_of_encode : ∀ {record bytes}, layer.encodeRecord record = some bytes →
    layer.parseRecord bytes = some record
  class_of_wire : ∀ {retentionClass bucket wire},
    layer.retentionClassWire retentionClass bucket = some wire →
    layer.retentionClassOf wire = some (retentionClass, bucket)

/-- The columns that the bytes of a record determine, whatever was sent beside them. -/
def Handler.columnsOfBytes (h : Handler) (bytes : Bytes) : Option Store.Record := do
  let parsed ← h.layer.parseRecord bytes
  let attachment ← (parseServerAttachment h.layer parsed.header.serverAttachment).toOption
  columnsOf h.layer ⟨parsed, attachment⟩

section Rebuild

variable {layer : Message.RecordLayer} {record : CheckedRecord} {columns : Store.Record}

theorem rebuildRecord_columns (hl : Lawful layer) (hc : columnsOf layer record = some columns)
    (ha : parseServerAttachment layer record.parsed.header.serverAttachment =
      .ok record.attachment) (id : ℕ) (headsOnly : Bool) :
    rebuildRecord layer record.parsed.header.groupId.val (stamp columns id) headsOnly = (do
        let bytes ← layer.encodeRecord (record.parsed.served headsOnly)
        let projection ← projectionOf layer (record.parsed.served headsOnly) record.attachment
        pure { projection with recordBytes := bytes, recordId := id }) := by
  obtain ⟨wire, hw, rfl⟩ := Option.map_eq_some_iff.mp hc
  have hcl := hl.class_of_wire hw
  unfold rebuildRecord
  simp only [stamp, hcl, Option.bind_eq_bind, Option.bind_some,
    record.parsed.header.groupId.property, record.parsed.header.senderHandle.property,
    record.parsed.header.bodyHash.property, dite_true, ha, Except.toOption]
  rfl

theorem projectionOf_bare {parsed : Message.Record} {attachment : Message.ServerAttachment}
    {projection : Record} (hp : projectionOf layer parsed attachment = some projection) :
    projection = { projection with recordBytes := [], recordId := 0 } := by
  obtain ⟨wire, -, rfl⟩ := Option.map_eq_some_iff.mp hp
  rfl

theorem parse_of_rebuildRecord (hl : Lawful layer) (hc : columnsOf layer record = some columns)
    (ha : parseServerAttachment layer record.parsed.header.serverAttachment =
      .ok record.attachment) {id : ℕ} {headsOnly : Bool} {wire : Record}
    (hw : rebuildRecord layer record.parsed.header.groupId.val (stamp columns id) headsOnly =
      some wire) :
    layer.parseRecord wire.recordBytes = some (record.parsed.served headsOnly) ∧
      projectionOf layer (record.parsed.served headsOnly) record.attachment =
        some { wire with recordBytes := [], recordId := 0 } ∧ wire.recordId = id := by
  rw [rebuildRecord_columns hl hc ha] at hw
  simp only [Option.bind_eq_bind, Option.bind_eq_some_iff, Option.pure_def, Option.some.injEq] at hw
  obtain ⟨bytes, hb, projection, hp, rfl⟩ := hw
  exact ⟨hl.parse_of_encode hb, by rw [hp, projectionOf_bare hp], rfl⟩

theorem exists_rebuildRecord (hl : Lawful layer) (hc : columnsOf layer record = some columns)
    (ha : parseServerAttachment layer record.parsed.header.serverAttachment =
      .ok record.attachment) {bytes : Bytes} (hp : layer.parseRecord bytes = some record.parsed)
    (id : ℕ) (headsOnly : Bool) :
    ∃ wire, rebuildRecord layer record.parsed.header.groupId.val (stamp columns id)
      headsOnly = some wire := by
  obtain ⟨served, hs⟩ := hl.encode_of_parse hp headsOnly
  obtain ⟨wire, hw, -⟩ := Option.map_eq_some_iff.mp hc
  rw [rebuildRecord_columns hl hc ha, hs]
  simp [projectionOf, Message.Record.served, hw]

end Rebuild

section Fetch

variable {h : Reader} {t : Server} {layer : Message.RecordLayer} {headsOnly : Bool}
  {r : Store.Record} {groupId : Bytes} {α β : Type} {f : α → Option β} {as : List α}

theorem mapM_eq_some {bs : List β} :
    as.mapM f = some bs ↔ List.Forall₂ (fun a b => f a = some b) as bs := by
  induction as generalizing bs with
  | nil => cases bs <;> simp
  | cons a as ih =>
    simp only [List.mapM_cons, Option.bind_eq_bind, Option.bind_eq_some_iff, Option.pure_def,
      Option.some.injEq, ih]
    constructor
    · rintro ⟨b, hb, bs, hbs, rfl⟩
      exact .cons hb hbs
    · rintro (_ | ⟨hb, hbs⟩)
      exact ⟨_, hb, _, hbs, rfl⟩

theorem exists_mapM (hf : ∀ a ∈ as, ∃ b, f a = some b) : ∃ bs, as.mapM f = some bs := by
  induction as with
  | nil => exact ⟨[], rfl⟩
  | cons a as ih =>
    obtain ⟨b, hb⟩ := hf a List.mem_cons_self
    obtain ⟨bs, hbs⟩ := ih fun a ha => hf a (List.mem_cons_of_mem _ ha)
    exact ⟨b :: bs, mapM_eq_some.mpr (.cons hb (mapM_eq_some.mp hbs))⟩

theorem rebuildRecord_read {row : RecordRow} :
    rebuildRecord layer groupId (row.read headsOnly) headsOnly =
      rebuildRecord layer groupId row.record headsOnly := by
  cases headsOnly <;> simp [rebuildRecord, RecordRow.read]

theorem mem_page {request : Store.FetchRequest} {rows : List RecordRow}
    (hr : r ∈ (request.page rows).records) : ∃ row ∈ rows, r = row.read request.headsOnly := by
  obtain ⟨n, hn⟩ : ∃ n, Serves request rows _ (request.page rows) n :=
    fetchPage_serves ..
  rw [hn.records, List.nil_append] at hr
  obtain ⟨row, hrw, rfl⟩ := List.mem_map.mp hr
  exact ⟨row, (Paging.mem_behind.mp (List.mem_of_mem_take hrw)).1, rfl⟩

variable {wire : Record} {response : FetchResponse} {request : FetchRequest} {s : MemoryStore}

theorem mem_servePage (hf : h.servePage s request = (.ok, some response))
    (hw : wire ∈ response.records) :
    ∃ r ∈ s.log request.groupId,
      rebuildRecord h.layer request.groupId r request.headsOnly = some wire := by
  unfold Reader.servePage at hf
  split at hf
  · cases hf
  · rename_i result hft
    split at hf
    · cases hf
    · rename_i records hm
      obtain rfl := Option.some.inj (Prod.mk.inj hf).2
      obtain ⟨r, hr, hwr⟩ := (exists_of_forall₂ (mapM_eq_some.mp hm)).2 wire hw
      obtain ⟨-, g, hg, -, rfl⟩ := fetch_eq_ok.mp hft
      obtain ⟨row, hrw, rfl⟩ := mem_page hr
      refine ⟨row.record, ?_, ?_⟩
      · rw [MemoryStore.log_of_group hg]
        exact List.mem_map_of_mem hrw
      · rw [← hwr, rebuildRecord_read]

theorem servePage_ne_internal (hr : ∀ r ∈ s.log request.groupId, ∃ wire,
      rebuildRecord h.layer request.groupId r request.headsOnly = some wire) :
    (h.servePage s request).1 ≠ .internal := by
  unfold Reader.servePage
  split
  · simp
  · rename_i result hf
    obtain ⟨-, g, hg, -, hp⟩ := fetch_eq_ok.mp hf
    have ha : ∀ r ∈ result.records, ∃ wire,
        rebuildRecord h.layer request.groupId r request.headsOnly = some wire := by
      intro r hmm
      rw [← hp] at hmm
      obtain ⟨row, hrw, rfl⟩ := mem_page hmm
      rw [rebuildRecord_read]
      refine hr row.record ?_
      rw [MemoryStore.log_of_group hg]
      exact List.mem_map_of_mem hrw
    obtain ⟨records, hm⟩ := exists_mapM ha
    rw [hm]
    simp

theorem recordId_of_rebuildRecord (hw : rebuildRecord layer groupId r headsOnly = some wire) :
    wire.recordId = r.recordId := by
  unfold rebuildRecord at hw
  obtain ⟨⟨retentionClass, ephBucket⟩, -, hw⟩ := Option.bind_eq_some_iff.mp hw
  dsimp only at hw
  split_ifs at hw
  all_goals simp only [Option.bind_eq_bind, Option.bind_eq_some_iff, Option.pure_def,
    Option.some.injEq] at hw
  all_goals
    obtain ⟨bytes, -, attachment, -, projection, -, rfl⟩ := hw
    rfl

theorem mem_fetch {f : Incoming FetchRequest} (hf : (h.fetch t f).2 = (.ok, some response))
    (hw : wire ∈ response.records) :
    ∃ r ∈ t.store.log f.body.groupId,
      rebuildRecord h.layer f.body.groupId r f.body.headsOnly = some wire := by
  unfold Reader.fetch at hf
  split_ifs at hf with hfr hsh
  · exact absurd (Prod.mk.inj hf).2 (by simp)
  · exact absurd (Prod.mk.inj hf).2 (by simp)
  · have hl : f.body.groupId.length = groupIdBytes := by tauto
    obtain ⟨hs, -, hch⟩ := checkRead_eq h.toHandler t f.conn hl f.body.readEpoch opFetch
      (h.marshalFetch { f.body with reqAuth := [] }) f.body.reqAuth
    split at hf
    · exact absurd (Prod.mk.inj hf).2 (by simp)
    · rename_i s _ hc
      rw [hc] at hs
      rw [← hs]
      exact mem_servePage hf hw

end Fetch

section Main

variable {ι : Type*} [DecidableEq ι] {h : Handler} {registry : Option Subscriptions}
  {requests : ι → Request} {sched : List (ι × Tick)}

variable {r : Store.Record} {i : ι}

theorem sent_of_stored (hr : r ∈ (((run h registry requests sched).calls i).storeCall h).stored) :
    ∃ conn sent record columns,
      Carries (requests i) conn record.parsed.header.groupId.val (some sent) ∧
      record.parsed.header.groupId.val =
        (((run h registry requests sched).calls i).storeCall h).groupId ∧
      h.layer.parseRecord sent.recordBytes = some record.parsed ∧
      parseServerAttachment h.layer record.parsed.header.serverAttachment = .ok record.attachment ∧
      columnsOf h.layer record = some columns ∧ r = stamp columns r.recordId := by
  obtain ⟨sent, record, columns, key, id, ha, hc, rfl⟩ := authentic_of_stored hr
  obtain ⟨conn, hcr, -⟩ := ha.verified
  have hp := ha.parsed
  simp only [Handler.parse, Option.bind_eq_bind, Option.bind_eq_some_iff, Option.pure_def,
    Option.some.injEq] at hp
  obtain ⟨sent, rfl, parsed, hpr, attachment, hat, rfl⟩ := hp
  refine ⟨conn, sent, _, columns, ha.header ▸ hcr, ha.header, hpr, ?_, hc, rfl⟩
  generalize parseServerAttachment h.layer parsed.header.serverAttachment = answer at hat
  cases answer with
  | error => cases hat
  | ok body => exact congrArg _ (Option.some.inj hat)

variable {groupId : Bytes}

theorem stored_later {p q : List (ι × Tick)}
    (hr : r ∈ (((run h registry requests p).calls i).storeCall h).stored)
    (hg : groupId = (((run h registry requests p).calls i).storeCall h).groupId) :
    r ∈ (run h registry requests (p ++ q)).shared.store.log groupId := by
  rw [run_storeCall] at hr hg
  refine mem_run_log.mpr ⟨i, ?_, ?_⟩
  · rw [run_storeCall, hg, Store.Call.groupId_request, storeRun_request,
      Store.Call.groupId_request ((storeRun h requests registry p).calls i), storeRun_request]
  · rw [run_storeCall]
    exact storeRun_stored hr

theorem run_eq_of_recordId {a b : Store.Record}
    (ha : a ∈ (run h registry requests sched).shared.store.log groupId)
    (hb : b ∈ (run h registry requests sched).shared.store.log groupId)
    (hid : a.recordId = b.recordId) : a = b := by
  rw [run_store] at ha hb
  have ho := run_log_inOrder h.store (fun i => h.storeRequest (requests i))
    (storeSched h (.empty registry) requests sched) groupId
  have hn := List.pairwise_map.mpr (ho.imp fun {_ _} hlt => Nat.ne_of_lt hlt)
  exact List.inj_on_of_nodup_map hn ha hb hid

theorem run_rebuilt (hl : Lawful h.layer)
    (hr : r ∈ (run h registry requests sched).shared.store.log groupId) (headsOnly : Bool) :
    ∃ wire, rebuildRecord h.layer groupId r headsOnly = some wire := by
  obtain ⟨i, rfl, hst⟩ := mem_run_log.mp hr
  obtain ⟨conn, sent, record, columns, -, hg, hp, ha, hc, hs⟩ := sent_of_stored hst
  rw [← hg, hs]
  exact exists_rebuildRecord hl hc ha hp r.recordId headsOnly

/--
Every later page that has a record rebuilds the bytes it was sent with, but for the authenticator
and, where only heads are asked for, the body.
-/
theorem record_round_trip (h : Reader) (hlaw : Lawful h.layer) (registry : Option Subscriptions)
    (requests : ι → Request) (p q : List (ι × Tick)) (i : ι) (r : Store.Record)
    (hr : r ∈ (((run h.toHandler registry requests p).calls i).storeCall h.toHandler).stored) :
    ∃ conn groupId sent parsed attachment columns, Carries (requests i) conn groupId (some sent) ∧
      h.layer.parseRecord sent.recordBytes = some parsed ∧
      parseServerAttachment h.layer parsed.header.serverAttachment = .ok attachment ∧
      h.columnsOfBytes sent.recordBytes = some columns ∧ r = stamp columns r.recordId ∧
      ∀ s (f : Incoming FetchRequest), f.body.groupId = groupId →
        s.store = (run h.toHandler registry requests (p ++ q)).shared.store →
        (h.servePage s.store f.body).1 ≠ .internal ∧
        ∀ response, (h.fetch s f).2 = (.ok, some response) → ∀ wire ∈ response.records,
          wire.recordId = r.recordId →
            rebuildRecord h.layer groupId (stamp columns r.recordId) f.body.headsOnly = some wire ∧
            h.layer.parseRecord wire.recordBytes = some (parsed.served f.body.headsOnly) ∧
            projectionOf h.layer (parsed.served f.body.headsOnly) attachment =
              some { wire with recordBytes := [], recordId := 0 } := by
  obtain ⟨conn, sent, record, columns, hcr, hg, hp, ha, hc, hs⟩ := sent_of_stored hr
  refine ⟨conn, _, sent, record.parsed, record.attachment, columns, hcr, hp, ha, ?_, hs, ?_⟩
  · simp only [Handler.columnsOfBytes, hp, ha, Except.toOption, Option.bind_eq_bind,
      Option.bind_some]
    exact hc
  · rintro s f hgr hst
    refine ⟨servePage_ne_internal fun row hro => ?_, fun response hf wire hw hid => ?_⟩
    · rw [hst] at hro
      exact run_rebuilt hlaw hro f.body.headsOnly
    · obtain ⟨row, hro, hwr⟩ := mem_fetch hf hw
      have hrw : row.recordId = r.recordId := by rw [← recordId_of_rebuildRecord hwr, hid]
      have hl : r ∈ (run h.toHandler registry requests (p ++ q)).shared.store.log
          f.body.groupId := by
        rw [hgr]
        exact stored_later hr hg
      rw [hst] at hro
      obtain rfl : row = r := run_eq_of_recordId hro hl hrw
      rw [hgr, hs] at hwr
      obtain ⟨hb, hpr, -⟩ := parse_of_rebuildRecord hlaw hc ha hwr
      exact ⟨hwr, hb, hpr⟩

theorem parsed_kindOf (kind epoch streamIndex : UInt8) :
    Sample.parsed (Sample.kindOf (Sample.parsed kind epoch streamIndex 0)) epoch streamIndex 0 =
      Sample.parsed kind epoch streamIndex 0 := by
  by_cases h1 : kind = 1
  · subst h1
    rfl
  by_cases h16 : kind = 16
  · subst h16
    rfl
  by_cases h4 : kind = 4
  · subst h4
    rfl
  simp [Sample.parsed, Sample.kindOf, h1, h16, h4]

end Main

open Sample

theorem encodeSample_served (kind epoch streamIndex tag : UInt8) (headsOnly : Bool) :
    ∃ bytes, encodeSample
      ((parsed kind epoch streamIndex tag).served headsOnly) = some bytes := by
  have hk := parsed_kindOf kind epoch streamIndex
  have he : UInt8.ofNat epoch.toNat = epoch := UInt8.ofNat_toNat
  have hi : UInt8.ofNat streamIndex.toNat = streamIndex := UInt8.ofNat_toNat
  unfold encodeSample
  rw [if_pos]
  · exact ⟨_, rfl⟩
  · cases headsOnly with
    | false =>
      change some (parsed (kindOf (parsed kind epoch streamIndex 0))
        (.ofNat epoch.toNat) (.ofNat streamIndex.toNat) 0) = some (parsed kind epoch streamIndex 0)
      rw [he, hi, hk]
    | true =>
      change some { parsed (kindOf (parsed kind epoch streamIndex 0))
        (.ofNat epoch.toNat) (.ofNat streamIndex.toNat) 0 with ctBody := none } =
          some { parsed kind epoch streamIndex 0 with ctBody := none }
      rw [he, hi, hk]

theorem codec_lawful : Lawful codec where
  encode_of_parse := by
    intro bytes record hp headsOnly
    replace hp : parseSample bytes = some record := hp
    unfold parseSample at hp
    split at hp
    · cases hp
      exact encodeSample_served _ _ _ _ headsOnly
    · rename_i kind epoch streamIndex tag
      cases hp
      cases headsOnly with
      | false => exact encodeSample_served kind epoch streamIndex tag true
      | true => exact encodeSample_served kind epoch streamIndex tag true
    · cases hp
  parse_of_encode := by
    intro record bytes hb
    replace hb : encodeSample record = some bytes := hb
    unfold encodeSample at hb
    obtain ⟨hp, hb⟩ := Option.ite_none_right_eq_some.mp hb
    exact Option.some.inj hb ▸ hp
  class_of_wire := by
    intro retentionClass bucket wire hw
    simp only [codec] at hw
    split at hw <;> cases hw
    · rfl
    · rfl
    · rfl
    · have hwr : codec.retentionClassOf (bucket + 16) = some (.eph, bucket + 16 - 16) := rfl
      rw [Nat.add_comm, hwr, Nat.add_sub_cancel]

theorem record_round_trip_founding : ∃ r ∈ (((run codecReader.toHandler registry founding
        foundingOrder).calls 1).storeCall codecReader.toHandler).stored,
      ∃ sent parsed response wire, codec.parseRecord sent = some parsed ∧
        (codecReader.fetch (run codecReader.toHandler registry
          founding foundingOrder).shared (fetching 1 9)).2 = (.ok, some response) ∧
        wire ∈ response.records ∧ wire.recordId = r.recordId ∧
        codec.parseRecord wire.recordBytes = some (parsed.served false) := by
  have hst : ((((run codecReader.toHandler registry founding
      foundingOrder).calls 1).storeCall codecReader.toHandler).stored.map
        (·.recordId)) = [2] := by
    decide +kernel
  have hok : (codecReader.fetch (run codecReader.toHandler registry
      founding foundingOrder).shared (fetching 1 9)).2.1 = .ok := by
    decide +kernel
  have hi : (codecReader.fetch (run codecReader.toHandler registry
      founding foundingOrder).shared (fetching 1 9)).2.2.map
        (fun response => response.records.map (·.recordId)) = some [1, 2] := by
    decide +kernel
  obtain ⟨r, hr, hid⟩ := List.mem_map.mp (hst ▸ List.mem_singleton_self 2)
  obtain ⟨response, hrs, hrc⟩ := Option.map_eq_some_iff.mp hi
  obtain ⟨wire, hw, hwd⟩ := List.mem_map.mp (hrc ▸ (by decide : 2 ∈ [1, 2]))
  obtain ⟨conn, groupId, sent, parsed, attachment, columns, hc, hp, -, -, -, ha⟩ :=
    record_round_trip codecReader codec_lawful registry founding
      foundingOrder [] 1 r hr
  have hg : (fetching 1 9).body.groupId = groupId := by
    cases hc
    rfl
  refine ⟨r, hr, sent.recordBytes, parsed, response, wire, hp, Prod.ext hok hrs, hw,
    hwd.trans hid.symm, ?_⟩
  exact ((ha _ (fetching 1 9) hg (by rw [List.append_nil])).2 response
    (Prod.ext hok hrs) wire hw (hwd.trans hid.symm)).2.1

end Api

end MessageServer
