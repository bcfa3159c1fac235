import MessageServer.Api.Shape
import MessageServer.Api.Calls

/-! # The keys delivered beside a batch

The deliveries beside a list of records are reduced to one optional delivery,
which the store reads again. The two readings match: a commit that passes check
3 always has an opening, and the store refuses that opening for its epoch alone.
-/

namespace MessageServer.Api

open Protocol
open Message hiding Record
open Store hiding CreateGroupRequest EpochKeyDelivery Record SubmitRequest

def alignOne (record : CheckedRecord) (delivery : Option EpochKeyDelivery) (index : ℕ)
    (wanted : Option (EpochKeyDelivery × ℕ)) :
    Except (EpochKeysError × Option ℕ) (Option (EpochKeyDelivery × ℕ)) :=
  match delivery, record.parsed.header.isCommit with
  | some _, false => .error (.onNonCommit, some index)
  | none, false => .ok wanted
  | none, true =>
    if isDigestKind record.attachment then .error (.missing, some index) else .ok wanted
  | some delivery, true =>
    if ¬ isDigestKind record.attachment then .error (.unwanted, some index)
    else if delivery.writeKey.len = 0 ∧ delivery.readKey.len = 0 then
      .error (.emptyEntry, some index)
    else if delivery.writeKey.len ≠ epochKeyBytes ∨
        delivery.readKey.len ≠ epochKeyBytes then .error (.width, some index)
    else .ok (some (delivery, index))

/-- The delivery opposite a record; a read out of range is `none`. -/
def deliveryAt (deliveries : List (Option EpochKeyDelivery)) (index : ℕ) :
    Option (Option EpochKeyDelivery) :=
  if index < deliveries.length then deliveries[index]? else some none

/-- The loop of the alignment as the code indexes its lists; a read out of range is `none`. -/
def alignIndexed (records : List CheckedRecord) (deliveries : List (Option EpochKeyDelivery)) :
    ℕ → ℕ → Option (EpochKeyDelivery × ℕ) →
      Option (Except (EpochKeysError × Option ℕ) (Option (EpochKeyDelivery × ℕ)))
  | 0, _, wanted => some (.ok wanted)
  | left + 1, index, wanted => do
    let record ← records[index]?
    let delivery ← deliveryAt deliveries index
    match alignOne record delivery index wanted with
    | .error e => some (.error e)
    | .ok wanted => alignIndexed records deliveries left (index + 1) wanted

/-- The alignment with its reads; a read out of range is `none`. -/
def epochKeyAlignmentIndexed (records : List CheckedRecord)
    (deliveries : List (Option EpochKeyDelivery)) :
    Option (Except (EpochKeysError × Option ℕ) (Option (EpochKeyDelivery × ℕ))) :=
  if deliveries.length ≠ 0 ∧ deliveries.length ≠ records.length then some (.error (.length, none))
  else alignIndexed records deliveries records.length 0 none

variable {deliveries : List (Option EpochKeyDelivery)} {records : List CheckedRecord}
  {record : CheckedRecord} {wanted : Option (EpochKeyDelivery × ℕ)} {index : ℕ}

theorem alignFrom_cons : alignFrom deliveries index wanted (record :: records) =
    match alignOne record deliveries[index]?.join index wanted with
    | .error e => .error e
    | .ok wanted => alignFrom deliveries (index + 1) wanted records := by
  rw [alignFrom]
  unfold alignOne
  cases deliveries[index]?.join with
  | none =>
    cases record.parsed.header.isCommit with
    | false => rfl
    | true => cases isDigestKind record.attachment <;> rfl
  | some delivery =>
    cases record.parsed.header.isCommit with
    | false => rfl
    | true =>
      dsimp only
      split
      · rfl
      · split
        · rfl
        · split <;> rfl

theorem deliveryAt_eq : deliveryAt deliveries index = some deliveries[index]?.join := by
  unfold deliveryAt
  split
  next h => simp [h]
  next h => simp [List.getElem?_eq_none (Nat.not_lt.mp h)]

theorem alignIndexed_eq (before : List CheckedRecord) (hi : index = before.length) :
    alignIndexed (before ++ records) deliveries records.length index wanted =
      some (alignFrom deliveries index wanted records) := by
  induction records generalizing before index wanted with
  | nil => rfl
  | cons record records ih =>
    have hr : (before ++ record :: records)[index]? = some record := by simp [hi]
    have ha : before ++ record :: records = (before ++ [record]) ++ records := by simp
    rw [alignFrom_cons, List.length_cons, alignIndexed, hr, deliveryAt_eq]
    simp only [bind, Option.bind_some]
    cases alignOne record deliveries[index]?.join index wanted with
    | error e => rfl
    | ok wanted =>
      dsimp only
      rw [ha, ih (before ++ [record]) (by simp [hi])]

theorem epochKeyAlignmentIndexed_eq (records : List CheckedRecord)
    (deliveries : List (Option EpochKeyDelivery)) :
    epochKeyAlignmentIndexed records deliveries = some (epochKeyAlignment records deliveries) := by
  unfold epochKeyAlignmentIndexed epochKeyAlignment
  split
  · rfl
  · exact alignIndexed_eq [] rfl

/-- A commit whose attachment carries a digest of the keys. -/
def CheckedRecord.DigestCommit (record : CheckedRecord) : Prop :=
  record.parsed.header.isCommit = true ∧ isDigestKind record.attachment = true

def CommitAlone (records : List CheckedRecord) : Prop :=
  (∀ record ∈ records, record.parsed.header.isCommit = false) ∨ ∃ record, records = [record]

variable {w : Option (EpochKeyDelivery × ℕ)}

theorem alignOne_none :
    alignOne record none index wanted = .ok w ↔ ¬ record.DigestCommit ∧ w = wanted := by
  unfold alignOne CheckedRecord.DigestCommit
  cases record.parsed.header.isCommit with
  | false => simp [eq_comm (a := wanted)]
  | true => cases isDigestKind record.attachment <;> simp [eq_comm (a := wanted)]

theorem alignOne_some {delivery : EpochKeyDelivery} :
    alignOne record (some delivery) index wanted = .ok w ↔ record.DigestCommit ∧
      delivery.writeKey.len = epochKeyBytes ∧ delivery.readKey.len = epochKeyBytes ∧
      w = some (delivery, index) := by
  unfold alignOne CheckedRecord.DigestCommit
  cases record.parsed.header.isCommit with
  | false => simp
  | true =>
    cases isDigestKind record.attachment with
    | false => simp
    | true =>
      dsimp only
      rw [if_neg (by simp)]
      by_cases he : delivery.writeKey.len = 0 ∧ delivery.readKey.len = 0
      · rw [if_pos he]
        simp [he, epochKeyBytes]
      · rw [if_neg he]
        by_cases hw : delivery.writeKey.len ≠ epochKeyBytes ∨ delivery.readKey.len ≠ epochKeyBytes
        · rw [if_pos hw]
          simp only [reduceCtorEq, false_iff]
          rintro ⟨-, hwr, hr, -⟩
          exact hw.elim (· hwr) (· hr)
        · rw [if_neg hw]
          simp only [ne_eq, not_or, not_not] at hw
          simp [hw, eq_comm]

theorem alignFrom_ordinary (ho : ∀ record ∈ records, record.parsed.header.isCommit = false) :
    alignFrom deliveries index wanted records = .ok w ↔
      w = wanted ∧ ∀ i < records.length, deliveries[index + i]?.join = none := by
  induction records generalizing index wanted with
  | nil => simp [alignFrom, eq_comm]
  | cons record records ih =>
    obtain ⟨hr, hrs⟩ := List.forall_mem_cons.mp ho
    have hp : ¬ record.DigestCommit := fun hd => by
      rw [CheckedRecord.DigestCommit, hr] at hd
      cases hd.1
    rw [alignFrom_cons]
    cases hat : deliveries[index]?.join with
    | some delivery =>
      constructor
      · intro h
        cases hon : alignOne record (some delivery) index wanted with
        | error e =>
          rw [hon] at h
          cases h
        | ok w' => exact (hp (alignOne_some.mp hon).1).elim
      · rintro ⟨-, hn⟩
        have hz := hn 0 (Nat.succ_pos _)
        rw [Nat.add_zero, hat] at hz
        cases hz
    | none =>
      rw [alignOne_none.mpr ⟨hp, rfl⟩]
      rw [ih hrs]
      refine and_congr_right fun _ => ⟨fun hn i hi => ?_, fun hn i hi => ?_⟩
      · cases i with
        | zero => exact hat
        | succ i =>
          rw [← Nat.succ_add_eq_add_succ]
          exact hn i (Nat.lt_of_succ_lt_succ hi)
      · rw [Nat.succ_add_eq_add_succ]
        exact hn (i + 1) (Nat.succ_lt_succ hi)

theorem epochKeyAlignment_ordinary
    (ho : ∀ record ∈ records, record.parsed.header.isCommit = false) :
    epochKeyAlignment records deliveries = .ok w ↔ w = none ∧ (deliveries = [] ∨
      deliveries.length = records.length ∧ ∀ delivery ∈ deliveries, delivery = none) := by
  unfold epochKeyAlignment
  split
  next hl =>
    simp only [reduceCtorEq, false_iff, not_and, not_or]
    rintro -
    exact ⟨fun hnl => hl.1 (by rw [hnl]; rfl), fun h => (hl.2 h).elim⟩
  next hl =>
    rw [alignFrom_ordinary ho]
    refine and_congr_right fun _ => ⟨fun hn => ?_, ?_⟩
    · by_cases hnl : deliveries = []
      · exact .inl hnl
      · have hs : deliveries.length = records.length := by
          by_contra hne
          exact hl ⟨fun h => hnl (List.length_eq_zero_iff.mp h), hne⟩
        refine .inr ⟨hs, fun delivery hm => ?_⟩
        obtain ⟨i, hi, rfl⟩ := List.getElem_of_mem hm
        have hat := hn i (hs ▸ hi)
        rwa [Nat.zero_add, List.getElem?_eq_getElem hi, Option.join_some] at hat
    · rintro (rfl | ⟨hs, hn⟩) i hi
      · rfl
      · have hi' : 0 + i < deliveries.length := by omega
        rw [List.getElem?_eq_getElem hi', Option.join_some]
        exact hn _ (List.getElem_mem hi')

theorem epochKeyAlignment_one : epochKeyAlignment [record] deliveries = .ok w ↔
    (deliveries = [] ∨ deliveries = [none]) ∧ ¬ record.DigestCommit ∧ w = none ∨
      ∃ delivery, deliveries = [some delivery] ∧ record.DigestCommit ∧
        delivery.writeKey.len = epochKeyBytes ∧
        delivery.readKey.len = epochKeyBytes ∧ w = some (delivery, 0) := by
  unfold epochKeyAlignment
  rw [alignFrom_cons]
  have ho : ∀ delivery, (match alignOne record delivery 0 none with
      | .error e => .error e
      | .ok wanted => alignFrom deliveries (0 + 1) wanted []) =
        alignOne record delivery 0 none := by
    intro delivery
    cases alignOne record delivery 0 none <;> rfl
  rw [ho]
  match deliveries with
  | [] => simp [alignOne_none]
  | [none] => simp [alignOne_none]
  | [some delivery] => simp [alignOne_some]
  | _ :: _ :: _ => simp

theorem epochKeyAlignment_some (ha : CommitAlone records) :
    (∃ keys, epochKeyAlignment records deliveries = .ok (some keys)) ↔
      ∃ record delivery, records = [record] ∧ record.DigestCommit ∧
        deliveries = [some delivery] ∧ delivery.writeKey.len = epochKeyBytes ∧
        delivery.readKey.len = epochKeyBytes := by
  rcases ha with ho | ⟨record, rfl⟩
  · constructor
    · rintro ⟨keys, h⟩
      cases ((epochKeyAlignment_ordinary ho).mp h).1
    · rintro ⟨record, delivery, rfl, ⟨hc, -⟩, -⟩
      rw [ho record List.mem_cons_self] at hc
      cases hc
  · constructor
    · rintro ⟨keys, h⟩
      rcases epochKeyAlignment_one.mp h with ⟨-, -, hn⟩ | ⟨delivery, hd, hdg, hw, hr, -⟩
      · cases hn
      · exact ⟨record, delivery, rfl, hdg, hd, hw, hr⟩
    · rintro ⟨record', delivery, hrc, hdg, hd, hw, hr⟩
      obtain rfl := List.singleton_inj.mp hrc
      exact ⟨_, epochKeyAlignment_one.mpr (.inr ⟨delivery, hd, hdg, hw, hr, rfl⟩)⟩

theorem epochKeyAlignment_none (ha : CommitAlone records) :
    epochKeyAlignment records deliveries = .ok none ↔
      (∀ record ∈ records, ¬ record.DigestCommit) ∧ (deliveries = [] ∨
        deliveries.length = records.length ∧ ∀ delivery ∈ deliveries, delivery = none) := by
  rcases ha with ho | ⟨record, rfl⟩
  · rw [epochKeyAlignment_ordinary ho]
    refine ⟨fun h => ⟨fun record hm hdg => ?_, h.2⟩, fun h => ⟨rfl, h.2⟩⟩
    rw [CheckedRecord.DigestCommit, ho record hm] at hdg
    cases hdg.1
  · rw [epochKeyAlignment_one]
    simp only [List.forall_mem_singleton, List.length_singleton]
    constructor
    · rintro (⟨hd, hp, -⟩ | ⟨_, -, -, -, -, hn⟩)
      · refine ⟨hp, hd.imp_right ?_⟩
        rintro rfl
        exact ⟨rfl, by simp⟩
      · cases hn
    · rintro ⟨hp, hd⟩
      refine .inl ⟨hd.imp_right ?_, hp, trivial⟩
      rintro ⟨hl, hn⟩
      obtain ⟨delivery, rfl⟩ := List.length_eq_one_iff.mp hl
      rw [hn delivery List.mem_cons_self]

/-- The fields of an epoch attachment, of either kind, that its parser holds to a width. -/
def EpochChecked : ServerAttachment → Prop
  | .epoch body => body.writeKey.len = epochKeyBytes ∧
      body.readKey.len = epochKeyBytes ∧ 0 < body.expectedWrapCount ∧
      (body.groupContextHash = none ∨ body.groupContextHash.len = groupContextHashBytes)
  | .epochDigest body => body.epochKeysDigest.len = 32 ∧ 0 < body.expectedWrapCount ∧
      (body.groupContextHash = none ∨ body.groupContextHash.len = groupContextHashBytes)
  | _ => True

structure ParsersCheck (layer : RecordLayer) : Prop where
  server : ∀ {bytes attachment}, layer.parseServerAttachment bytes = .ok attachment →
    EpochChecked attachment
  digest : ∀ {bytes body}, layer.parseEpochDigestAttachment bytes = some body →
    EpochChecked (.epochDigest body)

theorem ParsersCheck.checked {layer : RecordLayer} (hl : ParsersCheck layer)
    {bytes : Bytes} {attachment : ServerAttachment}
    (h : parseServerAttachment layer bytes = .ok attachment) : EpochChecked attachment := by
  unfold parseServerAttachment at h
  split at h
  next parsed hs =>
    cases h
    exact hl.server hs
  · split at h
    · cases h
    next body hd =>
      cases h
      exact hl.digest hd
  · cases h

/-- The delivery that a commit needs: two keys beside a digest, and none beside the keys. -/
def DeliveredFor (record : CheckedRecord) : Option EpochKeyDelivery → Prop
  | none => isDigestKind record.attachment = false
  | some keys => isDigestKind record.attachment = true ∧
      keys.writeKey.len = epochKeyBytes ∧ keys.readKey.len = epochKeyBytes

theorem wellFormed_of_openingOf {columns : Store.Record} {keys : Option Store.EpochKeyDelivery}
    {opening : EpochOpening} (ho : openingOf columns keys = some opening)
    (hw : opening.writeKey.len = epochKeyBytes)
    (hr : opening.readKey.len = epochKeyBytes) (hcn : 0 < opening.expectedWrapCount)
    (hc : opening.groupContextHash = none ∨
      opening.groupContextHash.len = groupContextHashBytes) (opens : ℕ) :
    wellFormedEpochAttachment columns opens keys = decide (opening.epoch = opens) := by
  unfold wellFormedEpochAttachment
  rw [ho]
  dsimp only
  by_cases he : opening.epoch = opens
  · rw [if_neg (not_not.mpr he), if_neg (not_not.mpr hw), if_neg (not_not.mpr hr),
      if_neg hcn.ne', if_neg fun h => hc.elim h.1 h.2, decide_eq_true he]
  · rw [if_pos he, decide_eq_false he]

theorem openingOf_commit {layer : RecordLayer} {columns : Store.Record}
    {keys : Option EpochKeyDelivery} (hcl : columnsOf layer record = some columns)
    (hch : EpochChecked record.attachment)
    (hkn : isEpochAttachmentKind record.attachment = true) (hk : DeliveredFor record keys) :
    ∃ opening, openingOf columns (deliveryOf keys) = some opening ∧
      opensEpochOf record.attachment = some opening.epoch ∧
      ∀ opens, wellFormedEpochAttachment columns opens (deliveryOf keys) =
        decide (opening.epoch = opens) := by
  obtain ⟨wire, -, rfl⟩ := Option.map_eq_some_iff.mp hcl
  obtain ⟨parsed, attachment⟩ := record
  cases attachment with
  | epoch body =>
    obtain ⟨hw, hr, hcn, hc⟩ := hch
    cases keys with
    | none => exact ⟨_, rfl, rfl, wellFormed_of_openingOf rfl hw hr hcn hc⟩
    | some keys => cases hk.1
  | epochDigest body =>
    obtain ⟨-, hcn, hc⟩ := hch
    cases keys with
    | none => cases hk
    | some keys =>
      exact ⟨_, rfl, rfl, wellFormed_of_openingOf rfl hk.2.1 hk.2.2 hcn hc⟩
  | none | wrap | recovery | complete => cases hkn

theorem deliveredFor_single (hc : record.parsed.header.isCommit = true)
    (h : epochKeyAlignment [record] deliveries = .ok w) :
    DeliveredFor record (w.map Prod.fst) := by
  rcases epochKeyAlignment_one.mp h with ⟨-, hp, rfl⟩ | ⟨delivery, -, hd, hw, hr, rfl⟩
  · cases hk : isDigestKind record.attachment with
    | false => exact hk
    | true => exact (hp ⟨hc, hk⟩).elim
  · exact ⟨hd.2, hw, hr⟩

namespace Handler

variable {h : Handler} {groupId : Bytes} {now : Time} {keys : Option EpochKeyDelivery}
  {sent : Record}

theorem Shaped.columns (hs : h.Shaped now groupId sent record) :
    ∃ columns, columnsOf h.layer record = some columns := by
  obtain ⟨wire, hw, -⟩ := Option.map_eq_some_iff.mp hs.projection
  exact ⟨_, by rw [columnsOf, hw, Option.map_some]⟩

theorem epochKeyAlignment_of_check (hk : h.checkEpochKeys groupId records deliveries = .ok keys) :
    ∃ w, epochKeyAlignment records deliveries = .ok w ∧ keys = w.map Prod.fst := by
  unfold checkEpochKeys at hk
  split at hk
  · cases hk
  next ha =>
    cases hk
    exact ⟨none, ha, rfl⟩
  next found index ha =>
    split at hk
    · cases hk
    · split at hk
      · cases hk
      · cases hk
        exact ⟨_, ha, rfl⟩

theorem Passed.delivered {clock : ℕ → Time} {request : SubmitRequest} {pass : Pass}
    (hp : h.Passed clock request pass) (hm : record ∈ pass.records)
    (hc : record.parsed.header.isCommit = true) : DeliveredFor record pass.keys := by
  have ho : pass.records = [record] := by
    have hcn : pass.records.countP (·.parsed.header.isCommit) ≠ 0 := fun hz =>
      List.countP_eq_zero.mp hz record hm hc
    have hl : pass.records.length = 1 := by
      by_contra hne
      exact hp.alone ⟨hcn, hne⟩
    obtain ⟨record', hr⟩ := List.length_eq_one_iff.mp hl
    rw [hr] at hm
    rw [hr, List.mem_singleton.mp hm]
  obtain ⟨w, ha, hk⟩ := epochKeyAlignment_of_check hp.keys
  rw [ho] at ha
  rw [hk]
  exact deliveredFor_single hc ha

theorem founding_of_checkCreate {request : CreateGroupRequest}
    (hc : h.checkCreate now request = .ok (record, keys)) :
    request.bootstrapWriteKey.length = epochKeyBytes ∧
      (∃ sent, h.Shaped now request.groupId sent record) ∧
      record.parsed.header.isCommit = true ∧ record.parsed.header.epoch = 0 ∧
      opensEpochOf record.attachment = some 1 ∧ DeliveredFor record keys := by
  unfold checkCreate at hc
  simp only [bind_eq_ok_iff, failIf_eq_ok] at hc
  obtain ⟨_, hb, record', hs, _, hcm, _, ho, hc⟩ := hc
  obtain ⟨sent, -, hsh⟩ := staticShape_eq_ok.mp hs
  have hf : record' = record ∧ ∃ w, epochKeyAlignment [record'] [request.epochKeys] = .ok w ∧
      keys = w.map Prod.fst := by
    split at hc
    · cases hc
    next ha =>
      cases hc
      exact ⟨rfl, none, ha, rfl⟩
    next found index ha =>
      split at hc
      · cases hc
      · cases hc
        exact ⟨rfl, _, ha, rfl⟩
  obtain ⟨rfl, w, ha, rfl⟩ := hf
  rw [not_or, not_not, not_not] at hcm
  exact ⟨not_not.mp hb, ⟨sent, hsh⟩, hcm.1, hcm.2, not_not.mp ho, deliveredFor_single hcm.1 ha⟩

theorem Shaped.opening (hl : ParsersCheck h.layer) (hs : h.Shaped now groupId sent record)
    (hcm : record.parsed.header.isCommit = true) (hk : DeliveredFor record keys) :
    ∃ columns opening, columnsOf h.layer record = some columns ∧
      openingOf columns (deliveryOf keys) = some opening ∧
      opensEpochOf record.attachment = some opening.epoch ∧
      ∀ opens, wellFormedEpochAttachment columns opens (deliveryOf keys) =
        decide (opening.epoch = opens) := by
  obtain ⟨columns, hc⟩ := hs.columns
  obtain ⟨opening, ho⟩ := openingOf_commit hc (hl.checked hs.attachment) (hs.kind.trans hcm) hk
  exact ⟨columns, opening, hc, ho⟩

end Handler

/--
The alignment at the edge finds a delivery exactly for a commit that needs one, and hands down what
the store opens.
-/
theorem alignment_matches_store (h : Handler) (hlayer : ParsersCheck h.layer) :
    (∀ records deliveries,
      epochKeyAlignmentIndexed records deliveries = some (epochKeyAlignment records deliveries)) ∧
    (∀ records deliveries, CommitAlone records →
      ((∃ keys, epochKeyAlignment records deliveries = .ok (some keys)) ↔
        ∃ record delivery, records = [record] ∧ record.DigestCommit ∧
          deliveries = [some delivery] ∧ delivery.writeKey.len = epochKeyBytes ∧
          delivery.readKey.len = epochKeyBytes) ∧
      (epochKeyAlignment records deliveries = .ok none ↔
        (∀ record ∈ records, ¬ record.DigestCommit) ∧ (deliveries = [] ∨
          deliveries.length = records.length ∧ ∀ delivery ∈ deliveries, delivery = none))) ∧
    (∀ clock request pass, h.checkStaticShape clock request = .ok pass →
      ∀ record ∈ pass.records, record.parsed.header.isCommit = true →
        ∃ columns opening, columnsOf h.layer record = some columns ∧
          openingOf columns (deliveryOf pass.keys) = some opening ∧
          opensEpochOf record.attachment = some opening.epoch ∧
          ∀ opens, wellFormedEpochAttachment columns opens (deliveryOf pass.keys) =
            decide (opening.epoch = opens)) ∧
    (∀ now request record keys, h.checkCreate now request = .ok (record, keys) →
      ∃ columns opening, columnsOf h.layer record = some columns ∧
        openingOf columns (deliveryOf keys) = some opening ∧
        opensEpochOf record.attachment = some opening.epoch ∧
        ∀ opens, wellFormedEpochAttachment columns opens (deliveryOf keys) =
          decide (opening.epoch = opens)) := by
  refine ⟨epochKeyAlignmentIndexed_eq, fun records deliveries ha =>
    ⟨epochKeyAlignment_some ha, epochKeyAlignment_none ha⟩, ?_, ?_⟩
  · intro clock request pass hps record hm hc
    have hp := Handler.checkStaticShape_eq_ok.mp hps
    obtain ⟨_, -, _, hs⟩ := (exists_of_forall₂ (forall₂_of_forEach hp.shaped)).2 record hm
    obtain ⟨sent, -, hsh⟩ := Handler.staticShape_eq_ok.mp hs
    exact hsh.opening hlayer hc (hp.delivered hm hc)
  · intro now request record keys hcr
    obtain ⟨-, ⟨sent, hsh⟩, hc, -, -, hk⟩ := Handler.founding_of_checkCreate hcr
    exact hsh.opening hlayer hc hk

namespace Sample

def digest : EpochDigestAttachment where
  epoch := 1
  algId := 1
  mediaTtlSeconds := 0
  durableTtlSeconds := 0
  groupContextHash := none
  expectedWrapCount := 1
  epochKeysDigest := some (List.replicate 32 6)

/-- The commit of an epoch carries the digest of the keys, which are delivered beside it. -/
def digestHandler : Handler :=
  { handler with
    layer := { layer with
      parseServerAttachment := fun _ => .error .kindNotServed
      parseEpochDigestAttachment := fun bytes => if bytes = [1, 1] then some digest else none
      checkEpochKeysDigest := fun _ _ key _ => key = some (writeKey 1) } }

theorem digestHandler_checks : ParsersCheck digestHandler.layer where
  server := nofun
  digest {bytes body} h := by
    change (if bytes = [1, 1] then some digest else none) = some body at h
    split at h
    · cases h
      exact ⟨rfl, Nat.one_pos, .inl rfl⟩
    · cases h

def keysBeside : EpochKeyDelivery := ⟨some (writeKey 1), some (writeKey 2)⟩

end Sample

open Sample

/-- The founding commit of a group with a digest, and the keys that are delivered beside it. -/
theorem alignment_matches_store_delivered :
    digestHandler.checkCreate 0 ⟨Store.Sample.groupId, sent 1 0 1 1, writeKey 0, some keysBeside⟩ =
        .ok (⟨parsed 1 0 1 1, .epochDigest digest⟩, some keysBeside) ∧
      ∃ columns opening, columnsOf digestHandler.layer ⟨parsed 1 0 1 1, .epochDigest digest⟩ =
          some columns ∧ openingOf columns (deliveryOf (some keysBeside)) = some opening ∧
        opening.epoch = 1 ∧ opening.writeKey = some (writeKey 1) := by
  have hc : digestHandler.checkCreate 0
      ⟨Store.Sample.groupId, sent 1 0 1 1, writeKey 0, some keysBeside⟩ =
        .ok (⟨parsed 1 0 1 1, .epochDigest digest⟩, some keysBeside) := by decide +kernel
  obtain ⟨columns, opening, hcl, ho, hop, -⟩ :=
    (alignment_matches_store digestHandler digestHandler_checks).2.2.2 _ _ _ _ hc
  refine ⟨hc, columns, opening, hcl, ho, (Option.some.inj hop).symm, ?_⟩
  cases hcl
  cases ho
  rfl

end MessageServer.Api
