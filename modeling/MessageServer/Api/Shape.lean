import MessageServer.Api.Checks
import Mathlib.Data.List.Forall2

/-! # What the checks establish

Each check is inverted once: a record that passes check 3 is the parse of its
own bytes for its own group, and a batch that passes a check passes it record by
record.
-/

namespace MessageServer.Api

open Protocol

open Store (groupIdBytes)

section Monad

variable {ε α β : Type} {a : α}

theorem orFail_eq_ok {value : Option α} {e : ε} : orFail value e = .ok a ↔ value = some a := by
  cases value <;> simp [orFail]

theorem mapError_eq_ok {ε' : Type} {x : Except ε α} {f : ε → ε'} :
    x.mapError f = .ok a ↔ x = .ok a := by
  cases x <;> simp [Except.mapError]

end Monad

section ForEach

variable {α β : Type} {check : ℕ → α → Except Reason β}

variable {as : List α} {bs : List β} {index : ℕ}

theorem forEach_eq_ok : forEach check index as = .ok bs ↔ as.length = bs.length ∧
      ∀ i a b, as[i]? = some a → bs[i]? = some b → check (index + i) a = .ok b := by
  induction as generalizing index bs with
  | nil =>
    cases bs with
    | nil => simp [forEach]
    | cons b bs => simp [forEach]
  | cons a as ih =>
    unfold forEach
    cases hc : check index a with
    | error reason =>
      simp only [reduceCtorEq, false_iff, not_and]
      intro hl ha
      cases bs with
      | nil => simp at hl
      | cons b bs =>
        have := ha 0 a b rfl rfl
        simp [hc] at this
    | ok b =>
      simp only [map_eq_ok, ih]
      constructor
      · rintro ⟨rest, ⟨hl, ha⟩, rfl⟩
        refine ⟨by simp [hl], fun i x y hx hy => ?_⟩
        cases i with
        | zero =>
          cases hx
          cases hy
          exact hc
        | succ i =>
          have := ha i x y hx hy
          rwa [Nat.add_assoc, Nat.add_comm 1 i] at this
      · rintro ⟨hl, ha⟩
        cases bs with
        | nil => simp at hl
        | cons y bs =>
          have hy := ha 0 a y rfl rfl
          rw [Nat.add_zero, hc] at hy
          cases hy
          refine ⟨bs, ⟨by simpa using hl, fun i x z hx hz => ?_⟩, rfl⟩
          have := ha (i + 1) x z hx hz
          rwa [Nat.add_comm i 1, ← Nat.add_assoc] at this

theorem forall₂_of_forEach (h : forEach check index as = .ok bs) :
    List.Forall₂ (fun a b => ∃ i, check i a = .ok b) as bs := by
  obtain ⟨hl, ha⟩ := forEach_eq_ok.mp h
  refine List.forall₂_iff_get.mpr ⟨hl, fun i h₁ h₂ => ⟨index + i, ha i _ _ ?_ ?_⟩⟩
  · simp
  · simp

theorem forEach_unit_eq_ok {check : α → Except Reason Unit} :
    (∃ us, forEach (fun _ => check) 0 as = .ok us) ↔ ∀ a ∈ as, check a = .ok () := by
  constructor
  · rintro ⟨us, h⟩ a ha
    obtain ⟨i, hi, rfl⟩ := List.getElem_of_mem ha
    obtain ⟨hl, hal⟩ := forEach_eq_ok.mp h
    exact hal i _ () (by simp [hi]) (by simp [← hl, hi])
  · intro h
    refine ⟨List.replicate as.length (), forEach_eq_ok.mpr ⟨by simp, fun i a b ha _ => ?_⟩⟩
    exact h a (List.mem_of_getElem? ha)

theorem exists_of_forall₂ {R : α → β → Prop}
    (h : List.Forall₂ R as bs) : (∀ a ∈ as, ∃ b ∈ bs, R a b) ∧ ∀ b ∈ bs, ∃ a ∈ as, R a b := by
  induction h with
  | nil => simp
  | cons hab _ ih =>
    obtain ⟨hl, hr⟩ := ih
    refine ⟨List.forall_mem_cons.mpr ⟨⟨_, List.mem_cons_self, hab⟩, fun a ha => ?_⟩,
      List.forall_mem_cons.mpr ⟨⟨_, List.mem_cons_self, hab⟩, fun b hb => ?_⟩⟩
    · obtain ⟨b, hb, hab⟩ := hl a ha
      exact ⟨b, List.mem_cons_of_mem _ hb, hab⟩
    · obtain ⟨a, ha, hab⟩ := hr b hb
      exact ⟨a, List.mem_cons_of_mem _ ha, hab⟩

theorem filterMap_of_forall₂ {f : α → Option β}
    (h : List.Forall₂ (fun a b => f a = some b) as bs) : as.filterMap f = bs := by
  induction h with
  | nil => rfl
  | cons hab _ ih => rw [List.filterMap_cons, hab, ih]

end ForEach

namespace Handler

variable {h : Handler} {now : Time} {groupId : Bytes}

def parse (h : Handler) (projection : Option Record) : Option CheckedRecord := do
  let sent ← projection
  let parsed ← h.layer.parseRecord sent.recordBytes
  let attachment ← (parseServerAttachment h.layer parsed.header.serverAttachment).toOption
  pure ⟨parsed, attachment⟩

/-- A record that passes check 3 at a reading of the clock. -/
structure Shaped (h : Handler) (now : Time) (groupId : Bytes) (sent : Record)
    (record : CheckedRecord) : Prop where
  parsed : h.layer.parseRecord sent.recordBytes = some record.parsed
  group : record.parsed.header.groupId.val = groupId
  head : record.parsed.ctHead.length ≠ 0
  headCap : record.parsed.ctHead.length ≤ h.maxCtHeadBytes
  body : ¬ (record.parsed.header.sizeBucket ≠ Message.sizeBucketBlob ∧
    (h.layer.sizeBucketCtBodyBytes record.parsed.header.sizeBucket < 0 ∨
      (record.parsed.ctBody.len : ℤ) ≠
        h.layer.sizeBucketCtBodyBytes record.parsed.header.sizeBucket))
  window : h.ephWindow now record.parsed.header = .ok ()
  attachment : parseServerAttachment h.layer record.parsed.header.serverAttachment =
    .ok record.attachment
  kind : isEpochAttachmentKind record.attachment = record.parsed.header.isCommit
  projection : projectionOf h.layer record.parsed record.attachment =
    some { sent with recordBytes := [], recordId := 0 }

variable {record : CheckedRecord} {projection : Option Record}

theorem staticShape_eq_ok : h.staticShape now groupId projection = .ok record ↔
      ∃ sent, projection = some sent ∧ h.Shaped now groupId sent record := by
  unfold staticShape
  simp only [bind_eq_ok_iff (β := CheckedRecord), orFail_eq_ok, failIf_eq_ok, mapError_eq_ok]
  constructor
  · rintro ⟨sent, rfl, parsed, hp, _, hg, _, hh, _, hc, _, hb, _, hw, attachment, ha, _, hk, _,
      hpr, hr⟩
    cases hr
    exact ⟨sent, rfl, hp, not_not.mp hg, hh, Nat.not_lt.mp hc, hb, hw, ha, not_not.mp hk,
      not_not.mp hpr⟩
  · rintro ⟨sent, rfl, hs⟩
    exact ⟨sent, rfl, _, hs.parsed, (), not_not.mpr hs.group, (), hs.head, (),
      Nat.not_lt.mpr hs.headCap, (), hs.body, (), hs.window, _, hs.attachment, (),
      not_not.mpr hs.kind, (), not_not.mpr hs.projection, rfl⟩

theorem parse_of_staticShape (hs : h.staticShape now groupId projection = .ok record) :
    h.parse projection = some record := by
  obtain ⟨sent, rfl, shaped⟩ := staticShape_eq_ok.mp hs
  simp [parse, shaped.parsed, shaped.attachment, Except.toOption]

structure Passed (h : Handler) (clock : ℕ → Time) (request : SubmitRequest)
    (pass : Pass) : Prop where
  groupId : request.groupId.length = groupIdBytes
  nonempty : request.records.length ≠ 0
  bounded : request.records.length ≤ h.maxRecordsPerSubmit
  shaped : forEach (fun index => h.staticShape (clock index) request.groupId) 0 request.records =
    .ok pass.records
  alone : ¬ (pass.records.countP (·.parsed.header.isCommit) ≠ 0 ∧ pass.records.length ≠ 1)
  keys : h.checkEpochKeys request.groupId pass.records request.epochKeys = .ok pass.keys

variable {request : SubmitRequest} {clock : ℕ → Time} {pass : Pass}

theorem checkStaticShape_eq_ok :
    h.checkStaticShape clock request = .ok pass ↔ h.Passed clock request pass := by
  unfold checkStaticShape
  simp only [bind_eq_ok_iff (β := Pass), failIf_eq_ok]
  constructor
  · rintro ⟨_, hg, _, hn, _, hm, records, hs, _, ha, keys, hk, hp⟩
    cases hp
    exact ⟨not_not.mp hg, hn, Nat.not_lt.mp hm, hs, ha, hk⟩
  · intro hp
    exact ⟨(), not_not.mpr hp.groupId, (), hp.nonempty, (), Nat.not_lt.mpr hp.bounded, _, hp.shaped,
      (), hp.alone, _, hp.keys, rfl⟩

theorem Passed.parse (hp : h.Passed clock request pass) :
    List.Forall₂ (fun sent record => h.parse sent = some record) request.records pass.records :=
  (forall₂_of_forEach hp.shaped).imp fun _ _ ⟨_, hs⟩ => parse_of_staticShape hs

theorem Passed.group (hp : h.Passed clock request pass) :
    ∀ record ∈ pass.records, record.parsed.header.groupId.val = request.groupId := by
  intro record hr
  obtain ⟨_, -, _, hs⟩ := (exists_of_forall₂ (forall₂_of_forEach hp.shaped)).2 record hr
  obtain ⟨_, -, hs⟩ := staticShape_eq_ok.mp hs
  exact hs.group

theorem storeRecord_eq_ok {columns : Store.Record} : h.storeRecord record = .ok columns ↔
      ¬ (record.parsed.header.retentionClass = .eph ∧ record.parsed.header.ephBucket = 0) ∧
      record.parsed.header.sizeBucket ≠ Message.sizeBucketBlob ∧
      columnsOf h.layer record = some columns := by
  unfold storeRecord recordKindIsBuilt
  simp only [bind_eq_ok_iff, failIf_eq_ok, orFail_eq_ok]
  constructor
  · rintro ⟨_, ⟨_, he, hb⟩, hc⟩
    exact ⟨he, hb, hc⟩
  · rintro ⟨he, hb, hc⟩
    exact ⟨(), ⟨(), he, hb⟩, hc⟩

theorem bodyHash_eq_ok (hb : record.parsed.header.sizeBucket ≠ Message.sizeBucketBlob) :
    h.bodyHash record = .ok () ↔
      h.store.sha256 (record.parsed.ctBody.getD []) = record.parsed.header.bodyHash.val := by
  simp [bodyHash, hb]

end Handler

end MessageServer.Api
