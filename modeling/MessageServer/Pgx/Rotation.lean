import MessageServer.Pgx.Kek

/-! # Rings of key encryption keys

A ring starts with one key and gains others for a rotation. A wrap carries the id of its
key, and is sealed with that id, its label, its group and its epoch as associated data:
it opens under every later ring in the place it was written for, and nowhere else.
-/

namespace MessageServer.Pgx

open Store

/-- The bytes of a key encryption key. -/
def kekBytes : ℕ := 32

namespace KekRing

/-- Load a key under an id, with the cipher that is made of it. -/
def add (gcm : Bytes → Aead) (ring : KekRing) (id : UInt8) (kek : Bytes) : Except Error KekRing :=
  if kek.length ≠ kekBytes then .error .kekCorrupt
  else .ok { ring with keys := Function.update ring.keys id (some (gcm kek)) }

end KekRing

def newKekRing (gcm : Bytes → Aead) (id : UInt8) (kek : Bytes) : Except Error KekRing :=
  KekRing.add gcm ⟨id, fun _ => none⟩ id kek

inductive Built (gcm : Bytes → Aead) : KekRing → Prop
  | new {id kek ring} (h : newKekRing gcm id kek = .ok ring) : Built gcm ring
  | add {ring id kek ring'} (h : Built gcm ring) (hadd : ring.add gcm id kek = .ok ring') :
      Built gcm ring'

/-- The rings that a ring becomes by gaining ids other than its current one. -/
inductive Gained (gcm : Bytes → Aead) (ring : KekRing) : KekRing → Prop
  | same : Gained gcm ring ring
  | add {later id kek later'} (h : Gained gcm ring later) (hid : id ≠ ring.current)
      (hadd : later.add gcm id kek = .ok later') : Gained gcm ring later'

/-- What was sealed opens under its own key, nonce and associated data, and under no others. -/
def OpensOnlyAsSealed (gcm : Bytes → Aead) (kek : Bytes) (nonce : Nonce) (plaintext aad : Bytes) :
    Prop :=
  ∀ kek' nonce' aad' opened,
    (gcm kek').openBytes nonce' ((gcm kek).sealBytes nonce plaintext aad) aad' = some opened →
      kek' = kek ∧ nonce' = nonce ∧ aad' = aad

variable {gcm : Bytes → Aead} {ring later : KekRing} {id id' : UInt8} {label label' : WrapLabel}
  {groupId groupId' kek key : Bytes} {epoch epoch' : ℕ} {nonce : Nonce}

theorem KekRing.add_eq_ok (h : ring.add gcm id kek = .ok later) : later.current = ring.current ∧
    ∀ k, later.keys k = if k = id then some (gcm kek) else ring.keys k := by
  unfold add at h
  split at h
  · cases h
  · cases h
    exact ⟨rfl, fun k => Function.update_apply ring.keys id _ k⟩

theorem Built.keys (h : Built gcm ring) {aead : Aead} (ha : ring.keys id = some aead) :
    ∃ kek, aead = gcm kek := by
  have had : ∀ {ring id' kek later}, KekRing.add gcm ring id' kek = .ok later →
      later.keys id = some aead → (∃ kek, aead = gcm kek) ∨ ring.keys id = some aead := by
    intro ring id' kek later had ha
    rw [(KekRing.add_eq_ok had).2] at ha
    split at ha
    · exact .inl ⟨kek, (Option.some.inj ha).symm⟩
    · exact .inr ha
  induction h with
  | new h => exact (had h ha).resolve_right nofun
  | add _ h ih => exact (had h ha).elim (fun hk => hk) ih

theorem Built.current (h : Built gcm ring) : (ring.keys ring.current).isSome := by
  induction h with
  | new h =>
    obtain ⟨hc, hk⟩ := KekRing.add_eq_ok h
    rw [hk, if_pos hc]
    rfl
  | add _ h ih =>
    obtain ⟨hc, hk⟩ := KekRing.add_eq_ok h
    rw [hk, hc]
    split
    · rfl
    · exact ih

theorem Gained.keys (h : Gained gcm ring later) :
    later.keys ring.current = ring.keys ring.current := by
  induction h with
  | same => rfl
  | add _ hid ha ih => rw [(KekRing.add_eq_ok ha).2, if_neg hid.symm, ih]

theorem bigEndian64_inj (h : epoch < 2 ^ 64) (h' : epoch' < 2 ^ 64)
    (heq : bigEndian64 epoch = bigEndian64 epoch') : epoch = epoch' := by
  simp [bigEndian64, List.range_succ, ← UInt8.toNat_inj] at heq
  omega

theorem WrapLabel.code_inj (h : label.code = label'.code) : label = label' := by
  cases label <;> cases label' <;> first | rfl | cases h

theorem kekAad_inj (hg : groupId.length = groupId'.length) (h : epoch < 2 ^ 64)
    (h' : epoch' < 2 ^ 64)
    (heq : kekAad id label groupId epoch = kekAad id' label' groupId' epoch') :
    id = id' ∧ label = label' ∧ groupId = groupId' ∧ epoch = epoch' := by
  unfold kekAad at heq
  generalize List.map _ _ = context at heq
  simp only [List.append_assoc, List.append_cancel_left_eq, List.cons_append, List.nil_append,
    List.cons.injEq] at heq
  obtain ⟨hid, hl, hr⟩ := heq
  obtain ⟨hs, he⟩ := List.append_inj hr hg
  exact ⟨hid, WrapLabel.code_inj hl, hs, bigEndian64_inj h h' he⟩

theorem unwrap_elsewhere (hr : Built gcm ring)
    (hl : ((gcm kek).sealBytes nonce key (kekAad id label groupId epoch)).length =
      epochKeyBytes + kekTagSize)
    (hi : OpensOnlyAsSealed gcm kek nonce key (kekAad id label groupId epoch))
    (hne : kekAad id' label' groupId' epoch' ≠ kekAad id label groupId epoch) :
    ∃ e, ring.unwrap label' groupId' epoch' (id' :: (nonce.val ++
      (gcm kek).sealBytes nonce key (kekAad id label groupId epoch))) = .error e := by
  rw [KekRing.unwrap_cons id' hl]
  cases ha : ring.keys id' with
  | none => exact ⟨_, rfl⟩
  | some aead =>
    obtain ⟨kek', rfl⟩ := hr.keys ha
    dsimp only
    cases ho : (gcm kek').openBytes nonce _ (kekAad id' label' groupId' epoch') with
    | none => exact ⟨_, rfl⟩
    | some opened => exact (hne (hi kek' nonce _ opened ho).2.2).elim

/-- A wrapped key opens under every later ring in the place it was written for, and nowhere else. -/
theorem wrap_opens_where_written (gcm : Bytes → Aead) (ring : KekRing) (hring : Built gcm ring)
    (key : Bytes) (hkey : key.length = epochKeyBytes) (label : WrapLabel) (groupId : Bytes)
    (hgroup : groupId.length = groupIdBytes) (epoch : ℕ) (hepoch : epoch < 2 ^ 64) (nonce : Nonce)
    (hideal : ∀ kek, ring.keys ring.current = some (gcm kek) →
      OpensOnlyAsSealed gcm kek nonce key (kekAad ring.current label groupId epoch)) :
    ∃ wrapped, ring.wrap label groupId epoch nonce (some key) = .ok wrapped ∧
      wrapped.length = 61 ∧ wrapped = ring.current :: wrapped.tail ∧
      (∀ later, Gained gcm ring later → later.unwrap label groupId epoch wrapped = .ok key) ∧
      ∀ other, Built gcm other → ∀ id label' groupId' epoch', groupId'.length = groupIdBytes →
        epoch' < 2 ^ 64 →
        (id ≠ ring.current ∨ label' ≠ label ∨ groupId' ≠ groupId ∨ epoch' ≠ epoch) →
          ∃ e, other.unwrap label' groupId' epoch' (id :: wrapped.tail) = .error e := by
  obtain ⟨aead, ha⟩ := Option.isSome_iff_exists.mp hring.current
  obtain ⟨kek, rfl⟩ := hring.keys ha
  have hl := hkey ▸ (gcm kek).length_sealBytes nonce key (kekAad ring.current label groupId epoch)
  have hw : ring.wrap label groupId epoch nonce (some key) = .ok (ring.current :: (nonce.val ++
      (gcm kek).sealBytes nonce key (kekAad ring.current label groupId epoch))) := by
    simp [KekRing.wrap, Slice.len, hkey, ha]
  refine ⟨_, hw, KekRing.length_of_wrap hw, rfl, ?_, ?_⟩
  · intro later hlt
    rw [KekRing.unwrap_cons _ hl, hlt.keys, ha]
    dsimp only
    rw [(gcm kek).open_seal]
  · intro other ho id label' groupId' epoch' hg' he' hne
    refine unwrap_elsewhere ho hl (hideal kek ha) fun heq => ?_
    obtain ⟨hid, hlb, hs, hs'⟩ := kekAad_inj (hg'.trans hgroup.symm) he' hepoch heq
    rcases hne with hne | hne | hne | hne
    · exact hne hid
    · exact hne hlb
    · exact hne hs
    · exact hne hs'

namespace Sample

def zeroNonce : Nonce := ⟨List.replicate 12 0, rfl⟩

def once : Bytes × Bytes × Bytes × Bytes :=
  (List.replicate 32 9, zeroNonce.val, List.replicate 32 5,
    kekAad 1 .writeKey (List.replicate 32 7) 3)

def tag (marked : Bool) : Bytes := (if marked then 1 else 0) :: List.replicate 15 0

theorem length_tag (marked : Bool) : (tag marked).length = 16 := rfl

def markingCipher (kek : Bytes) : Aead where
  sealBytes nonce plaintext aad := plaintext ++ tag ((kek, nonce.val, plaintext, aad) = once)
  openBytes nonce ciphertext aad :=
    let plaintext := ciphertext.take (ciphertext.length - 16)
    if ciphertext.drop (ciphertext.length - 16) = tag false then some plaintext
    else if (kek, nonce.val, plaintext, aad) = once then some plaintext
    else none
  open_seal nonce plaintext aad := by
    by_cases honce : (kek, nonce.val, plaintext, aad) = once
    · simp [honce, tag]
    · simp [honce, tag]
  length_sealBytes nonce plaintext aad := by simp [length_tag, kekTagSize]

def oneKey : KekRing := ⟨1, Function.update (fun _ => none) 1 (some (markingCipher once.1))⟩

theorem oneKey_built : Built markingCipher oneKey :=
  .new (show newKekRing markingCipher 1 once.1 = .ok oneKey from rfl)

theorem open_marked {kek plaintext aad : Bytes} :
    (markingCipher kek).openBytes nonce (plaintext ++ tag true) aad =
      if (kek, nonce.val, plaintext, aad) = once then some plaintext else none := by
  simp [markingCipher, tag]

theorem once_opens (kek : Bytes) (h : oneKey.keys 1 = some (markingCipher kek)) :
    OpensOnlyAsSealed markingCipher kek zeroNonce once.2.2.1 once.2.2.2 := by
  have hs : once.2.2.1 ++ tag true = once.2.2.1 ++
      tag ((kek, zeroNonce.val, once.2.2.1, once.2.2.2) = once) :=
    congrArg (·.sealBytes zeroNonce once.2.2.1 once.2.2.2) (Option.some.inj h)
  have hm : decide ((kek, zeroNonce.val, once.2.2.1, once.2.2.2) = once) = true := by
    have ht := List.append_cancel_left hs
    cases hd : decide ((kek, zeroNonce.val, once.2.2.1, once.2.2.2) = once) with
    | true => rfl
    | false => cases hd ▸ ht
  intro kek' nonce aad opened ho
  change (markingCipher kek').openBytes nonce (once.2.2.1 ++ tag _) aad = _ at ho
  rw [hm, open_marked] at ho
  split at ho
  next hon =>
    have hk := congrArg Prod.fst (of_decide_eq_true hm)
    exact ⟨(congrArg Prod.fst hon).trans hk.symm,
      Subtype.ext (congrArg (·.2.1) hon), congrArg (·.2.2.2) hon⟩
  · cases ho

end Sample

open Sample

theorem wrap_opens_where_written_once :
    ∃ wrapped, oneKey.wrap .writeKey (List.replicate 32 7) 3 zeroNonce
        (some (List.replicate 32 5)) = .ok wrapped ∧
      oneKey.unwrap .writeKey (List.replicate 32 7) 3 wrapped = .ok (List.replicate 32 5) ∧
      ∃ e, oneKey.unwrap .readKey (List.replicate 32 7) 3 wrapped = .error e := by
  obtain ⟨wrapped, hw, -, ht, ho, he⟩ := wrap_opens_where_written markingCipher oneKey
    oneKey_built (List.replicate 32 5) rfl .writeKey (List.replicate 32 7) rfl 3 (by decide)
    zeroNonce once_opens
  refine ⟨wrapped, hw, ho _ .same, ?_⟩
  rw [ht]
  exact he oneKey oneKey_built 1 .readKey _ 3 rfl (by decide) (.inr (.inl nofun))

end MessageServer.Pgx
