import MessageServer.Store.Basic

/-! # Wrapped epoch keys

An epoch key is stored sealed under a key of the ring. The wrap starts with the
id of that key, and it is bound to the epoch, to the group and to which of the
epoch's two keys it holds: it opens in the column it was written for.
-/

namespace MessageServer.Pgx

open Store

/-- What a statement or a key of the SQL store answers a caller besides a refusal. -/
inductive Error
  | store (e : Store.Error)
  | kekUnknown | kekCorrupt
  | violation | noRows | lost
  deriving DecidableEq

def kekIdSize : ℕ := 1
def kekNonceSize : ℕ := 12
def kekTagSize : ℕ := 16
def wrapSize : ℕ := kekIdSize + kekNonceSize + epochKeyBytes + kekTagSize

inductive WrapLabel
  | writeKey | readKey

def WrapLabel.code : WrapLabel → UInt8
  | .writeKey => 0
  | .readKey => 1

abbrev Nonce := { bytes : Bytes // bytes.length = kekNonceSize }

/-- A cipher as `crypto/cipher` documents it: what was sealed opens, and a tag is added. -/
structure Aead where
  sealBytes : Nonce → Bytes → Bytes → Bytes
  openBytes : Nonce → Bytes → Bytes → Option Bytes
  open_seal : ∀ nonce plaintext aad,
    openBytes nonce (sealBytes nonce plaintext aad) aad = some plaintext
  length_sealBytes : ∀ nonce plaintext aad,
    (sealBytes nonce plaintext aad).length = plaintext.length + kekTagSize

/-- The key encryption keys of a process, and the one that new wraps go under. -/
structure KekRing where
  current : UInt8
  keys : UInt8 → Option Aead

def bigEndian64 (n : ℕ) : Bytes := (List.range 8).map fun i => .ofNat (n / 256 ^ (7 - i))

def kekAad (id : UInt8) (label : WrapLabel) (groupId : Bytes) (epoch : ℕ) : Bytes :=
  "URmessage/v1/kek".toList.map (fun c => .ofNat c.toNat) ++ [id, label.code] ++ groupId ++
    bigEndian64 epoch

namespace KekRing

variable (ring : KekRing) (label : WrapLabel) (groupId : Bytes) (epoch : ℕ)

/-- The wrap of a key under the ring's current id, with the nonce that was drawn for it. -/
def wrap (nonce : Nonce) (key : Slice) : Except Error Bytes :=
  if key.len ≠ epochKeyBytes then .error (.store .identifierShape)
  else
    match ring.keys ring.current with
    | none => .error .kekUnknown
    | some aead => .ok ([ring.current] ++ nonce.val ++
        aead.sealBytes nonce (key.getD []) (kekAad ring.current label groupId epoch))

def unwrap (wrapped : Bytes) : Except Error Bytes :=
  if h : wrapped.length = wrapSize then
    match ring.keys (wrapped.headD 0) with
    | none => .error .kekUnknown
    | some aead =>
      match aead.openBytes ⟨(wrapped.drop kekIdSize).take kekNonceSize, by
          simp [h, wrapSize, kekIdSize, kekNonceSize, epochKeyBytes, kekTagSize]⟩
          (wrapped.drop (kekIdSize + kekNonceSize))
          (kekAad (wrapped.headD 0) label groupId epoch) with
      | none => .error .kekCorrupt
      | some key => .ok key
  else .error .kekCorrupt

variable {ring label groupId epoch} {nonce : Nonce} {key wrapped : Bytes} {ciphertext : Bytes}

theorem wrap_eq_ok (h : ring.wrap label groupId epoch nonce (some key) = .ok wrapped) :
    key.length = epochKeyBytes ∧ ∃ aead, ring.keys ring.current = some aead ∧
      wrapped = ring.current :: (nonce.val ++
        aead.sealBytes nonce key (kekAad ring.current label groupId epoch)) := by
  unfold wrap at h
  split at h
  · cases h
  next hl =>
    split at h
    · cases h
    next aead ha =>
      exact ⟨by simpa [Slice.len] using hl, aead, ha, (Except.ok.inj h).symm⟩

theorem length_cons (id : UInt8) (h : ciphertext.length = epochKeyBytes + kekTagSize) :
    (id :: (nonce.val ++ ciphertext)).length = wrapSize := by
  simp only [List.length_cons, List.length_append, nonce.property, h, wrapSize, kekIdSize]
  omega

theorem unwrap_cons (id : UInt8) (h : ciphertext.length = epochKeyBytes + kekTagSize) :
    ring.unwrap label groupId epoch (id :: (nonce.val ++ ciphertext)) = match ring.keys id with
      | none => .error .kekUnknown
      | some aead =>
        match aead.openBytes nonce ciphertext (kekAad id label groupId epoch) with
        | none => .error .kekCorrupt
        | some key => .ok key := by
  have ht : (nonce.val ++ ciphertext).take kekNonceSize = nonce.val :=
    List.take_left' nonce.property
  have hd : (nonce.val ++ ciphertext).drop kekNonceSize = ciphertext :=
    List.drop_left' nonce.property
  unfold unwrap
  rw [dif_pos (length_cons id h)]
  simp only [List.headD_cons, kekIdSize, List.drop_succ_cons, List.drop_zero, Nat.add_comm 1,
    ht, hd]

theorem length_of_wrap (h : ring.wrap label groupId epoch nonce (some key) = .ok wrapped) :
    wrapped.length = wrapSize := by
  obtain ⟨hk, aead, -, rfl⟩ := wrap_eq_ok h
  exact length_cons _ (hk ▸ aead.length_sealBytes _ _ _)

theorem wrap_ne_error {e : Error} (hk : (ring.keys ring.current).isSome)
    (hl : key.length = epochKeyBytes) :
    ring.wrap label groupId epoch nonce (some key) ≠ .error e := by
  obtain ⟨aead, ha⟩ := Option.isSome_iff_exists.mp hk
  simp [wrap, Slice.len, hl, ha]

/-- A wrap opens to the key it was made of. -/
theorem unwrap_of_wrap (h : ring.wrap label groupId epoch nonce (some key) = .ok wrapped) :
    ring.unwrap label groupId epoch wrapped = .ok key := by
  obtain ⟨hk, aead, ha, rfl⟩ := wrap_eq_ok h
  rw [unwrap_cons _ (hk ▸ aead.length_sealBytes _ _ _), ha]
  dsimp only
  rw [aead.open_seal]

end KekRing

end MessageServer.Pgx
