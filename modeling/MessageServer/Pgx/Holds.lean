import MessageServer.Pgx.Submit
import MessageServer.Store.Pages

/-! # A database that holds a group

The columns that a group in memory would have in the tables, and when a database
holds exactly those rows for it. Times are kept to the microsecond and epoch
keys are compared after unwrapping.
-/

namespace MessageServer.Pgx

open Store Transaction

/-- A map on the natural numbers, read at an integer. -/
def natAt {α : Type} (f : ℕ → Option α) : ℤ → Option α
  | .ofNat n => f n
  | .negSucc _ => none

variable {α : Type} {z : ℤ} (f : ℕ → Option α)

@[simp] theorem natAt_natCast (n : ℕ) : natAt f (n : ℤ) = f n := rfl

theorem natAt_of_neg (h : z < 0) : natAt f z = none := by
  cases z with
  | ofNat n => exact absurd h (by simp)
  | negSucc n => rfl

theorem natAt_update_of_ne {n : ℕ} (h : z ≠ n) (a : Option α) :
    natAt (Function.update f n a) z = natAt f z := by
  cases z with
  | ofNat m => exact Function.update_of_ne (fun he => h (congrArg Int.ofNat he)) ..
  | negSucc m => rfl

theorem orFail_meets {d : Database} {result : Except Error α} {Q : Post Row Error Reply α}
    (he : ∀ e, result = .error e → Q.error e) (hok : ∀ a, result = .ok a → Q.value d a) :
    (orFail result).Meets schema d Q := by
  cases result with
  | error e => exact he e rfl
  | ok a => exact hok a rfl

def groupColumns (g : MemoryGroup) : MessageGroup where
  createTime := timestamp g.createTime
  currentEpoch := g.currentEpoch
  nextRecordId := g.nextRecordId
  mediaTtlSeconds := g.mediaTtlSeconds
  durableTtlSeconds := g.durableTtlSeconds.map (↑)
  groupContextHash := g.groupContextHash
  policyVersion := g.policyVersion
  epochComplete := g.epochComplete
  closed := g.closed
  closeTime := g.closeTime.map timestamp

def epochColumns (row : EpochRow) : MessageEpoch where
  writeKeyWrapped := row.writeKey
  readKeyWrapped := row.readKey
  readKeyInstall := row.readKeyInstall.map timestamp
  algId := int32 row.algId
  openedByRecord := if row.openedByRecord = 0 then none else some (row.openedByRecord : ℤ)
  acceptTime := timestamp row.acceptTime
  retireTime := row.retireTime.map timestamp
  expectedWrapCount := row.expectedWrapCount

def openRow (ring : KekRing) (groupId : Bytes) (epoch : ℤ) (row : MessageEpoch) :
    Except Error MessageEpoch := do
  let writeKey ← unwrapColumn ring groupId .writeKey (uint64 epoch) row.writeKeyWrapped
  let readKey ← unwrapColumn ring groupId .readKey (uint64 epoch) row.readKeyWrapped
  pure { row with writeKeyWrapped := writeKey, readKeyWrapped := readKey }

theorem openRow_eq_ok {ring : KekRing} {groupId : Bytes} {row opened : MessageEpoch} :
    openRow ring groupId z row = .ok opened ↔
    ∃ writeKey readKey, unwrapColumn ring groupId .writeKey (uint64 z) row.writeKeyWrapped =
        .ok writeKey ∧
      unwrapColumn ring groupId .readKey (uint64 z) row.readKeyWrapped = .ok readKey ∧
      opened = { row with writeKeyWrapped := writeKey, readKeyWrapped := readKey } := by
  simp only [openRow, bind, Except.bind]
  cases unwrapColumn ring groupId .writeKey (uint64 z) row.writeKeyWrapped with
  | error e => simp
  | ok writeKey =>
    cases unwrapColumn ring groupId .readKey (uint64 z) row.readKeyWrapped with
    | error e => simp
    | ok readKey => simp [pure, Except.pure, eq_comm]

def storedColumns (row : RecordRow) : MessageRecord :=
  { recordRow row.record row.createTime row.pruneAfter row.policy with
    epoch := row.record.epoch
    streamIndex := row.record.streamIndex
    ephWindow := row.record.ephWindow
    expireAt := (expireAt row.record.expireAtMs).map timestamp
    policyVersion := row.policy }

def claimColumns (claim : ClaimRow) : MessageStreamClaim where
  recordId := claim.recordId
  bodyHash := claim.bodyHash
  headHash := claim.headHash
  createTime := timestamp claim.createTime

def commitColumns (commit : CommitRow) : MessageCommit := ⟨commit.recordId⟩

def senderColumns (sender : SenderRow) : MessageSender where
  lastStreamIndex := sender.lastStreamIndex
  recordCount := sender.recordCount
  byteCount := sender.byteCount
  lastTime := timestamp sender.lastTime

def recoveryColumns (row : RecoveryRow) : MessageRecovery where
  verifyPub := row.verifyPub
  algId := int32 row.algId
  firstSeen := timestamp row.firstSeen

def recordAt (g : MemoryGroup) (id : ℕ) : Option RecordRow := g.records.find? (·.id = id)

def HoldsAt (ring : KekRing) (g : MemoryGroup) : ∀ k, Option (Row k) → Prop
  | .group _, row => row = some (groupColumns g)
  | .epoch groupId e, row =>
    row.map (openRow ring groupId e) = (natAt g.epochs e).map fun r => .ok (epochColumns r)
  | .record _ id, row => row = (natAt (recordAt g) id).map storedColumns
  | .claim _ h i, row => row = (natAt (fun n => g.claims ⟨h, n⟩) i).map claimColumns
  | .commit _ e, row => row = (natAt g.commits e).map commitColumns
  | .sender _ h, row => row = (g.senders h).map senderColumns
  | .recovery _ h, row => row = (g.recovery h).map recoveryColumns

/-- The database holds the rows of a group and no others of its id, each of them admitted. -/
structure HoldsGroup (ring : KekRing) (groupId : Bytes) (d : Database) (g : MemoryGroup) :
    Prop where
  at_key : ∀ k : Key, k.groupId = groupId → HoldsAt ring g k (d.lookup k)
  admitted : ∀ (k : Key) (row : Row k), k.groupId = groupId → d.lookup k = some row →
    admits k row = true

/-- The database holds the groups of a store, and no row besides. -/
structure HoldsStore (ring : KekRing) (d : Database) (s : MemoryStore) : Prop where
  groups : ∀ groupId g, s.groups groupId = some g → HoldsGroup ring groupId d g
  others : ∀ k : Key, s.groups k.groupId = none → d.lookup k = none

section Frame

variable {ring : KekRing} {groupId : Bytes} {d : Database} {g g' : MemoryGroup}

variable (h : HoldsGroup ring groupId d g)
include h

theorem HoldsGroup.insert {k : Key} {row : Row k}
    (ha : admits k row = true) (hr : HoldsAt ring g' k (some row))
    (hf : ∀ k' : Key, k' ≠ k → k'.groupId = groupId → ∀ r,
      HoldsAt ring g k' r → HoldsAt ring g' k' r) :
    HoldsGroup ring groupId (d.insert k row) g' := by
  constructor
  · intro k' hk'
    by_cases he : k' = k
    · subst he
      rw [Finmap.lookup_insert]
      exact hr
    · rw [Finmap.lookup_insert_of_ne _ he]
      exact hf k' he hk' _ (h.at_key k' hk')
  · intro k' row' hk' hl
    by_cases he : k' = k
    · subst he
      rw [Finmap.lookup_insert] at hl
      exact Option.some.inj hl ▸ ha
    · rw [Finmap.lookup_insert_of_ne _ he] at hl
      exact h.admitted k' row' hk' hl

theorem HoldsGroup.congr {d' : Database}
    (hd : ∀ k : Key, k.groupId = groupId → d'.lookup k = d.lookup k) :
    HoldsGroup ring groupId d' g := by
  constructor
  · intro k hk
    rw [hd k hk]
    exact h.at_key k hk
  · intro k row hk hl
    rw [hd k hk] at hl
    exact h.admitted k row hk hl

theorem HoldsGroup.group : d.lookup (.group groupId) = some (groupColumns g) :=
  h.at_key (.group groupId) rfl

theorem HoldsGroup.claim (handle : Bytes) (i : ℤ) : d.lookup (.claim groupId handle i) =
      (natAt (fun n => g.claims ⟨handle, n⟩) i).map claimColumns :=
  h.at_key (.claim groupId handle i) rfl

theorem HoldsGroup.commit (e : ℤ) :
    d.lookup (.commit groupId e) = (natAt g.commits e).map commitColumns :=
  h.at_key (.commit groupId e) rfl

theorem HoldsGroup.record (id : ℤ) :
    d.lookup (.record groupId id) = (natAt (recordAt g) id).map storedColumns :=
  h.at_key (.record groupId id) rfl

theorem HoldsGroup.sender (handle : Bytes) :
    d.lookup (.sender groupId handle) = (g.senders handle).map senderColumns :=
  h.at_key (.sender groupId handle) rfl

theorem HoldsGroup.recovery (handle : Bytes) :
    d.lookup (.recovery groupId handle) = (g.recovery handle).map recoveryColumns :=
  h.at_key (.recovery groupId handle) rfl

theorem HoldsGroup.epoch (e : ℤ) :
    (d.lookup (.epoch groupId e) : Option MessageEpoch).map (openRow ring groupId e) =
      (natAt g.epochs e).map fun r => .ok (epochColumns r) :=
  h.at_key (.epoch groupId e) rfl

end Frame

section Ranges

variable {ring : KekRing} {groupId : Bytes} {d : Database} {g : MemoryGroup}

/-- What the CHECKs of a group's row say of its counters. -/
structure InRange (g : MemoryGroup) : Prop where
  currentEpoch : g.currentEpoch < 2 ^ 63
  nextRecordId : 1 ≤ g.nextRecordId ∧ g.nextRecordId < 2 ^ 63
  mediaTtl : 0 < g.mediaTtlSeconds ∧ g.mediaTtlSeconds < 2 ^ 31
  durableTtl : ∀ ttl, g.durableTtlSeconds = some ttl → 0 < ttl ∧ ttl < 2 ^ 31
  policyVersion : g.policyVersion < 2 ^ 31

variable (h : HoldsGroup ring groupId d g)
include h

theorem HoldsGroup.inRange : InRange g := by
  have ha := h.admitted _ _ rfl h.group
  simp only [admits, MessageGroup.admitted, isBigint, isInt, Bool.and_eq_true,
    decide_eq_true_eq] at ha
  simp only [groupColumns] at ha
  refine ⟨by omega, by omega, by omega, fun ttl ht => ?_, by omega⟩
  simp only [ht, Option.map_some, Option.all_some, isInt, Bool.and_eq_true, decide_eq_true_eq] at ha
  omega

theorem HoldsGroup.length_groupId : groupId.length = groupIdBytes := by
  have ha := h.admitted _ _ rfl h.group
  simp only [admits, Bool.and_eq_true, beq_iff_eq] at ha
  exact ha.1

theorem HoldsGroup.stateOf : stateOf (groupColumns g) = g.state := by
  obtain ⟨he, hn, hm, hd, hp⟩ := h.inRange
  have hdr : (g.durableTtlSeconds.map ((↑) : ℕ → ℤ)).map uint32 = g.durableTtlSeconds := by
    cases ht : g.durableTtlSeconds with
    | none => rfl
    | some ttl => simp [uint32_natCast ((hd ttl ht).2.trans (by omega))]
  simp only [Pgx.stateOf, groupColumns, MemoryGroup.state, uint64_natCast (he.trans (by omega)),
    uint64_natCast (hn.2.trans (by omega)), uint32_natCast (hm.2.trans (by omega)),
    uint32_natCast (hp.trans (by omega)), hdr]

end Ranges

end MessageServer.Pgx
