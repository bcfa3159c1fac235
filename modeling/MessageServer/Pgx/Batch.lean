import MessageServer.Pgx.Gates
import MessageServer.Pgx.Writes
import MessageServer.Store.History

/-! # The writes of a batch

A record whose turn it is in a batch is written with the rows that the store in
memory gives it. The one refusal left behind the gates is a recovery handle that
an earlier record of the batch bound to another key, and it ends the transaction.
-/

namespace MessageServer.Pgx

open Store Transaction MemoryGroup

section Record

variable {store : PgxStore} {groupId : Bytes} {draw : Draw} {d : Database} {g : MemoryGroup}
  {record : Record} {keys : Option EpochKeyDelivery} {state : GroupState} {batch : List Pending}
  {offender : ℕ} {result : SubmitResult} {E : Prop}

/-- The state that step (1) read is still the group's, as far as a write uses it. -/
structure Current (state : GroupState) (g : MemoryGroup) : Prop where
  currentEpoch : state.currentEpoch = g.currentEpoch
  mediaTtl : state.mediaTtlSeconds = g.mediaTtlSeconds
  durableTtl : state.durableTtlSeconds = g.durableTtlSeconds
  policyVersion : state.policyVersion = g.policyVersion

/-- The places that a stamped record is about to take are free. -/
structure Ready (g : MemoryGroup) (keys : Option EpochKeyDelivery) (record : Record) : Prop where
  epoch : record.epoch = g.currentEpoch
  next : g.currentEpoch + 1 < 2 ^ 63
  vacant : g.epochs (g.currentEpoch + 1) = none
  unclaimed : g.claims (claimKeyOf record) = none
  unused : recordAt g record.recordId = none
  id : record.recordId ≠ 0 ∧ record.recordId < 2 ^ 63
  uncommitted : record.isCommit = true → g.commits record.epoch = none
  opens : record.isCommit = true → wellFormedEpochAttachment record (g.currentEpoch + 1) keys = true

structure Standing.At (standing : Standing) (g : MemoryGroup) : Prop where
  currentEpoch : standing.currentEpoch = g.currentEpoch
  mediaTtl : standing.mediaTtl = g.mediaTtlSeconds
  durableTtl : standing.durableTtl = g.durableTtlSeconds
  policy : standing.policy = g.policyVersion

def Standing.answer (standing : Standing) (record : Record) : SubmitResult :=
  { standing.result with
    reason := acceptanceReason standing.result.applied
    recordId := record.recordId }

variable (h : HoldsGroup store.keys groupId d g)
include h

/-- Steps (5b) and (6): a commit takes its slot and opens the next epoch. -/
theorem advance_meets (hs : Current state g)
    (hr : Ready g keys record) (hn : Narrow record) (hl : Bounded store.limits)
    (hE : E → record.isCommit = true → ∀ opening, openingOf record keys = some opening →
      EpochFits store draw g.policyVersion opening) :
    (advance store groupId draw keys state batch offender g.currentEpoch record result).Meets
      schema d
      { value := fun d' standing =>
          HoldsGroup store.keys groupId d'
            (g.advance store.toConfig draw.now g.currentEpoch keys record) ∧
          standing.At (g.advance store.toConfig draw.now g.currentEpoch keys record) ∧
          standing.answer record = acceptance store.toConfig g.currentEpoch keys record result
        error := fun _ => ¬ E } := by
  unfold advance
  cases hc : record.isCommit with
  | false =>
    rw [if_neg (by simp), Prog.meets_pure, g.advance_of_not_commit _ _ _ _ _ hc]
    exact ⟨h, ⟨rfl, hs.mediaTtl, hs.durableTtl, hs.policyVersion⟩,
      by simp [acceptance, Standing.answer, hc]⟩
  | true =>
    obtain ⟨opening, writeKey, readKey, ho, -, hw, hwl, hrk, hrl⟩ := exists_opening (hr.opens hc)
    rw [if_pos rfl, g.advance_of_commit _ _ _ _ _ hc ho]
    have he : record.epoch < 2 ^ 63 := by
      have := hr.epoch
      have := hr.next
      omega
    have had : admits (.commit groupId (record.epoch : ℤ))
        (commitColumns ⟨record.epoch, record.recordId, record⟩) = true := by
      simp [admits, commitColumns, h.length_groupId, isBigint_natCast he, isBigint_natCast hr.id.2]
    rw [int64_of_lt he, int64_of_lt hr.id.2]
    refine Prog.meets_insert_of_none ?_ (fun hf => ?_) fun ha => ?_
    · rw [h.commit, natAt_natCast, hr.uncommitted hc]
      rfl
    · exact absurd had (by rw [schema_admits] at hf; simpa [commitColumns] using hf)
    · have h₁ := h.insertCommit ⟨record.epoch, record.recordId, record⟩ had
      rw [if_pos rfl]
      refine (openEpoch_meets h₁ hs.currentEpoch hr.vacant hr.next hr.id.1 hr.id.2 ho hw hwl hrk
        hrl hn hl fun hE' => hE hE' hc opening ho).bind ?_ (fun _ _ => False.elim)
          (fun _ => False.elim) fun _ => id
      rintro d' applied ⟨rfl, h₂⟩
      rw [Prog.meets_pure]
      refine ⟨h₂, ⟨congrArg (· + 1) hs.currentEpoch, rfl, rfl, ?_⟩, ?_⟩
      · rw [hs.policyVersion]
        rfl
      · simp [acceptance, Standing.answer, hc, ho, hs.currentEpoch]

/-- The record names a recovery handle that the group has bound to another key. -/
def rebinds (g : MemoryGroup) (record : Record) : Bool :=
  (recoveryTagOf record).any fun tag => (g.recovery tag.handle).any (·.verifyPub ≠ tag.verifyPub)

/-- What keeps every row of a record within its columns. -/
structure RecordFits (store : PgxStore) (groupId : Bytes) (draw : Draw) (g : MemoryGroup)
    (keys : Option EpochKeyDelivery) (record : Record) : Prop where
  epoch : record.isCommit = true → ∀ opening, openingOf record keys = some opening →
    EpochFits store draw g.policyVersion opening
  claim : admits (.claim groupId record.senderHandle (int64 record.streamIndex))
    (claimRow store.toConfig record draw.now) = true
  row : admits (.record groupId (int64 record.recordId)) (recordRow record draw.now
    (pruneAfter draw.now record.retentionClass
      (g.advance store.toConfig draw.now g.currentEpoch keys record).mediaTtlSeconds
      (g.advance store.toConfig draw.now g.currentEpoch keys record).durableTtlSeconds)
    (g.advance store.toConfig draw.now g.currentEpoch keys record).policyVersion) = true
  recovery : ∀ tag, recoveryTagOf record = some tag → admits (.recovery groupId tag.handle)
    ⟨tag.verifyPub, int32 tag.algId, timestamp draw.now⟩ = true
  sender : admits (.sender groupId record.senderHandle)
    ⟨record.streamIndex, 1, recordBytes record, timestamp draw.now⟩ = true
  counted : ∀ sender, g.senders record.senderHandle = some sender →
    admits (.sender groupId record.senderHandle) ⟨record.streamIndex, sender.recordCount + 1,
      sender.byteCount + recordBytes record, timestamp draw.now⟩ = true

theorem completeEpoch_meets : (completeEpoch groupId g.currentEpoch record).Meets schema d
      { value := fun d' _ => HoldsGroup store.keys groupId d' (g.closeFanOut record) } := by
  unfold completeEpoch
  split
  · rename_i hm
    rw [Prog.meets_pure, closeFanOut_of_not (by simp [closesFanOut, hm])]
    exact h
  · rename_i marker hm
    exact closeFanOut_meets h hm

variable {A : Reply → Prop}

theorem bindRecovery_meets
    (hE : E → ∀ tag, recoveryTagOf record = some tag → admits (.recovery groupId tag.handle)
      ⟨tag.verifyPub, int32 tag.algId, timestamp draw.now⟩ = true)
    (hA : rebinds g record = true → ∀ d',
      (refuse store groupId batch offender .rejected state.currentEpoch : Statements Unit).Meets
        schema d' { answer := A, error := fun _ => ¬ E }) :
    (bindRecovery store groupId draw state batch offender record).Meets schema d
      { value := fun d' _ => rebinds g record = false ∧
          HoldsGroup store.keys groupId d' (g.pinRecovery draw.now record)
        answer := A
        error := fun _ => ¬ E } := by
  unfold bindRecovery
  split
  · rename_i ht
    rw [Prog.meets_pure]
    have hp : g.pinRecovery draw.now record = g := by simp [pinRecovery, ht]
    rw [hp]
    exact ⟨by simp [rebinds, ht], h⟩
  · rename_i tag ht
    refine (pinRecoveryHandle_meets h ht fun hE' => hE hE' tag ht).bind_value ?_ fun _ => id
    rintro d' rebound ⟨h', hb⟩
    have hre : rebinds g record = rebound := by simp [rebinds, ht, hb]
    cases rebound with
    | true =>
      exact (hA hre d').mono (fun _ _ => False.elim) (fun _ _ => id) (fun _ => id) fun _ => id
    | false => exact ⟨hre, h'⟩

/-- The rows of a record are the ones it has in memory, unless it rebinds a recovery handle. -/
theorem writeOne_meets (hs : Current state g) (hr : Ready g keys record) (hn : Narrow record)
    (hl : Bounded store.limits) (hE : E → RecordFits store groupId draw g keys record)
    (hA : rebinds g record = true → ∀ d',
      (refuse store groupId batch offender .rejected state.currentEpoch : Statements Unit).Meets
        schema d' { answer := A, error := fun _ => ¬ E }) :
    (writeOne store groupId draw keys state batch offender g.currentEpoch record result).Meets
      schema d
      { value := fun d' out => rebinds g record = false ∧ HoldsGroup store.keys groupId d'
            (g.write store.toConfig draw.now g.currentEpoch keys record) ∧
          out = ((g.write store.toConfig draw.now g.currentEpoch keys record).currentEpoch,
            acceptance store.toConfig g.currentEpoch keys record result)
        answer := A
        error := fun _ => ¬ E } := by
  unfold writeOne
  refine (advance_meets h hs hr hn hl fun hE' => (hE hE').epoch).bind ?_ (fun _ _ => False.elim)
    (fun _ => False.elim) fun _ => id
  rintro d₁ standing ⟨h₁, hat, ha⟩
  rw [hat.currentEpoch, hat.mediaTtl, hat.durableTtl, hat.policy]
  refine (completeEpoch_meets h₁).bind_value ?_ fun _ => False.elim
  intro d₂ _ h₂
  refine Prog.meets_bind_bind ((storeRecord_meets h₂ hn ?_ ?_ hr.id.2 ?_ ?_).mono ?_
    (fun _ _ => False.elim) (fun _ => False.elim) fun _ => id)
  · simpa [MemoryGroup.closeFanOut] using hr.unclaimed
  · simpa [MemoryGroup.closeFanOut, recordAt] using hr.unused
  · have := hr.epoch
    have := hr.next
    omega
  · exact fun hE' => ⟨(hE hE').claim, (hE hE').row⟩
  · rintro d₃ _ ⟨h₃, hsi⟩
    refine (bindRecovery_meets h₃ (fun hE' => (hE hE').recovery) fun hre => hA ?_).bind ?_
      (fun _ _ => False.elim) (fun _ => id) fun _ => id
    · simpa [rebinds, storeRecord, MemoryGroup.closeFanOut] using hre
    · rintro d₄ _ ⟨hre, h₄⟩
      refine (account_meets h₄ hsi fun hE' => ⟨(hE hE').sender, ?_⟩).bind_value ?_ fun _ => id
      · simpa [pinRecovery, storeRecord, MemoryGroup.closeFanOut] using (hE hE').counted
      · intro d₅ _ h₅
        rw [Prog.meets_pure]
        refine ⟨?_, h₅, ?_⟩
        · simpa [rebinds, storeRecord, MemoryGroup.closeFanOut] using hre
        · rw [write_currentEpoch, ← ha, Standing.answer]

end Record

section Turns

variable {cfg : Config} {g₀ g : MemoryGroup} {own : Bytes → Option ℕ}
  {pinned : Bytes → Option Bytes} {keys : Option EpochKeyDelivery} {record : Record} {id : ℕ}

/-- The group in the middle of a batch, whose next record gets an id. -/
structure Turn (cfg : Config) (g₀ : MemoryGroup) (own : Bytes → Option ℕ)
    (pinned : Bytes → Option Bytes) (g : MemoryGroup) (id : ℕ) : Prop where
  sync : Sync g₀ own pinned g
  pins : PinsAgree g₀ pinned
  current : Current g₀.state g
  ledger : ∃ L, Represents cfg g L ∧ id = L.log.length + 1
  custody : Custody g

variable (h : Turn cfg g₀ own pinned g id)
include h

theorem Turn.rebinds (hg : Store.gate g₀ g₀.state record keys own (fun _ => none) = .ok) :
    rebinds g record = rebindsOwn pinned record := by
  obtain ⟨-, -, -, -, -, -, hp⟩ := gate_eq_ok.mp hg
  have ha := any_pinnedPub h.pins record
  rw [Bool.not_eq_true] at hp
  rw [hp, Bool.false_or] at ha
  rw [← ha]
  unfold Pgx.rebinds
  cases ht : recoveryTagOf record with
  | none => rfl
  | some tag =>
    rw [Option.any_some, Option.any_some, ← h.sync.recovery tag]
    cases g.recovery tag.handle <;> simp

theorem Turn.ready
    (hg : Store.gate g₀ g₀.state record keys own (fun _ => none) = .ok) (hid : id < 2 ^ 63) :
    Ready g keys (stamp record id) := by
  obtain ⟨hl, hep, -, -, ho, hs, -⟩ := gate_eq_ok.mp hg
  obtain ⟨L, hL, rfl⟩ := h.ledger
  have he : g₀.state.currentEpoch = g.currentEpoch := h.sync.currentEpoch.symm
  rw [he] at hep ho
  rw [← h.sync.senders] at hs
  have hle : g.currentEpoch ≤ L.log.length := hL.epoch ▸ L.ordered.le_length
  refine ⟨not_not.mp hep, by omega, ?_, ?_, ?_, ⟨Nat.succ_ne_zero _, hid⟩, ?_, ?_⟩
  · by_contra hn
    obtain ⟨row, hr⟩ := Option.ne_none_iff_exists'.mp hn
    have := (h.custody.rows _).mp ⟨row, hr⟩
    omega
  · refine hL.unclaimed fun row hr => ?_
    simpa [stamp, show g.senders record.senderHandle = some row from hr] using hs
  · rw [recordAt, List.find?_eq_none]
    intro row hr
    have hi := (L.ordered.id_le (hL.mem hr)).2
    simp only [decide_eq_true_eq]
    intro heq
    have : row.record.recordId = L.log.length + 1 := heq
    change row.record.recordId ≤ L.log.length at hi
    omega
  · intro hc
    change record.isCommit = true at hc
    have hn : g₀.commits record.epoch = none := by simpa [hc] using hl
    rw [h.sync.commits]
    exact hn
  · intro hc
    change record.isCommit = true at hc
    have hw : wellFormedEpochAttachment record (g.currentEpoch + 1) keys = true := by
      simpa [hc] using ho
    exact hw

theorem Turn.admitted (hg : Store.gate g₀ g₀.state record keys own (fun _ => none) = .ok)
    (hr : rebindsOwn pinned record = false) : Admitted g g₀.epochComplete keys record := by
  refine h.sync.admitted ?_
  rw [gate_pinned h.pins, hg, hr]
  rfl

theorem Turn.write (hg : Store.gate g₀ g₀.state record keys own (fun _ => none) = .ok)
    (hr : rebindsOwn pinned record = false) (hc : record.isCommit = false) (now : Time) :
    Turn cfg g₀ (Function.update own record.senderHandle (some record.streamIndex))
      (pin pinned record) (g.write cfg now g.currentEpoch keys (stamp record id)) (id + 1) := by
  have ha := h.admitted hg hr
  have had : g.advance cfg now g.currentEpoch keys (stamp record id) = g :=
    g.advance_of_not_commit _ _ _ _ _ hc
  obtain ⟨L, hL, rfl⟩ := h.ledger
  refine ⟨h.sync.write ha hc cfg now _, h.pins.pin hg, ?_, ⟨_, hL.write ha now rfl, ?_⟩,
    (h.custody.write ha cfg now _).1⟩
  · obtain ⟨he, hm, hd, hp⟩ := h.current
    constructor
    · rw [write_currentEpoch, had, he]
    · simp only [MemoryGroup.write, had]
      exact hm
    · simp only [MemoryGroup.write, had]
      exact hd
    · simp only [MemoryGroup.write, had]
      exact hp
  · simp [Ledger.append]

end Turns

section Refusal

variable {store : PgxStore} {groupId : Bytes} {epoch offender : ℕ} {reason : Reason}
  {batch batch' : List Pending}

/-- What a refusal leaves of a result that the writes had gone over. -/
def plain (p : Pending) : Pending :=
  if p.settled then p else { p with result := { p.result with reason := .ok, recordId := 0 } }

/-- The answers of a refused batch without a commit, which reads no winner. -/
def refusalResults (epoch : ℕ) (batch : List Pending) (offender : ℕ) (reason : Reason) :
    List SubmitResult :=
  resultsOf ((markRefused batch offender reason).map (fillEpoch epoch))

theorem fillAll_eq (h : ∀ p ∈ batch, p.record.isCommit = false) :
    fillAll store groupId epoch batch = pure (batch.map (fillEpoch epoch)) := by
  induction batch with
  | nil => rfl
  | cons p batch ih =>
    have hp : fillOne store groupId epoch p = pure (fillEpoch epoch p) := by
      simp [fillOne, h p List.mem_cons_self]
    rw [fillAll, hp, ih fun q hq => h q (List.mem_cons_of_mem _ hq)]
    rfl

theorem refuse_eq {α : Type} (h : ∀ p ∈ batch, p.record.isCommit = false) (he : epoch ≠ 0) :
    (refuse store groupId batch offender reason epoch : Statements α) =
      .rollback (.ok (.submitted (refusalResults epoch batch offender reason))) := by
  have hm : ∀ p ∈ markRefused batch offender reason, p.record.isCommit = false := by
    intro p hp
    have hr : p.record ∈ batch.map (·.record) := by
      rw [← map_record_markRefused batch offender reason]
      exact List.mem_map_of_mem hp
    obtain ⟨q, hq, he⟩ := List.mem_map.mp hr
    rw [← he]
    exact h q hq
  unfold refuse fill
  rw [if_neg he, fillAll_eq hm]
  rfl

theorem settled_plain (p : Pending) : (plain p).settled = p.settled := by
  unfold plain
  split <;> rfl

theorem record_plain (p : Pending) : (plain p).record = p.record := by
  unfold plain
  split <;> rfl

theorem resultOf_plain {p p' : Pending} (h : plain p = plain p') (hs : p.settled = false)
    (hr : accepted reason = false) :
    resultOf (fillEpoch epoch { p with result := { p.result with reason := reason } }) =
      resultOf (fillEpoch epoch { p' with result := { p'.result with reason := reason } }) := by
  have hs' : p'.settled = false := by rw [← settled_plain, ← h, settled_plain, hs]
  simp only [plain, hs, hs', Bool.false_eq_true, if_false, Pending.mk.injEq,
    SubmitResult.mk.injEq] at h
  obtain ⟨-, ⟨-, -, he, hw, ha⟩, -⟩ := h
  unfold fillEpoch resultOf
  split_ifs <;> simp_all

theorem refusalResults_congr (h : batch.map plain = batch'.map plain) (hs : Settled batch)
    (hs' : Settled batch') (hr : accepted reason = false) :
    refusalResults epoch batch offender reason = refusalResults epoch batch' offender reason := by
  have hl : batch.length = batch'.length := by simpa using congrArg List.length h
  refine List.ext_getElem (by simp [refusalResults, resultsOf, markRefused, hl]) fun i h₁ h₂ => ?_
  have hi : i < batch.length := by simpa [refusalResults, resultsOf, markRefused] using h₁
  have hi' : i < batch'.length := hl ▸ hi
  have hp : plain batch[i] = plain batch'[i] := by
    have := congrArg (·[i]?) h
    simpa [hi, hi'] using this
  have hst := hs _ (List.getElem_mem hi)
  have hst' := hs' _ (List.getElem_mem hi')
  simp only [refusalResults, resultsOf, markRefused, List.getElem_map, List.getElem_mapIdx]
  rcases Bool.eq_false_or_eq_true batch[i].settled with ht | hf
  · have ht' : batch'[i].settled = true := by rw [← settled_plain, ← hp, settled_plain, ht]
    have heq : batch[i] = batch'[i] := by simpa [plain, ht, ht'] using hp
    rw [heq]
  · have hf' : batch'[i].settled = false := by rw [← settled_plain, ← hp, settled_plain, hf]
    have hne : batch[i].probe ≠ .identical := fun hc => by simp [hst, hc] at hf
    have hne' : batch'[i].probe ≠ .identical := fun hc => by simp [hst', hc] at hf'
    rw [if_neg hne, if_neg hne']
    refine resultOf_plain hp hf ?_
    split
    · exact hr
    · rfl

end Refusal

section Batch

variable {store : PgxStore} {groupId : Bytes} {draw : Draw} {d : Database} {g₀ g : MemoryGroup}
  {keys : Option EpochKeyDelivery} {own : Bytes → Option ℕ} {pinned : Bytes → Option Bytes}
  {id : ℕ} {E : Prop}

/-- What keeps every row of a batch within its columns, record after record. -/
def Fits (store : PgxStore) (groupId : Bytes) (draw : Draw) (keys : Option EpochKeyDelivery) :
    MemoryGroup → ℕ → List Record → Prop
  | _, _, [] => True
  | g, id, record :: records => RecordFits store groupId draw g keys (stamp record id) ∧
      Fits store groupId draw keys
        (g.write store.toConfig draw.now g.currentEpoch keys (stamp record id)) (id + 1) records

theorem plain_acceptance {p : Pending} (hp : p.settled = false) (hc : p.record.isCommit = false)
    (cfg : Config) (e id : ℕ) (keys : Option EpochKeyDelivery) :
    plain { p with result := acceptance cfg e keys (stamp p.record id) p.result } = plain p := by
  simp [plain, acceptance, stamp, hc, hp]

theorem writeAll_of_unsettled {cfg : Config} {now : Time} {e : ℕ} {p : Pending}
    {batch : List Pending} (hp : p.settled = false) :
    Store.writeAll cfg now e keys g id (p :: batch) =
      ((Store.writeAll cfg now e keys (g.write cfg now e keys (stamp p.record id)) (id + 1)
        batch).1,
      { p with result := acceptance cfg e keys (stamp p.record id) p.result } ::
        (Store.writeAll cfg now e keys (g.write cfg now e keys (stamp p.record id)) (id + 1)
          batch).2) := by
  simp [Store.writeAll, hp]

theorem narrow_stamp {record : Record} (h : Narrow record) (id : ℕ) : Narrow (stamp record id) :=
  ⟨h.epoch, h.streamIndex, h.ephWindow, h.expireAt, h.opening⟩

/-- The records of a batch that passed the gates are written, or one of them rebinds a handle. -/
theorem writeAll_meets {rest : List Pending} {A : ℕ → Reply → Prop} (done : List Pending)
    (hl : Bounded store.limits) (h : HoldsGroup store.keys groupId d g)
    (ht : Turn store.toConfig g₀ own pinned g id) (ha : Alone (rest.map (·.record)))
    (hn : ∀ p ∈ rest, Narrow p.record) (hid : id + (fresh rest).length ≤ 2 ^ 63)
    (hg : gateStored g₀ keys own done.length rest = none) (hst : Settled (done ++ rest))
    (hE : E → Fits store groupId draw keys g id (fresh rest))
    (hA : ∀ batch i, batch.map plain = (done ++ rest).map plain → Settled batch →
      rebindAt pinned done.length rest = some i → ∀ d',
        (refuse store groupId batch i .rejected g₀.currentEpoch : Statements Unit).Meets schema d'
          { answer := A i, error := fun _ => ¬ E }) :
    (writeAll store groupId draw keys g₀.state g.currentEpoch id done rest).Meets schema d
      { value := fun d' out => rebindAt pinned done.length rest = none ∧
          HoldsGroup store.keys groupId d'
            (Store.writeAll store.toConfig draw.now g₀.currentEpoch keys g id rest).1 ∧
          out = ((Store.writeAll store.toConfig draw.now g₀.currentEpoch keys g id
              rest).1.currentEpoch,
            done ++ (Store.writeAll store.toConfig draw.now g₀.currentEpoch keys g id rest).2)
        answer := fun w => ∃ i, rebindAt pinned done.length rest = some i ∧ A i w
        error := fun _ => ¬ E } := by
  induction rest generalizing d g own pinned id done with
  | nil =>
    unfold writeAll
    rw [Prog.meets_pure]
    exact ⟨rfl, h, by simp [Store.writeAll]⟩
  | cons p rest ih =>
    have hrs : ∀ q ∈ rest, Narrow q.record := fun q hq => hn q (List.mem_cons_of_mem _ hq)
    have hap : ∀ q : Pending, done ++ q :: rest = (done ++ [q]) ++ rest := by simp
    have hln : ∀ q : Pending, (done ++ [q]).length = done.length + 1 := by simp
    unfold writeAll
    rcases Bool.eq_false_or_eq_true p.settled with hp | hp
    · have hre : rebindAt pinned done.length (p :: rest) =
          rebindAt pinned (done ++ [p]).length rest := by rw [hln, rebindAt, if_pos hp]
      rw [gateStored_of_settled hp, ← hln p] at hg
      rw [fresh_cons_of_settled hp] at hid hE
      rw [hap] at hst hA
      rw [hre] at hA ⊢
      rw [if_pos hp]
      refine (ih _ h ht ha.tail hrs hid hg hst hE hA).mono ?_ (fun _ _ hc => hc)
        (fun _ hw => hw) fun _ he => he
      rintro d' out ⟨hnn, hd, hot⟩
      refine ⟨hnn, ?_, ?_⟩
      · simpa only [Store.writeAll, hp, if_true] using hd
      · simpa only [Store.writeAll, hp, if_true, List.append_assoc, List.singleton_append] using hot
    · have hok : Store.gate g₀ g₀.state p.record keys own (fun _ => none) = .ok := by
        by_contra hr
        rw [gateStored_of_refused hp hr] at hg
        cases hg
      rw [gateStored_of_passed hp hok] at hg
      rw [fresh_cons_of_unsettled hp] at hid hE
      rw [List.length_cons] at hid
      rw [if_neg (by simp [hp])]
      have hcr : g₀.currentEpoch = g.currentEpoch := ht.sync.currentEpoch.symm
      refine (writeOne_meets (A := fun w => ∃ i, rebindAt pinned done.length (p :: rest) = some i ∧
        A i w) h ht.current (ht.ready hok (by omega)) (narrow_stamp (hn p List.mem_cons_self) id) hl
        (fun hE' => (hE hE').1) ?_).bind ?_ (fun _ _ => False.elim) (fun _ hw => hw)
        fun _ he => he
      · intro hrb d'
        have ho : rebindsOwn pinned p.record = true := (ht.rebinds hok).symm.trans hrb
        have hre : rebindAt pinned done.length (p :: rest) = some done.length := by
          simp [rebindAt, hp, ho]
        exact (hA _ done.length rfl hst hre d').mono (fun _ _ => False.elim)
          (fun _ _ => False.elim) (fun w hw => ⟨_, hre, hw⟩) fun _ he => he
      · rintro d' out ⟨hrb, h', rfl⟩
        have ho : rebindsOwn pinned p.record = false := (ht.rebinds hok).symm.trans hrb
        have hre : rebindAt pinned done.length (p :: rest) =
            rebindAt (pin pinned p.record) (done.length + 1) rest := by
          simp [rebindAt, hp, ho]
        have hwr := fun hc => ht.write hok ho hc draw.now
        have hf : E → Fits store groupId draw keys (g.write store.toConfig draw.now
          g.currentEpoch keys (stamp p.record id)) (id + 1) (fresh rest) := fun hE' => (hE hE').2
        rw [← hcr] at h' hwr hf ⊢
        rw [writeAll_of_unsettled hp, hre]
        cases hc : p.record.isCommit with
        | true =>
          obtain ⟨-, hb⟩ := List.cons.inj (ha p.record List.mem_cons_self hc)
          obtain rfl := List.map_eq_nil_iff.mp hb
          unfold writeAll
          exact ⟨rfl, h', by simp [Store.writeAll]⟩
        | false =>
          have hpl := plain_acceptance hp hc store.toConfig g₀.currentEpoch id keys
          generalize hq : ({ p with
            result := acceptance store.toConfig g₀.currentEpoch keys (stamp p.record id)
              p.result } : Pending) = q at hpl ⊢
          have hm : (done ++ [q] ++ rest).map plain = (done ++ p :: rest).map plain := by
            simp [hpl]
          have hst' : Settled (done ++ [q] ++ rest) := by
            intro r hr
            rw [← hap, List.mem_append, List.mem_cons] at hr
            rcases hr with hr | rfl | hr
            · exact hst r (List.mem_append_left _ hr)
            · rw [← hq]
              exact hst p (List.mem_append_right _ List.mem_cons_self)
            · exact hst r (List.mem_append_right _ (List.mem_cons_of_mem _ hr))
          have hrc := ih _ h' (hwr hc) ha.tail hrs (by omega) (by rwa [hln q]) hst' hf
            fun batch i hb hs hr => hA batch i (hb.trans hm) hs (by rwa [hre, ← hln q])
          rw [hln q] at hrc
          refine hrc.mono ?_ (fun _ _ hc => hc) (fun _ hw => hw) fun _ he => he
          rintro d'' out ⟨hnn, hd, rfl⟩
          exact ⟨hnn, hd, by simp⟩

end Batch

end MessageServer.Pgx
