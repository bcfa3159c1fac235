import MessageServer.Store.Pages

/-! # What the answers of the store keep to themselves

The keys delivered beside a commit go into the epoch rows and come out of them
through `EpochKeys` alone: the store answers as if every key were blank. A
closed group answers what no group answers.
-/

namespace MessageServer.Store

open MemoryStore

/-- A call of the store, run with no other call between its steps. -/
inductive Operation
  | createGroup (request : CreateGroupRequest)
  | submit (request : SubmitRequest)
  | fetch (request : FetchRequest)
  | groupState (groupId : Bytes)
  | epochKeys (groupId : Bytes) (epoch : ℕ)
  | closeGroup (groupId : Bytes)

inductive Answer
  | createGroup (result : Except Error CreateGroupResult)
  | submit (result : Except Error (List SubmitResult))
  | fetch (result : Except Error FetchResult)
  | groupState (result : Except Error GroupState)
  | epochKeys (result : Except Error EpochKeys)
  | closeGroup (result : Except Error Unit)

def Operation.perform (cfg : Config) (now : Time) (s : MemoryStore) :
    Operation → MemoryStore × Answer
  | .createGroup request =>
    let next := Store.createGroup cfg now s request
    (next.1, .createGroup next.2)
  | .submit request =>
    let next := Store.submit cfg now s request
    (next.1, .submit next.2)
  | .fetch request => (s, .fetch (Store.fetch s request))
  | .groupState groupId => (s, .groupState (Store.groupState s groupId))
  | .epochKeys groupId epoch => (s, .epochKeys (Store.epochKeys s groupId epoch))
  | .closeGroup groupId =>
    let next := Store.closeGroup now s groupId
    (next.1, .closeGroup next.2)

/-- Calls one after another, with the answers they get. -/
def session (cfg : Config) : MemoryStore → List (Time × Operation) → MemoryStore × List Answer
  | s, [] => (s, [])
  | s, (now, op) :: ops =>
    let next := op.perform cfg now s
    let rest := session cfg next.1 ops
    (rest.1, next.2 :: rest.2)

def redact (key : Slice) : Slice := key.map fun bytes => List.replicate bytes.length 0

@[simp] theorem redact_eq_none {key : Slice} : redact key = none ↔ key = none := by
  simp [redact]

@[simp] theorem len_redact (key : Slice) : (redact key).len = key.len := by
  cases key <;> simp [redact, Slice.len]

@[simp] theorem redact_redact (key : Slice) : redact (redact key) = redact key := by
  cases key <;> simp [redact]

def EpochKeyDelivery.redact (keys : EpochKeyDelivery) : EpochKeyDelivery :=
  ⟨Store.redact keys.writeKey, Store.redact keys.readKey⟩

def EpochOpening.redact (opening : EpochOpening) : EpochOpening :=
  { opening with
    writeKey := Store.redact opening.writeKey
    readKey := Store.redact opening.readKey }

def EpochRow.redact (row : EpochRow) : EpochRow :=
  { row with writeKey := Store.redact row.writeKey, readKey := Store.redact row.readKey }

def EpochKeys.redact (keys : EpochKeys) : EpochKeys :=
  { keys with writeKey := Store.redact keys.writeKey, readKey := Store.redact keys.readKey }

def MemoryGroup.redact (g : MemoryGroup) : MemoryGroup :=
  { g with epochs := fun e => (g.epochs e).map EpochRow.redact }

def MemoryStore.redact (s : MemoryStore) : MemoryStore :=
  ⟨fun groupId => (s.groups groupId).map MemoryGroup.redact⟩

def CreateGroupRequest.redact (request : CreateGroupRequest) : CreateGroupRequest :=
  { request with epochKeys := request.epochKeys.map EpochKeyDelivery.redact }

def SubmitRequest.redact (request : SubmitRequest) : SubmitRequest :=
  { request with epochKeys := request.epochKeys.map EpochKeyDelivery.redact }

/-- A call with the keys delivered beside its commit blanked. -/
def Operation.redact : Operation → Operation
  | .createGroup request => .createGroup request.redact
  | .submit request => .submit request.redact
  | op => op

def Answer.redact : Answer → Answer
  | .epochKeys (.ok keys) => .epochKeys (.ok keys.redact)
  | answer => answer

@[simp] theorem EpochRow.redact_redact (row : EpochRow) : row.redact.redact = row.redact := by
  simp [EpochRow.redact]

@[simp] theorem MemoryGroup.redact_redact (g : MemoryGroup) : g.redact.redact = g.redact := by
  simp [MemoryGroup.redact, Function.comp_def]

variable (s : MemoryStore)

@[simp] theorem MemoryStore.redact_redact : s.redact.redact = s.redact := by
  simp [MemoryStore.redact, Function.comp_def]

theorem MemoryStore.redact_groups (groupId : Bytes) :
    s.redact.groups groupId = (s.groups groupId).map MemoryGroup.redact := rfl

theorem MemoryStore.redact_setGroup (groupId : Bytes) (g : MemoryGroup) :
    (s.setGroup groupId g).redact = s.redact.setGroup groupId g.redact := by
  refine congrArg MemoryStore.mk (funext fun other => ?_)
  by_cases ho : other = groupId
  · simp [setGroup, ho]
  · simp [setGroup, redact, ho]

section Opening

variable (record : Record) (keys : Option EpochKeyDelivery)

theorem openingOf_redact : (openingOf record (keys.map EpochKeyDelivery.redact)).map
    EpochOpening.redact = (openingOf record keys).map EpochOpening.redact := by
  unfold openingOf
  cases record.attachment with
  | none => rfl
  | some attachment =>
    obtain ⟨kind, epoch, _, _, _, digest⟩ := attachment
    cases keys with
    | none => rfl
    | some delivery =>
      cases kind with
      | epochDigest => cases digest <;> simp [EpochOpening.redact, EpochKeyDelivery.redact]
      | epoch => cases epoch <;> rfl
      | none | wrap | recovery | epochComplete | undefined => rfl

theorem openingOf_redact_cases :
    (openingOf record keys = none ∧ openingOf record (keys.map EpochKeyDelivery.redact) = none) ∨
    ∃ opening opening', openingOf record keys = some opening ∧
      openingOf record (keys.map EpochKeyDelivery.redact) = some opening' ∧
      opening'.redact = opening.redact := by
  have h := openingOf_redact record keys
  cases ho : openingOf record keys with
  | none =>
    rw [ho] at h
    exact .inl ⟨rfl, by simpa using h⟩
  | some opening =>
    rw [ho] at h
    obtain ⟨opening', ho', he⟩ := Option.map_eq_some_iff.mp h
    exact .inr ⟨opening, opening', rfl, ho', he⟩

theorem wellFormedEpochAttachment_redact (opens : ℕ) :
    wellFormedEpochAttachment record opens (keys.map EpochKeyDelivery.redact) =
      wellFormedEpochAttachment record opens keys := by
  unfold wellFormedEpochAttachment
  rcases openingOf_redact_cases record keys with ⟨h, h'⟩ | ⟨opening, opening', h, h', he⟩
  · rw [h, h']
  · have hl : ∀ {a b : EpochOpening}, a.redact = b.redact → a.epoch = b.epoch ∧
        a.writeKey.len = b.writeKey.len ∧ a.readKey.len = b.readKey.len ∧
        a.expectedWrapCount = b.expectedWrapCount ∧ a.groupContextHash = b.groupContextHash := by
      intro a b hab
      refine ⟨congrArg (·.epoch) hab, ?_, ?_, congrArg (·.expectedWrapCount) hab,
        congrArg (·.groupContextHash) hab⟩
      · simpa [EpochOpening.redact] using congrArg (·.writeKey.len) hab
      · simpa [EpochOpening.redact] using congrArg (·.readKey.len) hab
    obtain ⟨hep, hw, hr, hc, hg⟩ := hl he
    simp only [h, h', hep, hw, hr, hc, hg]

theorem limits_apply_redact (limits : Limits) (opening : EpochOpening) :
    limits.apply opening.redact = limits.apply opening := rfl

theorem acceptance_redact (cfg : Config) (e : ℕ) (result : SubmitResult) :
    acceptance cfg e (keys.map EpochKeyDelivery.redact) record result =
      acceptance cfg e keys record result := by
  unfold acceptance
  rcases openingOf_redact_cases record keys with ⟨h, h'⟩ | ⟨opening, opening', h, h', he⟩
  · rw [h, h']
  · have ha : cfg.limits.apply opening' = cfg.limits.apply opening := by
      rw [← limits_apply_redact, he, limits_apply_redact]
    rw [h, h']
    cases record.isCommit with
    | false => rfl
    | true => simp only [ha]

end Opening

namespace MemoryGroup

variable (g : MemoryGroup) (cfg : Config) (now : Time) (e : ℕ) (record : Record)
  (keys : Option EpochKeyDelivery)

theorem supersede_redact (n : ℕ) (row : EpochRow) :
    (supersede now e n row.redact).redact = (supersede now e n row).redact := by
  unfold supersede
  by_cases hlt : n < e
  · simp [hlt, EpochRow.redact]
  · by_cases hk : n = e ∧ row.writeKey ≠ none
    · simp [EpochRow.redact, hk]
    · simp [EpochRow.redact, hlt, hk]

theorem openEpoch_redact {opening opening' : EpochOpening} (h : opening'.redact = opening.redact) :
    (g.redact.openEpoch cfg now e record opening').redact =
      (g.openEpoch cfg now e record opening).redact := by
  have ha : cfg.limits.apply opening' = cfg.limits.apply opening := by
    rw [← limits_apply_redact, h, limits_apply_redact]
  have hc : opening'.groupContextHash = opening.groupContextHash := congrArg (·.groupContextHash) h
  have hn : opening'.algId = opening.algId ∧
      opening'.expectedWrapCount = opening.expectedWrapCount :=
    ⟨congrArg (·.algId) h, congrArg (·.expectedWrapCount) h⟩
  have hk : Store.redact opening'.writeKey = Store.redact opening.writeKey ∧
      Store.redact opening'.readKey = Store.redact opening.readKey :=
    ⟨congrArg (·.writeKey) h, congrArg (·.readKey) h⟩
  have hep : (g.redact.openEpoch cfg now e record opening').redact.epochs =
      (g.openEpoch cfg now e record opening).redact.epochs := by
    funext n
    change ((g.redact.openEpoch cfg now e record opening').epochs n).map EpochRow.redact =
      ((g.openEpoch cfg now e record opening).epochs n).map EpochRow.redact
    by_cases hne : n = e + 1
    · subst hne
      simp [openEpoch_epochs_self, openedRow, EpochRow.redact, hn, hk]
    · rw [openEpoch_epochs_of_ne _ _ _ _ _ _ hne, openEpoch_epochs_of_ne _ _ _ _ _ _ hne]
      cases hr : g.epochs n with
      | none => simp [redact, hr]
      | some row => simp [redact, hr, supersede_redact]
  unfold redact openEpoch at hep ⊢
  simp only [ha, hc] at hep ⊢
  rw [hep]

theorem closesFanOut_redact : g.redact.closesFanOut record = g.closesFanOut record := by
  unfold closesFanOut
  cases epochCompleteTagOf record with
  | none => rfl
  | some marker => cases h : g.epochs g.currentEpoch <;> simp [redact, EpochRow.redact, h]

theorem closeFanOut_redact : (g.closeFanOut record).redact = g.redact.closeFanOut record := by
  have h := g.closesFanOut_redact record
  unfold closeFanOut redact at *
  rw [h]

theorem advance_redact :
    (g.redact.advance cfg now e (keys.map EpochKeyDelivery.redact) record).redact =
      (g.advance cfg now e keys record).redact := by
  unfold advance
  rcases openingOf_redact_cases record keys with ⟨h, h'⟩ | ⟨opening, opening', h, h', he⟩
  · rw [h, h']
    simp
  · rw [h, h']
    cases record.isCommit with
    | false => simp
    | true => exact g.openEpoch_redact cfg now e record he

theorem write_redact : (g.redact.write cfg now e (keys.map EpochKeyDelivery.redact) record).redact =
      (g.write cfg now e keys record).redact := by
  have ho : ∀ h : MemoryGroup,
      ((((h.closeFanOut record).storeRecord cfg now record).pinRecovery now record).account
        now record).redact =
      (((h.redact.closeFanOut record).storeRecord cfg now record).pinRecovery now record).account
        now record := by
    intro h
    rw [← closeFanOut_redact]
    rfl
  rw [write, write, ho, ho, advance_redact]

end MemoryGroup

section Submit

variable (g : MemoryGroup) (cfg : Config) (now : Time) (keys : Option EpochKeyDelivery)
  (batch : List Pending)

theorem gate_redact (record : Record) (highWater : Bytes → Option ℕ)
    (pinned : Bytes → Option Bytes) :
    gate g.redact g.redact.state record (keys.map EpochKeyDelivery.redact) highWater pinned =
      gate g g.state record keys highWater pinned := by
  unfold gate
  rw [wellFormedEpochAttachment_redact]
  rfl

theorem gateAll_redact (highWater : Bytes → Option ℕ) (pinned : Bytes → Option Bytes) (index : ℕ) :
    gateAll g.redact g.redact.state (keys.map EpochKeyDelivery.redact) highWater pinned index
      batch = gateAll g g.state keys highWater pinned index batch := by
  induction batch generalizing highWater pinned index with
  | nil => rfl
  | cons p batch ih => simp only [gateAll, gate_redact, ih]

theorem refusal_redact :
    refusal g.redact (keys.map EpochKeyDelivery.redact) batch = refusal g keys batch :=
  gateAll_redact ..

theorem writeAll_redact {h : MemoryGroup} (hg : h.redact = g.redact) (e id : ℕ) :
    (writeAll cfg now e (keys.map EpochKeyDelivery.redact) h id batch).1.redact =
      (writeAll cfg now e keys g id batch).1.redact ∧
    (writeAll cfg now e (keys.map EpochKeyDelivery.redact) h id batch).2 =
      (writeAll cfg now e keys g id batch).2 := by
  induction batch generalizing g h id with
  | nil => exact ⟨hg, rfl⟩
  | cons p batch ih =>
    cases hp : p.settled with
    | true =>
      obtain ⟨h₁, h₂⟩ := ih g hg id
      simp only [writeAll, hp, if_true]
      exact ⟨h₁, by rw [h₂]⟩
    | false =>
      have hw : (h.write cfg now e (keys.map EpochKeyDelivery.redact) (stamp p.record id)).redact =
          (g.write cfg now e keys (stamp p.record id)).redact := by
        rw [← MemoryGroup.write_redact g, ← hg]
        have hk : (keys.map EpochKeyDelivery.redact).map EpochKeyDelivery.redact =
            keys.map EpochKeyDelivery.redact := by
          cases keys <;> simp [EpochKeyDelivery.redact]
        nth_rewrite 2 [← hk]
        exact (MemoryGroup.write_redact h ..).symm
      obtain ⟨h₁, h₂⟩ := ih _ hw (id + 1)
      simp only [writeAll, hp, Bool.false_eq_true, if_false, acceptance_redact]
      exact ⟨h₁, by rw [h₂]⟩

theorem submitLocked_redact :
    (submitLocked cfg now g.redact (keys.map EpochKeyDelivery.redact) batch).1.redact =
      (submitLocked cfg now g keys batch).1.redact ∧
    (submitLocked cfg now g.redact (keys.map EpochKeyDelivery.redact) batch).2 =
      (submitLocked cfg now g keys batch).2 := by
  cases hc : g.closed with
  | true =>
    rw [submitLocked_of_closed cfg now hc, submitLocked_of_closed cfg now (g := g.redact) hc]
    exact ⟨g.redact_redact, rfl⟩
  | false =>
    have hr := refusal_redact g keys batch
    cases h : refusal g keys batch with
    | some refused =>
      rw [h] at hr
      rw [submitLocked_of_refusal cfg now hc h,
        submitLocked_of_refusal cfg now (g := g.redact) hc hr]
      exact ⟨g.redact_redact, rfl⟩
    | none =>
      rw [h] at hr
      have hrs : (g.redact.reserve (fresh batch).length).redact =
          (g.reserve (fresh batch).length).redact :=
        congrArg (·.reserve (fresh batch).length) g.redact_redact
      obtain ⟨h₁, h₂⟩ := writeAll_redact (g.reserve (fresh batch).length) cfg now keys
        (atEpoch g.currentEpoch batch) hrs g.currentEpoch g.nextRecordId
      have he := congrArg MemoryGroup.currentEpoch h₁
      rw [submitLocked_of_passed cfg now hc h, submitLocked_of_passed cfg now (g := g.redact) hc hr]
      exact ⟨h₁, congrArg₂ (fun batch epoch => batch.map (fillEpoch epoch)) h₂ he⟩

end Submit

section Calls

variable (cfg : Config) (now : Time) (s : MemoryStore) (request : SubmitRequest) (groupId : Bytes)

theorem probed_redact : probed cfg s.redact request.redact = probed cfg s request := by
  unfold probed
  dsimp only [SubmitRequest.redact]
  rw [s.redact_groups]
  cases s.groups request.groupId <;> rfl

theorem fillCurrentEpoch_redact (group : Option MemoryGroup) (batch : List Pending) :
    fillCurrentEpoch (group.map MemoryGroup.redact) batch = fillCurrentEpoch group batch := by
  cases group <;> rfl

theorem submitProbe_redact :
    submitProbe cfg s.redact request.redact = submitProbe cfg s request := by
  unfold submitProbe
  rw [probed_redact, s.redact_groups]
  dsimp only [SubmitRequest.redact]
  cases s.groups request.groupId <;> rfl

theorem submitBatch_redact : (submitBatch cfg now s.redact request.redact).1.redact =
      (submitBatch cfg now s request).1.redact ∧
    (submitBatch cfg now s.redact request.redact).2 = (submitBatch cfg now s request).2 := by
  unfold submitBatch
  rw [submitProbe_redact, s.redact_groups]
  dsimp only [SubmitRequest.redact]
  cases submitProbe cfg s request with
  | answering batch => exact ⟨s.redact_redact, fillCurrentEpoch_redact ..⟩
  | unavailable batch => cases s.groups request.groupId <;> exact ⟨s.redact_redact, rfl⟩
  | waiting batch =>
    cases s.groups request.groupId with
    | none => exact ⟨s.redact_redact, rfl⟩
    | some g =>
      obtain ⟨h₁, h₂⟩ := submitLocked_redact g cfg now request.epochKeys batch
      refine ⟨?_, h₂⟩
      dsimp only [Option.map_some]
      rw [redact_setGroup, redact_setGroup, h₁, s.redact_redact]

theorem submit_redact :
    (submit cfg now s.redact request.redact).1.redact = (submit cfg now s request).1.redact ∧
    (submit cfg now s.redact request.redact).2 = (submit cfg now s request).2 := by
  have hv : validateSubmit request.redact = validateSubmit request := rfl
  obtain ⟨h₁, h₂⟩ := submitBatch_redact cfg now s request
  unfold submit
  rw [hv]
  cases validateSubmit request with
  | error e => exact ⟨s.redact_redact, rfl⟩
  | ok _ => exact ⟨h₁, congrArg (fun batch => Except.ok (resultsOf batch)) h₂⟩

theorem foundGroup_redact (request : CreateGroupRequest) (initial : Record)
    {opening opening' : EpochOpening} (h : opening'.redact = opening.redact) :
    (foundGroup cfg now request.redact initial opening').redact =
      (foundGroup cfg now request initial opening).redact := by
  have ha : cfg.limits.apply opening' = cfg.limits.apply opening := by
    rw [← limits_apply_redact, h, limits_apply_redact]
  have hc : opening'.groupContextHash = opening.groupContextHash := congrArg (·.groupContextHash) h
  have hep : (foundGroup cfg now request.redact initial opening').redact.epochs =
      (foundGroup cfg now request initial opening).redact.epochs := by
    funext n
    match n with
    | 0 => rfl
    | 1 =>
      have hn := congrArg (·.algId) h
      have hw := congrArg (·.expectedWrapCount) h
      have hk := congrArg (·.writeKey) h
      have hr := congrArg (·.readKey) h
      simp_all [MemoryGroup.redact, foundGroup, EpochRow.redact, EpochOpening.redact]
    | _ + 2 => rfl
  unfold MemoryGroup.redact foundGroup at hep ⊢
  simp only [ha, hc] at hep ⊢
  rw [hep]
  rfl

theorem createGroup_redact (request : CreateGroupRequest) :
    (createGroup cfg now s.redact request.redact).1.redact =
      (createGroup cfg now s request).1.redact ∧
    (createGroup cfg now s.redact request.redact).2 = (createGroup cfg now s request).2 := by
  have hv : validateCreate request.redact = validateCreate request := rfl
  have hi : request.redact.groupId = request.groupId := rfl
  have hk : request.redact.epochKeys = request.epochKeys.map EpochKeyDelivery.redact := rfl
  unfold createGroup
  rw [hv, hi, hk, s.redact_groups]
  cases validateCreate request with
  | error e => exact ⟨s.redact_redact, rfl⟩
  | ok initial =>
    dsimp only
    rw [wellFormedEpochAttachment_redact]
    split
    · exact ⟨s.redact_redact, rfl⟩
    · rcases openingOf_redact_cases initial request.epochKeys with
        ⟨h, h'⟩ | ⟨opening, opening', h, h', he⟩
      · rw [h, h']
        exact ⟨s.redact_redact, rfl⟩
      · have ha : cfg.limits.apply opening' = cfg.limits.apply opening := by
          rw [← limits_apply_redact, he, limits_apply_redact]
        rw [h, h']
        cases s.groups request.groupId with
        | some g => exact ⟨s.redact_redact, rfl⟩
        | none =>
          refine ⟨?_, by simp only [Option.map_none, ha]⟩
          dsimp only [Option.map_none]
          rw [redact_setGroup, redact_setGroup, s.redact_redact,
            foundGroup_redact cfg now request initial he]

theorem closeGroup_redact :
    (closeGroup now s.redact groupId).1.redact = (closeGroup now s groupId).1.redact ∧
    (closeGroup now s.redact groupId).2 = (closeGroup now s groupId).2 := by
  unfold closeGroup
  rw [s.redact_groups]
  cases checkLength groupId groupIdBytes with
  | error e => exact ⟨s.redact_redact, rfl⟩
  | ok _ =>
    cases s.groups groupId with
    | none => exact ⟨s.redact_redact, rfl⟩
    | some g =>
      have hc : g.redact.closed = g.closed := rfl
      dsimp only [Option.map_some]
      rw [hc]
      cases g.closed with
      | true => exact ⟨s.redact_redact, rfl⟩
      | false =>
        refine ⟨?_, rfl⟩
        simp only [Bool.false_eq_true, if_false, redact_setGroup, s.redact_redact]
        refine congrArg (s.redact.setGroup groupId) ?_
        exact congrArg (fun g : MemoryGroup => { g with closed := true, closeTime := some now })
          g.redact_redact

theorem groupState_redact : groupState s.redact groupId = groupState s groupId := by
  unfold groupState
  rw [s.redact_groups]
  cases s.groups groupId <;> rfl

theorem fetch_redact (request : FetchRequest) : fetch s.redact request = fetch s request := by
  unfold fetch
  rw [s.redact_groups]
  cases s.groups request.groupId <;> rfl

theorem epochKeys_redact (e : ℕ) : (epochKeys s.redact groupId e).map EpochKeys.redact =
      (epochKeys s groupId e).map EpochKeys.redact := by
  unfold epochKeys
  rw [s.redact_groups]
  cases checkLength groupId groupIdBytes with
  | error e => rfl
  | ok _ =>
    cases s.groups groupId with
    | none => rfl
    | some g =>
      have hc : g.redact.closed = g.closed := rfl
      have hr : g.redact.epochs e = (g.epochs e).map EpochRow.redact := rfl
      simp only [Option.map_some, hc, hr, bind, Except.bind]
      cases g.closed with
      | true => rfl
      | false =>
        cases g.epochs e with
        | none => rfl
        | some row =>
          have hk : (row.redact.writeKey = none ∧ row.redact.readKey = none) ↔
              (row.writeKey = none ∧ row.readKey = none) := by
            simp [EpochRow.redact]
          simp only [Option.map_some, hk, Bool.false_eq_true, if_false]
          split
          · rfl
          · simp [EpochRow.redact, EpochKeys.redact, Except.map, pure, Except.pure]

/-- A call answers, and changes the store, as if every key were blank. -/
theorem perform_redact (op : Operation) :
    (op.redact.perform cfg now s.redact).1.redact = (op.perform cfg now s).1.redact ∧
    (op.redact.perform cfg now s.redact).2.redact = (op.perform cfg now s).2.redact := by
  cases op with
  | createGroup request =>
    obtain ⟨h₁, h₂⟩ := createGroup_redact cfg now s request
    exact ⟨h₁, congrArg (fun result => (Answer.createGroup result).redact) h₂⟩
  | submit request =>
    obtain ⟨h₁, h₂⟩ := submit_redact cfg now s request
    exact ⟨h₁, congrArg (fun result => (Answer.submit result).redact) h₂⟩
  | closeGroup groupId =>
    obtain ⟨h₁, h₂⟩ := closeGroup_redact now s groupId
    exact ⟨h₁, congrArg (fun result => (Answer.closeGroup result).redact) h₂⟩
  | fetch request =>
    exact ⟨s.redact_redact, congrArg (fun r => (Answer.fetch r).redact) (fetch_redact s request)⟩
  | groupState groupId =>
    exact ⟨s.redact_redact,
      congrArg (fun r => (Answer.groupState r).redact) (groupState_redact s groupId)⟩
  | epochKeys groupId e =>
    refine ⟨s.redact_redact, ?_⟩
    have h := epochKeys_redact s groupId e
    simp only [Operation.redact, Operation.perform]
    cases hk : epochKeys s groupId e <;> cases hk' : epochKeys s.redact groupId e <;>
      simp_all [Answer.redact, Except.map]

end Calls

section Session

variable {calls calls' : List (Time × Operation)}

/-- The same calls at the same clock readings, up to the delivered keys. -/
def SameCalls (calls calls' : List (Time × Operation)) : Prop :=
  calls.map (Prod.map id Operation.redact) = calls'.map (Prod.map id Operation.redact)

theorem perform_congr (cfg : Config) {s s' : MemoryStore} (hs : s.redact = s'.redact)
    {op op' : Operation} (ho : op.redact = op'.redact) (now : Time) :
    (op.perform cfg now s).1.redact = (op'.perform cfg now s').1.redact ∧
    (op.perform cfg now s).2.redact = (op'.perform cfg now s').2.redact := by
  obtain ⟨h₁, h₂⟩ := perform_redact cfg now s op
  obtain ⟨h₁', h₂'⟩ := perform_redact cfg now s' op'
  rw [← h₁, ← h₂, ← h₁', ← h₂', hs, ho]
  exact ⟨rfl, rfl⟩

theorem session_congr (cfg : Config) {s s' : MemoryStore} (hs : s.redact = s'.redact)
    (hc : SameCalls calls calls') :
    (session cfg s calls).2.map Answer.redact = (session cfg s' calls').2.map Answer.redact := by
  induction calls generalizing s s' calls' with
  | nil =>
    obtain rfl := List.map_eq_nil_iff.mp hc.symm
    rfl
  | cons call calls ih =>
    cases calls' with
    | nil => cases hc
    | cons call' calls' =>
      obtain ⟨hh, ht⟩ := List.cons.inj hc
      obtain ⟨now, op⟩ := call
      obtain ⟨now', op'⟩ := call'
      obtain ⟨rfl, ho⟩ := Prod.mk.inj hh
      obtain ⟨h₁, h₂⟩ := perform_congr cfg hs ho now
      simp only [session, List.map_cons]
      rw [h₂]
      exact congrArg _ (ih h₁ ht)

inductive Answer.Alike : Answer → Answer → Prop
  | same (answer : Answer) : Alike answer answer
  | keys {keys keys' : EpochKeys}
      (h : { keys with writeKey := none, readKey := none } =
        { keys' with writeKey := none, readKey := none }) :
      Alike (.epochKeys (.ok keys)) (.epochKeys (.ok keys'))

theorem Answer.redact_cases (a : Answer) : a.redact = a ∨ ∃ keys, a = .epochKeys (.ok keys) := by
  unfold Answer.redact
  split
  · exact .inr ⟨_, rfl⟩
  · exact .inl rfl

theorem Answer.alike_of_redact {a b : Answer} (h : a.redact = b.redact) : a.Alike b := by
  rcases a.redact_cases with ha | ⟨keys, rfl⟩ <;> rcases b.redact_cases with hb | ⟨keys', rfl⟩
  · obtain rfl : a = b := ha.symm.trans (h.trans hb)
    exact .same a
  · obtain rfl : a = _ := ha.symm.trans h
    exact .keys rfl
  · obtain rfl : b = _ := hb.symm.trans h.symm
    exact .keys rfl
  · have hk : keys.redact = keys'.redact := Except.ok.inj (Answer.epochKeys.inj h)
    exact .keys (congrArg (fun k : EpochKeys => { k with writeKey := none, readKey := none }) hk)

/-- Runs that deliver different keys get the same answers, apart from what `EpochKeys` returns. -/
theorem answers_of_delivered_keys (cfg : Config) (s : MemoryStore)
    (calls calls' : List (Time × Operation)) (h : SameCalls calls calls') :
    List.Forall₂ Answer.Alike (session cfg s calls).2 (session cfg s calls').2 := by
  have hm := session_congr cfg (s := s) rfl h
  have ha := List.forall₂_eq_eq_eq.symm ▸ hm
  rw [List.forall₂_map_left_iff, List.forall₂_map_right_iff] at ha
  exact ha.imp fun _ _ => Answer.alike_of_redact

def Sample.delivering (key : Bytes) : Operation :=
  .createGroup {
    groupId := groupId
    initialCommit := some (record alice 0 1 (some {
      kind := .epochDigest
      epochDigest := some {
        epoch := 1
        algId := 1
        mediaTtlSeconds := 0
        durableTtlSeconds := 0
        groupContextHash := none
        expectedWrapCount := 1
        epochKeysDigest := none } }))
    bootstrapWriteKey := List.replicate 32 4
    epochKeys := some ⟨some key, some key⟩ }

open Sample (config delivering groupId)

/-- The keys of two creations are in the rows, and in no answer but that of `EpochKeys`. -/
theorem answers_of_delivered_keys_creation : ∃ created keys keys', (session config .empty
      [(0, delivering (List.replicate 32 1)), (1, .epochKeys groupId 1)]).2 =
        [created, .epochKeys (.ok keys)] ∧
    (session config .empty
      [(0, delivering (List.replicate 32 2)), (1, .epochKeys groupId 1)]).2 =
        [created, .epochKeys (.ok keys')] ∧
    keys.writeKey = some (List.replicate 32 1) ∧ keys'.writeKey = some (List.replicate 32 2) ∧
    List.Forall₂ Answer.Alike [created, .epochKeys (.ok keys)] [created, .epochKeys (.ok keys')] :=
  ⟨_, _, _, rfl, rfl, rfl, rfl, answers_of_delivered_keys config .empty
    [(0, delivering (List.replicate 32 1)), (1, .epochKeys groupId 1)]
    [(0, delivering (List.replicate 32 2)), (1, .epochKeys groupId 1)] rfl⟩

end Session

section Closed

variable {s : MemoryStore} {groupId : Bytes} {g : MemoryGroup}

def MemoryStore.without (s : MemoryStore) (groupId : Bytes) : MemoryStore :=
  ⟨Function.update s.groups groupId none⟩

@[simp] theorem MemoryStore.without_groups : (s.without groupId).groups groupId = none := by
  simp [without]

variable {request : SubmitRequest} {t : MemoryStore} (cfg : Config) (now : Time)

theorem probed_unclaimed (h : ∀ g, s.groups request.groupId = some g → ∀ record ∈ request.records,
      g.claims (claimKeyOf record) = none) :
    probed cfg s request = request.records.map fun record => { record := record } := by
  unfold probed probe
  cases hg : s.groups request.groupId with
  | none => rfl
  | some g =>
    dsimp only
    rw [List.map_map]
    refine List.map_congr_left fun record hr => ?_
    simp [probeOne, h g hg record hr]

theorem submitBatch_unavailable
    (hg : ∀ g, s.groups request.groupId = some g → g.closed = true ∧ ∀ record ∈ request.records,
      g.claims (claimKeyOf record) = none) (hne : request.records ≠ []) :
    (submitBatch cfg now s request).2 = refuseUnavailable (settle
      (request.records.map fun record => { record := record })) := by
  have hp := probed_unclaimed cfg fun g h => (hg g h).2
  obtain ⟨record, records, hr⟩ := List.exists_cons_of_ne_nil hne
  unfold submitBatch
  rcases submitProbe_cases cfg s request with
    ⟨o, ho, -⟩ | ⟨-, ⟨ha, -⟩ | ⟨-, ⟨hn, h⟩ | ⟨⟨g, hs⟩, h⟩⟩⟩
  · have hd : (probed cfg s request).findIdx? (·.probe = .differs) = none := by
      rw [hp, List.findIdx?_eq_none_iff]
      simp
    rw [hd] at ho
    cases ho
  · rw [hp, hr] at ha
    simp [settle] at ha
  · rw [h, hp, hn]
  · rw [h, hp, hs]
    exact congrArg Prod.snd (submitLocked_of_closed cfg now (hg g hs).1)

theorem submit_unavailable
    (hs : ∀ g, s.groups request.groupId = some g → g.closed = true ∧ ∀ record ∈ request.records,
      g.claims (claimKeyOf record) = none) (ht : t.groups request.groupId = none) :
    (submit cfg now s request).2 = (submit cfg now t request).2 := by
  have ht' : ∀ g, t.groups request.groupId = some g → g.closed = true ∧
      ∀ record ∈ request.records, g.claims (claimKeyOf record) = none := by
    intro g hg
    rw [ht] at hg
    cases hg
  unfold submit
  cases hv : validateSubmit request with
  | error e => rfl
  | ok _ =>
    have hne := (validateSubmit_eq_ok.mp hv).2.1
    dsimp only
    rw [submitBatch_unavailable cfg now hs hne, submitBatch_unavailable cfg now ht' hne]

theorem createGroup_taken {request : CreateGroupRequest} {other : Bytes} {g h : MemoryGroup}
    (hs : s.groups request.groupId = some g) (ht : t.groups other = some h)
    (hl : request.groupId.length = groupIdBytes) (hl' : other.length = groupIdBytes) :
    (createGroup cfg now s request).2 =
      (createGroup cfg now t { request with groupId := other }).2 := by
  have hv : validateCreate { request with groupId := other } = validateCreate request := by
    unfold validateCreate checkLength
    simp only [hl, hl']
  unfold createGroup
  rw [hv]
  cases validateCreate request with
  | error e => rfl
  | ok initial =>
    dsimp only
    rw [hs, ht]
    split
    · rfl
    · cases openingOf initial request.epochKeys <;> rfl

variable {ι : Type*} [DecidableEq ι]

/-- Every call answers at a closed group what it answers where there is no group. -/
theorem closed_group_unknown (cfg : Config) (requests : ι → Request) (sched : List (ι × Time))
    (s : MemoryStore) (hrun : s = (run cfg requests sched).shared) (groupId : Bytes)
    (g : MemoryGroup) (hg : s.groups groupId = some g) (hc : g.closed = true) :
    (groupState s groupId = .error .groupUnavailable ∧
      groupState (s.without groupId) groupId = .error .groupUnavailable) ∧
    (∀ now, (closeGroup now s groupId).2 = .error .groupUnavailable ∧
      (closeGroup now (s.without groupId) groupId).2 = .error .groupUnavailable) ∧
    (∀ e, epochKeys s groupId e = .error .epochKeyUnknown ∧
      epochKeys (s.without groupId) groupId e = .error .epochKeyUnknown) ∧
    (∀ request, request.groupId = groupId → fetch s request = .error .groupUnavailable ∧
      fetch (s.without groupId) request = .error .groupUnavailable) ∧
    (∀ now request, request.groupId = groupId →
      (∀ record ∈ request.records, g.claims (claimKeyOf record) = none) →
      (submit cfg now s request).2 = (submit cfg now (s.without groupId) request).2) ∧
    (∀ now request t other h, request.groupId = groupId → t.groups other = some h →
      h.closed = false → other.length = groupIdBytes → (createGroup cfg now s request).2 =
        (createGroup cfg now t { request with groupId := other }).2) := by
  have hl : groupId.length = groupIdBytes := by
    rw [hrun] at hg
    exact run_named cfg requests sched groupId g hg
  have hok : checkLength groupId groupIdBytes = .ok () := by simp [checkLength, hl]
  have hn : (s.without groupId).groups groupId = none := by simp
  refine ⟨?_, fun now => ?_, fun e => ?_, ?_, ?_, ?_⟩
  · simp [groupState, hok, hg, hc]
  · simp [closeGroup, hok, hg, hc]
  · simp [epochKeys, hok, hg, hc]
  · rintro request rfl
    simp [fetch, hok, hg, hc]
  · rintro now request rfl hcl
    refine submit_unavailable cfg now (fun g' hg' => ?_) hn
    cases hg.symm.trans hg'
    exact ⟨hc, hcl⟩
  · rintro now request t other h rfl ho - hl'
    exact createGroup_taken cfg now hg ho hl hl'

theorem closed_group_unknown_founding : ∃ g,
    (run Sample.config ![Sample.createGroup, .closeGroup Sample.groupId]
      [(0, 0), (1, 1)]).shared.groups Sample.groupId = some g ∧ g.closed = true ∧
    (submit Sample.config 2 (run Sample.config ![Sample.createGroup, .closeGroup Sample.groupId]
      [(0, 0), (1, 1)]).shared Sample.marked).2 =
    (submit Sample.config 2 ((run Sample.config ![Sample.createGroup, .closeGroup Sample.groupId]
      [(0, 0), (1, 1)]).shared.without Sample.groupId) Sample.marked).2 :=
  ⟨_, rfl, rfl, (closed_group_unknown Sample.config
    ![Sample.createGroup, .closeGroup Sample.groupId] [(0, 0), (1, 1)] _ rfl Sample.groupId _
    rfl rfl).2.2.2.2.1 2 Sample.marked rfl (List.forall_mem_singleton.mpr rfl)⟩

end Closed

end MessageServer.Store
