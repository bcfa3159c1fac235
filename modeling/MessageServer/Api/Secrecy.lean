import Mathlib.Data.List.Sort
import MessageServer.Api.Reads
import MessageServer.Api.Shape
import MessageServer.Store.Secrecy

/-! # What a request tells its sender

A reader at an epoch ceiling is served from the records at or below it and from
nothing else: whatever a group holds above the ceiling, the answer is the same.
A sender that holds no key of the group gets one refusal, whichever of the
checks refused it.
-/

namespace MessageServer

namespace Store

def MemoryStore.available (s : MemoryStore) (groupId : Bytes) : Bool :=
  (s.groups groupId).any (!·.closed)

def MemoryStore.readKey (s : MemoryStore) (groupId : Bytes) (epoch : ℕ) : Slice := do
  let g ← s.groups groupId
  let row ← g.epochs epoch
  row.readKey

variable {s : MemoryStore} {groupId : Bytes}

theorem MemoryStore.available_iff :
    s.available groupId = true ↔ ∃ g, s.groups groupId = some g ∧ g.closed = false := by
  cases hg : s.groups groupId <;> simp [available, hg]

theorem row_of_epochKeys {e : ℕ} {keys : EpochKeys} (h : epochKeys s groupId e = .ok keys) :
    ∃ g row, s.groups groupId = some g ∧ g.closed = false ∧ g.epochs e = some row ∧
      row.writeKey = keys.writeKey ∧ row.readKey = keys.readKey := by
  unfold epochKeys at h
  rw [bind_eq_ok] at h
  replace h := h.2
  split at h
  · cases h
  · rename_i g hg
    split at h
    · cases h
    · rename_i hc
      split at h
      · cases h
      · rename_i row hr
        split at h
        · cases h
        · cases h
          exact ⟨g, row, hg, by simpa using hc, hr, rfl, rfl⟩

section Below

variable {request : FetchRequest} {rows rows' : List RecordRow} {before before' : FetchResult}

/-- A record without its prune time, which no answer carries. -/
def Record.unpruned (record : Record) : Record := { record with pruneAfter := none }

/-- Two pages that hold the same records, apart from their prune times. -/
structure SamePage (page page' : FetchResult) : Prop where
  records : page.records.map Record.unpruned = page'.records.map Record.unpruned
  nextRecordId : page.nextRecordId = page'.nextRecordId
  highWaterRecordId : page.highWaterRecordId = page'.highWaterRecordId
  complete : page.complete = page'.complete

theorem SamePage.length (h : SamePage before before') :
    before.records.length = before'.records.length := by
  simpa using congrArg List.length h.records

theorem SamePage.fetchPage (h : SamePage before before')
    (hrw : List.Forall₂ (fun a b => a.record = b.record) rows rows') :
    SamePage (fetchPage request before rows) (fetchPage request before' rows') := by
  induction hrw generalizing before before' with
  | nil => exact h
  | @cons a b rows rows' hab _ ih =>
    have hr : (a.read request.headsOnly).unpruned = (b.read request.headsOnly).unpruned := by
      simp [RecordRow.read, Record.unpruned, hab]
    simp only [fetchPage, hab, h.length]
    split_ifs
    · exact ih h
    · exact ih h
    · exact ⟨h.records, h.nextRecordId, h.highWaterRecordId, rfl⟩
    · refine ih ⟨?_, rfl, h.highWaterRecordId, h.complete⟩
      simp only [List.map_append, h.records, List.map_cons, hr, List.map_nil]
    · exact ih h

theorem fetchPage_filter (request : FetchRequest) (rows : List RecordRow) (before : FetchResult) :
    fetchPage request before (rows.filter (·.record.epoch ≤ request.readEpoch)) =
      fetchPage request before rows := by
  induction rows generalizing before with
  | nil => rfl
  | cons row rows ih =>
    by_cases he : row.record.epoch ≤ request.readEpoch
    · rw [List.filter_cons_of_pos (by simpa using he)]
      simp only [fetchPage, ih]
    · rw [List.filter_cons_of_neg (by simpa using he), ih, fetchPage, if_pos (not_le.mp he)]

theorem highWaterRecordId_filter (n : ℕ) (rows : List RecordRow) :
    highWaterRecordId n rows = ((rows.map (·.record)).filter (·.epoch ≤ n)).foldl
      (fun hi record => max hi record.recordId) 0 := by
  unfold highWaterRecordId
  generalize 0 = hi
  induction rows generalizing hi with
  | nil => rfl
  | cons row rows ih =>
    by_cases he : row.record.epoch ≤ n
    · simp [he, ih, not_lt.mpr he]
    · simp [he, ih, not_le.mp he]

theorem samePage_of_below (h : (rows.map (·.record)).filter (·.epoch ≤ request.readEpoch) =
    (rows'.map (·.record)).filter (·.epoch ≤ request.readEpoch)) :
    SamePage (request.page rows) (request.page rows') := by
  unfold FetchRequest.page
  rw [← fetchPage_filter request rows, ← fetchPage_filter request rows']
  refine SamePage.fetchPage ⟨rfl, rfl, ?_, rfl⟩ ?_
  · simp only [highWaterRecordId_filter, h]
  · rw [List.filter_map, List.filter_map] at h
    have ha := List.forall₂_eq_eq_eq.symm ▸ h
    rwa [List.forall₂_map_left_iff, List.forall₂_map_right_iff] at ha

theorem filter_eq_of_mem_iff {l l' : List Record} {n : ℕ}
    (hl : l.Pairwise fun a b => a.recordId < b.recordId)
    (hl' : l'.Pairwise fun a b => a.recordId < b.recordId)
    (h : ∀ r, r.epoch ≤ n → (r ∈ l ↔ r ∈ l')) :
    l.filter (·.epoch ≤ n) = l'.filter (·.epoch ≤ n) := by
  have : Std.Irrefl fun a b : Record => a.recordId < b.recordId := ⟨fun _ => lt_irrefl _⟩
  have : Std.Antisymm fun a b : Record => a.recordId < b.recordId :=
    ⟨fun _ _ hab hba => absurd hab (lt_asymm hba)⟩
  refine (hl.filter _).eq_of_mem_iff (hl'.filter _) fun r => ?_
  simp only [List.mem_filter, decide_eq_true_eq]
  constructor
  · rintro ⟨hr, he⟩
    exact ⟨(h r he).mp hr, he⟩
  · rintro ⟨hr, he⟩
    exact ⟨(h r he).mpr hr, he⟩

/-- Two stores that a reader at a ceiling of one group cannot tell apart. -/
structure SameBelow (a b : MemoryStore) (groupId : Bytes) (n : ℕ) : Prop where
  available : a.available groupId = b.available groupId
  readKey : a.readKey groupId n = b.readKey groupId n
  records : ∀ r : Record, r.epoch ≤ n → (r ∈ a.log groupId ↔ r ∈ b.log groupId)

theorem fetch_of_unavailable (hl : request.groupId.length = groupIdBytes)
    (ha : s.available request.groupId = false) : fetch s request = .error .groupUnavailable := by
  have hok : checkLength request.groupId groupIdBytes = .ok () := by simp [checkLength, hl]
  cases hg : s.groups request.groupId with
  | none => simp [fetch, hok, hg]
  | some g =>
    have hc : g.closed = true := by simpa [MemoryStore.available, hg] using ha
    simp [fetch, hok, hg, hc]

theorem SameBelow.fetch (request : FetchRequest) {a b : MemoryStore}
    (h : SameBelow a b request.groupId request.readEpoch)
    (ha : (a.log request.groupId).Pairwise fun x y => x.recordId < y.recordId)
    (hb : (b.log request.groupId).Pairwise fun x y => x.recordId < y.recordId)
    (hl : request.groupId.length = groupIdBytes) :
    (fetch a request = .error .groupUnavailable ∧ fetch b request = .error .groupUnavailable) ∨
      ∃ page page', fetch a request = .ok page ∧ fetch b request = .ok page' ∧
        SamePage page page' := by
  cases hav : a.available request.groupId with
  | false => exact .inl ⟨fetch_of_unavailable hl hav, fetch_of_unavailable hl (h.available ▸ hav)⟩
  | true =>
    obtain ⟨g, hg, hc⟩ := MemoryStore.available_iff.mp hav
    obtain ⟨g', hg', hc'⟩ := MemoryStore.available_iff.mp (h.available ▸ hav)
    refine .inr ⟨_, _, fetch_eq_ok.mpr ⟨hl, g, hg, hc, rfl⟩,
      fetch_eq_ok.mpr ⟨hl, g', hg', hc', rfl⟩, samePage_of_below ?_⟩
    rw [← MemoryStore.log_of_group hg, ← MemoryStore.log_of_group hg']
    exact filter_eq_of_mem_iff ha hb h.records

end Below

end Store

namespace Api

open Store MemoryStore Handler

section Checks

variable {h : Handler} {s : Server} {groupId : Bytes} {e : ℕ}

theorem groupState_cases (hl : groupId.length = groupIdBytes) (s : MemoryStore) :
    (s.available groupId = true ∧ ∃ state, groupState s groupId = .ok state) ∨
      s.available groupId = false ∧ groupState s groupId = .error .groupUnavailable := by
  have hok : checkLength groupId groupIdBytes = .ok () := by simp [checkLength, hl]
  cases hg : s.groups groupId with
  | none =>
    exact .inr ⟨by simp [MemoryStore.available, hg], by
      simp [groupState, hok, hg]⟩
  | some g =>
    cases hc : g.closed with
    | true =>
      exact .inr ⟨by simp [MemoryStore.available, hg, hc], by
        simp [groupState, hok, hg, hc]⟩
    | false =>
      exact .inl ⟨by simp [MemoryStore.available, hg, hc], g.state, by
        simp [groupState, hok, hg, hc, bind, Except.bind, pure, Except.pure]⟩

def Server.lists (filter : KnownGroups) (s : Server) (groupId : Bytes) : Bool :=
  s.known groupId || (match filter with
    | .memory => false
    | .store => s.store.available groupId)

theorem contains_eq (filter : KnownGroups) (s : Server) (hl : groupId.length = groupIdBytes) :
    (contains filter s groupId).1.store = s.store ∧
    (contains filter s groupId).1.subscriptions = s.subscriptions ∧
    (contains filter s groupId).2 =
      if s.lists filter groupId then .ok () else .error .rejected := by
  unfold contains Server.lists
  cases hk : s.known groupId with
  | true => exact ⟨rfl, rfl, rfl⟩
  | false =>
    cases filter with
    | memory => exact ⟨rfl, rfl, rfl⟩
    | store =>
      rcases groupState_cases hl s.store with ⟨ha, state, hs⟩ | ⟨ha, hs⟩ <;>
        simp [hs, ha, Server.insert]

theorem readKeyOf_eq (hl : groupId.length = groupIdBytes) (s : MemoryStore) :
    readKeyOf s groupId e = if s.available groupId then s.readKey groupId e else none := by
  cases hk : epochKeys s groupId e with
  | ok keys =>
    obtain ⟨g, row, hg, hc, hrw, -, hr⟩ := row_of_epochKeys hk
    simp [readKeyOf, hk, MemoryStore.available, readKey, hg, hc, hrw, hr]
  | error err =>
    cases ha : s.available groupId with
    | false => simp [readKeyOf, hk]
    | true =>
      obtain ⟨g, hg, hc⟩ := MemoryStore.available_iff.mp ha
      cases hrw : g.epochs e with
      | none => simp [readKeyOf, hk, readKey, hg, hrw]
      | some row =>
        cases hr : row.readKey with
        | none => simp [readKeyOf, hk, readKey, hg, hrw, hr]
        | some key =>
          have hok := epochKeys_of_row hl hg hc hrw (by simp [hr])
          rw [hk] at hok
          cases hok

def Handler.Reads (h : Handler) (s : MemoryStore) (conn : Connection) (groupId : Bytes)
    (readEpoch op : ℕ) (canonical : Option Bytes) (reqAuth : Bytes) : Prop :=
  s.available groupId = true ∧ ∃ readKey bytes, s.readKey groupId readEpoch = some readKey ∧
    canonical = some bytes ∧
    h.layer.verifyRequestAuth readKey conn.serverNonce op bytes reqAuth = true

/-- The read path lets a reader through, or refuses in one way; it changes no group. -/
theorem checkRead_eq (h : Handler) (s : Server) (conn : Connection)
    (hl : groupId.length = groupIdBytes) (readEpoch op : ℕ) (canonical : Option Bytes)
    (reqAuth : Bytes) :
    (h.checkRead s conn groupId readEpoch op canonical reqAuth).1.store = s.store ∧
    (h.checkRead s conn groupId readEpoch op canonical reqAuth).1.subscriptions = s.subscriptions ∧
    (((h.checkRead s conn groupId readEpoch op canonical reqAuth).2 = .ok () ∧
        s.lists h.knownGroups groupId = true ∧
        h.Reads s.store conn groupId readEpoch op canonical reqAuth) ∨
      ((h.checkRead s conn groupId readEpoch op canonical reqAuth).2 = .error .rejected ∧
        ¬ (s.lists h.knownGroups groupId = true ∧
          h.Reads s.store conn groupId readEpoch op canonical reqAuth))) := by
  obtain ⟨hs, hr, hc⟩ := contains_eq h.knownGroups s hl
  unfold checkRead
  cases hx : contains h.knownGroups s groupId with
  | mk t result =>
    rw [hx] at hs hr hc
    dsimp only at hs hr hc
    cases hls : s.lists h.knownGroups groupId with
    | false =>
      simp only [hls, Bool.false_eq_true, if_false] at hc
      subst hc
      exact ⟨hs, hr, .inr ⟨rfl, by simp⟩⟩
    | true =>
      simp only [hls, if_true] at hc
      subst hc
      dsimp only
      rw [readKeyOf_eq hl, hs]
      unfold Reads
      rcases s.store.available groupId with _ | _
      · simp [hs, hr]
      rcases s.store.readKey groupId readEpoch with _ | readKey
      · simp [hs, hr]
      rcases canonical with _ | bytes
      · simp [hs, hr]
      cases hv : h.layer.verifyRequestAuth readKey conn.serverNonce op bytes reqAuth <;>
        simp [hs, hr, failIf, hv]

end Checks

section Ceiling

variable {h : Reader} {s : Server} {a b : MemoryStore} {groupId : Bytes} {n : ℕ}

theorem lists_congr (filter : KnownGroups) (hab : SameBelow a b groupId n) :
    ({ s with store := a } : Server).lists filter groupId =
      ({ s with store := b } : Server).lists filter groupId := by
  unfold Server.lists
  cases filter with
  | memory => rfl
  | store => rw [hab.available]

theorem reads_congr (hab : SameBelow a b groupId n) {h : Handler} {conn : Connection}
    {op : ℕ} {canonical : Option Bytes} {reqAuth : Bytes} :
    h.Reads a conn groupId n op canonical reqAuth ↔
      h.Reads b conn groupId n op canonical reqAuth := by
  unfold Reads
  rw [hab.available, hab.readKey]

theorem checkRead_congr (h : Handler) (s : Server) (hab : SameBelow a b groupId n)
    (conn : Connection) (hl : groupId.length = groupIdBytes) (op : ℕ) (canonical : Option Bytes)
    (reqAuth : Bytes) :
    ∃ t t' : Server, (t.store = a ∧ t.subscriptions = s.subscriptions) ∧
      (t'.store = b ∧ t'.subscriptions = s.subscriptions) ∧
      ∃ result, h.checkRead { s with store := a } conn groupId n op canonical reqAuth =
        (t, result) ∧
      h.checkRead { s with store := b } conn groupId n op canonical reqAuth = (t', result) := by
  obtain ⟨hs, hr, hc⟩ := checkRead_eq h { s with store := a } conn hl n op canonical reqAuth
  obtain ⟨hs', hr', hc'⟩ := checkRead_eq h { s with store := b } conn hl n op canonical reqAuth
  rw [← lists_congr h.knownGroups hab, ← reads_congr hab] at hc'
  have heq : (h.checkRead { s with store := a } conn groupId n op canonical reqAuth).2 =
      (h.checkRead { s with store := b } conn groupId n op canonical reqAuth).2 := by
    rcases hc with ⟨hc, hp⟩ | ⟨hc, hno⟩ <;> rcases hc' with ⟨hc', hp'⟩ | ⟨hc', hno'⟩
    · rw [hc, hc']
    · exact absurd hp hno'
    · exact absurd hp' hno
    · rw [hc, hc']
  exact ⟨_, _, ⟨hs, hr⟩, ⟨hs', hr'⟩, _, Prod.ext rfl rfl, Prod.ext rfl heq.symm⟩

theorem mapM_rebuildRecord (layer : Message.RecordLayer) (groupId : Bytes) (headsOnly : Bool)
    (records : List Record) :
    (records.mapM fun record => rebuildRecord layer groupId record headsOnly) =
      (records.map Record.unpruned).mapM fun record =>
        rebuildRecord layer groupId record headsOnly := by
  rw [List.mapM_map]
  rfl

theorem servePage_congr (h : Reader) {request : Protocol.FetchRequest}
    (hab : SameBelow a b request.groupId request.readEpoch)
    (ha : (a.log request.groupId).Pairwise fun x y => x.recordId < y.recordId)
    (hb : (b.log request.groupId).Pairwise fun x y => x.recordId < y.recordId)
    (hl : request.groupId.length = groupIdBytes) :
    h.servePage a request = h.servePage b request := by
  unfold Reader.servePage
  rcases SameBelow.fetch ⟨request.groupId, request.sinceRecordId,
    h.fetchLimit request.limit, request.headsOnly, request.classMask, request.readEpoch⟩
    hab ha hb hl with ⟨hf, hf'⟩ | ⟨page, page', hf, hf', hp⟩
  · rw [hf, hf']
  · rw [hf, hf']
    dsimp only
    rw [mapM_rebuildRecord, hp.records, ← mapM_rebuildRecord, hp.nextRecordId,
      hp.highWaterRecordId, hp.complete]

theorem register_congr {t t' : Server} (ht : t.store = a) (ht' : t'.store = b)
    (hr : t.subscriptions = t'.subscriptions) {wanted : Protocol.Subscription}
    (hab : SameBelow a b wanted.groupId n)
    (ha : (a.log wanted.groupId).Pairwise fun x y => x.recordId < y.recordId)
    (hb : (b.log wanted.groupId).Pairwise fun x y => x.recordId < y.recordId)
    (hl : wanted.groupId.length = groupIdBytes) (conn : Connection) (replace : Bool) :
    (t.register conn wanted n replace).2 = (t'.register conn wanted n replace).2 := by
  unfold Server.register
  rw [ht, ht', ← hr]
  rcases SameBelow.fetch ⟨wanted.groupId, wanted.sinceRecordId, 1, true, 0, n⟩ hab ha hb hl
    with ⟨hf, hf'⟩ | ⟨page, page', hf, hf', hp⟩
  · rw [hf, hf']
  · rw [hf, hf']
    cases t.subscriptions with
    | none => rfl
    | some registry =>
      dsimp only
      rw [hp.highWaterRecordId]
      split <;> rfl

variable {ι κ : Type*} [DecidableEq ι] [DecidableEq κ]

/-- Two stores that agree on what lies at or below a ceiling answer a reader at it alike. -/
theorem reads_below_ceiling (h : Reader) (s : Server) (requests : ι → Store.Request)
    (sched : List (ι × Time)) (requests' : κ → Store.Request) (sched' : List (κ × Time))
    (a b : MemoryStore) (ha : a = (Store.run h.store requests sched).shared)
    (hb : b = (Store.run h.store requests' sched').shared) (groupId : Bytes) (n : ℕ)
    (hab : SameBelow a b groupId n) :
    (∀ r : Incoming Protocol.FetchRequest, r.body.groupId = groupId → r.body.readEpoch = n →
      (h.fetch { s with store := a } r).2 = (h.fetch { s with store := b } r).2) ∧
    (∀ r : Incoming Protocol.SubscribeRequest, r.body.readEpoch = n →
      (∀ wanted ∈ r.body.subscriptions, wanted.groupId = groupId) →
      (h.subscribe { s with store := a } r).2 = (h.subscribe { s with store := b } r).2) := by
  have hoa := run_log_inOrder h.store requests sched groupId
  have hob := run_log_inOrder h.store requests' sched' groupId
  rw [← ha] at hoa
  rw [← hb] at hob
  constructor
  · rintro r rfl rfl
    unfold Reader.fetch
    split
    · rfl
    · split
      · rfl
      · rename_i hsh
        have hl : r.body.groupId.length = groupIdBytes := by tauto
        obtain ⟨t, t', ⟨ht, -⟩, ⟨ht', -⟩, result, hc, hc'⟩ := checkRead_congr h.toHandler s hab
          r.conn hl opFetch (h.marshalFetch { r.body with reqAuth := [] }) r.body.reqAuth
        rw [hc, hc']
        cases result with
        | error reason => rfl
        | ok _ =>
          dsimp only
          rw [ht, ht']
          exact servePage_congr h hab hoa hob hl
  · rintro r rfl hwn
    unfold subscribe
    split
    · rfl
    · cases hs : s.subscriptions with
      | none => rfl
      | some registry =>
        cases hw : r.body.subscriptions with
        | nil => rfl
        | cons wanted others =>
          cases others with
          | cons => rfl
          | nil =>
            obtain rfl := hwn wanted (by simp [hw])
            dsimp only
            split
            · rfl
            · rename_i hsh
              have hl : wanted.groupId.length = groupIdBytes := by tauto
              obtain ⟨t, t', ⟨ht, hr⟩, ⟨ht', hr'⟩, result, hc, hc'⟩ := checkRead_congr h.toHandler
                s hab r.conn hl opSubscribe (canonicalRequestBytes h.toHandler r.body)
                r.body.reqAuth
              rw [← hs, hc, hc']
              cases result with
              | error reason => rfl
              | ok _ =>
                exact register_congr ht ht' (hr.trans hr'.symm) hab hoa hob hl r.conn r.body.replace

end Ceiling

open Sample
open Store.Sample (alice groupId marker)

/-- Two epochs, the second of them completed by the last call. -/
def Sample.twoEpochs : ℕ → Store.Request
  | 0 => Store.Sample.createGroup
  | 1 => Store.Sample.submit [marker alice 1 2]
  | 2 => Store.Sample.submit [Store.Sample.commit alice 1 3]
  | _ => Store.Sample.submit [marker alice 2 4]

def Sample.oneEpochOrder : List (ℕ × Time) := [(0, 0), (1, 1), (1, 2), (2, 3), (2, 4)]

def Sample.oneEpoch : MemoryStore :=
  (Store.run reader.store twoEpochs oneEpochOrder).shared

def Sample.completed : MemoryStore :=
  (Store.run reader.store twoEpochs (oneEpochOrder ++ [(3, 5), (3, 6)])).shared

/-- A reader at the first epoch is not told of the marker that completes the second. -/
theorem reads_below_ceiling_marker : (oneEpoch.log groupId).length = 3 ∧
    (completed.log groupId).length = 4 ∧
    (reader.fetch { Server.empty none with store := oneEpoch }
      (fetching 1 3)).2.2.map (·.records.length) = some 3 ∧
    (reader.fetch { Server.empty none with store := oneEpoch }
      (fetching 1 3)).2 =
    (reader.fetch { Server.empty none with store := completed }
      (fetching 1 3)).2 := by
  have hl : completed.log groupId = oneEpoch.log groupId ++
        [stamp (marker alice 2 4) 4] := by decide +kernel
  have hab : SameBelow oneEpoch completed groupId 1 := by
    refine ⟨by decide +kernel, by decide +kernel, fun r hr => ?_⟩
    rw [hl, List.mem_append, List.mem_singleton]
    constructor
    · exact .inl
    · rintro (h | rfl)
      · exact h
      · exact absurd hr (by decide)
  exact ⟨by decide +kernel, by decide +kernel, by decide +kernel,
    (reads_below_ceiling reader (.empty none) twoEpochs oneEpochOrder
      twoEpochs (oneEpochOrder ++ [(3, 5), (3, 6)]) _ _ rfl rfl
      groupId 1 hab).1 (fetching 1 3) rfl rfl⟩

section Unauthenticated

def Handler.Writes (h : Handler) (s : MemoryStore) (conn : Connection)
    (request : Protocol.SubmitRequest) : Prop :=
  s.available request.groupId = true ∧ ∀ sent ∈ request.records, ∀ record,
    h.parse sent = some record → ∃ writeKey,
      s.writeKey request.groupId record.parsed.header.epoch = some writeKey ∧
      h.layer.verifyWriteAuth writeKey conn.serverNonce record.parsed = true

/-- The requests left the groups and the registry as they were. -/
def Server.Untouched (s t : Server) : Prop :=
  t.store = s.store ∧ t.subscriptions = s.subscriptions

theorem refusalAnswer_rejected (count : ℕ) (index : Option ℕ) :
    refusalAnswer count ⟨.rejected, index⟩ = refusalAnswer count ⟨.rejected, none⟩ := by
  simp [refusalAnswer, refuseBatch]

variable {result : Protocol.SubmitResult} {refused : Refusal}

theorem refusalAnswer_results {count : ℕ} (hr : result ∈ (refusalAnswer count refused).results) :
    result = { reason := result.reason } := by
  unfold refusalAnswer at hr
  split at hr
  · simp at hr
  · obtain ⟨index, -, rfl⟩ := List.mem_map.mp hr
    rfl

theorem forEach_error {α β : Type} {check : ℕ → α → Except Reason β} {index : ℕ} {as : List α}
    (h : forEach check index as = .error refused) :
    ∃ i a, a ∈ as ∧ check i a = .error refused.reason := by
  induction as generalizing index with
  | nil => cases h
  | cons a as ih =>
    unfold forEach at h
    split at h
    · rename_i reason hc
      cases h
      exact ⟨index, a, List.mem_cons_self, hc⟩
    · cases hr : forEach check (index + 1) as with
      | ok bs =>
        rw [hr] at h
        cases h
      | error refused' =>
        rw [hr] at h
        cases h
        obtain ⟨i, b, hb, hc⟩ := ih hr
        exact ⟨i, b, List.mem_cons_of_mem _ hb, hc⟩

variable {h : Handler} {s : Server} {conn : Connection} {groupId : Bytes} {clock : ℕ → Time}

/-- Check 6 refuses in one way, or finds the key an open group holds for every record. -/
theorem checkEpochKey_cases (store : MemoryStore) (groupId : Bytes) (todo : List CheckedRecord) :
    (∃ i, checkEpochKey store groupId (fun _ => none) 0 todo = .error ⟨.rejected, i⟩) ∨
    ∃ records, checkEpochKey store groupId (fun _ => none) 0 todo = .ok records ∧
      records.map (·.toCheckedRecord) = todo ∧ ∀ record ∈ records, store.available groupId = true ∧
        store.writeKey groupId record.parsed.header.epoch = some record.writeKey := by
  rw [checkEpochKey_eq (by simp)]
  cases hf : forEach _ 0 todo with
  | error refused =>
    obtain ⟨reason, index⟩ := refused
    obtain ⟨-, record, -, hc⟩ := forEach_error hf
    refine .inl ⟨index, ?_⟩
    cases hk : lookupKey store groupId (fun _ => none) record.parsed.header.epoch <;>
      rw [hk] at hc <;> cases hc
    rfl
  | ok records =>
    have hr := (forall₂_of_forEach hf).imp (S := fun checked record =>
      checked = record.toCheckedRecord ∧ store.available groupId = true ∧
        store.writeKey groupId record.parsed.header.epoch = some record.writeKey) ?_
    · refine .inr ⟨records, rfl, ?_, fun record hm => ?_⟩
      · rw [eq_comm, ← List.forall₂_eq_eq_eq, List.forall₂_map_right_iff]
        exact hr.imp fun _ _ h => h.1
      · obtain ⟨_, _, h⟩ := (exists_of_forall₂ hr).2 record hm
        exact h.2
    · rintro checked record ⟨-, hc⟩
      obtain ⟨key, hk, rfl⟩ := map_eq_ok.mp hc
      have hk := orFail_eq_ok.mp hk
      unfold lookupKey at hk
      dsimp only at hk
      split at hk
      · rename_i keys hky
        obtain ⟨g, row, hg, hc, hrw, hw, -⟩ := row_of_epochKeys hky
        exact ⟨rfl, MemoryStore.available_iff.mpr ⟨g, hg, hc⟩,
          writeKey_eq_some.mpr ⟨g, row, hg, hrw, hw.trans hk⟩⟩
      · cases hk

theorem checkRecords_of_unauthenticated {request : Protocol.SubmitRequest} {pass : Pass}
    (hp : h.Passed clock request pass) (hu : ¬ h.Writes s.store conn request) :
    ∃ i, h.checkRecords s.store conn request.groupId pass = .error ⟨.rejected, i⟩ := by
  unfold checkRecords
  rcases checkEpochKey_cases s.store request.groupId pass.records with
    ⟨i, hi⟩ | ⟨records, hr, hm, hk⟩
  · exact ⟨i, by rw [hi]; rfl⟩
  · cases ha : h.checkWriteAuth conn records with
    | error refused =>
      obtain ⟨i, record, -, hc⟩ := forEach_error ha
      obtain ⟨reason, index⟩ := refused
      obtain rfl : reason = .rejected := by
        unfold failIf at hc
        split at hc
        · exact (Except.error.inj hc).symm
        · cases hc
      exact ⟨index, by simp only [hr, bind, Except.bind, ha]⟩
    | ok us =>
      have hat := forEach_unit_eq_ok.mp ⟨us, ha⟩
      have hmm : ∀ checked ∈ pass.records, ∃ record ∈ records,
          record.toCheckedRecord = checked := by
        intro checked hc
        rw [← hm] at hc
        exact List.mem_map.mp hc
      have hpr := exists_of_forall₂ hp.parse
      refine absurd ⟨?_, fun sent hs record hre => ?_⟩ hu
      · obtain ⟨sent, hs⟩ := List.exists_mem_of_length_pos (Nat.pos_of_ne_zero hp.nonempty)
        obtain ⟨checked, hc, -⟩ := hpr.1 sent hs
        obtain ⟨record, hrc, -⟩ := hmm checked hc
        exact (hk record hrc).1
      · obtain ⟨checked, hc, hpc⟩ := hpr.1 sent hs
        obtain rfl := Option.some.inj (hpc.symm.trans hre)
        obtain ⟨record, hrc, rfl⟩ := hmm checked hc
        refine ⟨record.writeKey, (hk record hrc).2, ?_⟩
        simpa using hat record hrc

def Handler.submitRefusal (h : Handler) (clock : ℕ → Time) (r : Incoming Protocol.SubmitRequest) :
    Answer :=
  if frontChecks r.front ≠ .ok then ⟨frontChecks r.front, []⟩
  else
    match h.checkStaticShape clock r.body with
    | .error refused => refusalAnswer r.body.records.length refused
    | .ok _ => refusalAnswer r.body.records.length ⟨.rejected, none⟩

theorem submitRefusal_results {r : Incoming Protocol.SubmitRequest}
    (hr : result ∈ (h.submitRefusal clock r).results) :
    result = { reason := result.reason } := by
  unfold submitRefusal at hr
  split at hr
  · simp at hr
  · split at hr <;> exact refusalAnswer_results hr

theorem submit_of_unauthenticated (clock : ℕ → Time) (now : Time)
    (r : Incoming Protocol.SubmitRequest) (hu : ¬ h.Writes s.store r.conn r.body) :
    s.Untouched (h.submit clock now s r).1 ∧
      (h.submit clock now s r).2 = h.submitRefusal clock r := by
  unfold Handler.submit submitRefusal
  split
  · exact ⟨⟨rfl, rfl⟩, rfl⟩
  · cases hp : h.checkStaticShape clock r.body with
    | error refused => exact ⟨⟨rfl, rfl⟩, rfl⟩
    | ok pass =>
      have hps := checkStaticShape_eq_ok.mp hp
      obtain ⟨hs, hr, hc⟩ := contains_eq h.knownGroups s hps.groupId
      cases hx : contains h.knownGroups s r.body.groupId with
      | mk t result =>
        rw [hx] at hs hr hc
        dsimp only at hs hr hc
        cases hl : s.lists h.knownGroups r.body.groupId with
        | false =>
          simp only [hl, Bool.false_eq_true, if_false] at hc
          subst hc
          exact ⟨⟨hs, hr⟩, rfl⟩
        | true =>
          simp only [hl, if_true] at hc
          subst hc
          rw [← hs] at hu
          obtain ⟨i, hi⟩ := checkRecords_of_unauthenticated hps hu
          dsimp only
          rw [hi]
          exact ⟨⟨hs, hr⟩, refusalAnswer_rejected _ _⟩

theorem fetch_of_unauthenticated {h : Reader} (r : Incoming Protocol.FetchRequest)
    (hu : ¬ h.Reads s.store r.conn r.body.groupId r.body.readEpoch opFetch
      (h.marshalFetch { r.body with reqAuth := [] }) r.body.reqAuth) :
    s.Untouched (h.fetch s r).1 ∧ (h.fetch s r).2 =
      (if frontChecks r.front ≠ .ok then frontChecks r.front else .rejected, none) := by
  unfold Reader.fetch
  split
  · exact ⟨⟨rfl, rfl⟩, rfl⟩
  · split
    · exact ⟨⟨rfl, rfl⟩, rfl⟩
    · rename_i hsh
      have hl : r.body.groupId.length = groupIdBytes := by tauto
      obtain ⟨hs, hrg, ⟨-, -, hr⟩ | ⟨hc, -⟩⟩ := checkRead_eq h.toHandler s r.conn hl
        r.body.readEpoch opFetch (h.marshalFetch { r.body with reqAuth := [] }) r.body.reqAuth
      · exact absurd hr hu
      · cases hx : h.checkRead s r.conn r.body.groupId r.body.readEpoch opFetch
            (h.marshalFetch { r.body with reqAuth := [] }) r.body.reqAuth with
        | mk t result =>
          rw [hx] at hs hrg hc
          dsimp only at hs hrg hc
          subst hc
          exact ⟨⟨hs, hrg⟩, rfl⟩

theorem subscribe_of_unauthenticated (r : Incoming Protocol.SubscribeRequest)
    (hu : ∀ wanted, r.body.subscriptions = [wanted] →
      ¬ h.Reads s.store r.conn wanted.groupId r.body.readEpoch opSubscribe
        (canonicalRequestBytes h r.body) r.body.reqAuth) :
    s.Untouched (h.subscribe s r).1 ∧ (h.subscribe s r).2 =
      (if frontChecks r.front ≠ .ok then frontChecks r.front
        else if s.subscriptions.isNone then .internal else .rejected, none) := by
  unfold subscribe
  split
  · exact ⟨⟨rfl, rfl⟩, rfl⟩
  · cases hsb : s.subscriptions with
    | none => exact ⟨⟨rfl, rfl⟩, rfl⟩
    | some registry =>
      cases hw : r.body.subscriptions with
      | nil => exact ⟨⟨rfl, rfl⟩, rfl⟩
      | cons wanted others =>
        cases others with
        | cons => exact ⟨⟨rfl, rfl⟩, rfl⟩
        | nil =>
          dsimp only
          split
          · exact ⟨⟨rfl, rfl⟩, rfl⟩
          · rename_i hsh
            have hl : wanted.groupId.length = groupIdBytes := by tauto
            obtain ⟨hs, hrg, ⟨-, -, hr⟩ | ⟨hc, -⟩⟩ := checkRead_eq h s r.conn hl
              r.body.readEpoch opSubscribe (canonicalRequestBytes h r.body) r.body.reqAuth
            · exact absurd hr (hu wanted hw)
            · cases hx : h.checkRead s r.conn wanted.groupId r.body.readEpoch opSubscribe
                  (canonicalRequestBytes h r.body) r.body.reqAuth with
              | mk t result =>
                rw [hx] at hs hrg hc
                dsimp only at hs hrg hc
                subst hc
                exact ⟨⟨hs, hrg⟩, rfl⟩

/-- A request that authenticates on neither of two servers is answered alike and changes neither. -/
theorem unauthenticated_learns_nothing (h : Reader) (s s' : Server)
    (hreg : s'.subscriptions = s.subscriptions) :
    (∀ clock now, ∀ r : Incoming Protocol.SubmitRequest,
      ¬ h.Writes s.store r.conn r.body → ¬ h.Writes s'.store r.conn r.body →
      (h.submit clock now s r).2 = (h.submit clock now s' r).2 ∧
      s.Untouched (h.submit clock now s r).1 ∧ s'.Untouched (h.submit clock now s' r).1 ∧
      ∀ result ∈ (h.submit clock now s r).2.results, result = { reason := result.reason }) ∧
    (∀ r : Incoming Protocol.FetchRequest,
      (∀ t ∈ [s, s'], ¬ h.Reads t.store r.conn r.body.groupId r.body.readEpoch opFetch
        (h.marshalFetch { r.body with reqAuth := [] }) r.body.reqAuth) →
      (h.fetch s r).2 = (h.fetch s' r).2 ∧ (h.fetch s r).2.2 = none ∧
      s.Untouched (h.fetch s r).1 ∧ s'.Untouched (h.fetch s' r).1) ∧
    (∀ r : Incoming Protocol.SubscribeRequest,
      (∀ t ∈ [s, s'], ∀ wanted, r.body.subscriptions = [wanted] →
        ¬ h.Reads t.store r.conn wanted.groupId r.body.readEpoch opSubscribe
          (canonicalRequestBytes h.toHandler r.body) r.body.reqAuth) →
      (h.subscribe s r).2 = (h.subscribe s' r).2 ∧ (h.subscribe s r).2.2 = none ∧
      s.Untouched (h.subscribe s r).1 ∧ s'.Untouched (h.subscribe s' r).1) := by
  refine ⟨fun clock now r hu hu' => ?_, fun r hu => ?_, fun r hu => ?_⟩
  · obtain ⟨hs, ha⟩ := submit_of_unauthenticated clock now r hu
    obtain ⟨hs', ha'⟩ := submit_of_unauthenticated clock now r hu'
    rw [ha, ha']
    exact ⟨rfl, hs, hs', fun _ => submitRefusal_results⟩
  · obtain ⟨hs, ha⟩ := fetch_of_unauthenticated r (hu s (by simp))
    obtain ⟨hs', ha'⟩ := fetch_of_unauthenticated r (hu s' (by simp))
    rw [ha, ha']
    exact ⟨rfl, rfl, hs, hs'⟩
  · obtain ⟨hs, ha⟩ := subscribe_of_unauthenticated r (hu s (by simp))
    obtain ⟨hs', ha'⟩ := subscribe_of_unauthenticated r (hu s' (by simp))
    rw [ha, ha', hreg]
    exact ⟨rfl, rfl, hs, hs'⟩

end Unauthenticated

/-- The marker of an epoch, sent over a connection it was not sealed for. -/
def Sample.replayed : Incoming Protocol.SubmitRequest :=
  { submission 4 1 2 5 with conn := conn 9 }

/-- A server that holds the group, and one that does not. -/
theorem unauthenticated_learns_nothing_replayed :
    ((run handler none ![createGroup] (inTurn 1)).shared.store.available
      groupId = true) ∧
    (reader.submit (fun _ => 0) 0
      (run handler none ![createGroup] (inTurn 1)).shared replayed).2 =
    (reader.submit (fun _ => 0) 0 (.empty none) replayed).2 := by
  have hky : (run handler none ![createGroup] (inTurn 1)).shared.store.writeKey groupId 1 =
      some (writeKey 1) := by decide +kernel
  have hr : (run handler none ![createGroup] (inTurn 1)).shared.subscriptions = none :=
    Option.isNone_iff_eq_none.mp (by decide +kernel)
  refine ⟨by decide +kernel, ((unauthenticated_learns_nothing reader _ _
    hr.symm).1 (fun _ => 0) 0 replayed ?_ ?_).1⟩
  · rintro ⟨-, hal⟩
    obtain ⟨key, hk, hv⟩ := hal _ (List.mem_singleton_self _) _ rfl
    cases hky.symm.trans hk
    exact absurd hv (by decide +kernel)
  · rintro ⟨ha, -⟩
    cases ha

end Api

end MessageServer
