import MessageServer.Api.Authentic

/-! # A submission sent again

The store answers a retried batch at its first step, but the retry has to come
that far: its windows are read off the clock, and its keys may have been erased.
While neither has moved too far it passes every check the first one passed, and
is answered with the ids the first one was given.
-/

namespace MessageServer.Api

open Interleaving Protocol Message Handler
open Store hiding CreateGroupRequest EpochKeyDelivery SubmitRequest SubmitResult

def Call.finished : Call → Option (List KeyedRecord × Answer)
  | .submitting _ _ (.finished records _ answer) => some (records, answer)
  | _ => none

section Kept

variable {h : Handler} {tick : Tick} {s : Server}

def Call.Admitted (s : Server) : Call → Prop
  | .submitting _ _ (.filter _) => True
  | .submitting r _ _ => s.known r.body.groupId = true
  | _ => True

def Relays (h : Handler) (groupId : Bytes) (call : Store.Call) (answer : Answer) : Prop :=
  ∃ request batch, call = .submitted request batch ∧
    answer = ⟨.ok, (resultsOf batch).map (h.resultOf groupId)⟩

/-- A submission that the store has answered relays the answer, or was failed by the store. -/
def Call.Relayed (h : Handler) : Call → Prop
  | .submitting r _ (.publishing _ call answer) => Relays h r.body.groupId call answer
  | .submitting r _ (.finished _ call answer) => Relays h r.body.groupId call answer ∨
    answer = refusalAnswer r.body.records.length ⟨.internal, none⟩
  | _ => True

theorem known_step (c : Call) (groupId : Bytes) (hk : s.known groupId = true) :
    (c.step h tick s).1.known groupId = true := by
  rcases c.outer_or with ho | ⟨_, rfl⟩ | ⟨_, _, rfl⟩ | ⟨r, _, _, stage, rfl⟩ | ⟨r, _, stage, rfl⟩
  · exact (outer_step h tick s ho).known groupId hk
  · exact hk
  · exact hk
  · cases stage with
    | auth | hash | transaction =>
      simp only [Call.step, createStep]
      split <;> exact hk
    | insert => exact (filterStep_known h.knownGroups s r.body.groupId .insert).1 groupId hk
    | finished => exact hk
  · cases stage with
    | filter stage =>
      have hf := (filterStep_known h.knownGroups s r.body.groupId stage).1 groupId hk
      simp only [Call.step, submitStep]
      split <;> rename_i hs <;> rwa [hs] at hf
    | key seen done todo =>
      cases todo with
      | nil => exact hk
      | cons record todo =>
        simp only [Call.step, submitStep]
        split <;> exact hk
    | auth | hash | columns =>
      simp only [Call.step, submitStep]
      split <;> exact hk
    | storing | publishing | finished => exact hk

theorem Call.Admitted.mono {s' : Server} {c : Call} (hc : c.Admitted s)
    (hs : ∀ groupId, s.known groupId = true → s'.known groupId = true) : c.Admitted s' := by
  cases c with
  | submitting r pass stage =>
    cases stage with
    | filter => trivial
    | key | auth | hash | columns | storing | publishing | finished => exact hs _ hc
  | start | refused | creating | subscribing | unsubscribed | closing | delivering => trivial

theorem OuterStep.admitted {c : Call} {next : Server × Call} (ho : OuterStep h s c next) :
    next.2.Admitted next.1 ∧ next.2.Relayed h := by
  obtain ⟨s', c'⟩ := next
  rcases ho.stage with hi | ⟨_, _, _, _, rfl, -⟩ | ⟨_, _, _, rfl, -⟩
  · cases c' <;> first | exact ⟨trivial, trivial⟩ | cases hi
  · exact ⟨trivial, trivial⟩
  · exact ⟨trivial, trivial⟩

theorem relayed_submitOutcome (r : Incoming SubmitRequest) (pass : Pass)
    (records : List KeyedRecord) (call : Store.Call) :
    (Call.submitting r pass (submitOutcome h r.body records call)).Relayed h := by
  cases call with
  | submitted request batch => exact ⟨request, batch, rfl, rfl⟩
  | failed => exact .inr rfl
  | start | created | closed | answering | waiting => trivial

theorem admitted_submitOutcome {r : Incoming SubmitRequest} (pass : Pass)
    (records : List KeyedRecord) (call : Store.Call) (hk : s.known r.body.groupId = true) :
    (Call.submitting r pass (submitOutcome h r.body records call)).Admitted s := by
  cases call <;> exact hk

theorem admitted_step (c : Call) (ha : c.Admitted s) (hr : c.Relayed h) :
    (c.step h tick s).2.Admitted (c.step h tick s).1 ∧ (c.step h tick s).2.Relayed h := by
  rcases c.outer_or with ho | ⟨_, rfl⟩ | ⟨_, _, rfl⟩ | ⟨r, _, _, stage, rfl⟩ | ⟨r, pass, stage, rfl⟩
  · exact (outer_step h tick s ho).admitted
  · exact ⟨trivial, trivial⟩
  · exact ⟨trivial, trivial⟩
  · cases stage with
    | auth | hash | transaction =>
      simp only [Call.step, createStep]
      split <;> exact ⟨trivial, trivial⟩
    | insert | finished => exact ⟨trivial, trivial⟩
  · cases stage with
    | filter stage =>
      have hf := (filterStep_known h.knownGroups s r.body.groupId stage).2
      simp only [Call.step, submitStep]
      split
      · exact ⟨trivial, trivial⟩
      · rename_i hs
        rw [hs] at hf
        exact ⟨hf rfl, trivial⟩
      · exact ⟨trivial, trivial⟩
    | key seen done todo =>
      cases todo with
      | nil => exact ⟨ha, trivial⟩
      | cons record todo =>
        simp only [Call.step, submitStep]
        split
        · exact ⟨trivial, trivial⟩
        · exact ⟨ha, trivial⟩
    | auth | hash | columns =>
      simp only [Call.step, submitStep]
      split
      · exact ⟨trivial, trivial⟩
      · exact ⟨ha, trivial⟩
    | storing records call =>
      exact ⟨admitted_submitOutcome pass records _ ha, relayed_submitOutcome r pass records _⟩
    | publishing => exact ⟨ha, .inl hr⟩
    | finished => exact ⟨ha, hr⟩

variable {ι : Type*} [DecidableEq ι]

theorem run_admitted (h : Handler) (registry : Option Subscriptions) (requests : ι → Request)
    (sched : List (ι × Tick)) (i : ι) :
    ((run h registry requests sched).calls i).Admitted (run h registry requests sched).shared ∧
      ((run h registry requests sched).calls i).Relayed h := by
  have hi : (machine h).Invariant (fun _ => True) fun s c => c.Admitted s ∧ c.Relayed h :=
    ⟨fun _ _ _ _ _ => trivial, fun _ _ c _ hc => admitted_step c hc.1 hc.2,
      fun _ _ c _ _ _ hc => ⟨hc.1.mono fun groupId hk => known_step c groupId hk, hc.2⟩⟩
  exact (hi.exec (w := initial (.empty registry) requests) trivial
    (fun _ => ⟨trivial, trivial⟩) sched).2 i

theorem run_known {registry : Option Subscriptions} {requests : ι → Request} {p : List (ι × Tick)}
    {groupId : Bytes} (hk : (run h registry requests p).shared.known groupId = true)
    (q : List (ι × Tick)) :
    (run h registry requests (p ++ q)).shared.known groupId = true := by
  unfold run runFrom
  rw [Machine.exec_append]
  exact Machine.exec_induction (M := machine h) (P := fun w => w.shared.known groupId = true) hk
    (fun _ _ hw => known_step _ groupId hw) q

end Kept

def CheckedRecord.retag (record : CheckedRecord) (tag : Sized writeAuthBytes) :
    CheckedRecord :=
  { record with parsed := { record.parsed with writeAuth := tag } }

def KeyedRecord.retag (record : KeyedRecord) (tag : Sized writeAuthBytes) : KeyedRecord :=
  ⟨record.toCheckedRecord.retag tag, record.writeKey⟩

/--
A submission sent again over a connection: the same records under authenticators that are valid for
its nonce.
-/
structure Resent (h : Handler) (first : SubmitRequest) (records : List KeyedRecord)
    (bytes : ℕ → Bytes) (tags : ℕ → Sized writeAuthBytes)
    (again : Incoming SubmitRequest) : Prop where
  front : frontChecks again.front = .ok
  body : again.body = { first with
    records := first.records.mapIdx fun n sent => sent.map ({ · with recordBytes := bytes n }) }
  parsed : ∀ (n : ℕ) (record : KeyedRecord), records[n]? = some record →
    h.layer.parseRecord (bytes n) = some (record.retag (tags n)).parsed
  verified : ∀ (n : ℕ) (record : KeyedRecord), records[n]? = some record →
    h.layer.verifyWriteAuth record.writeKey again.conn.serverNonce (record.retag (tags n)).parsed =
      true

/-- The window of an ephemeral record is within one of the window that the clock stands in. -/
def Handler.InWindow (h : Handler) (now : Time) (header : RecordHeader) : Prop :=
  header.retentionClass = .eph → 0 < h.layer.ephBucketSeconds header.ephBucket → 0 ≤ now / 1000000 ∧
    header.ephWindow ≤
      (now / 1000000).toNat / ((h.layer.ephBucketSeconds header.ephBucket).toNat * 1000) + 1 ∧
    (now / 1000000).toNat / ((h.layer.ephBucketSeconds header.ephBucket).toNat * 1000) ≤
      header.ephWindow + 1

section Checks

variable {h : Handler} {clock : ℕ → Time} {tags : ℕ → Sized writeAuthBytes}

theorem ephWindow_of_inWindow {now now' : Time} {header : RecordHeader}
    (hp : h.ephWindow now header = .ok ()) (hw : h.InWindow now' header) :
    h.ephWindow now' header = .ok () := by
  unfold ephWindow at hp ⊢
  dsimp only at hp ⊢
  split at hp
  · rename_i hc
    rw [if_pos hc]
    exact hp
  · rename_i hc
    simp only [not_or, not_not, Int.not_le] at hc
    obtain ⟨hps, hl, hu⟩ := hw hc.1 hc.2
    rw [if_neg (by simp [hc.1, hc.2]), if_neg (Int.not_lt.mpr hps), failIf_eq_ok]
    split <;> omega

/-- Two records that the checks of the delivered keys cannot tell apart. -/
def SameShape (a b : CheckedRecord) : Prop :=
  b.parsed.header = a.parsed.header ∧ b.attachment = a.attachment

variable {records records' : List CheckedRecord}

theorem alignFrom_congr (hf : List.Forall₂ SameShape records records')
    (deliveries : List (Option EpochKeyDelivery)) (index : ℕ)
    (wanted : Option (EpochKeyDelivery × ℕ)) :
    alignFrom deliveries index wanted records' = alignFrom deliveries index wanted records := by
  induction hf generalizing index wanted with
  | nil => rfl
  | cons hs _ ih => simp only [alignFrom, hs.1, hs.2, ih]

theorem countP_congr (hf : List.Forall₂ SameShape records records') :
    records'.countP (·.parsed.header.isCommit) = records.countP (·.parsed.header.isCommit) := by
  induction hf with
  | nil => rfl
  | cons hs _ ih => simp only [List.countP_cons, hs.1, ih]

theorem checkEpochKeys_congr (hf : List.Forall₂ SameShape records records') (groupId : Bytes)
    (deliveries : List (Option EpochKeyDelivery)) :
    h.checkEpochKeys groupId records' deliveries = h.checkEpochKeys groupId records deliveries := by
  have hm : records'.map CheckedRecord.attachment = records.map CheckedRecord.attachment := by
    induction hf with
    | nil => rfl
    | cons hs _ ih => rw [List.map_cons, List.map_cons, hs.2, ih]
  have ha : epochKeyAlignment records' deliveries = epochKeyAlignment records deliveries := by
    unfold epochKeyAlignment
    rw [hf.length_eq, alignFrom_congr hf]
  unfold checkEpochKeys
  rw [ha]
  split
  · rfl
  · rfl
  · rename_i keys index _
    have hat := congrArg (·[index]?) hm
    simp only [List.getElem?_map] at hat
    cases hr : records[index]? <;> cases hr' : records'[index]? <;> simp_all

variable {records : List KeyedRecord} {bytes : ℕ → Bytes} {pass : Pass}

theorem checkEpochKey_of_lookup {s : MemoryStore} {groupId : Bytes}
    (hk : ∀ record ∈ records, lookupKey s groupId (fun _ => none) record.parsed.header.epoch =
      some record.writeKey) :
    checkEpochKey s groupId (fun _ => none) 0 (records.map (·.toCheckedRecord)) = .ok records := by
  rw [checkEpochKey_eq (by simp), forEach_eq_ok]
  refine ⟨by simp, fun i a record ha hr => ?_⟩
  obtain rfl : record.toCheckedRecord = a := by simpa [hr] using ha
  simp [hk record (List.mem_of_getElem? hr), orFail, Except.map]

theorem Handler.Passed.resent {clock₀ : ℕ → Time} {first : SubmitRequest}
    {again : Incoming SubmitRequest} (hp : h.Passed clock₀ first pass)
    (hre : records.map (·.toCheckedRecord) = pass.records)
    (hr : Resent h first records bytes tags again)
    (hw : ∀ (n : ℕ) (record : KeyedRecord), records[n]? = some record →
      h.InWindow (clock n) record.parsed.header) : h.Passed clock again.body
      ⟨(records.mapIdx fun n record => record.retag (tags n)).map (·.toCheckedRecord),
        pass.keys⟩ := by
  have hl : first.records.length = records.length := by
    rw [(forEach_eq_ok.mp hp.shaped).1, ← hre, List.length_map]
  have hsm : List.Forall₂ SameShape pass.records
      ((records.mapIdx fun n record => record.retag (tags n)).map (·.toCheckedRecord)) := by
    rw [← hre]
    refine List.forall₂_iff_get.mpr ⟨by simp, fun n _ _ => ?_⟩
    simp only [List.get_eq_getElem, List.getElem_map, List.getElem_mapIdx]
    exact ⟨rfl, rfl⟩
  rw [hr.body]
  refine ⟨hp.groupId, by simpa using hp.nonempty, by simpa using hp.bounded, ?_, ?_, ?_⟩
  · refine forEach_eq_ok.mpr ⟨by simp [hl], fun n a b ha hb => ?_⟩
    simp only [List.getElem?_map, List.getElem?_mapIdx, Option.map_map] at ha hb
    obtain ⟨sent, hsn, rfl⟩ := Option.map_eq_some_iff.mp ha
    obtain ⟨record, hrc, rfl⟩ := Option.map_eq_some_iff.mp hb
    have hs := (forEach_eq_ok.mp hp.shaped).2 n sent record.toCheckedRecord hsn
      (by simp [← hre, hrc])
    obtain ⟨sent, rfl, shaped⟩ := staticShape_eq_ok.mp hs
    rw [Nat.zero_add]
    exact staticShape_eq_ok.mpr ⟨_, rfl, hr.parsed n record hrc, shaped.group,
      shaped.head, shaped.headCap, shaped.body,
      ephWindow_of_inWindow shaped.window (hw n record hrc), shaped.attachment, shaped.kind,
      shaped.projection⟩
  · rw [countP_congr hsm, ← hsm.length_eq]
    exact hp.alone
  · rw [checkEpochKeys_congr hsm]
    exact hp.keys

theorem Cleared.resent {first again : Incoming SubmitRequest} (hc : Cleared h first pass records)
    (hr : Resent h first.body records bytes tags again) :
    (∃ us, h.checkWriteAuth again.conn (records.mapIdx fun n record => record.retag (tags n)) =
      .ok us) ∧
    (∃ us, h.checkBodyHash (records.mapIdx fun n record => record.retag (tags n)) = .ok us) ∧
    h.storeRecords (records.mapIdx fun n record => record.retag (tags n)) =
      .ok (h.storeSubmit first.body).records := by
  refine ⟨forEach_unit_eq_ok.mpr fun record hm => ?_, forEach_unit_eq_ok.mpr fun record hm => ?_,
    forEach_eq_ok.mpr ⟨?_, fun n record columns hn hcl => ?_⟩⟩
  · obtain ⟨n, hn, rfl⟩ := List.mem_mapIdx.mp hm
    exact failIf_eq_ok.mpr (not_not.mpr (hr.verified n records[n] (List.getElem?_eq_getElem hn)))
  · obtain ⟨n, hn, rfl⟩ := List.mem_mapIdx.mp hm
    exact hc.hashed records[n] (List.getElem_mem hn)
  · rw [List.length_mapIdx]
    exact (forEach_eq_ok.mp hc.columns).1
  · rw [List.getElem?_mapIdx] at hn
    obtain ⟨first, hf, rfl⟩ := Option.map_eq_some_iff.mp hn
    exact (forEach_eq_ok.mp hc.columns).2 n first columns hf hcl

end Checks

section Accepted

variable {h : Handler} {ι : Type*} [DecidableEq ι] {registry : Option Subscriptions}
  {requests : ι → Request} {sched : List (ι × Tick)} {i : ι}
  {r : Incoming SubmitRequest} {records : List KeyedRecord} {answer : Answer}

/-- What is known of a submission all of whose records were accepted. -/
structure Landed (h : Handler) (registry : Option Subscriptions) (requests : ι → Request)
    (sched : List (ι × Tick)) (r : Incoming SubmitRequest) (records : List KeyedRecord)
    (answer : Answer) : Prop where
  known : (run h registry requests sched).shared.known r.body.groupId = true
  cleared : ∃ clock pass, h.Passed clock r.body pass ∧ Cleared h r pass records
  keys : ∀ record ∈ records, SeenKey (Visited h registry requests sched) r.body.groupId
    record.parsed.header.epoch record.writeKey
  stored : ∃ i batch, (storeRun h requests registry sched).calls i =
      .submitted (h.storeSubmit r.body) batch ∧
    (∀ q ∈ batch, accepted q.result.reason = true) ∧
    answer.results.map (·.recordId) = batch.map (·.result.recordId)

theorem landed_of_finished (hi : requests i = .submit r)
    (hf : ((run h registry requests sched).calls i).finished = some (records, answer))
    (ha : ∀ result ∈ answer.results, accepted result.reason = true) :
    Landed h registry requests sched r records answer := by
  have hv := run_valid h requests registry sched i
  have hsn := run_seen h registry requests sched i
  have hrq := (run_request h requests registry sched i).trans hi
  have has := storeRun_request h requests registry sched i
  rw [hi] at has
  obtain ⟨hk, hr⟩ := run_admitted h registry requests sched i
  have hs := run_storeCall h requests registry sched i
  cases hc : (run h registry requests sched).calls i with
  | submitting r' pass stage =>
    rw [hc] at hf hv hsn hrq hk hr hs
    obtain rfl := Request.submit.inj hrq
    cases stage with
    | finished records' call answer' =>
      obtain ⟨rfl, rfl⟩ := Prod.mk.inj (Option.some.inj hf)
      obtain ⟨⟨clock, hp⟩, hcl⟩ := hv
      refine ⟨hk, ⟨clock, pass, hp, hcl⟩, hsn, ?_⟩
      rcases hr with ⟨request, batch, rfl, rfl⟩ | rfl
      · have hca : (storeRun h requests registry sched).calls i = .submitted request batch :=
          hs.symm
        rw [hca] at has
        obtain rfl := Store.Request.submit.inj has
        have hac : ∀ q ∈ batch, accepted q.result.reason = true := by
          intro q hq
          have := ha _ (List.mem_map_of_mem (List.mem_map_of_mem hq))
          rwa [Handler.resultOf, resultOf_reason] at this
        refine ⟨i, batch, hca, hac, ?_⟩
        simp only [resultsOf, List.map_map]
        refine List.map_congr_left fun q hq => ?_
        simp [Handler.resultOf, resultOf_of_accepted (hac q hq), hac q hq]
      · exfalso
        have hn := hp.nonempty
        have hm : (⟨.internal, 0, 0, none, none⟩ : SubmitResult) ∈
            (refusalAnswer r'.body.records.length ⟨.internal, none⟩).results := by
          rw [refusalAnswer, if_neg hn]
          exact List.mem_map.mpr ⟨0, List.mem_range.mpr (Nat.pos_of_ne_zero hn), by simp⟩
        exact absurd (ha _ hm) (by decide)
    | filter | key | auth | hash | columns | storing | publishing => cases hf
  | start | refused | creating | subscribing | unsubscribed | closing | delivering =>
    rw [hc] at hf
    cases hf

theorem lookupKey_of_seen {groupId key : Bytes} {epoch : ℕ} {g : MemoryGroup}
    (hk : SeenKey (Visited h registry requests sched) groupId epoch key)
    (hg : (run h registry requests sched).shared.store.groups groupId = some g)
    (ho : g.closed = false) (he : g.currentEpoch ≤ epoch + 1) :
    lookupKey (run h registry requests sched).shared.store groupId (fun _ => none) epoch =
      some key := by
  have hrn := hg
  rw [run_store] at hrn
  have hc := (run_custody _ _ _).1 groupId g hrn
  have hrw : ∃ row, g.epochs epoch = some row := by
    obtain ⟨_, ⟨p, q, rfl, rfl⟩, hs⟩ := id hk
    rw [run_store] at hs
    obtain ⟨g₀, row, hg₀, hrw, -⟩ := MemoryStore.writeKey_eq_some.mp hs
    obtain ⟨rest, hr⟩ := storeRun_append h requests registry p q
    rw [hr] at hrn
    obtain ⟨g', hg', hkp⟩ := run_keepsKeys _ _ _ rest hg₀
    cases hrn.symm.trans hg'
    obtain ⟨row', hrw', -⟩ := hkp epoch row hrw
    exact ⟨row', hrw'⟩
  obtain ⟨row, hrw⟩ := hrw
  obtain ⟨key', hw⟩ := (hc.writeKeys epoch row hrw).mpr he
  have hn : SeenKey (Visited h registry requests sched) groupId epoch key' :=
    ⟨_, ⟨sched, [], (List.append_nil _).symm, rfl⟩,
      MemoryStore.writeKey_eq_some.mpr ⟨g, row, hg, hrw, hw⟩⟩
  have hky := epochKeys_of_row (run_named _ _ _ groupId g hrn) hg ho hrw (by simp [hw])
  simp only [lookupKey, hky, hw, hk.unique hn]

/--
A submission that was accepted, sent again while its group is open, is accepted under the ids first
assigned, as long as its windows and its epochs are recent.
-/
theorem resend_idempotent (h : Handler) (registry : Option Subscriptions) (requests : ι → Request)
    (sched : List (ι × Tick)) (i : ι) (r : Incoming SubmitRequest)
    (records : List KeyedRecord) (answer : Answer) (hi : requests i = .submit r)
    (hf : ((run h registry requests sched).calls i).finished = some (records, answer))
    (ha : ∀ result ∈ answer.results, accepted result.reason = true)
    (more : List (ι × Tick)) (g : MemoryGroup)
    (hg : (run h registry requests (sched ++ more)).shared.store.groups r.body.groupId = some g)
    (ho : g.closed = false) (bytes : ℕ → Bytes) (tags : ℕ → Sized writeAuthBytes)
    (again : Incoming SubmitRequest) (hr : Resent h r.body records bytes tags again)
    (clock : ℕ → Time) (now : Time)
    (hw : ∀ (n : ℕ) (record : KeyedRecord), records[n]? = some record →
      h.InWindow (clock n) record.parsed.header)
    (he : ∀ record ∈ records, g.currentEpoch ≤ record.parsed.header.epoch + 1) :
    ∃ results, (h.submit clock now (run h registry requests (sched ++ more)).shared again).2 =
        ⟨.ok, results⟩ ∧
      results.map (fun x => (x.reason, x.recordId)) =
        answer.results.map (fun x => (.ok, x.recordId)) ∧
      (h.submit clock now (run h registry requests (sched ++ more)).shared again).1.store =
        (run h registry requests (sched ++ more)).shared.store := by
  obtain ⟨hk, ⟨clock₀, pass, hp, hcl⟩, hky, j, batch, hca, hac, his⟩ := landed_of_finished hi hf ha
  have hps := hp.resent hcl.checked hr hw
  have hkn : (run h registry requests (sched ++ more)).shared.known again.body.groupId = true := by
    rw [hr.body]
    exact run_known hk more
  have hl : ∀ record ∈ records.mapIdx fun n record => record.retag (tags n),
      lookupKey (run h registry requests (sched ++ more)).shared.store again.body.groupId
        (fun _ => none) record.parsed.header.epoch = some record.writeKey := by
    intro record hmm
    obtain ⟨n, hn, rfl⟩ := List.mem_mapIdx.mp hmm
    have hrc := List.getElem_mem hn
    rw [hr.body]
    exact lookupKey_of_seen ((hky records[n] hrc).mono fun _ hs => hs.append more) hg ho
      (he records[n] hrc)
  obtain ⟨⟨_, hat⟩, ⟨_, hh⟩, hcs⟩ := hcl.resent hr
  have hc : h.checkRecords (run h registry requests (sched ++ more)).shared.store again.conn
      again.body.groupId ⟨(records.mapIdx fun n record => record.retag (tags n)).map
        (·.toCheckedRecord), pass.keys⟩ =
      .ok (records.mapIdx fun n record => record.retag (tags n),
        (h.storeSubmit r.body).records) := by
    have hke : checkEpochKey _ _ (fun _ => none) 0 _ = .ok _ :=
      checkEpochKey_of_lookup hl
    unfold checkRecords
    rw [hke]
    simp only [bind, Except.bind, hat, hh, hcs]
    rfl
  have hsm : (⟨again.body.groupId, (h.storeSubmit r.body).records, deliveryOf pass.keys⟩ :
      Store.SubmitRequest) = h.storeSubmit r.body := by
    rw [hr.body, storeSubmit_of_passed hp]
  obtain ⟨hv, hor, hmt⟩ := runFrom_answered each_sound_empty _ _ hca
  have hm : ∀ q ∈ batch, matchedId h.store g q.record = some q.result.recordId := by
    intro q hq
    obtain ⟨g₀, hg₀, hid⟩ := hmt q hq (hac q hq)
    obtain ⟨rest, hrs⟩ := storeRun_append h requests registry sched more
    obtain ⟨g', hg', hgr⟩ := runFrom_grows each_sound_empty _ _ rest _ g₀ hg₀
    rw [run_store, hrs] at hg
    cases hg.symm.trans hg'
    exact matchedId_mono hgr hid
  obtain ⟨results, hsu, hre⟩ := submit_of_answered now hv hg hor hm
  unfold Handler.submit
  rw [if_neg (not_not.mpr hr.front), checkStaticShape_eq_ok.mpr hps]
  simp only [contains, hkn, if_true, hc, hsm, hsu]
  refine ⟨_, rfl, ?_, rfl⟩
  have hwr : (results.map (h.resultOf again.body.groupId)).map (fun x => (x.reason, x.recordId)) =
      (results.map fun x => (x.reason, x.recordId)).map
        fun x => (x.1, if accepted x.1 then x.2 else 0) := by
    simp only [List.map_map]
    rfl
  have hfr : answer.results.map (fun x => (Reason.ok, x.recordId)) =
      (answer.results.map (·.recordId)).map (Prod.mk .ok) := by
    rw [List.map_map]
    rfl
  rw [hwr, hre, hfr, his, List.map_map, List.map_map]
  rfl

end Accepted

namespace Sample

def tagFor (epoch nonce : UInt8) : Sized writeAuthBytes :=
  ⟨List.replicate 32 (epoch + nonce), List.length_replicate⟩

def keyed (kind epoch streamIndex nonce : UInt8) (attachment : ServerAttachment) :
    KeyedRecord :=
  ⟨⟨parsed kind epoch streamIndex (epoch + nonce), attachment⟩, writeKey epoch⟩

variable (kind epoch streamIndex nonce again : UInt8)

theorem sent_again : sent kind epoch streamIndex again = (sent kind epoch streamIndex nonce).map
      ({ · with recordBytes := [kind, epoch, streamIndex, epoch + again] }) := by
  have hl : ∀ tag, layer.parseRecord [kind, epoch, streamIndex, tag] =
      some (parsed kind epoch streamIndex tag) := fun _ => rfl
  have hh : ∀ tag, (parsed kind epoch streamIndex tag).header =
      (parsed kind epoch streamIndex 0).header := fun _ => rfl
  simp only [sent, hl, Option.bind_eq_bind, Option.bind_some, Option.map_bind, projectionOf, hh]
  cases (parseServerAttachment layer
      (parsed kind epoch streamIndex 0).header.serverAttachment).toOption with
  | none => rfl
  | some attachment =>
    simp only [Option.bind_some, Option.bind_map]
    cases layer.retentionClassWire (parsed kind epoch streamIndex 0).header.retentionClass
        (parsed kind epoch streamIndex 0).header.ephBucket <;> rfl

theorem resent (attachment : ServerAttachment) :
    Resent handler (submission kind epoch streamIndex nonce).body
      [keyed kind epoch streamIndex nonce attachment]
      (fun _ => [kind, epoch, streamIndex, epoch + again]) (fun _ => tagFor epoch again)
      (submission kind epoch streamIndex again) where
  front := rfl
  body := by simp [submission, sent_again kind epoch streamIndex nonce again]
  parsed n record hr := by
    cases n with
    | zero =>
      cases hr
      rfl
    | succ n => cases hr
  verified n record hr := by
    cases n with
    | zero =>
      cases hr
      simp [handler, layer, keyed, writeKey, conn, submission, KeyedRecord.retag,
        CheckedRecord.retag, tagFor]
    | succ n => cases hr

end Sample

open Sample

/-- The message is sent again an hour after it was accepted. -/
theorem resend_idempotent_message : ∃ results,
    (handler.submit (fun _ => 3600000000000) 3600000000000
      (run handler registry messaging
        (messagingOrder ++ turns 1 2 4)).shared
      (submission 16 1 3 8)).2 = ⟨.ok, results⟩ ∧
    results.map (fun x => (x.reason, x.recordId)) = [(.ok, 3)] := by
  have hgr : ((run handler registry messaging (messagingOrder ++ turns 1 2 4)).shared.store.groups
        (submission 16 1 3 5).body.groupId).map (fun g => (g.closed, g.currentEpoch)) =
      some (false, 1) := by
    decide +kernel
  obtain ⟨g, hg, hop⟩ := Option.map_eq_some_iff.mp hgr
  obtain ⟨ho, he⟩ := Prod.mk.inj hop
  obtain ⟨results, hr, hi, -⟩ := resend_idempotent handler registry
    messaging messagingOrder 2 (submission 16 1 3 5)
    [keyed 16 1 3 5 .none] ⟨.ok, [{ reason := .ok, recordId := 3, currentEpoch := 1 }]⟩ rfl
    (by decide +kernel) (by decide) (turns 1 2 4) g hg ho _ _ _
    (resent 16 1 3 5 8 .none) (fun _ => 3600000000000) 3600000000000
    (fun n record hn => by
      cases n with
      | zero =>
        cases hn
        exact fun _ _ => by decide
      | succ n => cases hn)
    (fun record hrc => by
      rw [List.mem_singleton.mp hrc, he]
      decide)
  exact ⟨results, hr, hi⟩

/-- The message is sent again two hours later, and the marker two epochs later: both are refused. -/
theorem resend_refused : (((run handler registry messaging messagingOrder).calls 2).finished =
        some ([keyed 16 1 3 5 .none],
          ⟨.ok, [{ reason := .ok, recordId := 3, currentEpoch := 1 }]⟩) ∧
      Resent handler (submission 16 1 3 5).body [keyed 16 1 3 5 .none]
        (fun _ => [16, 1, 3, 1 + 8]) (fun _ => tagFor 1 8) (submission 16 1 3 8) ∧
      ((run handler registry messaging
        messagingOrder).shared.store.groups Store.Sample.groupId).map (·.closed) = some false ∧
      (handler.submit (fun _ => 7200000000000) 7200000000000
        (run handler registry messaging messagingOrder).shared
        (submission 16 1 3 8)).2 = ⟨.ok, [{ reason := .rejected }]⟩) ∧
    (((run handler registry advancing
        advancingOrder).calls 1).finished =
        some ([keyed 4 1 2 5 (.complete ⟨1, 1⟩)],
          ⟨.ok, [{ reason := .ok, recordId := 2, currentEpoch := 1 }]⟩) ∧
      Resent handler (submission 4 1 2 5).body
        [keyed 4 1 2 5 (.complete ⟨1, 1⟩)] (fun _ => [4, 1, 2, 1 + 8])
        (fun _ => tagFor 1 8) (submission 4 1 2 8) ∧
      ((run handler registry advancing
        advancingOrder).shared.store.groups Store.Sample.groupId).map (·.closed) = some false ∧
      (handler.submit (fun _ => 6000000) 6000000
        (run handler registry advancing advancingOrder).shared
        (submission 4 1 2 8)).2 = ⟨.ok, [{ reason := .rejected }]⟩) := by
  refine ⟨⟨?_, resent 16 1 3 5 8 .none, ?_, ?_⟩, ?_, resent 4 1 2 5 8 (.complete ⟨1, 1⟩), ?_, ?_⟩
  all_goals decide +kernel

section Created

variable {h : Handler} {tick : Tick} {s : Server}

/-- A creation that has answered with a response has told the filter of its group. -/
def Call.Listed (s : Server) : Call → Prop
  | .creating r _ _ (.finished _ _ (some _)) => s.known r.body.groupId = true
  | _ => True

theorem listed_step (c : Call) (hc : c.Listed s) :
    (c.step h tick s).2.Listed (c.step h tick s).1 := by
  rcases c.outer_or with ho | ⟨_, rfl⟩ | ⟨_, _, rfl⟩ | ⟨r, _, _, stage, rfl⟩ | ⟨r, pass, stage, rfl⟩
  · rcases (outer_step h tick s ho).stage with hi | ⟨_, _, _, _, he, -⟩ | ⟨_, _, _, he, -⟩
    · cases hn : (c.step h tick s).2 <;> first | trivial | (rw [hn] at hi; cases hi)
    · rw [he]; trivial
    · rw [he]; trivial
  · trivial
  · trivial
  · cases stage with
    | auth | hash =>
      simp only [Call.step, createStep]
      split <;> trivial
    | transaction =>
      simp only [Call.step, createStep]
      split
      · trivial
      · unfold createOutcome
        split
        · split <;> trivial
        · trivial
    | insert => exact Function.update_self ..
    | finished => exact hc
  · cases stage with
    | key _ _ todo => cases todo <;> simp only [Call.step, submitStep] <;> (try split) <;> trivial
    | filter | auth | hash | columns =>
      simp only [Call.step, submitStep]
      split <;> trivial
    | storing | publishing | finished => trivial

variable {ι : Type*} [DecidableEq ι]

/-- A group that was created is let through check 5 from its creator's answer on. -/
theorem created_group_known (h : Handler) (registry : Option Subscriptions)
    (requests : ι → Request) (p q : List (ι × Tick)) (i : ι)
    {r : Incoming CreateGroupRequest} {record : CheckedRecord}
    {keys : Option EpochKeyDelivery} {call : Store.Call} {reason : Reason}
    {response : CreateGroupResponse} (hi : (run h registry requests p).calls i =
      .creating r record keys (.finished call reason (some response))) :
    contains h.knownGroups (run h registry requests (p ++ q)).shared r.body.groupId =
      ((run h registry requests (p ++ q)).shared, .ok ()) := by
  have hv : (machine h).Invariant (fun _ => True) fun s c => c.Listed s := by
    refine ⟨fun _ _ _ _ _ => trivial, fun _ _ c _ hc => listed_step c hc, ?_⟩
    intro _ _ c c' _ _ hc
    unfold Call.Listed at hc ⊢
    split at hc
    · exact known_step c _ hc
    · trivial
  have hl := (hv.exec (w := initial (.empty registry) requests) trivial (fun _ => trivial) p).2 i
  change ((run h registry requests p).calls i).Listed _ at hl
  rw [hi] at hl
  exact if_pos (run_known hl q)

end Created

/-- The submission of the marker finds the group that the first request created. -/
theorem created_group_known_founding : (contains handler.knownGroups (run handler registry founding
      (turns 12 0 1 ++ turns 12 1 2)).shared Store.Sample.groupId).2 = .ok () := by
  have hk : (match (run handler registry founding (turns 12 0 1)).calls 0 with
      | .creating r _ _ (.finished _ _ (some _)) => decide (r.body.groupId = Store.Sample.groupId)
      | _ => false) = true := by decide +kernel
  split at hk
  next hi =>
    have hn := created_group_known handler registry founding _ (turns 12 1 2) 0 hi
    rw [of_decide_eq_true hk] at hn
    exact congrArg Prod.snd hn
  · cases hk

end MessageServer.Api
