import MessageServer.Api.Transactions

/-! # Every stored record is authenticated

The key that check 6 finds for a record was installed at some point of the run,
and an epoch has one write key in a whole run, so the time between the lookup
and the transaction does not matter.
-/

namespace MessageServer.Api

open Interleaving Store.Sample Protocol Handler

inductive Carries : Request → Connection → Bytes → Option Record → Prop
  | createGroup (r : Incoming CreateGroupRequest) :
    Carries (.createGroup r) r.conn r.body.groupId r.body.initialCommit
  | submit (r : Incoming SubmitRequest) {sent : Option Record}
    (mem : sent ∈ r.body.records) : Carries (.submit r) r.conn r.body.groupId sent

/-- The write key stood in a state of which `R` is true. -/
def SeenKey (R : Server → Prop) (groupId : Bytes) (epoch : ℕ) (key : Bytes) : Prop :=
  ∃ s, R s ∧ s.store.writeKey groupId epoch = some key

theorem SeenKey.mono {R R' : Server → Prop} {groupId key : Bytes} {epoch : ℕ}
    (hR : ∀ s, R s → R' s) (hk : SeenKey R groupId epoch key) : SeenKey R' groupId epoch key := by
  obtain ⟨s, hs, hk⟩ := hk
  exact ⟨s, hR s hs, hk⟩

/-- The keys that check 6 has found for a submission. -/
def SubmitStage.Seen (R : Server → Prop) (groupId : Bytes) : SubmitStage → Prop
  | .filter _ => True
  | .key seen done _ => (∀ epoch key, seen epoch = some key → SeenKey R groupId epoch key) ∧
    ∀ record ∈ done, SeenKey R groupId record.parsed.header.epoch record.writeKey
  | .auth records | .hash records | .columns records | .storing records _
  | .publishing records _ _ | .finished records _ _ =>
    ∀ record ∈ records, SeenKey R groupId record.parsed.header.epoch record.writeKey

/-- The keys a request has found, and the one that a creation has installed. -/
def Call.Seen (h : Handler) (R : Server → Prop) : Call → Prop
  | .submitting r _ stage => stage.Seen R r.body.groupId
  | .creating r record keys stage =>
    ((Call.creating r record keys stage).storeCall h).stored ≠ [] →
      SeenKey R r.body.groupId 0 r.body.bootstrapWriteKey
  | _ => True

section Seen

variable {h : Handler} {R : Server → Prop} {tick : Tick} {s : Server}
  {r : Incoming CreateGroupRequest} {c : Call}

theorem Call.Seen.mono {R' : Server → Prop} (hR : ∀ s, R s → R' s) (hc : c.Seen h R) :
    c.Seen h R' := by
  cases c with
  | submitting r pass stage =>
    cases stage with
    | filter => trivial
    | key => exact ⟨fun e k hk => (hc.1 e k hk).mono hR, fun r hr => (hc.2 r hr).mono hR⟩
    | auth | hash | columns | storing | publishing | finished =>
      exact fun r hr => (hc r hr).mono hR
  | creating r record keys stage => exact fun hne => (hc hne).mono hR
  | start | refused | subscribing | unsubscribed | closing | delivering => trivial

theorem seenKey_of_lookupKey {groupId key : Bytes} {seen : ℕ → Option Bytes} {epoch : ℕ}
    (hs : R s) (hsn : ∀ epoch key, seen epoch = some key → SeenKey R groupId epoch key)
    (hk : lookupKey s.store groupId seen epoch = some key) : SeenKey R groupId epoch key := by
  unfold lookupKey at hk
  split at hk
  · rename_i found
    exact hsn epoch key (found.trans hk)
  · split at hk
    · rename_i keys hky
      exact ⟨s, hs, Store.writeKey_of_epochKeys hky hk⟩
    · cases hk

theorem seen_submitStep {r : Incoming SubmitRequest} {pass : Pass} {stage : SubmitStage}
    (hs : R s) (hc : stage.Seen R r.body.groupId) :
    (submitStep h tick s r pass stage).2.Seen h R := by
  cases stage with
  | filter stage =>
    simp only [submitStep]
    split
    · trivial
    · refine ⟨fun _ _ hk => ?_, fun _ hr => ?_⟩
      · cases hk
      · cases hr
    · trivial
  | key seen done todo =>
    cases todo with
    | nil => exact hc.2
    | cons record todo =>
      simp only [submitStep]
      split
      · trivial
      · rename_i key hk
        have hky := seenKey_of_lookupKey hs hc.1 hk
        refine ⟨fun e k he => ?_, fun r hr => ?_⟩
        · by_cases hep : e = record.parsed.header.epoch
          · subst hep
            rw [Function.update_self] at he
            exact Option.some.inj he ▸ hky
          · rw [Function.update_of_ne hep] at he
            exact hc.1 e k he
        · rcases List.mem_append.mp hr with hr | hr
          · exact hc.2 r hr
          · rw [List.mem_singleton.mp hr]
            exact hky
  | auth | hash | columns =>
    simp only [submitStep]
    split
    · trivial
    · exact hc
  | storing records call =>
    simp only [submitStep]
    cases Store.Call.step h.store (tick.clock 0) s.store call with
    | mk _ next => cases next <;> exact hc
  | publishing | finished => exact hc

theorem seen_createStep {record : CheckedRecord} {keys : Option EpochKeyDelivery}
    {stage : CreateStage} (hs : R (createStep h tick s r record keys stage).1)
    (hc : (Call.creating r record keys stage).Seen h R) :
    (createStep h tick s r record keys stage).2.Seen h R := by
  cases stage with
  | auth | hash =>
    simp only [createStep]
    split <;> trivial
  | transaction =>
    revert hs
    simp only [createStep]
    split
    · exact fun _ => trivial
    · intro hs hne
      rw [storeCall_createOutcome] at hne
      exact ⟨_, hs, Store.createGroup_writeKey hne⟩
  | insert | finished => exact hc

theorem seen_step (c : Call) (hs : R s) (hs' : R (c.step h tick s).1) (hc : c.Seen h R) :
    (c.step h tick s).2.Seen h R := by
  rcases c.outer_or with ho | ⟨_, rfl⟩ | ⟨_, _, rfl⟩ | ⟨_, _, _, _, rfl⟩ | ⟨_, _, _, rfl⟩
  · have hn := outer_step h tick s ho
    generalize c.step h tick s = next at hn
    obtain ⟨s', c'⟩ := next
    rcases hn.stage with hi | ⟨_, _, _, _, rfl, -⟩ | ⟨_, _, _, rfl, -⟩
    · cases c' <;> trivial
    · exact fun hne => absurd rfl hne
    · trivial
  · trivial
  · trivial
  · exact seen_createStep hs' hc
  · exact seen_submitStep hs hc

theorem cleared_of_submitted {r : Incoming SubmitRequest} {request : Store.SubmitRequest}
    {batch : List Store.Pending} (hv : c.Valid h) (hc : c.Seen h R) (hr : c.request = .submit r)
    (hs : c.storeCall h = .submitted request batch) :
    ∃ pass records, (∃ clock, h.Passed clock r.body pass) ∧ Cleared h r pass records ∧
      ∀ record ∈ records, SeenKey R r.body.groupId record.parsed.header.epoch record.writeKey := by
  cases c with
  | submitting r' pass stage =>
    cases hr
    cases stage with
    | filter | key | auth | hash | columns => cases hs
    | storing records | publishing records | finished records =>
      exact ⟨pass, records, hv.1, hv.2, hc⟩
  | start | refused => cases hs
  | creating | subscribing | unsubscribed | closing | delivering => cases hr

theorem clearedCommit_of_created {request : Store.CreateGroupRequest}
    {result : Except Store.Error Store.CreateGroupResult} (hv : c.Valid h)
    (hr : c.request = .createGroup r) (hs : c.storeCall h = .created request result) :
    ∃ record keys, (∃ now, h.checkCreate now r.body = .ok (record, keys)) ∧
      ClearedCommit h r record := by
  cases c with
  | creating r' record keys stage =>
    cases hr
    cases stage with
    | auth | hash | transaction => cases hs
    | insert | finished => exact ⟨record, keys, hv.1, hv.2⟩
  | start | refused => cases hs
  | submitting | subscribing | unsubscribed | closing | delivering => cases hr

end Seen

section Run

variable {ι : Type*} [DecidableEq ι] (h : Handler) (registry : Option Subscriptions)
  (requests : ι → Request) (sched : List (ι × Tick))

def Visited (s : Server) : Prop :=
  ∃ p q, sched = p ++ q ∧ s = (run h registry requests p).shared

/-- The write key of an epoch: the only one in the whole run, and where it came from. -/
structure KeyOf (groupId : Bytes) (epoch : ℕ) (key : Bytes) : Prop where
  installed : SeenKey (Visited h registry requests sched) groupId epoch key
  only : ∀ other, SeenKey (Visited h registry requests sched) groupId epoch other → other = key
  bootstrap : epoch = 0 → ∃ i r, requests i = .createGroup r ∧ r.body.groupId = groupId ∧
    r.body.bootstrapWriteKey = key ∧
    (((run h registry requests sched).calls i).storeCall h).stored ≠ []
  announced : ∀ e, epoch = e + 1 → ∃ g c i readKey,
    (run h registry requests sched).shared.store.groups groupId = some g ∧
    g.commits e = some c ∧
    (((run h registry requests sched).calls i).storeCall h).groupId = groupId ∧
    c.record ∈ (((run h registry requests sched).calls i).storeCall h).stored ∧
    Store.Announces c.record (((run h registry requests sched).calls i).storeCall h).epochKeys
      (some key) readKey

/-- A record sent to a group, with a valid authenticator under the key of its epoch. -/
structure Authentic (request : Request) (groupId : Bytes) (sent : Option Record)
    (record : CheckedRecord) (key : Bytes) : Prop where
  parsed : h.parse sent = some record
  header : record.parsed.header.groupId.val = groupId
  hashed : h.store.sha256 (record.parsed.ctBody.getD []) = record.parsed.header.bodyHash.val
  verified : ∃ conn, Carries request conn groupId sent ∧
    h.layer.verifyWriteAuth key conn.serverNonce record.parsed = true
  key : KeyOf h registry requests sched groupId record.parsed.header.epoch key

theorem run_seen (i : ι) :
    ((run h registry requests sched).calls i).Seen h (Visited h registry requests sched) :=
  Machine.exec_seen (w := initial (.empty registry) requests) (A := Call.Seen h)
    (fun hR hc => hc.mono hR) (fun _ _ c hs hs' hc => seen_step c hs hs' hc)
    (fun _ => trivial) sched i

variable {h registry requests sched} {r : Incoming CreateGroupRequest} {records : List KeyedRecord}
  {sent : Option Record} {i : ι} {epoch : ℕ} {pass : Pass}

theorem Visited.append {s : Server} (hs : Visited h registry requests sched s)
    (more : List (ι × Tick)) : Visited h registry requests (sched ++ more) s := by
  obtain ⟨p, q, rfl, hs⟩ := hs
  exact ⟨p, q ++ more, List.append_assoc .., hs⟩

theorem SeenKey.unique {groupId key other : Bytes}
    (hk : SeenKey (Visited h registry requests sched) groupId epoch key)
    (ho : SeenKey (Visited h registry requests sched) groupId epoch other) : other = key := by
  have hle : ∀ {p q : List (ι × Tick)} {k k' : Bytes},
      (run h registry requests p).shared.store.writeKey groupId epoch = some k →
      (run h registry requests (p ++ q)).shared.store.writeKey groupId epoch = some k' →
      k' = k := by
    intro p q k k' hk hk'
    obtain ⟨rest, hr⟩ := storeSched_append h (.empty registry) requests p q
    rw [run_store, storeRun] at hk hk'
    rw [hr] at hk'
    exact Store.run_writeKey _ _ _ rest hk hk'
  obtain ⟨_, ⟨p, q, rfl, rfl⟩, hk⟩ := hk
  obtain ⟨_, ⟨p', q', hpq, rfl⟩, ho⟩ := ho
  rcases List.append_eq_append_iff.mp hpq with ⟨a, rfl, -⟩ | ⟨a, rfl, -⟩
  · exact hle hk ho
  · exact (hle ho hk).symm

theorem seenKey_of_founded (hi : requests i = .createGroup r)
    (hne : (((run h registry requests sched).calls i).storeCall h).stored ≠ []) :
    SeenKey (Visited h registry requests sched) r.body.groupId 0 r.body.bootstrapWriteKey := by
  have hs := run_seen h registry requests sched i
  have hr := (run_request h requests registry sched i).trans hi
  cases hc : (run h registry requests sched).calls i with
  | creating r' record keys stage =>
    rw [hc] at hr hs hne
    cases hr
    exact hs hne
  | start | refused =>
    rw [hc] at hne
    exact absurd rfl hne
  | submitting | subscribing | unsubscribed | closing | delivering =>
    rw [hc] at hr
    cases hr

theorem SeenKey.keyOf {groupId key : Bytes}
    (hk : SeenKey (Visited h registry requests sched) groupId epoch key) :
    KeyOf h registry requests sched groupId epoch key := by
  refine ⟨hk, fun other ho => hk.unique ho, ?_, ?_⟩
  · rintro rfl
    obtain ⟨_, ⟨p, q, rfl, rfl⟩, hs⟩ := id hk
    rw [run_store] at hs
    obtain ⟨g, -, hg, -⟩ := Store.MemoryStore.writeKey_eq_some.mp hs
    obtain ⟨i, request, result, hc, hid, hne⟩ := Store.run_founded _ _ _ hg
    have hre := storeRun_request h requests registry p i
    have hst : ((storeRun h requests registry (p ++ q)).calls i).stored ≠ [] := by
      obtain ⟨r, hr⟩ := List.exists_mem_of_ne_nil _ hne
      rw [← hc] at hr
      exact List.ne_nil_of_mem (storeRun_stored hr)
    rw [← run_storeCall] at hst
    rw [storeRun, hc, Store.Call.request] at hre
    cases hi : requests i with
    | createGroup r =>
      rw [hi] at hre
      cases hre
      refine ⟨i, r, hi, hid, ?_, hst⟩
      have hb := seenKey_of_founded hi hst
      rw [show r.body.groupId = groupId from hid] at hb
      exact hk.unique hb
    | submit | subscribe | unsubscribe | closeGroup | deliver =>
      rw [hi] at hre
      cases hre
  · rintro e rfl
    obtain ⟨_, ⟨p, q, rfl, rfl⟩, hs⟩ := hk
    rw [run_store] at hs
    obtain ⟨g, c, i, readKey, hg, hc, hid, hst, ha⟩ := Store.run_announced _ _ _ hs
    obtain ⟨rest, hrs⟩ := storeRun_append h requests registry p q
    obtain ⟨g', hg', hgr⟩ := Store.runFrom_grows Store.each_sound_empty _ _ rest groupId g hg
    have hrq : ((storeRun h requests registry (p ++ q)).calls i).request =
        ((storeRun h requests registry p).calls i).request := by
      rw [storeRun_request, storeRun_request]
    refine ⟨g', c, i, readKey, ?_, hgr.commits e c hc, ?_, ?_, ?_⟩
    · rw [run_store, hrs]
      exact hg'
    · rw [run_storeCall, Store.Call.groupId_request, hrq, ← Store.Call.groupId_request]
      exact hid
    · rw [run_storeCall]
      exact storeRun_stored hst
    · rw [run_storeCall, Store.Call.epochKeys_request, hrq, ← Store.Call.epochKeys_request]
      exact ha

theorem authentic_of_cleared {r : Incoming SubmitRequest} (hp : ∃ clock, h.Passed clock r.body pass)
    (hc : Cleared h r pass records)
    (hsn : ∀ record ∈ records, SeenKey (Visited h registry requests sched) r.body.groupId
      record.parsed.header.epoch record.writeKey) (hs : sent ∈ r.body.records)
    {record : KeyedRecord} (hr : record ∈ records)
    (hpr : h.parse sent = some record.toCheckedRecord) :
    Authentic h registry requests sched (.submit r) r.body.groupId sent record.toCheckedRecord
      record.writeKey := by
  obtain ⟨clock, hp⟩ := hp
  have hm : record.toCheckedRecord ∈ pass.records := hc.checked ▸ List.mem_map_of_mem hr
  obtain ⟨column, -, _, hcl⟩ := (exists_of_forall₂ (forall₂_of_forEach hc.columns)).1 record hr
  have hb := (storeRecord_eq_ok.mp hcl).2.1
  exact ⟨hpr, hp.group _ hm, (bodyHash_eq_ok hb).mp (hc.hashed record hr),
    ⟨r.conn, .submit r hs, hc.verified record hr⟩, (hsn record hr).keyOf⟩

theorem Cleared.parse {r : Incoming SubmitRequest} (hp : ∃ clock, h.Passed clock r.body pass)
    (hc : Cleared h r pass records) :
    List.Forall₂ (fun sent record => h.parse sent = some record.toCheckedRecord)
      r.body.records records := by
  obtain ⟨clock, hp⟩ := hp
  have hf := hp.parse
  rwa [← hc.checked, List.forall₂_map_right_iff] at hf

theorem authentic_of_clearedCommit {record : CheckedRecord} {keys : Option EpochKeyDelivery}
    {columns : Store.Record} (hk : ∃ now, h.checkCreate now r.body = .ok (record, keys))
    (hv : h.layer.verifyWriteAuth r.body.bootstrapWriteKey r.conn.serverNonce record.parsed = true)
    (hh : h.bodyHash record = .ok ()) (hc : h.storeRecord record = .ok columns)
    (hsn : SeenKey (Visited h registry requests sched) r.body.groupId 0
      r.body.bootstrapWriteKey) :
    Authentic h registry requests sched (.createGroup r) r.body.groupId r.body.initialCommit record
      r.body.bootstrapWriteKey := by
  obtain ⟨now, hk⟩ := hk
  obtain ⟨hs, he, -⟩ := checkCreate_eq_ok hk
  obtain ⟨sent, -, shaped⟩ := staticShape_eq_ok.mp hs
  have hb := (storeRecord_eq_ok.mp hc).2.1
  exact ⟨parse_of_staticShape hs, shaped.group, (bodyHash_eq_ok hb).mp hh,
    ⟨r.conn, .createGroup r, hv⟩, he ▸ hsn.keyOf⟩

/-- What a request has stored is authentic. -/
theorem authentic_of_stored {r : Store.Record}
    (hr : r ∈ (((run h registry requests sched).calls i).storeCall h).stored) :
    ∃ sent record columns key id, Authentic h registry requests sched (requests i)
        (((run h registry requests sched).calls i).storeCall h).groupId sent record key ∧
      columnsOf h.layer record = some columns ∧ r = Store.stamp columns id := by
  have hv := run_valid h requests registry sched i
  have hsn := run_seen h registry requests sched i
  have hrq := run_request h requests registry sched i
  have ha := storeRun_request h requests registry sched i
  rw [← run_storeCall] at ha
  rcases Store.Call.mem_stored hr with ⟨request, batch, q, hs, hq, rfl⟩ |
    ⟨request, result, initial, id, hs, hin, rfl⟩
  · rw [hs] at ha ⊢
    cases hi : requests i with
    | submit sub =>
      rw [hi] at ha hrq
      cases ha
      obtain ⟨pass, records, hp, hcl, hky⟩ := cleared_of_submitted hv hsn hrq hs
      rw [run_storeCall] at hs
      have ho := (Store.runFrom_answered Store.each_sound_empty _ _ hs).2.1
      have hc : q.record ∈ (h.storeSubmit sub.body).records := ho ▸ List.mem_map_of_mem hq
      obtain ⟨record, hrc, _, hok⟩ := (exists_of_forall₂ (forall₂_of_forEach hcl.columns)).2 _ hc
      obtain ⟨sent, hst, hpr⟩ := (exists_of_forall₂ (hcl.parse hp)).2 record hrc
      exact ⟨sent, record.toCheckedRecord, q.record, record.writeKey, _,
        authentic_of_cleared hp hcl hky hst hrc hpr,
        (storeRecord_eq_ok.mp hok).2.2, rfl⟩
    | createGroup | subscribe | unsubscribe | closeGroup | deliver =>
      rw [hi] at ha
      cases ha
  · have hne := List.ne_nil_of_mem hr
    rw [hs] at ha ⊢
    cases hi : requests i with
    | createGroup create =>
      rw [hi] at ha hrq
      cases ha
      obtain ⟨record, keys, hk, hcl⟩ := clearedCommit_of_created hv hrq hs
      have hok : h.storeRecord record = .ok initial := toOption_eq_some.mp (hcl.columns.trans hin)
      exact ⟨create.body.initialCommit, record, initial, create.body.bootstrapWriteKey, id,
        authentic_of_clearedCommit hk hcl.verified hcl.hashed hok (seenKey_of_founded hi hne),
        (storeRecord_eq_ok.mp hok).2.2, rfl⟩
    | submit | subscribe | unsubscribe | closeGroup | deliver =>
      rw [hi] at ha
      cases ha

theorem authentic_of_change {tick : Tick}
    (hne : (run h registry requests (sched ++ [(i, tick)])).shared.store ≠
      (run h registry requests sched).shared.store) {conn : Connection} {groupId : Bytes}
    (hc : Carries (requests i) conn groupId sent) :
    ∃ record key, Authentic h registry requests (sched ++ [(i, tick)]) (requests i) groupId sent
      record key := by
  have hv := run_valid h requests registry sched i
  have hsn := run_seen h registry requests sched i
  have hrq := run_request h requests registry sched i
  have hn : (run h registry requests (sched ++ [(i, tick)])).shared =
      (((run h registry requests sched).calls i).step h tick
        (run h registry requests sched).shared).1 := by
    rw [run, runFrom, Machine.exec_snoc, Machine.turn_shared]
    rfl
  have hvs : Visited h registry requests (sched ++ [(i, tick)])
      (run h registry requests (sched ++ [(i, tick)])).shared :=
    ⟨_, [], (List.append_nil _).symm, rfl⟩
  rw [hn] at hne hvs
  rcases ((run h registry requests sched).calls i).outer_or with
    ho | ⟨_, hcl⟩ | ⟨_, _, hcl⟩ | ⟨r, record, keys, stage, hcl⟩ | ⟨r, pass, stage, hcl⟩
  · exact absurd (outer_step h tick _ ho).store hne
  · rw [← hrq, hcl] at hc
    cases hc
  · rw [← hrq, hcl] at hc
    cases hc
  · rw [hcl] at hv hne hvs hrq
    rw [← hrq] at hc ⊢
    cases hc
    cases ht : storeTick h tick (.creating r record keys stage) with
    | none => exact absurd (stutter_step _ hv ht).1 hne
    | some now =>
      cases stage with
      | auth | hash | insert | finished => cases ht
      | transaction =>
        obtain ⟨columns, hok, rfl⟩ := Option.map_eq_some_iff.mp ht
        simp only [Call.step, createStep, toOption_eq_some.mp hok, Store.Call.step] at hne hvs
        rcases Store.createGroup_cases h.store (tick.clock 0)
            (run h registry requests sched).shared.store
            ⟨r.body.groupId, some columns, r.body.bootstrapWriteKey, deliveryOf keys⟩ with
          ⟨hs, -⟩ | ⟨_, _, -, -, -, -, hst⟩
        · exact absurd hs hne
        · have hk := Store.createGroup_writeKey (ne_of_eq_of_ne hst (List.cons_ne_nil _ _))
          exact ⟨record, _, authentic_of_clearedCommit hv.1 hv.2.1 hv.2.2
            (toOption_eq_some.mp hok) ⟨_, hvs, hk⟩⟩
  · rw [hcl] at hv hne hsn hrq
    rw [← hrq] at hc ⊢
    obtain hm : sent ∈ r.body.records := by
      cases hc
      assumption
    obtain rfl : groupId = r.body.groupId := by
      cases hc
      rfl
    cases ht : storeTick h tick (.submitting r pass stage) with
    | none => exact absurd (stutter_step _ hv ht).1 hne
    | some now =>
      cases stage with
      | filter | key | auth | hash | columns | publishing | finished => cases ht
      | storing records call =>
        obtain ⟨record, hrc, hp⟩ := (exists_of_forall₂ (hv.2.parse hv.1)).1 _ hm
        exact ⟨record.toCheckedRecord, record.writeKey, authentic_of_cleared hv.1 hv.2
          (fun record hr => (hsn record hr).mono fun _ hs => hs.append _) hm hrc hp⟩

/--
Every stored record came with a request whose authenticator was valid for it under the only write
key its epoch ever had.
-/
theorem stored_records_authentic (h : Handler) (registry : Option Subscriptions)
    (requests : ι → Request) (sched : List (ι × Tick)) :
    (∀ groupId, ∀ r ∈ (run h registry requests sched).shared.store.log groupId,
      ∃ i sent record columns key id,
        Authentic h registry requests sched (requests i) groupId sent record key ∧
        columnsOf h.layer record = some columns ∧ r = Store.stamp columns id ∧
        r ∈ (((run h registry requests sched).calls i).storeCall h).stored) ∧
    ∀ i tick, (run h registry requests (sched ++ [(i, tick)])).shared.store ≠
        (run h registry requests sched).shared.store →
      ∀ conn groupId sent, Carries (requests i) conn groupId sent → ∃ record key,
        Authentic h registry requests (sched ++ [(i, tick)]) (requests i) groupId sent record
          key := by
  refine ⟨fun groupId r hr => ?_, fun i tick hne conn groupId sent hc => authentic_of_change hne hc⟩
  obtain ⟨i, hi, hst⟩ := mem_run_log.mp hr
  obtain ⟨sent, record, columns, key, id, ha, hcl, rfl⟩ := authentic_of_stored hst
  exact ⟨i, sent, record, columns, key, id, hi ▸ ha, hcl, rfl, hst⟩

end Run

open Sample

theorem stored_records_authentic_founding : ∃ r ∈ (run handler registry founding
        foundingOrder).shared.store.log groupId, r.epoch = 1 ∧
      ∃ i sent record columns key id, Authentic handler registry founding
        foundingOrder (founding i) groupId sent record key ∧
        columnsOf layer record = some columns ∧ r = Store.stamp columns id := by
  have hl : ((run handler registry founding
      foundingOrder).shared.store.log groupId).map (·.epoch) = [0, 1] := by
    decide +kernel
  obtain ⟨r, hr, he⟩ := List.mem_map.mp (hl ▸ List.mem_cons_of_mem _ List.mem_cons_self)
  obtain ⟨i, sent, record, columns, key, id, ha, hc, hs, -⟩ := (stored_records_authentic
    handler registry founding foundingOrder).1 _ r hr
  exact ⟨r, hr, he, i, sent, record, columns, key, id, ha, hc, hs⟩

end MessageServer.Api
