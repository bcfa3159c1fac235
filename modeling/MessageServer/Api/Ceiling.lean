import MessageServer.Api.Push
import MessageServer.Store.Pages

/-! # The ceiling of a push

A subscription is served up to the epoch it was authorized at. What it is owed
is a stored record up to that epoch, as long as no submission is answered with
the id of a record that is stored at a later epoch than the submission names.
-/

namespace MessageServer.Api

open Interleaving Store.Sample Store Machine

section Registry

variable {registry next : Subscriptions} {key : SubscriptionKey}

structure Subscription.OwedOf (records : List PublishedRecord) (later earlier : Subscription) :
    Prop where
  groupId : later.groupId = earlier.groupId
  readEpoch : later.readEpoch = earlier.readEpoch
  owed : later.owed = earlier.owed ∨
    ∃ x ∈ records, x.epoch ≤ later.readEpoch ∧ x.recordId = later.owed

theorem Subscription.OwedOf.refl (records : List PublishedRecord) (sub : Subscription) :
    sub.OwedOf records sub := ⟨rfl, rfl, .inl rfl⟩

theorem Subscription.owe_owedOf (sub : Subscription) (records : List PublishedRecord) :
    (sub.owe records).OwedOf records sub := by
  induction records generalizing sub with
  | nil => exact .refl _ _
  | cons x records ih =>
    by_cases hx : x.epoch ≤ sub.readEpoch ∧ sub.owed < x.recordId
    · have how : sub.owe (x :: records) =
          ({ sub with owed := x.recordId } : Subscription).owe records := by
        simp only [owe, List.foldl_cons, if_pos hx]
      obtain ⟨hg, hr, ho⟩ := ih { sub with owed := x.recordId }
      rw [how]
      refine ⟨hg, hr, .inr ?_⟩
      rcases ho with ho | ⟨y, hy, he, hid⟩
      · exact ⟨x, List.mem_cons_self, hx.1.trans_eq hr.symm, ho.symm⟩
      · exact ⟨y, List.mem_cons_of_mem _ hy, he, hid⟩
    · have how : sub.owe (x :: records) = sub.owe records := by
        simp only [owe, List.foldl_cons, if_neg hx]
      obtain ⟨hg, hr, ho⟩ := ih sub
      rw [how]
      refine ⟨hg, hr, ho.imp id ?_⟩
      rintro ⟨y, hy, he, hid⟩
      exact ⟨y, List.mem_cons_of_mem _ hy, he, hid⟩

/-- Where a subscription that stands after a step of a call comes from. -/
inductive StandsBy (c : Call) (registry : Subscriptions) (key : SubscriptionKey)
    (sub : Subscription) : Prop
  | registered {r : Incoming Protocol.SubscribeRequest} {wanted : Protocol.Subscription}
      {snapshot : ℕ} (call : c = .subscribing r wanted (.register snapshot))
      (at_key : key = subscriptionKeyOf r.conn wanted.groupId)
      (groupId : sub.groupId = wanted.groupId) (readEpoch : sub.readEpoch = r.body.readEpoch)
      (owed : sub.owed = snapshot)
  | kept {before : Subscription} (stood : registry.byKey key = some before)
      (same : sub.OwedOf [] before)
  | published {before : Subscription} {r : Incoming Protocol.SubmitRequest} {pass : Pass}
      {records : List KeyedRecord} {stored : Store.Call} {answer : Answer}
      (stood : registry.byKey key = some before)
      (call : c = .submitting r pass (.publishing records stored answer))
      (group : key.group = r.body.groupId)
      (raised : sub.OwedOf (publishedRecords records answer.results) before)

theorem RegistryStep.standsBy {c : Call} (hst : RegistryStep c registry next)
    {sub : Subscription} (hsb : next.byKey key = some sub) : StandsBy c registry key sub := by
  have hol : next.byKey key = none ∨ next.byKey key = registry.byKey key →
      StandsBy c registry key sub := by
    rintro (hn | he)
    · rw [hn] at hsb
      cases hsb
    · exact .kept (he ▸ hsb) (.refl _ _)
  cases hst with
  | refl => exact hol (.inr rfl)
  | @subscribed r wanted snapshot call =>
    rcases registry.subscribe_cases key r.conn wanted.groupId r.body.readEpoch snapshot
      r.body.replace with ⟨-, h⟩ | ⟨hk, sub', hs, hg, hr, ho⟩
    · exact hol h
    · cases hsb.symm.trans hs
      exact .registered call hk hg hr ho
  | unsubscribed conn groupIds all => exact hol (registry.unsubscribe_byKey key conn groupIds all)
  | @published r pass records stored answer call =>
    unfold Subscriptions.published at hsb
    split at hsb
    · exact .kept hsb (.refl _ _)
    · by_cases hg : key.group = r.body.groupId
      · simp only [if_pos hg] at hsb
        obtain ⟨before, hb, rfl⟩ := Option.map_eq_some_iff.mp hsb
        exact .published hb call hg (before.owe_owedOf _)
      · simp only [if_neg hg] at hsb
        exact .kept hsb (.refl _ _)
  | taken candidate => exact hol (.inr (by rw [registry.deliverTake_byKey]))
  | settled push delivered =>
    rcases registry.deliverSettle_byKey key push delivered with h | h | ⟨before, hb, h⟩
    · exact hol (.inl h)
    · exact hol (.inr h)
    · rw [h] at hsb
      cases hsb
      exact .kept hb ⟨rfl, rfl, .inl rfl⟩

end Registry

section Step

variable {h : Handler} {tick : Tick} {s : Server}

theorem standsBy_step {c : Call} {key : SubscriptionKey} {sub : Subscription}
    (hsb : (c.step h tick s).1.standing key = some sub) :
    s.standing key = some sub ∨
      ∃ registry, s.subscriptions = some registry ∧ StandsBy c registry key sub := by
  unfold Server.standing at hsb ⊢
  rcases (moves_step c : RegistryMoves c s (c.step h tick s).1) with
    hs | ⟨registry, next, hr, hn, hst⟩
  · rw [hs] at hsb
    exact .inl hsb
  · rw [hn] at hsb
    exact .inr ⟨registry, hr, hst.standsBy hsb⟩

end Step

section Stored

variable {cfg : Config} {g : MemoryGroup}

theorem exists_row_at_highWater (hs : GroupLog cfg g) (hp : 0 < g.currentEpoch)
    (readEpoch : ℕ) : ∃ row ∈ g.records, row.record.epoch ≤ readEpoch ∧
      row.record.recordId = highWaterRecordId readEpoch g.records := by
  obtain ⟨c, hc⟩ := (hs.commits 0).mpr hp
  obtain ⟨-, row, hr, -, -, -, he, -⟩ := hs.commit 0 c hc
  have hid : row.record.recordId ∈ List.range' 1 (g.nextRecordId - 1) :=
    hs.ids ▸ List.mem_map_of_mem hr
  have hle : row.record.recordId ≤ highWaterRecordId readEpoch g.records :=
    le_highWaterRecordId hr (by omega)
  rw [List.mem_range'_1] at hid
  exact hs.exists_highWater (by omega)

theorem exists_row_of_matchedId (hs : GroupLog cfg g) {record : Record} {id : ℕ}
    (hm : matchedId cfg g record = some id) :
    ∃ row ∈ g.records, row.record.recordId = id := by
  obtain ⟨claim, hc, hid⟩ := Option.bind_eq_some_iff.mp hm
  obtain ⟨row, hr, -, rfl⟩ := hs.claims _ claim hc
  split at hid
  · exact ⟨row, hr, Option.some.inj hid⟩
  · cases hid

theorem currentEpoch_pos {now : Time} {o : Option MemoryGroup}
    (hst : GroupStep cfg now o g) (hs : ∀ g₀, o = some g₀ → Sound cfg g₀)
    (hp : ∀ g₀, o = some g₀ → 0 < g₀.currentEpoch) : 0 < g.currentEpoch := by
  cases o with
  | none =>
    cases hst
    exact Nat.one_pos
  | some g₀ => exact (hp g₀ rfl).trans_le (hst.grows (hs g₀ rfl)).epoch

end Stored

section Run

variable {ι : Type*} [DecidableEq ι] {h : Handler} {registry : Option Subscriptions}
  {requests : ι → Request} {sched : List (ι × Tick)}

/-- The record with an id is stored in a group, at an epoch that a ceiling admits. -/
def Server.Readable (s : Server) (groupId : Bytes) (readEpoch recordId : ℕ) : Prop :=
  ∃ x ∈ s.store.log groupId, x.recordId = recordId ∧ x.epoch ≤ readEpoch

variable {groupId : Bytes}

theorem run_sound (h : Handler) (registry : Option Subscriptions) (requests : ι → Request)
    (sched : List (ι × Tick)) {g : MemoryGroup}
    (hg : (run h registry requests sched).shared.store.groups groupId = some g) :
    Sound h.store g ∧ 0 < g.currentEpoch := by
  rw [run_store] at hg
  exact runFrom_each (P := fun g => Sound h.store g ∧ 0 < g.currentEpoch)
    (fun _ _ _ step hs => ⟨step.sound fun g₀ ho => (hs g₀ ho).1,
      currentEpoch_pos step (fun g₀ ho => (hs g₀ ho).1) fun g₀ ho => (hs g₀ ho).2⟩)
    (fun _ _ hn => by cases hn) _ _ groupId g hg

theorem Server.Readable.append {readEpoch recordId : ℕ}
    (hr : (run h registry requests sched).shared.Readable groupId readEpoch recordId)
    (more : List (ι × Tick)) :
    (run h registry requests (sched ++ more)).shared.Readable groupId readEpoch recordId := by
  obtain ⟨x, hx, hid, he⟩ := hr
  obtain ⟨rest, hrs⟩ := storeRun_append h requests registry sched more
  refine ⟨x, ?_, hid, he⟩
  rw [run_store] at hx ⊢
  rw [hrs]
  exact (runFrom_grows each_sound_empty _ _ rest).mem_log hx

theorem readable_of_fetch {request : FetchRequest} {result : FetchResult}
    (hf : fetch (run h registry requests sched).shared.store request = .ok result) :
    (run h registry requests sched).shared.Readable request.groupId request.readEpoch
      result.highWaterRecordId := by
  unfold fetch at hf
  rw [bind_eq_ok] at hf
  replace hf := hf.2
  split at hf
  · cases hf
  · rename_i g hg
    split at hf
    · cases hf
    · obtain ⟨hs, hp⟩ := run_sound h registry requests sched hg
      obtain ⟨row, hr, he, hid⟩ := exists_row_at_highWater hs.groupLog hp request.readEpoch
      refine ⟨row.record, ?_, ?_, he⟩
      · rw [MemoryStore.log_of_group hg]
        exact List.mem_map_of_mem hr
      · rw [← Except.ok.inj hf, fetchPage_highWaterRecordId, hid]

/--
No record that a submission is about to publish stands in the store at a later epoch than it was
submitted at.
-/
def Truthful (h : Handler) (w : World Server Call ι) (i : ι) : Prop :=
  ∀ r pass records stored answer,
    w.calls i = .submitting r pass (.publishing records stored answer) →
    ∀ record ∈ (h.storeSubmit r.body).records, ∀ g id,
      w.shared.store.groups r.body.groupId = some g →
      matchedId h.store g record = some id →
      ∀ x ∈ w.shared.store.log r.body.groupId, x.recordId = id → x.epoch ≤ record.epoch

variable {records : List KeyedRecord} {y : PublishedRecord} {i : ι}

theorem of_mem_publishedRecords {batch : List Pending}
    (hal : List.Forall₂ (fun record q => h.storeRecord record.toCheckedRecord = .ok q.record)
      records batch)
    (hy : y ∈ publishedRecords records ((resultsOf batch).map (h.resultOf groupId))) :
    ∃ q ∈ batch, accepted q.result.reason = true ∧ q.result.recordId = y.recordId ∧
      q.record.epoch = y.epoch := by
  induction hal with
  | nil => cases hy
  | @cons record q records batch hc _ ih =>
    simp only [publishedRecords, resultsOf, List.map_cons, List.zip_cons_cons,
      List.mem_filterMap, List.mem_cons] at ih hy
    obtain ⟨x, rfl | hx, hs⟩ := hy
    · split at hs
      · cases hs
      · rename_i hac
        cases hs
        simp only [not_or, not_not] at hac
        have ha : accepted q.result.reason = true := by
          by_contra hna
          simp [Handler.resultOf, resultOf, hna] at hac
        obtain ⟨-, -, hc⟩ := Handler.storeRecord_eq_ok.mp hc
        obtain ⟨wire, -, hq⟩ := Option.map_eq_some_iff.mp hc
        refine ⟨q, List.mem_cons_self, ha, ?_, ?_⟩
        · simp [Handler.resultOf, resultOf_of_accepted ha, ha]
        · rw [← hq]
    · obtain ⟨q', hq', hr⟩ := ih ⟨x, hx, hs⟩
      exact ⟨q', List.mem_cons_of_mem _ hq', hr⟩

theorem readable_of_publishing {r : Incoming Protocol.SubmitRequest} {pass : Pass}
    {stored : Store.Call} {answer : Answer} (hc : (run h registry requests sched).calls i =
      .submitting r pass (.publishing records stored answer))
    (ht : Truthful h (run h registry requests sched) i)
    (hy : y ∈ publishedRecords records answer.results) :
    (run h registry requests sched).shared.Readable r.body.groupId y.epoch y.recordId := by
  have hv := run_valid h requests registry sched i
  have hr := (run_admitted h registry requests sched i).2
  have hrq := run_storeCall_request h registry requests sched i
  have hs := run_storeCall h requests registry sched i
  have ht := ht r pass records stored answer hc
  rw [hc] at hv hr hrq hs
  obtain ⟨request, batch, rfl, rfl⟩ := hr
  cases hrq
  obtain ⟨-, ho, hmt⟩ := runFrom_answered each_sound_empty _ _ hs.symm
  have hcl := forall₂_of_forEach hv.2.columns
  rw [← ho, List.forall₂_map_right_iff] at hcl
  obtain ⟨q, hq, ha, hid, he⟩ := of_mem_publishedRecords (hcl.imp fun _ _ ⟨_, hok⟩ => hok) hy
  obtain ⟨g, hg, hm⟩ := hmt q hq ha
  have hg' : (run h registry requests sched).shared.store.groups r.body.groupId = some g := by
    rw [run_store]
    exact hg
  obtain ⟨row, hrw, hrd⟩ :=
    exists_row_of_matchedId (run_sound h registry requests sched hg').1.groupLog hm
  have hx : row.record ∈ (run h registry requests sched).shared.store.log r.body.groupId := by
    rw [MemoryStore.log_of_group hg']
    exact List.mem_map_of_mem hrw
  refine ⟨row.record, hx, hrd.trans hid, ?_⟩
  rw [← he]
  exact ht q.record (ho ▸ List.mem_map_of_mem hq) g _ hg' hm row.record hx hrd

/-- A subscription that a request was authorized for, owed a record that its ceiling admits. -/
structure Subscription.Served (requests : ι → Request) (s : Server) (key : SubscriptionKey)
    (sub : Subscription) : Prop where
  groupId : sub.groupId = key.group
  authorized : ∃ j r wanted, requests j = .subscribe r ∧ wanted ∈ r.body.subscriptions ∧
    key = subscriptionKeyOf r.conn wanted.groupId ∧ sub.readEpoch = r.body.readEpoch
  readable : s.Readable sub.groupId sub.readEpoch sub.owed

variable {r : Incoming Protocol.SubscribeRequest} {wanted : Protocol.Subscription}
  {stage : SubscribeStage}

theorem subscribing_step {tick : Tick} {s : Server} {c : Call}
    (hn : (c.step h tick s).2 = .subscribing r wanted stage) :
    (r.body.subscriptions = [wanted] ∨ ∃ stage', c = .subscribing r wanted stage') ∧
    ∀ snapshot, stage = .register snapshot → ∃ request result,
      fetch s.store request = .ok result ∧ request.groupId = wanted.groupId ∧
      request.readEpoch = r.body.readEpoch ∧ result.highWaterRecordId = snapshot := by
  have hst : (c.step h tick s).2.request = c.request := request_step c
  have hr : c.request = .subscribe r := by
    rw [← hst, hn]
    rfl
  cases c with
  | start request =>
    obtain rfl : request = .subscribe r := hr
    simp only [Call.step, startSubscribe] at hn
    split at hn
    · cases hn
    · split at hn
      · cases hn
      · rename_i hb
        split at hn
        · cases hn
        · cases hn
          exact ⟨.inl hb, fun _ hs => by cases hs⟩
      · cases hn
  | subscribing r' wanted' stage' =>
    cases hr
    cases stage' with
    | filter =>
      simp only [Call.step, subscribeStep] at hn
      split at hn <;> cases hn <;> exact ⟨.inr ⟨_, rfl⟩, fun _ hs => by cases hs⟩
    | key =>
      simp only [Call.step, subscribeStep] at hn
      split at hn
      · split at hn <;> cases hn
        exact ⟨.inr ⟨_, rfl⟩, fun _ hs => by cases hs⟩
      · cases hn
    | snapshot =>
      simp only [Call.step, subscribeStep] at hn
      split at hn
      · cases hn
      · rename_i result hf
        cases hn
        exact ⟨.inr ⟨_, rfl⟩, fun _ hs => ⟨_, result, hf, rfl, rfl, SubscribeStage.register.inj hs⟩⟩
    | register =>
      simp only [Call.step, subscribeStep] at hn
      split at hn
      · cases hn
      · split at hn <;> cases hn
        exact ⟨.inr ⟨_, rfl⟩, fun _ hs => by cases hs⟩
    | finished =>
      cases hn
      exact ⟨.inr ⟨_, rfl⟩, fun _ hs => by cases hs⟩
  | refused => cases hn
  | creating | submitting | unsubscribed | closing | delivering => cases hr

theorem run_wanted (hc : (run h registry requests sched).calls i = .subscribing r wanted stage) :
    requests i = .subscribe r ∧ wanted ∈ r.body.subscriptions := by
  have hr := run_request h requests registry sched i
  have hi := exec_calls (M := machine h) (w := initial (.empty registry) requests)
    (A := fun _ c => ∀ r wanted stage, c = .subscribing r wanted stage →
      wanted ∈ r.body.subscriptions)
    (fun _ tick s c hc r wanted stage hn => (subscribing_step hn).1.elim
      (fun hb => hb ▸ List.mem_singleton_self wanted) fun ⟨stage', hs⟩ => hc r wanted stage' hs)
    (fun _ _ _ _ hn => nomatch hn) sched i
  exact ⟨hr.symm.trans (by rw [hc]; rfl), hi r wanted stage hc⟩

/-- Every subscription stands below its ceiling, and so does every snapshot to be registered. -/
structure BelowCeiling (requests : ι → Request) (w : World Server Call ι) : Prop where
  standing : ∀ key sub, w.shared.standing key = some sub → sub.Served requests w.shared key
  snapshot : ∀ i r wanted snapshot, w.calls i = .subscribing r wanted (.register snapshot) →
    w.shared.Readable wanted.groupId r.body.readEpoch snapshot

variable {max : ℕ}

theorem run_belowCeiling
    (ht : ∀ p m q, sched = p ++ m :: q → Truthful h (run h (some (.empty max)) requests p) m.1) :
    BelowCeiling requests (run h (some (.empty max)) requests sched) := by
  induction sched using List.reverseRecOn with
  | nil =>
    constructor
    · intro _ _ hs
      cases hs
    · intro _ _ _ _ hc
      cases hc
  | append_singleton sched m ih =>
    have hb := ih fun p m' q hs => ht p m' (q ++ [m]) (by rw [hs]; simp)
    have htm := ht sched m [] rfl
    constructor
    · intro key sub hsb
      have hs := hsb
      rw [run_snoc, turn_shared] at hs
      rcases standsBy_step hs with hol | ⟨registry, hr, hby⟩
      · obtain ⟨hg, ha, hrd⟩ := hb.standing key sub hol
        exact ⟨hg, ha, hrd.append [m]⟩
      · cases hby with
        | @registered r wanted snapshot call at_key groupId readEpoch owed =>
          obtain ⟨hrq, hw⟩ := run_wanted call
          refine ⟨by rw [groupId, at_key]; rfl, ⟨m.1, r, wanted, hrq, hw, at_key, readEpoch⟩, ?_⟩
          rw [groupId, readEpoch, owed]
          exact (hb.snapshot m.1 r wanted snapshot call).append [m]
        | @kept before stood same =>
          have hst : (run h (some (.empty max)) requests sched).shared.standing key =
              some before := by rw [Server.standing, hr]; exact stood
          obtain ⟨hg, ⟨j, r, wanted, hj, hw, hk, he⟩, hrd⟩ := hb.standing key before hst
          refine ⟨same.groupId.trans hg, ⟨j, r, wanted, hj, hw, hk, same.readEpoch.trans he⟩, ?_⟩
          rcases same.owed with ho | ⟨_, hn, -⟩
          · rw [same.groupId, same.readEpoch, ho]
            exact hrd.append [m]
          · cases hn
        | @published before r pass records stored answer stood call group raised =>
          have hst : (run h (some (.empty max)) requests sched).shared.standing key =
              some before := by rw [Server.standing, hr]; exact stood
          obtain ⟨hg, ⟨j, r', wanted, hj, hw, hk, he⟩, hrd⟩ := hb.standing key before hst
          refine ⟨raised.groupId.trans hg,
            ⟨j, r', wanted, hj, hw, hk, raised.readEpoch.trans he⟩, ?_⟩
          rcases raised.owed with ho | ⟨y, hy, hle, hid⟩
          · rw [raised.groupId, raised.readEpoch, ho]
            exact hrd.append [m]
          · obtain ⟨x, hx, hxd, hxe⟩ := (readable_of_publishing call htm hy).append [m]
            rw [raised.groupId, hg, group]
            exact ⟨x, hx, hxd.trans hid, hxe.trans hle⟩
    · intro i r wanted snapshot hc
      by_cases hi : i = m.1
      · obtain ⟨j, tick⟩ := m
        subst hi
        rw [run_snoc, turn_calls_self] at hc
        obtain ⟨request, result, hf, hg, he, rfl⟩ := (subscribing_step hc).2 _ rfl
        rw [← hg, ← he]
        exact (readable_of_fetch hf).append _
      · rw [run_snoc, turn_calls_of_ne hi] at hc
        exact (hb.snapshot i r wanted snapshot hc).append [m]

end Run

/--
Every push names a stored record at or below the epoch its subscription was authorized at, in a run
none of whose submissions publishes one of a later epoch.
-/
theorem pushes_below_ceiling {ι : Type*} [DecidableEq ι] (h : Handler) (max : ℕ)
    (requests : ι → Request) (sched : List (ι × Tick))
    (ht : ∀ p m q, sched = p ++ m :: q → Truthful h (run h (some (.empty max)) requests p) m.1)
    (p q : List (ι × Tick)) (i : ι) (tick : Tick) (hsched : sched = p ++ (i, tick) :: q)
    (push : Push) (hidle : (run h (some (.empty max)) requests p).calls i = .delivering none)
    (hpush : (run h (some (.empty max)) requests (p ++ [(i, tick)])).calls i =
      .delivering (some push)) :
    ∃ sub, (run h (some (.empty max)) requests p).shared.standing push.key = some sub ∧
      sub.serial = push.serial ∧
      sub.Served requests (run h (some (.empty max)) requests p).shared push.key ∧
      (run h (some (.empty max)) requests p).shared.Readable sub.groupId sub.readEpoch
        push.owed := by
  have hb : BelowCeiling requests (run h (some (.empty max)) requests p) :=
    run_belowCeiling fun p' m q' hp => ht p' m (q' ++ (i, tick) :: q) (by rw [hsched, hp]; simp)
  rw [run_snoc, turn_calls_self, hidle] at hpush
  simp only [machine, Call.step, deliverStep] at hpush
  split at hpush
  · cases hpush
  · rename_i registry hr
    simp only [Subscriptions.deliverTake, Call.delivering.injEq] at hpush
    split at hpush
    · obtain ⟨sub, hs, rfl⟩ := Option.map_eq_some_iff.mp hpush
      have hst : (run h (some (.empty max)) requests p).shared.standing tick.candidate =
          some sub := by
        rw [Server.standing, hr]
        exact hs
      exact ⟨sub, hst, rfl, hb.standing _ sub hst, (hb.standing _ sub hst).readable⟩
    · cases hpush

namespace Sample

def pushing : Call → Option Push
  | .delivering push => push
  | _ => none

theorem eq_of_pushing {c : Call} {push : Push} (hp : pushing c = some push) :
    c = .delivering (some push) := by
  cases c <;> simp_all [pushing]

def idle : Call → Bool
  | .delivering none => true
  | _ => false

theorem eq_of_idle {c : Call} (hc : idle c = true) : c = .delivering none := by
  unfold idle at hc
  split at hc
  · rfl
  · cases hc

def truthful {ι : Type*} (h : Handler) (w : World Server Call ι) (i : ι) : Bool :=
  match w.calls i with
  | .submitting r _ (.publishing ..) =>
    match w.shared.store.groups r.body.groupId with
    | none => true
    | some g => (h.storeSubmit r.body).records.all fun record =>
        (matchedId h.store g record).all fun id =>
          (w.shared.store.log r.body.groupId).all fun x => x.recordId ≠ id ∨ x.epoch ≤ record.epoch
  | _ => true

theorem truthful_of_check {ι : Type*} {h : Handler} {w : World Server Call ι} {i : ι}
    (hc : truthful h w i = true) : Truthful h w i := by
  intro r pass records stored answer hi record hr g id hg hm x hx hid
  simp only [truthful, hi, hg, List.all_eq_true] at hc
  have hrc := hc record hr
  rw [hm, Option.all_some, List.all_eq_true] at hrc
  exact (of_decide_eq_true (hrc x hx)).resolve_left (not_not.mpr hid)

theorem truthful_of_forall {ι : Type*} [DecidableEq ι] {h : Handler}
    {registry : Option Subscriptions} {requests : ι → Request} {sched : List (ι × Tick)}
    (ha : ∀ n : Fin sched.length,
      truthful h (run h registry requests (sched.take n)) (sched.get n).1 = true)
    (p : List (ι × Tick)) (m : ι × Tick) (q : List (ι × Tick)) (hs : sched = p ++ m :: q) :
    Truthful h (run h registry requests p) m.1 := by
  subst hs
  have hn := ha ⟨p.length, by simp⟩
  simp only [List.take_left, List.get_eq_getElem, List.getElem_append_right le_rfl, Nat.sub_self,
    List.getElem_cons_zero] at hn
  exact truthful_of_check hn

def delivery : Tick := ⟨fun _ => 0, subscriptionKeyOf (conn 3) groupId, true⟩

def reEpoching : Fin 7 → Request :=
  ![createGroup, .submit (submission 4 1 2 5), .submit (submission 1 1 3 5),
    .submit (submission 4 2 4 5), .subscribe (subscription 3), .submit (submission 16 1 4 5),
    .deliver]

def reEpochingOrder : List (Fin 7 × Tick) :=
  (List.finRange 6).flatMap (fun i => turns 12 i.castSucc (i.val + 1)) ++
    [(Fin.last 6, delivery), (Fin.last 6, delivery)]

def delivering : Fin 4 → Request :=
  ![createGroup, .subscribe (subscription 3), .submit (submission 4 1 2 5), .deliver]

def deliveringOrder : List (Fin 4 × Tick) :=
  (List.finRange 3).flatMap (fun i => turns 12 i.castSucc (i.val + 1)) ++ [(Fin.last 3, delivery)]

end Sample

open Sample

/-- A subscription at epoch 1 is pushed the id of a record that is stored at epoch 2. -/
theorem push_above_ceiling : (pushing ((run handler (some (.empty 8)) reEpoching
        reEpochingOrder).calls 6)).map (fun push => (push.key, push.owed)) =
      some (subscriptionKeyOf (conn 3) groupId, 4) ∧
    ((run handler (some (.empty 8)) reEpoching
        reEpochingOrder).shared.standing
      (subscriptionKeyOf (conn 3) groupId)).map (·.readEpoch) = some 1 ∧
    ((run handler (some (.empty 8)) reEpoching
        reEpochingOrder).shared.store.log groupId).map
      (fun x => (x.recordId, x.epoch)) = [(1, 0), (2, 1), (3, 1), (4, 2)] := by
  refine ⟨?_, ?_, ?_⟩ <;> decide +kernel

/-- The marker of epoch 1 is pushed to a subscription at epoch 1. -/
theorem pushes_below_ceiling_marker : ∃ push, ∃ sub : Subscription,
    (run handler (some (.empty 8)) delivering
      (deliveringOrder ++ [(3, delivery)])).calls 3 = .delivering (some push) ∧
    push.owed = 2 ∧
    (run handler (some (.empty 8)) delivering
      deliveringOrder).shared.standing push.key = some sub ∧
    (run handler (some (.empty 8)) delivering
      deliveringOrder).shared.Readable sub.groupId sub.readEpoch push.owed := by
  have hps : (pushing ((run handler (some (.empty 8)) delivering
      (deliveringOrder ++ [(3, delivery)])).calls 3)).map (·.owed) = some 2 := by
    decide +kernel
  have hi : idle ((run handler (some (.empty 8)) delivering
      deliveringOrder).calls 3) = true := by decide +kernel
  have ht : ∀ n : Fin (deliveringOrder ++ [(3, delivery)]).length,
      truthful handler (run handler (some (.empty 8)) delivering
        ((deliveringOrder ++ [(3, delivery)]).take n))
        ((deliveringOrder ++ [(3, delivery)]).get n).1 = true := by decide +kernel
  obtain ⟨push, hp, ho⟩ := Option.map_eq_some_iff.mp hps
  obtain ⟨sub, hst, -, -, hr⟩ := pushes_below_ceiling handler 8 delivering
    (deliveringOrder ++ [(3, delivery)]) (truthful_of_forall ht)
    deliveringOrder [] 3 delivery rfl push (eq_of_idle hi)
    (eq_of_pushing hp)
  exact ⟨push, sub, eq_of_pushing hp, ho, hst, hr⟩

end MessageServer.Api
