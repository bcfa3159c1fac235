import MessageServer.Api.Retry

/-! # What a subscriber is told

A subscription reads its snapshot in one step and is registered in a later one,
and a submission stores its records in one step and publishes them in a later
one. A record past the snapshot is owed to the subscriber through its publish.
-/

namespace MessageServer.Api

open Interleaving Function Store.Sample Store Machine
open Protocol hiding Record

theorem Subscription.owe_spec (sub : Subscription) (records : List PublishedRecord) :
    (sub.owe records).readEpoch = sub.readEpoch ∧ sub.owed ≤ (sub.owe records).owed ∧
      ∀ x ∈ records, x.epoch ≤ sub.readEpoch → x.recordId ≤ (sub.owe records).owed := by
  induction records generalizing sub with
  | nil => exact ⟨rfl, le_rfl, fun _ hx => nomatch hx⟩
  | cons x records ih =>
    by_cases hx : x.epoch ≤ sub.readEpoch ∧ sub.owed < x.recordId
    · have how : sub.owe (x :: records) =
          ({ sub with owed := x.recordId } : Subscription).owe records := by
        simp only [owe, List.foldl_cons, if_pos hx]
      obtain ⟨hr, ho, ha⟩ := ih { sub with owed := x.recordId }
      rw [how]
      refine ⟨hr, hx.2.le.trans ho, fun y hy he => ?_⟩
      rcases List.mem_cons.mp hy with rfl | hy
      · exact ho
      · exact ha y hy he
    · have how : sub.owe (x :: records) = sub.owe records := by
        simp only [owe, List.foldl_cons, if_neg hx]
      obtain ⟨hr, ho, ha⟩ := ih sub
      rw [how]
      refine ⟨hr, ho, fun y hy he => ?_⟩
      rcases List.mem_cons.mp hy with rfl | hy
      · exact (not_lt.mp fun hlt => hx ⟨he, hlt⟩).trans ho
      · exact ha y hy he

structure Subscription.Follows (later earlier : Subscription) : Prop where
  readEpoch : later.readEpoch = earlier.readEpoch
  owed : earlier.owed ≤ later.owed

theorem Subscription.Follows.refl (sub : Subscription) : sub.Follows sub := ⟨rfl, le_rfl⟩

/-- Whatever stands under a key stood there before, owed no more. -/
def Subscriptions.Inherits (later earlier : Subscriptions) (key : SubscriptionKey) : Prop :=
  ∀ sub', later.byKey key = some sub' → ∃ sub, earlier.byKey key = some sub ∧ sub'.Follows sub

namespace Subscriptions

variable (registry : Subscriptions) (key : SubscriptionKey) {groupId : Bytes} (conn : Connection)
  (candidate : SubscriptionKey) (groupIds : List Bytes) (push : Push) (delivered : Bool)

theorem Inherits.of_byKey {later earlier : Subscriptions}
    (h : later.byKey key = none ∨ later.byKey key = earlier.byKey key) :
    later.Inherits earlier key := by
  intro sub hs
  rcases h with h | h
  · rw [h] at hs
    cases hs
  · exact ⟨sub, h ▸ hs, .refl sub⟩

theorem dropConnection_byKey (connection : Bytes) :
    (registry.dropConnection connection).byKey key = none ∨
      (registry.dropConnection connection).byKey key = registry.byKey key := by
  simp only [dropConnection]
  split
  · exact .inl rfl
  · exact .inr rfl

theorem unsubscribe_byKey (all : Bool) : (registry.unsubscribe conn groupIds all).byKey key = none ∨
      (registry.unsubscribe conn groupIds all).byKey key = registry.byKey key := by
  cases all with
  | true => exact registry.dropConnection_byKey key (connectionKeyOf conn)
  | false =>
    simp only [unsubscribe, Bool.false_eq_true, if_false]
    split
    · exact .inl rfl
    · exact .inr rfl

theorem unsubscribe_inherits (all : Bool) :
    (registry.unsubscribe conn groupIds all).Inherits registry key :=
  .of_byKey key (registry.unsubscribe_byKey key conn groupIds all)

theorem published_inherits (groupId : Bytes) (records : List PublishedRecord) :
    (registry.published groupId records).Inherits registry key := by
  unfold published
  split
  · exact .of_byKey key (.inr rfl)
  · intro sub' hsb
    by_cases hg : key.group = groupId
    · simp only [if_pos hg] at hsb
      obtain ⟨sub, hs, rfl⟩ := Option.map_eq_some_iff.mp hsb
      obtain ⟨hr, ho, -⟩ := sub.owe_spec records
      exact ⟨sub, hs, hr, ho⟩
    · simp only [if_neg hg] at hsb
      exact ⟨sub', hsb, .refl sub'⟩

@[simp] theorem deliverTake_byKey : (registry.deliverTake candidate).1.byKey = registry.byKey := by
  unfold deliverTake
  split <;> rfl

theorem deliverTake_inherits : (registry.deliverTake candidate).1.Inherits registry key :=
  .of_byKey key (.inr (by rw [deliverTake_byKey]))

theorem deliverSettle_byKey : (registry.deliverSettle push delivered).byKey key = none ∨
      (registry.deliverSettle push delivered).byKey key = registry.byKey key ∨
      ∃ sub, registry.byKey key = some sub ∧ (registry.deliverSettle push delivered).byKey key =
        some { sub with notified := max sub.notified push.owed } := by
  unfold deliverSettle
  split
  · exact .inr (.inl rfl)
  · rename_i sub hs
    split
    · exact .inr (.inl rfl)
    · by_cases hk : key = push.key
      · subst hk
        split
        · exact .inr (.inr ⟨sub, hs, update_self ..⟩)
        · exact .inl (update_self ..)
      · split <;> exact .inr (.inl (update_of_ne hk ..))

theorem deliverSettle_inherits : (registry.deliverSettle push delivered).Inherits registry key := by
  rcases registry.deliverSettle_byKey key push delivered with h | h | ⟨sub, hs, h⟩
  · exact .of_byKey key (.inl h)
  · exact .of_byKey key (.inr h)
  · intro sub' hs'
    rw [h] at hs'
    exact ⟨sub, hs, Option.some.inj hs' ▸ ⟨rfl, le_rfl⟩⟩

theorem published_owed {records : List PublishedRecord} {x : PublishedRecord} (hx : x ∈ records)
    (hg : key.group = groupId) {sub : Subscription}
    (hs : (registry.published groupId records).byKey key = some sub)
    (he : x.epoch ≤ sub.readEpoch) :
    x.recordId ≤ sub.owed := by
  unfold published at hs
  rw [if_neg fun hn => List.not_mem_nil (List.length_eq_zero_iff.mp hn ▸ hx)] at hs
  simp only [if_pos hg] at hs
  obtain ⟨sub, -, rfl⟩ := Option.map_eq_some_iff.mp hs
  obtain ⟨hr, -, ha⟩ := sub.owe_spec records
  exact ha x hx (hr ▸ he)

theorem subscribe_cases (groupId : Bytes) (readEpoch snapshot : ℕ) (replace : Bool) :
    ((registry.subscribe conn groupId readEpoch snapshot replace).2 = false ∨
      key ≠ subscriptionKeyOf conn groupId) ∧
      ((registry.subscribe conn groupId readEpoch snapshot replace).1.byKey key = none ∨
        (registry.subscribe conn groupId readEpoch snapshot replace).1.byKey key =
          registry.byKey key) ∨
    key = subscriptionKeyOf conn groupId ∧ ∃ sub,
      (registry.subscribe conn groupId readEpoch snapshot replace).1.byKey key = some sub ∧
      sub.groupId = groupId ∧ sub.readEpoch = readEpoch ∧ sub.owed = snapshot := by
  have hb : (if replace = true then registry.dropConnection (connectionKeyOf conn)
      else registry).byKey key = none ∨
      (if replace = true then registry.dropConnection (connectionKeyOf conn)
        else registry).byKey key = registry.byKey key := by
    split
    · exact registry.dropConnection_byKey key _
    · exact .inr rfl
  unfold subscribe
  dsimp only
  generalize (if replace = true then registry.dropConnection (connectionKeyOf conn) else registry) =
    base at hb ⊢
  split
  · exact .inl ⟨.inl rfl, hb⟩
  · by_cases hk : key = subscriptionKeyOf conn groupId
    · subst hk
      exact .inr ⟨rfl, _, update_self .., rfl, rfl, rfl⟩
    · refine .inl ⟨.inr hk, ?_⟩
      dsimp only
      rwa [update_of_ne hk]

theorem subscribe_byKey {conn : Connection} {readEpoch snapshot : ℕ} {replace : Bool}
    {next : Subscriptions}
    (h : registry.subscribe conn groupId readEpoch snapshot replace = (next, true)) :
    ∃ sub, next.byKey (subscriptionKeyOf conn groupId) = some sub ∧
      sub.readEpoch = readEpoch ∧ sub.owed = snapshot := by
  rcases registry.subscribe_cases (subscriptionKeyOf conn groupId) conn groupId readEpoch snapshot
    replace with ⟨hno | hne, -⟩ | ⟨-, sub, hs, -, hr, ho⟩
  · rw [h] at hno
    cases hno
  · exact absurd rfl hne
  · rw [h] at hs
    exact ⟨sub, hs, hr, ho⟩

end Subscriptions

/-- One change of the registry, by one of its critical sections. -/
inductive RegistryStep (c : Call) (registry : Subscriptions) : Subscriptions → Prop
  | refl : RegistryStep c registry registry
  | subscribed {r : Incoming SubscribeRequest} {wanted : Protocol.Subscription}
      {snapshot : ℕ} (call : c = .subscribing r wanted (.register snapshot)) :
      RegistryStep c registry (registry.subscribe r.conn wanted.groupId r.body.readEpoch snapshot
        r.body.replace).1
  | unsubscribed (conn : Connection) (groupIds : List Bytes) (all : Bool) :
      RegistryStep c registry (registry.unsubscribe conn groupIds all)
  | published {r : Incoming Protocol.SubmitRequest} {pass : Pass} {records : List KeyedRecord}
      {stored : Store.Call} {answer : Answer}
      (call : c = .submitting r pass (.publishing records stored answer)) :
      RegistryStep c registry (registry.published r.body.groupId
        (publishedRecords records answer.results))
  | taken (candidate : SubscriptionKey) : RegistryStep c registry (registry.deliverTake candidate).1
  | settled (push : Push) (delivered : Bool) :
      RegistryStep c registry (registry.deliverSettle push delivered)

theorem RegistryStep.inherits {c : Call} {registry next : Subscriptions}
    (hs : RegistryStep c registry next) (hc : ∀ r, c.request ≠ .subscribe r)
    (key : SubscriptionKey) : next.Inherits registry key := by
  cases hs with
  | refl => exact .of_byKey key (.inr rfl)
  | subscribed call => exact absurd rfl (call ▸ hc _)
  | unsubscribed => exact registry.unsubscribe_inherits key _ _ _
  | published => exact registry.published_inherits key _ _
  | taken => exact registry.deliverTake_inherits key _
  | settled => exact registry.deliverSettle_inherits key _ _

def Server.standing (s : Server) (key : SubscriptionKey) : Option Subscription :=
  s.subscriptions.bind (·.byKey key)

def Server.Owes (s : Server) (key : SubscriptionKey) (recordId : ℕ) : Prop :=
  ∀ sub, s.standing key = some sub → recordId ≤ sub.owed

section Step

variable {h : Handler} {tick : Tick} {s : Server}

/-- Whatever stands under a key after a step stood there before it, owed no more. -/
def Server.Inherits (s' s : Server) (key : SubscriptionKey) : Prop :=
  ∀ sub', s'.standing key = some sub' → ∃ sub, s.standing key = some sub ∧ sub'.Follows sub

theorem Server.Inherits.of_eq {s' : Server} {key : SubscriptionKey}
    (hs : s'.subscriptions = s.subscriptions) : s'.Inherits s key :=
  fun sub hsb => ⟨sub, by rwa [standing, ← hs], .refl sub⟩

@[simp] theorem filterStep_subscriptions (filter : KnownGroups) (s : Server) (groupId : Bytes)
    (stage : FilterStage) :
    (filterStep filter s groupId stage).1.subscriptions = s.subscriptions := by
  rcases filterStep_server filter s groupId stage with hs | hs <;> rw [hs]
  rfl

def RegistryMoves (c : Call) (s s' : Server) : Prop :=
  s'.subscriptions = s.subscriptions ∨
    ∃ registry next, s.subscriptions = some registry ∧ s'.subscriptions = some next ∧
      RegistryStep c registry next

theorem submitStep_moves (r : Incoming Protocol.SubmitRequest) (pass : Pass) (stage : SubmitStage) :
    RegistryMoves (.submitting r pass stage) s (submitStep h tick s r pass stage).1 := by
  cases stage with
  | filter stage =>
    have hs := filterStep_subscriptions h.knownGroups s r.body.groupId stage
    simp only [submitStep]
    split <;> rename_i hf <;> rw [hf] at hs <;> exact .inl hs
  | key seen done todo =>
    cases todo with
    | nil => exact .inl rfl
    | cons record todo =>
      simp only [submitStep]
      split <;> exact .inl rfl
  | auth | hash | columns =>
    simp only [submitStep]
    split <;> exact .inl rfl
  | storing | finished => exact .inl rfl
  | publishing records call answer =>
    cases hr : s.subscriptions with
    | none => exact .inl (by simp [submitStep, Server.publishAccepted, hr])
    | some registry =>
      exact .inr ⟨registry, _, hr, by simp [submitStep, Server.publishAccepted, hr], .published rfl⟩

theorem subscribeStep_moves (r : Incoming SubscribeRequest)
    (wanted : Protocol.Subscription) (stage : SubscribeStage) :
    RegistryMoves (.subscribing r wanted stage) s (subscribeStep h s r wanted stage).1 := by
  cases stage with
  | filter stage =>
    have hs := filterStep_subscriptions h.knownGroups s wanted.groupId stage
    simp only [subscribeStep]
    split <;> rename_i hf <;> rw [hf] at hs <;> exact .inl hs
  | key =>
    simp only [subscribeStep]
    split
    · split <;> exact .inl rfl
    · exact .inl rfl
  | snapshot =>
    simp only [subscribeStep]
    split <;> exact .inl rfl
  | register snapshot =>
    simp only [subscribeStep]
    split
    · exact .inl rfl
    · rename_i registry hr
      have hst : RegistryStep (.subscribing r wanted (.register snapshot)) registry
        (registry.subscribe r.conn wanted.groupId r.body.readEpoch snapshot r.body.replace).1 :=
        .subscribed rfl
      split <;> rename_i next hn <;> rw [hn] at hst <;> exact .inr ⟨registry, next, hr, rfl, hst⟩
  | finished => exact .inl rfl

theorem unsubscribeStep_moves (r : Incoming UnsubscribeRequest) :
    RegistryMoves (.start (.unsubscribe r)) s (unsubscribeStep s r).1 := by
  unfold unsubscribeStep
  split
  · exact .inl rfl
  · split
    · exact .inl rfl
    · rename_i registry hr
      split
      · exact .inl rfl
      · exact .inr ⟨registry, _, hr, rfl, .unsubscribed r.conn r.body.groupIds r.body.all⟩

theorem deliverStep_moves (push : Option Push) :
    RegistryMoves (.delivering push) s (deliverStep tick s push).1 := by
  cases push with
  | none =>
    simp only [deliverStep]
    split
    · exact .inl rfl
    · rename_i registry hr
      exact .inr ⟨registry, _, hr, rfl, .taken tick.candidate⟩
  | some push =>
    cases hr : s.subscriptions with
    | none => exact .inl (by simp [deliverStep, hr])
    | some registry =>
      exact .inr ⟨registry, _, hr, by simp [deliverStep, hr], .settled push tick.delivered⟩

/-- A step of any call leaves the registry alone or is one of its critical sections. -/
theorem moves_step (c : Call) : RegistryMoves c s (c.step h tick s).1 := by
  cases c with
  | start request =>
    cases request with
    | createGroup | submit =>
      simp only [Call.step]
      split
      · exact .inl rfl
      · split <;> exact .inl rfl
    | unsubscribe r => exact unsubscribeStep_moves r
    | subscribe | closeGroup | deliver => exact .inl rfl
  | creating r record keys stage =>
    cases stage with
    | auth | hash | transaction =>
      simp only [Call.step, createStep]
      split <;> exact .inl rfl
    | insert | finished => exact .inl rfl
  | submitting r pass stage => exact submitStep_moves r pass stage
  | subscribing r wanted stage => exact subscribeStep_moves r wanted stage
  | delivering push => exact deliverStep_moves push
  | refused | unsubscribed | closing => exact .inl rfl

theorem inherits_step (c : Call) (hc : ∀ r, c.request ≠ .subscribe r) (key : SubscriptionKey) :
    (c.step h tick s).1.Inherits s key := by
  rcases (moves_step c : RegistryMoves c s (c.step h tick s).1) with
    hs | ⟨registry, next, hr, hn, hst⟩
  · exact .of_eq hs
  · intro sub hsb
    unfold Server.standing at hsb ⊢
    rw [hn] at hsb
    rw [hr]
    exact hst.inherits hc key sub hsb

end Step

def Call.publishing : Call → Bool
  | .submitting _ _ (.publishing _ _ _) => true
  | _ => false

def Call.unregistered : Call → Option ℕ
  | .subscribing _ _ (.register snapshot) => some snapshot
  | _ => none

def Call.ack : Call → Option SubscriptionAck
  | .subscribing _ _ (.finished ack) => some ack
  | _ => none

section Published

variable {h : Handler} {records : List KeyedRecord} {batch : List Pending}

theorem mem_publishedRecords {groupId : Bytes}
    (hal : List.Forall₂ (fun record q => h.storeRecord record.toCheckedRecord = .ok q.record)
      records batch) {q : Pending} (hq : q ∈ batch) (ha : accepted q.result.reason = true)
    (hid : q.result.recordId ≠ 0) : ⟨q.result.recordId, q.record.epoch⟩ ∈
      publishedRecords records ((resultsOf batch).map (h.resultOf groupId)) := by
  induction hal with
  | nil => cases hq
  | @cons record q' records batch hc _ ih =>
    simp only [publishedRecords, resultsOf, List.map_cons, List.zip_cons_cons,
      List.mem_filterMap] at ih ⊢
    rcases List.mem_cons.mp hq with rfl | hq
    · have he : record.parsed.header.epoch = q.record.epoch := by
        obtain ⟨-, -, hc⟩ := Handler.storeRecord_eq_ok.mp hc
        obtain ⟨wire, -, hq⟩ := Option.map_eq_some_iff.mp hc
        rw [← hq]
      refine ⟨_, List.mem_cons_self, ?_⟩
      simp [Handler.resultOf, resultOf_of_accepted ha, ha, hid, he]
    · obtain ⟨x, hx, hs⟩ := ih hq
      exact ⟨x, List.mem_cons_of_mem _ hx, hs⟩

theorem published_of_stored {r : Incoming Protocol.SubmitRequest} {pass : Pass}
    (hc : Cleared h r pass records) (ho : batch.map (·.record) = (h.storeSubmit r.body).records)
    {x : Record} (hx : x ∈ appended batch) (hid : x.recordId ≠ 0) :
    ⟨x.recordId, x.epoch⟩ ∈
      publishedRecords records ((resultsOf batch).map (h.resultOf r.body.groupId)) := by
  obtain ⟨q, hq, rfl⟩ := List.mem_map.mp hx
  obtain ⟨hq, ha⟩ := List.mem_filter.mp hq
  have hcl := forall₂_of_forEach hc.columns
  rw [← ho, List.forall₂_map_right_iff] at hcl
  exact mem_publishedRecords (hcl.imp fun _ _ ⟨_, hok⟩ => hok) hq (Bool.and_elim_right ha) hid

end Published

section World

variable {h : Handler} {ι : Type*} [DecidableEq ι]

def Covered (h : Handler) (w : World Server Call ι) (groupId : Bytes) (readEpoch : ℕ)
    (P : ℕ → Prop) : Prop :=
  ∀ i, ∀ x ∈ ((w.calls i).storeCall h).stored, ((w.calls i).storeCall h).groupId = groupId →
    x.epoch ≤ readEpoch → (w.calls i).publishing = true ∨ P x.recordId

variable {tick : Tick} {w : World Server Call ι} {s : Server} {c : Call} {i : ι}

theorem storeCall_groupId_step (hv : c.Valid h) :
    ((c.step h tick s).2.storeCall h).groupId = (c.storeCall h).groupId := by
  cases ht : storeTick h tick c with
  | none => rw [(stutter_step c hv ht).2]
  | some now =>
    have hid : ((c.storeCall h).step h.store now s.store).2.groupId = (c.storeCall h).groupId :=
      Store.Call.groupId_step _
    rwa [step_store c hv ht] at hid

/-- A step stores nothing, or founds a group, or leads to a publish. -/
theorem stored_step (hv : c.Valid h) (hr : (c.storeCall h).request = h.storeRequest c.request)
    {x : Record} (hx : x ∈ ((c.step h tick s).2.storeCall h).stored) :
    x ∈ (c.storeCall h).stored ∨ s.store.groups (c.storeCall h).groupId = none ∨
      (c.step h tick s).2.publishing = true := by
  cases ht : storeTick h tick c with
  | none =>
    rw [(stutter_step c hv ht).2] at hx
    exact .inl hx
  | some now =>
    have hst := step_store (s := s) c hv ht
    unfold storeTick at ht
    split at ht
    · cases hx
    · rename_i r record keys
      replace hx : x ∈ (Store.Call.created (h.storeCreate r.body) _).stored :=
        (congrArg (x ∈ ·.2.stored) hst).mpr hx
      rcases createGroup_cases h.store now s.store (h.storeCreate r.body) with
        ⟨-, hnl⟩ | ⟨_, _, -, -, hg, -⟩
      · exact absurd (hnl ▸ hx) List.not_mem_nil
      · exact .inr (.inl hg)
    · rename_i r pass records call
      have hs : (call.step h.store (tick.clock 0) s.store).2.request =
          .submit (h.storeSubmit r.body) := (Store.Call.request_step call).trans hr
      simp only [Call.step, submitStep, storeCall_submitOutcome] at hx ⊢
      refine .inr (.inr ?_)
      cases hn : (call.step h.store (tick.clock 0) s.store).2 with
      | submitted => rfl
      | created =>
        rw [hn] at hs
        cases hs
      | start | closed | failed | answering | waiting =>
        rw [hn] at hx
        cases hx
    · cases ht

theorem Covered.turn {groupId : Bytes} {readEpoch : ℕ} {P P' : ℕ → Prop}
    (hw : Covered h w groupId readEpoch P) (tick : Tick) (hv : (w.calls i).Valid h)
    (hr : ((w.calls i).storeCall h).request = h.storeRequest (w.calls i).request)
    (hg : w.shared.store.groups groupId ≠ none) (hP : ∀ id, P id → P' id)
    (hpu : (w.calls i).publishing = true → ∀ x ∈ ((w.calls i).storeCall h).stored,
      ((w.calls i).storeCall h).groupId = groupId → x.epoch ≤ readEpoch → P' x.recordId) :
    Covered h ((machine h).turn w (i, tick)) groupId readEpoch P' := by
  intro j x hx hid he
  by_cases hj : j = i
  · subst hj
    have hs : ((machine h).turn w (j, tick)).calls j = ((w.calls j).step h tick w.shared).2 :=
      turn_calls_self ..
    rw [hs] at hx hid ⊢
    rw [storeCall_groupId_step hv] at hid
    rcases stored_step hv hr hx with hx | hn | hpb
    · rcases hw j x hx hid he with hp | hp
      · exact .inr (hpu hp x hx hid he)
      · exact .inr (hP _ hp)
    · exact absurd (hid ▸ hn) hg
    · exact .inl hpb
  · rw [turn_calls_of_ne hj] at hx hid ⊢
    exact (hw j x hx hid he).imp_right (hP _)

/-- What a subscription between its snapshot and its acknowledgement, or past it, may rely on. -/
def Call.Tracked (h : Handler) (w : World Server Call ι) : Call → Prop
  | .subscribing r wanted (.register snapshot) =>
    w.shared.store.groups wanted.groupId ≠ none ∧
      Covered h w wanted.groupId r.body.readEpoch (· ≤ snapshot)
  | .subscribing r wanted (.finished ack) =>
    ack.groupId = wanted.groupId ∧ w.shared.store.groups wanted.groupId ≠ none ∧
      (∀ sub, w.shared.standing (subscriptionKeyOf r.conn wanted.groupId) = some sub →
        sub.readEpoch = r.body.readEpoch) ∧
      Covered h w wanted.groupId r.body.readEpoch fun id => id ≤ ack.snapshotRecordId ∨
        w.shared.Owes (subscriptionKeyOf r.conn wanted.groupId) id
  | _ => True

theorem tracked_subscribeStep {r : Incoming SubscribeRequest}
    {wanted : Protocol.Subscription} {stage : SubscribeStage}
    (hc : w.calls i = .subscribing r wanted stage)
    (hr : ((w.calls i).storeCall h).request = h.storeRequest (w.calls i).request)
    (hl : ∀ j, ∀ x ∈ ((w.calls j).storeCall h).stored,
      x ∈ w.shared.store.log ((w.calls j).storeCall h).groupId) (ht : (w.calls i).Tracked h w) :
    (((machine h).turn w (i, tick)).calls i).Tracked h ((machine h).turn w (i, tick)) := by
  have hsl : ((machine h).turn w (i, tick)).calls i =
      (subscribeStep h w.shared r wanted stage).2 := by
    rw [turn_calls_self, hc]
    rfl
  have hsh : ((machine h).turn w (i, tick)).shared =
      (subscribeStep h w.shared r wanted stage).1 := by
    rw [turn_shared, hc]
    rfl
  have htr : ∀ {groupId : Bytes} {readEpoch : ℕ} {P P' : ℕ → Prop},
      Covered h w groupId readEpoch P → w.shared.store.groups groupId ≠ none →
      (∀ id, P id → P' id) → Covered h ((machine h).turn w (i, tick)) groupId readEpoch P' :=
    fun hw hg hP => hw.turn tick (by rw [hc]; trivial) hr hg hP fun hp => by
      rw [hc] at hp
      cases hp
  rw [hsl]
  cases stage with
  | filter stage =>
    simp only [subscribeStep]
    split <;> trivial
  | key =>
    simp only [subscribeStep]
    split
    · split <;> trivial
    · trivial
  | snapshot =>
    simp only [subscribeStep] at hsh ⊢
    split
    · trivial
    · rename_i result hf
      obtain ⟨hg, ha⟩ := fetch_highWater hf
      rw [hf] at hsh
      refine ⟨by rwa [hsh], htr (fun j x hx hid he => .inr ?_) hg fun _ hid => hid⟩
      exact ha x (hid ▸ hl j x hx) he
  | register snapshot =>
    rw [hc] at ht
    simp only [subscribeStep] at hsh ⊢
    split
    · trivial
    · rename_i registry hs
      rw [hs] at hsh
      split
      · trivial
      · rename_i next hn
        simp only [hn] at hsh
        obtain ⟨sub, hsb, hep, -⟩ := registry.subscribe_byKey hn
        refine ⟨rfl, by rw [hsh]; exact ht.1, fun sub' hs' => ?_,
          htr ht.2 ht.1 fun _ hid => .inl hid⟩
        rw [hsh] at hs'
        cases hsb.symm.trans hs'
        exact hep
  | finished ack =>
    have hst : (machine h).turn w (i, tick) = w := turn_of_stutter (by rw [hc]; rfl)
    rwa [← hsl, hst]

section Run

variable {registry : Option Subscriptions} {requests : ι → Request} {sched : List (ι × Tick)}

theorem run_snoc (h : Handler) (registry : Option Subscriptions) (requests : ι → Request)
    (sched : List (ι × Tick)) (m : ι × Tick) :
    run h registry requests (sched ++ [m]) = (machine h).turn (run h registry requests sched) m :=
  exec_snoc ..

theorem run_storeCall_request (h : Handler) (registry : Option Subscriptions)
    (requests : ι → Request) (sched : List (ι × Tick)) (i : ι) :
    (((run h registry requests sched).calls i).storeCall h).request =
      h.storeRequest ((run h registry requests sched).calls i).request := by
  rw [run_storeCall, storeRun_request]
  exact congrArg h.storeRequest (run_request h requests registry sched i).symm

variable {x : Record} {groupId : Bytes}

theorem run_recordId_ne_zero (hx : x ∈ (run h registry requests sched).shared.store.log groupId) :
    x.recordId ≠ 0 := by
  rw [run_store] at hx
  obtain ⟨_, L, -, -, -, hm⟩ :=
    exists_ledger (storeRun_history h requests registry sched).sound hx
  exact Nat.ne_of_gt (L.ordered.id_le hm).1

theorem run_group_stays (hg : (run h registry requests sched).shared.store.groups groupId ≠ none)
    (more : List (ι × Tick)) :
    (run h registry requests (sched ++ more)).shared.store.groups groupId ≠ none := by
  obtain ⟨g, hg⟩ := Option.ne_none_iff_exists'.mp hg
  rw [run_store] at hg ⊢
  obtain ⟨rest, hr⟩ := storeRun_append h requests registry sched more
  obtain ⟨g', hg', -⟩ := runFrom_grows each_sound_empty _ _ rest groupId g hg
  rw [hr]
  exact ne_of_eq_of_ne hg' (Option.some_ne_none g')

variable {i : ι}

theorem published_of_publishing {r : Incoming Protocol.SubmitRequest} {pass : Pass}
    {records : List KeyedRecord} {call : Store.Call} {answer : Answer}
    (hc : (run h registry requests sched).calls i =
      .submitting r pass (.publishing records call answer)) (hx : x ∈ call.stored) :
    ⟨x.recordId, x.epoch⟩ ∈ publishedRecords records answer.results := by
  have hv := run_valid h requests registry sched i
  have hr := (run_admitted h registry requests sched i).2
  have hrq := run_storeCall_request h registry requests sched i
  have hs := run_storeCall h requests registry sched i
  have hid : x.recordId ≠ 0 := run_recordId_ne_zero (mem_run_log.mpr ⟨i, rfl, by rw [hc]; exact hx⟩)
  rw [hc] at hv hr hrq hs
  obtain ⟨request, batch, rfl, rfl⟩ := hr
  cases hrq
  obtain ⟨-, ho, -⟩ := runFrom_answered each_sound_empty _ _ hs.symm
  exact published_of_stored hv.2 ho hx hid

theorem owes_of_publishing (tick : Tick)
    (hp : ((run h registry requests sched).calls i).publishing = true) {key : SubscriptionKey}
    (hx : x ∈ (((run h registry requests sched).calls i).storeCall h).stored)
    (hg : (((run h registry requests sched).calls i).storeCall h).groupId = key.group)
    (he : ∀ sub, (run h registry requests (sched ++ [(i, tick)])).shared.standing key = some sub →
      x.epoch ≤ sub.readEpoch) :
    (run h registry requests (sched ++ [(i, tick)])).shared.Owes key x.recordId := by
  have hr := run_storeCall_request h registry requests sched i
  intro sub hs
  replace he := he sub hs
  rw [run_snoc, turn_shared] at hs
  cases hc : (run h registry requests sched).calls i with
  | submitting r pass stage =>
    rw [hc] at hp hx hg hr hs
    cases stage with
    | publishing records call answer =>
      obtain ⟨_, hpb, hb⟩ := Option.bind_eq_some_iff.mp hs
      obtain ⟨before, -, rfl⟩ := Option.map_eq_some_iff.mp hpb
      have hgr : call.groupId = r.body.groupId := by
        rw [Store.Call.groupId_request, show call.request = _ from hr]
        rfl
      exact before.published_owed key (published_of_publishing hc hx) (hg.symm.trans hgr) hb he
    | filter | key | auth | hash | columns | storing | finished => cases hp
  | start | refused | creating | subscribing | unsubscribed | closing | delivering =>
    rw [hc] at hp
    cases hp

/--
No submission publishes a record past the snapshot while the subscription stands between its
snapshot and its registration.
-/
def Undisturbed (h : Handler) (registry : Option Subscriptions) (requests : ι → Request)
    (sched : List (ι × Tick)) (i : ι) : Prop :=
  ∀ p j tick q, sched = p ++ (j, tick) :: q →
    ((run h registry requests p).calls j).publishing = true →
    ∀ r wanted snapshot, (run h registry requests p).calls i =
      .subscribing r wanted (.register snapshot) →
    (((run h registry requests p).calls j).storeCall h).groupId = wanted.groupId →
    ∀ x ∈ (((run h registry requests p).calls j).storeCall h).stored,
      x.epoch ≤ r.body.readEpoch → x.recordId ≤ snapshot

theorem Undisturbed.of_append {m : ι × Tick}
    (hu : Undisturbed h registry requests (sched ++ [m]) i) :
    Undisturbed h registry requests sched i := by
  rintro p j tick q rfl
  exact hu p j tick (q ++ [m]) (by simp)

theorem undisturbed_of_forall (ha : ∀ n : Fin sched.length,
      ((run h registry requests (sched.take n)).calls (sched.get n).1).publishing = false ∨
        ((run h registry requests (sched.take n)).calls i).unregistered = none) :
    Undisturbed h registry requests sched i := by
  rintro p j tick q rfl hp r wanted snapshot hc
  have hn := ha ⟨p.length, by simp⟩
  simp only [List.take_left, List.get_eq_getElem, List.getElem_append_right le_rfl, Nat.sub_self,
    List.getElem_cons_zero, hp, hc, Call.unregistered] at hn
  rcases hn with hn | hn <;> cases hn

/-- What the steps of the others leave true of a subscription. -/
theorem tracked_others {j : ι} (hij : i ≠ j) (hj : ∀ r, requests j ≠ .subscribe r)
    (hu : Undisturbed h registry requests (sched ++ [(j, tick)]) i)
    (ht : ((run h registry requests sched).calls i).Tracked h (run h registry requests sched)) :
    ((run h registry requests (sched ++ [(j, tick)])).calls i).Tracked h
      (run h registry requests (sched ++ [(j, tick)])) := by
  have hv := run_valid h requests registry sched j
  have hrq := run_storeCall_request h registry requests sched j
  have has : ∀ r, ((run h registry requests sched).calls j).request ≠ .subscribe r := by
    rw [run_request]
    exact hj
  have hs : (run h registry requests (sched ++ [(j, tick)])).calls i =
      (run h registry requests sched).calls i := by
    rw [run_snoc, turn_calls_of_ne hij]
  have hi : ∀ key, (run h registry requests (sched ++ [(j, tick)])).shared.Inherits
      (run h registry requests sched).shared key := by
    rw [run_snoc]
    exact inherits_step _ has
  rw [hs]
  cases hc : (run h registry requests sched).calls i with
  | subscribing r wanted stage =>
    rw [hc] at ht
    cases stage with
    | register snapshot =>
      refine ⟨run_group_stays ht.1 _, ?_⟩
      rw [run_snoc]
      exact ht.2.turn tick hv hrq ht.1 (fun _ hid => hid) fun hp x hx hg he =>
        hu sched j tick [] rfl hp r wanted snapshot hc hg x hx he
    | finished ack =>
      obtain ⟨ha, hg, hr, hcv⟩ := ht
      have hr' : ∀ sub, (run h registry requests (sched ++ [(j, tick)])).shared.standing
          (subscriptionKeyOf r.conn wanted.groupId) = some sub →
          sub.readEpoch = r.body.readEpoch := by
        intro sub' hs'
        obtain ⟨sub, hsb, hf⟩ := hi _ sub' hs'
        exact hf.readEpoch.trans (hr sub hsb)
      refine ⟨ha, run_group_stays hg _, hr', ?_⟩
      rw [run_snoc]
      refine hcv.turn tick hv hrq hg (fun id hid => hid.imp_right fun ho sub' hs' => ?_)
        fun hp x hx hgd he => .inr ?_
      · rw [← run_snoc] at hs'
        obtain ⟨sub, hsb, hf⟩ := hi _ sub' hs'
        exact (ho sub hsb).trans hf.owed
      · rw [← run_snoc]
        exact owes_of_publishing tick hp hx hgd fun sub hsb => (hr' sub hsb).symm ▸ he
    | filter | key | snapshot => trivial
  | start | refused | creating | submitting | unsubscribed | closing | delivering => trivial

variable {r : Incoming SubscribeRequest}

theorem tracked_own (hi : requests i = .subscribe r)
    (ht : ((run h registry requests sched).calls i).Tracked h (run h registry requests sched)) :
    ((run h registry requests (sched ++ [(i, tick)])).calls i).Tracked h
      (run h registry requests (sched ++ [(i, tick)])) := by
  have ha := (run_request h requests registry sched i).trans hi
  rw [run_snoc]
  cases hc : (run h registry requests sched).calls i with
  | subscribing r wanted stage =>
    exact tracked_subscribeStep hc (run_storeCall_request h registry requests sched i)
      (fun j x hx => mem_run_log.mpr ⟨j, rfl, hx⟩) ht
  | start request =>
    rw [hc] at ha
    obtain rfl : request = .subscribe r := ha
    rw [turn_calls_self, hc]
    change (startSubscribe _ r).Tracked h _
    unfold startSubscribe
    split
    · trivial
    · split
      · trivial
      · split <;> trivial
      · trivial
  | refused =>
    rw [turn_calls_self, hc]
    trivial
  | creating | submitting | unsubscribed | closing | delivering =>
    rw [hc] at ha
    cases ha

theorem run_tracked (hi : requests i = .subscribe r) (ho : ∀ j r, requests j = .subscribe r → j = i)
    (hu : Undisturbed h registry requests sched i) :
    ((run h registry requests sched).calls i).Tracked h (run h registry requests sched) := by
  induction sched using List.reverseRecOn with
  | nil => trivial
  | append_singleton sched m ih =>
    have ht := ih hu.of_append
    by_cases hm : m.1 = i
    · obtain ⟨j, tick⟩ := m
      subst hm
      exact tracked_own hi ht
    · exact tracked_others (Ne.symm hm) (fun r hr => hm (ho m.1 r hr)) hu ht

end Run

end World

/--
Once no submission is left to publish, every stored record up to the epoch of an acknowledged
subscription is at or below its snapshot or owed to it, if none was published between its two steps.
-/
theorem subscribe_loses_nothing {ι : Type*} [DecidableEq ι] (h : Handler)
    (registry : Option Subscriptions) (requests : ι → Request) (sched : List (ι × Tick)) (i : ι)
    (r : Incoming SubscribeRequest) (hi : requests i = .subscribe r)
    (honly : ∀ j r, requests j = .subscribe r → j = i)
    (hu : Undisturbed h registry requests sched i) (ack : SubscriptionAck)
    (hack : ((run h registry requests sched).calls i).ack = some ack)
    (hret : ∀ j, ((run h registry requests sched).calls j).publishing = false)
    (x : Record) (hx : x ∈ (run h registry requests sched).shared.store.log ack.groupId)
    (he : x.epoch ≤ r.body.readEpoch) :
    x.recordId ≤ ack.snapshotRecordId ∨
      (run h registry requests sched).shared.Owes (subscriptionKeyOf r.conn ack.groupId)
        x.recordId := by
  have ht := run_tracked hi honly hu
  have ha := (run_request h requests registry sched i).trans hi
  obtain ⟨j, hg, hs⟩ := mem_run_log.mp hx
  cases hc : (run h registry requests sched).calls i with
  | subscribing r' wanted stage =>
    rw [hc] at hack ht ha
    cases ha
    cases stage with
    | finished ack' =>
      cases hack
      obtain ⟨hid, -, -, hcv⟩ := ht
      rw [hid] at hg ⊢
      rcases hcv j x hs hg he with hp | hp
      · exact absurd (hret j) (by simp [hp])
      · exact hp
    | filter | key | snapshot | register => cases hack
  | start | refused | creating | submitting | unsubscribed | closing | delivering =>
    rw [hc] at hack
    cases hack

namespace Sample

def subscription (nonce : UInt8) : Incoming SubscribeRequest :=
  ⟨conn nonce, checksNotImplemented, ⟨[⟨groupId, 0⟩], false, 1, List.replicate 32 (9 + nonce)⟩⟩

def watching : Fin 3 → Request :=
  ![createGroup, .subscribe (subscription 3), .submit (submission 4 1 2 5)]

def missedOrder : List (Fin 3 × Tick) :=
  turns 5 0 1 ++ turns 4 1 2 ++ turns 12 2 3 ++ turns 1 1 4

def watchingOrder : List (Fin 3 × Tick) :=
  turns 5 0 1 ++ turns 4 1 2 ++ turns 9 2 3 ++ turns 1 1 4 ++ turns 1 2 5

end Sample

open Sample

/-- The marker is stored past the snapshot, and the subscription is owed it. -/
theorem subscribe_loses_nothing_watching :
    ((run handler registry watching watchingOrder).calls 1).ack = some ⟨groupId, 1, .ok⟩ ∧
    ∀ x ∈ (run handler registry watching
        watchingOrder).shared.store.log groupId, x.epoch ≤ 1 →
      x.recordId ≤ 1 ∨ (run handler registry watching watchingOrder).shared.Owes
          (subscriptionKeyOf (conn 3) groupId) x.recordId := by
  have ha : ((run handler registry watching
      watchingOrder).calls 1).ack = some ⟨groupId, 1, .ok⟩ := by
    decide +kernel
  refine ⟨ha, fun x hx he => ?_⟩
  refine subscribe_loses_nothing handler registry watching
    watchingOrder 1 (subscription 3) rfl (fun j r hj => ?_)
    (undisturbed_of_forall ?_) _ ha ?_ x hx he
  · match j with
    | 0 | 2 => cases hj
    | 1 => rfl
  · decide +kernel
  · decide +kernel

/--
The marker of epoch 1 is published between the snapshot and the registration, and is not owed.
-/
theorem subscriber_misses_record :
    ((run handler registry watching missedOrder).calls 1).ack = some ⟨groupId, 1, .ok⟩ ∧
    (((run handler registry watching
        missedOrder).calls 2).finished.map fun x =>
      x.2.results.map fun y => (y.reason, y.recordId)) = some [(.ok, 2)] ∧
    (∀ j, ((run handler registry watching
      missedOrder).calls j).publishing = false) ∧
    ((run handler registry watching
        missedOrder).shared.store.log groupId).map
      (fun x => (x.recordId, x.epoch)) = [(1, 0), (2, 1)] ∧
    ((run handler registry watching missedOrder).shared.standing
        (subscriptionKeyOf (conn 3) groupId)).map
      (fun sub => (sub.readEpoch, sub.owed)) = some (1, 1) := by
  refine ⟨?_, ?_, ?_, ?_, ?_⟩ <;> decide +kernel

end MessageServer.Api
