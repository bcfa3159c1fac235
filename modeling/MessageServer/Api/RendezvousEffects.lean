import MessageServer.Api.RendezvousRegistry

/-! # What each critical section does to a rendezvous subscription

Every function of the registry is described at one key: the subscription that
stands there with the expiry of its box, and the mark that it is owed a push.
-/

namespace MessageServer.Api

open Function

namespace RendezvousBox

variable (record : RendezvousBox) (connection connection' : Bytes)

def entry : Option (Time × RendezvousSubscription) :=
  (record.subscribers.find connection).map fun sub => (record.expireTime, sub)

theorem claim_entry : (record.claim connection).entry connection' =
    if connection' = connection then (record.entry connection').map (Prod.map id (·.claim))
    else record.entry connection' := by
  rw [entry, claim, Table.find_modify]
  split
  · rw [entry, Option.map_map, Option.map_map]
    rfl
  · rfl

theorem settle_entry (taken : Bool) : (record.settle connection taken).entry connection' =
    if connection' = connection then (record.entry connection').map (Prod.map id (·.settle taken))
    else record.entry connection' := by
  rw [entry, settle, Table.find_modify]
  split
  · rw [entry, Option.map_map, Option.map_map]
    rfl
  · rfl

theorem owe_entry (pending : ℕ) : (record.owe pending).entry connection =
    (record.entry connection).map (Prod.map id (·.owe pending)) := by
  rw [entry, owe, Table.find_map, entry, Option.map_map, Option.map_map]
  rfl

theorem add_entry (sub : RendezvousSubscription) (hn : record.entry sub.connection = none) :
    (record.add sub).entry connection =
      if connection = sub.connection then some (record.expireTime, sub)
      else record.entry connection := by
  have hf : record.subscribers.find sub.connection = none := Option.map_eq_none_iff.mp hn
  rw [entry, add, Table.find_insert hf]
  split <;> rfl

theorem remove_entry : (record.remove connection).entry connection' =
    if connection' = connection then none else record.entry connection' := by
  rw [entry, remove, Table.find_filter, entry]
  cases hs : record.subscribers.find connection' with
  | none => split <;> rfl
  | some sub =>
    obtain ⟨-, rfl⟩ := Table.find_eq_some.mp hs
    by_cases hc : sub.connection = connection <;> simp [hc]

theorem entry_kept : (if record.subscribers.rows = [] then none else some record).bind
    (·.entry connection) = record.entry connection := by
  split
  next hr => rw [entry, Table.find, hr, List.find?_nil, Option.bind_none, Option.map_none]
  · rfl

end RendezvousBox

namespace RendezvousSubscriptions

variable (registry : RendezvousSubscriptions)

def entry (key : RendezvousKey) : Option (Time × RendezvousSubscription) :=
  (registry.boxes key.box).bind (·.entry key.connection)

theorem standing_eq (key : RendezvousKey) :
    registry.standing key = (registry.entry key).map Prod.snd := by
  unfold standing entry RendezvousBox.entry
  cases registry.boxes key.box with
  | none => rfl
  | some record =>
    rw [Option.bind_some, Option.bind_some, Option.map_map]
    exact Option.map_id'.symm

variable (box : Bytes)

theorem entry_setBox (record : Option RendezvousBox) (key : RendezvousKey) :
    (registry.setBox box record).entry key =
      if key.box = box then record.bind (·.entry key.connection) else registry.entry key := by
  have hb : (registry.setBox box record).boxes = update registry.boxes box record := rfl
  rw [entry, hb]
  by_cases hk : key.box = box
  · rw [if_pos hk, hk, update_self]
  · rw [if_neg hk, update_of_ne hk, entry]

section Drop

variable (box : Bytes) (connections : List Bytes) (key : RendezvousKey)

theorem foldl_dropSubscriber :
    let next := connections.foldl (fun registry connection =>
      registry.dropSubscriber box connection) registry
    next.boxes = registry.boxes ∧ next.nextSerial = registry.nextSerial ∧
      next.expiry = registry.expiry ∧ next.ready key =
        if key.box = box ∧ key.connection ∈ connections then false else registry.ready key := by
  induction connections generalizing registry with
  | nil => simp
  | cons connection connections ih =>
    obtain ⟨hbx, hs, he, hr⟩ := ih (registry.dropSubscriber box connection)
    refine ⟨hbx, hs, he, ?_⟩
    have hm : (registry.dropSubscriber box connection).ready =
        update registry.ready ⟨connection, box⟩ false := rfl
    rw [List.foldl_cons, hr, hm]
    by_cases hk : key = ⟨connection, box⟩
    · subst hk
      simp
    · have hne : key.box = box → key.connection ≠ connection := by
        rintro hb rfl
        exact hk (by rw [← hb])
      rw [update_of_ne hk]
      refine if_congr ?_ rfl rfl
      rw [List.mem_cons]
      exact ⟨fun ⟨hb, hc⟩ => ⟨hb, .inr hc⟩, fun ⟨hb, hc⟩ => ⟨hb, hc.resolve_left (hne hb)⟩⟩

theorem drop_spec : (registry.dropRendezvousBox box).nextSerial = registry.nextSerial ∧
      (registry.dropRendezvousBox box).entry key =
        (if key.box = box then none else registry.entry key) ∧
      (registry.dropRendezvousBox box).ready key =
        if key.box = box ∧ (registry.entry key).isSome then false else registry.ready key := by
  unfold dropRendezvousBox
  cases hbx : registry.boxes box with
  | none =>
    have hn : key.box = box → registry.entry key = none := by
      rintro rfl
      rw [entry, hbx, Option.bind_none]
    refine ⟨rfl, ?_, ?_⟩
    · by_cases hk : key.box = box
      · rw [if_pos hk]
        exact hn hk
      · rw [if_neg hk]
    · rw [if_neg fun ⟨hk, hs⟩ => by simp [hn hk] at hs]
  | some record =>
    obtain ⟨hb, hsr, -, hr⟩ := registry.foldl_dropSubscriber box
      (record.subscribers.rows.map (·.connection)) key
    refine ⟨hsr, ?_, ?_⟩
    · rw [entry_setBox]
      refine if_congr Iff.rfl rfl ?_
      rw [entry, hb, entry]
    · refine hr.trans (if_congr (and_congr_right fun hk => ?_) rfl rfl)
      rw [entry, hk, hbx, Option.bind_some, RendezvousBox.entry, Option.isSome_map]
      constructor
      · intro hm
        obtain ⟨sub, hsb, hc⟩ := List.mem_map.mp hm
        rw [← hc, Table.find_key hsb]
        rfl
      · intro hs
        obtain ⟨sub, hsb⟩ := Option.isSome_iff_exists.mp hs
        obtain ⟨hm, hc⟩ := Table.find_eq_some.mp hsb
        exact List.mem_map.mpr ⟨sub, hm, hc⟩

end Drop

theorem drop_boxes : (registry.dropRendezvousBox box).boxes box = none := by
  unfold dropRendezvousBox
  cases hb : registry.boxes box with
  | none => exact hb
  | some record => exact update_self ..

/-- A step ends the subscription under a key, in a box of a certain expiry, or changes nothing. -/
def Ends (P : Time → Prop) (registry next : RendezvousSubscriptions) (key : RendezvousKey) :
    Prop :=
  next.entry key = registry.entry key ∧ next.ready key = registry.ready key ∨
    ∃ expireTime sub, registry.entry key = some (expireTime, sub) ∧ P expireTime ∧
      next.entry key = none ∧ next.ready key = false

variable {registry} {next last : RendezvousSubscriptions} {key : RendezvousKey} {P Q : Time → Prop}

theorem Ends.refl : Ends P registry registry key := .inl ⟨rfl, rfl⟩

theorem Ends.mono (h : Ends P registry next key) (hPQ : ∀ t, P t → Q t) :
    Ends Q registry next key := by
  rcases h with h | ⟨t, sub, hs, ht, hn⟩
  · exact .inl h
  · exact .inr ⟨t, sub, hs, hPQ t ht, hn⟩

theorem Ends.trans (h : Ends P registry next key) (h' : Ends P next last key) :
    Ends P registry last key := by
  rcases h with ⟨he, hr⟩ | ⟨t, sub, hs, ht, hn, hr⟩
  · rcases h' with ⟨he', hr'⟩ | ⟨t, sub, hs, ht, hn⟩
    · exact .inl ⟨he'.trans he, hr'.trans hr⟩
    · exact .inr ⟨t, sub, he ▸ hs, ht, hn⟩
  · rcases h' with ⟨he', hr'⟩ | ⟨_, _, hs', -⟩
    · exact .inr ⟨t, sub, hs, ht, he'.trans hn, hr'.trans hr⟩
    · rw [hn] at hs'
      cases hs'

variable (registry key) {record : RendezvousBox} {rendezvousId : Bytes} (conn : Connection)
  (box connection : Bytes)

theorem drop_ends (hb : ∀ t sub, key.box = box → registry.entry key = some (t, sub) →
    P t) : Ends P registry (registry.dropRendezvousBox box) key := by
  obtain ⟨-, he, hr⟩ := registry.drop_spec box key
  by_cases hk : key.box = box
  · cases hs : registry.entry key with
    | none =>
      left
      rw [he, hr, if_pos hk, hs]
      simp
    | some found =>
      obtain ⟨t, sub⟩ := found
      refine .inr ⟨t, sub, hs, hb t sub hk hs, ?_, ?_⟩
      · rw [he, if_pos hk]
      · rw [hr, if_pos ⟨hk, by rw [hs]; rfl⟩]
  · left
    rw [he, hr, if_neg hk, if_neg fun h => hk h.1]
    exact ⟨rfl, rfl⟩

theorem expire_ends (now : Time) (box : Bytes) :
    (registry.expire now box).nextSerial = registry.nextSerial ∧
      Ends (· ≤ now) registry (registry.expire now box) key := by
  unfold expire
  cases hb : registry.boxes box with
  | none => exact ⟨rfl, .refl⟩
  | some record =>
    dsimp only
    split
    · exact ⟨rfl, .refl⟩
    next hd =>
      refine ⟨(registry.drop_spec box key).1, registry.drop_ends key box ?_⟩
      rintro t sub rfl hs
      rw [entry, hb, Option.bind_some, RendezvousBox.entry] at hs
      obtain ⟨sub', -, heq⟩ := Option.map_eq_some_iff.mp hs
      cases heq
      exact Int.not_lt.mp hd

theorem prune_ends (now : Time) : (registry.pruneRendezvous now).nextSerial = registry.nextSerial ∧
      Ends (· ≤ now) registry (registry.pruneRendezvous now) key := by
  unfold pruneRendezvous
  generalize registry.expiry = entries
  induction entries generalizing registry with
  | nil => exact ⟨rfl, .inl ⟨rfl, rfl⟩⟩
  | cons due entries ih =>
    rw [pruneEntries]
    split
    · exact ⟨rfl, .inl ⟨rfl, rfl⟩⟩
    · obtain ⟨hs, he⟩ := registry.expire_ends key now due.box
      obtain ⟨hs', he'⟩ := ih (registry.expire now due.box)
      exact ⟨hs'.trans hs, he.trans he'⟩

theorem entry_of_boxes {box : Bytes} (connection : Bytes) (hb : registry.boxes box = some record) :
    registry.entry ⟨connection, box⟩ = record.entry connection := by
  rw [entry, hb, Option.bind_some]

theorem remove_spec : (registry.removeRendezvous box connection).nextSerial = registry.nextSerial ∧
      (registry.removeRendezvous box connection).entry key =
        (if key = ⟨connection, box⟩ then none else registry.entry key) ∧
      (registry.removeRendezvous box connection).ready key =
        if key = ⟨connection, box⟩ ∧ (registry.entry key).isSome then false
        else registry.ready key := by
  have hs : registry.entry ⟨connection, box⟩ = none →
      registry.entry key = (if key = ⟨connection, box⟩ then none else registry.entry key) ∧
      registry.ready key = if key = ⟨connection, box⟩ ∧ (registry.entry key).isSome then false
        else registry.ready key := by
    intro hn
    by_cases hk : key = ⟨connection, box⟩
    · subst hk
      simp [hn]
    · simp [hk]
  unfold removeRendezvous
  cases hbx : registry.boxes box with
  | none => exact ⟨rfl, hs (by rw [entry, hbx, Option.bind_none])⟩
  | some record =>
    dsimp only
    split
    next hf =>
      refine ⟨rfl, hs ?_⟩
      rw [registry.entry_of_boxes connection hbx, RendezvousBox.entry,
        Option.isNone_iff_eq_none.mp hf, Option.map_none]
    next hf =>
      refine ⟨rfl, ?_, ?_⟩
      · rw [entry_setBox, RendezvousBox.entry_kept, RendezvousBox.remove_entry]
        obtain ⟨connection', box'⟩ := key
        by_cases hb : box' = box
        · subst hb
          rw [if_pos rfl, registry.entry_of_boxes connection' hbx]
          refine if_congr ?_ rfl rfl
          rw [RendezvousKey.mk.injEq, and_iff_left rfl]
        · have hne : (⟨connection', box'⟩ : RendezvousKey) ≠ ⟨connection, box⟩ := fun h =>
            hb (congrArg RendezvousKey.box h)
          rw [if_neg hb, if_neg hne]
          rfl
      · change update registry.ready ⟨connection, box⟩ false key = _
        by_cases hk : key = ⟨connection, box⟩
        · subst hk
          have hsm : (registry.entry ⟨connection, box⟩).isSome := by
            rw [registry.entry_of_boxes connection hbx, RendezvousBox.entry, Option.isSome_map]
            exact Option.isSome_iff_ne_none.mpr fun h => hf (Option.isNone_iff_eq_none.mpr h)
          rw [update_self, if_pos ⟨rfl, hsm⟩]
        · rw [update_of_ne hk, if_neg fun h => hk h.1]

theorem addSubscriber_spec (sub : RendezvousSubscription) (hn : record.entry sub.connection = none)
    (hr : ∀ connection, registry.entry ⟨connection, rendezvousId⟩ = record.entry connection) :
    (registry.addSubscriber rendezvousId record sub).entry key =
      if key = ⟨sub.connection, rendezvousId⟩ then some (record.expireTime, sub)
      else registry.entry key := by
  change (registry.setBox rendezvousId (some (record.add sub))).entry key = _
  rw [entry_setBox]
  obtain ⟨connection, box⟩ := key
  by_cases hb : box = rendezvousId
  · subst hb
    rw [if_pos rfl, Option.bind_some, RendezvousBox.add_entry _ _ _ hn, hr]
    refine if_congr ?_ rfl rfl
    rw [RendezvousKey.mk.injEq, and_iff_left rfl]
  · have hne : (⟨connection, box⟩ : RendezvousKey) ≠ ⟨sub.connection, rendezvousId⟩ := fun h =>
      hb (congrArg RendezvousKey.box h)
    rw [if_neg hb, if_neg hne]

theorem made_connection (rendezvousId : Bytes) :
    (registry.made conn rendezvousId).connection = connectionKeyOf conn := rfl

inductive Made (conn : Connection) (rendezvousId : Bytes) (expireTime : Time)
    (registry next : RendezvousSubscriptions) (answer : Except RendezvousError (Option ℕ × Bool))
    (key : RendezvousKey) : Prop
  | same (hentry : next.entry key = registry.entry key)
      (hready : next.ready key = registry.ready key)
      (hserial : registry.nextSerial ≤ next.nextSerial)
      (hanswer : key = ⟨connectionKeyOf conn, rendezvousId⟩ →
        ∀ serial added, answer ≠ .ok (some serial, added))
  | made (hkey : key = ⟨connectionKeyOf conn, rendezvousId⟩)
      (hentry : next.entry key = some (expireTime, registry.made conn rendezvousId))
      (hready : next.ready key = registry.ready key)
      (hserial : next.nextSerial = registry.nextSerial + 1)
      (hanswer : answer = .ok (some registry.nextSerial, true))

theorem makeRendezvous_made (rendezvousId : Bytes) (expireTime : Time)
    (record : Option RendezvousBox) (hr : registry.boxes rendezvousId = record)
    (hex : ∀ box, record = some box → box.expireTime = expireTime ∧
      box.entry (connectionKeyOf conn) = none) :
    Made conn rendezvousId expireTime registry
      (registry.makeRendezvous conn rendezvousId expireTime record).1
      (registry.makeRendezvous conn rendezvousId expireTime record).2 key := by
  unfold makeRendezvous
  split
  · exact .same rfl rfl le_rfl fun _ _ _ h => nomatch h
  · have ha : ∀ {base : RendezvousSubscriptions} {box : RendezvousBox},
        base.entry = registry.entry → base.ready = registry.ready →
        base.nextSerial = registry.nextSerial → box.expireTime = expireTime →
        box.entry (connectionKeyOf conn) = none →
        (∀ connection, registry.entry ⟨connection, rendezvousId⟩ = box.entry connection) →
        Made conn rendezvousId expireTime registry
          (base.addSubscriber rendezvousId box (registry.made conn rendezvousId))
          (.ok (some registry.nextSerial, true)) key := by
      intro base box he hrd hs ht hn hb
      have hsp := base.addSubscriber_spec key (registry.made conn rendezvousId) hn
        (fun connection => by rw [he, hb])
      rw [made_connection] at hsp
      by_cases hk : key = ⟨connectionKeyOf conn, rendezvousId⟩
      · refine .made hk ?_ (congrFun hrd key) (congrArg (· + 1) hs) rfl
        rw [hsp, if_pos hk, ht]
      · refine .same ?_ (congrFun hrd key) ?_ fun h => (hk h).elim
        · rw [hsp, if_neg hk, he]
        · exact Nat.le_succ_of_le hs.ge
    cases record with
    | some box =>
      obtain ⟨ht, hn⟩ := hex box rfl
      exact ha rfl rfl rfl ht hn fun connection => registry.entry_of_boxes connection hr
    | none =>
      refine ha rfl rfl rfl rfl rfl fun connection => ?_
      rw [entry, hr]
      rfl

inductive Subscribed (conn : Connection) (rendezvousId : Bytes) (expireTime now : Time)
    (registry next : RendezvousSubscriptions) (answer : Except RendezvousError (Option ℕ × Bool))
    (key : RendezvousKey) : Prop
  | ends
      (hends : Ends (fun t => t ≤ now ∨ key.box = rendezvousId ∧ t < expireTime) registry next key)
      (hserial : registry.nextSerial ≤ next.nextSerial)
      (hanswer : key = ⟨connectionKeyOf conn, rendezvousId⟩ →
        ∀ serial added, answer ≠ .ok (some serial, added))
  | claimed (sub : RendezvousSubscription) (hkey : key = ⟨connectionKeyOf conn, rendezvousId⟩)
      (hsub : registry.entry key = some (expireTime, sub))
      (hentry : next.entry key = some (expireTime, sub.claim))
      (hready : next.ready key = registry.ready key)
      (hserial : registry.nextSerial = next.nextSerial)
      (hanswer : answer = .ok (some sub.serial, false))
  | made (hkey : key = ⟨connectionKeyOf conn, rendezvousId⟩)
      (hends : ∀ t sub, registry.entry key = some (t, sub) → t ≤ now ∨ t < expireTime)
      (hentry : next.entry key = some (expireTime, registry.made conn rendezvousId))
      (hready : next.ready key = true → registry.ready key = true)
      (hserial : next.nextSerial = registry.nextSerial + 1)
      (hanswer : answer = .ok (some registry.nextSerial, true))

theorem Made.subscribed {base : RendezvousSubscriptions} {conn : Connection} {expireTime now : Time}
    {answer : Except RendezvousError (Option ℕ × Bool)}
    (hen : Ends (fun t => t ≤ now ∨ key.box = rendezvousId ∧ t < expireTime) registry base key)
    (hb : base.nextSerial = registry.nextSerial)
    (hn : key = ⟨connectionKeyOf conn, rendezvousId⟩ → base.entry key = none)
    (h : Made conn rendezvousId expireTime base next answer key) :
    Subscribed conn rendezvousId expireTime now registry next answer key := by
  cases h with
  | same he hr hsr ha =>
    refine .ends (hen.trans (.inl ⟨he, hr⟩)) ?_ ha
    rwa [← hb]
  | made hk he hr hsr ha =>
    have hmd : base.made conn rendezvousId = registry.made conn rendezvousId := by
      rw [RendezvousSubscriptions.made, RendezvousSubscriptions.made, hb]
    refine .made hk ?_ (hmd ▸ he) ?_ (hb ▸ hsr) (hb ▸ ha)
    · intro t sub hsb
      rcases hen with ⟨hs, -⟩ | ⟨t', sub', hsb', ht, -⟩
      · rw [hn hk, hsb] at hs
        cases hs
      · cases hsb.symm.trans hsb'
        exact ht.imp_right And.right
    · intro hm
      rw [hr] at hm
      rcases hen with ⟨-, hs⟩ | ⟨_, _, _, _, _, hf⟩
      · rwa [hs] at hm
      · rw [hf] at hm
        cases hm

theorem subscribeRendezvous_subscribed (rendezvousId : Bytes) (expireTime now : Time) :
    Subscribed conn rendezvousId expireTime now registry
      (registry.subscribeRendezvous conn rendezvousId expireTime now).1
      (registry.subscribeRendezvous conn rendezvousId expireTime now).2 key := by
  obtain ⟨hs, hp⟩ := registry.prune_ends key now
  have hp : Ends (fun t => t ≤ now ∨ key.box = rendezvousId ∧ t < expireTime) registry
      (registry.pruneRendezvous now) key := hp.mono fun _ => .inl
  unfold subscribeRendezvous
  dsimp only
  cases hbx : (registry.pruneRendezvous now).boxes rendezvousId with
  | none =>
    refine Made.subscribed registry key hp hs ?_
      (makeRendezvous_made _ key conn rendezvousId expireTime none hbx nofun)
    rintro rfl
    rw [entry, hbx, Option.bind_none]
  | some record =>
    dsimp only
    split
    · refine .ends hp hs.ge ?_
      rintro - serial added h
      cases h
    · split
      next ho =>
        obtain ⟨hs', he, -⟩ := (registry.pruneRendezvous now).drop_spec rendezvousId key
        have hd : Ends (fun t => t ≤ now ∨ key.box = rendezvousId ∧ t < expireTime)
            (registry.pruneRendezvous now)
            ((registry.pruneRendezvous now).dropRendezvousBox rendezvousId) key := by
          apply drop_ends
          rintro t sub rfl hsb
          rw [entry_of_boxes _ _ hbx] at hsb
          obtain ⟨_, -, heq⟩ := Option.map_eq_some_iff.mp hsb
          cases heq
          exact .inr ⟨rfl, ho⟩
        refine Made.subscribed registry key (hp.trans hd) (hs'.trans hs) ?_
          (makeRendezvous_made _ key conn rendezvousId expireTime none (drop_boxes ..) nofun)
        rintro rfl
        rw [he, if_pos rfl]
      next hy ho =>
        have ht : record.expireTime = expireTime :=
          Int.le_antisymm (Int.not_lt.mp hy) (Int.not_lt.mp ho)
        have he := fun connection =>
          (registry.pruneRendezvous now).entry_of_boxes connection hbx
        cases hf : record.subscribers.find (connectionKeyOf conn) with
        | some present =>
          have hr : record.entry (connectionKeyOf conn) = some (expireTime, present) := by
            rw [RendezvousBox.entry, hf, Option.map_some, ht]
          have hst := (registry.pruneRendezvous now).entry_setBox rendezvousId
            (some (record.claim (connectionKeyOf conn))) key
          rw [Option.bind_some, RendezvousBox.claim_entry] at hst
          by_cases hk : key = ⟨connectionKeyOf conn, rendezvousId⟩
          · subst hk
            rw [if_pos rfl, if_pos rfl, hr] at hst
            rcases hp with ⟨hsm, hrd⟩ | ⟨_, _, -, -, hn, -⟩
            · refine .claimed present rfl ?_ hst hrd hs.symm rfl
              rw [← hsm, he, hr]
            · rw [he, hr] at hn
              cases hn
          · refine .ends (hp.trans (.inl ⟨?_, rfl⟩)) hs.ge fun h => (hk h).elim
            rw [hst]
            obtain ⟨connection, box⟩ := key
            by_cases hb : box = rendezvousId
            · subst hb
              rw [if_pos rfl, if_neg fun hc => hk (congrArg (RendezvousKey.mk · box) hc), he]
            · rw [if_neg hb]
        | none =>
          have hn : record.entry (connectionKeyOf conn) = none := by
            rw [RendezvousBox.entry, hf, Option.map_none]
          refine Made.subscribed registry key hp hs ?_
            (makeRendezvous_made _ key conn rendezvousId expireTime (some record) hbx ?_)
          · rintro rfl
            rw [he, hn]
          · intro box hr
            rw [← Option.some.inj hr]
            exact ⟨ht, hn⟩

inductive ClaimSettled (conn : Connection) (rendezvousId : Bytes) (claimed : ℕ) (taken : Bool)
    (registry next : RendezvousSubscriptions) (key : RendezvousKey) : Prop
  | same (hentry : next.entry key = registry.entry key)
      (hready : next.ready key = registry.ready key)
      (hother : key = ⟨connectionKeyOf conn, rendezvousId⟩ →
        ∀ t sub, registry.entry key = some (t, sub) → sub.serial ≠ claimed)
  | settled (expireTime : Time) (sub : RendezvousSubscription)
      (hkey : key = ⟨connectionKeyOf conn, rendezvousId⟩)
      (hsub : registry.entry key = some (expireTime, sub)) (hserial : sub.serial = claimed)
      (hentry : next.entry key = some (expireTime, sub.settle taken))
      (hready : next.ready key = registry.ready key)
  | removed (expireTime : Time) (sub : RendezvousSubscription)
      (hkey : key = ⟨connectionKeyOf conn, rendezvousId⟩)
      (hsub : registry.entry key = some (expireTime, sub)) (hserial : sub.serial = claimed)
      (htaken : taken = false) (hkept : sub.kept = false) (hlast : sub.claims = 1)
      (hentry : next.entry key = none) (hready : next.ready key = false)

theorem settleRendezvous_settled (rendezvousId : Bytes) (claimed : ℕ) (taken : Bool) :
    (registry.settleRendezvous conn rendezvousId claimed taken).nextSerial = registry.nextSerial ∧
      ClaimSettled conn rendezvousId claimed taken registry
        (registry.settleRendezvous conn rendezvousId claimed taken) key := by
  have hsm : (∀ t sub, registry.entry ⟨connectionKeyOf conn, rendezvousId⟩ = some (t, sub) →
      sub.serial ≠ claimed) → registry.nextSerial = registry.nextSerial ∧
        ClaimSettled conn rendezvousId claimed taken registry registry key := by
    intro ho
    refine ⟨rfl, .same rfl rfl ?_⟩
    rintro rfl
    exact ho
  unfold settleRendezvous
  cases hbx : registry.boxes rendezvousId with
  | none =>
    apply hsm
    intro t sub hsb
    rw [entry, hbx] at hsb
    cases hsb
  | some record =>
    have he := fun connection => registry.entry_of_boxes connection hbx
    dsimp only
    cases hf : record.subscribers.find (connectionKeyOf conn) with
    | none =>
      apply hsm
      intro t sub hsb
      rw [he, RendezvousBox.entry, hf] at hsb
      cases hsb
    | some sub =>
      have hr : record.entry (connectionKeyOf conn) = some (record.expireTime, sub) := by
        rw [RendezvousBox.entry, hf, Option.map_some]
      dsimp only
      split
      next hs =>
        apply hsm
        intro t sub' hsb'
        rw [he, hr] at hsb'
        obtain ⟨-, rfl⟩ := Prod.mk.inj (Option.some.inj hsb')
        exact hs
      next hs =>
        have hs : sub.serial = claimed := Classical.not_not.mp hs
        have hst : ∀ key : RendezvousKey, (registry.setBox rendezvousId
            (some (record.settle (connectionKeyOf conn) taken))).entry key =
            if key = ⟨connectionKeyOf conn, rendezvousId⟩ then
              some (record.expireTime, sub.settle taken) else registry.entry key := by
          rintro ⟨connection, box⟩
          rw [entry_setBox, Option.bind_some, RendezvousBox.settle_entry]
          by_cases hb : box = rendezvousId
          · subst hb
            rw [if_pos rfl, he]
            by_cases hc : connection = connectionKeyOf conn
            · subst hc
              rw [if_pos rfl, if_pos rfl, hr]
              rfl
            · rw [if_neg hc, if_neg fun h => hc (congrArg RendezvousKey.connection h)]
          · rw [if_neg hb, if_neg fun h => hb (congrArg RendezvousKey.box h)]
        by_cases hk : key = ⟨connectionKeyOf conn, rendezvousId⟩
        · subst hk
          have hsb : registry.entry ⟨connectionKeyOf conn, rendezvousId⟩ =
              some (record.expireTime, sub) := (he _).trans hr
          split
          next hl =>
            simp only [Bool.and_eq_true, Bool.not_eq_true', decide_eq_true_eq] at hl
            obtain ⟨⟨ht, hkp⟩, hl⟩ := hl
            obtain ⟨hn, hg, hm⟩ := (registry.setBox rendezvousId
              (some (record.settle (connectionKeyOf conn) taken))).remove_spec
                ⟨connectionKeyOf conn, rendezvousId⟩ rendezvousId (connectionKeyOf conn)
            refine ⟨hn, .removed _ sub rfl hsb hs ht hkp (by omega) ?_ ?_⟩
            · rw [hg, if_pos rfl]
            · rw [hm, if_pos ⟨rfl, by rw [hst, if_pos rfl]; rfl⟩]
          next hmr =>
            refine ⟨rfl, .settled _ sub rfl hsb hs ?_ rfl⟩
            rw [hst, if_pos rfl]
        · split
          next hl =>
            obtain ⟨hn, hg, hm⟩ := (registry.setBox rendezvousId
              (some (record.settle (connectionKeyOf conn) taken))).remove_spec
                key rendezvousId (connectionKeyOf conn)
            refine ⟨hn, .same ?_ ?_ fun h => (hk h).elim⟩
            · rw [hg, if_neg hk, hst, if_neg hk]
            · rw [hm, if_neg fun h => hk h.1]
              rfl
          next hmr =>
            refine ⟨rfl, .same ?_ rfl fun h => (hk h).elim⟩
            rw [hst, if_neg hk]

inductive Deposited (rendezvousId : Bytes) (pending : ℕ) (now : Time)
    (registry next : RendezvousSubscriptions) (marked : Bool) (key : RendezvousKey) : Prop
  | ends (hends : Ends (· ≤ now) registry next key)
      (hother : key.box = rendezvousId → next.entry key = none)
  | owed (expireTime : Time) (sub : RendezvousSubscription) (hbox : key.box = rendezvousId)
      (hsub : registry.entry key = some (expireTime, sub))
      (hentry : next.entry key = some (expireTime, sub.owe pending))
      (hready : next.ready key = true) (hmarked : marked = true)

theorem depositedRendezvous_deposited (rendezvousId : Bytes) (pending : ℕ) (now : Time) :
    (registry.depositedRendezvous rendezvousId pending now).1.nextSerial = registry.nextSerial ∧
      Deposited rendezvousId pending now registry
        (registry.depositedRendezvous rendezvousId pending now).1
        (registry.depositedRendezvous rendezvousId pending now).2 key := by
  obtain ⟨hs, hp⟩ := registry.prune_ends key now
  unfold depositedRendezvous
  dsimp only
  cases hb : (registry.pruneRendezvous now).boxes rendezvousId with
  | none =>
    refine ⟨hs, .ends hp ?_⟩
    intro hk
    rw [entry, hk, hb, Option.bind_none]
  | some record =>
    refine ⟨hs, ?_⟩
    obtain ⟨connection, box⟩ := key
    by_cases hk : box = rendezvousId
    · subst hk
      have he := (registry.pruneRendezvous now).entry_of_boxes connection hb
      have ho := ((registry.pruneRendezvous now).entry_setBox box (some (record.owe pending))
        ⟨connection, box⟩).trans (if_pos rfl)
      rw [Option.bind_some, RendezvousBox.owe_entry] at ho
      cases hf : record.subscribers.find connection with
      | none =>
        have hr : record.entry connection = none := by
          rw [RendezvousBox.entry, hf, Option.map_none]
        rw [hr, Option.map_none] at ho
        refine .ends (hp.trans (.inl ⟨?_, ?_⟩)) fun _ => ho
        · exact ho.trans (he.trans hr).symm
        · simp [hf]
      | some sub =>
        have hr : record.entry connection = some (record.expireTime, sub) := by
          rw [RendezvousBox.entry, hf, Option.map_some]
        rw [hr] at ho he
        rcases hp with ⟨hsm, -⟩ | ⟨_, _, -, -, hn, -⟩
        · refine .owed record.expireTime sub rfl (hsm.symm.trans he) ho ?_ ?_
          · simp [hf]
          · have hne := List.ne_nil_of_mem (Table.find_eq_some.mp hf).1
            simpa using hne
        · rw [he] at hn
          cases hn
    · refine .ends (hp.trans (.inl ⟨?_, ?_⟩)) fun h => (hk h).elim
      · exact ((registry.pruneRendezvous now).entry_setBox rendezvousId _ _).trans (if_neg hk)
      · exact if_neg fun h => hk h.1

theorem retiredRendezvous_ends (rendezvousId : Bytes) :
    (registry.retiredRendezvous rendezvousId).nextSerial = registry.nextSerial ∧
      Ends (fun _ => key.box = rendezvousId) registry (registry.retiredRendezvous rendezvousId)
        key :=
  ⟨(registry.drop_spec rendezvousId key).1, registry.drop_ends key rendezvousId fun _ _ hk _ => hk⟩

theorem removeRendezvous_ends :
    (registry.removeRendezvous box connection).nextSerial = registry.nextSerial ∧
      Ends (fun _ => key = ⟨connection, box⟩) registry (registry.removeRendezvous box connection)
        key := by
  obtain ⟨hs, he, hr⟩ := registry.remove_spec key box connection
  refine ⟨hs, ?_⟩
  by_cases hk : key = ⟨connection, box⟩
  · cases hsb : registry.entry key with
    | none =>
      left
      rw [he, hr, if_pos hk, hsb]
      simp
    | some found =>
      obtain ⟨t, sub⟩ := found
      refine .inr ⟨t, sub, hsb, hk, ?_, ?_⟩
      · rw [he, if_pos hk]
      · rw [hr, if_pos ⟨hk, by rw [hsb]; rfl⟩]
  · left
    rw [he, hr, if_neg hk, if_neg fun h => hk h.1]
    exact ⟨rfl, rfl⟩

/-- Every standing subscription has a serial number that was given out. -/
def SerialsBelow (registry : RendezvousSubscriptions) : Prop :=
  ∀ key t sub, registry.entry key = some (t, sub) → sub.serial < registry.nextSerial

variable {registry key}

theorem Ends.ready_le (h : Ends P registry next key) (hm : next.ready key = true) :
    registry.ready key = true := by
  rcases h with ⟨-, hr⟩ | ⟨_, _, -, -, -, hr⟩
  · rwa [hr] at hm
  · rw [hr] at hm
    cases hm

theorem Ends.entry_le (h : Ends P registry next key) {found : Time × RendezvousSubscription}
    (hf : next.entry key = some found) : registry.entry key = some found := by
  rcases h with ⟨he, -⟩ | ⟨_, _, -, -, hn, -⟩
  · rwa [he] at hf
  · rw [hn] at hf
    cases hf

section Subscribed

variable {conn : Connection} {rendezvousId : Bytes} {expireTime now : Time} {claimed pending : ℕ}
  {taken marked : Bool} {answer : Except RendezvousError (Option ℕ × Bool)}

theorem Subscribed.ready_le
    (h : Subscribed conn rendezvousId expireTime now registry next answer key)
    (hm : next.ready key = true) : registry.ready key = true := by
  cases h with
  | ends he => exact he.ready_le hm
  | claimed _ _ _ _ hr => rwa [hr] at hm
  | made _ _ _ hr => exact hr hm

theorem Subscribed.serial_le
    (h : Subscribed conn rendezvousId expireTime now registry next answer key) :
    registry.nextSerial ≤ next.nextSerial := by
  cases h with
  | ends _ hs => exact hs
  | claimed _ _ _ _ _ hs => exact hs.le
  | made _ _ _ _ hs => exact hs ▸ Nat.le_succ _

theorem ClaimSettled.ready_le (h : ClaimSettled conn rendezvousId claimed taken registry next key)
    (hm : next.ready key = true) : registry.ready key = true := by
  cases h with
  | same _ hr => rwa [hr] at hm
  | settled _ _ _ _ _ _ hr => rwa [hr] at hm
  | removed _ _ _ _ _ _ _ _ _ hr =>
    rw [hr] at hm
    cases hm

theorem Deposited.ready_le (h : Deposited rendezvousId pending now registry next marked key)
    (hmr : next.ready key = true) : registry.ready key = true ∨ marked = true := by
  cases h with
  | ends he => exact .inl (he.ready_le hmr)
  | owed _ _ _ _ _ _ hm => exact .inr hm

end Subscribed

variable (h : registry.SerialsBelow)
include h

theorem SerialsBelow.step (hs : registry.nextSerial ≤ next.nextSerial)
    (hst : ∀ key t sub, next.entry key = some (t, sub) → sub.serial < next.nextSerial ∨
        ∃ sub', registry.entry key = some (t, sub') ∧ sub'.serial = sub.serial) :
    next.SerialsBelow := by
  intro key t sub hsb
  rcases hst key t sub hsb with hlt | ⟨sub', hs', heq⟩
  · exact hlt
  · rw [← heq]
    exact Nat.lt_of_lt_of_le (h key t sub' hs') hs

theorem SerialsBelow.ends {P : RendezvousKey → Time → Prop}
    (he : ∀ key, next.nextSerial = registry.nextSerial ∧ Ends (P key) registry next key) :
    next.SerialsBelow :=
  h.step (he ⟨[], []⟩).1.ge fun key _ sub hs => .inr ⟨sub, (he key).2.entry_le hs, rfl⟩

theorem SerialsBelow.subscribe (rendezvousId : Bytes) (expireTime now : Time) :
    (registry.subscribeRendezvous conn rendezvousId expireTime now).1.SerialsBelow := by
  have ha := fun key =>
    registry.subscribeRendezvous_subscribed key conn rendezvousId expireTime now
  apply h.step (ha ⟨[], []⟩).serial_le
  intro key t sub hsb
  cases ha key with
  | ends hen => exact .inr ⟨sub, hen.entry_le hsb, rfl⟩
  | claimed sub' _ hsb' he =>
    cases hsb.symm.trans he
    exact .inr ⟨sub', hsb', rfl⟩
  | made _ _ he _ hs =>
    cases hsb.symm.trans he
    rw [hs]
    exact .inl (Nat.lt_succ_self _)

theorem SerialsBelow.settle (rendezvousId : Bytes) (claimed : ℕ) (taken : Bool) :
    (registry.settleRendezvous conn rendezvousId claimed taken).SerialsBelow := by
  have ha := fun key => registry.settleRendezvous_settled key conn rendezvousId claimed taken
  apply h.step (ha ⟨[], []⟩).1.ge
  intro key t sub hs
  cases (ha key).2 with
  | same he => exact .inr ⟨sub, he ▸ hs, rfl⟩
  | settled _ sub' _ hs' _ he =>
    cases hs.symm.trans he
    exact .inr ⟨sub', hs', rfl⟩
  | removed _ _ _ _ _ _ _ _ he =>
    rw [he] at hs
    cases hs

theorem SerialsBelow.deposited (rendezvousId : Bytes) (pending : ℕ)
    (now : Time) : (registry.depositedRendezvous rendezvousId pending now).1.SerialsBelow := by
  have ha := fun key => registry.depositedRendezvous_deposited key rendezvousId pending now
  apply h.step (ha ⟨[], []⟩).1.ge
  intro key t sub hs
  cases (ha key).2 with
  | ends hen => exact .inr ⟨sub, hen.entry_le hs, rfl⟩
  | owed _ sub' _ hs' he =>
    cases hs.symm.trans he
    exact .inr ⟨sub', hs', rfl⟩

end RendezvousSubscriptions

end MessageServer.Api
