import MessageServer.Peer.Reassembly

/-! # The reassembly isolates clients

Buffers stand in the order in which they began, so an expiry drops exactly those
past the bound, whoever's fragment runs it. What a client has open is therefore
a matter of its own fragments and of the time alone.
-/

namespace MessageServer.Peer

open Protocol Fragments

def Partial.fresh (deadline : Time) (current : Partial) : Bool :=
  !decide (current.started < deadline)

theorem Partial.fresh_eq_true {deadline : Time} {current : Partial} :
    current.fresh deadline = true ↔ deadline ≤ current.started := by
  rw [Partial.fresh, Bool.not_eq_true', decide_eq_false_iff_not, Int.not_lt]

namespace Reassembly

variable {r : Reassembly} {key k : ReassemblyKey} {current : Partial} {now clock : Time}

/-! ### The order of the buffers -/

/-- The accounts are right, the order holds the open buffers by their beginnings, and none began
after a reading of the clock. -/
structure Timed (r : Reassembly) (clock : Time) : Prop where
  accounted : r.Accounted
  keys : ∀ k, k ∈ r.order ↔ (r.current k).isSome
  nodup : r.order.Nodup
  sorted : r.order.Pairwise fun k k' => ∀ c c', r.current k = some c → r.current k' = some c' →
    c.started ≤ c'.started
  past : ∀ k c, r.current k = some c → c.started ≤ clock

variable (h : r.Timed clock)
include h

theorem Timed.later {clock' : Time} (hcl : clock ≤ clock') : r.Timed clock' :=
  { h with past := fun k c hc => Int.le_trans (h.past k c hc) hcl }

theorem Timed.look : r.look.Timed clock := { h with }

theorem Timed.order_drop : (r.drop key).order = r.order.erase key := by
  unfold drop
  split
  next hf =>
    have hn : r.current key = none := Option.map_eq_none_iff.mpr hf
    refine (List.erase_of_not_mem ?_).symm
    rw [h.keys, hn]
    exact Bool.false_ne_true
  · rfl

omit h in
theorem current_of_drop {c : Partial} (h : (r.drop key).current k = some c) :
    k ≠ key ∧ r.current k = some c := by
  rw [current_drop] at h
  split at h
  · cases h
  next hne => exact ⟨hne, h⟩

theorem Timed.drop : (r.drop key).Timed clock where
  accounted := h.accounted.drop
  keys k := by
    rw [h.order_drop, h.nodup.mem_erase_iff, current_drop, h.keys]
    split
    next heq => simp [heq]
    next hne => simp [hne]
  nodup := by
    rw [h.order_drop]
    exact h.nodup.erase key
  sorted := by
    rw [h.order_drop]
    refine (h.sorted.sublist List.erase_sublist).imp ?_
    intro k k' hle c c' hc hc'
    exact hle c c' (current_of_drop hc).2 (current_of_drop hc').2
  past k c hc := h.past k c (current_of_drop hc).2

variable {order : List ReassemblyKey}

theorem Timed.front (ho : r.order = key :: order) :
    (∃ first, r.current key = some first) ∧ (r.look.drop key).order = order := by
  refine ⟨Option.isSome_iff_exists.mp ((h.keys key).mp (ho ▸ List.mem_cons_self)), ?_⟩
  rw [h.look.order_drop, show r.look.order = _ from ho, List.erase_cons_head]

/-- A walk of the order drops exactly what began before the deadline. -/
theorem Timed.expireFrom {deadline : Time} (ho : r.order = order) :
    (expireFrom deadline order r).1.Timed clock ∧
      ∀ k, (Reassembly.expireFrom deadline order r).1.current k =
        (r.current k).filter (Partial.fresh deadline) := by
  induction order generalizing r with
  | nil =>
    refine ⟨h, fun k => ?_⟩
    have hn : r.current k = none := by
      rw [← Option.not_isSome_iff_eq_none, ← h.keys, ho]
      exact List.not_mem_nil
    rw [Reassembly.expireFrom, hn]
    rfl
  | cons key order ih =>
    obtain ⟨⟨first, hc⟩, hd⟩ := h.front ho
    unfold Reassembly.expireFrom
    rw [hc]
    dsimp only
    split
    next hf =>
      refine ⟨h.look, fun k => ?_⟩
      change r.current k = _
      cases hk : r.current k with
      | none => rfl
      | some c =>
        have hle : first.started ≤ c.started := by
          have hm : k ∈ key :: order := ho ▸ (h.keys k).mpr (by rw [hk]; rfl)
          obtain rfl | hm := List.mem_cons.mp hm
          · exact Int.le_of_eq (congrArg _ (Option.some.inj (hc.symm.trans hk)))
          · have hs := h.sorted
            rw [ho] at hs
            exact (List.pairwise_cons.mp hs).1 k hm first c hc hk
        have hkp : c.fresh deadline = true :=
          Partial.fresh_eq_true.mpr (Int.le_trans (Int.not_lt.mp hf) hle)
        exact (Option.filter_some_pos hkp).symm
    next he =>
      have hg : first.fresh deadline = false := by
        rw [Bool.eq_false_iff, Ne, Partial.fresh_eq_true, Int.not_le]
        exact not_not.mp he
      obtain ⟨ht, hr⟩ := ih h.look.drop hd
      refine ⟨ht, fun k => ?_⟩
      rw [hr k, current_drop]
      split
      next heq =>
        rw [heq, hc, Option.filter_some_neg hg]
        rfl
      · rfl

/-- The buffer under a key, if it is inside the idle bound at a time. -/
def live (r : Reassembly) (now : Time) (k : ReassemblyKey) : Option Partial :=
  if r.idle = 0 then r.current k else (r.current k).filter (Partial.fresh (now - r.idle))

theorem Timed.expire :
    (r.expire now).1.Timed clock ∧ ∀ k, (r.expire now).1.current k = r.live now k := by
  unfold Reassembly.expire live
  split
  · exact ⟨h, fun _ => rfl⟩
  · exact h.expireFrom rfl

theorem Timed.start (hn : r.current key = none)
    (hnw : clock ≤ current.started) : (r.start key current).Timed current.started := by
  have hky : key ∉ r.order := by
    rw [h.keys, hn]
    exact Bool.false_ne_true
  have hcr : ∀ k, (r.start key current).current k =
      if k = key then some current else r.current k := fun k => current_start hn
  have ho : ∀ {k c}, (r.start key current).current k = some c → k ≠ key → r.current k = some c := by
    intro k c hc hne
    rwa [hcr, if_neg hne] at hc
  have hne : ∀ {k}, k ∈ r.order → k ≠ key := fun hk heq => hky (heq ▸ hk)
  have hs : ∀ {c}, (r.start key current).current key = some c → c = current := by
    intro c hc
    rw [hcr, if_pos rfl] at hc
    exact (Option.some.inj hc).symm
  refine ⟨h.accounted.start hn, ?_, ?_, ?_, ?_⟩
  · intro k
    rw [Reassembly.start, List.mem_append, List.mem_singleton, h.keys]
    change _ ↔ ((r.start key current).current k).isSome = true
    rw [hcr]
    by_cases heq : k = key <;> simp [heq]
  · exact List.nodup_append.mpr ⟨h.nodup, List.nodup_singleton key, fun k hk k' hk' heq =>
      hky (List.mem_singleton.mp hk' ▸ heq ▸ hk)⟩
  · refine List.pairwise_append.mpr ⟨?_, List.pairwise_singleton _ _, ?_⟩
    · refine h.sorted.imp_of_mem ?_
      intro k k' hk hk' hle c c' hc hc'
      exact hle c c' (ho hc (hne hk)) (ho hc' (hne hk'))
    · intro k hk k' hk' c c' hc hc'
      obtain rfl := List.mem_singleton.mp hk'
      rw [hs hc']
      exact Int.le_trans (h.past k c (ho hc (hne hk))) hnw
  · intro k c hc
    by_cases heq : k = key
    · subst heq
      exact Int.le_of_eq (congrArg _ (hs hc))
    · exact Int.le_trans (h.past k c (ho hc heq)) hnw

theorem Timed.put {old : Partial} (ho : r.current key = some old)
    (hs : current.started = old.started) : (r.put key current).Timed clock := by
  have hcr : ∀ k, (r.put key current).current k =
      if k = key then some current else r.current k := fun k => current_put (by rw [ho]; rfl)
  have hbf : ∀ {k c}, (r.put key current).current k = some c →
      ∃ c', r.current k = some c' ∧ c.started = c'.started := by
    intro k c hc
    rw [hcr] at hc
    split at hc
    next heq =>
      cases hc
      exact ⟨old, heq ▸ ho, hs⟩
    · exact ⟨c, hc, rfl⟩
  refine ⟨h.accounted.put, ?_, h.nodup, ?_, ?_⟩
  · intro k
    rw [hcr]
    refine (h.keys k).trans ?_
    by_cases heq : k = key <;> simp [heq, ho]
  · refine h.sorted.imp ?_
    intro k k' hle c c' hc hc'
    obtain ⟨b, hb, hbs⟩ := hbf hc
    obtain ⟨b', hb', hbs'⟩ := hbf hc'
    rw [hbs, hbs']
    exact hle b b' hb hb'
  · intro k c hc
    obtain ⟨b, hb, hbs⟩ := hbf hc
    rw [hbs]
    exact h.past k b hb

omit h

variable {clientId : Bytes} {fragment : MessageServerFragment} {later : Time} {r' : Reassembly}

theorem Timed.holding_grown (h : r.Timed clock) (hcl : clock ≤ later) :
    (r.holding key (grown (r.current key) fragment later)).Timed later := by
  unfold Reassembly.holding
  cases hc : r.current key with
  | none =>
    rw [if_pos Option.isNone_none]
    exact h.start hc hcl
  | some old =>
    rw [if_neg (by simp)]
    have hs : (grown (some old) fragment later).started = old.started := rfl
    exact (h.put hc hs).later hcl

theorem Timed.accept (h : r.Timed clock) (hn : clock ≤ now) (hl : now ≤ later) :
    (r.accept clientId fragment now later).1.Timed later := by
  have hc := Int.le_trans hn hl
  have he : (r.expire now).1.Timed clock := h.expire.1
  by_cases hr : firstRefusal ((r.expire now).1.stateOf clientId fragment) reassemblyAborts = .ok
  · rw [accept_taken hr]
    dsimp only
    split
    · exact he.holding_grown hc
    · exact (he.holding_grown hc).drop
  · rw [accept_refused hr]
    exact he.drop.later hc

theorem live_of_current (hl : r.limits = r'.limits) (h : r.current k = r'.current k) :
    r.live now k = r'.live now k := by
  have hi : r.idle = r'.idle := congrArg (·.2.2.2) hl
  unfold live
  rw [hi, h]

theorem live_expired (hl : r'.limits = r.limits) {time : Time} (ht : now ≤ time)
    (h : r'.current k = r.live now k) : r'.live time k = r.live time k := by
  have hi : r'.idle = r.idle := congrArg (·.2.2.2) hl
  unfold live at h ⊢
  rw [hi]
  split
  next hz => rwa [if_pos hz] at h
  next hb =>
    rw [if_neg hb] at h
    rw [h, Option.filter_filter]
    congr 1
    funext c
    rw [Bool.and_eq_right_iff_imp]
    intro hf
    rw [Partial.fresh_eq_true] at hf ⊢
    exact Int.le_trans (Int.sub_le_sub_right ht _) hf

/-! ### One client -/

/-- Below the global bound on open buffers, if there is one. -/
def BelowBound (r : Reassembly) : Prop :=
  0 < r.maxReassemblies → (r.inFlight.rows.length : ℤ) < r.maxReassemblies

theorem find_eq_current : r.inFlight.find k = (r.current k).map (InFlight.mk k) := by
  unfold Reassembly.current
  cases hf : r.inFlight.find k with
  | none => rfl
  | some row =>
    obtain ⟨-, rfl⟩ := Table.find_eq_some.mp hf
    rfl

/-- Two reassemblies in which a client has the same open, where the other has nothing else. -/
structure Same (clientId : Bytes) (r r' : Reassembly) : Prop where
  limits : r.limits = r'.limits
  own : ∀ k, k.clientId = clientId → r.current k = r'.current k
  alone : ∀ k, k.clientId ≠ clientId → r'.current k = none

variable {r' : Reassembly}

theorem Same.countP (h : Same clientId r r') : r.inFlight.rows.countP (·.key.clientId = clientId) =
      r'.inFlight.rows.countP (·.key.clientId = clientId) := by
  apply Table.countP_congr
  intro k
  rw [find_eq_current, find_eq_current]
  by_cases hk : k.clientId = clientId
  · rw [h.own k hk]
  · cases hc : r.current k <;> simp [h.alone k hk, hk]

theorem Same.length_le (h : Same clientId r r') :
    r'.inFlight.rows.length ≤ r.inFlight.rows.length := by
  have ha : r'.inFlight.rows.countP (·.key.clientId = clientId) = r'.inFlight.rows.length := by
    rw [List.countP_eq_length]
    intro row hr
    rw [decide_eq_true_iff]
    by_contra hne
    have hf := Table.find_key hr
    rw [find_eq_current, h.alone _ hne] at hf
    cases hf
  rw [← ha, ← h.countP]
  exact List.countP_le_length

end Reassembly

theorem firstRefusal_congr {state state' : FragmentState}
    {rules : List (FragmentState → Reason)} (h : ∀ rule ∈ rules, rule state = rule state') :
    firstRefusal state rules = firstRefusal state' rules := by
  induction rules with
  | nil => rfl
  | cons rule rules ih =>
    rw [List.forall_mem_cons] at h
    rw [firstRefusal, firstRefusal, h.1, ih h.2]

theorem firstRefusal_openTotal {state : FragmentState} {openTotal : ℕ}
    (h : 0 < state.maxReassemblies → (state.openTotal : ℤ) < state.maxReassemblies)
    (h' : 0 < state.maxReassemblies → (openTotal : ℤ) < state.maxReassemblies) :
    firstRefusal { state with openTotal := openTotal } reassemblyAborts =
      firstRefusal state reassemblyAborts := by
  have ho : ¬ (state.opening = true ∧ 0 < state.maxReassemblies ∧
      state.maxReassemblies ≤ state.openTotal) := by
    rintro ⟨-, hm, hf⟩
    exact Int.not_le.mpr (h hm) hf
  have ho' : ¬ (state.opening = true ∧ 0 < state.maxReassemblies ∧
      state.maxReassemblies ≤ openTotal) := by
    rintro ⟨-, hm, hf⟩
    exact Int.not_le.mpr (h' hm) hf
  apply firstRefusal_congr
  unfold reassemblyAborts
  iterate 4 refine List.forall_mem_cons.mpr ⟨rfl, ?_⟩
  refine List.forall_mem_cons.mpr ⟨(if_neg ho').trans (if_neg ho).symm, ?_⟩
  exact List.forall_mem_cons.mpr ⟨rfl, fun _ hmm => (List.not_mem_nil hmm).elim⟩

namespace Reassembly

variable {r r' : Reassembly} {clientId : Bytes} {fragment : MessageServerFragment}
  {now later clock : Time}

theorem Same.refusal (h : Same clientId r r') (ha : r.Accounted) (ha' : r'.Accounted)
    (hb : r.BelowBound) : firstRefusal (r'.stateOf clientId fragment) reassemblyAborts =
      firstRefusal (r.stateOf clientId fragment) reassemblyAborts := by
  have hcn : r.counts clientId = r'.counts clientId := by
    rw [ha clientId, ha' clientId, h.countP]
  have hs : r'.stateOf clientId fragment =
      { r.stateOf clientId fragment with openTotal := r'.inFlight.rows.length } := by
    obtain ⟨hm, hcl, ht, -⟩ := limits_eq h.limits
    simp only [stateOf, hcn, h.own ⟨clientId, _⟩ rfl, hm, hcl, ht]
  rw [hs]
  refine firstRefusal_openTotal hb fun hm => ?_
  exact Int.lt_of_le_of_lt (Int.ofNat_le.mpr h.length_le) (hb hm)

theorem Same.drop (h : Same clientId r r') (key : ReassemblyKey) :
    Same clientId (r.drop key) (r'.drop key) where
  limits := limits_drop.trans (h.limits.trans limits_drop.symm)
  own k hk := by rw [current_drop, current_drop, h.own k hk]
  alone k hk := by
    rw [current_drop, h.alone k hk]
    split <;> rfl

theorem Same.holding (h : Same clientId r r') {key : ReassemblyKey} (hky : key.clientId = clientId)
    (current : Partial) : Same clientId (r.holding key current) (r'.holding key current) where
  limits := limits_holding.trans (h.limits.trans limits_holding.symm)
  own k hk := by rw [current_holding, current_holding, h.own k hk]
  alone k hk := by
    have hne : k ≠ key := by
      rintro rfl
      exact hk hky
    rw [current_holding, if_neg hne, h.alone k hk]

theorem Same.accept (h : Same clientId (r.expire now).1 (r'.expire now).1)
    (ha : r.Accounted) (ha' : r'.Accounted) (hb : (r.expire now).1.BelowBound)
    (fragment : MessageServerFragment) (later : Time) :
    (r.accept clientId fragment now later).2 = (r'.accept clientId fragment now later).2 ∧
      Same clientId (r.accept clientId fragment now later).1
        (r'.accept clientId fragment now later).1 := by
  have hrf : firstRefusal ((r'.expire now).1.stateOf clientId fragment) reassemblyAborts =
      firstRefusal ((r.expire now).1.stateOf clientId fragment) reassemblyAborts :=
    h.refusal ha.expire ha'.expire hb
  by_cases hr : firstRefusal ((r.expire now).1.stateOf clientId fragment) reassemblyAborts = .ok
  · rw [accept_taken hr, accept_taken (hrf.trans hr)]
    have hc := h.own ⟨clientId, fragment.requestId⟩ rfl
    dsimp only
    rw [← hc]
    split
    · exact ⟨rfl, h.holding rfl _⟩
    · exact ⟨rfl, (h.holding rfl _).drop _⟩
  · rw [accept_refused hr, accept_refused (hrf ▸ hr), hrf]
    exact ⟨rfl, h.drop _⟩

def receive (r : Reassembly) : Arrival → Reassembly × Accepted
  | .fragment clientId fragment now later => r.accept clientId fragment now later
  | .sweep now => ((r.expire now).1, ⟨[], false, .ok⟩)

end Reassembly

namespace Arrival

def sentBy (clientId : Bytes) : Arrival → Bool
  | .fragment sender _ _ _ => sender = clientId
  | .sweep _ => false

def readings : Arrival → List Time
  | .fragment _ _ now later => [now, later]
  | .sweep now => [now]

end Arrival

def NonDecreasing (history : List Arrival) : Prop :=
  (history.flatMap Arrival.readings).Pairwise (· ≤ ·)

def answersOf (clientId : Bytes) : Reassembly → List Arrival → List Accepted :=
  answersTo (·.sentBy clientId) Reassembly.receive

/-- The global bound is not reached at any arrival of a history. -/
def StaysBelow : Reassembly → List Arrival → Prop :=
  Along (fun r _ => r.BelowBound) Reassembly.receive

structure Beside (clientId : Bytes) (history : List Arrival) (r r' : Reassembly) : Prop where
  below : StaysBelow r history
  nonDecreasing : NonDecreasing history
  limits : r.limits = r'.limits
  alone : ∀ k, k.clientId ≠ clientId → r'.current k = none
  timed : ∃ clock, r.Timed clock ∧ r'.Timed clock ∧
    (∀ time ∈ history.flatMap Arrival.readings, clock ≤ time) ∧
    ∀ time, clock ≤ time → ∀ k, k.clientId = clientId → r.live time k = r'.live time k

theorem Reassembly.Timed.belowBound {r : Reassembly} {clock now : Time} (h : r.Timed clock)
    (hb : r.BelowBound) : (r.expire now).1.BelowBound := by
  have hm : (r.expire now).1.maxReassemblies = r.maxReassemblies :=
    congrArg (·.2.2.1) Reassembly.limits_expire
  have hl : (r.expire now).1.inFlight.rows.length ≤ r.inFlight.rows.length := by
    rw [← List.countP_true]
    apply Table.countP_le
    intro k row hr _
    rw [Reassembly.find_eq_current, h.expire.2 k, Reassembly.live] at hr
    rw [Reassembly.find_eq_current]
    cases hc : r.current k with
    | none => simp [hc] at hr
    | some current => exact ⟨_, rfl, rfl⟩
  intro hp
  rw [hm] at hp ⊢
  exact Int.lt_of_le_of_lt (Int.ofNat_le.mpr hl) (hb hp)

variable {history : List Arrival}

theorem NonDecreasing.cons {arrival : Arrival}
    (h : NonDecreasing (arrival :: history)) : arrival.readings.Pairwise (· ≤ ·) ∧
      NonDecreasing history ∧ ∀ time ∈ arrival.readings,
        ∀ time' ∈ history.flatMap Arrival.readings, time ≤ time' := by
  rw [NonDecreasing, List.flatMap_cons, List.pairwise_append] at h
  exact h

namespace Beside

variable {clientId : Bytes} {r r' : Reassembly} {arrival : Arrival}

theorem other (ho : arrival.sentBy clientId = false)
    (h : Beside clientId (arrival :: history) r r') :
    Beside clientId history (r.receive arrival).1 r' := by
  obtain ⟨clock, ht, ht', hc, hlv⟩ := h.timed
  obtain ⟨hp, hr, hn⟩ := h.nonDecreasing.cons
  cases arrival with
  | fragment sender fragment now later =>
    have hne : ∀ {k : ReassemblyKey}, k.clientId = clientId → k ≠ ⟨sender, fragment.requestId⟩ := by
      rintro k rfl rfl
      simp [Arrival.sentBy] at ho
    have hnw : clock ≤ now := hc now (by simp [Arrival.readings])
    have hl : now ≤ later := by simpa [Arrival.readings] using hp
    have hlm : (r.accept sender fragment now later).1.limits = r.limits := ht.accounted.accept.2
    refine ⟨h.below.2, hr, hlm.trans h.limits, h.alone, later,
      ht.accept hnw hl, ht'.later (Int.le_trans hnw hl),
      hn later (by simp [Arrival.readings]), ?_⟩
    intro time htm k hk
    have hcr : (r.accept sender fragment now later).1.current k = r.live now k :=
      (Reassembly.current_accept_expire (hne hk)).trans (ht.expire.2 k)
    have hs := Reassembly.live_expired hlm (Int.le_trans hl htm) hcr
    exact hs.trans (hlv time (Int.le_trans hnw (Int.le_trans hl htm)) k hk)
  | sweep now =>
    have hnw : clock ≤ now := hc now (by simp [Arrival.readings])
    refine ⟨h.below.2, hr, Reassembly.limits_expire.trans h.limits, h.alone, now,
      ht.expire.1.later hnw, ht'.later hnw, hn now (by simp [Arrival.readings]), ?_⟩
    intro time htm k hk
    have hs := Reassembly.live_expired Reassembly.limits_expire htm (ht.expire.2 k)
    exact hs.trans (hlv time (Int.le_trans hnw htm) k hk)

theorem own (ho : arrival.sentBy clientId = true) (h : Beside clientId (arrival :: history) r r') :
    (r.receive arrival).2 = (r'.receive arrival).2 ∧
      Beside clientId history (r.receive arrival).1 (r'.receive arrival).1 := by
  obtain ⟨clock, ht, ht', hc, hlv⟩ := h.timed
  obtain ⟨hp, hr, hn⟩ := h.nonDecreasing.cons
  cases arrival with
  | fragment sender fragment now later =>
    obtain rfl : sender = clientId := by simpa [Arrival.sentBy] using ho
    have hnw : clock ≤ now := hc now (by simp [Arrival.readings])
    have hl : now ≤ later := by simpa [Arrival.readings] using hp
    have he : Reassembly.Same sender (r.expire now).1 (r'.expire now).1 := by
      refine ⟨Reassembly.limits_expire.trans (h.limits.trans Reassembly.limits_expire.symm), ?_, ?_⟩
      · intro k hk
        rw [ht.expire.2 k, ht'.expire.2 k]
        exact hlv now hnw k hk
      · intro k hk
        rw [ht'.expire.2 k, Reassembly.live, h.alone k hk]
        split <;> rfl
    obtain ⟨ha, hs⟩ := he.accept ht.accounted ht'.accounted (ht.belowBound h.below.1) fragment later
    refine ⟨ha, h.below.2, hr, hs.limits, hs.alone, later, ht.accept hnw hl, ht'.accept hnw hl,
      hn later (by simp [Arrival.readings]), ?_⟩
    intro time _ k hk
    exact Reassembly.live_of_current hs.limits (hs.own k hk)
  | sweep => cases ho

end Beside

variable {clientId : Bytes}

theorem answersOf_alone {r r' : Reassembly} (h : Beside clientId history r r') :
    answersOf clientId r history =
      answers Reassembly.receive r' (history.filter (·.sentBy clientId)) := by
  unfold answersOf
  refine answersTo_eq_answers_filter (R := Beside clientId) ?_ ?_ h
  · intro _ _ _ _ ho h
    exact h.other ho
  · intro _ _ _ _ how h
    exact h.own how

variable (maxRequestBytes : ℕ) (perClient maxReassemblies idle : ℤ)

theorem Reassembly.newReassembly_timed (clock : Time) :
    (newReassembly maxRequestBytes perClient maxReassemblies idle).Timed clock where
  accounted _ := rfl
  keys _ := ⟨fun h => (List.not_mem_nil h).elim, fun h => (Bool.false_ne_true h).elim⟩
  nodup := List.nodup_nil
  sorted := List.Pairwise.nil
  past := by rintro k c ⟨⟩

theorem exists_first (h : NonDecreasing history) :
    ∃ first, ∀ time ∈ history.flatMap Arrival.readings, first ≤ time := by
  rw [NonDecreasing] at h
  cases hr : history.flatMap Arrival.readings with
  | nil => exact ⟨0, fun _ ht => (List.not_mem_nil ht).elim⟩
  | cons first rest =>
    refine ⟨first, fun time ht => ?_⟩
    rw [hr] at h
    obtain rfl | ht := List.mem_cons.mp ht
    · exact Int.le_refl _
    · exact (List.pairwise_cons.mp h).1 time ht

theorem beside_newReassembly (hn : NonDecreasing history)
    (hb : StaysBelow (newReassembly maxRequestBytes perClient maxReassemblies idle) history) :
    Beside clientId history (newReassembly maxRequestBytes perClient maxReassemblies idle)
      (newReassembly maxRequestBytes perClient maxReassemblies idle) := by
  obtain ⟨first, hf⟩ := exists_first hn
  have ht := Reassembly.newReassembly_timed maxRequestBytes perClient maxReassemblies idle first
  exact ⟨hb, hn, rfl, fun _ _ => rfl, first, ht, ht, hf, fun _ _ _ _ => rfl⟩

/--
Two histories that agree on the fragments of a client and on when they arrive have the same answers
for it.
-/
theorem reassembly_isolates_clients (maxRequestBytes : ℕ) (perClient maxReassemblies idle : ℤ)
    (clientId : Bytes) (history history' : List Arrival)
    (hsame : history.filter (·.sentBy clientId) = history'.filter (·.sentBy clientId))
    (hclock : NonDecreasing history) (hclock' : NonDecreasing history')
    (hbelow : StaysBelow (newReassembly maxRequestBytes perClient maxReassemblies idle) history)
    (hbelow' : StaysBelow (newReassembly maxRequestBytes perClient maxReassemblies idle)
      history') :
    answersOf clientId (newReassembly maxRequestBytes perClient maxReassemblies idle) history =
      answersOf clientId (newReassembly maxRequestBytes perClient maxReassemblies idle)
        history' := by
  rw [answersOf_alone (beside_newReassembly _ _ _ _ hclock hbelow),
    answersOf_alone (beside_newReassembly _ _ _ _ hclock' hbelow'), hsame]

namespace Sample

def small : Reassembly := newReassembly 4 2 8 10

def quiet : List Arrival :=
  [.fragment [1] ⟨7, 0, 2, [1, 2]⟩ 0 0, .fragment [1] ⟨7, 1, 2, [3]⟩ 9 9]

def busy : List Arrival :=
  [.fragment [2] ⟨7, 0, 2, [9]⟩ 0 0, .fragment [1] ⟨7, 0, 2, [1, 2]⟩ 0 0,
    .fragment [2] ⟨7, 5, 2, [9]⟩ 3 4, .sweep 8, .fragment [1] ⟨7, 1, 2, [3]⟩ 9 9]

end Sample

open Sample

/-- A client that assembles its request alone and beside another. -/
theorem reassembly_isolates_clients_busy : answersOf [1] small quiet = answersOf [1] small busy ∧
      (answersOf [1] small busy).map (·.assembled) = [[], [1, 2, 3]] := by
  refine ⟨?_, by decide⟩
  refine reassembly_isolates_clients 4 2 8 10 [1] quiet busy rfl ?_ ?_ ?_ ?_
  · unfold NonDecreasing
    decide
  · unfold NonDecreasing
    decide
  · exact ⟨fun _ => by decide, fun _ => by decide, trivial⟩
  · exact ⟨fun _ => by decide, fun _ => by decide, fun _ => by decide, fun _ => by decide,
      fun _ => by decide, trivial⟩

end MessageServer.Peer
