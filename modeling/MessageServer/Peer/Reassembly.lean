import MessageServer.Peer.Frames
import MessageServer.Lib.Fragments

/-! # The reassembly collects each request on its own

For one client and request the reassembly is a collector of numbered pieces.
What arrives for another client or another request leaves its buffer alone, and
so does the expiry while the buffer is inside the bound.
-/

namespace MessageServer.Peer

open Protocol Fragments Function Partial

namespace Reassembly

variable {r : Reassembly} {key k : ReassemblyKey} {current : Partial} {now : Time}

/-- A count as it is kept: none is not. -/
def tally (n : ℕ) : Option ℕ := if n = 0 then none else some n

theorem getD_tally (n : ℕ) : (tally n).getD 0 = n := by
  unfold tally
  split
  next h => exact h.symm
  · rfl

def Accounted (r : Reassembly) : Prop :=
  ∀ clientId, r.counts clientId = tally (r.inFlight.rows.countP (·.key.clientId = clientId))

theorem current_drop : (r.drop key).current k = if k = key then none else r.current k := by
  unfold drop
  split
  next hf =>
    split
    next heq =>
      rw [heq, Reassembly.current, hf]
      rfl
    · rfl
  next hf =>
    rw [Reassembly.current, Table.find_filter]
    cases hk : r.inFlight.find k with
    | none => simp [Reassembly.current, hk]
    | some row =>
      obtain ⟨-, rfl⟩ := Table.find_eq_some.mp hk
      by_cases heq : row.key = key <;> simp [Reassembly.current, hk, heq]

theorem current_start (h : r.current key = none) :
    (r.start key current).current k = if k = key then some current else r.current k := by
  have hf : r.inFlight.find key = none := Option.map_eq_none_iff.mp h
  rw [Reassembly.current, start, Table.find_insert hf]
  split <;> rfl

theorem current_put (h : (r.current key).isSome) :
    (r.put key current).current k = if k = key then some current else r.current k := by
  rw [Reassembly.current, put, Table.find_modify]
  split
  next heq =>
    rw [heq]
    obtain ⟨row, hr⟩ := Option.isSome_iff_exists.mp (Option.isSome_map.symm.trans h)
    rw [hr]
    rfl
  · rfl

variable {deadline : Time} (order : List ReassemblyKey)

theorem current_expireFrom
    (h : ∀ current, r.current k = some current → ¬ current.started < deadline) :
    (expireFrom deadline order r).1.current k = r.current k := by
  induction order generalizing r with
  | nil => rfl
  | cons key order ih =>
    unfold expireFrom
    split
    · exact ih h
    next current hc =>
      split
      · rfl
      next he =>
        have hne : k ≠ key := by
          rintro rfl
          exact he (h current hc)
        have hd : (r.look.drop key).current k = r.current k := by
          rw [current_drop, if_neg hne]
          rfl
        rw [ih (by rwa [hd]), hd]

def Fresh (r : Reassembly) (k : ReassemblyKey) (now : Time) : Prop :=
  r.idle = 0 ∨ ∀ current, r.current k = some current → ¬ current.started < now - r.idle

theorem current_expire (h : r.Fresh k now) : (r.expire now).1.current k = r.current k := by
  unfold expire
  split
  · rfl
  next hi => exact current_expireFrom r.order (h.resolve_left hi)

theorem Accounted.drop (h : r.Accounted) : (r.drop key).Accounted := by
  intro clientId
  unfold Reassembly.drop
  split
  · exact h clientId
  next row hf =>
    obtain ⟨-, rfl⟩ := Table.find_eq_some.mp hf
    have hcn := Table.countP_without hf (·.key.clientId = clientId)
    dsimp only
    by_cases hc : row.key.clientId = clientId
    · subst hc
      rw [update_self, h, getD_tally]
      simp only [decide_true, if_true] at hcn
      rw [hcn]
      split
      next hl => rw [Nat.le_zero.mp (Nat.le_of_succ_le_succ hl), tally, if_pos rfl]
      next hm => rw [tally, tally, if_neg (Nat.succ_ne_zero _), if_neg (by omega)]; rfl
    · rw [update_of_ne (Ne.symm hc), h]
      congr 1
      simpa [hc] using hcn

theorem start_rows (hn : r.current key = none) :
    (r.start key current).inFlight.rows = r.inFlight.rows ++ [⟨key, current⟩] :=
  Table.rows_insert (Option.map_eq_none_iff.mp hn)

theorem Accounted.start (h : r.Accounted) (hn : r.current key = none) :
    (r.start key current).Accounted := by
  intro clientId
  rw [start_rows hn]
  simp only [Reassembly.start, List.countP_append, List.countP_singleton]
  by_cases hc : key.clientId = clientId
  · subst hc
    rw [update_self, h, getD_tally]
    simp [tally]
  · simpa [update_of_ne (Ne.symm hc), hc] using h clientId

theorem Accounted.put (h : r.Accounted) : (r.put key current).Accounted := by
  intro clientId
  rw [Reassembly.put, Table.modify, Table.map, List.countP_map, h clientId]
  refine congrArg tally (List.countP_congr fun row _ => ?_)
  simp only [comp_apply]
  split <;> rfl

theorem Accounted.expireFrom (h : r.Accounted) : (expireFrom deadline order r).1.Accounted := by
  induction order generalizing r with
  | nil => exact h
  | cons key order ih =>
    unfold Reassembly.expireFrom
    split
    · exact ih h
    split
    · exact h
    · exact ih (Accounted.drop (r := r.look) h)

theorem Accounted.expire (h : r.Accounted) : (r.expire now).1.Accounted := by
  unfold Reassembly.expire
  split
  · exact h
  · exact h.expireFrom r.order

def limits (r : Reassembly) : ℕ × ℤ × ℤ × ℤ :=
  (r.maxRequestBytes, r.perClient, r.maxReassemblies, r.idle)

theorem limits_eq {r' : Reassembly} (h : r'.limits = r.limits) :
    r'.maxRequestBytes = r.maxRequestBytes ∧ r'.perClient = r.perClient ∧
      r'.maxReassemblies = r.maxReassemblies ∧ r'.idle = r.idle := by
  simpa [limits] using h

theorem limits_drop : (r.drop key).limits = r.limits := by
  unfold drop
  split <;> rfl

theorem limits_expireFrom : (expireFrom deadline order r).1.limits = r.limits := by
  induction order generalizing r with
  | nil => rfl
  | cons key order ih =>
    unfold expireFrom
    split
    · exact ih
    split
    · rfl
    · exact ih.trans limits_drop

theorem limits_expire : (r.expire now).1.limits = r.limits := by
  unfold expire
  split
  · rfl
  · exact limits_expireFrom r.order

theorem maxRequestBytes_expire : (r.expire now).1.maxRequestBytes = r.maxRequestBytes :=
  congrArg Prod.fst limits_expire

end Reassembly

def numberedPiece (fragment : MessageServerFragment) : Piece UInt8 :=
  ⟨fragment.index.toNat, fragment.count.toNat, fragment.part⟩

def Partial.progress (current : Partial) : Progress UInt8 :=
  ⟨current.count.toNat, current.next.toNat, current.bytes⟩

section Refusals

variable {state : FragmentState}

theorem firstRefusal_eq_ok {rules : List (FragmentState → Reason)} :
    firstRefusal state rules = .ok ↔ ∀ rule ∈ rules, rule state = .ok := by
  induction rules with
  | nil => simp [firstRefusal]
  | cons rule rules ih =>
    rw [firstRefusal, List.forall_mem_cons, ← ih]
    split
    next hr => simp [hr]
    next hok => simp [not_not.mp hok]

theorem rejected_eq_ok {refused : Prop} [Decidable refused] :
    (if refused then Reason.rejected else .ok) = .ok ↔ ¬ refused := by
  split <;> simp [*]

theorem withinLimits_eq_ok {bytes max : ℕ} : withinLimits bytes max = .ok ↔ bytes ≤ max := by
  unfold withinLimits
  split
  next h => simp [h]
  next h => simp [Nat.not_lt.mp h]

/-- A fragment that opens a buffer finds room for it. -/
def FragmentState.HasSlot (state : FragmentState) : Prop :=
  state.current = none → (state.openForClient : ℤ) < state.perClient ∧
    (0 < state.maxReassemblies → (state.openTotal : ℤ) < state.maxReassemblies)

theorem firstRefusal_aborts : firstRefusal state reassemblyAborts = .ok ↔
    ¬ (numberedPiece state.fragment).OutOfOrder (state.current.map progress) ∧
      state.HasSlot ∧ state.buffered + state.fragment.part.length ≤ state.maxRequestBytes := by
  rw [firstRefusal_eq_ok]
  obtain ⟨fragment, current, openForClient, openTotal, perClient, maxReassemblies, max⟩ := state
  simp only [reassemblyAborts, List.forall_mem_cons, rejected_eq_ok, withinLimits_eq_ok]
  cases current <;> simp [FragmentState.next, FragmentState.opening, FragmentState.HasSlot,
    FragmentState.buffered, Piece.OutOfOrder, numberedPiece, progress,
    UInt32.le_iff_toNat_le, ← UInt32.toNat_inj, and_assoc]

end Refusals

/-- A buffer once a fragment has been added to it, or opened by one. -/
def grown (current : Option Partial) (fragment : MessageServerFragment) (later : Time) : Partial :=
  let current := current.getD ⟨fragment.count, 0, [], later⟩
  { current with bytes := current.bytes ++ fragment.part, next := current.next + 1 }

theorem progress_grown {current : Option Partial} {fragment : MessageServerFragment} {later : Time}
    (h : ¬ (numberedPiece fragment).OutOfOrder (current.map progress)) :
    (grown current fragment later).progress =
      (numberedPiece fragment).added (current.map progress) := by
  cases current with
  | none => simp [grown, progress, numberedPiece, Piece.added]
  | some current =>
    simp only [Option.map_some, Piece.OutOfOrder, numberedPiece, progress, not_or,
      Nat.not_le, not_not] at h
    have hc := fragment.count.toNat_lt
    have hn : (current.next + 1).toNat = current.next.toNat + 1 := by
      rw [UInt32.toNat_add, UInt32.toNat_one, Nat.mod_eq_of_lt (by omega)]
    simp [grown, progress, numberedPiece, Piece.added, hn]

def Accepted.outcome (accepted : Accepted) : Outcome UInt8 :=
  if accepted.reason ≠ .ok then .aborted
  else if accepted.complete then .complete accepted.assembled
  else .more

namespace Reassembly

variable {r : Reassembly} {k : ReassemblyKey} {clientId : Bytes}
  {fragment : MessageServerFragment} {now later : Time}

/-- What the abort rules are asked about, once the expiry has run. -/
def stateOf (r : Reassembly) (clientId : Bytes) (fragment : MessageServerFragment) :
    FragmentState :=
  ⟨fragment, r.current ⟨clientId, fragment.requestId⟩, (r.counts clientId).getD 0,
    r.inFlight.rows.length, r.perClient, r.maxReassemblies, r.maxRequestBytes⟩

def holding (r : Reassembly) (key : ReassemblyKey) (current : Partial) : Reassembly :=
  if (r.current key).isNone then r.start key current else r.put key current

theorem accept_refused
    (h : firstRefusal ((r.expire now).1.stateOf clientId fragment) reassemblyAborts ≠ .ok) :
    r.accept clientId fragment now later = ((r.expire now).1.drop ⟨clientId, fragment.requestId⟩,
        ⟨[], false, firstRefusal ((r.expire now).1.stateOf clientId fragment) reassemblyAborts⟩) :=
  if_pos h

theorem accept_taken
    (h : firstRefusal ((r.expire now).1.stateOf clientId fragment) reassemblyAborts = .ok) :
    r.accept clientId fragment now later = let key : ReassemblyKey := ⟨clientId, fragment.requestId⟩
      let next := grown ((r.expire now).1.current key) fragment later
      let held := (r.expire now).1.holding key next
      if next.next < next.count then (held, ⟨[], false, .ok⟩)
      else (held.drop key, ⟨next.bytes, true, .ok⟩) :=
  if_neg (not_not.mpr h)

variable {key : ReassemblyKey} {current : Partial}

theorem current_holding :
    (r.holding key current).current k = if k = key then some current else r.current k := by
  unfold holding
  cases h : r.current key with
  | none => rw [if_pos Option.isNone_none, current_start h]
  | some _ => rw [if_neg (by simp), current_put (by simp [h])]

theorem Accounted.holding (h : r.Accounted) : (r.holding key current).Accounted := by
  unfold Reassembly.holding
  split
  next hn => exact h.start (Option.isNone_iff_eq_none.mp hn)
  · exact h.put

theorem limits_holding : (r.holding key current).limits = r.limits := by
  unfold holding
  split <;> rfl

theorem Accounted.accept (h : r.Accounted) : (r.accept clientId fragment now later).1.Accounted ∧
      (r.accept clientId fragment now later).1.limits = r.limits := by
  by_cases hr : firstRefusal ((r.expire now).1.stateOf clientId fragment) reassemblyAborts = .ok
  · rw [accept_taken hr]
    dsimp only
    split
    · exact ⟨h.expire.holding, limits_holding.trans limits_expire⟩
    · exact ⟨h.expire.holding.drop, limits_drop.trans (limits_holding.trans limits_expire)⟩
  · rw [accept_refused hr]
    exact ⟨h.expire.drop, limits_drop.trans limits_expire⟩

theorem current_accept_expire (hk : k ≠ ⟨clientId, fragment.requestId⟩) :
    (r.accept clientId fragment now later).1.current k = (r.expire now).1.current k := by
  by_cases hr : firstRefusal ((r.expire now).1.stateOf clientId fragment) reassemblyAborts = .ok
  · rw [accept_taken hr]
    dsimp only
    split
    · rw [current_holding, if_neg hk]
    · rw [current_drop, if_neg hk, current_holding, if_neg hk]
  · rw [accept_refused hr, current_drop, if_neg hk]

theorem current_accept_of_ne (hk : k ≠ ⟨clientId, fragment.requestId⟩) (hf : r.Fresh k now) :
    (r.accept clientId fragment now later).1.current k = r.current k :=
  (current_accept_expire hk).trans (current_expire hf)

/-- There is a slot for a buffer under a key, counted over the buffers that are open. -/
def Slot (r : Reassembly) (k : ReassemblyKey) : Prop :=
  r.current k = none → (r.inFlight.rows.countP (·.key.clientId = k.clientId) : ℤ) < r.perClient ∧
    (0 < r.maxReassemblies → (r.inFlight.rows.length : ℤ) < r.maxReassemblies)

theorem Accounted.hasSlot (h : r.Accounted) (hs : r.Slot ⟨clientId, fragment.requestId⟩) :
    (r.stateOf clientId fragment).HasSlot := by
  intro hn
  obtain ⟨hc, ht⟩ := hs hn
  refine ⟨?_, ht⟩
  rw [stateOf, h clientId, getD_tally]
  exact hc

theorem collect_accept (ha : r.Accounted) (hf : r.Fresh ⟨clientId, fragment.requestId⟩ now)
    (hsl : (r.expire now).1.Slot ⟨clientId, fragment.requestId⟩)
    (hs : Fits r.maxRequestBytes
      ((r.current ⟨clientId, fragment.requestId⟩).map progress) (numberedPiece fragment)) :
    collect ((r.current ⟨clientId, fragment.requestId⟩).map progress)
        (numberedPiece fragment) =
      (((r.accept clientId fragment now later).1.current
          ⟨clientId, fragment.requestId⟩).map progress,
        (r.accept clientId fragment now later).2.outcome) := by
  have hc := current_expire hf
  have hb : ((r.expire now).1.stateOf clientId fragment).buffered + fragment.part.length ≤
      ((r.expire now).1.stateOf clientId fragment).maxRequestBytes := by
    rw [stateOf, FragmentState.buffered, hc, maxRequestBytes_expire]
    refine Nat.le_trans (Nat.le_of_eq ?_) hs
    cases r.current ⟨clientId, fragment.requestId⟩ <;> rfl
  have hr : firstRefusal ((r.expire now).1.stateOf clientId fragment) reassemblyAborts = .ok ↔
      ¬ (numberedPiece fragment).OutOfOrder
        ((r.current ⟨clientId, fragment.requestId⟩).map progress) := by
    rw [firstRefusal_aborts, ← hc]
    exact ⟨fun h => h.1, fun h => ⟨h, ha.expire.hasSlot hsl, hb⟩⟩
  unfold collect
  split
  next ho =>
    have hne := mt hr.mp (not_not.mpr ho)
    rw [accept_refused hne, current_drop, if_pos rfl, Accepted.outcome, if_pos hne]
    rfl
  next hin =>
    have hg : (grown _ fragment later).progress = _ := progress_grown hin
    rw [accept_taken (hr.mpr hin), ← hg]
    dsimp only
    rw [hc]
    split
    next hm =>
      rw [if_pos (UInt32.lt_iff_toNat_lt.mpr hm), current_holding, if_pos rfl]
      rfl
    next hl =>
      rw [if_neg (mt UInt32.lt_iff_toNat_lt.mp hl), current_drop, if_pos rfl]
      rfl

end Reassembly

/-- What reaches the reassembly: a fragment, or the sweep of a quiet server. -/
inductive Arrival
  | fragment (clientId : Bytes) (fragment : MessageServerFragment) (now later : Time)
  | sweep (now : Time)

namespace Arrival

def now : Arrival → Time
  | .fragment _ _ now _ => now
  | .sweep now => now

def own (k : ReassemblyKey) : Arrival → Option MessageServerFragment
  | .fragment clientId sent _ _ => if k = ⟨clientId, sent.requestId⟩ then some sent else none
  | .sweep _ => none

end Arrival

namespace Reassembly

variable {r : Reassembly} {k : ReassemblyKey}

def arrive (r : Reassembly) : Arrival → Reassembly × Outcome UInt8
  | .fragment clientId fragment now later =>
    let accepted := r.accept clientId fragment now later
    (accepted.1, accepted.2.outcome)
  | .sweep now => ((r.expire now).1, .more)

def after (r : Reassembly) (arrivals : List Arrival) : Reassembly :=
  arrivals.foldl (fun r arrival => (r.arrive arrival).1) r

/-- The bounds are not reached: the buffer of a key is fresh, and there is a slot to open it. -/
structure Room (k : ReassemblyKey) (r : Reassembly) (arrival : Arrival) : Prop where
  fresh : r.Fresh k arrival.now
  slot : (arrival.own k).isSome → (r.expire arrival.now).1.Slot k

def Bounded (max : ℕ) (r : Reassembly) : Prop := r.Accounted ∧ r.maxRequestBytes = max

variable {max : ℕ}

theorem Bounded.arrive (h : r.Bounded max) (arrival : Arrival) :
    (r.arrive arrival).1.Bounded max := by
  cases arrival with
  | fragment => exact ⟨h.1.accept.1, (congrArg Prod.fst h.1.accept.2).trans h.2⟩
  | sweep => exact ⟨h.1.expire, maxRequestBytes_expire.trans h.2⟩

theorem Bounded.after (h : r.Bounded max) (arrivals : List Arrival) :
    (r.after arrivals).Bounded max := by
  induction arrivals generalizing r with
  | nil => exact h
  | cons arrival arrivals ih => exact ih (h.arrive arrival)

theorem newReassembly_bounded {perClient maxReassemblies idle : ℤ} :
    (newReassembly max perClient maxReassemblies idle).Bounded max := ⟨fun _ => rfl, rfl⟩

theorem answersTo_arrive (h : r.Bounded max) {traffic : List Arrival}
    (hr : Along (Room k) arrive r traffic)
    (hs : Along (Fits max) collect ((r.current k).map progress)
      ((traffic.filterMap (·.own k)).map numberedPiece)) :
    answersTo (fun arrival => (arrival.own k).isSome) arrive r traffic =
      answers collect ((r.current k).map progress)
        ((traffic.filterMap (·.own k)).map numberedPiece) := by
  rw [List.map_filterMap] at hs ⊢
  have hp : (fun arrival : Arrival => (arrival.own k).isSome) =
      fun arrival => ((arrival.own k).map numberedPiece).isSome := by
    funext arrival
    rw [Option.isSome_map]
  rw [hp]
  refine answersTo_eq_answers (v := fun r => (r.current k).map progress)
    (fun r arrival h => h.arrive arrival) ?_ ?_ h hr hs
  · intro r arrival _ hr ho
    rw [Option.map_eq_none_iff] at ho
    cases arrival with
    | fragment clientId fragment now later =>
      have hne : k ≠ ⟨clientId, fragment.requestId⟩ := by
        intro heq
        rw [Arrival.own, if_pos heq] at ho
        cases ho
      exact congrArg _ (current_accept_of_ne hne hr.fresh)
    | sweep now => exact congrArg _ (current_expire hr.fresh)
  · intro r arrival arrived h hr how hft
    obtain ⟨fragment, hf, rfl⟩ := Option.map_eq_some_iff.mp how
    have hsl := hr.slot (by rw [hf]; rfl)
    cases arrival with
    | fragment clientId sent now later =>
      rw [Arrival.own] at hf
      split at hf
      next heq =>
        subst heq
        cases hf
        exact collect_accept h.1 hr.fresh hsl (by rw [h.2]; exact hft)
      · cases hf
    | sweep => cases hf

end Reassembly

end MessageServer.Peer
