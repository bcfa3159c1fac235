import MessageServer.Peer.Isolation

/-! # What the reassembly keeps

The buffers, the slots counted for each client and the order of the beginnings
are kept in step. An expiry stops at the first buffer inside the bound, and
drops what a scan of every buffer would drop.
-/

namespace MessageServer.Peer

open Protocol Fragments

namespace Reassembly

variable {r r' : Reassembly} {key : ReassemblyKey} {now later clock : Time} {clientId : Bytes}
  {fragment : MessageServerFragment}

/-- How many buffers are open under keys of some kind. -/
def openWhere (r : Reassembly) (q : ReassemblyKey → Bool) : ℕ :=
  r.inFlight.rows.countP fun row => q row.key

structure Kept (r : Reassembly) (clock : Time) : Prop extends Timed r clock where
  buffers : ∀ k current, r.current k = some current →
    1 ≤ current.next ∧ current.next < current.count ∧ current.bytes.length ≤ r.maxRequestBytes
  perClient : ∀ clientId, r.openWhere (·.clientId = clientId) = 0 ∨
    (r.openWhere (·.clientId = clientId) : ℤ) ≤ r.perClient
  total : 0 < r.maxReassemblies → (r.openWhere (fun _ => true) : ℤ) ≤ r.maxReassemblies

variable {q : ReassemblyKey → Bool}

theorem openWhere_le (h : ∀ k, (r'.current k).isSome → (r.current k).isSome) :
    r'.openWhere q ≤ r.openWhere q := by
  apply Table.countP_le
  intro k row hr hq
  rw [find_eq_current, Option.map_eq_some_iff] at hr
  obtain ⟨current, hc, rfl⟩ := hr
  obtain ⟨old, ho⟩ := Option.isSome_iff_exists.mp (h k (Option.isSome_of_eq_some hc))
  exact ⟨⟨k, old⟩, by rw [find_eq_current, ho]; rfl, hq⟩

theorem Kept.of_fewer {clock' : Time} (h : r.Kept clock) (ht : r'.Timed clock')
    (hl : r'.limits = r.limits)
    (hf : ∀ k c, r'.current k = some c → r.current k = some c) : r'.Kept clock' := by
  obtain ⟨hm, hcl, htt, -⟩ := limits_eq hl
  have hle : ∀ q, r'.openWhere q ≤ r.openWhere q := by
    intro q
    apply openWhere_le
    intro k hk
    obtain ⟨c, hc⟩ := Option.isSome_iff_exists.mp hk
    exact Option.isSome_of_eq_some (hf k c hc)
  refine ⟨ht, fun k c hc => hm ▸ h.buffers k c (hf k c hc), ?_, fun hp => ?_⟩
  · intro clientId
    rcases h.perClient clientId with hn | hs
    · exact .inl (Nat.le_zero.mp (hn ▸ hle _))
    · exact .inr (hcl ▸ Int.le_trans (Int.ofNat_le.mpr (hle _)) hs)
  · rw [htt] at hp ⊢
    exact Int.le_trans (Int.ofNat_le.mpr (hle _)) (h.total hp)

theorem current_of_live {k : ReassemblyKey} {c : Partial} (h : r.live now k = some c) :
    r.current k = some c := by
  unfold live at h
  split at h
  · exact h
  · exact (Option.filter_eq_some_iff.mp h).1

theorem Kept.expire (h : r.Kept clock) : (r.expire now).1.Kept clock :=
  h.of_fewer h.toTimed.expire.1 limits_expire fun k _ hc =>
    current_of_live (h.toTimed.expire.2 k ▸ hc)

theorem grown_bounds {current : Option Partial} {max : ℕ}
    (hin : ¬ (numberedPiece fragment).OutOfOrder (current.map Partial.progress))
    (hs : current.elim 0 (·.bytes.length) + fragment.part.length ≤ max) :
    1 ≤ (grown current fragment later).next ∧
      (grown current fragment later).bytes.length ≤ max := by
  have hn : (grown current fragment later).next.toNat = _ :=
    congrArg Progress.next (progress_grown hin)
  cases current with
  | none =>
    rw [Option.elim_none, Nat.zero_add] at hs
    simpa [grown] using hs
  | some current =>
    constructor
    · rw [UInt32.le_iff_toNat_le, hn]
      exact Nat.le_add_left 1 _
    · rw [grown, Option.getD_some, List.length_append]
      exact hs

theorem openWhere_holding {bound : ℤ} {current : Partial}
    (hr : r.current key = none → q key = true → (r.openWhere q : ℤ) < bound)
    (h : r.openWhere q = 0 ∨ (r.openWhere q : ℤ) ≤ bound) :
    (r.holding key current).openWhere q = 0 ∨
      ((r.holding key current).openWhere q : ℤ) ≤ bound := by
  have hs : (r.holding key current).openWhere q ≤ r.openWhere q →
      (r.holding key current).openWhere q = 0 ∨
        ((r.holding key current).openWhere q : ℤ) ≤ bound := by
    intro hle
    rcases h with h | h
    · exact .inl (Nat.le_zero.mp (h ▸ hle))
    · exact .inr (Int.le_trans (Int.ofNat_le.mpr hle) h)
  cases hc : r.current key with
  | none =>
    have hcn : (r.holding key current).openWhere q = r.openWhere q + if q key then 1 else 0 := by
      rw [holding, hc, Option.isNone_none, if_pos rfl, openWhere, start_rows hc,
        List.countP_append, List.countP_singleton]
      rfl
    by_cases hq : q key = true
    · rw [if_pos hq] at hcn
      rw [hcn]
      exact .inr (hr hc hq)
    · rw [if_neg hq] at hcn
      exact hs (Nat.le_of_eq hcn)
  | some old =>
    refine hs (openWhere_le fun k hk => ?_)
    rw [current_holding] at hk
    split at hk
    next heq => rw [heq, hc]; rfl
    · exact hk

theorem Kept.holding_grown (h : r.Kept clock) (hcc : clock ≤ later)
    (hk : key = ⟨clientId, fragment.requestId⟩)
    (hok : firstRefusal (r.stateOf clientId fragment) reassemblyAborts = .ok)
    (hm : (grown (r.current key) fragment later).next <
      (grown (r.current key) fragment later).count) :
    (r.holding key (grown (r.current key) fragment later)).Kept later := by
  obtain ⟨hin, hs, hsz⟩ := firstRefusal_aborts.mp hok
  have hl : (r.holding key (grown (r.current key) fragment later)).limits = r.limits :=
    limits_holding
  obtain ⟨hmx, hcl, ht, -⟩ := limits_eq hl
  subst hk
  refine ⟨h.toTimed.holding_grown hcc, ?_, ?_, ?_⟩
  · intro k current hc
    rw [current_holding] at hc
    rw [hmx]
    split at hc
    · cases hc
      have hb : 1 ≤ (grown (r.current _) fragment later).next ∧ _ := grown_bounds hin hsz
      exact ⟨hb.1, hm, hb.2⟩
    · exact h.buffers k current hc
  · intro client
    rw [hcl]
    refine openWhere_holding (fun hn hq => ?_) (h.perClient client)
    obtain rfl : clientId = client := by simpa using hq
    have hr := (hs hn).1
    rwa [stateOf, h.accounted, getD_tally] at hr
  · intro hp
    rw [ht] at hp ⊢
    have ha : r.openWhere (fun _ => true) = r.inFlight.rows.length := congrFun List.countP_true _
    refine (openWhere_holding (fun hn _ => ?_) (.inr (h.total hp))).elim (fun hz => ?_) id
    · rw [ha]
      exact (hs hn).2 hp
    · rw [hz]
      exact Int.le_of_lt hp

theorem Kept.accept (h : r.Kept clock) (hn : clock ≤ now) (hl : now ≤ later) :
    (r.accept clientId fragment now later).1.Kept later := by
  have ht : (r.accept clientId fragment now later).1.Timed later := h.toTimed.accept hn hl
  have hcl : clock ≤ later := Int.le_trans hn hl
  by_cases hok : firstRefusal ((r.expire now).1.stateOf clientId fragment) reassemblyAborts = .ok
  · rw [accept_taken hok] at ht ⊢
    dsimp only at ht ⊢
    split at ht
    next hm =>
      rw [if_pos hm]
      exact h.expire.holding_grown hcl rfl hok hm
    next hls =>
      rw [if_neg hls]
      refine h.expire.of_fewer ht (limits_drop.trans limits_holding) fun k c hc => ?_
      obtain ⟨hne, hh⟩ := current_of_drop hc
      rwa [current_holding, if_neg hne] at hh
  · rw [accept_refused hok] at ht ⊢
    exact h.expire.of_fewer ht limits_drop fun _ _ hc => (current_of_drop hc).2

theorem newReassembly_kept (maxRequestBytes : ℕ) (perClient maxReassemblies idle : ℤ)
    (clock : Time) : (newReassembly maxRequestBytes perClient maxReassemblies idle).Kept clock where
  toTimed := newReassembly_timed maxRequestBytes perClient maxReassemblies idle clock
  buffers := by
    rintro k c ⟨⟩
  perClient _ := .inl rfl
  total := Int.le_of_lt

theorem Kept.after {history : List Arrival} (h : r.Kept clock) (hc : NonDecreasing history)
    (hp : ∀ time ∈ history.flatMap Arrival.readings, clock ≤ time) :
    ∃ clock, (r.after history).Kept clock := by
  induction history generalizing r clock with
  | nil => exact ⟨clock, h⟩
  | cons arrival history ih =>
    obtain ⟨hpr, hr, hn⟩ := hc.cons
    cases arrival with
    | fragment sender fragment now later =>
      have hnw : clock ≤ now := hp now (by simp [Arrival.readings])
      have hl : now ≤ later := by simpa [Arrival.readings] using hpr
      exact ih (h.accept hnw hl) hr (hn later (by simp [Arrival.readings]))
    | sweep now =>
      have hnw : clock ≤ now := hp now (by simp [Arrival.readings])
      exact ih h.expire hr fun time ht =>
        Int.le_trans hnw (hn now (by simp [Arrival.readings]) time ht)

theorem Kept.aborted (h : r.Kept clock)
    (ha : (r.accept clientId fragment now later).2.reason ≠ .ok) :
    (r.accept clientId fragment now later).1 =
        (r.expire now).1.drop ⟨clientId, fragment.requestId⟩ ∧
      ∀ k, (r.accept clientId fragment now later).1.current k =
        if k = ⟨clientId, fragment.requestId⟩ then none else r.live now k := by
  have hr : firstRefusal ((r.expire now).1.stateOf clientId fragment) reassemblyAborts ≠ .ok := by
    intro hok
    rw [accept_taken hok] at ha
    dsimp only at ha
    split at ha <;> exact ha rfl
  rw [accept_refused hr]
  refine ⟨rfl, fun k => ?_⟩
  rw [current_drop, h.toTimed.expire.2 k]

end Reassembly

theorem kept_of_history (maxRequestBytes : ℕ) (perClient maxReassemblies idle : ℤ)
    {history : List Arrival} (hc : NonDecreasing history) :
    ∃ clock, ((newReassembly maxRequestBytes perClient maxReassemblies idle).after
      history).Kept clock := by
  obtain ⟨first, hf⟩ := exists_first hc
  exact (Reassembly.newReassembly_kept _ _ _ _ first).after hc hf

/-- In every history the structures of the reassembly are in step and within the bounds. -/
theorem reassembly_in_step (maxRequestBytes : ℕ) (perClient maxReassemblies idle : ℤ)
    (history : List Arrival) (hclock : NonDecreasing history) :
    (∃ clock, ((newReassembly maxRequestBytes perClient maxReassemblies idle).after
      history).Kept clock) ∧
    ∀ r, r = (newReassembly maxRequestBytes perClient maxReassemblies idle).after history →
      ∀ clientId fragment now later, (r.accept clientId fragment now later).2.reason ≠ .ok →
        (r.accept clientId fragment now later).1 =
            (r.expire now).1.drop ⟨clientId, fragment.requestId⟩ ∧
          ∀ k, (r.accept clientId fragment now later).1.current k =
            if k = ⟨clientId, fragment.requestId⟩ then none else r.live now k := by
  obtain ⟨clock, hk⟩ := kept_of_history maxRequestBytes perClient maxReassemblies idle hclock
  refine ⟨⟨clock, hk⟩, ?_⟩
  rintro r rfl clientId fragment now later ha
  exact hk.aborted ha

open Sample

theorem reassembly_in_step_busy : (∃ clock, (small.after busy).Kept clock) ∧
      ((small.after busy).accept [1] ⟨9, 1, 2, []⟩ 9 9).2.reason = .rejected ∧
      ∀ k, ((small.after busy).accept [1] ⟨9, 1, 2, []⟩ 9 9).1.current k =
        if k = ⟨[1], 9⟩ then none else (small.after busy).live 9 k := by
  have hc : NonDecreasing busy := by
    unfold NonDecreasing
    decide
  obtain ⟨hk, ha⟩ := reassembly_in_step 4 2 8 10 busy hc
  exact ⟨hk, by decide, (ha _ rfl [1] ⟨9, 1, 2, []⟩ 9 9 (by decide)).2⟩

namespace Reassembly

variable {r : Reassembly} {clock now : Time}

/-- The buffers that a scan of every buffer keeps. -/
def scan (r : Reassembly) (now : Time) : Table InFlight.key :=
  r.inFlight.filter fun row => !decide (row.buffer.started < now - r.idle)

theorem Accounted.limits_after (h : r.Accounted) (history : List Arrival) :
    (r.after history).limits = r.limits := by
  induction history generalizing r with
  | nil => rfl
  | cons arrival history ih =>
    cases arrival with
    | fragment => exact (ih h.accept.1).trans h.accept.2
    | sweep => exact (ih h.expire).trans limits_expire

variable {key : ReassemblyKey}

theorem length_drop (h : (r.current key).isSome) :
    (r.drop key).inFlight.rows.length + 1 = r.inFlight.rows.length := by
  obtain ⟨row, hr⟩ := Option.isSome_iff_exists.mp (Option.isSome_map.symm.trans h)
  have hc := Table.countP_without hr fun _ => true
  rw [List.countP_true, if_pos rfl] at hc
  rw [drop, hr]
  exact hc.symm

theorem examined_drop : (r.drop key).examined = r.examined := by
  unfold drop
  split <;> rfl

theorem expireFrom_counts {deadline : Time} {order : List ReassemblyKey}
    (h : r.Timed clock) (ho : r.order = order) :
    (expireFrom deadline order r).1.inFlight.rows.length + (expireFrom deadline order r).2 =
        r.inFlight.rows.length ∧
      (expireFrom deadline order r).1.examined ≤
        r.examined + (expireFrom deadline order r).2 + 1 := by
  induction order generalizing r with
  | nil => exact ⟨rfl, Nat.le_succ _⟩
  | cons key order ih =>
    obtain ⟨⟨first, hc⟩, hd⟩ := h.front ho
    unfold Reassembly.expireFrom
    rw [hc]
    dsimp only
    split
    · exact ⟨rfl, Nat.le_refl _⟩
    · obtain ⟨hln, he⟩ := ih h.look.drop hd
      have hon : (r.look.drop key).inFlight.rows.length + 1 = r.inFlight.rows.length :=
        length_drop (r := r.look) (Option.isSome_of_eq_some hc)
      have hl : (r.look.drop key).examined = r.examined + 1 := examined_drop
      rw [hl] at he
      dsimp only
      omega

end Reassembly

/--
An expiry keeps what a scan of every buffer would keep, where a bound is set, and looks at one more
than it drops.
-/
theorem expiry_is_scan (maxRequestBytes : ℕ) (perClient maxReassemblies idle : ℤ)
    (history : List Arrival) (hclock : NonDecreasing history) (now : Time) (r : Reassembly)
    (hr : r = (newReassembly maxRequestBytes perClient maxReassemblies idle).after history) :
    (idle ≠ 0 → ∀ k, (r.expire now).1.inFlight.find k = (r.scan now).find k) ∧
      (idle = 0 → (r.expire now).1 = r) ∧
      (r.expire now).1.inFlight.rows.length + (r.expire now).2 = r.inFlight.rows.length ∧
      (r.expire now).1.examined ≤ r.examined + (r.expire now).2 + 1 := by
  obtain ⟨clock, hk⟩ := kept_of_history maxRequestBytes perClient maxReassemblies idle hclock
  have ha : (newReassembly maxRequestBytes perClient maxReassemblies idle).Accounted := fun _ => rfl
  have hi : r.idle = idle := by
    rw [hr]
    exact (Reassembly.limits_eq (ha.limits_after history)).2.2.2
  rw [← hr] at hk
  refine ⟨fun h0 k => ?_, fun h0 => ?_, ?_⟩
  · rw [Reassembly.find_eq_current, hk.toTimed.expire.2 k, Reassembly.live, if_neg (hi ▸ h0),
      Reassembly.scan, Table.find_filter, Reassembly.find_eq_current]
    cases r.current k with
    | none => rfl
    | some c => simp [Option.filter, Partial.fresh, apply_ite (Option.map (InFlight.mk k))]
  · rw [Reassembly.expire, if_pos (hi.trans h0)]
  · unfold Reassembly.expire
    split
    · exact ⟨rfl, Nat.le_succ _⟩
    · exact Reassembly.expireFrom_counts hk.toTimed rfl

theorem expiry_is_scan_busy :
    (∀ k, ((small.after busy).expire 20).1.inFlight.find k = ((small.after busy).scan 20).find k) ∧
      ((small.after busy).expire 20).1.examined ≤
        (small.after busy).examined + ((small.after busy).expire 20).2 + 1 := by
  have hc : NonDecreasing busy := by
    unfold NonDecreasing
    decide
  obtain ⟨hs, -, -, he⟩ := expiry_is_scan 4 2 8 10 busy hc 20 _ rfl
  exact ⟨hs (by decide), he⟩

end MessageServer.Peer
