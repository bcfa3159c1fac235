import MessageServer.Api.RendezvousWorld

/-! # Claims on rendezvous subscriptions

A Collect that subscribes claims a subscription and settles the claim when its
write has answered. A ledger keeps the claims that are not settled: the registry
counts them, and ends a subscription with its last claim if no write took.
-/

namespace MessageServer.Api

open Runs

/-- A claim of a Collect: the key it settles under, and the subscription it was handed. -/
structure SubscriptionClaim where
  key : RendezvousKey
  serial : ℕ
  deriving DecidableEq

structure Ledger where
  unsettled : List SubscriptionClaim
  settled : List (SubscriptionClaim × Bool)

namespace Ledger

def empty : Ledger := ⟨[], []⟩

def hand (key : RendezvousKey) : Except RendezvousError (Option ℕ × Bool) → Ledger → Ledger
  | .ok (some serial, _), ledger => { ledger with unsettled := ⟨key, serial⟩ :: ledger.unsettled }
  | _, ledger => ledger

/-- Note that a claim is settled, with the answer of its write. -/
def settle (claim : SubscriptionClaim) (taken : Bool) (ledger : Ledger) : Ledger where
  unsettled := ledger.unsettled.erase claim
  settled := (claim, taken) :: ledger.settled

def note (s : Registry) (event : Event) (ledger : Ledger) : Ledger :=
  match event with
  | .subscribeRendezvous conn rendezvousId expireTime now =>
    ledger.hand ⟨connectionKeyOf conn, rendezvousId⟩
      (s.rendezvous.subscribeRendezvous conn rendezvousId expireTime now).2
  | .settleRendezvous conn rendezvousId claimed taken =>
    ledger.settle ⟨⟨connectionKeyOf conn, rendezvousId⟩, claimed⟩ taken
  | _ => ledger

def Allows (ledger : Ledger) : Event → Prop
  | .settleRendezvous conn rendezvousId claimed _ =>
    ⟨⟨connectionKeyOf conn, rendezvousId⟩, claimed⟩ ∈ ledger.unsettled
  | _ => True

def along (σ : ℕ → Registry) (e : ℕ → Event) : ℕ → Ledger
  | 0 => empty
  | n + 1 => (along σ e n).note (σ n) (e n)

structure Balances (ledger : Ledger) (registry : RendezvousSubscriptions) : Prop where
  serials : registry.SerialsBelow
  claims : ∀ key t sub, registry.entry key = some (t, sub) →
    sub.claims = ledger.unsettled.count ⟨key, sub.serial⟩
  kept : ∀ key t sub, registry.entry key = some (t, sub) →
    (sub.kept = true ↔ (⟨key, sub.serial⟩, true) ∈ ledger.settled)
  unsettled : ∀ claim ∈ ledger.unsettled, claim.serial < registry.nextSerial
  settled : ∀ outcome ∈ ledger.settled, outcome.1.serial < registry.nextSerial

variable {ledger : Ledger} {registry next : RendezvousSubscriptions} {conn : Connection}
  {rendezvousId : Bytes} {expireTime now : Time} {claimed : ℕ} {taken : Bool}

theorem Balances.of_le (h : ledger.Balances registry) (hs : registry.nextSerial ≤ next.nextSerial)
    (he : ∀ key t sub, next.entry key = some (t, sub) → ∃ sub', registry.entry key =
      some (t, sub') ∧ sub'.serial = sub.serial ∧ sub'.claims = sub.claims ∧
        sub'.kept = sub.kept) : ledger.Balances next := by
  constructor
  · apply h.serials.step hs
    intro key t sub hsb
    obtain ⟨sub', hs', heq, -⟩ := he key t sub hsb
    exact .inr ⟨sub', hs', heq⟩
  · intro key t sub hsb
    obtain ⟨sub', hs', heq, hc, -⟩ := he key t sub hsb
    rw [← heq, ← hc]
    exact h.claims key t sub' hs'
  · intro key t sub hsb
    obtain ⟨sub', hs', heq, -, hk⟩ := he key t sub hsb
    rw [← heq, ← hk]
    exact h.kept key t sub' hs'
  · intro claim hcl
    exact Nat.lt_of_lt_of_le (h.unsettled claim hcl) hs
  · intro outcome ho
    exact Nat.lt_of_lt_of_le (h.settled outcome ho) hs

theorem Balances.ends {P : RendezvousKey → Time → Prop} (h : ledger.Balances registry)
    (he : ∀ key, next.nextSerial = registry.nextSerial ∧
      RendezvousSubscriptions.Ends (P key) registry next key) : ledger.Balances next := by
  apply h.of_le (he ⟨[], []⟩).1.ge
  intro key t sub hs
  exact ⟨sub, (he key).2.entry_le hs, rfl, rfl, rfl⟩

theorem Balances.deposited (h : ledger.Balances registry) (pending : ℕ) :
    ledger.Balances (registry.depositedRendezvous rendezvousId pending now).1 := by
  have ha := fun key => registry.depositedRendezvous_deposited key rendezvousId pending now
  apply h.of_le (ha ⟨[], []⟩).1.ge
  intro key t sub hs
  cases (ha key).2 with
  | ends hen => exact ⟨sub, hen.entry_le hs, rfl, rfl, rfl⟩
  | owed _ sub' _ hs' he =>
    cases hs.symm.trans he
    exact ⟨sub', hs', rfl, rfl, rfl⟩

variable {key : RendezvousKey} {sub : RendezvousSubscription} {t : Time}

theorem hand_of_none {answer : Except RendezvousError (Option ℕ × Bool)}
    (ha : ∀ serial added, answer ≠ .ok (some serial, added)) : ledger.hand key answer = ledger := by
  unfold hand
  split
  next serial added => exact (ha serial added rfl).elim
  · rfl

theorem subscribed_of_ne (hk : key ≠ ⟨connectionKeyOf conn, rendezvousId⟩)
    (hs : (registry.subscribeRendezvous conn rendezvousId expireTime now).1.entry key =
      some (t, sub)) : registry.entry key = some (t, sub) := by
  cases registry.subscribeRendezvous_subscribed key conn rendezvousId expireTime now with
  | ends he => exact he.entry_le hs
  | claimed _ heq => exact (hk heq).elim
  | made heq => exact (hk heq).elim

theorem Balances.handed (h : ledger.Balances registry) (hs : next.SerialsBelow)
    (hsr : registry.nextSerial ≤ next.nextSerial) (hn : next.entry key = some (t, sub))
    (ho : ∀ key' t sub, key' ≠ key → next.entry key' = some (t, sub) →
      registry.entry key' = some (t, sub))
    (hcl : sub.claims = ledger.unsettled.count ⟨key, sub.serial⟩ + 1)
    (hk : sub.kept = true ↔ (⟨key, sub.serial⟩, true) ∈ ledger.settled) :
    Balances { ledger with unsettled := ⟨key, sub.serial⟩ :: ledger.unsettled } next := by
  have hsm : ∀ {t' : Time} {sub' : RendezvousSubscription},
      next.entry key = some (t', sub') → sub' = sub := by
    intro t' sub' hs'
    exact (Prod.mk.inj (Option.some.inj (hs'.symm.trans hn))).2
  refine ⟨hs, ?_, ?_, ?_, ?_⟩
  · intro key' t' sub' hs'
    by_cases hky : key' = key
    · subst hky
      obtain rfl := hsm hs'
      rw [hcl, List.count_cons_self]
      exact (Nat.cast_succ _).symm
    · have hne : (⟨key, sub.serial⟩ : SubscriptionClaim) ≠ ⟨key', sub'.serial⟩ := fun heq =>
        hky (SubscriptionClaim.mk.inj heq).1.symm
      rw [List.count_cons_of_ne hne]
      exact h.claims key' t' sub' (ho key' t' sub' hky hs')
  · intro key' t' sub' hs'
    by_cases hky : key' = key
    · subst hky
      obtain rfl := hsm hs'
      exact hk
    · exact h.kept key' t' sub' (ho key' t' sub' hky hs')
  · intro claim hc
    obtain rfl | hc := List.mem_cons.mp hc
    · exact hs key t sub hn
    · exact Nat.lt_of_lt_of_le (h.unsettled claim hc) hsr
  · intro outcome hot
    exact Nat.lt_of_lt_of_le (h.settled outcome hot) hsr

theorem Balances.subscribe (h : ledger.Balances registry) :
    (ledger.hand ⟨connectionKeyOf conn, rendezvousId⟩
      (registry.subscribeRendezvous conn rendezvousId expireTime now).2).Balances
      (registry.subscribeRendezvous conn rendezvousId expireTime now).1 := by
  have hsr := h.serials.subscribe conn rendezvousId expireTime now
  have ho : ∀ (key : RendezvousKey) (t : Time) (sub : RendezvousSubscription),
      key ≠ ⟨connectionKeyOf conn, rendezvousId⟩ →
      (registry.subscribeRendezvous conn rendezvousId expireTime now).1.entry key =
        some (t, sub) → registry.entry key = some (t, sub) :=
    fun _ _ _ hne hsb => subscribed_of_ne hne hsb
  cases registry.subscribeRendezvous_subscribed ⟨connectionKeyOf conn, rendezvousId⟩ conn
    rendezvousId expireTime now with
  | ends hen hs ha =>
    rw [hand_of_none (ha rfl)]
    apply h.of_le hs
    intro key t sub hsb
    by_cases hky : key = ⟨connectionKeyOf conn, rendezvousId⟩
    · subst hky
      exact ⟨sub, hen.entry_le hsb, rfl, rfl, rfl⟩
    · exact ⟨sub, ho key t sub hky hsb, rfl, rfl, rfl⟩
  | claimed sub _ hsb he _ hs ha =>
    rw [ha]
    have hc : sub.claim.claims = ledger.unsettled.count
        ⟨⟨connectionKeyOf conn, rendezvousId⟩, sub.claim.serial⟩ + 1 :=
      congrArg (· + 1) (h.claims _ _ sub hsb)
    have hb := h.handed hsr hs.le he ho hc (h.kept _ _ sub hsb)
    exact hb
  | made _ _ he _ hs ha =>
    rw [ha]
    refine h.handed hsr (hs ▸ Nat.le_succ _) he ho ?_ ?_
    · have hn := List.count_eq_zero_of_not_mem fun hm => Nat.lt_irrefl _
        (h.unsettled ⟨⟨connectionKeyOf conn, rendezvousId⟩, registry.nextSerial⟩ hm)
      exact congrArg (fun n : ℕ => (n : ℤ) + 1) hn.symm
    · exact ⟨fun hk => (Bool.false_ne_true hk).elim,
        fun hm => (Nat.lt_irrefl _ (h.settled _ hm)).elim⟩

theorem Balances.settle (h : ledger.Balances registry)
    (hcl : ⟨⟨connectionKeyOf conn, rendezvousId⟩, claimed⟩ ∈ ledger.unsettled) :
    (ledger.settle ⟨⟨connectionKeyOf conn, rendezvousId⟩, claimed⟩ taken).Balances
      (registry.settleRendezvous conn rendezvousId claimed taken) := by
  have ha := fun key => registry.settleRendezvous_settled key conn rendezvousId claimed taken
  have hs := (ha ⟨[], []⟩).1
  refine ⟨h.serials.settle conn rendezvousId claimed taken, ?_, ?_, ?_, ?_⟩
  · intro key t sub hsb
    cases (ha key).2 with
    | same he _ ho =>
      rw [he] at hsb
      have hne : (⟨key, sub.serial⟩ : SubscriptionClaim) ≠
          ⟨⟨connectionKeyOf conn, rendezvousId⟩, claimed⟩ := by
        intro heq
        obtain ⟨hk, hs⟩ := SubscriptionClaim.mk.inj heq
        exact ho hk t sub hsb hs
      rw [Ledger.settle, List.count_erase_of_ne hne]
      exact h.claims key t sub hsb
    | settled _ sub' hk hsb' hc he =>
      cases hsb.symm.trans he
      subst hk hc
      have hp := List.count_pos_iff.mpr hcl
      have her := List.count_erase_self (a := (⟨⟨connectionKeyOf conn, rendezvousId⟩,
        sub'.serial⟩ : SubscriptionClaim)) (l := ledger.unsettled)
      have hcm := h.claims _ _ sub' hsb'
      change sub'.claims - 1 = ((ledger.unsettled.erase ⟨⟨connectionKeyOf conn, rendezvousId⟩,
        sub'.serial⟩).count ⟨⟨connectionKeyOf conn, rendezvousId⟩, sub'.serial⟩ : ℤ)
      omega
    | removed _ _ _ _ _ _ _ _ he =>
      rw [he] at hsb
      cases hsb
  · intro key t sub hsb
    rw [Ledger.settle, List.mem_cons]
    cases (ha key).2 with
    | same he _ ho =>
      rw [he] at hsb
      rw [h.kept key t sub hsb, Prod.mk.injEq, or_iff_right]
      rintro ⟨heq, -⟩
      obtain ⟨hk, hs⟩ := SubscriptionClaim.mk.inj heq
      exact ho hk t sub hsb hs
    | settled _ sub' hk hsb' hc he =>
      cases hsb.symm.trans he
      subst hk hc
      change (taken || sub'.kept) = true ↔ _
      rw [Bool.or_eq_true, h.kept _ _ sub' hsb', Prod.mk.injEq]
      exact or_congr_left ⟨fun ht => ⟨rfl, ht.symm⟩, fun heq => heq.2.symm⟩
    | removed _ _ _ _ _ _ _ _ he =>
      rw [he] at hsb
      cases hsb
  · intro claim hm
    rw [hs]
    exact h.unsettled claim (List.mem_of_mem_erase hm)
  · intro outcome hm
    rw [hs]
    obtain rfl | hm := List.mem_cons.mp hm
    · exact h.unsettled _ hcl
    · exact h.settled outcome hm

/-- Every event of the registry keeps the balance. -/
theorem Balances.step {s s' : Registry} {event : Event} (h : ledger.Balances s.rendezvous)
    (hs : Registry.Step s event s') (ha : ledger.Allows event) :
    (ledger.note s event).Balances s'.rendezvous := by
  by_cases hb : event.Background
  · obtain ⟨hsr, he⟩ := hs.background hb
    have hnt : ledger.note s event = ledger := by
      cases event <;> first | rfl | exact hb.elim
    rw [hnt]
    apply h.of_le hsr.ge
    intro key t sub hsb
    obtain hsm | ⟨hn, -⟩ := he key
    · exact ⟨sub, hsm ▸ hsb, rfl, rfl, rfl⟩
    · rw [hn] at hsb
      cases hsb
  · cases hs with
    | subscribeRendezvous conn rendezvousId expireTime now => exact h.subscribe
    | settleRendezvous conn rendezvousId claimed taken => exact h.settle ha
    | depositedRendezvous rendezvousId pending now => exact h.deposited pending
    | retiredRendezvous rendezvousId =>
      exact h.ends fun key => s.rendezvous.retiredRendezvous_ends key rendezvousId
    | _ => exact (hb trivial).elim

theorem balances_along {σ : ℕ → Registry} {e : ℕ → Event} {n maxPerConnection : ℕ}
    (hs : (σ 0).rendezvous = .empty maxPerConnection) (hp : Path Registry.Step σ e n)
    (ha : ∀ k < n, (along σ e k).Allows (e k)) : (along σ e n).Balances (σ n).rendezvous := by
  induction n with
  | zero =>
    rw [hs]
    refine ⟨?_, ?_, ?_, nofun, nofun⟩
    · rintro key t sub ⟨⟩
    · rintro key t sub ⟨⟩
    · rintro key t sub ⟨⟩
  | succ n ih =>
    have hb := ih (hp.mono n.le_succ) fun k hk => ha k (Nat.lt_succ_of_lt hk)
    exact hb.step (hp n n.lt_succ_self) (ha n n.lt_succ_self)

end Ledger

namespace RendezvousSubscriptions

variable {registry : RendezvousSubscriptions} {sub : RendezvousSubscription} {key : RendezvousKey}

theorem entry_of_standing (h : registry.standing key = some sub) :
    ∃ t, registry.entry key = some (t, sub) := by
  rw [standing_eq] at h
  obtain ⟨⟨t, _⟩, he, rfl⟩ := Option.map_eq_some_iff.mp h
  exact ⟨t, he⟩

theorem standing_congr {next : RendezvousSubscriptions}
    (h : next.entry key = registry.entry key) : next.standing key = registry.standing key := by
  rw [standing_eq, standing_eq, h]

variable {rendezvousId : Bytes} {conn : Connection} {taken : Bool}

theorem settle_last (hs : registry.standing ⟨connectionKeyOf conn, rendezvousId⟩ = some sub)
    (hk : sub.kept = false) (hc : sub.claims = 1) :
    (registry.settleRendezvous conn rendezvousId sub.serial false).entry
      ⟨connectionKeyOf conn, rendezvousId⟩ = none := by
  obtain ⟨record, hb, hf⟩ := Option.bind_eq_some_iff.mp hs
  have hl : (!false && !sub.kept && decide (sub.claims - 1 = 0)) = true := by
    rw [hk, hc]
    rfl
  unfold settleRendezvous
  rw [hb]
  dsimp only
  rw [hf]
  dsimp only
  rw [if_neg (not_not.mpr rfl), if_pos hl]
  exact (remove_spec _ ⟨connectionKeyOf conn, rendezvousId⟩ rendezvousId
    (connectionKeyOf conn)).2.1.trans (if_pos rfl)

theorem settle_ends_iff {ledger : Ledger} (h : ledger.Balances registry)
    (hsb : registry.standing ⟨connectionKeyOf conn, rendezvousId⟩ = some sub) :
    (registry.settleRendezvous conn rendezvousId sub.serial taken).standing
        ⟨connectionKeyOf conn, rendezvousId⟩ = none ↔
      ledger.unsettled.count ⟨⟨connectionKeyOf conn, rendezvousId⟩, sub.serial⟩ = 1 ∧
        taken = false ∧
        (⟨⟨connectionKeyOf conn, rendezvousId⟩, sub.serial⟩, true) ∉ ledger.settled := by
  obtain ⟨t, he⟩ := entry_of_standing hsb
  have hc := h.claims _ t sub he
  rw [← h.kept _ t sub he, Bool.not_eq_true]
  constructor
  · intro hn
    cases (registry.settleRendezvous_settled ⟨connectionKeyOf conn, rendezvousId⟩ conn
      rendezvousId sub.serial taken).2 with
    | same hsm =>
      rw [standing_congr hsm, hsb] at hn
      cases hn
    | settled _ _ _ _ _ hs =>
      rw [standing_eq, hs] at hn
      cases hn
    | removed _ sub' _ hsb' _ ht hk hl =>
      cases he.symm.trans hsb'
      exact ⟨by omega, ht, hk⟩
  · rintro ⟨hcn, rfl, hk⟩
    rw [standing_eq, settle_last hsb hk (by omega)]
    rfl

theorem settle_of_ne {claimed : ℕ} (hsb : registry.standing key = some sub)
    (hne : ¬ (key = ⟨connectionKeyOf conn, rendezvousId⟩ ∧ sub.serial = claimed)) :
    (registry.settleRendezvous conn rendezvousId claimed taken).standing key = some sub := by
  obtain ⟨t, he⟩ := entry_of_standing hsb
  cases (registry.settleRendezvous_settled key conn rendezvousId claimed taken).2 with
  | same hsm => rw [standing_congr hsm, hsb]
  | settled _ sub' hk hs' hs | removed _ sub' hk hs' hs =>
    cases he.symm.trans hs'
    exact (hne ⟨hk, hs⟩).elim

end RendezvousSubscriptions

/--
Where each claim is settled at most once, a subscription counts those on it that are not, and ends
with the last of them exactly when no write took.
-/
theorem settlement_spares_kept {σ : ℕ → Registry} {e : ℕ → Event} {n maxPerConnection : ℕ}
    (hstart : (σ 0).rendezvous = .empty maxPerConnection) (hpath : Path Registry.Step σ e n)
    (hallows : ∀ k < n, (Ledger.along σ e k).Allows (e k)) :
    (∀ k ≤ n, ∀ key sub, (σ k).rendezvous.standing key = some sub →
      sub.claims = (Ledger.along σ e k).unsettled.count ⟨key, sub.serial⟩) ∧
    ∀ k < n, ∀ conn rendezvousId claimed taken,
      e k = .settleRendezvous conn rendezvousId claimed taken →
      (∀ sub, (σ k).rendezvous.standing ⟨connectionKeyOf conn, rendezvousId⟩ = some sub →
        sub.serial = claimed →
        ((σ (k + 1)).rendezvous.standing ⟨connectionKeyOf conn, rendezvousId⟩ = none ↔
          (Ledger.along σ e k).unsettled.count
              ⟨⟨connectionKeyOf conn, rendezvousId⟩, claimed⟩ = 1 ∧ taken = false ∧
            (⟨⟨connectionKeyOf conn, rendezvousId⟩, claimed⟩, true) ∉
              (Ledger.along σ e k).settled)) ∧
      ∀ key sub, (σ k).rendezvous.standing key = some sub →
        ¬ (key = ⟨connectionKeyOf conn, rendezvousId⟩ ∧ sub.serial = claimed) →
        (σ (k + 1)).rendezvous.standing key = some sub := by
  have hb : ∀ k ≤ n, (Ledger.along σ e k).Balances (σ k).rendezvous := fun k hk =>
    Ledger.balances_along hstart (hpath.mono hk) fun j hj => hallows j (Nat.lt_of_lt_of_le hj hk)
  constructor
  · intro k hk key sub hsb
    obtain ⟨t, he⟩ := RendezvousSubscriptions.entry_of_standing hsb
    exact (hb k hk).claims key t sub he
  · intro k hk conn rendezvousId claimed taken hev
    have hn : (σ (k + 1)).rendezvous =
        (σ k).rendezvous.settleRendezvous conn rendezvousId claimed taken := by
      have hs := hpath k hk
      rw [hev] at hs
      generalize σ (k + 1) = s' at hs
      cases hs
      rfl
    rw [hn]
    constructor
    · rintro sub hsb rfl
      exact RendezvousSubscriptions.settle_ends_iff (hb k hk.le) hsb
    · intro key sub hsb hne
      exact RendezvousSubscriptions.settle_of_ne hsb hne

namespace Sample

def claimant : Connection := ⟨[1], [2]⟩

def claimEvents (k : ℕ) : Event :=
  if k < 2 then .subscribeRendezvous claimant [9] 1000 0
  else .settleRendezvous claimant [9] 0 (decide (k = 2))

def claimStates : ℕ → Registry
  | 0 => Registry.empty 8 8
  | k + 1 => { claimStates k with
      rendezvous :=
        if k < 2 then ((claimStates k).rendezvous.subscribeRendezvous claimant [9] 1000 0).1
        else (claimStates k).rendezvous.settleRendezvous claimant [9] 0 (decide (k = 2)) }

theorem claimStates_path (n : ℕ) : Path Registry.Step claimStates claimEvents n := by
  intro k _
  by_cases hk : k < 2
  · rw [claimEvents, claimStates, if_pos hk, if_pos hk]
    exact .subscribeRendezvous (claimStates k) claimant [9] 1000 0
  · rw [claimEvents, claimStates, if_neg hk, if_neg hk]
    exact .settleRendezvous (claimStates k) claimant [9] 0 (decide (k = 2))

theorem claimStates_allows : ∀ k < 4, (Ledger.along claimStates claimEvents k).Allows
    (claimEvents k)
  | 0, _ => trivial
  | 1, _ => trivial
  | 2, _ => by
    show (⟨⟨connectionKeyOf claimant, [9]⟩, 0⟩ : SubscriptionClaim) ∈
      (Ledger.along claimStates claimEvents 2).unsettled
    decide
  | 3, _ => by
    show (⟨⟨connectionKeyOf claimant, [9]⟩, 0⟩ : SubscriptionClaim) ∈
      (Ledger.along claimStates claimEvents 3).unsettled
    decide

end Sample

open Sample

/-- A Collect whose write failed does not take the subscription from one whose write took. -/
theorem settlement_spares_kept_second :
    (claimStates 4).rendezvous.standing ⟨connectionKeyOf claimant, [9]⟩ ≠ none := by
  have hst : (claimStates 0).rendezvous = .empty 8 := rfl
  obtain ⟨-, hs⟩ := settlement_spares_kept hst (claimStates_path 4) claimStates_allows
  obtain ⟨he, -⟩ := hs 3 (by decide) claimant [9] 0 false rfl
  have hsb : (claimStates 3).rendezvous.standing
      ⟨connectionKeyOf claimant, [9]⟩ = some ⟨0, [2], [1], [9], 0, 1, true⟩ := rfl
  intro hn
  refine ((he _ hsb rfl).mp hn).2.2 ?_
  decide

end MessageServer.Api
