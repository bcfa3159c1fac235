import MessageServer.Store.Retention

/-! # The bounds of text retention

A policy a group asks for is floored and capped on its way in, and one it leaves
unset is the server's default, which is capped alone. Inside the advertised
bounds are therefore all policies but a default that is below the floor.
-/

namespace MessageServer.Store.Limits

variable (limits : Limits) (opening : EpochOpening)

/-- A lifetime of text as far as the cap and the sentinels go; `none` is indefinite. -/
def Caps : Option ℕ → Prop
  | none => limits.durableTtlMaxSeconds = 0
  | some ttl => 0 < ttl ∧ (limits.durableTtlMaxSeconds ≠ 0 → ttl ≤ limits.durableTtlMaxSeconds)

def Admits (policy : Option ℕ) : Prop :=
  limits.Caps policy ∧ ∀ ttl ∈ policy, limits.durableRetentionMinSeconds ≤ ttl

instance : DecidablePred limits.Caps
  | none => inferInstanceAs (Decidable (_ = _))
  | some _ => inferInstanceAs (Decidable (_ ∧ _))

instance : DecidablePred limits.Admits := fun _ => inferInstanceAs (Decidable (_ ∧ _))

def capped : Option ℕ :=
  if limits.durableTtlDefaultSeconds = 0 then
    if limits.durableTtlMaxSeconds = 0 then none else some limits.durableTtlMaxSeconds
  else if limits.durableTtlMaxSeconds = 0 then some limits.durableTtlDefaultSeconds
  else some (min limits.durableTtlDefaultSeconds limits.durableTtlMaxSeconds)

theorem durable_unset : (limits.durable durableUnset).1 = limits.capped := by
  unfold durable capped
  rw [if_pos rfl]
  by_cases hd : limits.durableTtlDefaultSeconds = 0
  · by_cases hm : limits.durableTtlMaxSeconds = 0 <;> simp [hd, hm]
  · by_cases hm : limits.durableTtlMaxSeconds = 0 <;> simp [hd, hm]

theorem caps_capped : limits.Caps limits.capped := by
  unfold capped
  by_cases hd : limits.durableTtlDefaultSeconds = 0
  · by_cases hm : limits.durableTtlMaxSeconds = 0
    · rw [if_pos hd, if_pos hm]
      exact hm
    · rw [if_pos hd, if_neg hm]
      exact ⟨Nat.pos_of_ne_zero hm, fun _ => Nat.le_refl _⟩
  · by_cases hm : limits.durableTtlMaxSeconds = 0
    · rw [if_neg hd, if_pos hm]
      exact ⟨Nat.pos_of_ne_zero hd, fun h => (h hm).elim⟩
    · rw [if_neg hd, if_neg hm]
      exact ⟨Nat.lt_min.mpr ⟨Nat.pos_of_ne_zero hd, Nat.pos_of_ne_zero hm⟩,
        fun _ => Nat.min_le_right _ _⟩

theorem durable_indefinite : (limits.durable durableIndefinite).1 =
    if limits.durableTtlMaxSeconds = 0 then none else some limits.durableTtlMaxSeconds := by
  unfold durable
  rw [if_neg (by decide), if_pos rfl]
  split <;> rfl

variable {requested : ℕ}

theorem durable_asked (hs : requested ≠ durableUnset) (hf : requested ≠ durableIndefinite) :
    (limits.durable requested).1 =
      some (if limits.durableTtlMaxSeconds = 0 then max requested limits.durableRetentionMinSeconds
        else min (max requested limits.durableRetentionMinSeconds)
          limits.durableTtlMaxSeconds) := by
  have hfl : (if decide (requested < limits.durableRetentionMinSeconds) = true then
      limits.durableRetentionMinSeconds else requested) =
        max requested limits.durableRetentionMinSeconds := by
    split
    next h => exact (Nat.max_eq_right (Nat.le_of_lt (of_decide_eq_true h))).symm
    next h => exact (Nat.max_eq_left (Nat.not_lt.mp (of_decide_eq_false (by simpa using h)))).symm
  unfold durable
  rw [if_neg hs, if_neg hf]
  dsimp only
  rw [hfl, Option.some_inj]
  by_cases hm : limits.durableTtlMaxSeconds = 0
  · rw [if_pos hm, if_neg (by simp [hm])]
  · rw [if_neg hm]
    by_cases hc : limits.durableTtlMaxSeconds < max requested limits.durableRetentionMinSeconds
    · rw [if_pos (decide_eq_true ⟨hm, hc⟩), Nat.min_eq_right (Nat.le_of_lt hc)]
    · rw [if_neg (by simp [hc]), Nat.min_eq_left (Nat.not_lt.mp hc)]

theorem admits_durable (hs : requested ≠ durableUnset)
    (hl : limits.durableRetentionMinSeconds ≤ limits.durableTtlMaxSeconds ∨
      limits.durableTtlMaxSeconds = 0) : limits.Admits (limits.durable requested).1 := by
  have hp : 0 < max requested limits.durableRetentionMinSeconds :=
    Nat.lt_of_lt_of_le (Nat.pos_of_ne_zero hs) (Nat.le_max_left _ _)
  by_cases hm : limits.durableTtlMaxSeconds = 0
  · by_cases hf : requested = durableIndefinite
    · rw [hf, durable_indefinite, if_pos hm]
      exact ⟨hm, nofun⟩
    · rw [limits.durable_asked hs hf, if_pos hm]
      constructor
      · exact ⟨hp, fun h => (h hm).elim⟩
      · rintro _ ⟨⟩
        exact Nat.le_max_right _ _
  · have hfl := hl.resolve_right hm
    by_cases hf : requested = durableIndefinite
    · rw [hf, durable_indefinite, if_neg hm]
      constructor
      · exact ⟨Nat.pos_of_ne_zero hm, fun _ => Nat.le_refl _⟩
      · rintro _ ⟨⟩
        exact hfl
    · rw [limits.durable_asked hs hf, if_neg hm]
      constructor
      · exact ⟨Nat.lt_min.mpr ⟨hp, Nat.pos_of_ne_zero hm⟩, fun _ => Nat.min_le_right _ _⟩
      · rintro _ ⟨⟩
        exact Nat.le_min.mpr ⟨Nat.le_max_right _ _, hfl⟩

/-- The policy stored for a commit is inside the advertised bounds, or it is the server's own
default under the cap. -/
theorem apply_durable_bounds
    (hlimits : limits.durableRetentionMinSeconds ≤ limits.durableTtlMaxSeconds ∨
      limits.durableTtlMaxSeconds = 0) :
    limits.Caps (limits.apply opening).2.1 ∧ (limits.Admits (limits.apply opening).2.1 ∨
        opening.durableTtlSeconds = durableUnset ∧ limits.durableTtlDefaultSeconds ≠ 0 ∧
          (limits.apply opening).2.1 = some (if limits.durableTtlMaxSeconds = 0 then
            limits.durableTtlDefaultSeconds
            else min limits.durableTtlDefaultSeconds limits.durableTtlMaxSeconds)) := by
  have hp : (limits.apply opening).2.1 = (limits.durable opening.durableTtlSeconds).1 := rfl
  rw [hp]
  by_cases hs : opening.durableTtlSeconds = durableUnset
  · rw [hs, durable_unset]
    have hc := limits.caps_capped
    refine ⟨hc, ?_⟩
    by_cases hd : limits.durableTtlDefaultSeconds = 0
    · refine .inl ⟨hc, ?_⟩
      unfold capped
      rw [if_pos hd]
      split
      · rintro _ ⟨⟩
      next hm =>
        rintro _ ⟨⟩
        exact hlimits.resolve_right hm
    · refine .inr ⟨rfl, hd, ?_⟩
      unfold capped
      rw [if_neg hd]
      split <;> rfl
  · have ha := limits.admits_durable hs hlimits
    exact ⟨ha.1, .inl ha⟩

namespace Sample

def lowDefault : Limits where
  mediaTtlMaxSeconds := 2592000
  mediaTtlDefaultSeconds := 2592000
  durableTtlMaxSeconds := 31536000
  durableTtlDefaultSeconds := 86400
  durableRetentionMinSeconds := 604800

def unset : EpochOpening where
  epoch := 1
  algId := 1
  mediaTtlSeconds := 0
  durableTtlSeconds := durableUnset
  groupContextHash := none
  expectedWrapCount := 1
  writeKey := none
  readKey := none

end Sample

open Sample

/-- The default of a server is stored below the minimum that the server advertises. -/
theorem default_below_floor :
    lowDefault.durableRetentionMinSeconds ≤ lowDefault.durableTtlMaxSeconds ∧
      (lowDefault.apply unset).2.1 = some 86400 ∧
      ¬ lowDefault.Admits (lowDefault.apply unset).2.1 := by
  decide

/-- The bounds at a server whose default is below its floor. -/
theorem apply_durable_bounds_low :
    lowDefault.Caps (lowDefault.apply unset).2.1 ∧ (lowDefault.Admits (lowDefault.apply unset).2.1 ∨
        unset.durableTtlSeconds = durableUnset ∧ lowDefault.durableTtlDefaultSeconds ≠ 0 ∧
          (lowDefault.apply unset).2.1 = some (if lowDefault.durableTtlMaxSeconds = 0 then
              lowDefault.durableTtlDefaultSeconds
              else min lowDefault.durableTtlDefaultSeconds
                lowDefault.durableTtlMaxSeconds)) :=
  apply_durable_bounds lowDefault unset (.inl (by decide))

end MessageServer.Store.Limits
