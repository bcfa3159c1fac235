import MessageServer.Store.RetentionBounds

/-! # Negotiating retention

What a server reports for a requested policy is a policy that it stores as it is
when asked for it, and the notices say how the two differ.
-/

namespace MessageServer.Store

/-- Limits an operator may set: values below the indefinite sentinel, a floor under the cap
and defaults inside the bounds, with a zero text default as none. -/
structure Limits.Configured (limits : Limits) : Prop where
  media_max : limits.mediaTtlMaxSeconds < durableIndefinite
  media_default : limits.mediaTtlDefaultSeconds < durableIndefinite
  durable_max : limits.durableTtlMaxSeconds < durableIndefinite
  durable_default : limits.durableTtlDefaultSeconds < durableIndefinite
  durable_min : limits.durableRetentionMinSeconds < durableIndefinite
  floor_le_cap : limits.durableTtlMaxSeconds ≠ 0 →
    limits.durableRetentionMinSeconds ≤ limits.durableTtlMaxSeconds
  media_default_pos : 0 < limits.mediaTtlDefaultSeconds
  media_default_le : limits.mediaTtlMaxSeconds ≠ 0 →
    limits.mediaTtlDefaultSeconds ≤ limits.mediaTtlMaxSeconds
  durable_default_ge : limits.durableTtlDefaultSeconds ≠ 0 →
    limits.durableRetentionMinSeconds ≤ limits.durableTtlDefaultSeconds
  durable_default_le : limits.durableTtlDefaultSeconds ≠ 0 → limits.durableTtlMaxSeconds ≠ 0 →
    limits.durableTtlDefaultSeconds ≤ limits.durableTtlMaxSeconds

/-- The opening that asks for the values a notice reports. -/
def EpochOpening.asking (opening : EpochOpening) (applied : RetentionApplied) : EpochOpening :=
  { opening with
    mediaTtlSeconds := applied.mediaTtlSeconds
    durableTtlSeconds := applied.durableTtlSeconds }

namespace Limits

variable {limits : Limits}

/-! ### Media -/

def MediaAdmits (limits : Limits) (ttl : ℕ) : Prop :=
  0 < ttl ∧ (limits.mediaTtlMaxSeconds ≠ 0 → ttl ≤ limits.mediaTtlMaxSeconds)

theorem media_admitted {ttl : ℕ} (ha : limits.MediaAdmits ttl) :
    limits.media ttl = (ttl, false) := by
  obtain ⟨hp, hc⟩ := ha
  have hn : ¬ (limits.mediaTtlMaxSeconds ≠ 0 ∧ limits.mediaTtlMaxSeconds < ttl) := by
    rintro ⟨hm, hlt⟩
    exact Nat.not_lt.mpr (hc hm) hlt
  simp [media, Nat.ne_of_gt hp, hn]

theorem media_unset (hl : limits.Configured) :
    limits.media 0 = (limits.mediaTtlDefaultSeconds, false) := by
  have hn : ¬ (limits.mediaTtlMaxSeconds ≠ 0 ∧
      limits.mediaTtlMaxSeconds < limits.mediaTtlDefaultSeconds) := by
    rintro ⟨hm, hlt⟩
    exact Nat.not_lt.mpr (hl.media_default_le hm) hlt
  simp [media, hn]

variable {requested : ℕ}

theorem media_capped (hs : requested ≠ 0) (hm : limits.mediaTtlMaxSeconds ≠ 0)
    (hc : limits.mediaTtlMaxSeconds < requested) :
    limits.media requested = (limits.mediaTtlMaxSeconds, true) := by
  simp [media, hs, hm, hc]

theorem mediaAdmits_media (hl : limits.Configured) (requested : ℕ) :
    limits.MediaAdmits (limits.media requested).1 := by
  by_cases hs : requested = 0
  · rw [hs, media_unset hl]
    exact ⟨hl.media_default_pos, hl.media_default_le⟩
  by_cases hc : limits.mediaTtlMaxSeconds ≠ 0 ∧ limits.mediaTtlMaxSeconds < requested
  · rw [media_capped hs hc.1 hc.2]
    exact ⟨Nat.pos_of_ne_zero hc.1, fun _ => Nat.le_refl _⟩
  · have ha : limits.MediaAdmits requested :=
      ⟨Nat.pos_of_ne_zero hs, fun hm => Nat.not_lt.mp fun hlt => hc ⟨hm, hlt⟩⟩
    rw [media_admitted ha]
    exact ha

theorem media_notice (hl : limits.Configured) (requested : ℕ) :
    ((limits.media requested).2 = true ↔ requested ≠ 0 ∧ (limits.media requested).1 < requested) ∧
      (requested ≠ 0 → (limits.media requested).1 ≤ requested) := by
  by_cases hs : requested = 0
  · rw [hs, media_unset hl]
    simp
  by_cases hc : limits.mediaTtlMaxSeconds ≠ 0 ∧ limits.mediaTtlMaxSeconds < requested
  · rw [media_capped hs hc.1 hc.2]
    exact ⟨⟨fun _ => ⟨hs, hc.2⟩, fun _ => rfl⟩, fun _ => Nat.le_of_lt hc.2⟩
  · have ha : limits.MediaAdmits requested :=
      ⟨Nat.pos_of_ne_zero hs, fun hm => Nat.not_lt.mp fun hlt => hc ⟨hm, hlt⟩⟩
    rw [media_admitted ha]
    simp

/-! ### Text -/

theorem admits_effective (hl : limits.Configured) (requested : ℕ) :
    limits.Admits (limits.durable requested).1 := by
  by_cases hs : requested = durableUnset
  · rw [hs, durable_unset]
    refine ⟨limits.caps_capped, ?_⟩
    unfold capped
    by_cases hd : limits.durableTtlDefaultSeconds = 0 <;>
      by_cases hm : limits.durableTtlMaxSeconds = 0
    · rw [if_pos hd, if_pos hm]
      rintro _ ⟨⟩
    · rw [if_pos hd, if_neg hm]
      rintro _ ⟨⟩
      exact hl.floor_le_cap hm
    · rw [if_neg hd, if_pos hm]
      rintro _ ⟨⟩
      exact hl.durable_default_ge hd
    · rw [if_neg hd, if_neg hm]
      rintro _ ⟨⟩
      exact Nat.le_min.mpr ⟨hl.durable_default_ge hd, hl.floor_le_cap hm⟩
  · refine limits.admits_durable hs ?_
    by_cases hm : limits.durableTtlMaxSeconds = 0
    · exact .inr hm
    · exact .inl (hl.floor_le_cap hm)

theorem durable_ne_indefinite (hl : limits.Configured) {requested ttl : ℕ}
    (hd : (limits.durable requested).1 = some ttl) : ttl ≠ durableIndefinite := by
  by_cases hs : requested = durableUnset
  · have hc := hl.durable_max
    have hdf := hl.durable_default
    rw [hs, durable_unset, capped] at hd
    split at hd <;> split at hd <;> cases hd <;> omega
  by_cases hf : requested = durableIndefinite
  · rw [hf, durable_indefinite] at hd
    split at hd <;> cases hd
    exact Nat.ne_of_lt hl.durable_max
  · rw [limits.durable_asked hs hf] at hd
    have hc := hl.durable_max
    have hm := hl.durable_min
    split at hd <;> cases hd <;> omega

theorem durable_admitted {policy : Option ℕ} (ha : limits.Admits policy)
    (hf : ∀ ttl, policy = some ttl → ttl ≠ durableIndefinite) :
    limits.durable (policy.getD durableIndefinite) = (policy, false, false, false) := by
  obtain ⟨hc, hfl⟩ := ha
  cases policy with
  | none => simp [durable, show durableIndefinite ≠ durableUnset by decide,
      show limits.durableTtlMaxSeconds = 0 from hc]
  | some ttl =>
    have hs : ttl ≠ durableUnset := Nat.ne_of_gt hc.1
    have hab : ¬ ttl < limits.durableRetentionMinSeconds := Nat.not_lt.mpr (hfl ttl rfl)
    have hu : ¬ (limits.durableTtlMaxSeconds ≠ 0 ∧ limits.durableTtlMaxSeconds < ttl) := by
      rintro ⟨hm, hlt⟩
      exact Nat.not_lt.mpr (hc.2 hm) hlt
    simp [durable, hs, hf ttl rfl, hab, hu]

/-- The three text notices against the request and the value that is reported for it, with
the indefinite sentinel above every number. -/
structure Notices (requested reported : ℕ) (flags : Bool × Bool × Bool) : Prop where
  flooredUp : flags.1 = true ↔ requested ≠ durableUnset ∧ requested < reported
  clampedDown : flags.2.1 = true ↔ requested ≠ durableUnset ∧ reported < requested
  defaulted : flags.2.2 = true ↔ requested = durableUnset

theorem notices_unset : Notices durableUnset ((limits.durable durableUnset).1.getD
    durableIndefinite) (limits.durable durableUnset).2 := by
  have hf : (limits.durable durableUnset).2 = (false, false, true) := by
    unfold durable
    rw [if_pos rfl]
    split <;> [rfl; split] <;> [rfl; split] <;> rfl
  rw [hf]
  constructor <;> simp

variable (hl : limits.Configured)
include hl

theorem notices_indefinite :
    Notices durableIndefinite ((limits.durable durableIndefinite).1.getD durableIndefinite)
      (limits.durable durableIndefinite).2 := by
  have hs : durableIndefinite ≠ durableUnset := by decide
  by_cases hm : limits.durableTtlMaxSeconds = 0
  · have hd : limits.durable durableIndefinite = (none, false, false, false) := by
      simp [durable, hs, hm]
    rw [hd]
    constructor <;> simp [hs]
  · have hd : limits.durable durableIndefinite =
        (some limits.durableTtlMaxSeconds, false, true, false) := by
      simp [durable, hs, hm]
    rw [hd]
    constructor
    · simpa using fun _ => Nat.le_of_lt hl.durable_max
    · simpa using ⟨hs, hl.durable_max⟩
    · simpa using hs

theorem notices_asked (hs : requested ≠ durableUnset) (hfr : requested ≠ durableIndefinite) :
    Notices requested ((limits.durable requested).1.getD durableIndefinite)
      (limits.durable requested).2 := by
  have hfl : (limits.durable requested).2 = (decide (requested < limits.durableRetentionMinSeconds),
        decide (limits.durableTtlMaxSeconds ≠ 0 ∧ limits.durableTtlMaxSeconds <
          max requested limits.durableRetentionMinSeconds), false) := by
    unfold durable
    rw [if_neg hs, if_neg hfr]
    by_cases hf : requested < limits.durableRetentionMinSeconds
    · simp [hf, Nat.max_eq_right (Nat.le_of_lt hf)]
    · simp [hf, Nat.max_eq_left (Nat.not_lt.mp hf)]
  have hc := hl.floor_le_cap
  rw [limits.durable_asked hs hfr, hfl, Option.getD_some]
  constructor
  · rw [decide_eq_true_iff]
    split <;> omega
  · rw [decide_eq_true_iff]
    split <;> omega
  · simpa using hs

theorem notices_durable (requested : ℕ) :
    Notices requested ((limits.durable requested).1.getD durableIndefinite)
      (limits.durable requested).2 := by
  by_cases hs : requested = durableUnset
  · rw [hs]
    exact notices_unset
  by_cases hf : requested = durableIndefinite
  · rw [hf]
    exact notices_indefinite hl
  · exact notices_asked hl hs hf

theorem reported_pos (requested : ℕ) : (limits.durable requested).1.getD durableIndefinite ≠ 0 := by
  obtain ⟨hc, -⟩ := admits_effective hl requested
  cases hd : (limits.durable requested).1 with
  | none => decide
  | some ttl =>
    rw [hd] at hc
    exact Nat.ne_of_gt hc.1

omit hl

theorem acceptanceReason_notices {requestedMedia requestedDurable media durable : ℕ}
    {mediaClampedDown : Bool} {flags : Bool × Bool × Bool} {applied : RetentionApplied}
    (hm : (mediaClampedDown = true ↔ requestedMedia ≠ 0 ∧ media < requestedMedia) ∧
      (requestedMedia ≠ 0 → media ≤ requestedMedia))
    (hd : Notices requestedDurable durable flags)
    (hc : applied.clamped = (mediaClampedDown || flags.1 || flags.2.1)) :
    acceptanceReason (some applied) = .retentionClamped ↔
      requestedMedia ≠ 0 ∧ media ≠ requestedMedia ∨
        requestedDurable ≠ durableUnset ∧ durable ≠ requestedDurable := by
  have hr : acceptanceReason (some applied) = .retentionClamped ↔ applied.clamped = true := by
    cases h : applied.clamped <;> simp [acceptanceReason, h]
  rw [hr, hc, Bool.or_eq_true, Bool.or_eq_true, hm.1, hd.flooredUp, hd.clampedDown]
  have hle := hm.2
  omega

/-- Asking for what was reported changes nothing, and the notices say how the report differs. -/
theorem apply_negotiates (limits : Limits) (hlimits : limits.Configured) (opening : EpochOpening) :
    let applied := (limits.apply opening).2.2
    let again := limits.apply (opening.asking applied)
    (again.1 = (limits.apply opening).1 ∧ again.2.1 = (limits.apply opening).2.1 ∧
      again.2.2.mediaTtlSeconds = applied.mediaTtlSeconds ∧
      again.2.2.durableTtlSeconds = applied.durableTtlSeconds ∧
      again.2.2.mediaClampedDown = false ∧ again.2.2.durableFlooredUp = false ∧
      again.2.2.durableClampedDown = false ∧ acceptanceReason (some again.2.2) = .ok) ∧
    (applied.mediaClampedDown = true ↔ opening.mediaTtlSeconds ≠ 0 ∧
      applied.mediaTtlSeconds < opening.mediaTtlSeconds) ∧
    (applied.durableClampedDown = true ↔ opening.durableTtlSeconds ≠ durableUnset ∧
      applied.durableTtlSeconds < opening.durableTtlSeconds) ∧
    (applied.durableFlooredUp = true ↔ opening.durableTtlSeconds ≠ durableUnset ∧
      opening.durableTtlSeconds < applied.durableTtlSeconds) ∧
    (applied.durableDefaulted = true ↔ opening.durableTtlSeconds = durableUnset) ∧
    applied.mediaTtlSeconds ≠ 0 ∧ applied.durableTtlSeconds ≠ 0 ∧
    (acceptanceReason (some applied) = .retentionClamped ↔
      opening.mediaTtlSeconds ≠ 0 ∧ applied.mediaTtlSeconds ≠ opening.mediaTtlSeconds ∨
        opening.durableTtlSeconds ≠ durableUnset ∧
          applied.durableTtlSeconds ≠ opening.durableTtlSeconds) := by
  intro applied again
  have hmd := media_notice hlimits opening.mediaTtlSeconds
  have hd := notices_durable hlimits opening.durableTtlSeconds
  have hm : limits.media applied.mediaTtlSeconds = (applied.mediaTtlSeconds, false) :=
    media_admitted (mediaAdmits_media hlimits opening.mediaTtlSeconds)
  have hdr : limits.durable applied.durableTtlSeconds =
      ((limits.durable opening.durableTtlSeconds).1, false, false, false) :=
    durable_admitted (admits_effective hlimits _) fun _ => durable_ne_indefinite hlimits
  have ha : again = (applied.mediaTtlSeconds, (limits.durable opening.durableTtlSeconds).1,
      { mediaTtlSeconds := applied.mediaTtlSeconds
        durableTtlSeconds := applied.durableTtlSeconds
        mediaClampedDown := false
        durableFlooredUp := false
        durableClampedDown := false
        durableDefaulted := false
        requestedMediaTtlSeconds := applied.mediaTtlSeconds
        requestedDurableTtlSeconds := applied.durableTtlSeconds }) := by
    simp only [again, apply, EpochOpening.asking, hm, hdr]
    rfl
  refine ⟨?_, hmd.1, hd.clampedDown, hd.flooredUp, hd.defaulted,
    Nat.ne_of_gt (mediaAdmits_media hlimits _).1, reported_pos hlimits _,
    acceptanceReason_notices hmd hd rfl⟩
  rw [ha]
  exact ⟨rfl, rfl, rfl, rfl, rfl, rfl, rfl, rfl⟩

theorem configured_defaultLimits : defaultLimits.Configured := by
  constructor <;> decide

/-- The year a server gives by default, asked for again. -/
theorem apply_negotiates_year :
    (defaultLimits.apply (Sample.unset.asking (defaultLimits.apply Sample.unset).2.2)).2.1 =
        some 31536000 ∧
      (defaultLimits.apply Sample.unset).2.2.durableDefaulted = true := by
  obtain ⟨⟨-, ha, -⟩, -, -, -, hd, -⟩ :=
    apply_negotiates defaultLimits configured_defaultLimits Sample.unset
  exact ⟨ha, hd.mpr rfl⟩

end Limits

end MessageServer.Store
