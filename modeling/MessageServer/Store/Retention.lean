import MessageServer.Store.Basic

/-! # Retention

The policy a commit asks for is clamped to the server's limits, and the prune
time of a record follows from its class and the group's policy.
-/

namespace MessageServer.Store

/-- The advertised limits; zero is no cap, no maximum and no minimum. -/
structure Limits where
  mediaTtlMaxSeconds : ℕ
  mediaTtlDefaultSeconds : ℕ
  durableTtlMaxSeconds : ℕ
  durableTtlDefaultSeconds : ℕ
  durableRetentionMinSeconds : ℕ
  deriving DecidableEq

def defaultLimits : Limits where
  mediaTtlMaxSeconds := 2592000
  mediaTtlDefaultSeconds := 2592000
  durableTtlMaxSeconds := 0
  durableTtlDefaultSeconds := 31536000
  durableRetentionMinSeconds := 0

def durableUnset : ℕ := 0
def durableIndefinite : ℕ := 0xFFFFFFFF

/-- What the server stored for a requested policy, and which rule produced it. -/
structure RetentionApplied where
  mediaTtlSeconds : ℕ
  durableTtlSeconds : ℕ
  mediaClampedDown : Bool
  durableFlooredUp : Bool
  durableClampedDown : Bool
  durableDefaulted : Bool
  requestedMediaTtlSeconds : ℕ
  requestedDurableTtlSeconds : ℕ
  deriving DecidableEq

def RetentionApplied.clamped (applied : RetentionApplied) : Bool :=
  applied.mediaClampedDown || applied.durableFlooredUp || applied.durableClampedDown

/-- The acceptance a record gets: a clamped policy is still an acceptance. -/
def acceptanceReason : Option RetentionApplied → Reason
  | some applied => if applied.clamped then .retentionClamped else .ok
  | none => .ok

@[simp] theorem accepted_acceptanceReason (applied : Option RetentionApplied) :
    accepted (acceptanceReason applied) = true := by
  cases applied with
  | none => rfl
  | some a => cases h : a.clamped <;> simp [acceptanceReason, accepted, h]

namespace Limits

/-- The media lifetime: the default for an unset request, capped. -/
def media (limits : Limits) (requested : ℕ) : ℕ × Bool :=
  let wanted := if requested = 0 then limits.mediaTtlDefaultSeconds else requested
  let media :=
    if limits.mediaTtlMaxSeconds ≠ 0 ∧ limits.mediaTtlMaxSeconds < wanted then
      limits.mediaTtlMaxSeconds
    else wanted
  (media, media < wanted)

/-- The text lifetime with its floored, clamped and defaulted flags; `none` is indefinite. -/
def durable (limits : Limits) (requested : ℕ) : Option ℕ × Bool × Bool × Bool :=
  if requested = durableUnset then
    if limits.durableTtlDefaultSeconds = 0 ∧ limits.durableTtlMaxSeconds = 0 then
      (none, false, false, true)
    else if limits.durableTtlDefaultSeconds = 0 then
      (some limits.durableTtlMaxSeconds, false, false, true)
    else if limits.durableTtlMaxSeconds = 0 then
      (some limits.durableTtlDefaultSeconds, false, false, true)
    else
      (some (min limits.durableTtlDefaultSeconds limits.durableTtlMaxSeconds), false, false, true)
  else if requested = durableIndefinite then
    if limits.durableTtlMaxSeconds = 0 then (none, false, false, false)
    else (some limits.durableTtlMaxSeconds, false, true, false)
  else
    let flooredUp : Bool := requested < limits.durableRetentionMinSeconds
    let value := if flooredUp then limits.durableRetentionMinSeconds else requested
    let clampedDown : Bool := limits.durableTtlMaxSeconds ≠ 0 ∧ limits.durableTtlMaxSeconds < value
    (some (if clampedDown then limits.durableTtlMaxSeconds else value),
      flooredUp, clampedDown, false)

/-- The media lifetime, the text lifetime and the notice of one opening. -/
def apply (limits : Limits) (opening : EpochOpening) : ℕ × Option ℕ × RetentionApplied :=
  let (media, mediaClampedDown) := limits.media opening.mediaTtlSeconds
  let (durable, flooredUp, clampedDown, defaulted) := limits.durable opening.durableTtlSeconds
  (media, durable, {
    mediaTtlSeconds := media
    durableTtlSeconds := durable.getD durableIndefinite
    mediaClampedDown := mediaClampedDown
    durableFlooredUp := flooredUp
    durableClampedDown := clampedDown
    durableDefaulted := defaulted
    requestedMediaTtlSeconds := opening.mediaTtlSeconds
    requestedDurableTtlSeconds := opening.durableTtlSeconds })

end Limits

def ephBucketSeconds : List ℕ := [0, 3600, 28800, 86400, 604800, 2419200]

def second : Time := 1000000000

/-- The prune time of a class under a group's policy, `none` for a class that never prunes. -/
def pruneAfter (now : Time) (retentionClass mediaTtl : ℕ) (durableTtl : Option ℕ) : Option Time :=
  if retentionClass = classPermanent then none
  else if retentionClass = classDurable then durableTtl.map fun ttl => now + ttl * second
  else if retentionClass = classMedia then some (now + mediaTtl * second)
  else some (now + ephBucketSeconds.getD (retentionClass - classEphBase) 0 * second)

end MessageServer.Store
