import Mathlib.Algebra.Order.Group.Abs
import Mathlib.Algebra.Order.Group.Int
import MessageServer.Api.Calls

/-! # The window of an ephemeral record

A sender names the window its own clock is in when it seals a record, and the
server compares that window with the one of its arrival. Both are floors of a
time in milliseconds by the length of the bucket.
-/

namespace MessageServer

open Message

namespace Harness

inductive EphWindowError
  | bucketOffLadder | sentAt
  deriving DecidableEq

/-- The window of a bucket at a time of the sender, in milliseconds. -/
def ephWindowAt (layer : RecordLayer) (bucket : ℕ) (sentAtMs : ℤ) : Except EphWindowError ℕ :=
  let seconds := layer.ephBucketSeconds bucket
  if seconds < 0 then .error .bucketOffLadder
  else if seconds = 0 then .ok 0
  else if sentAtMs < 0 then .error .sentAt
  else .ok (sentAtMs.toNat / (seconds.toNat * 1000))

variable {layer : RecordLayer} {bucket : ℕ}

theorem ephWindowAt_transient (hz : layer.ephBucketSeconds bucket = 0) (sentAtMs : ℤ) :
    ephWindowAt layer bucket sentAtMs = .ok 0 := by
  simp [ephWindowAt, hz]

theorem ephWindowAt_ok (hp : 0 < layer.ephBucketSeconds bucket) {sentAtMs : ℤ} (hs : 0 ≤ sentAtMs) :
    ephWindowAt layer bucket sentAtMs =
      .ok (sentAtMs.toNat / ((layer.ephBucketSeconds bucket).toNat * 1000)) := by
  unfold ephWindowAt
  rw [if_neg (Int.not_lt.mpr hp.le), if_neg hp.ne', if_neg (Int.not_lt.mpr hs)]

end Harness

variable {a b length : ℕ}

theorem div_le_succ_div (hl : 0 < length) (h : a ≤ b + length) : a / length ≤ b / length + 1 := by
  rw [← Nat.add_div_right b hl]
  exact Nat.div_le_div_right h

theorem lt_add_of_div_le (hl : 0 < length) (h : a / length ≤ b / length + 1) :
    a < b + 2 * length := by
  have ha : a < length * (a / length + 1) := Nat.lt_mul_div_succ a hl
  have hb : length * (b / length) ≤ b := Nat.mul_div_le b length
  calc a < length * (a / length + 1) := ha
    _ ≤ length * (b / length + 1 + 1) := Nat.mul_le_mul_left length (Nat.succ_le_succ h)
    _ = length * (b / length) + 2 * length := by
      rw [Nat.add_assoc, Nat.mul_add, Nat.mul_comm length (1 + 1)]
    _ ≤ b + 2 * length := Nat.add_le_add_right hb _

namespace Api.Handler

variable (h : Handler)

variable {header : RecordHeader} {now : Time}

theorem ephWindow_without
    (hn : header.retentionClass ≠ .eph ∨ h.layer.ephBucketSeconds header.ephBucket ≤ 0) :
    h.ephWindow now header = .ok () ↔ header.ephWindow = 0 := by
  unfold ephWindow
  rw [if_pos hn, failIf_eq_ok, not_not]

theorem ephWindow_within (hc : header.retentionClass = .eph)
    (hp : 0 < h.layer.ephBucketSeconds header.ephBucket) (hn : 0 ≤ now / 1000000) :
    h.ephWindow now header = .ok () ↔ header.ephWindow ≤ (now / 1000000).toNat /
          ((h.layer.ephBucketSeconds header.ephBucket).toNat * 1000) + 1 ∧
        (now / 1000000).toNat / ((h.layer.ephBucketSeconds header.ephBucket).toNat * 1000) ≤
          header.ephWindow + 1 := by
  unfold ephWindow
  rw [if_neg (by simp [hc, hp])]
  rw [if_neg (Int.not_lt.mpr hn), failIf_eq_ok]
  split <;> omega

theorem ephWindow_before (hc : header.retentionClass = .eph)
    (hp : 0 < h.layer.ephBucketSeconds header.ephBucket) (hn : now / 1000000 < 0) :
    h.ephWindow now header = .error .internal := by
  unfold ephWindow
  rw [if_neg (by simp [hc, hp])]
  exact if_pos hn

theorem within_one_iff {window arrival : ℕ} :
    (window ≤ arrival + 1 ∧ arrival ≤ window + 1) ↔ |(window : ℤ) - arrival| ≤ 1 := by
  rw [abs_le]
  omega

theorem toNat_div (millis seconds : ℤ) (hm : 0 ≤ millis) (hs : 0 < seconds) :
    ((millis.toNat / (seconds.toNat * 1000) : ℕ) : ℤ) = millis / (1000 * seconds) := by
  rw [Int.natCast_ediv, Int.natCast_mul, Int.toNat_of_nonneg hm,
    Int.toNat_of_nonneg hs.le, Int.mul_comm seconds]
  rfl

theorem windows_of_times {sender server seconds : ℤ} (hsn : 0 ≤ sender) (hsr : 0 ≤ server)
    (hs : 0 < seconds) :
    (|server - sender| ≤ 1000 * seconds →
        sender.toNat / (seconds.toNat * 1000) ≤ server.toNat / (seconds.toNat * 1000) + 1 ∧
          server.toNat / (seconds.toNat * 1000) ≤ sender.toNat / (seconds.toNat * 1000) + 1) ∧
      (sender.toNat / (seconds.toNat * 1000) ≤ server.toNat / (seconds.toNat * 1000) + 1 ∧
          server.toNat / (seconds.toNat * 1000) ≤ sender.toNat / (seconds.toNat * 1000) + 1 →
        |server - sender| < 2000 * seconds) := by
  have hl : 0 < seconds.toNat * 1000 := by omega
  rw [abs_le, abs_lt]
  constructor
  · rintro ⟨he, hlt⟩
    constructor
    · exact div_le_succ_div hl (by omega)
    · exact div_le_succ_div hl (by omega)
  · rintro ⟨he, hlt⟩
    have hb := lt_add_of_div_le hl he
    have ha := lt_add_of_div_le hl hlt
    omega

/-- The sender and the server agree on the window of a record whose bucket has one. -/
theorem window_agrees (now : Time) (header : RecordHeader) (hnow : 0 ≤ now) :
    let seconds := h.layer.ephBucketSeconds header.ephBucket
    (header.retentionClass = .eph → 0 < seconds → (∀ sentAtMs, 0 ≤ sentAtMs →
        ∃ window, Harness.ephWindowAt h.layer header.ephBucket sentAtMs = .ok window ∧
          (header.ephWindow = window →
            (|now / 1000000 - sentAtMs| ≤ 1000 * seconds → h.ephWindow now header = .ok ()) ∧
            (h.ephWindow now header = .ok () → |now / 1000000 - sentAtMs| < 2000 * seconds))) ∧
      (h.ephWindow now header = .ok () ↔
        |(header.ephWindow : ℤ) - now / 1000000 / (1000 * seconds)| ≤ 1)) ∧
    (header.retentionClass ≠ .eph ∨ seconds ≤ 0 →
      (h.ephWindow now header = .ok () ↔ header.ephWindow = 0)) ∧
    (seconds = 0 → ∀ sentAtMs, Harness.ephWindowAt h.layer header.ephBucket sentAtMs = .ok 0) := by
  intro seconds
  refine ⟨fun hc hp => ?_, h.ephWindow_without, Harness.ephWindowAt_transient⟩
  have hm : 0 ≤ now / 1000000 := Int.ediv_nonneg hnow (by decide)
  have hw := h.ephWindow_within hc hp hm
  constructor
  · intro sentAtMs hs
    refine ⟨_, Harness.ephWindowAt_ok hp hs, fun hwn => ?_⟩
    rw [hw, hwn]
    exact windows_of_times hs hm hp
  · rw [hw, within_one_iff, toNat_div _ _ hm hp]

/-- A record sealed in the first hour passes half an hour into the second. -/
theorem window_agrees_hour :
    |(((Sample.parsed 16 1 1 0).header.ephWindow : ℕ) : ℤ) -
        5400000000000 / 1000000 / (1000 * Sample.layer.ephBucketSeconds 1)| ≤ 1 ∧
      Sample.handler.ephWindow 5400000000000 (Sample.parsed 16 1 1 0).header = .ok () :=
  ⟨by decide, ((window_agrees Sample.handler 5400000000000 (Sample.parsed 16 1 1 0).header
    (by decide)).1 rfl (by decide)).2.mpr (by decide)⟩

end Api.Handler

end MessageServer
