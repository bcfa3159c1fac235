import Mathlib.Data.Nat.Find
import Mathlib.Logic.Function.Basic
import Mathlib.Tactic.Choose

/-! # Paths of a step relation

A path goes through one state after another, each joined to the next by a
labelled step. A state property that every step keeps holds along the whole
path, and a change between two points of a path happens at some step between
them.
-/

namespace MessageServer.Runs

open Function

variable {S E : Type*}

/-- The first `n` steps from `σ 0` are steps of the relation. -/
def Path (R : S → E → S → Prop) (σ : ℕ → S) (e : ℕ → E) (n : ℕ) : Prop :=
  ∀ k < n, R (σ k) (e k) (σ (k + 1))

namespace Path

variable {R : S → E → S → Prop} {σ : ℕ → S} {e : ℕ → E} {m n : ℕ}

theorem mono (h : Path R σ e n) (hmn : m ≤ n) : Path R σ e m := fun k hk =>
  h k (Nat.lt_of_lt_of_le hk hmn)

theorem invariant {P : S → Prop} (h : Path R σ e n) (hmn : m ≤ n) (hm : P (σ m))
    (hs : ∀ k, m ≤ k → k < n → R (σ k) (e k) (σ (k + 1)) → P (σ k) → P (σ (k + 1))) :
    P (σ n) := by
  induction n, hmn using Nat.le_induction with
  | base => exact hm
  | succ n hmn ih =>
    apply hs n hmn (Nat.lt_succ_self n) (h n (Nat.lt_succ_self n))
    exact ih (h.mono n.le_succ) fun k hk hkn => hs k hk (Nat.lt_succ_of_lt hkn)

end Path

theorem exists_last {P : ℕ → Prop} {m n : ℕ} (hmn : m ≤ n) (hm : P m) (hn : ¬ P n) :
    ∃ k, m ≤ k ∧ k < n ∧ P k ∧ ¬ P (k + 1) := by
  induction n, hmn using Nat.le_induction with
  | base => exact (hn hm).elim
  | succ n hmn ih =>
    by_cases h : P n
    · exact ⟨n, hmn, Nat.lt_succ_self n, h, hn⟩
    · obtain ⟨k, hk, hkn, hp⟩ := ih h
      exact ⟨k, hk, Nat.lt_succ_of_lt hkn, hp⟩

/-- Where every state in a phase has a step to one in the next, there is a run through them. -/
theorem exists_run {R : S → E → S → Prop} {P : ℕ → S → Prop} {L : ℕ → E → Prop} {s : S}
    (hs : P 0 s) (h : ∀ n s, P n s → ∃ e s', R s e s' ∧ L n e ∧ P (n + 1) s') :
    ∃ (σ : ℕ → S) (e : ℕ → E), σ 0 = s ∧
      ∀ n, P n (σ n) ∧ L n (e n) ∧ R (σ n) (e n) (σ (n + 1)) := by
  choose e next hr hl hp using h
  let σ : (n : ℕ) → { s // P n s } := fun n =>
    Nat.rec ⟨s, hs⟩ (fun n s => ⟨next n s.1 s.2, hp n s.1 s.2⟩) n
  exact ⟨fun n => (σ n).1, fun n => e n (σ n).1 (σ n).2, rfl,
    fun n => ⟨(σ n).2, hl n (σ n).1 (σ n).2, hr n (σ n).1 (σ n).2⟩⟩

/-- A condition on the state and the event holds at every step of a fold. -/
def Meets (ok : S → E → Prop) (step : S → E → S) : S → List E → Prop
  | _, [] => True
  | s, e :: es => ok s e ∧ Meets ok step (step s e) es

theorem Meets.invariant {ok : S → E → Prop} {step : S → E → S} {P : S → Prop}
    (hst : ∀ s e, P s → ok s e → P (step s e)) {s : S} {es : List E}
    (h : Meets ok step s es) (hs : P s) : P (es.foldl step s) := by
  induction es generalizing s with
  | nil => exact hs
  | cons e es ih => exact ih h.2 (hst s e hs h.1)

section Marks

variable {κ : Type*} [DecidableEq κ]

inductive Visit (stands : κ → Prop) : (κ → Bool) → Option κ → (κ → Bool) → Prop
  | stop {marks : κ → Bool} {k : κ} (hmark : marks k = true) (hk : stands k) :
      Visit stands marks (some k) (update marks k false)
  | skip {marks marks' : κ → Bool} {k : κ} {found : Option κ} (hmark : marks k = true)
      (hk : ¬ stands k) (hrest : Visit stands (update marks k false) found marks') :
      Visit stands marks found marks'
  | done {marks : κ → Bool} (hnone : ∀ k, marks k = false) : Visit stands marks none marks

namespace Visit

variable {stands : κ → Prop} {marks marks' : κ → Bool} {found : Option κ}

variable (h : Visit stands marks found marks')
include h

variable {k : κ}

theorem le (hk : marks' k = true) : marks k = true := by
  have hu : ∀ {marks : κ → Bool} {k' : κ}, update marks k' false k = true → marks k = true := by
    intro marks k' hk'
    by_cases hkk : k = k'
    · subst hkk
      simp at hk'
    · rwa [update_of_ne hkk] at hk'
  induction h with
  | stop => exact hu hk
  | skip _ _ _ ih => exact hu (ih hk)
  | done => exact hk

theorem kept (hk : marks k = true) (hs : stands k) : marks' k = true ∨ found = some k := by
  induction h with
  | @stop marks k' =>
    by_cases hkk : k = k'
    · exact .inr (congrArg some hkk.symm)
    · exact .inl (by rwa [update_of_ne hkk])
  | @skip marks marks' k' found _ hk' _ ih =>
    have hkk : k ≠ k' := by
      rintro rfl
      exact hk' hs
    exact ih (by rwa [update_of_ne hkk])
  | done => exact .inl hk

theorem found_spec (hf : found = some k) : marks k = true ∧ stands k := by
  induction h with
  | stop hm hk =>
    cases hf
    exact ⟨hm, hk⟩
  | @skip marks marks' k' found _ _ _ ih =>
    obtain ⟨hm, hk⟩ := ih hf
    refine ⟨?_, hk⟩
    by_cases hkk : k = k'
    · subst hkk
      simp at hm
    · rwa [update_of_ne hkk] at hm
  | done => cases hf

theorem found_deleted (hf : found = some k) : marks' k = false := by
  induction h with
  | stop =>
    cases hf
    exact update_self ..
  | skip _ _ _ ih => exact ih hf
  | done => cases hf

theorem same_of_stands (hs : stands k) (hf : found ≠ some k) : marks' k = marks k := by
  rw [Bool.eq_iff_iff]
  constructor
  · exact h.le
  · exact fun hk => (h.kept hk hs).resolve_right hf

theorem none_left (hf : found = none) (k : κ) : marks' k = false := by
  induction h with
  | stop => cases hf
  | skip _ _ _ ih => exact ih hf
  | done hn => exact hn k

end Visit

end Marks

end MessageServer.Runs
