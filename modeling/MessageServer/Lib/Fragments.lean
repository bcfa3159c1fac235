import Mathlib.Data.List.Basic
import Mathlib.Tactic.Common

/-! # Sequences sent in numbered pieces

A sequence is cut into pieces of a bounded length, which carry their number and
how many there are. A collector takes them in order, or gives up.
-/

namespace MessageServer.Fragments

variable {α : Type*}

section Cut

/-- How many pieces of length `n` cover a sequence of length `m`. -/
def pieceCount (m n : ℕ) : ℕ := (m + n - 1) / n

/-- The piece of length `n` with a number; the last may be shorter. -/
def piece (n : ℕ) (xs : List α) (index : ℕ) : List α :=
  (xs.take (min ((index + 1) * n) xs.length)).drop (index * n)

def pieces (n : ℕ) (xs : List α) : List (List α) :=
  (List.range (pieceCount xs.length n)).map (piece n xs)

variable {n : ℕ} {xs : List α} (index : ℕ)

theorem piece_eq : piece n xs index = (xs.drop (index * n)).take n := by
  rw [piece, List.take_eq_take_min.symm, List.drop_take, Nat.succ_mul, Nat.add_sub_cancel_left]

theorem length_piece_le : (piece n xs index).length ≤ n := by
  rw [piece_eq]
  exact List.length_take_le n _

@[simp] theorem length_pieces : (pieces n xs).length = pieceCount xs.length n := by
  simp [pieces]

theorem length_le_mul_pieceCount (hn : 0 < n) (m : ℕ) : m ≤ pieceCount m n * n := by
  have hd := Nat.div_add_mod (m + n - 1) n
  have hm := Nat.mod_lt (m + n - 1) hn
  rw [pieceCount, Nat.mul_comm]
  omega

theorem one_lt_pieceCount (hn : 0 < n) {m : ℕ} (hm : n < m) : 1 < pieceCount m n := by
  by_contra hle
  have hc := length_le_mul_pieceCount hn m
  have ho : pieceCount m n * n ≤ 1 * n := Nat.mul_le_mul_right n (Nat.not_lt.mp hle)
  omega

theorem flatten_range (count : ℕ) :
    ((List.range count).map (piece n xs)).flatten = xs.take (count * n) := by
  induction count with
  | zero => simp
  | succ count ih =>
    rw [List.range_succ, List.map_append, List.flatten_append, ih, List.map_singleton,
      List.flatten_singleton, piece_eq, Nat.succ_mul, List.take_add]

theorem flatten_pieces (hn : 0 < n) : (pieces n xs).flatten = xs := by
  rw [pieces, flatten_range, List.take_of_length_le (length_le_mul_pieceCount hn _)]

end Cut

section Collect

structure Piece (α : Type*) where
  index : ℕ
  count : ℕ
  content : List α

/-- What has come of a sequence: how many pieces it has, the next number, and its start. -/
structure Progress (α : Type*) where
  count : ℕ
  next : ℕ
  content : List α

inductive Outcome (α : Type*)
  | more
  | complete (content : List α)
  | aborted

def Piece.OutOfOrder (arrived : Piece α) : Option (Progress α) → Prop
  | none => arrived.count ≤ arrived.index ∨ arrived.index ≠ 0
  | some held => arrived.count ≤ arrived.index ∨ arrived.index ≠ held.next ∨
      arrived.count ≠ held.count

instance (arrived : Piece α) (held : Option (Progress α)) :
    Decidable (arrived.OutOfOrder held) := by
  cases held <;> unfold Piece.OutOfOrder <;> infer_instance

def Piece.added (arrived : Piece α) : Option (Progress α) → Progress α
  | none => ⟨arrived.count, 1, arrived.content⟩
  | some held => ⟨held.count, held.next + 1, held.content ++ arrived.content⟩

def collect (held : Option (Progress α)) (arrived : Piece α) : Option (Progress α) × Outcome α :=
  if arrived.OutOfOrder held then (none, .aborted)
  else if (arrived.added held).next < (arrived.added held).count then
    (some (arrived.added held), .more)
  else (none, .complete (arrived.added held).content)

def numbered (count : ℕ) : ℕ → List (List α) → List (Piece α)
  | _, [] => []
  | index, part :: parts => ⟨index, count, part⟩ :: numbered count (index + 1) parts

theorem numbered_map_range' (count : ℕ) (part : ℕ → List α) (first length : ℕ) :
    (List.range' first length).map (fun index => ⟨index, count, part index⟩) =
      numbered count first ((List.range' first length).map part) := by
  induction length generalizing first with
  | zero => rfl
  | succ length ih => rw [List.range'_succ, List.map_cons, List.map_cons, numbered, ih]

theorem numbered_pieces (count n : ℕ) (xs : List α) :
    (List.range (pieceCount xs.length n)).map (fun index => ⟨index, count, piece n xs index⟩) =
      numbered count 0 (pieces n xs) := by
  rw [pieces, List.range_eq_range', numbered_map_range']

/-- The first pieces of a sequence have come, up to a number, with their content. -/
def Reached (count index : ℕ) (content : List α) : Option (Progress α) → Prop
  | none => index = 0 ∧ content = []
  | some held => held = ⟨count, index, content⟩

def gathered : Option (Progress α) → List α
  | none => []
  | some held => held.content

/-- A piece makes the content no longer than a bound. -/
def Fits (max : ℕ) (held : Option (Progress α)) (arrived : Piece α) : Prop :=
  (gathered held).length + arrived.content.length ≤ max

variable {count index : ℕ} {content part : List α} {held : Option (Progress α)}

theorem reached_none : Reached count 0 ([] : List α) none := ⟨rfl, rfl⟩

variable (h : Reached count index content held)
include h

theorem Reached.gathered_eq : gathered held = content := by
  cases held with
  | none => exact h.2.symm
  | some _ =>
    rw [h]
    rfl

theorem Reached.in_order (hi : index < count) : ¬ (Piece.mk index count part).OutOfOrder held := by
  cases held with
  | none => simp [Piece.OutOfOrder, h.1, Nat.ne_zero_of_lt hi]
  | some _ => simp [Piece.OutOfOrder, show _ = _ from h, hi]

theorem Reached.added_eq :
    (Piece.mk index count part).added held = ⟨count, index + 1, content ++ part⟩ := by
  cases held with
  | none => simp [Piece.added, h.1, h.2]
  | some _ => simp [Piece.added, show _ = _ from h]

theorem Reached.collect_more (hi : index + 1 < count) :
    collect held ⟨index, count, part⟩ = (some ⟨count, index + 1, content ++ part⟩, .more) := by
  rw [collect, if_neg (h.in_order (Nat.lt_of_succ_lt hi)), h.added_eq, if_pos hi]

theorem Reached.collect_last (hi : index + 1 = count) :
    collect held ⟨index, count, part⟩ = (none, .complete (content ++ part)) := by
  rw [collect, if_neg (h.in_order (hi ▸ Nat.lt_succ_self index)), h.added_eq,
    if_neg (Nat.not_lt.mpr (Nat.le_of_eq hi.symm))]

end Collect

section Runs

variable {S E F A P : Type*}

def answers (step : S → E → S × A) : S → List E → List A
  | _, [] => []
  | s, e :: es => (step s e).2 :: answers step (step s e).1 es

def answersTo (picked : E → Bool) (step : S → E → S × A) : S → List E → List A
  | _, [] => []
  | s, e :: es =>
    if picked e then (step s e).2 :: answersTo picked step (step s e).1 es
    else answersTo picked step (step s e).1 es

/-- A condition on the state and the input holds at every step. -/
def Along (ok : S → E → Prop) (step : S → E → S × A) : S → List E → Prop
  | _, [] => True
  | s, e :: es => ok s e ∧ Along ok step (step s e).1 es

variable {step : S → E → S × A} {es : List E}

theorem along_true (s : S) (es : List E) : Along (fun _ _ => True) step s es := by
  induction es generalizing s with
  | nil => trivial
  | cons e es ih => exact ⟨trivial, ih _⟩

/--
A machine answers the inputs of one channel as one that has no other, when the others leave its part
of the state alone.
-/
theorem answersTo_eq_answers {own : E → Option F} {v : S → P} {act : P → F → P × A} {I : S → Prop}
    {room : S → E → Prop} {fits : P → F → Prop} (hi : ∀ s e, I s → I (step s e).1)
    (ho : ∀ s e, I s → room s e → own e = none → v (step s e).1 = v s)
    (how : ∀ s e f, I s → room s e → own e = some f → fits (v s) f →
      act (v s) f = (v (step s e).1, (step s e).2)) {s : S} (hs : I s) (hr : Along room step s es)
    (hf : Along fits act (v s) (es.filterMap own)) :
    answersTo (fun e => (own e).isSome) step s es = answers act (v s) (es.filterMap own) := by
  induction es generalizing s with
  | nil => rfl
  | cons e es ih =>
    obtain ⟨hr, hrs⟩ := hr
    cases he : own e with
    | none =>
      have hv := ho s e hs hr he
      rw [List.filterMap_cons_none he] at hf ⊢
      rw [← hv] at hf ⊢
      simpa [answersTo, he] using ih (hi s e hs) hrs hf
    | some f =>
      rw [List.filterMap_cons_some he] at hf ⊢
      have ha := how s e f hs hr he hf.1
      have hf' := hf.2
      rw [ha] at hf'
      simp only [answersTo, he, Option.isSome_some, if_true, answers, ha]
      rw [ih (hi s e hs) hrs hf']

/--
A machine answers the inputs that are picked as if there were no others, when the others keep a
relation to a machine that does not see them.
-/
theorem answersTo_eq_answers_filter {picked : E → Bool} {R : List E → S → S → Prop}
    (ho : ∀ e es s s', picked e = false → R (e :: es) s s' → R es (step s e).1 s')
    (how : ∀ e es s s', picked e = true → R (e :: es) s s' →
      (step s e).2 = (step s' e).2 ∧ R es (step s e).1 (step s' e).1) {s s' : S} (h : R es s s') :
    answersTo picked step s es = answers step s' (es.filter picked) := by
  induction es generalizing s s' with
  | nil => rfl
  | cons e es ih =>
    cases hp : picked e with
    | false =>
      rw [answersTo, if_neg (by simp [hp]), List.filter_cons_of_neg (by simp [hp])]
      exact ih (ho e es s s' hp h)
    | true =>
      obtain ⟨ha, hr⟩ := how e es s s' hp h
      rw [answersTo, if_pos hp, List.filter_cons_of_pos hp, answers, ha, ih hr]

end Runs

section Collected

variable {count index : ℕ} {content : List α} {held : Option (Progress α)} {parts : List (List α)}

/-- Numbered pieces are asked for one after the other, and the last completes the sequence. -/
theorem answers_collect (hp : parts ≠ []) (h : Reached count index content held)
    (hc : index + parts.length = count) :
    answers collect held (numbered count index parts) =
      List.replicate (parts.length - 1) .more ++ [.complete (content ++ parts.flatten)] := by
  induction parts generalizing held index content with
  | nil => exact (hp rfl).elim
  | cons part rest ih =>
    rw [numbered, answers]
    cases rest with
    | nil =>
      rw [h.collect_last hc]
      simp [numbered, answers]
    | cons next rest =>
      have hn : index + 1 + (next :: rest).length = count := by
        simp only [List.length_cons] at hc ⊢
        omega
      have hr : Reached count (index + 1) (content ++ part)
          (some ⟨count, index + 1, content ++ part⟩) := rfl
      rw [h.collect_more (by simp only [List.length_cons] at hn; omega),
        ih (List.cons_ne_nil _ _) hr hn]
      simp [List.replicate_succ]

theorem along_collect {max : ℕ} (h : Reached count index content held)
    (hc : index + parts.length = count) (hm : (content ++ parts.flatten).length ≤ max) :
    Along (Fits max) collect held (numbered count index parts) := by
  induction parts generalizing held index content with
  | nil => trivial
  | cons part rest ih =>
    have hp : content.length + part.length ≤ max := by
      simp only [List.length_append, List.flatten_cons] at hm
      omega
    refine ⟨by rwa [Fits, h.gathered_eq], ?_⟩
    cases rest with
    | nil => trivial
    | cons next rest =>
      rw [h.collect_more (by simp only [List.length_cons] at hc; omega)]
      refine ih rfl (by simp only [List.length_cons] at hc ⊢; omega) ?_
      rwa [List.append_assoc, ← List.flatten_cons]

end Collected

end MessageServer.Fragments
