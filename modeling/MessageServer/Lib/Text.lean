import Mathlib.Data.List.DropRight
import Mathlib.Data.List.Infix

/-! # Pieces, cuts and trims of a text

A text is a list. It is split at a separator into its pieces, cut in two at the
first separator, and trimmed of the tokens it starts and ends with.
-/

namespace MessageServer.Text

variable {α : Type*} [DecidableEq α]

/-- The pieces that a separator ends; what follows the last one is a piece unless it is empty. -/
def pieces (sep : α) : List α → List (List α)
  | [] => []
  | a :: s =>
    if a = sep then [] :: pieces sep s
    else
      match pieces sep s with
      | [] => [[a]]
      | piece :: rest => (a :: piece) :: rest

def split (sep : α) : List α → List (List α)
  | [] => [[]]
  | a :: s =>
    if a = sep then [] :: split sep s
    else
      match split sep s with
      | [] => [[a]]
      | piece :: rest => (a :: piece) :: rest

def cut (sep : α) : List α → Option (List α × List α)
  | [] => none
  | a :: s =>
    if a = sep then some ([], s) else (cut sep s).map fun halves => (a :: halves.1, halves.2)

/-- The text without the tokens it starts with, as far as the fuel reaches. -/
def stripFrom (tokens : List (List α)) : ℕ → List α → List α
  | 0, s => s
  | fuel + 1, s =>
    match tokens.find? (·.isPrefixOf s) with
    | none => s
    | some token => stripFrom tokens fuel (s.drop token.length)

def strip (tokens : List (List α)) (s : List α) : List α := stripFrom tokens s.length s

/-- The text without the tokens it starts and ends with. -/
def trim (tokens : List (List α)) (s : List α) : List α :=
  (strip (tokens.map List.reverse) (strip tokens s).reverse).reverse

section Pieces

variable {sep : α}

theorem split_eq_pieces (sep : α) (s : List α) :
    split sep s = pieces sep s ∨ split sep s = pieces sep s ++ [[]] := by
  induction s with
  | nil => exact .inr rfl
  | cons a s ih =>
    unfold split pieces
    split
    · rcases ih with ih | ih <;> simp [ih]
    · cases hp : pieces sep s with
      | nil => rcases ih with ih | ih <;> simp [ih, hp]
      | cons piece rest => rcases ih with ih | ih <;> simp [ih, hp]

end Pieces

section Cut

variable {sep : α} {s b t : List α}

theorem cut_append (h : sep ∉ b) : cut sep (b ++ sep :: t) = some (b, t) := by
  induction b with
  | nil => simp [cut]
  | cons a b ih =>
    obtain ⟨ha, hb⟩ := not_or.mp (fun hm => h (List.mem_cons.mpr hm))
    rw [List.cons_append, cut, if_neg (Ne.symm ha), ih hb]
    rfl

theorem eq_of_cut (h : cut sep s = some (b, t)) : s = b ++ sep :: t ∧ sep ∉ b := by
  induction s generalizing b t with
  | nil => cases h
  | cons a s ih =>
    unfold cut at h
    split at h
    next ha =>
      cases h
      exact ⟨by rw [ha, List.nil_append], List.not_mem_nil⟩
    next ha =>
      obtain ⟨⟨b', t'⟩, hc, hbt⟩ := Option.map_eq_some_iff.mp h
      cases hbt
      obtain ⟨rfl, hb'⟩ := ih hc
      refine ⟨rfl, ?_⟩
      rintro (_ | ⟨_, hm⟩)
      · exact ha rfl
      · exact hb' hm

end Cut

section Strip

variable {tokens : List (List α)} {s : List α}

def Bare (tokens : List (List α)) (s : List α) : Prop := ∀ token ∈ tokens, ¬ token <+: s

theorem stripFrom_eq_self (h : Bare tokens s) (fuel : ℕ) : stripFrom tokens fuel s = s := by
  cases fuel with
  | zero => rfl
  | succ fuel =>
    have hf : tokens.find? (·.isPrefixOf s) = none := by
      rw [List.find?_eq_none]
      intro token ht hb
      exact h token ht (List.isPrefixOf_iff_prefix.mp hb)
    rw [stripFrom, hf]

theorem strip_eq_self (h : Bare tokens s) : strip tokens s = s := stripFrom_eq_self h _

theorem mem_of_find_prefix {token : List α}
    (h : tokens.find? (·.isPrefixOf s) = some token) : token ∈ tokens ∧ token <+: s := by
  have hb := @List.find?_some _ (·.isPrefixOf s) token tokens h
  exact ⟨List.mem_of_find?_eq_some h, List.isPrefixOf_iff_prefix.mp hb⟩

/-- A stripped text starts with no token, and what came off it are tokens. -/
theorem stripFrom_spec (htn : [] ∉ tokens) {fuel : ℕ} (hfl : s.length ≤ fuel) :
    Bare tokens (stripFrom tokens fuel s) ∧ ∃ off : List (List α), (∀ token ∈ off, token ∈ tokens) ∧
        s = off.flatten ++ stripFrom tokens fuel s := by
  induction fuel generalizing s with
  | zero =>
    obtain rfl := List.eq_nil_of_length_eq_zero (Nat.le_zero.mp hfl)
    refine ⟨?_, [], nofun, rfl⟩
    intro token htk hb
    rw [stripFrom, List.prefix_nil] at hb
    exact htn (hb ▸ htk)
  | succ fuel ih =>
    unfold stripFrom
    split
    next hf =>
      refine ⟨?_, [], nofun, rfl⟩
      intro token htk hb
      exact List.find?_eq_none.mp hf token htk (List.isPrefixOf_iff_prefix.mpr hb)
    next token hf =>
      obtain ⟨htk, t, rfl⟩ := mem_of_find_prefix hf
      have hp : token.length ≠ 0 := by
        intro hz
        exact htn (List.eq_nil_of_length_eq_zero hz ▸ htk)
      rw [List.drop_left]
      rw [List.length_append] at hfl
      obtain ⟨hbr, off, ho, ht⟩ := ih (s := t) (by omega)
      refine ⟨hbr, token :: off, ?_, ?_⟩
      · rintro token' (_ | ⟨_, hm⟩)
        · exact htk
        · exact ho token' hm
      · rw [List.flatten_cons, List.append_assoc, ← ht]

theorem strip_spec (ht : [] ∉ tokens) (s : List α) :
    Bare tokens (strip tokens s) ∧ ∃ off : List (List α), (∀ token ∈ off, token ∈ tokens) ∧
        s = off.flatten ++ strip tokens s :=
  stripFrom_spec ht (Nat.le_refl _)

end Strip

section Trim

variable {tokens : List (List α)} {s t : List α}

structure Trimmed (tokens : List (List α)) (s t : List α) : Prop where
  around : ∃ front back : List (List α), (∀ token ∈ front, token ∈ tokens) ∧
    (∀ token ∈ back, token ∈ tokens) ∧ s = front.flatten ++ t ++ back.flatten
  front : Bare tokens t
  back : ∀ token ∈ tokens, ¬ token <:+ t

theorem trim_trimmed (htk : [] ∉ tokens) (s : List α) : Trimmed tokens s (trim tokens s) := by
  obtain ⟨hbr, front, hf, hs⟩ := strip_spec htk s
  have hr : [] ∉ tokens.map List.reverse := by simpa using htk
  obtain ⟨hb', off, ho, hs'⟩ := strip_spec hr (strip tokens s).reverse
  have hb : strip tokens s = trim tokens s ++ (off.reverse.map List.reverse).flatten := by
    rw [List.map_reverse, ← List.reverse_flatten, trim, ← List.reverse_append, ← hs',
      List.reverse_reverse]
  refine ⟨⟨front, off.reverse.map List.reverse, hf, ?_, ?_⟩, ?_, ?_⟩
  · intro token ht
    obtain ⟨token', ht', rfl⟩ := List.mem_map.mp ht
    obtain ⟨token, hm, rfl⟩ := List.mem_map.mp (ho token' (List.mem_reverse.mp ht'))
    rwa [List.reverse_reverse]
  · rw [List.append_assoc, ← hb, ← hs]
  · intro token ht hbg
    apply hbr token ht
    rw [hb]
    exact hbg.trans (List.prefix_append _ _)
  · intro token ht hsf
    apply hb' token.reverse (List.mem_map_of_mem ht)
    rw [← List.reverse_suffix, List.reverse_reverse]
    exact hsf

end Trim

section Ends

variable {tokens : List (List α)} {s t : List α}

/-- The text without the tokens it ends with. -/
def stripEnd (tokens : List (List α)) (s : List α) : List α :=
  (strip (tokens.map List.reverse) s.reverse).reverse

/-- Every token starts with a letter that leads and goes on with letters that do not, and none
begins another. -/
structure Coded (tokens : List (List α)) : Prop where
  lead : ∃ leads : α → Prop, ∀ token ∈ tokens, ∃ a rest, token = a :: rest ∧ leads a ∧
    ∀ b ∈ rest, ¬ leads b
  free : ∀ token ∈ tokens, ∀ token' ∈ tokens, token <+: token' → token = token'

theorem stripFrom_of_le (htk : [] ∉ tokens) {fuel fuel' : ℕ} (h : s.length ≤ fuel)
    (h' : s.length ≤ fuel') : stripFrom tokens fuel s = stripFrom tokens fuel' s := by
  have hb : ∀ {s : List α}, s.length ≤ 0 → Bare tokens s := by
    intro s hs token ht hbg
    rw [List.eq_nil_of_length_eq_zero (Nat.le_zero.mp hs), List.prefix_nil] at hbg
    exact htk (hbg ▸ ht)
  induction fuel generalizing s fuel' with
  | zero => rw [stripFrom_eq_self (hb h), stripFrom_eq_self (hb h)]
  | succ fuel ih =>
    cases fuel' with
    | zero => rw [stripFrom_eq_self (hb h'), stripFrom_eq_self (hb h')]
    | succ fuel' =>
      unfold stripFrom
      split
      · rfl
      next token hf =>
        obtain ⟨ht, -⟩ := mem_of_find_prefix hf
        have hp : token.length ≠ 0 := fun hz =>
          htk (List.eq_nil_of_length_eq_zero hz ▸ ht)
        apply ih <;> rw [List.length_drop] <;> omega

theorem strip_flatten_append (htk : [] ∉ tokens)
    (hfr : ∀ token ∈ tokens, ∀ token' ∈ tokens, token <+: token' → token = token')
    {off : List (List α)} (ho : ∀ token ∈ off, token ∈ tokens) (s : List α) :
    strip tokens (off.flatten ++ s) = strip tokens s := by
  induction off with
  | nil => rfl
  | cons token off ih =>
    have ht := ho token List.mem_cons_self
    have hfn : tokens.find? (·.isPrefixOf (token ++ (off.flatten ++ s))) = some token := by
      cases hf : tokens.find? (·.isPrefixOf (token ++ (off.flatten ++ s))) with
      | none =>
        have hn := List.find?_eq_none.mp hf token ht
        exact (hn (List.isPrefixOf_iff_prefix.mpr (List.prefix_append ..))).elim
      | some token' =>
        obtain ⟨ht', hb⟩ := mem_of_find_prefix hf
        rcases List.prefix_or_prefix_of_prefix hb (List.prefix_append token _) with h | h
        · rw [hfr _ ht' _ ht h]
        · rw [hfr _ ht _ ht' h]
    obtain ⟨a, rest, rfl⟩ := List.exists_cons_of_ne_nil fun hnl => htk (hnl ▸ ht)
    rw [← ih fun token' h => ho token' (List.mem_cons_of_mem _ h), List.flatten_cons,
      List.append_assoc, strip, List.cons_append, List.length_cons, stripFrom, ← List.cons_append,
      hfn]
    dsimp only
    rw [List.drop_left, strip]
    apply stripFrom_of_le htk _ (Nat.le_refl _)
    exact (List.suffix_append rest _).length_le

theorem strip_append_sep (htk : [] ∉ tokens)
    (hf : ∀ token ∈ tokens, ∀ token' ∈ tokens, token <+: token' → token = token') {a : α}
    (ha : ∀ token ∈ tokens, a ∉ token) (s t : List α) :
    strip tokens (s ++ a :: t) = strip tokens s ++ a :: t := by
  obtain ⟨hbr, off, ho, hs⟩ := strip_spec htk s
  conv_lhs => rw [hs, List.append_assoc, strip_flatten_append htk hf ho]
  apply strip_eq_self
  intro token ht hb
  rw [List.append_cons] at hb
  rcases List.prefix_or_prefix_of_prefix hb (List.prefix_append _ t) with h | h
  · rcases List.prefix_concat_iff.mp h with heq | h
    · exact ha token ht (heq ▸ List.mem_append_right _ List.mem_cons_self)
    · exact hbr token ht h
  · exact ha token ht (h.subset (List.mem_append_right _ List.mem_cons_self))

theorem stripEnd_eq_self (hbc : ∀ token ∈ tokens, ¬ token <:+ s) : stripEnd tokens s = s := by
  rw [stripEnd, strip_eq_self, List.reverse_reverse]
  intro token ht hb
  obtain ⟨token', ht', rfl⟩ := List.mem_map.mp ht
  exact hbc token' ht' (List.reverse_prefix.mp hb)

theorem stripEnd_prefix (ht : [] ∉ tokens) (s : List α) : stripEnd tokens s <+: s := by
  have hr : [] ∉ tokens.map List.reverse := by simpa using ht
  obtain ⟨-, off, -, hs⟩ := strip_spec hr s.reverse
  rw [← List.reverse_suffix, stripEnd, List.reverse_reverse]
  exact ⟨off.flatten, hs.symm⟩

namespace Coded

variable (h : Coded tokens)
include h

omit [DecidableEq α] in
theorem nil_notMem : [] ∉ tokens := by
  obtain ⟨leads, hl⟩ := h.lead
  intro hn
  obtain ⟨a, rest, heq, -⟩ := hl [] hn
  cases heq

omit [DecidableEq α] in
theorem suffix_free : ∀ token ∈ tokens, ∀ token' ∈ tokens, token <:+ token' → token = token' := by
  obtain ⟨leads, hl⟩ := h.lead
  rintro token ht token' ht' ⟨init, rfl⟩
  obtain ⟨a, rest, rfl, ha, -⟩ := hl token ht
  obtain ⟨b, rest', heq, -, hr'⟩ := hl _ ht'
  cases init with
  | nil => rfl
  | cons c init =>
    refine (hr' a ?_ ha).elim
    rw [← (List.cons.inj heq).2]
    exact List.mem_append_right _ List.mem_cons_self

omit [DecidableEq α] in
theorem reversed : [] ∉ tokens.map List.reverse ∧ ∀ token ∈ tokens.map List.reverse,
    ∀ token' ∈ tokens.map List.reverse, token <+: token' → token = token' := by
  constructor
  · simpa using h.nil_notMem
  · intro _ hm _ hm' hb
    obtain ⟨token, ht, rfl⟩ := List.mem_map.mp hm
    obtain ⟨token', ht', rfl⟩ := List.mem_map.mp hm'
    rw [h.suffix_free token ht token' ht' (List.reverse_prefix.mp hb)]

variable {off : List (List α)}

theorem stripEnd_append_flatten (ho : ∀ token ∈ off, token ∈ tokens) (s : List α) :
    stripEnd tokens (s ++ off.flatten) = stripEnd tokens s := by
  rw [stripEnd, List.reverse_append, List.reverse_flatten, strip_flatten_append h.reversed.1
    h.reversed.2, stripEnd]
  intro token ht
  obtain ⟨token', ht', rfl⟩ := List.mem_map.mp (List.mem_reverse.mp ht)
  exact List.mem_map_of_mem (ho token' ht')

omit [DecidableEq α] in
/-- A token that reaches back into tokens starts where the last of them does, and so is it. -/
theorem not_suffix_append (ho : ∀ token ∈ off, token ∈ tokens) (ht : t ≠ [])
    (he : ∀ token ∈ tokens, ¬ token <:+ t) :
    ∀ token ∈ tokens, ¬ token <:+ off.flatten ++ t := by
  obtain ⟨leads, hld⟩ := h.lead
  intro token htk hsf
  rcases List.suffix_or_suffix_of_suffix hsf (List.suffix_append off.flatten t) with hs | hs
  · exact he token htk hs
  obtain ⟨v, rfl⟩ := hs
  obtain ⟨x, hx⟩ := hsf
  rw [← List.append_assoc, List.append_cancel_right_eq] at hx
  obtain ⟨a, rest, heq, ha, hr⟩ := hld _ htk
  cases v with
  | nil => exact he t htk List.suffix_rfl
  | cons a' v =>
    obtain ⟨rfl, rfl⟩ := List.cons.inj heq
    rcases List.eq_nil_or_concat off with rfl | ⟨init, last, rfl⟩
    · exact List.append_ne_nil_of_right_ne_nil x (List.cons_ne_nil _ _) hx
    have hl := ho last (by simp)
    obtain ⟨b, ys, rfl, hb, hys⟩ := hld last hl
    rw [List.concat_eq_append, List.flatten_append, List.flatten_singleton] at hx
    have hsm : b :: ys = a' :: v := by
      rcases List.append_eq_append_iff.mp hx with ⟨_ | ⟨c, cs⟩, -, hc⟩ | ⟨_ | ⟨c, cs⟩, -, hc⟩
      · exact hc.symm
      · refine (hr b (List.mem_append_left t ?_) hb).elim
        rw [(List.cons.inj hc).2]
        exact List.mem_append_right _ List.mem_cons_self
      · exact hc
      · refine (hys a' ?_ ha).elim
        rw [(List.cons.inj hc).2]
        exact List.mem_append_right _ List.mem_cons_self
    rw [hsm] at hl
    exact ht (List.append_right_eq_self.mp (h.free _ hl _ htk (List.prefix_append ..)).symm)

/-- What a text ends with can be taken off before or after what it starts with. -/
theorem strip_stripEnd (s : List α) : strip tokens (stripEnd tokens s) = trim tokens s := by
  obtain ⟨⟨front, back, hf, hbc, hs⟩, hb, he⟩ := trim_trimmed h.nil_notMem s
  generalize trim tokens s = t at hs hb he ⊢
  rw [hs, h.stripEnd_append_flatten hbc]
  by_cases ht : t = []
  · rw [ht, List.append_nil, ← List.nil_append front.flatten, h.stripEnd_append_flatten hf]
    rfl
  · rw [stripEnd_eq_self (h.not_suffix_append hf ht he),
      strip_flatten_append h.nil_notMem h.free hf,
      strip_eq_self hb]

theorem trim_append_flatten (ho : ∀ token ∈ off, token ∈ tokens) (s : List α) :
    trim tokens (s ++ off.flatten) = trim tokens s := by
  rw [← h.strip_stripEnd, h.stripEnd_append_flatten ho, h.strip_stripEnd]

theorem trim_stripEnd (s : List α) : trim tokens (stripEnd tokens s) = trim tokens s := by
  rw [← h.strip_stripEnd, stripEnd, stripEnd, List.reverse_reverse,
    strip_eq_self (strip_spec h.reversed.1 _).1, ← h.strip_stripEnd, stripEnd]

theorem trim_strip (s : List α) : trim tokens (strip tokens s) = trim tokens s := by
  rw [trim, strip_eq_self (strip_spec h.nil_notMem s).1, trim]

theorem trim_append_sep {a : α} (ha : ∀ token ∈ tokens, a ∉ token) (s t : List α) :
    trim tokens (s ++ a :: t) = strip tokens s ++ a :: stripEnd tokens t := by
  have ha' : ∀ token ∈ tokens.map List.reverse, a ∉ token := by
    intro token ht
    obtain ⟨token', ht', rfl⟩ := List.mem_map.mp ht
    exact fun hm => ha token' ht' (List.mem_reverse.mp hm)
  rw [trim, strip_append_sep h.nil_notMem h.free ha, List.reverse_append, List.reverse_cons,
    List.append_assoc, List.singleton_append, strip_append_sep h.reversed.1 h.reversed.2 ha']
  simp [stripEnd]

end Coded

end Ends

end MessageServer.Text
