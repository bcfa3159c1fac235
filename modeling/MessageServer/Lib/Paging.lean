import Mathlib.Data.List.Induction
import Mathlib.Order.Nat

/-! # Paging through a growing list

A list of numbered entries is read in pages: each page starts behind a cursor,
holds some of the wanted entries that follow, and moves the cursor to its last
one. What the pages of a finished walk hold is what the list at its last page
holds.
-/

namespace MessageServer.Paging

variable {α : Type*} (id : α → ℕ) (wanted : α → Bool)

def behind (cursor : ℕ) (l : List α) : List α := l.filter fun x => wanted x && cursor < id x

def next (cursor : ℕ) (page : List α) : ℕ := (page.getLast?.map id).getD cursor

/-- The entries of a list stand in the order of their numbers. -/
def InOrder (l : List α) : Prop := l.Pairwise fun x y => id x < id y

variable {id wanted} {l l' page : List α} {cursor : ℕ} {x : α}

theorem mem_behind : x ∈ behind id wanted cursor l ↔ x ∈ l ∧ wanted x = true ∧ cursor < id x := by
  simp [behind]

theorem InOrder.behind (h : InOrder id l) : InOrder id (behind id wanted cursor l) :=
  List.Pairwise.filter _ h

theorem next_cons (x : α) : next id cursor (x :: page) = next id (id x) page := by
  cases page with
  | nil => rfl
  | cons y page => simp [next, List.getLast?_cons]

theorem behind_cons_of_pos (hw : wanted x = true) (hx : cursor < id x) :
    behind id wanted cursor (x :: l) = x :: behind id wanted cursor l := by
  simp [behind, hw, hx]

theorem behind_cons_of_neg (h : ¬ (wanted x = true ∧ cursor < id x)) :
    behind id wanted cursor (x :: l) = behind id wanted cursor l := by
  rw [behind, List.filter_cons_of_neg (by simpa using h), behind]

theorem le_next (h : ∀ x ∈ page, cursor < id x) : cursor ≤ next id cursor page := by
  cases hl : page.getLast? with
  | none => simp [next, hl]
  | some x =>
    simp only [next, hl, Option.map_some, Option.getD_some]
    exact (h x (List.mem_of_getLast? hl)).le

theorem InOrder.le_next (h : InOrder id page) (cursor : ℕ) (hx : x ∈ page) :
    id x ≤ next id cursor page := by
  induction page using List.reverseRecOn with
  | nil => simp at hx
  | append_singleton page y _ =>
    have hy : next id cursor (page ++ [y]) = id y := by simp [next]
    rw [hy]
    rcases List.mem_append.mp hx with hx | hx
    · exact ((List.pairwise_append.mp h).2.2 x hx y (by simp)).le
    · rw [List.mem_singleton.mp hx]

theorem InOrder.next_lt {rest : List α} (h : InOrder id (page ++ rest))
    (hc : ∀ x ∈ rest, cursor < id x) (hx : x ∈ rest) : next id cursor page < id x := by
  cases hl : page.getLast? with
  | none =>
    simp only [next, hl, Option.map_none, Option.getD_none]
    exact hc x hx
  | some y =>
    simp only [next, hl, Option.map_some, Option.getD_some]
    exact (List.pairwise_append.mp h).2.2 y (List.mem_of_getLast? hl) x hx

theorem behind_behind {cursor' : ℕ} (h : cursor ≤ cursor') :
    behind id wanted cursor' (behind id wanted cursor l) = behind id wanted cursor' l := by
  rw [behind, behind, behind, List.filter_filter]
  refine List.filter_congr fun x _ => ?_
  cases wanted x with
  | false => rfl
  | true =>
    have hlt : cursor' < id x → cursor < id x := fun hx => h.trans_lt hx
    by_cases hx : cursor' < id x
    · simp [hx, hlt hx]
    · simp [hx]

/-- A page of an earlier list, and what the later list holds behind it. -/
theorem behind_eq_append (hl : l <+: l') (ho : InOrder id l') (n : ℕ) :
    behind id wanted cursor l' = (behind id wanted cursor l).take n ++
      behind id wanted (next id cursor ((behind id wanted cursor l).take n)) l' := by
  set page := (behind id wanted cursor l).take n with hp
  have hbf : page <+: behind id wanted cursor l' := (List.take_prefix n _).trans (hl.filter _)
  obtain ⟨rest, hr⟩ := hbf
  have hb : ∀ x ∈ page ++ rest, wanted x = true ∧ cursor < id x := by
    intro x hx
    exact (mem_behind.mp (hr ▸ hx)).2
  have hor : InOrder id (page ++ rest) := hr ▸ ho.behind
  have hle : cursor ≤ next id cursor page :=
    le_next fun x hx => (hb x (List.mem_append_left _ hx)).2
  have hn : behind id wanted (next id cursor page) page = [] := by
    refine List.filter_eq_nil_iff.mpr fun x hx => ?_
    have hx' := InOrder.le_next (List.pairwise_append.mp hor).1 cursor hx
    simp [Nat.not_lt.mpr hx']
  have ha : behind id wanted (next id cursor page) rest = rest := by
    refine List.filter_eq_self.mpr fun x hx => ?_
    have hlt := hor.next_lt (fun y hy => (hb y (List.mem_append_right _ hy)).2) hx
    simp [(hb x (List.mem_append_right _ hx)).1, hlt]
  rw [← hr, ← behind_behind hle, ← hr]
  conv_rhs => rw [behind, List.filter_append, ← behind, ← behind, hn, ha]
  rfl

variable (id wanted) in
/--
A walk from a cursor to a list: the entries it was served, page by page, from lists that the
last one extends. The last page leaves nothing out.
-/
inductive Walk : ℕ → List α → List α → Prop
  | last (cursor : ℕ) (l : List α) : Walk cursor (behind id wanted cursor l) l
  | more {cursor : ℕ} {l l' served : List α} (n : ℕ) (grown : l <+: l')
      (rest : Walk (next id cursor ((behind id wanted cursor l).take n)) served l') :
      Walk cursor ((behind id wanted cursor l).take n ++ served) l'

theorem Walk.served_eq {served : List α} (w : Walk id wanted cursor served l)
    (ho : InOrder id l) : served = behind id wanted cursor l := by
  induction w with
  | last => rfl
  | more n grown _ ih => rw [ih ho, ← behind_eq_append grown ho n]

end MessageServer.Paging
