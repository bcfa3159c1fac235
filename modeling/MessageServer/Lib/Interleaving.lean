import Mathlib.Logic.Function.Basic
import Mathlib.Data.List.Induction

/-! # Interleaved calls over shared state

A machine gives one atomic step of a call on a shared state and on the call's
own local state. A world runs a family of calls in the order of a schedule.
The rules below reduce a property of every schedule to single steps: what a
call's own step keeps, and what the steps of the others leave true of it.
-/

namespace MessageServer.Interleaving

variable {S L T ι : Type*}

/-- The atomic step of a call, under an input such as a clock reading. -/
structure Machine (S L T : Type*) where
  step : T → S → L → S × L

/-- A shared state together with the local state of every call. -/
structure World (S L ι : Type*) where
  shared : S
  calls : ι → L

namespace Machine

variable [DecidableEq ι] (M : Machine S L T)

/-- Call `m.1` takes its next step under the input `m.2`. -/
def turn (w : World S L ι) (m : ι × T) : World S L ι where
  shared := (M.step m.2 w.shared (w.calls m.1)).1
  calls := Function.update w.calls m.1 (M.step m.2 w.shared (w.calls m.1)).2

def exec (w : World S L ι) (sched : List (ι × T)) : World S L ι := sched.foldl M.turn w

variable {M} {w : World S L ι} {m : ι × T}

@[simp] theorem exec_nil : M.exec w [] = w := rfl

@[simp] theorem exec_cons (m : ι × T) (sched : List (ι × T)) :
    M.exec w (m :: sched) = M.exec (M.turn w m) sched := rfl

theorem exec_append (p q : List (ι × T)) : M.exec w (p ++ q) = M.exec (M.exec w p) q := by
  simp [exec]

theorem exec_snoc (p : List (ι × T)) (m : ι × T) : M.exec w (p ++ [m]) = M.turn (M.exec w p) m := by
  simp [exec]

theorem turn_shared (m : ι × T) : (M.turn w m).shared = (M.step m.2 w.shared (w.calls m.1)).1 := rfl

@[simp] theorem turn_calls_self (i : ι) (t : T) :
    (M.turn w (i, t)).calls i = (M.step t w.shared (w.calls i)).2 := by
  simp [turn]

theorem turn_calls_of_ne {i : ι} (h : i ≠ m.1) : (M.turn w m).calls i = w.calls i := by
  simp [turn, h]

theorem turn_of_stutter (h : M.step m.2 w.shared (w.calls m.1) = (w.shared, w.calls m.1)) :
    M.turn w m = w := by
  simp [turn, h]

theorem exec_induction {P : World S L ι → Prop} (hw : P w)
    (hs : ∀ w m, P w → P (M.turn w m)) (sched : List (ι × T)) : P (M.exec w sched) := by
  induction sched generalizing w with
  | nil => exact hw
  | cons m sched ih => exact ih (hs w m hw)

theorem exec_calls {A : ι → L → Prop} (hs : ∀ i t s l, A i l → A i (M.step t s l).2)
    (hw : ∀ i, A i (w.calls i)) (sched : List (ι × T)) (i : ι) :
    A i ((M.exec w sched).calls i) := by
  refine exec_induction (P := fun w => ∀ i, A i (w.calls i)) hw (fun w m hw j => ?_) sched i
  by_cases hj : j = m.1
  · subst hj
    rw [turn_calls_self]
    exact hs _ _ _ _ (hw m.1)
  · rw [turn_calls_of_ne hj]
    exact hw j

variable {R : Type*} {reply : L → Option R} {t : T} {x : S × L} {out : S × R}

/-- A call with no other beside it ends on this state, with this reply. -/
inductive Concludes (M : Machine S L T) (reply : L → Option R) (t : T) : S × L → S × R → Prop
  | here {s : S} {l : L} {a : R} (replied : reply l = some a) : Concludes M reply t (s, l) (s, a)
  | step {s : S} {l : L} {out : S × R} (next : Concludes M reply t (M.step t s l) out) :
      Concludes M reply t (s, l) out

theorem Concludes.exec (h : M.Concludes reply t x out) {i : ι} (hw : (w.shared, w.calls i) = x) :
    ∃ n, (M.exec w (List.replicate n (i, t))).shared = out.1 ∧
      reply ((M.exec w (List.replicate n (i, t))).calls i) = some out.2 := by
  induction h generalizing w with
  | here replied =>
    cases hw
    exact ⟨0, rfl, replied⟩
  | step _ ih =>
    cases hw
    obtain ⟨n, hn⟩ := ih (w := M.turn w (i, t)) (by simp [turn])
    exact ⟨n + 1, hn⟩

/--
An invariant `P` of the shared state with an assertion `A` about each call, kept by every step.
-/
structure Invariant (M : Machine S L T) (P : S → Prop) (A : S → L → Prop) : Prop where
  shared : ∀ t s l, P s → A s l → P (M.step t s l).1
  own : ∀ t s l, P s → A s l → A (M.step t s l).1 (M.step t s l).2
  others : ∀ t s l l', P s → A s l → A s l' → A (M.step t s l).1 l'

variable {A : S → L → Prop} {P : S → Prop}

theorem Invariant.turn (h : M.Invariant P A) (m : ι × T)
    (hw : P w.shared ∧ ∀ i, A w.shared (w.calls i)) :
    P (M.turn w m).shared ∧ ∀ i, A (M.turn w m).shared ((M.turn w m).calls i) := by
  obtain ⟨hp, ha⟩ := hw
  refine ⟨h.shared _ _ _ hp (ha m.1), fun i => ?_⟩
  by_cases hi : i = m.1
  · subst hi
    rw [turn_calls_self]
    exact h.own _ _ _ hp (ha m.1)
  · rw [turn_calls_of_ne hi]
    exact h.others _ _ _ _ hp (ha m.1) (ha i)

theorem Invariant.exec (h : M.Invariant P A)
    (hp : P w.shared) (ha : ∀ i, A w.shared (w.calls i)) (sched : List (ι × T)) :
    P (M.exec w sched).shared ∧ ∀ i, A (M.exec w sched).shared ((M.exec w sched).calls i) :=
  exec_induction (P := fun w => P w.shared ∧ ∀ i, A w.shared (w.calls i)) ⟨hp, ha⟩
    (fun _ m hw => h.turn m hw) sched

theorem Invariant.exec_rel (h : M.Invariant P A)
    {R : S → S → Prop} (refl : ∀ s, R s s) (trans : ∀ {a b c}, R a b → R b c → R a c)
    (hs : ∀ t s l, P s → A s l → R s (M.step t s l).1)
    (hp : P w.shared) (ha : ∀ i, A w.shared (w.calls i)) (sched : List (ι × T)) :
    R w.shared (M.exec w sched).shared := by
  induction sched generalizing w with
  | nil => exact refl _
  | cons m sched ih =>
    have ht := h.turn m ⟨hp, ha⟩
    exact trans (hs _ _ _ hp (ha m.1)) (ih ht.1 ht.2)

/--
A call keeps what it once saw: `A R` says that some of its data stood in states of which `R` is
true.
-/
theorem exec_seen {A : (S → Prop) → L → Prop}
    (mono : ∀ {R R' : S → Prop} {l}, (∀ s, R s → R' s) → A R l → A R' l)
    (hs : ∀ {R : S → Prop} t s l, R s → R (M.step t s l).1 → A R l → A R (M.step t s l).2)
    (hw : ∀ i, A (fun _ => False) (w.calls i)) (sched : List (ι × T)) (i : ι) :
    A (fun s => ∃ p q, sched = p ++ q ∧ s = (M.exec w p).shared) ((M.exec w sched).calls i) := by
  induction sched using List.reverseRecOn generalizing i with
  | nil => exact mono (fun _ h => h.elim) (hw i)
  | append_singleton sched m ih =>
    have hm : ∀ s, (∃ p q, sched = p ++ q ∧ s = (M.exec w p).shared) →
        ∃ p q, sched ++ [m] = p ++ q ∧ s = (M.exec w p).shared := by
      rintro s ⟨p, q, rfl, hs⟩
      exact ⟨p, q ++ [m], List.append_assoc .., hs⟩
    have ha : ∃ p q, sched ++ [m] = p ++ q ∧
        (M.turn (M.exec w sched) m).shared = (M.exec w p).shared :=
      ⟨sched ++ [m], [], (List.append_nil _).symm, by rw [exec_snoc]⟩
    rw [exec_snoc]
    by_cases hi : i = m.1
    · subst hi
      rw [turn_calls_self]
      exact hs _ _ _ ⟨sched, [m], rfl, rfl⟩ ha (mono hm (ih _))
    · rw [turn_calls_of_ne hi]
      exact mono hm (ih i)

section Parts

variable {κ V : Type*}

/-- The shared state falls into parts, and a call steps within the one it names. -/
structure Parted (M : Machine S L T) (name : L → κ) (part : κ → S → V) : Prop where
  named : ∀ t s l, name (M.step t s l).2 = name l
  answers : ∀ t s s' l, part (name l) s = part (name l) s' → (M.step t s l).2 = (M.step t s' l).2
  writes : ∀ t s s' l, part (name l) s = part (name l) s' →
    part (name l) (M.step t s l).1 = part (name l) (M.step t s' l).1
  others : ∀ t s l k, k ≠ name l → part k (M.step t s l).1 = part k s

def Alike (name : L → κ) (part : κ → S → V) (k : κ) (w w' : World S L ι) : Prop :=
  part k w.shared = part k w'.shared ∧ ∀ i, name (w.calls i) = k → w.calls i = w'.calls i

variable {name : L → κ} {part : κ → S → V}

theorem Parted.name_turn (h : M.Parted name part) (w : World S L ι) (m : ι × T) (i : ι) :
    name ((M.turn w m).calls i) = name (w.calls i) := by
  by_cases hi : i = m.1
  · subst hi
    rw [turn_calls_self]
    exact h.named _ _ _
  · rw [turn_calls_of_ne hi]

theorem Parted.name_exec (h : M.Parted name part) (w : World S L ι) (sched : List (ι × T)) (i : ι) :
    name ((M.exec w sched).calls i) = name (w.calls i) := by
  induction sched generalizing w with
  | nil => rfl
  | cons m sched ih => rw [exec_cons, ih, h.name_turn]

variable {k : κ}

theorem Parted.alike_own (h : M.Parted name part) {w w' : World S L ι} (hm : name (w.calls m.1) = k)
    (ha : Alike name part k w w') :
    Alike name part k (M.turn w m) (M.turn w' m) := by
  obtain ⟨hp, hc⟩ := ha
  have hcl := hc m.1 hm
  subst hm
  constructor
  · rw [turn_shared, turn_shared, ← hcl]
    exact h.writes _ _ _ _ hp
  · intro i hi
    rw [h.name_turn] at hi
    by_cases him : i = m.1
    · subst him
      rw [turn_calls_self, turn_calls_self, ← hcl]
      exact h.answers _ _ _ _ hp
    · rw [turn_calls_of_ne him, turn_calls_of_ne him]
      exact hc i hi

theorem Parted.alike_other (h : M.Parted name part) {w w' : World S L ι}
    (hm : name (w.calls m.1) ≠ k) (ha : Alike name part k w w') :
    Alike name part k (M.turn w m) w' := by
  obtain ⟨hp, hc⟩ := ha
  constructor
  · rw [turn_shared, h.others _ _ _ _ (Ne.symm hm)]
    exact hp
  · intro i hi
    rw [h.name_turn] at hi
    rw [turn_calls_of_ne]
    · exact hc i hi
    · rintro rfl
      exact hm hi

theorem Parted.alike_exec [DecidableEq κ] (h : M.Parted name part) {w w' : World S L ι}
    {names : ι → κ} (hn : ∀ i, name (w.calls i) = names i) (ha : Alike name part k w w')
    (sched : List (ι × T)) :
    Alike name part k (M.exec w sched) (M.exec w' (sched.filter fun m => names m.1 = k)) := by
  induction sched generalizing w w' with
  | nil => exact ha
  | cons m sched ih =>
    have ht : ∀ i, name ((M.turn w m).calls i) = names i := by
      intro i
      rw [h.name_turn, hn]
    by_cases hm : names m.1 = k
    · rw [List.filter_cons_of_pos (by simpa using hm)]
      exact ih ht (h.alike_own ((hn _).trans hm) ha)
    · rw [List.filter_cons_of_neg (by simpa using hm)]
      exact ih ht (h.alike_other (by rwa [hn]) ha)

end Parts

end Machine

section Serial

variable {κ R : Type*} (op : T → S → κ → S × R) (names : ι → κ) (s₀ : S)

/-- Calls made one at a time, each once and with the reply it is given. -/
inductive Serial (reply : ι → Option R) : List (ι × T) → S → Prop
  | nil : Serial reply [] s₀
  | snoc {order : List (ι × T)} {s : S} {m : ι × T} (h : Serial reply order s)
      (once : m.1 ∉ order.map Prod.fst) (replied : reply m.1 = some (op m.2 s (names m.1)).2) :
      Serial reply (order ++ [m]) (op m.2 s (names m.1)).1

variable {op names s₀} {reply reply' : ι → Option R} {order : List (ι × T)} {s : S}

theorem Serial.mono (hr : ∀ i a, reply i = some a → reply' i = some a)
    (h : Serial op names s₀ reply order s) : Serial op names s₀ reply' order s := by
  induction h with
  | nil => exact .nil
  | snoc _ once replied ih => exact ih.snoc once (hr _ _ replied)

theorem Serial.replied (h : Serial op names s₀ reply order s) {i : ι}
    (hi : i ∈ order.map Prod.fst) : reply i ≠ none := by
  induction h with
  | nil => cases hi
  | snoc _ _ replied ih =>
    rw [List.map_append, List.mem_append] at hi
    rcases hi with hi | hi
    · exact ih hi
    · rw [List.mem_singleton.mp hi, replied]
      exact Option.some_ne_none _

/--
Every step leaves the shared state alone or is one whole call, which it replies to; a call with a
reply has ended.
-/
structure Machine.Atomic (M : Machine S L T) (P : S → Prop) (A : S → L → Prop)
    (op : T → S → κ → S × R) (name : L → κ) (reply : L → Option R) : Prop where
  invariant : M.Invariant P A
  named : ∀ t s l, name (M.step t s l).2 = name l
  ended : ∀ t s l, reply l ≠ none → M.step t s l = (s, l)
  step : ∀ t s l, P s → A s l → (M.step t s l).1 = s ∨
    (M.step t s l).1 = (op t s (name l)).1 ∧ reply (M.step t s l).2 = some (op t s (name l)).2

variable [DecidableEq ι] {M : Machine S L T} {P : S → Prop} {A : S → L → Prop} {name : L → κ}
  {reply : L → Option R} {w : World S L ι}

open Machine in
theorem Machine.Atomic.serial (h : M.Atomic P A op name reply) (hp : P w.shared)
    (ha : ∀ i, A w.shared (w.calls i)) (sched : List (ι × T)) :
    ∃ order, order.Sublist sched ∧ Serial op (fun i => name (w.calls i)) w.shared
      (fun i => reply ((M.exec w sched).calls i)) order (M.exec w sched).shared := by
  induction sched using List.reverseRecOn with
  | nil => exact ⟨[], List.Sublist.refl _, .nil⟩
  | append_singleton sched m ih =>
    obtain ⟨order, hs, ho⟩ := ih
    obtain ⟨hp', ha'⟩ := h.invariant.exec hp ha sched
    have hn : name ((M.exec w sched).calls m.1) = name (w.calls m.1) :=
      exec_calls (A := fun i l => name l = name (w.calls i))
        (fun i t s l hl => (h.named t s l).trans hl) (fun _ => rfl) sched m.1
    rw [exec_snoc]
    have hr : ∀ i a, reply ((M.exec w sched).calls i) = some a →
        reply ((M.turn (M.exec w sched) m).calls i) = some a := by
      intro i a hi
      by_cases him : i = m.1
      · subst him
        rwa [turn_of_stutter (h.ended _ _ _ (by rw [hi]; exact Option.some_ne_none a))]
      · rwa [turn_calls_of_ne him]
    by_cases hm : reply ((M.exec w sched).calls m.1) = none
    · rcases h.step m.2 _ _ hp' (ha' m.1) with hst | ⟨hst, ht⟩
      · refine ⟨order, hs.trans (List.sublist_append_left ..), ?_⟩
        rw [turn_shared, hst]
        exact ho.mono hr
      · refine ⟨order ++ [m], hs.append (List.Sublist.refl _), ?_⟩
        rw [turn_shared, hst, hn]
        refine (ho.mono hr).snoc (fun hi => ho.replied hi hm) ?_
        rw [turn_calls_self, ht, hn]
    · refine ⟨order, hs.trans (List.sublist_append_left ..), ?_⟩
      rw [turn_of_stutter (h.ended _ _ _ hm)]
      exact ho

end Serial

section Refinement

variable {S' L' T' : Type*}

def World.map (f : S → S') (g : L → L') (w : World S L ι) : World S' L' ι where
  shared := f w.shared
  calls i := g (w.calls i)

/--
Seen through two maps, each step of a machine is one step of another, under the input it emits, or
none.
-/
structure Refinement (M : Machine S L T) (N : Machine S' L' T') where
  shared : S → S'
  call : L → L'
  emit : T → S → L → Option T'
  valid : L → Prop
  keeps : ∀ t s l, valid l → valid (M.step t s l).2
  stutter : ∀ t s l, valid l → emit t s l = none →
    shared (M.step t s l).1 = shared s ∧ call (M.step t s l).2 = call l
  step : ∀ t s l t', valid l → emit t s l = some t' →
    N.step t' (shared s) (call l) = (shared (M.step t s l).1, call (M.step t s l).2)

namespace Refinement

variable {M : Machine S L T} {N : Machine S' L' T'} (R : Refinement M N) [DecidableEq ι]

def project (w : World S L ι) : List (ι × T) → List (ι × T')
  | [] => []
  | m :: sched =>
    ((R.emit m.2 w.shared (w.calls m.1)).map fun t => (m.1, t)).toList ++ project (M.turn w m) sched

theorem project_append (w : World S L ι) (p q : List (ι × T)) :
    R.project w (p ++ q) = R.project w p ++ R.project (M.exec w p) q := by
  induction p generalizing w with
  | nil => rfl
  | cons m p ih => rw [List.cons_append, project, project, ih, List.append_assoc, Machine.exec_cons]

variable {R} {w : World S L ι}

variable (hw : ∀ i, R.valid (w.calls i))
include hw

variable (sched : List (ι × T))

theorem valid_exec (i : ι) : R.valid ((M.exec w sched).calls i) :=
  Machine.exec_calls (A := fun _ => R.valid) (fun _ => R.keeps) hw sched i

/-- One turn is the projected turns below it. -/
theorem map_turn (m : ι × T) : (M.turn w m).map R.shared R.call = N.exec (w.map R.shared R.call)
      ((R.emit m.2 w.shared (w.calls m.1)).map fun t => (m.1, t)).toList := by
  cases he : R.emit m.2 w.shared (w.calls m.1) with
  | none =>
    obtain ⟨hs, hc⟩ := R.stutter _ _ _ (hw m.1) he
    refine congrArg₂ World.mk hs (funext fun i => ?_)
    by_cases hi : i = m.1
    · subst hi
      rw [Machine.turn_calls_self, hc]
    · rw [Machine.turn_calls_of_ne hi]
  | some t =>
    have hst : N.step t (R.shared w.shared) (R.call (w.calls m.1)) = _ := R.step _ _ _ _ (hw m.1) he
    simp only [Option.map_some, Option.toList_some, Machine.exec_cons, Machine.exec_nil,
      Machine.turn, World.map, hst]
    refine congrArg₂ World.mk rfl (funext fun i => ?_)
    by_cases hi : i = m.1
    · simp [hi]
    · simp [hi]

theorem map_exec :
    (M.exec w sched).map R.shared R.call = N.exec (w.map R.shared R.call) (R.project w sched) := by
  induction sched generalizing w with
  | nil => rfl
  | cons m sched ih =>
    have ht : ∀ i, R.valid ((M.turn w m).calls i) := valid_exec hw [m]
    rw [Machine.exec_cons, ih ht, project, Machine.exec_append, map_turn hw m]

end Refinement

end Refinement

end MessageServer.Interleaving
