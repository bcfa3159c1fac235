import Mathlib.Data.List.Basic

/-! # A bounded queue that drops its newest entry

An entry that finds the queue full is not queued. What comes out is in the order
of the offers, and the first entry of a kind comes out before every other of its
kind, if its offer found room.
-/

namespace MessageServer

structure Offered (α : Type*) where
  number : ℕ
  value : α
  deriving DecidableEq

/-- A bounded queue, with what was offered to it and what was taken out of it. -/
structure DropQueue (α : Type*) where
  depth : ℕ
  offered : List α
  waiting : List (Offered α)
  out : List (Offered α)

namespace DropQueue

variable {α κ : Type*}

def empty (depth : ℕ) : DropQueue α := ⟨depth, [], [], []⟩

variable (q : DropQueue α)

def hasRoom : Bool := q.waiting.length < q.depth

def offer (a : α) : DropQueue α :=
  { q with
    offered := q.offered ++ [a]
    waiting := if q.hasRoom then q.waiting ++ [⟨q.offered.length, a⟩] else q.waiting }

def take : DropQueue α :=
  match q.waiting with
  | [] => q
  | entry :: waiting => { q with waiting := waiting, out := q.out ++ [entry] }

def queued : List (Offered α) := q.out ++ q.waiting

@[simp] theorem queued_take : q.take.queued = q.queued := by
  unfold take
  split
  · rfl
  next hw => simp [queued, hw]

@[simp] theorem offered_take : q.take.offered = q.offered := by
  unfold take
  split <;> rfl

theorem queued_offer (a : α) : (q.offer a).queued =
    q.queued ++ if q.hasRoom then [⟨q.offered.length, a⟩] else [] := by
  unfold offer queued
  split <;> simp

structure Ordered : Prop where
  offered : ∀ entry ∈ q.queued, q.offered[entry.number]? = some entry.value
  increasing : q.queued.Pairwise (·.number < ·.number)

variable {q}

theorem Ordered.take (h : q.Ordered) : q.take.Ordered := by
  constructor
  · simpa using h.offered
  · simpa using h.increasing

theorem Ordered.number_lt (h : q.Ordered) {entry : Offered α} (he : entry ∈ q.queued) :
    entry.number < q.offered.length :=
  (List.getElem?_eq_some_iff.mp (h.offered entry he)).1

theorem Ordered.offer (h : q.Ordered) (a : α) : (q.offer a).Ordered := by
  have hol : ∀ entry ∈ q.queued, (q.offered ++ [a])[entry.number]? = some entry.value := by
    intro entry he
    rw [List.getElem?_append_left (h.number_lt he)]
    exact h.offered entry he
  constructor
  · rw [queued_offer]
    intro entry he
    obtain he | he := List.mem_append.mp he
    · exact hol entry he
    · split at he
      · obtain rfl := List.mem_singleton.mp he
        simp [DropQueue.offer]
      · exact (List.not_mem_nil he).elim
  · rw [queued_offer, List.pairwise_append]
    refine ⟨h.increasing, ?_, ?_⟩
    · split <;> simp
    · intro entry he other ho
      split at ho
      · obtain rfl := List.mem_singleton.mp ho
        exact h.number_lt he
      · exact (List.not_mem_nil ho).elim

section Kinds

variable [DecidableEq κ] (kind : α → κ)

def firstOf (q : DropQueue α) (k : κ) : ℕ := q.offered.findIdx (kind · = k)

def KeepsFirst (q : DropQueue α) : Prop :=
  ∀ a ∈ q.offered, ∃ entry ∈ q.queued, entry.number = firstOf kind q (kind a)

variable {kind} {a : α}

theorem KeepsFirst.take (h : KeepsFirst kind q) : KeepsFirst kind q.take := by
  unfold KeepsFirst firstOf at h ⊢
  simpa using h

/-- A first entry that finds room is kept, and later ones do not matter. -/
theorem KeepsFirst.offer (h : KeepsFirst kind q)
    (hr : (∀ b ∈ q.offered, kind b ≠ kind a) → q.hasRoom = true) :
    KeepsFirst kind (q.offer a) := by
  have hf : ∀ {k : κ}, (∃ b ∈ q.offered, kind b = k) →
      firstOf kind (q.offer a) k = firstOf kind q k := by
    rintro k ⟨b, hb, rfl⟩
    have hlt : q.offered.findIdx (kind · = kind b) < q.offered.length :=
      List.findIdx_lt_length_of_exists ⟨b, hb, by simp⟩
    exact (List.findIdx_append ..).trans (if_pos hlt)
  have hk : ∀ b ∈ q.offered, ∃ entry ∈ (q.offer a).queued,
      entry.number = firstOf kind (q.offer a) (kind b) := by
    intro b hb
    obtain ⟨entry, he, hn⟩ := h b hb
    refine ⟨entry, ?_, hn.trans (hf ⟨b, hb, rfl⟩).symm⟩
    rw [queued_offer]
    exact List.mem_append_left _ he
  intro b hb
  obtain hb | hb := List.mem_append.mp hb
  · exact hk b hb
  · obtain rfl := List.mem_singleton.mp hb
    by_cases hnw : ∀ c ∈ q.offered, kind c ≠ kind b
    · refine ⟨⟨q.offered.length, b⟩, ?_, ?_⟩
      · rw [queued_offer, if_pos (hr hnw)]
        exact List.mem_append_right _ (List.mem_singleton_self _)
      · have hnn : ¬ q.offered.findIdx (kind · = kind b) < q.offered.length := by
          rw [List.findIdx_lt_length]
          simpa using hnw
        refine Eq.symm ((List.findIdx_append ..).trans ((if_neg hnn).trans ?_))
        simp
    · push Not at hnw
      obtain ⟨c, hc, heq⟩ := hnw
      rw [← heq]
      exact hk c hc

theorem firstOf_le {n : ℕ} (h : q.offered[n]? = some a) : firstOf kind q (kind a) ≤ n := by
  obtain ⟨hlt, rfl⟩ := List.getElem?_eq_some_iff.mp h
  by_contra hl
  have hn := List.not_of_lt_findIdx (Nat.not_le.mp hl)
  simp at hn

theorem kind_firstOf {a b : α} (ha : a ∈ q.offered)
    (hb : q.offered[firstOf kind q (kind a)]? = some b) : kind b = kind a := by
  have hlt : firstOf kind q (kind a) < q.offered.length :=
    List.findIdx_lt_length_of_exists ⟨a, ha, by simp⟩
  cases (List.getElem?_eq_getElem hlt).symm.trans hb
  exact of_decide_eq_true (List.findIdx_getElem (w := hlt))

theorem KeepsFirst.first_out (h : KeepsFirst kind q) (hq : q.Ordered) {entry : Offered α}
    (he : entry ∈ q.out) :
    ∃ first ∈ q.out, first.number = firstOf kind q (kind entry.value) := by
  have ho := hq.offered entry (List.mem_append_left _ he)
  obtain ⟨first, hf, hn⟩ := h entry.value (List.mem_of_getElem? ho)
  refine ⟨first, ?_, hn⟩
  obtain hot | hw := List.mem_append.mp hf
  · exact hot
  · have hl := (List.pairwise_append.mp hq.increasing).2.2 entry he first hw
    have hle : firstOf kind q (kind entry.value) ≤ entry.number := firstOf_le ho
    omega

/-- In a part of the queue that has the first of a kind, the first found is that one. -/
theorem Ordered.find_first (hq : q.Ordered) {log : List (Offered α)} {k : κ}
    (hl : log.Sublist q.queued) {first entry : Offered α} (hf : first ∈ log)
    (hn : first.number = firstOf kind q k)
    (hfn : log.find? (kind ·.value = k) = some entry) : entry = first := by
  obtain ⟨hk, before, after, hs, hb⟩ := List.find?_eq_some_iff_append.mp hfn
  replace hk : kind entry.value = k := by simpa using hk
  have hm : ∀ e ∈ log, q.offered[e.number]? = some e.value := fun e he =>
    hq.offered e (hl.subset he)
  have hen : entry ∈ log := hs ▸ List.mem_append_right _ List.mem_cons_self
  have hle : first.number ≤ entry.number := by
    rw [hn, ← hk]
    exact firstOf_le (hm entry hen)
  have hsm : kind first.value = k := by
    rw [← hk]
    apply kind_firstOf (List.mem_of_getElem? (hm entry hen))
    rw [hk, ← hn]
    exact hm first hf
  have hi := hq.increasing.sublist hl
  rw [hs] at hf hi
  obtain hin | hin := List.mem_append.mp hf
  · have hnt := hb first hin
    simp [hsm] at hnt
  · obtain rfl | hin := List.mem_cons.mp hin
    · rfl
    · have hlt := (List.pairwise_cons.mp (List.pairwise_append.mp hi).2.1).1 first hin
      omega

end Kinds

end DropQueue

end MessageServer
