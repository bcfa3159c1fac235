import Mathlib.Data.List.Nodup
import Mathlib.Data.List.Perm.Subperm

/-! # Tables of rows under unique keys

A table is a list of rows, no two of which have the same key. A row is found by
its key, changed in place, added where no row has its key, or deleted by a
condition.
-/

namespace MessageServer

theorem filter_erase {α : Type} [DecidableEq α] {p : α → Bool} {x : α} (hx : p x = false)
    (l : List α) : (l.erase x).filter p = l.filter p := by
  induction l with
  | nil => rfl
  | cons y l ih =>
    by_cases hy : y = x
    · subst hy
      rw [List.erase_cons_head, List.filter_cons_of_neg (by simp [hx])]
    · rw [List.erase_cons_tail (by simpa using hy), List.filter_cons, List.filter_cons, ih]

theorem filter_diff {α : Type} [DecidableEq α] {p : α → Bool} (l : List α) {m : List α}
    (h : ∀ x ∈ m, p x = false) : (l.diff m).filter p = l.filter p := by
  induction m generalizing l with
  | nil => rw [List.diff_nil]
  | cons x m ih =>
    rw [List.diff_cons, ih _ fun y hy => h y (List.mem_cons_of_mem _ hy),
      filter_erase (h x List.mem_cons_self)]

variable {ρ κ : Type*}

structure Table (key : ρ → κ) where
  rows : List ρ
  nodup : (rows.map key).Nodup

namespace Table

variable {key : ρ → κ}

def empty : Table key := ⟨[], List.nodup_nil⟩

variable {r : ρ}

theorem eq_of_key (t : Table key) {r' : ρ} (hr : r ∈ t.rows) (hr' : r' ∈ t.rows)
    (h : key r = key r') : r = r' :=
  List.inj_on_of_nodup_map t.nodup hr hr' h

def map (t : Table key) (f : ρ → ρ) (hf : ∀ r, key (f r) = key r) : Table key where
  rows := t.rows.map f
  nodup := by
    have hkeys : key ∘ f = key := funext hf
    rw [List.map_map, hkeys]
    exact t.nodup

def filter (t : Table key) (p : ρ → Bool) : Table key where
  rows := t.rows.filter p
  nodup := t.nodup.sublist (List.filter_sublist.map key)

variable [DecidableEq κ]

def find (t : Table key) (k : κ) : Option ρ := t.rows.find? fun r => key r = k

def modify (t : Table key) (k : κ) (f : ρ → ρ) (hf : ∀ r, key (f r) = key r) : Table key :=
  t.map (fun r => if key r = k then f r else r) fun r => by split <;> simp [hf]

def insert (t : Table key) (r : ρ) : Table key :=
  if h : ∃ r' ∈ t.rows, key r' = key r then t
  else ⟨t.rows ++ [r], by
    rw [List.map_append, List.map_singleton, List.nodup_append_comm]
    simpa [t.nodup] using h⟩

variable {t : Table key} {k : κ} {f : ρ → ρ} {hf : ∀ r, key (f r) = key r}

theorem find_eq_some : t.find k = some r ↔ r ∈ t.rows ∧ key r = k := by
  have hf : ∀ {r'}, t.find k = some r' → r' ∈ t.rows ∧ key r' = k := fun h =>
    ⟨List.mem_of_find?_eq_some h, by simpa using List.find?_some h⟩
  refine ⟨hf, fun ⟨hr, hk⟩ => ?_⟩
  have hs : (t.find k).isSome := List.find?_isSome.mpr ⟨r, hr, by simpa using hk⟩
  obtain ⟨r', hr'⟩ := Option.isSome_iff_exists.mp hs
  obtain ⟨hm, hk'⟩ := hf hr'
  rw [hr', t.eq_of_key hm hr (hk'.trans hk.symm)]

theorem find_eq_none : t.find k = none ↔ ∀ r ∈ t.rows, key r ≠ k := by
  simp [find]

theorem find_key (hr : r ∈ t.rows) : t.find (key r) = some r := find_eq_some.mpr ⟨hr, rfl⟩

theorem find_of_rows {σ : Type*} {key' : σ → κ} {t' : Table key'} {f : ρ → σ}
    (hf : ∀ r, key' (f r) = key r) (h : t'.rows = t.rows.map f) (k : κ) :
    t'.find k = (t.find k).map f := by
  rw [find, find, h, List.find?_map]
  simp only [Function.comp_def, hf]

@[simp] theorem find_map (k : κ) : (t.map f hf).find k = (t.find k).map f := by
  have hk : (fun r => decide (key r = k)) ∘ f = fun r => decide (key r = k) := by
    funext r
    rw [Function.comp_apply, hf]
  rw [find, map, List.find?_map, hk, find]

variable {p : ρ → Bool} {t' : Table key}

@[simp] theorem find_filter (k : κ) : (t.filter p).find k = (t.find k).filter p := by
  cases h : t.find k with
  | none =>
    rw [Option.filter_none, find_eq_none]
    exact fun r hr => find_eq_none.mp h r (List.mem_of_mem_filter hr)
  | some r =>
    obtain ⟨hr, hk⟩ := find_eq_some.mp h
    by_cases hp : p r = true
    · rw [Option.filter_some_pos hp]
      exact find_eq_some.mpr ⟨List.mem_filter.mpr ⟨hr, hp⟩, hk⟩
    · rw [Option.filter_some_neg (by simpa using hp), find_eq_none]
      intro r' hr' hk'
      obtain ⟨hm, hp'⟩ := List.mem_filter.mp hr'
      rw [t.eq_of_key hm hr (hk'.trans hk.symm)] at hp'
      exact hp hp'

theorem find_modify (k' : κ) :
    (t.modify k f hf).find k' = if k' = k then (t.find k').map f else t.find k' := by
  rw [modify, find_map]
  cases h : t.find k' with
  | none => simp
  | some r =>
    obtain ⟨-, rfl⟩ := find_eq_some.mp h
    by_cases hk : key r = k <;> simp [hk]

theorem insert_of_find (h : (t.find (key r)).isSome) : t.insert r = t := by
  obtain ⟨r', hr'⟩ := Option.isSome_iff_exists.mp h
  obtain ⟨hm, hk⟩ := find_eq_some.mp hr'
  exact dif_pos ⟨r', hm, hk⟩

theorem rows_insert (h : t.find (key r) = none) : (t.insert r).rows = t.rows ++ [r] := by
  have hno : ¬ ∃ r' ∈ t.rows, key r' = key r := fun ⟨r', hr', hk⟩ => find_eq_none.mp h r' hr' hk
  rw [insert, dif_neg hno]

theorem find_insert (h : t.find (key r) = none) (k : κ) :
    (t.insert r).find k = if k = key r then some r else t.find k := by
  rw [find, rows_insert h, List.find?_append]
  by_cases hk : k = key r
  · subst hk
    have ht : t.rows.find? (fun r' => key r' = key r) = none := h
    simp [ht]
  · rw [if_neg hk, List.find?_singleton, if_neg (by simpa using Ne.symm hk), Option.or_none]
    rfl

theorem countP_without (h : t.find k = some r) (p : ρ → Bool) :
    t.rows.countP p = (t.filter (key · ≠ k)).rows.countP p + if p r then 1 else 0 := by
  obtain ⟨hm, rfl⟩ := find_eq_some.mp h
  have hp : (r :: (t.filter (key · ≠ key r)).rows).Perm t.rows := by
    refine (List.perm_ext_iff_of_nodup ?_ t.nodup.of_map).mpr fun r' => ?_
    · exact List.nodup_cons.mpr ⟨fun hr => by simpa using (List.mem_filter.mp hr).2,
        (t.filter _).nodup.of_map⟩
    · rw [List.mem_cons, filter, List.mem_filter, decide_eq_true_eq]
      constructor
      · rintro (rfl | ⟨hr', -⟩)
        · exact hm
        · exact hr'
      · intro hr'
        by_cases hk : key r' = key r
        · exact .inl (t.eq_of_key hr' hm hk)
        · exact .inr ⟨hr', hk⟩
  rw [← hp.countP_eq p, List.countP_cons]

theorem countP_le
    (h : ∀ k r, t.find k = some r → p r = true → ∃ r', t'.find k = some r' ∧ p r' = true) :
    t.rows.countP p ≤ t'.rows.countP p := by
  have hs : (t.filter p).rows.map key ⊆ (t'.filter p).rows.map key := by
    intro k hk
    obtain ⟨r, hr, rfl⟩ := List.mem_map.mp hk
    obtain ⟨hm, hp⟩ := List.mem_filter.mp hr
    obtain ⟨r', hr', hp'⟩ := h _ r (find_key hm) hp
    obtain ⟨hm', hk'⟩ := find_eq_some.mp hr'
    exact List.mem_map.mpr ⟨r', List.mem_filter.mpr ⟨hm', hp'⟩, hk'⟩
  have hl := (List.Nodup.subperm (t.filter p).nodup hs).length_le
  rw [List.length_map, List.length_map] at hl
  rw [List.countP_eq_length_filter, List.countP_eq_length_filter]
  exact hl

theorem countP_congr (h : ∀ k, (t.find k).filter p = (t'.find k).filter p) :
    t.rows.countP p = t'.rows.countP p := by
  have hle : ∀ {t t' : Table key}, (∀ k, (t.find k).filter p = (t'.find k).filter p) →
      t.rows.countP p ≤ t'.rows.countP p := fun h => countP_le fun k r hr hp => by
    have hf := h k
    rw [hr, Option.filter_some_pos hp] at hf
    exact ⟨r, Option.filter_eq_some_iff.mp hf.symm⟩
  exact Nat.le_antisymm (hle h) (hle fun k => (h k).symm)

end Table

end MessageServer
