import Mathlib.Data.List.Induction
import Mathlib.Data.List.Perm.Subperm
import Mathlib.Order.Nat

/-! # Logs cut into epochs

An epoch log numbers its entries from one, keeps one increasing stream of
indexes for each key, and cuts the entries into epochs: an entry that closes its
epoch is the last of it. Appending at the current epoch keeps a log ordered.
-/

namespace MessageServer.EpochLog

variable {α κ : Type*}

structure Shape (α κ : Type*) where
  id : α → ℕ
  key : α → κ
  index : α → ℕ
  epoch : α → ℕ
  closes : α → Bool

namespace Shape

variable (S : Shape α κ)

/-- The epoch a log is at once the entry stands last in it. -/
def after (x : α) : ℕ := if S.closes x then S.epoch x + 1 else S.epoch x

theorem after_of_closes {x : α} (h : S.closes x = true) : S.after x = S.epoch x + 1 := by
  simp [after, h]

theorem after_of_not_closes {x : α} (h : S.closes x = false) : S.after x = S.epoch x := by
  simp [after, h]

theorem epoch_le_after (x : α) : S.epoch x ≤ S.after x := by
  unfold after; split <;> omega

def highWater [DecidableEq κ] (l : List α) (k : κ) : Option ℕ :=
  ((l.filter fun x => S.key x = k).getLast?).map S.index

end Shape

structure Ordered (S : Shape α κ) (l : List α) (e : ℕ) : Prop where
  ids : l.map S.id = List.range' 1 l.length
  streams : l.Pairwise fun x y => S.key x = S.key y → S.index x < S.index y
  epochs : l.Pairwise fun x y => S.after x ≤ S.epoch y
  bound : ∀ x ∈ l, S.after x ≤ e
  covered : ∀ n < e, ∃ x ∈ l, S.epoch x = n ∧ S.closes x = true

namespace Ordered

variable {S : Shape α κ} {l : List α} {e : ℕ}

theorem nil (S : Shape α κ) : Ordered S [] 0 where
  ids := rfl
  streams := .nil
  epochs := .nil
  bound := by simp
  covered := by simp

variable (h : Ordered S l e)
include h

variable {x : α}

/-- An entry with the next number, past its stream and at the current epoch, extends the log. -/
theorem append (hid : S.id x = l.length + 1)
    (hi : ∀ y ∈ l, S.key y = S.key x → S.index y < S.index x) (he : S.epoch x = e) :
    Ordered S (l ++ [x]) (S.after x) where
  ids := by
    rw [List.map_append, h.ids, List.length_append, List.length_singleton, List.range'_concat]
    simp [hid, Nat.add_comm]
  streams := by
    refine List.pairwise_append.mpr ⟨h.streams, List.pairwise_singleton .., ?_⟩
    intro y hy z hz
    obtain rfl := List.mem_singleton.mp hz
    exact hi y hy
  epochs := by
    refine List.pairwise_append.mpr ⟨h.epochs, List.pairwise_singleton .., ?_⟩
    intro y hy z hz
    obtain rfl := List.mem_singleton.mp hz
    exact he ▸ h.bound y hy
  bound := by
    intro y hy
    rcases List.mem_append.mp hy with hy | hy
    · exact (h.bound y hy).trans (he ▸ S.epoch_le_after x)
    · obtain rfl := List.mem_singleton.mp hy
      exact le_rfl
  covered := by
    intro n hn
    rcases Nat.lt_or_ge n e with hlt | hge
    · obtain ⟨y, hy, hny⟩ := h.covered n hlt
      exact ⟨y, List.mem_append_left _ hy, hny⟩
    · cases hc : S.closes x with
      | false => rw [S.after_of_not_closes hc] at hn; omega
      | true =>
        rw [S.after_of_closes hc] at hn
        exact ⟨x, by simp, by omega, hc⟩

theorem id_getElem {i : ℕ} (hi : i < l.length) : S.id l[i] = i + 1 := by
  have hm : (l.map S.id)[i]? = (List.range' 1 l.length)[i]? := by rw [h.ids]
  rw [List.getElem?_map, List.getElem?_eq_getElem hi, List.getElem?_range' hi] at hm
  simpa [Nat.add_comm] using hm

theorem id_le (hx : x ∈ l) : 1 ≤ S.id x ∧ S.id x ≤ l.length := by
  obtain ⟨i, hi, rfl⟩ := List.getElem_of_mem hx
  rw [h.id_getElem hi]
  omega

variable {x y : α}

theorem eq_of_id_eq (hx : x ∈ l) (hy : y ∈ l) (hid : S.id x = S.id y) : x = y := by
  obtain ⟨i, hi, rfl⟩ := List.getElem_of_mem hx
  obtain ⟨j, hj, rfl⟩ := List.getElem_of_mem hy
  rw [h.id_getElem hi, h.id_getElem hj] at hid
  obtain rfl : i = j := by omega
  rfl

theorem rel_of_id_lt {R : α → α → Prop} (hR : l.Pairwise R) (hx : x ∈ l) (hy : y ∈ l)
    (hid : S.id x < S.id y) : R x y := by
  obtain ⟨i, hi, rfl⟩ := List.getElem_of_mem hx
  obtain ⟨j, hj, rfl⟩ := List.getElem_of_mem hy
  rw [h.id_getElem hi, h.id_getElem hj] at hid
  exact List.pairwise_iff_getElem.mp hR i j hi hj (by omega)

omit h in
theorem id_lt_of_append {p q : List α} (h : Ordered S (p ++ q) e) (hx : x ∈ p) (hy : y ∈ q) :
    S.id x < S.id y := by
  obtain ⟨i, hi, rfl⟩ := List.getElem_of_mem hx
  obtain ⟨j, hj, rfl⟩ := List.getElem_of_mem hy
  have hxi := h.id_getElem (i := i) (by simp; omega)
  have hyj := h.id_getElem (i := p.length + j) (by simpa using hj)
  rw [List.getElem_append_left hi] at hxi
  rw [List.getElem_append_right (by omega)] at hyj
  simp only [Nat.add_sub_cancel_left] at hyj
  omega

theorem id_le_of_closes (hx : x ∈ l) (hy : y ∈ l) (hc : S.closes x = true)
    (he : S.epoch y = S.epoch x) : S.id y ≤ S.id x := by
  by_contra hlt
  have hr := h.rel_of_id_lt h.epochs hx hy (by omega)
  rw [S.after_of_closes hc] at hr
  omega

theorem eq_of_closes (hx : x ∈ l) (hy : y ∈ l) (hcx : S.closes x = true) (hcy : S.closes y = true)
    (he : S.epoch x = S.epoch y) : x = y :=
  h.eq_of_id_eq hx hy (le_antisymm (h.id_le_of_closes hy hx hcy he)
    (h.id_le_of_closes hx hy hcx he.symm))

theorem epoch_lt_of_closes (hx : x ∈ l) (hc : S.closes x = true) : S.epoch x < e := by
  have hb := h.bound x hx
  rw [S.after_of_closes hc] at hb
  omega

theorem le_length : e ≤ l.length := by
  have hs : List.range e ⊆ l.map S.epoch := by
    intro n hn
    obtain ⟨x, hx, hxe, -⟩ := h.covered n (List.mem_range.mp hn)
    exact hxe ▸ List.mem_map_of_mem hx
  simpa using (List.Nodup.subperm List.nodup_range hs).length_le

theorem epoch_le (hx : x ∈ l) : S.epoch x ≤ e := (S.epoch_le_after x).trans (h.bound x hx)

end Ordered

section HighWater

variable [DecidableEq κ] {S : Shape α κ} {l : List α} {k : κ}

@[simp] theorem highWater_append (x : α) :
    S.highWater (l ++ [x]) k = if S.key x = k then some (S.index x) else S.highWater l k := by
  by_cases hk : S.key x = k <;> simp [Shape.highWater, List.filter_append, hk]

theorem exists_of_highWater {n : ℕ} (h : S.highWater l k = some n) :
    ∃ x ∈ l, S.key x = k ∧ S.index x = n := by
  obtain ⟨x, hx, rfl⟩ := Option.map_eq_some_iff.mp h
  have hm := List.mem_filter.mp (List.mem_of_getLast? hx)
  exact ⟨x, hm.1, by simpa using hm.2, rfl⟩

theorem Ordered.le_highWater {e : ℕ} (h : Ordered S l e) {x : α} (hx : x ∈ l)
    (hk : S.key x = k) : ∃ n, S.highWater l k = some n ∧ S.index x ≤ n := by
  have hs := h.streams
  clear h
  induction l using List.reverseRecOn with
  | nil => simp at hx
  | append_singleton l y ih =>
    obtain ⟨hl, -, hy⟩ := List.pairwise_append.mp hs
    by_cases hyk : S.key y = k
    · refine ⟨S.index y, by simp [hyk], ?_⟩
      rcases List.mem_append.mp hx with hx | hx
      · exact (hy x hx y (by simp) (hk.trans hyk.symm)).le
      · rw [List.mem_singleton.mp hx]
    · have hxl : x ∈ l := by
        rcases List.mem_append.mp hx with hx | hx
        · exact hx
        · exact absurd (List.mem_singleton.mp hx ▸ hk) hyk
      obtain ⟨n, hn, hle⟩ := ih hxl hl
      exact ⟨n, by simp [hyk, hn], hle⟩

end HighWater

end MessageServer.EpochLog
