import MessageServer.Peer.Liveness

/-! # The generation of a connection

A connection counts the Hellos of its client id from the one it replaces. The count is
kept in the live map alone, so it starts again when the client's last connection was
dropped from the map before its next Hello.
-/

namespace MessageServer.Peer

/-- A call on the connection table, with what it reads of the clock. -/
inductive Op
  | openConnection (clientId : Bytes) (random : Option (Sized serverNonceBytes)) (now later : Time)
  | lookup (clientId : Bytes) (now : Time)
  | peek (clientId : Bytes) (now : Time)
  | sweep (now : Time)

def Op.opens (clientId : Bytes) : Op → Bool
  | .openConnection opener (some _) _ _ => opener = clientId
  | _ => false

namespace Connections

def perform (t : Connections) : Op → Connections
  | .openConnection clientId random now later => (t.openConnection clientId random now later).1
  | .lookup clientId now => (t.lookup clientId now).1
  | .peek _ _ => t
  | .sweep now => (t.sweep now).1

def performAll (t : Connections) (ops : List Op) : Connections := ops.foldl perform t

def generations (t : Connections) (clientId : Bytes) : List ℕ :=
  (t.opened.filter (·.clientId = clientId)).map (·.generation)

structure Counted (t : Connections) (clientId : Bytes) (n : ℕ) : Prop where
  generations : t.generations clientId = List.range' 1 n
  live : ∀ p, ⟨clientId, p⟩ ∈ t.live.rows → (t.opened[p]?).map (·.generation) = some n

variable {t : Connections} {clientId : Bytes} {n : ℕ} {now : Time} {current : Connection}

variable (h : t.Counted clientId n)
include h

theorem Counted.filter {f : LiveEntry → Bool} :
    Counted { t with live := t.live.filter f } clientId n :=
  ⟨h.generations, fun p hp => h.live p (List.mem_of_mem_filter hp)⟩

omit h in
theorem map_filter_modify {α β : Type} {p : α → Bool} {g : α → β} {f : α → α}
    (hp : ∀ a, p (f a) = p a) (hg : ∀ a, g (f a) = g a) (l : List α) (i : ℕ) :
    ((l.modify i f).filter p).map g = (l.filter p).map g := by
  induction l generalizing i with
  | nil => cases i <;> rfl
  | cons a l ih =>
    cases i with
    | zero => by_cases h : p a = true <;> simp [List.modify_zero_cons, hp, hg, h]
    | succ i => by_cases h : p a = true <;> simp [List.modify_succ_cons, ih, h]

theorem Counted.touch (connection : ℕ) : (t.touch connection now).Counted clientId n where
  generations := (map_filter_modify (f := fun c : Connection => { c with seen := now })
    (fun _ => rfl) (fun _ => rfl) t.opened connection).trans h.generations
  live p hp := by
    rw [touch_opened, Option.map_map, ← h.live p hp]
    congr 1
    funext current
    simp only [Function.comp_apply]
    split <;> rfl

theorem Counted.sweep : (t.sweep now).1.Counted clientId n := by
  unfold Connections.sweep
  split
  · exact h
  · exact h.filter

theorem Counted.lookup {opener : Bytes} : (t.lookup opener now).1.Counted clientId n := by
  unfold Connections.lookup
  split
  · exact h
  split
  · exact h.filter
  · exact h.touch _

theorem Counted.replace_other (ho : current.clientId ≠ clientId) :
    (t.replace current).Counted clientId n where
  generations := by
    rw [Connections.generations, replace, List.filter_append]
    simpa [ho, Connections.generations] using h.generations
  live p hp := by
    rcases mem_live_replace hp with heq | ⟨hm, -⟩
    · exact (ho (congrArg LiveEntry.clientId heq).symm).elim
    · have hl := h.live p hm
      obtain ⟨old, hol, -⟩ := Option.map_eq_some_iff.mp hl
      rwa [replace_opened (List.getElem?_eq_some_iff.mp hol).1]

theorem Counted.replace_own (how : current.clientId = clientId)
    (hn : current.generation = n + 1) : (t.replace current).Counted clientId (n + 1) where
  generations := by
    rw [Connections.generations, replace, List.filter_append, List.map_append,
      List.range'_1_concat, ← h.generations]
    simp [how, hn, Connections.generations, Nat.add_comm]
  live p hp := by
    rcases mem_live_replace hp with heq | ⟨-, ho⟩
    · obtain rfl : p = t.opened.length := congrArg LiveEntry.connection heq
      rw [replace, List.getElem?_concat_length, Option.map_some, hn]
    · exact (ho how.symm).elim

theorem Counted.nextGeneration (hfw : n + 1 < 2 ^ 64)
    (hh : 0 < n → t.live.find clientId ≠ none) : t.nextGeneration clientId = n + 1 := by
  unfold Connections.nextGeneration
  cases hf : t.live.find clientId with
  | none =>
    have hz : n = 0 := Nat.eq_zero_of_not_pos fun hps => hh hps hf
    rw [hz]
    rfl
  | some entry =>
    obtain ⟨hm, rfl⟩ := Table.find_eq_some.mp hf
    obtain ⟨previous, hp, hc⟩ := Option.map_eq_some_iff.mp (h.live _ hm)
    rw [Option.bind_some, hp]
    dsimp only
    rw [hc, Nat.mod_eq_of_lt hfw]

theorem Counted.perform {op : Op} (hf : n + (if op.opens clientId then 1 else 0) < 2 ^ 64)
    (hh : op.opens clientId → 0 < n → t.live.find clientId ≠ none) :
    (t.perform op).Counted clientId (n + if op.opens clientId then 1 else 0) := by
  cases op with
  | openConnection opener random now later =>
    cases random with
    | none => exact h
    | some nonce =>
      by_cases ho : opener = clientId
      · subst ho
        rw [Op.opens, decide_eq_true rfl] at hh hf ⊢
        exact h.sweep.replace_own rfl (h.nextGeneration hf (hh rfl))
      · rw [Op.opens, decide_eq_false ho]
        exact h.sweep.replace_other ho
  | lookup => exact h.lookup
  | peek => exact h
  | sweep => exact h.sweep

end Connections

open Connections

/-- Where every Hello of a client id finds its last connection in the live map, the connection of
its k-th Hello has generation k. -/
theorem generation_counts_hellos (idle : ℤ) (clientId : Bytes) (ops : List Op)
    (hfew : ops.countP (·.opens clientId) < 2 ^ 64)
    (hheld : ∀ i op, ops[i]? = some op → op.opens clientId →
      0 < (ops.take i).countP (·.opens clientId) →
        ((newConnections idle).performAll (ops.take i)).live.find clientId ≠ none) :
    ((newConnections idle).performAll ops).generations clientId =
      List.range' 1 (ops.countP (·.opens clientId)) := by
  suffices h : ((newConnections idle).performAll ops).Counted clientId
      (ops.countP (·.opens clientId)) from h.generations
  induction ops using List.reverseRecOn with
  | nil => exact ⟨rfl, fun _ hp => (List.not_mem_nil hp).elim⟩
  | append_singleton ops op ih =>
    rw [List.countP_append, List.countP_singleton] at hfew ⊢
    rw [performAll, List.foldl_append]
    refine Counted.perform (ih (by omega) ?_) hfew ?_
    · intro i op' hop
      have hi : i < ops.length := (List.getElem?_eq_some_iff.mp hop).1
      have he := hheld i op'
      rw [List.getElem?_append_left hi, List.take_append_of_le_length (Nat.le_of_lt hi)] at he
      exact he hop
    · have hl := hheld ops.length op
      rw [List.getElem?_concat_length, List.take_left] at hl
      exact hl rfl

namespace Sample

def zeros : Sized serverNonceBytes := ⟨List.replicate 32 0, rfl⟩

def talking : List Op :=
  [.openConnection [1] (some zeros) 0 0, .lookup [1] 8, .sweep 17, .peek [1] 17,
    .openConnection [1] (some zeros) 40 40]

def silent : List Op :=
  [.openConnection [1] (some zeros) 0 0, .openConnection [2] (some zeros) 20 20,
    .openConnection [1] (some zeros) 30 30]

end Sample

open Sample

theorem generation_counts_hellos_talking :
    ((newConnections 10).performAll talking).generations [1] = [1, 2] := by
  refine generation_counts_hellos 10 [1] talking (by decide) fun i op hop ho hp => ?_
  match i with
  | 0 => cases hp
  | 1 | 2 | 3 =>
    cases hop
    cases ho
  | 4 => decide
  | _ + 5 => cases hop

/-- Two connections of one client id have the same generation. -/
theorem generation_starts_again :
    ((newConnections 10).performAll silent).generations [1] = [1, 1] := by decide

end MessageServer.Peer
