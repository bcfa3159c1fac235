import MessageServer.Pgx.Holds
import MessageServer.Pgx.Scope
import MessageServer.Store.Steps

/-! # A call of the SQL store beside the call in memory

A call of either store is one of three requests. Beside the call in memory, the
statements of a call commit to a database that holds the store in memory, or end
in a rollback where the call in memory leaves the store as it was.
-/

namespace MessageServer.Pgx

open Store Transaction

def call (cfg : Config) (now : Time) (s : MemoryStore) :
    Request → MemoryStore × Except Store.Error Reply
  | .createGroup request =>
    let next := Store.createGroup cfg now s request
    (next.1, next.2.map .created)
  | .closeGroup groupId =>
    let next := Store.closeGroup now s groupId
    (next.1, next.2.map fun _ => .closed)
  | .submit request =>
    let next := Store.submit cfg now s request
    (next.1, next.2.map .submitted)

theorem call_step (cfg : Config) (now : Time) (s : MemoryStore) (request : Request) :
    StoreStep cfg now s (call cfg now s request).1 := by
  cases request with
  | createGroup request => exact createGroup_step request
  | closeGroup groupId => exact closeGroup_step groupId
  | submit request => exact submit_step request

def statements (store : PgxStore) (draw : Draw) : Request → Statements Empty
  | .createGroup request => createGroup store draw request
  | .closeGroup groupId => closeGroup draw groupId
  | .submit request => submit store draw request

/-- A call on a database with no other call meanwhile, and its answer. -/
def perform (store : PgxStore) (draw : Draw) (d : Database) (request : Request) :
    Database × Except Error Reply :=
  match (statements store draw request).run schema d with
  | .committed d' w => (d', .ok w)
  | .rolledBack answer => (d, answer)
  | .value _ a => a.elim

/-- What two answers to one record have in common: everything but the code of a refusal. -/
structure SameResult (r r' : SubmitResult) : Prop where
  accepted : accepted r.reason = accepted r'.reason
  recordId : r.recordId = r'.recordId
  currentEpoch : r.currentEpoch = r'.currentEpoch
  applied : r.applied = r'.applied
  winner : r.winningCommit.map (·.recordId) = r'.winningCommit.map (·.recordId)

/-- What the answers of the two stores to one call have in common. -/
inductive SameReply : Reply → Reply → Prop
  | refl (w : Reply) : SameReply w w
  | submitted {results results' : List SubmitResult}
      (same : List.Forall₂ SameResult results results') :
      SameReply (.submitted results) (.submitted results')

/-- The two stores answer a call alike: both with a reply, or both with the same error. -/
inductive SameAnswer : Except Error Reply → Except Store.Error Reply → Prop
  | ok {w w' : Reply} (same : SameReply w w') : SameAnswer (.ok w) (.ok w')
  | error (e : Store.Error) : SameAnswer (.error (.store e)) (.error e)

section Beside

variable (ring : KekRing) (s : MemoryStore) (next : MemoryStore × Except Store.Error Reply)
  (E : Prop)

/-- What a call of the SQL store comes to beside a call in memory; `E` rules out its own errors. -/
def beside : Post Row Error Reply Empty where
  commit d w := ∃ s' w', next = (s', .ok w') ∧ HoldsStore ring d s' ∧ SameReply w w'
  answer w := ∃ w', next = (s, .ok w') ∧ SameReply w w'
  error e := (∃ e', next = (s, .error e') ∧ e = .store e') ∨ ¬ E

def besideGroup (groupId : Bytes) : Post Row Error Reply Empty :=
  { beside ring s next E with
    commit := fun d w => ∃ g w', next = (s.setGroup groupId g, .ok w') ∧
      HoldsGroup ring groupId d g ∧ SameReply w w' }

end Beside

theorem holdsStore_empty (ring : KekRing) : HoldsStore ring ∅ .empty :=
  ⟨fun _ _ h => (by cases h), fun _ _ => rfl⟩

section Frame

variable {ring : KekRing} {groupId : Bytes} {d d' : Database} {s : MemoryStore}
  {g : MemoryGroup} {next : MemoryStore × Except Store.Error Reply} {E : Prop}

theorem HoldsStore.setGroup (h : HoldsStore ring d s) (hg : HoldsGroup ring groupId d' g)
    (hf : AgreeOff Key.groupId groupId d d') : HoldsStore ring d' (s.setGroup groupId g) := by
  constructor
  · intro other g' hg'
    by_cases ho : other = groupId
    · subst ho
      rw [MemoryStore.setGroup_self] at hg'
      exact Option.some.inj hg' ▸ hg
    · rw [MemoryStore.setGroup_of_ne ho] at hg'
      exact (h.groups other g' hg').congr fun k hk => hf k (hk ▸ ho)
  · intro k hk
    have ho : k.groupId ≠ groupId := by
      intro ho
      rw [ho, MemoryStore.setGroup_self] at hk
      cases hk
    rw [MemoryStore.setGroup_of_ne ho] at hk
    rw [hf k ho, h.others k hk]

theorem meets_beside {p : Statements Empty} (h : HoldsStore ring d s) (hp : InGroup groupId p)
    (hm : p.Meets schema d (besideGroup ring s next E groupId)) :
    p.Meets schema d (beside ring s next E) := by
  refine (hm.frame hp).mono (fun _ a => a.elim) ?_ (fun _ hw => hw) fun _ he => he
  rintro d' w ⟨⟨g, w', hn, hg, hw⟩, hf⟩
  exact ⟨_, w', hn, h.setGroup hg hf, hw⟩

/-- A call that meets no error of the database leaves one that holds the store in memory. -/
theorem perform_beside {store : PgxStore} {draw : Draw} {request : Request}
    (h : HoldsStore store.keys d s)
    (hm : (statements store draw request).Meets schema d (beside store.keys s next E))
    (hok : E ∨ (perform store draw d request).2.toBool = true) :
    HoldsStore store.keys (perform store draw d request).1 next.1 ∧
      SameAnswer (perform store draw d request).2 next.2 := by
  unfold Prog.Meets at hm
  unfold perform at hok ⊢
  cases hr : (statements store draw request).run schema d with
  | value _ a => exact a.elim
  | committed d' w =>
    rw [hr] at hm
    obtain ⟨s', w', rfl, hs, hw'⟩ := hm
    exact ⟨hs, .ok hw'⟩
  | rolledBack answer =>
    rw [hr] at hm hok
    cases answer with
    | ok w =>
      obtain ⟨w', rfl, hw'⟩ := hm
      exact ⟨h, .ok hw'⟩
    | error e =>
      have hE : E := hok.resolve_right (by simp [Except.toBool])
      obtain ⟨e', rfl, rfl⟩ | hn := hm
      · exact ⟨h, .error e'⟩
      · exact (hn hE).elim

theorem HoldsStore.closed_of_unavailable (h : HoldsStore ring d s)
    (hg : ∀ g, s.groups groupId = some g → g.closed = true) (row : MessageGroup)
    (hl : (d.lookup (.group groupId) : Option MessageGroup) = some row) : row.closed = true := by
  cases hs : s.groups groupId with
  | none =>
    rw [h.others (.group groupId) hs] at hl
    cases hl
  | some g =>
    rw [(h.groups groupId g hs).group] at hl
    cases hl
    exact hg g hs

end Frame

end MessageServer.Pgx
