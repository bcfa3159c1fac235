import Mathlib.Data.Finmap

/-! # Transactions over keyed rows

A database is a finite map from keys to rows, all tables of a schema together. A
transaction is a program of statements: reads of the whole database, locks and
updates of the rows that meet a condition, and inserts that say what to do about
a conflict.
-/

namespace MessageServer.Transaction

inductive OnConflict (ρ : Type)
  | raise
  | ignore
  | set (f : ρ → ρ)

/-- The rows that a schema admits, and the errors of a statement that is refused or lost. -/
structure Schema {Key : Type} (Row : Key → Type) (ε : Type) where
  admits : ∀ k, Row k → Bool
  violation : ε
  lost : ε

/-- A program of statements that is still to yield a value, or ends before. -/
inductive Prog {Key : Type} (Row : Key → Type) (ε ω α : Type) : Type
  | pure (a : α)
  | commit (answer : ω)
  | rollback (answer : Except ε ω)
  | select (next : Finmap Row → Prog Row ε ω α)
  | lock (k : Key) (cond : Row k → Bool) (next : Option (Row k) → Prog Row ε ω α)
  | update (k : Key) (cond : Row k → Bool) (set : Row k → Row k)
      (next : Option (Row k) → Prog Row ε ω α)
  | updateAll (cond : ∀ k, Row k → Bool) (set : ∀ k, Row k → Row k) (next : Prog Row ε ω α)
  | insert (k : Key) (row : Row k) (conflict : OnConflict (Row k)) (next : Bool → Prog Row ε ω α)

/-- What a program comes to when nothing else happens meanwhile. -/
inductive Outcome {Key : Type} (Row : Key → Type) (ε ω α : Type) : Type
  | value (rows : Finmap Row) (a : α)
  | committed (rows : Finmap Row) (answer : ω)
  | rolledBack (answer : Except ε ω)

variable {Key : Type} {Row : Key → Type} {ε ω α β : Type}

namespace Prog

def bind : Prog Row ε ω α → (α → Prog Row ε ω β) → Prog Row ε ω β
  | .pure a, f => f a
  | .commit answer, _ => .commit answer
  | .rollback answer, _ => .rollback answer
  | .select next, f => .select fun d => (next d).bind f
  | .lock k cond next, f => .lock k cond fun row => (next row).bind f
  | .update k cond set next, f => .update k cond set fun row => (next row).bind f
  | .updateAll cond set next, f => .updateAll cond set (next.bind f)
  | .insert k row conflict next, f => .insert k row conflict fun b => (next b).bind f

instance : Monad (Prog Row ε ω) where
  pure := Prog.pure
  bind := Prog.bind

end Prog

def Outcome.bind : Outcome Row ε ω α → (Finmap Row → α → Outcome Row ε ω β) → Outcome Row ε ω β
  | .value d a, f => f d a
  | .committed d answer, _ => .committed d answer
  | .rolledBack answer, _ => .rolledBack answer

section Rows

variable [DecidableEq Key]

def selected (cond : ∀ k, Row k → Bool) (d : Finmap Row) : Finset Key :=
  d.keys.filter fun k => (d.lookup k).any (cond k)

def updated (keys : Finset Key) (set : ∀ k, Row k → Row k) (d : Finmap Row) : Finmap Row :=
  Finmap.keysLookupEquiv.symm ⟨(keys.filter (· ∈ d), fun k =>
    if k ∈ keys then (d.lookup k).map (set k) else none), fun k => by
      by_cases hk : k ∈ keys <;> simp [hk, Finmap.lookup_isSome]⟩

variable {d : Finmap Row} (keys : Finset Key) (set : ∀ k, Row k → Row k) {k : Key}

theorem mem_selected {cond : ∀ k, Row k → Bool} :
    k ∈ selected cond d ↔ ∃ row, d.lookup k = some row ∧ cond k row = true := by
  simp only [selected, Finset.mem_filter, Finmap.mem_keys, Finmap.mem_iff]
  constructor
  · rintro ⟨⟨row, hr⟩, hc⟩
    exact ⟨row, hr, by simpa [hr] using hc⟩
  · rintro ⟨row, hr, hc⟩
    exact ⟨⟨row, hr⟩, by simpa [hr] using hc⟩

@[simp] theorem lookup_updated (d : Finmap Row) (k : Key) :
    (updated keys set d).lookup k = if k ∈ keys then (d.lookup k).map (set k) else none := by
  simp [updated]

theorem lookup_union (c d : Finmap Row) (k : Key) :
    (c ∪ d).lookup k = (c.lookup k).or (d.lookup k) := by
  by_cases hk : k ∈ c
  · obtain ⟨row, hr⟩ := Finmap.mem_iff.mp hk
    rw [Finmap.lookup_union_left hk, hr, Option.some_or]
  · rw [Finmap.lookup_union_right hk, Finmap.lookup_eq_none.mpr hk, Option.none_or]

theorem lookup_updated_union (d : Finmap Row) (k : Key) : (updated keys set d ∪ d).lookup k =
      if k ∈ keys then (d.lookup k).map (set k) else d.lookup k := by
  rw [lookup_union, lookup_updated]
  split
  · cases d.lookup k <;> rfl
  · rfl

def Schema.admitsAll (schema : Schema Row ε) (d : Finmap Row) : Bool :=
  decide (∀ k ∈ d.keys, (d.lookup k).all (schema.admits k))

theorem Schema.admitsAll_eq_true {schema : Schema Row ε}
    (h : ∀ k row, d.lookup k = some row → schema.admits k row = true) :
    schema.admitsAll d = true := by
  simp only [admitsAll, decide_eq_true_eq]
  intro k _
  cases hl : d.lookup k with
  | none => rfl
  | some row => exact h k row hl

def AgreeOn {γ : Type} (part : Key → γ) (a : γ) (d d' : Finmap Row) : Prop :=
  ∀ k, part k = a → d.lookup k = d'.lookup k

/-- Two databases have the same rows outside one part. -/
def AgreeOff {γ : Type} (part : Key → γ) (a : γ) (d d' : Finmap Row) : Prop :=
  ∀ k, part k ≠ a → d'.lookup k = d.lookup k

theorem AgreeOff.insert {γ : Type} {part : Key → γ} {a : γ} {d' : Finmap Row} {row : Row k}
    (hk : part k = a) (h : AgreeOff part a (d.insert k row) d') : AgreeOff part a d d' := by
  intro k' hk'
  have hne : k' ≠ k := by
    rintro rfl
    exact hk' hk
  rw [h k' hk', Finmap.lookup_insert_of_ne _ hne]

end Rows

section Run

variable [DecidableEq Key] (schema : Schema Row ε)

namespace Prog

/-- The outcome of a program that runs with nothing else meanwhile. -/
def run : Prog Row ε ω α → Finmap Row → Outcome Row ε ω α
  | .pure a, d => .value d a
  | .commit answer, d => .committed d answer
  | .rollback answer, _ => .rolledBack answer
  | .select next, d => (next d).run d
  | .lock k cond next, d => (next ((d.lookup k).filter cond)).run d
  | .update k cond set next, d =>
    match (d.lookup k).filter cond with
    | none => (next none).run d
    | some row =>
      if schema.admits k (set row) then (next (some (set row))).run (d.insert k (set row))
      else .rolledBack (.error schema.violation)
  | .updateAll cond set next, d =>
    if schema.admitsAll (updated (selected cond d) set d) then
      next.run (updated (selected cond d) set d ∪ d)
    else .rolledBack (.error schema.violation)
  | .insert k row conflict next, d =>
    if schema.admits k row then
      match d.lookup k, conflict with
      | none, _ => (next true).run (d.insert k row)
      | some _, .raise => .rolledBack (.error schema.violation)
      | some _, .ignore => (next false).run d
      | some old, .set f =>
        if schema.admits k (f old) then (next true).run (d.insert k (f old))
        else .rolledBack (.error schema.violation)
    else .rolledBack (.error schema.violation)

variable {schema}

theorem run_bind (p : Prog Row ε ω α) (f : α → Prog Row ε ω β) (d : Finmap Row) :
    (p >>= f).run schema d = (p.run schema d).bind fun d a => (f a).run schema d := by
  change (p.bind f).run schema d = _
  induction p generalizing d with
  | pure | commit | rollback => rfl
  | select next ih => exact ih d d
  | lock k cond next ih => exact ih _ d
  | update k cond set next ih =>
    simp only [bind, run]
    split
    · exact ih _ d
    · split
      · exact ih _ _
      · rfl
  | updateAll cond set next ih =>
    simp only [bind, run]
    split
    · exact ih _
    · rfl
  | insert k row conflict next ih =>
    simp only [bind, run]
    split
    · split
      · exact ih _ _
      · rfl
      · exact ih _ _
      · split
        · exact ih _ _
        · rfl
    · rfl

end Prog

/-- What a run may come to: a value, a commit, an answer or an error that ends in a rollback. -/
structure Post (Row : Key → Type) (ε ω α : Type) where
  value : Finmap Row → α → Prop := fun _ _ => False
  commit : Finmap Row → ω → Prop := fun _ _ => False
  answer : ω → Prop := fun _ => False
  error : ε → Prop := fun _ => False

def Outcome.Meets (Q : Post Row ε ω α) : Outcome Row ε ω α → Prop
  | .value d a => Q.value d a
  | .committed d answer => Q.commit d answer
  | .rolledBack (.ok answer) => Q.answer answer
  | .rolledBack (.error e) => Q.error e

omit [DecidableEq Key] in
theorem Outcome.Meets.mono {o : Outcome Row ε ω α} {Q Q' : Post Row ε ω α} (h : o.Meets Q)
    (hv : ∀ d a, Q.value d a → Q'.value d a) (hc : ∀ d w, Q.commit d w → Q'.commit d w)
    (ha : ∀ w, Q.answer w → Q'.answer w) (he : ∀ e, Q.error e → Q'.error e) : o.Meets Q' := by
  cases o with
  | value => exact hv _ _ h
  | committed => exact hc _ _ h
  | rolledBack answer =>
    cases answer with
    | ok => exact ha _ h
    | error => exact he _ h

omit [DecidableEq Key] in
theorem Outcome.meets_bind {o : Outcome Row ε ω β} {f : Finmap Row → β → Outcome Row ε ω α}
    {Q : Post Row ε ω α} : (o.bind f).Meets Q ↔
      o.Meets ⟨fun d a => (f d a).Meets Q, Q.commit, Q.answer, Q.error⟩ := by
  cases o with
  | value | committed => rfl
  | rolledBack answer => cases answer <;> rfl

namespace Prog

/-- The program, run alone, comes to what the postcondition allows. -/
def Meets (schema : Schema Row ε) (p : Prog Row ε ω α) (d : Finmap Row) (Q : Post Row ε ω α) :
    Prop :=
  (p.run schema d).Meets Q

section Rules

variable {schema} {Q : Post Row ε ω α} {d : Finmap Row} {k : Key} {row old : Row k}
  {cond : Row k → Bool} {set : Row k → Row k}

@[simp] theorem meets_pure (a : α) :
    (Pure.pure a : Prog Row ε ω α).Meets schema d Q ↔ Q.value d a :=
  .rfl

@[simp] theorem meets_select (next : Finmap Row → Prog Row ε ω α) :
    (Prog.select next).Meets schema d Q ↔ (next d).Meets schema d Q :=
  .rfl

variable {f : β → Prog Row ε ω α} {p : Prog Row ε ω β}

theorem meets_bind
    (h : p.Meets schema d ⟨fun d a => (f a).Meets schema d Q, Q.commit, Q.answer, Q.error⟩) :
    (p >>= f).Meets schema d Q := by
  rw [Meets, run_bind, Outcome.meets_bind]
  exact h

theorem meets_bind_bind {γ : Type} {p : Prog Row ε ω γ} {q : γ → Prog Row ε ω β}
    (h : (p >>= q).Meets schema d ⟨fun d a => (f a).Meets schema d Q, Q.commit, Q.answer,
      Q.error⟩) : (p >>= fun c => q c >>= f).Meets schema d Q := by
  rw [Meets, run_bind, Outcome.meets_bind] at h
  exact meets_bind (Outcome.Meets.mono h (fun _ _ => meets_bind) (fun _ _ => id) (fun _ => id)
    fun _ => id)

theorem Meets.mono {p : Prog Row ε ω α} {Q' : Post Row ε ω α} (h : p.Meets schema d Q)
    (hv : ∀ d a, Q.value d a → Q'.value d a) (hc : ∀ d w, Q.commit d w → Q'.commit d w)
    (ha : ∀ w, Q.answer w → Q'.answer w) (he : ∀ e, Q.error e → Q'.error e) :
    p.Meets schema d Q' :=
  Outcome.Meets.mono h hv hc ha he

theorem meets_of_forall {p : Prog Row ε ω α} (hv : ∀ d a, Q.value d a)
    (hc : ∀ d w, Q.commit d w) (ha : ∀ w, Q.answer w) (he : ∀ e, Q.error e) :
    p.Meets schema d Q := by
  unfold Meets
  cases p.run schema d with
  | value d' a => exact hv d' a
  | committed d' w => exact hc d' w
  | rolledBack answer =>
    cases answer with
    | ok w => exact ha w
    | error e => exact he e

theorem Meets.bind {P : Post Row ε ω β} (h : p.Meets schema d P)
    (hv : ∀ d a, P.value d a → (f a).Meets schema d Q) (hc : ∀ d w, P.commit d w → Q.commit d w)
    (ha : ∀ w, P.answer w → Q.answer w) (he : ∀ e, P.error e → Q.error e) :
    (p >>= f).Meets schema d Q :=
  meets_bind (h.mono hv hc ha he)

theorem Meets.bind_value {V : Finmap Row → β → Prop} {E : ε → Prop}
    (h : p.Meets schema d { value := V, error := E }) (hv : ∀ d a, V d a → (f a).Meets schema d Q)
    (he : ∀ e, E e → Q.error e) :
    (p >>= f).Meets schema d Q :=
  h.bind hv (fun _ _ => False.elim) (fun _ => False.elim) he

variable {next : Option (Row k) → Prog Row ε ω α}

theorem meets_lock_of_some (hk : d.lookup k = some row)
    (hc : cond row = true) (h : (next (some row)).Meets schema d Q) :
    (Prog.lock k cond next).Meets schema d Q := by
  simpa [Meets, run, hk, Option.filter, hc] using h

theorem meets_lock_of_none
    (hk : ∀ row, d.lookup k = some row → cond row = false) (h : (next none).Meets schema d Q) :
    (Prog.lock k cond next).Meets schema d Q := by
  have hn : (d.lookup k).filter cond = none := by simpa [Option.filter_eq_none_iff] using hk
  simpa [Meets, run, hn] using h

theorem meets_update_of_some (hk : d.lookup k = some row) (hc : cond row = true)
    (he : schema.admits k (set row) = false → Q.error schema.violation)
    (h : schema.admits k (set row) = true →
      (next (some (set row))).Meets schema (d.insert k (set row)) Q) :
    (Prog.update k cond set next).Meets schema d Q := by
  have hf : (d.lookup k).filter cond = some row := by simp [hk, Option.filter, hc]
  simp only [Meets, run, hf]
  cases ha : schema.admits k (set row) with
  | true => exact h ha
  | false => exact he ha

theorem meets_update_of_none
    (hk : ∀ row, d.lookup k = some row → cond row = false) (h : (next none).Meets schema d Q) :
    (Prog.update k cond set next).Meets schema d Q := by
  have hn : (d.lookup k).filter cond = none := by simpa [Option.filter_eq_none_iff] using hk
  simpa [Meets, run, hn] using h

theorem meets_update_of_forall (he : Q.error schema.violation) (hn : (next none).Meets schema d Q)
    (hs : ∀ row, (next (some row)).Meets schema (d.insert k row) Q) :
    (Prog.update k cond set next).Meets schema d Q := by
  unfold Meets run
  split
  · exact hn
  · split
    · exact hs _
    · exact he

theorem meets_updateAll {cond : ∀ k, Row k → Bool} {set : ∀ k, Row k → Row k}
    {next : Prog Row ε ω α}
    (he : schema.admitsAll (updated (selected cond d) set d) = false → Q.error schema.violation)
    (h : schema.admitsAll (updated (selected cond d) set d) = true →
      next.Meets schema (updated (selected cond d) set d ∪ d) Q) :
    (Prog.updateAll cond set next).Meets schema d Q := by
  simp only [Meets, run]
  cases ha : schema.admitsAll (updated (selected cond d) set d) with
  | true => exact h ha
  | false => exact he ha

variable {next : Bool → Prog Row ε ω α} {conflict : OnConflict (Row k)}

theorem meets_insert_of_not_admits (ha : schema.admits k row = false)
    (h : Q.error schema.violation) :
    (Prog.insert k row conflict next).Meets schema d Q := by
  simp only [Meets, run, ha]
  exact h

theorem meets_insert_of_forall (he : Q.error schema.violation) (hf : (next false).Meets schema d Q)
    (ht : ∀ row, (next true).Meets schema (d.insert k row) Q) :
    (Prog.insert k row conflict next).Meets schema d Q := by
  unfold Meets run
  split
  · split
    · exact ht _
    · exact he
    · exact hf
    · split
      · exact ht _
      · exact he
  · exact he

theorem meets_insert_of_none (hk : d.lookup k = none)
    (he : schema.admits k row = false → Q.error schema.violation)
    (h : schema.admits k row = true → (next true).Meets schema (d.insert k row) Q) :
    (Prog.insert k row conflict next).Meets schema d Q := by
  cases ha : schema.admits k row with
  | true => simpa [Meets, run, hk, ha] using h ha
  | false => exact meets_insert_of_not_admits ha (he ha)

theorem meets_insert_ignore (he : schema.admits k row = false → Q.error schema.violation)
    (hf : schema.admits k row = true → d.lookup k = none →
      (next true).Meets schema (d.insert k row) Q)
    (ht : schema.admits k row = true → ∀ old, d.lookup k = some old →
      (next false).Meets schema d Q) : (Prog.insert k row .ignore next).Meets schema d Q := by
  cases hk : d.lookup k with
  | none => exact meets_insert_of_none hk he fun ha => hf ha hk
  | some old =>
    cases ha : schema.admits k row with
    | true => simpa [Meets, run, hk, ha] using ht ha old hk
    | false => exact meets_insert_of_not_admits ha (he ha)

theorem meets_insert_set {f : Row k → Row k}
    (hk : d.lookup k = some old) (he : schema.admits k row = false → Q.error schema.violation)
    (he' : schema.admits k (f old) = false → Q.error schema.violation)
    (h : schema.admits k (f old) = true → (next true).Meets schema (d.insert k (f old)) Q) :
    (Prog.insert k row (.set f) next).Meets schema d Q := by
  simp only [Meets, run, hk]
  cases ha : schema.admits k row with
  | true =>
    cases ha' : schema.admits k (f old) with
    | true => exact h ha'
    | false => exact he' ha'
  | false => exact he ha

end Rules

section Within

variable {schema} {γ : Type} {part : Key → γ} {a : γ} {Q : Post Row ε ω α} {d : Finmap Row}

/-- The program reads and writes rows of one part only. -/
def Within (part : Key → γ) (a : γ) : Prog Row ε ω α → Prop
  | .pure _ => True
  | .commit _ => True
  | .rollback _ => True
  | .select next => (∀ d d', AgreeOn part a d d' → next d = next d') ∧ ∀ d, (next d).Within part a
  | .lock k _ next => part k = a ∧ ∀ row, (next row).Within part a
  | .update k _ _ next => part k = a ∧ ∀ row, (next row).Within part a
  | .updateAll cond _ next => (∀ k row, cond k row = true → part k = a) ∧ next.Within part a
  | .insert k _ _ next => part k = a ∧ ∀ b, (next b).Within part a

theorem within_select {next : Finmap Row → Prog Row ε ω α}
    (h : ∀ d d', AgreeOn part a d d' → next d = next d') (hn : ∀ d, (next d).Within part a) :
    (Prog.select next).Within part a :=
  ⟨h, hn⟩

theorem within_insert {k : Key} {row : Row k} {conflict : OnConflict (Row k)}
    {next : Bool → Prog Row ε ω α} (hk : part k = a) (hn : ∀ b, (next b).Within part a) :
    (Prog.insert k row conflict next).Within part a :=
  ⟨hk, hn⟩

theorem within_bind {p : Prog Row ε ω β} {f : β → Prog Row ε ω α} (hp : p.Within part a)
    (hf : ∀ b, (f b).Within part a) : (p >>= f).Within part a := by
  change (p.bind f).Within part a
  induction p with
  | pure b => exact hf b
  | commit | rollback => trivial
  | select next ih =>
    exact ⟨fun d d' h => congrArg (Prog.bind · f) (hp.1 d d' h), fun d => ih d (hp.2 d)⟩
  | lock k cond next ih => exact ⟨hp.1, fun row => ih row (hp.2 row)⟩
  | update k cond set next ih => exact ⟨hp.1, fun row => ih row (hp.2 row)⟩
  | updateAll cond set next ih => exact ⟨hp.1, ih hp.2⟩
  | insert k row conflict next ih => exact ⟨hp.1, fun b => ih b (hp.2 b)⟩

def kept (part : Key → γ) (a : γ) (d : Finmap Row) : Post Row ε ω α where
  value d' _ := AgreeOff part a d d'
  commit d' _ := AgreeOff part a d d'
  answer _ := True
  error _ := True

variable {p : Prog Row ε ω α}

theorem Meets.kept_of_insert {k : Key} {row : Row k} (hk : part k = a)
    (h : p.Meets schema (d.insert k row) (kept part a (d.insert k row))) :
    p.Meets schema (d.insert k row) (kept part a d) :=
  h.mono (fun _ _ hd => AgreeOff.insert hk hd) (fun _ _ hd => AgreeOff.insert hk hd)
    (fun _ => id) fun _ => id

/-- A run changes no row of another part. -/
theorem Within.agreeOff (h : p.Within part a) (d : Finmap Row) :
    p.Meets schema d (kept part a d) := by
  induction p generalizing d with
  | pure | commit => exact fun _ _ => rfl
  | rollback answer => cases answer <;> trivial
  | select next ih => exact ih d (h.2 d) d
  | lock k cond next ih => exact ih _ (h.2 _) d
  | update k cond set next ih =>
    exact meets_update_of_forall trivial (ih none (h.2 none) d) fun row =>
      (ih _ (h.2 (some row)) _).kept_of_insert h.1
  | updateAll cond set next ih =>
    have ho : ∀ d', AgreeOff part a (updated (selected cond d) set d ∪ d) d' →
        AgreeOff part a d d' := by
      intro d' hd k hk
      rw [hd k hk, lookup_updated_union, if_neg]
      intro hm
      obtain ⟨row, -, hc⟩ := mem_selected.mp hm
      exact hk (h.1 k row hc)
    refine meets_updateAll (fun _ => trivial) fun _ => ?_
    exact (ih h.2 _).mono (fun d' _ => ho d') (fun d' _ => ho d') (fun _ => id) fun _ => id
  | insert k row conflict next ih =>
    exact meets_insert_of_forall trivial (ih false (h.2 false) d) fun _ =>
      (ih true (h.2 true) _).kept_of_insert h.1

theorem Meets.frame (h : p.Meets schema d Q) (hw : p.Within part a) : p.Meets schema d { Q with
        value := fun d' x => Q.value d' x ∧ AgreeOff part a d d'
        commit := fun d' w => Q.commit d' w ∧ AgreeOff part a d d' } := by
  have hf : p.Meets schema d (kept part a d) := hw.agreeOff d
  unfold Meets at h hf ⊢
  cases hp : p.run schema d with
  | value | committed =>
    rw [hp] at h hf
    exact ⟨h, hf⟩
  | rolledBack answer =>
    rw [hp] at h
    cases answer <;> exact h

end Within

section Yields

variable {schema} {C : Prop} {V : α → Prop} {A : ω → Prop} {d : Finmap Row}

/-- Whatever the rows are, the program yields such values, gives such answers, and does not commit
unless it may. -/
def Yields (C : Prop) (V : α → Prop) (A : ω → Prop) : Prog Row ε ω α → Prop
  | .pure a => V a
  | .commit _ => C
  | .rollback (.ok answer) => A answer
  | .rollback (.error _) => True
  | .select next => ∀ d, (next d).Yields C V A
  | .lock _ _ next => ∀ row, (next row).Yields C V A
  | .update _ _ _ next => ∀ row, (next row).Yields C V A
  | .updateAll _ _ next => next.Yields C V A
  | .insert _ _ _ next => ∀ b, (next b).Yields C V A

omit [DecidableEq Key] in
theorem Yields.bind {W : β → Prop} {p : Prog Row ε ω β} {f : β → Prog Row ε ω α}
    (hp : p.Yields C W A) (hf : ∀ b, W b → (f b).Yields C V A) : (p >>= f).Yields C V A := by
  change (p.bind f).Yields C V A
  induction p with
  | pure b => exact hf b hp
  | commit => exact hp
  | rollback answer => cases answer <;> exact hp
  | select next ih => exact fun d => ih d (hp d)
  | lock k cond next ih => exact fun row => ih row (hp row)
  | update k cond set next ih => exact fun row => ih row (hp row)
  | updateAll cond set next ih => exact ih hp
  | insert k row conflict next ih => exact fun b => ih b (hp b)

theorem Yields.run {p : Prog Row ε ω α} (h : p.Yields C V A) (d : Finmap Row) : p.Meets schema d
      { value := fun _ a => V a
        commit := fun _ _ => C
        answer := A
        error := fun _ => True } := by
  induction p generalizing d with
  | pure a => exact h
  | commit => exact h
  | rollback answer => cases answer <;> exact h
  | select next ih => exact ih d (h d) d
  | lock k cond next ih => exact ih _ (h _) d
  | update k cond set next ih =>
    exact meets_update_of_forall trivial (ih _ (h _) d) fun _ => ih _ (h _) _
  | updateAll cond set next ih => exact meets_updateAll (fun _ => trivial) fun _ => ih h _
  | insert k row conflict next ih =>
    exact meets_insert_of_forall trivial (ih _ (h _) d) fun _ => ih _ (h _) _

end Yields

end Prog

end Run

end MessageServer.Transaction
