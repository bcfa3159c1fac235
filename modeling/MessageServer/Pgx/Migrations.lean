import Mathlib.Data.List.Nodup
import Mathlib.Data.List.TakeWhile
import Mathlib.Logic.Function.Basic

/-! # The migrations

A migration runs in a transaction with its row of the audit table, and the run
stops at the first that is recorded under another name or that fails. What every
statement answers is arbitrary; a commit that answers an error may have taken
all the same.
-/

namespace MessageServer.Pgx

structure Migration where
  name : String
  sql : String

/-- The names in the audit table by their versions, if there is one, and what has been run. -/
structure AuditState where
  audit : Option (ℕ → Option String)
  ran : List String

/-- A commit takes, does not, or answers an error and took. -/
inductive CommitAnswer
  | committed | refused | unconfirmed
  deriving DecidableEq

structure Attempt where
  begins : Bool
  sql : Bool
  insert : Bool
  commit : CommitAnswer

def Attempt.Succeeds (attempt : Attempt) : Prop :=
  attempt.begins ∧ attempt.sql ∧ attempt.insert ∧ attempt.commit = .committed

/-- Every statement went through, and the commit took and answered an error. -/
def Attempt.Unconfirmed (attempt : Attempt) : Prop :=
  attempt.begins ∧ attempt.sql ∧ attempt.insert ∧ attempt.commit = .unconfirmed

inductive MigrateError
  | acquire | lock | ddl | present | select
  | rewritten (version : ℕ) (ran held : String)
  | begins (version : ℕ)
  | sql (version : ℕ) (name : String)
  | insert (version : ℕ)
  | commit (version : ℕ)

structure MigrateRun where
  acquired : Bool
  locked : Bool
  ddl : CommitAnswer
  selected : Bool
  attempts : ℕ → Attempt

def MigrateRun.Opens (run : MigrateRun) : Prop :=
  run.acquired ∧ run.locked ∧ run.ddl = .committed ∧ run.selected

namespace AuditState

variable (db : AuditState)

def recorded (version : ℕ) : Option String := db.audit.bind (· version)

def exec (sql : String) : AuditState := { db with ran := db.ran ++ [sql] }

def insert (version : ℕ) (name : String) : AuditState :=
  { db with audit := db.audit.map (Function.update · version (some name)) }

def createAudit : AuditState := { db with audit := some (db.audit.getD fun _ => none) }

/-- One migration in its transaction, which is rolled back where a statement fails. -/
def applyMigration (attempt : Attempt) (current : Migration) (version : ℕ) :
    AuditState × Option MigrateError :=
  if attempt.begins = false then (db, some (.begins version))
  else if attempt.sql = false then (db, some (.sql version current.name))
  else if attempt.insert = false then (db, some (.insert version))
  else
    let transaction := (db.exec current.sql).insert version current.name
    match attempt.commit with
    | .committed => (transaction, none)
    | .refused => (db, some (.commit version))
    | .unconfirmed => (transaction, some (.commit version))

def migrateFrom (attempts : ℕ → Attempt) (applied : ℕ → Option String) :
    List (Migration × ℕ) → AuditState → AuditState × Option MigrateError
  | [], db => (db, none)
  | (current, version) :: rest, db =>
    match applied version with
    | some name =>
      if name ≠ current.name then (db, some (.rewritten version name current.name))
      else migrateFrom attempts applied rest db
    | none =>
      match db.applyMigration (attempts version) current version with
      | (next, none) => migrateFrom attempts applied rest next
      | (next, some e) => (next, some e)

/-- Bring the database up to head. -/
def migrate (run : MigrateRun) (migrations : List Migration) : AuditState × Option MigrateError :=
  if run.acquired = false then (db, some .acquire)
  else if run.locked = false then (db, some .lock)
  else
    match run.ddl with
    | .refused => (db, some .ddl)
    | .unconfirmed => (db.createAudit, some .ddl)
    | .committed =>
      if run.selected = false then (db.createAudit, some .select)
      else migrateFrom run.attempts db.createAudit.recorded (migrations.zipIdx 1) db.createAudit

def atHeadFrom (applied : ℕ → Option String) : List (Migration × ℕ) → Bool × ℕ × Option MigrateError
  | [] => (true, 0, none)
  | (current, version) :: rest =>
    match applied version with
    | none => (false, version, none)
    | some name =>
      if name ≠ current.name then (false, version, some (.rewritten version name current.name))
      else atHeadFrom applied rest

/-- Whether every migration is recorded, and the first version that is not. -/
def migrationsAtHead (acquired present selected : Bool) (migrations : List Migration) :
    Bool × ℕ × Option MigrateError :=
  if acquired = false then (false, 0, some .acquire)
  else if present = false then (false, 0, some .present)
  else
    match db.audit with
    | none => (false, 1, none)
    | some applied =>
      if selected = false then (false, 0, some .select)
      else atHeadFrom applied (migrations.zipIdx 1)

def applyAll (done : List (Migration × ℕ)) : AuditState :=
  done.foldl (fun db p => (db.exec p.1.sql).insert p.2 p.1.name) db

variable (done : List (Migration × ℕ))

theorem ran_applyAll : (db.applyAll done).ran = db.ran ++ done.map (·.1.sql) := by
  induction done generalizing db with
  | nil => exact (List.append_nil _).symm
  | cons p done ih => exact (ih _).trans (List.append_assoc db.ran [p.1.sql] _)

theorem audit_applyAll : (db.applyAll done).audit.isSome = db.audit.isSome := by
  induction done generalizing db with
  | nil => rfl
  | cons p done ih => exact (ih _).trans (Option.isSome_map ..)

theorem recorded_createAudit : db.createAudit.recorded = db.recorded := by
  unfold recorded createAudit
  cases db.audit <;> rfl

variable {db} {version : ℕ} {done : List (Migration × ℕ)}

theorem recorded_insert (h : db.audit.isSome) (current : Migration) (version version' : ℕ) :
    ((db.exec current.sql).insert version current.name).recorded version' =
      if version' = version then some current.name else db.recorded version' := by
  obtain ⟨audit, ha⟩ := Option.isSome_iff_exists.mp h
  simp only [recorded, insert, exec, ha, Option.map_some, Option.bind_some]
  exact Function.update_apply audit version (some current.name) version'

theorem recorded_applyAll (h : db.audit.isSome) (hn : (done.map Prod.snd).Nodup)
    (hnw : ∀ p ∈ done, db.recorded p.2 = none) {name : String} :
    (db.applyAll done).recorded version = some name ↔
      db.recorded version = some name ∨ ∃ p ∈ done, p.2 = version ∧ p.1.name = name := by
  induction done generalizing db with
  | nil => simp [applyAll]
  | cons p done ih =>
    obtain ⟨hp, hn⟩ := List.nodup_cons.mp hn
    have hr := recorded_insert h p.1 p.2
    have hnn := hnw p List.mem_cons_self
    refine (ih (by simpa [insert, exec] using h) hn fun q hq => ?_).trans ?_
    · rw [hr, if_neg fun heq : q.2 = p.2 => hp (heq ▸ List.mem_map_of_mem hq)]
      exact hnw q (List.mem_cons_of_mem _ hq)
    · rw [hr, List.exists_mem_cons_iff, ← or_assoc]
      refine or_congr_left ?_
      split
      next heq => simp [heq, hnn]
      next hne => simp [Ne.symm hne]

/-- A migration that is recorded under its own name, or that is not and fully applies. -/
def Passes (db : AuditState) (attempts : ℕ → Attempt) (p : Migration × ℕ) : Prop :=
  db.recorded p.2 = some p.1.name ∨ db.recorded p.2 = none ∧ (attempts p.2).Succeeds

/-- How far a run has come: through what passes, up to what does not. Of that one only the
commit may have taken. -/
structure Progress (before : AuditState) (attempts : ℕ → Attempt) (entries : List (Migration × ℕ))
    (db : AuditState) (result : AuditState × Option MigrateError)
    (front rest : List (Migration × ℕ)) (last : Option (Migration × ℕ)) : Prop where
  split : entries = front ++ rest
  passed : ∀ p ∈ front, before.Passes attempts p
  stopped : ∀ p ∈ rest.head?, ¬ before.Passes attempts p
  unconfirmed : ∀ p, p ∈ last ↔
    rest.head? = some p ∧ before.recorded p.2 = none ∧ (attempts p.2).Unconfirmed
  state : result.1 = db.applyAll
    ((front.filter fun p => before.recorded p.2 = none) ++ last.toList)
  error : result.2 = none ↔ rest = []

namespace Progress

variable {before next : AuditState} {attempts : ℕ → Attempt}
  {entries front rest : List (Migration × ℕ)} {result : AuditState × Option MigrateError}
  {last : Option (Migration × ℕ)} {p : Migration × ℕ}

theorem go (h : Progress before attempts entries next result front rest last)
    (hp : before.Passes attempts p)
    (hn : next = db.applyAll ([p].filter fun p => before.recorded p.2 = none)) :
    Progress before attempts (p :: entries) db result (p :: front) rest last where
  split := congrArg _ h.split
  passed := List.forall_mem_cons.mpr ⟨hp, h.passed⟩
  stopped := h.stopped
  unconfirmed := h.unconfirmed
  state := by
    rw [h.state, hn, applyAll, applyAll, ← List.foldl_append, ← List.append_assoc,
      ← List.filter_append, List.singleton_append, applyAll]
  error := h.error

theorem stop (hnt : ¬ before.Passes attempts p)
    (hl : ∀ q, q ∈ last ↔ p = q ∧ before.recorded q.2 = none ∧ (attempts q.2).Unconfirmed)
    (hs : result.1 = db.applyAll last.toList) (he : result.2 ≠ none) :
    Progress before attempts (p :: entries) db result [] (p :: entries) last where
  split := rfl
  passed := nofun
  stopped := by
    rintro _ ⟨⟩
    exact hnt
  unconfirmed q := by
    rw [hl, List.head?_cons, Option.some.injEq]
  state := hs
  error := iff_of_false he (List.cons_ne_nil _ _)

end Progress

/-- A migration applies as a whole or not at all. -/
theorem applyMigration_cases (db : AuditState) (attempt : Attempt) (current : Migration)
    (version : ℕ) :
    attempt.Succeeds ∧ db.applyMigration attempt current version =
        (db.applyAll [(current, version)], none) ∨
      ¬ attempt.Succeeds ∧ ∃ e,
        ¬ attempt.Unconfirmed ∧ db.applyMigration attempt current version = (db, some e) ∨
        attempt.Unconfirmed ∧ db.applyMigration attempt current version =
          (db.applyAll [(current, version)], some e) := by
  obtain ⟨begins, sql, insert, commit⟩ := attempt
  unfold Attempt.Succeeds Attempt.Unconfirmed applyMigration
  cases begins with
  | false => exact .inr ⟨nofun, _, .inl ⟨nofun, rfl⟩⟩
  | true =>
    cases sql with
    | false => exact .inr ⟨nofun, _, .inl ⟨nofun, rfl⟩⟩
    | true =>
      cases insert with
      | false => exact .inr ⟨nofun, _, .inl ⟨nofun, rfl⟩⟩
      | true =>
        cases commit with
        | committed => exact .inl ⟨⟨rfl, rfl, rfl, rfl⟩, rfl⟩
        | refused => exact .inr ⟨nofun, _, .inl ⟨nofun, rfl⟩⟩
        | unconfirmed => exact .inr ⟨nofun, _, .inr ⟨⟨rfl, rfl, rfl, rfl⟩, rfl⟩⟩

theorem migrateFrom_progress (before : AuditState) (attempts : ℕ → Attempt)
    (entries : List (Migration × ℕ)) (db : AuditState) : ∃ front rest last,
      Progress before attempts entries db (migrateFrom attempts before.recorded entries db)
        front rest last := by
  induction entries generalizing db with
  | nil => exact ⟨[], [], none, rfl, nofun, nofun, by simp, rfl, by simp [migrateFrom]⟩
  | cons entry entries ih =>
    obtain ⟨current, version⟩ := entry
    unfold migrateFrom
    cases hr : before.recorded version with
    | some name =>
      dsimp only
      split
      next hn =>
        refine ⟨_, _, none, .stop ?_ (fun q => ⟨nofun, ?_⟩) rfl nofun⟩
        · rintro (hsm | ⟨hnn, -⟩)
          · exact hn (Option.some.inj (hr.symm.trans hsm))
          · cases hr.symm.trans hnn
        · rintro ⟨rfl, hnn, -⟩
          cases hr.symm.trans hnn
      next hn =>
        obtain ⟨front, rest, last, h⟩ := ih db
        refine ⟨_, _, _, h.go (.inl (not_not.mp hn ▸ hr)) ?_⟩
        simp [hr, applyAll]
    | none =>
      rcases db.applyMigration_cases (attempts version) current version with
        ⟨hs, heq⟩ | ⟨hf, e, heq⟩
      · obtain ⟨front, rest, last, h⟩ := ih (db.applyAll [(current, version)])
        rw [heq]
        exact ⟨_, _, _, h.go (.inr ⟨hr, hs⟩) (by simp [hr])⟩
      · have hnt : ¬ before.Passes attempts (current, version) := by
          rintro (hsm | ⟨-, hs⟩)
          · cases hr.symm.trans hsm
          · exact hf hs
        rcases heq with ⟨hu, heq⟩ | ⟨hu, heq⟩
        · rw [heq]
          refine ⟨_, _, none, .stop hnt (fun q => ⟨nofun, ?_⟩) rfl nofun⟩
          rintro ⟨rfl, -, hq⟩
          exact (hu hq).elim
        · rw [heq]
          refine ⟨_, _, some (current, version), .stop hnt (fun q => ?_) rfl nofun⟩
          rw [Option.mem_some_iff]
          refine ⟨?_, And.left⟩
          rintro rfl
          exact ⟨rfl, hr, hu⟩

theorem zipIdx_nodup (migrations : List Migration) :
    ((migrations.zipIdx 1).map Prod.snd).Nodup := by
  rw [List.zipIdx_map_snd]
  exact List.nodup_range'

def AtHead (db : AuditState) (migrations : List Migration) : Prop :=
  ∀ p ∈ migrations.zipIdx 1, db.recorded p.2 = some p.1.name

def FirstMissing (applied : ℕ → Option String) (entries : List (Migration × ℕ)) (version : ℕ) :
    Prop :=
  ∃ front p rest, entries = front ++ p :: rest ∧ (∀ q ∈ front, applied q.2 = some q.1.name) ∧
    applied p.2 ≠ some p.1.name ∧ version = p.2

theorem atHeadFrom_spec (applied : ℕ → Option String) (entries : List (Migration × ℕ)) :
    atHeadFrom applied entries = (true, 0, none) ∧ (∀ p ∈ entries, applied p.2 = some p.1.name) ∨
      (atHeadFrom applied entries).1 = false ∧
        FirstMissing applied entries (atHeadFrom applied entries).2.1 := by
  induction entries with
  | nil => exact .inl ⟨rfl, nofun⟩
  | cons entry entries ih =>
    obtain ⟨current, version⟩ := entry
    unfold atHeadFrom
    cases hr : applied version with
    | none =>
      refine .inr ⟨rfl, [], _, entries, rfl, nofun, ?_, rfl⟩
      rw [hr]
      nofun
    | some name =>
      dsimp only
      split
      next hn =>
        refine .inr ⟨rfl, [], _, entries, rfl, nofun, fun hs => hn ?_, rfl⟩
        exact Option.some.inj (hr.symm.trans hs)
      next hn =>
        have ho : applied version = some current.name := not_not.mp hn ▸ hr
        rcases ih with ⟨ht, ha⟩ | ⟨hf, front, p, rest, he, hfr, hp, hv⟩
        · exact .inl ⟨ht, List.forall_mem_cons.mpr ⟨ho, ha⟩⟩
        · exact .inr ⟨hf, (current, version) :: front, p, rest, congrArg _ he,
            List.forall_mem_cons.mpr ⟨ho, hfr⟩, hp, hv⟩

theorem migrate_cases (before : AuditState) (run : MigrateRun) (migrations : List Migration) :
    ((before.migrate run migrations).1 = before ∨
        (before.migrate run migrations).1 = before.createAudit) ∧
        (before.migrate run migrations).2 ≠ none ∧ ¬ run.Opens ∨
      run.Opens ∧ ∃ front rest last, Progress before run.attempts (migrations.zipIdx 1)
        before.createAudit (before.migrate run migrations) front rest last := by
  unfold migrate MigrateRun.Opens
  split
  next h => exact .inl ⟨.inl rfl, nofun, by simp [h]⟩
  split
  next h => exact .inl ⟨.inl rfl, nofun, by simp [h]⟩
  split
  next h => exact .inl ⟨.inl rfl, nofun, by simp [h]⟩
  next h => exact .inl ⟨.inr rfl, nofun, by simp [h]⟩
  split
  next h => exact .inl ⟨.inr rfl, nofun, by simp [h]⟩
  next hp ha hc hs =>
    rw [recorded_createAudit]
    exact .inr ⟨by simp_all, migrateFrom_progress before run.attempts _ _⟩

variable {migrations : List Migration}

theorem Progress.nodup {before : AuditState} {attempts : ℕ → Attempt}
    {result : AuditState × Option MigrateError} {front rest : List (Migration × ℕ)}
    {last : Option (Migration × ℕ)}
    (h : Progress before attempts (migrations.zipIdx 1) db result front rest last) :
    (((front.filter fun p => before.recorded p.2 = none) ++ last.toList).map Prod.snd).Nodup := by
  have hl : last.toList.Sublist rest := by
    cases last with
    | none => exact List.nil_sublist _
    | some p =>
      obtain ⟨tail, rfl⟩ := List.head?_eq_some_iff.mp ((h.unconfirmed p).mp rfl).1
      exact List.singleton_sublist.mpr List.mem_cons_self
  have hn := zipIdx_nodup migrations
  rw [h.split] at hn
  exact hn.sublist ((List.filter_sublist.append hl).map Prod.snd)

/-- A second run finds every migration recorded. -/
theorem AtHead.migrate (h : db.AtHead migrations) (ha : db.audit.isSome) (run : MigrateRun) :
    (db.migrate run migrations).1 = db := by
  have hc : db.createAudit = db := by
    obtain ⟨audit, hs⟩ := Option.isSome_iff_exists.mp ha
    rw [createAudit, hs, Option.getD_some, ← hs]
  rcases db.migrate_cases run migrations with ⟨hsm, -, -⟩ | ⟨-, front, rest, last, hr⟩
  · rw [hc] at hsm
    exact hsm.elim id id
  · have hs : ∀ p ∈ front ++ rest, db.recorded p.2 ≠ none := by
      intro p hp
      rw [h p (hr.split ▸ hp)]
      nofun
    have hf : (front.filter fun p => db.recorded p.2 = none) = [] := by
      refine List.filter_eq_nil_iff.mpr fun p hp => ?_
      simpa using hs p (List.mem_append_left _ hp)
    have hl : last = none := by
      refine Option.eq_none_iff_forall_not_mem.mpr fun p hp => ?_
      obtain ⟨hh, hn, -⟩ := (hr.unconfirmed p).mp hp
      exact hs p (List.mem_append_right _ (List.mem_of_head? hh)) hn
    rw [hr.state, hf, hl, hc]
    rfl

theorem migrationsAtHead_spec (db : AuditState) (migrations : List Migration)
    (h : db.audit.isSome ∨ migrations ≠ []) :
    db.migrationsAtHead true true true migrations = (true, 0, none) ∧ db.AtHead migrations ∨
      (db.migrationsAtHead true true true migrations).1 = false ∧
        FirstMissing db.recorded (migrations.zipIdx 1)
          (db.migrationsAtHead true true true migrations).2.1 := by
  obtain ⟨audit, ran⟩ := db
  cases audit with
  | some applied => exact atHeadFrom_spec applied (migrations.zipIdx 1)
  | none =>
    obtain ⟨current, migrations, rfl⟩ := List.exists_cons_of_ne_nil (h.resolve_left nofun)
    exact .inr ⟨rfl, [], (current, 1), _, rfl, nofun, nofun, rfl⟩

/--
What a run leaves: what was not recorded has been run and recorded, up to the first that does not
pass. That one is run and recorded where its commit took and answered an error, and in no other
case.
-/
structure Stepped (before after : AuditState) (run : MigrateRun) (migrations : List Migration)
    (front rest done : List (Migration × ℕ)) (last : Option (Migration × ℕ)) : Prop where
  split : migrations.zipIdx 1 = front ++ rest
  passed : ∀ p ∈ front, run.Opens ∧ before.Passes run.attempts p
  stopped : run.Opens → ∀ p ∈ rest.head?, ¬ before.Passes run.attempts p
  unconfirmed : ∀ p, p ∈ last ↔ run.Opens ∧ rest.head? = some p ∧
    before.recorded p.2 = none ∧ (run.attempts p.2).Unconfirmed
  unrecorded : done = (front.filter fun p => before.recorded p.2 = none) ++ last.toList
  ran : after.ran = before.ran ++ done.map (·.1.sql)
  recorded : ∀ version name, after.recorded version = some name ↔
    before.recorded version = some name ∨ ∃ p ∈ done, p.2 = version ∧ p.1.name = name

section

variable {before after : AuditState} {run : MigrateRun} {migrations : List Migration}
  {error : Option MigrateError}

theorem migrate_stepped (h : before.migrate run migrations = (after, error)) :
    ∃ front rest done last, Stepped before after run migrations front rest done last ∧
      (error = none → rest = [] ∧ after.audit.isSome) := by
  have hc := before.migrate_cases run migrations
  rw [h] at hc
  rcases hc with ⟨hsm, he, ho⟩ | ⟨ho, front, rest, last, hr⟩
  · have hl : after.ran = before.ran ∧ after.recorded = before.recorded := by
      rcases hsm with rfl | rfl
      · exact ⟨rfl, rfl⟩
      · exact ⟨rfl, recorded_createAudit before⟩
    refine ⟨[], _, [], none, ⟨rfl, nofun, fun h => (ho h).elim, fun p => ⟨nofun, ?_⟩, rfl, ?_,
      fun version name => ?_⟩, fun hn => (he hn).elim⟩
    · rintro ⟨h, -⟩
      exact (ho h).elim
    · rw [hl.1, List.map_nil, List.append_nil]
    · simp [hl.2]
  · have hs : after = _ := hr.state
    have hnw : ∀ p ∈ (front.filter fun p => before.recorded p.2 = none) ++ last.toList,
        before.createAudit.recorded p.2 = none := by
      intro p hp
      rw [recorded_createAudit]
      rcases List.mem_append.mp hp with hp | hp
      · simpa using (List.mem_filter.mp hp).2
      · exact ((hr.unconfirmed p).mp (Option.mem_toList.mp hp)).2.1
    refine ⟨front, rest, _, last, ⟨hr.split, fun p hp => ⟨ho, hr.passed p hp⟩, fun _ => hr.stopped,
      fun p => ?_, rfl, ?_, fun version name => ?_⟩, fun hn => ⟨hr.error.mp hn, ?_⟩⟩
    · rw [hr.unconfirmed, and_iff_right ho]
    · rw [hs, ran_applyAll]
      rfl
    · rw [hs, recorded_applyAll rfl hr.nodup hnw, recorded_createAudit]
    · rw [hs, audit_applyAll]
      rfl

theorem migrate_atHead (h : before.migrate run migrations = (after, none)) :
    after.AtHead migrations ∧ after.audit.isSome := by
  obtain ⟨front, rest, done, last, hs, hn⟩ := migrate_stepped h
  obtain ⟨rfl, ha⟩ := hn rfl
  refine ⟨fun p hp => (hs.recorded p.2 p.1.name).mpr ?_, ha⟩
  rw [hs.split, List.append_nil] at hp
  refine (hs.passed p hp).2.imp_right fun hnw => ⟨p, ?_, rfl, rfl⟩
  rw [hs.unrecorded]
  exact List.mem_append_left _ (List.mem_filter.mpr ⟨hp, decide_eq_true hnw.1⟩)

theorem FirstMissing.not_atHead (h : FirstMissing db.recorded (migrations.zipIdx 1) version) :
    ¬ db.AtHead migrations := by
  obtain ⟨front, p, rest, hs, -, hp, -⟩ := h
  refine fun ha => hp (ha p ?_)
  rw [hs]
  exact List.mem_append_right _ List.mem_cons_self

/--
A run applies, in order and each as a whole, what is not recorded up to what does not pass. One
without an error ends at head.
-/
theorem migrate_toward_head (h : before.migrate run migrations = (after, error)) :
    (∃ front rest done last, Stepped before after run migrations front rest done last ∧
      (error = none → rest = [])) ∧
    (error = none → after.AtHead migrations ∧
      after.migrationsAtHead true true true migrations = (true, 0, none) ∧
      ∀ again, (after.migrate again migrations).1 = after) ∧
    ∀ db : AuditState, db.audit.isSome ∨ migrations ≠ [] →
      ((db.migrationsAtHead true true true migrations).1 = true ↔ db.AtHead migrations) ∧
      ((db.migrationsAtHead true true true migrations).1 = false →
        FirstMissing db.recorded (migrations.zipIdx 1)
          (db.migrationsAtHead true true true migrations).2.1) := by
  refine ⟨?_, ?_, fun db hdb => ?_⟩
  · obtain ⟨front, rest, done, last, hs, hn⟩ := migrate_stepped h
    exact ⟨front, rest, done, last, hs, fun he => (hn he).1⟩
  · rintro rfl
    obtain ⟨hh, ha⟩ := migrate_atHead h
    refine ⟨hh, ?_, fun again => hh.migrate ha again⟩
    rcases after.migrationsAtHead_spec migrations (.inl ha) with ⟨ht, -⟩ | ⟨-, hf⟩
    · exact ht
    · exact (hf.not_atHead hh).elim
  · rcases db.migrationsAtHead_spec migrations hdb with ⟨ht, hal⟩ | ⟨hfl, hf⟩
    · rw [ht]
      exact ⟨iff_of_true rfl hal, nofun⟩
    · rw [hfl]
      exact ⟨iff_of_false nofun hf.not_atHead, fun _ => hf⟩

end

namespace Sample

def first : AuditState := ⟨some fun version => if version = 1 then some "001" else none, ["a"]⟩

def smooth : MigrateRun :=
  ⟨true, true, .committed, true, fun _ => ⟨true, true, true, .committed⟩⟩

end Sample

theorem migrate_toward_head_second :
    (Sample.first.migrate Sample.smooth [⟨"001", "a"⟩, ⟨"002", "b"⟩]).1.ran = ["a", "b"] ∧
      (Sample.first.migrate Sample.smooth [⟨"001", "a"⟩, ⟨"002", "b"⟩]).1.AtHead
        [⟨"001", "a"⟩, ⟨"002", "b"⟩] := by
  have hr : Sample.first.migrate Sample.smooth [⟨"001", "a"⟩, ⟨"002", "b"⟩] = (_, none) := rfl
  exact ⟨rfl, ((migrate_toward_head hr).2.1 rfl).1⟩

/-- Where there is no audit table the reader misses the first of no migrations. -/
theorem no_table_not_at_head : (AuditState.mk none []).AtHead [] ∧
    (AuditState.mk none []).migrationsAtHead true true true [] = (false, 1, none) :=
  ⟨nofun, rfl⟩

end AuditState

end MessageServer.Pgx
