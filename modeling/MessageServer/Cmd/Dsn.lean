import MessageServer.Cmd.Configuration

/-! # The DSN of the server and of the migration tool

The server takes its DSN out of the environment or out of a resource file that
it reads strictly. The migration tool looks in the same two places, with a
reader of its own. On every file that the server accepts the two find the same
DSN.
-/

namespace MessageServer.Cmd

def dsnVariable : Bytes := ascii "URMESSAGE_PG_DSN"
def resourceDirVariable : Bytes := ascii "URMESSAGE_RESOURCE_DIR"
def dsnKey : Bytes := ascii "dsn"

inductive Source
  | absent | environment | file
  deriving DecidableEq

def pick (file : Resource) (key : Bytes) (lookupEnvironment : Bytes → Option Bytes)
    (name : Bytes) : Bytes × Source :=
  match (lookupEnvironment name).filter (· ≠ []) with
  | some value => (value, .environment)
  | none =>
    let value := (file.lookup key).getD []
    if value = [] then ([], .absent) else (value, .file)

/-- The DSN a server is deployed with, where each directory may hold a `pg.yml`. -/
def loadDsn (pgResource : Bytes → Option Bytes) (lookupEnvironment : Bytes → Option Bytes) :
    Except ResourceError (Bytes × Source) := do
  let resourceDir := ((lookupEnvironment resourceDirVariable).filter (· ≠ [])).getD (ascii ".")
  let (postgres, _) ← readResource "pg.yml" (pgResource resourceDir)
  return pick postgres dsnKey lookupEnvironment dsnVariable

/-- One pair of quotes taken off a value, whatever stands between them. -/
def bareValue : Bytes → Bytes
  | [] => []
  | first :: rest =>
    if (first = doubleQuote ∨ first = singleQuote) ∧ rest.getLast? = some first then rest.dropLast
    else first :: rest

def dsnFromLines : List Bytes → Bytes
  | [] => []
  | line :: lines =>
    let trimmed := trimSpace line
    if trimmed = [] ∨ trimmed.head? = some hash then dsnFromLines lines
    else
      match Text.cut colon trimmed with
      | none => dsnFromLines lines
      | some (name, value) =>
        if trimSpace name ≠ dsnKey then dsnFromLines lines else bareValue (trimSpace value)

def dsnFrom (contents : Bytes) : Bytes := dsnFromLines (Text.split lf contents)

inductive DsnError
  | unread | noLine
  deriving DecidableEq

def openWithDsn (pgResource : Bytes → Option Bytes) (getenv : Bytes → Bytes) :
    Except DsnError Bytes :=
  if getenv dsnVariable ≠ [] then .ok (getenv dsnVariable)
  else
    let directory := getenv resourceDirVariable
    match pgResource (if directory = [] then ascii "." else directory) with
    | none => .error .unread
    | some file => if dsnFrom file = [] then .error .noLine else .ok (dsnFrom file)

theorem spaces_coded : Text.Coded spaces := by
  have hl : ∀ token ∈ spaces, (token.head?.any fun b => b < 0x80 ∨ 0xC0 ≤ b) ∧
      ∀ b ∈ token.tail, ¬ (b < 0x80 ∨ 0xC0 ≤ b) := by decide +kernel
  refine ⟨⟨fun b => b < 0x80 ∨ 0xC0 ≤ b, fun token ht => ?_⟩, by decide +kernel⟩
  obtain ⟨hh, htl⟩ := hl token ht
  cases token with
  | nil => cases hh
  | cons a rest => exact ⟨a, rest, rfl, of_decide_eq_true hh, htl⟩

theorem trimSpace_trimRight (line : Bytes) : trimSpace (trimRight line) = trimSpace line := by
  let ends : UInt8 → Bool := fun b => b = blank || b = tab || b = cr
  have hl : line = trimRight line ++
      ((line.reverse.takeWhile ends).reverse.map fun b => [b]).flatten := by
    rw [← List.flatMap_def, List.flatMap_singleton', trimRight, List.rdropWhile,
      ← List.reverse_append, List.takeWhile_append_dropWhile, List.reverse_reverse]
  conv_rhs => rw [hl]
  refine (spaces_coded.trim_append_flatten (fun token ht => ?_) _).symm
  obtain ⟨b, hb, rfl⟩ := List.mem_map.mp ht
  have he := List.mem_takeWhile_imp (List.mem_reverse.mp hb)
  simp only [ends, Bool.or_eq_true, decide_eq_true_eq] at he
  rcases he with (rfl | rfl) | rfl <;> decide

variable {line name value : Bytes} {number : ℕ} (lines : List Bytes)

theorem bareValue_of_unquote {text : Bytes} (h : unquote text = some value ∨
    unquote text = none ∧ text = value ∧
      ¬ (value.head? = some doubleQuote ∨ value.head? = some singleQuote)) :
    bareValue text = value := by
  rcases h with h | ⟨-, rfl, hqt⟩
  · obtain ⟨q, hq, -, rfl⟩ := unquote_eq_some.mp h
    rw [bareValue, if_pos ⟨hq, List.getLast?_concat⟩, List.dropLast_concat]
  · cases text with
    | nil => rfl
    | cons first rest =>
      refine if_neg fun hf => hqt ?_
      exact hf.1.imp (congrArg some) (congrArg some)

/-- A line that holds an entry for the server holds the same entry for the tool. -/
theorem dsnFromLines_entry (h : readEntry number (trimRight line) = .ok (name, value)) :
    dsnFromLines (line :: lines) = if name ≠ dsnKey then dsnFromLines lines else value := by
  obtain ⟨-, -, before, after, hct, hn, hs, hv⟩ := readEntry_eq_ok.mp h
  obtain ⟨hl, hc⟩ := Text.eq_of_cut hct
  have ht : trimSpace line = Text.strip spaces before ++ colon :: Text.stripEnd spaces after := by
    rw [← trimSpace_trimRight, hl]
    exact spaces_coded.trim_append_sep (by decide) before after
  have hb : colon ∉ Text.strip spaces before := by
    obtain ⟨-, off, -, heq⟩ := Text.strip_spec nil_notMem_spaces before
    rw [heq] at hc
    exact fun hm => hc (List.mem_append_right _ hm)
  have hh : ¬ (trimSpace line = [] ∨ (trimSpace line).head? = some hash) := by
    obtain ⟨a, rest, hcn⟩ := List.exists_cons_of_ne_nil fun hnl => hs (.inl hnl)
    obtain ⟨tail, htl⟩ : name <+: Text.strip spaces before :=
      hn ▸ Text.stripEnd_prefix nil_notMem_spaces _
    rw [ht, ← htl, hcn]
    rintro (hnl | ⟨⟨⟩⟩)
    · cases hnl
    · exact hs (.inr (by rw [hcn]; rfl))
  have hn' : trimSpace (Text.strip spaces before) = name :=
    (spaces_coded.trim_strip before).trans hn
  have hv' : trimSpace (Text.stripEnd spaces after) = trimSpace after :=
    spaces_coded.trim_stripEnd after
  rw [dsnFromLines, if_neg hh, ht, Text.cut_append hb]
  dsimp only
  rw [hn', hv', bareValue_of_unquote hv]

theorem dsnFromLines_skip (h : trimRight line = [] ∨ (trimRight line).head? = some hash) :
    dsnFromLines (line :: lines) = dsnFromLines lines := by
  rw [dsnFromLines, if_pos]
  rw [← trimSpace_trimRight]
  rcases h with h | h
  · rw [h]
    exact .inl rfl
  · obtain ⟨rest, hr⟩ := List.head?_eq_some_iff.mp h
    rw [hr]
    have ht := spaces_coded.trim_append_sep (a := hash) (by decide) [] rest
    exact .inr (congrArg List.head? ht)

/-- The lines that are read hold the DSN, unless it stands already. -/
theorem readLines_dsn {current out : Resource} {lines : List Bytes}
    (h : current.readLines number lines = .ok out) :
    (current.values dsnKey = none → (out.values dsnKey).getD [] = dsnFromLines lines) ∧
      ∀ value, current.values dsnKey = some value → out.values dsnKey = some value := by
  induction lines generalizing current number with
  | nil =>
    cases h
    exact ⟨fun hn => by rw [hn]; rfl, fun _ => id⟩
  | cons line lines ih =>
    obtain ⟨next, hnx, hr⟩ := Resource.readLines_cons h
    obtain ⟨hn, hs⟩ := ih hr
    rcases Resource.readLine_cases hnx with
      ⟨hsk, rfl⟩ | ⟨-, name, value, he, hf, rfl⟩
    · rw [dsnFromLines_skip lines hsk]
      exact ⟨hn, hs⟩
    · rw [dsnFromLines_entry lines he]
      by_cases hnm : name = dsnKey
      · subst hnm
        have ha : (current.add dsnKey value).values dsnKey = some value := by
          simp only [Resource.add, Function.update_self]
        rw [if_neg (not_not.mpr rfl), hs value ha, hf]
        exact ⟨fun _ => rfl, fun _ hne => absurd hne.symm (Option.some_ne_none _)⟩
      · have ho : (current.add name value).values dsnKey = current.values dsnKey :=
          Function.update_of_ne (Ne.symm hnm) ..
        rw [if_pos hnm, ← ho]
        exact ⟨hn, hs⟩

theorem dsnFrom_eq {path : String} {content : Bytes} {current : Resource} {found : Bool}
    (h : readResource path (some content) = .ok (current, found)) :
    dsnFrom content = (current.lookup dsnKey).getD [] := by
  have hr : (Resource.empty path).readLines 1 (Text.pieces lf content) = .ok current := by
    unfold readResource at h
    dsimp only at h
    cases hr : (Resource.empty path).readLines 1 (Text.pieces lf content) with
    | error e =>
      rw [hr] at h
      cases h
    | ok out =>
      rw [hr] at h
      cases h
      rfl
  have hl : ∀ lines, dsnFromLines (lines ++ [[]]) = dsnFromLines lines := by
    intro lines
    induction lines with
    | nil => rfl
    | cons line lines ih => rw [List.cons_append, dsnFromLines, dsnFromLines, ih]
  rw [Resource.lookup, (readLines_dsn hr).1 rfl, dsnFrom]
  rcases Text.split_eq_pieces lf content with heq | heq
  · rw [heq]
  · rw [heq, hl]

theorem filter_ne_nil (found : Option Bytes) : found.filter (· ≠ []) =
    if found.getD [] = [] then none else some (found.getD []) := by
  cases found with
  | none => rfl
  | some value => by_cases hv : value = [] <;> simp [hv]

/-- The tool opens the DSN that the server runs on, and refuses where the server has none. -/
theorem same_dsn {pgResource lookupEnvironment : Bytes → Option Bytes} {dsn : Bytes}
    {source : Source} (h : loadDsn pgResource lookupEnvironment = .ok (dsn, source)) :
    (dsn ≠ [] → openWithDsn pgResource (fun name => (lookupEnvironment name).getD []) = .ok dsn) ∧
    (dsn = [] → ∃ e, openWithDsn pgResource (fun name => (lookupEnvironment name).getD []) =
      .error e) ∧
    ∀ path content current found, readResource path (some content) = .ok (current, found) →
      dsnFrom content = (current.lookup dsnKey).getD [] := by
  refine and_assoc.mp ⟨?_, fun _ _ _ _ hr => dsnFrom_eq hr⟩
  unfold loadDsn at h
  unfold openWithDsn
  dsimp only at h ⊢
  have hdr : ((lookupEnvironment resourceDirVariable).filter (· ≠ [])).getD (ascii ".") =
      if (lookupEnvironment resourceDirVariable).getD [] = [] then ascii "."
      else (lookupEnvironment resourceDirVariable).getD [] := by
    rw [filter_ne_nil]
    split <;> rfl
  rw [hdr] at h
  generalize pgResource _ = file at h ⊢
  cases hr : readResource "pg.yml" file with
  | error e =>
    rw [hr] at h
    cases h
  | ok read =>
    obtain ⟨current, found⟩ := read
    rw [hr] at h
    have hp : pick current dsnKey lookupEnvironment dsnVariable = (dsn, source) := Except.ok.inj h
    unfold pick at hp
    rw [filter_ne_nil] at hp
    by_cases he : (lookupEnvironment dsnVariable).getD [] = []
    · rw [if_pos he] at hp
      rw [if_neg (not_not.mpr he)]
      dsimp only at hp
      have hd : dsn = (current.lookup dsnKey).getD [] := by
        split at hp
        next hn => exact (Prod.mk.inj hp).1.symm.trans hn.symm
        · exact (Prod.mk.inj hp).1.symm
      cases file with
      | none =>
        cases hr
        exact ⟨fun hne => (hne hd).elim, fun _ => ⟨_, rfl⟩⟩
      | some content =>
        dsimp only
        rw [dsnFrom_eq hr, ← hd]
        exact ⟨fun hne => if_neg hne, fun hn => ⟨_, if_pos hn⟩⟩
    · rw [if_neg he] at hp
      cases hp
      exact ⟨fun _ => if_pos he, fun hn => (he hn).elim⟩

/-- A quoted DSN among comments and other keys, with no variable set. -/
theorem same_dsn_quoted : openWithDsn
    (fun _ => some (ascii "# pg\nhost: db\n\ndsn : 'postgres://db' \n"))
    (fun name => ((fun _ => none : Bytes → Option Bytes) name).getD []) =
      .ok (ascii "postgres://db") := by
  have hl : loadDsn (fun _ => some (ascii "# pg\nhost: db\n\ndsn : 'postgres://db' \n"))
      (fun _ => none) = .ok (ascii "postgres://db", .file) := by decide +kernel
  exact (same_dsn hl).1 (by decide)

end MessageServer.Cmd
