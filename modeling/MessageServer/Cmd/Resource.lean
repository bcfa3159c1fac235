import Mathlib.Data.List.Forall2
import Mathlib.Data.List.Nodup
import Mathlib.Logic.Function.Basic
import MessageServer.Lib.Text
import MessageServer.Store.Basic

/-! # The resource reader

A resource file is a flat mapping of scalars, one line each. Whatever else
stands in it is refused with the number of its line: nothing that the reader
does not understand is skipped.
-/

namespace MessageServer.Cmd

def tab : UInt8 := 0x09
def lf : UInt8 := 0x0A
def cr : UInt8 := 0x0D
def blank : UInt8 := 0x20
def doubleQuote : UInt8 := 0x22
def hash : UInt8 := 0x23
def singleQuote : UInt8 := 0x27
def dash : UInt8 := 0x2D
def colon : UInt8 := 0x3A

/-- The bytes of a line that a scanner does not reach. -/
def maxScanTokenSize : ℕ := 65536

def spaces : List Bytes :=
  [[0x09], [0x0A], [0x0B], [0x0C], [0x0D], [0x20], [0xC2, 0x85], [0xC2, 0xA0],
    [0xE1, 0x9A, 0x80], [0xE2, 0x80, 0x80], [0xE2, 0x80, 0x81], [0xE2, 0x80, 0x82],
    [0xE2, 0x80, 0x83], [0xE2, 0x80, 0x84], [0xE2, 0x80, 0x85], [0xE2, 0x80, 0x86],
    [0xE2, 0x80, 0x87], [0xE2, 0x80, 0x88], [0xE2, 0x80, 0x89], [0xE2, 0x80, 0x8A],
    [0xE2, 0x80, 0xA8], [0xE2, 0x80, 0xA9], [0xE2, 0x80, 0xAF], [0xE2, 0x81, 0x9F],
    [0xE3, 0x80, 0x80]]

/-- Why a file is refused, with the number of the line. -/
inductive ResourceError
  | indented (line : ℕ)
  | sequence (line : ℕ)
  | colonless (line : ℕ)
  | key (line : ℕ)
  | quote (line : ℕ)
  | duplicate (line : ℕ) (name : Bytes)
  | tooLong
  deriving DecidableEq, Repr

/-- What a resource file holds: its values by their keys, and its keys in the order of the file. -/
structure Resource where
  path : String
  values : Bytes → Option Bytes
  order : List Bytes

def Resource.empty (path : String) : Resource := ⟨path, fun _ => none, []⟩

def dropCr (line : Bytes) : Bytes := if line.getLast? = some cr then line.dropLast else line

/-- The blanks, tabs and carriage returns at the end of a line dropped. -/
def trimRight (line : Bytes) : Bytes :=
  line.rdropWhile fun b => b = blank || b = tab || b = cr

def trimSpace (text : Bytes) : Bytes := Text.trim spaces text

/-- The characters of a key: a-z, 0-9, a dot, an underscore and a dash. -/
def simpleKey (name : Bytes) : Bool :=
  name.all fun b =>
    (0x61 ≤ b && b ≤ 0x7A) || (0x30 ≤ b && b ≤ 0x39) || b = 0x2E || b = 0x5F || b = dash

/-- One layer of matching quotes taken off a value that does not hold its own quote. -/
def unquote : Bytes → Option Bytes
  | [] => none
  | first :: rest =>
    if rest.getLast? ≠ some first then none
    else if first ≠ doubleQuote ∧ first ≠ singleQuote then none
    else if first ∈ rest.dropLast then none
    else some rest.dropLast

/-- The key and the value of a line that is neither blank nor a comment. -/
def readEntry (number : ℕ) (trimmed : Bytes) : Except ResourceError (Bytes × Bytes) := do
  failIf (trimmed.head? = some blank ∨ trimmed.head? = some tab) (.indented number)
  failIf (trimmed.head? = some dash) (.sequence number)
  match Text.cut colon trimmed with
  | none => .error (.colonless number)
  | some (name, value) =>
    let name := trimSpace name
    failIf (name = [] ∨ simpleKey name = false) (.key number)
    let value := trimSpace value
    match unquote value with
    | some unquoted => return (name, unquoted)
    | none =>
      failIf (value.head? = some doubleQuote ∨ value.head? = some singleQuote) (.quote number)
      return (name, value)

namespace Resource

variable (current : Resource)

def add (name value : Bytes) : Resource :=
  { current with
    values := Function.update current.values name (some value)
    order := current.order ++ [name] }

def readLine (number : ℕ) (line : Bytes) : Except ResourceError Resource :=
  let trimmed := trimRight line
  if trimmed = [] ∨ trimmed.head? = some hash then .ok current
  else do
    let entry ← readEntry number trimmed
    failIf (current.values entry.1).isSome (.duplicate number entry.1)
    return current.add entry.1 entry.2

def readLines : Resource → ℕ → List Bytes → Except ResourceError Resource
  | current, _, [] => .ok current
  | current, number, line :: lines => do
    failIf (maxScanTokenSize ≤ line.length) .tooLong
    let next ← current.readLine number (dropCr line)
    readLines next (number + 1) lines

def lookup (name : Bytes) : Option Bytes := current.values name

def unread (known : Bytes → Bool) : List Bytes := current.order.filter fun name => !known name

end Resource

def readResource (path : String) : Option Bytes → Except ResourceError (Resource × Bool)
  | none => .ok (.empty path, false)
  | some content => do
    let current ← (Resource.empty path).readLines 1 (Text.pieces lf content)
    return (current, true)

/-- The lines that are neither blank nor a comment, without what ends them. -/
def significant (lines : List Bytes) : List Bytes :=
  (lines.map trimRight).filter fun line => line ≠ [] ∧ line.head? ≠ some hash

structure Holds (line name value : Bytes) : Prop where
  not_indented : line.head? ≠ some blank ∧ line.head? ≠ some tab
  not_sequence : line.head? ≠ some dash
  entry : ∃ before after text, line = before ++ colon :: after ∧ colon ∉ before ∧
    Text.Trimmed spaces before name ∧ Text.Trimmed spaces after text ∧
    ((∃ q, (q = doubleQuote ∨ q = singleQuote) ∧ q ∉ value ∧ text = q :: (value ++ [q])) ∨
      text = value ∧ text.head? ≠ some doubleQuote ∧ text.head? ≠ some singleQuote)
  name_ne_nil : name ≠ []
  name_simple : simpleKey name = true

theorem unquote_eq_some {text value : Bytes} : unquote text = some value ↔
    ∃ q, (q = doubleQuote ∨ q = singleQuote) ∧ q ∉ value ∧ text = q :: (value ++ [q]) := by
  constructor
  · intro h
    cases text with
    | nil => cases h
    | cons first rest =>
      simp only [unquote, Option.ite_none_left_eq_some, not_not, Option.some.injEq] at h
      obtain ⟨hl, hq, hi, rfl⟩ := h
      refine ⟨first, ?_, hi, ?_⟩
      · by_cases hd : first = doubleQuote
        · exact .inl hd
        · exact .inr (not_not.mp fun hs => hq ⟨hd, hs⟩)
      · rw [List.dropLast_append_getLast? first hl]
  · rintro ⟨q, hq, hv, rfl⟩
    have hn : ¬ (q ≠ doubleQuote ∧ q ≠ singleQuote) := by
      rintro ⟨hd, hs⟩
      exact hq.elim hd hs
    simp [unquote, hn, hv]

theorem readEntry_eq_ok {number : ℕ} {line name value : Bytes} :
    readEntry number line = .ok (name, value) ↔
      ¬ (line.head? = some blank ∨ line.head? = some tab) ∧ line.head? ≠ some dash ∧
      ∃ before after, Text.cut colon line = some (before, after) ∧ trimSpace before = name ∧
        ¬ (name = [] ∨ simpleKey name = false) ∧
        (unquote (trimSpace after) = some value ∨
          unquote (trimSpace after) = none ∧ trimSpace after = value ∧
            ¬ (value.head? = some doubleQuote ∨ value.head? = some singleQuote)) := by
  simp only [readEntry, bind_eq_ok, failIf_eq_ok]
  apply and_congr_right'
  apply and_congr_right'
  cases Text.cut colon line with
  | none => simp
  | some halves =>
    obtain ⟨before, after⟩ := halves
    cases hu : unquote (trimSpace after) with
    | some unquoted =>
      simp only [bind_eq_ok, failIf_eq_ok, hu]
      constructor
      · rintro ⟨hn, ⟨⟩⟩
        exact ⟨before, after, rfl, rfl, hn, .inl hu⟩
      · rintro ⟨_, _, ⟨⟩, rfl, hn, hv | ⟨hnn, -⟩⟩
        · rw [Option.some.inj (hu.symm.trans hv)]
          exact ⟨hn, rfl⟩
        · cases hu.symm.trans hnn
    | none =>
      simp only [bind_eq_ok, failIf_eq_ok, hu]
      constructor
      · rintro ⟨hn, hq, ⟨⟩⟩
        exact ⟨before, after, rfl, rfl, hn, .inr ⟨hu, rfl, hq⟩⟩
      · rintro ⟨_, _, ⟨⟩, rfl, hn, hv | ⟨-, rfl, hq⟩⟩
        · cases hu.symm.trans hv
        · exact ⟨hn, hq, rfl⟩

theorem nil_notMem_spaces : [] ∉ spaces := by decide

theorem readEntry_holds {number : ℕ} {line name value : Bytes}
    (h : readEntry number line = .ok (name, value)) : Holds line name value := by
  obtain ⟨hi, hd, before, after, hct, rfl, hn, hv⟩ := readEntry_eq_ok.mp h
  obtain ⟨rfl, hc⟩ := Text.eq_of_cut hct
  obtain ⟨hne, hs⟩ := not_or.mp hn
  refine ⟨not_or.mp hi, hd, ?_, hne, by simpa using hs⟩
  refine ⟨before, after, trimSpace after, rfl, hc, Text.trim_trimmed nil_notMem_spaces _,
    Text.trim_trimmed nil_notMem_spaces _, ?_⟩
  rcases hv with hv | ⟨-, rfl, hq⟩
  · exact .inl (unquote_eq_some.mp hv)
  · exact .inr ⟨rfl, not_or.mp hq⟩

theorem trimRight_dropCr (line : Bytes) : trimRight (dropCr line) = trimRight line := by
  unfold dropCr
  split
  next hl =>
    have hln := List.dropLast_append_getLast? cr hl
    conv_rhs => rw [← hln]
    unfold trimRight
    rw [List.rdropWhile_concat_pos]
    rfl
  · rfl

structure Resource.Lists (current : Resource) (entries : List (Bytes × Bytes)) : Prop where
  nodup : (entries.map Prod.fst).Nodup
  order : current.order = entries.map Prod.fst
  values : ∀ name value, current.values name = some value ↔ (name, value) ∈ entries

variable {entries : List (Bytes × Bytes)} {current : Resource} {lines : List Bytes}
  {next : Resource} {out : Resource}

theorem Resource.Lists.values_eq_none (h : current.Lists entries) {name : Bytes} :
    current.values name = none ↔ name ∉ entries.map Prod.fst := by
  constructor
  · intro hn hm
    obtain ⟨⟨_, value⟩, he, rfl⟩ := List.mem_map.mp hm
    cases hn.symm.trans ((h.values _ _).mpr he)
  · intro hm
    cases hv : current.values name with
    | none => rfl
    | some value => exact (hm (List.mem_map_of_mem ((h.values _ _).mp hv))).elim

theorem Resource.Lists.add
    (h : current.Lists entries) {name value : Bytes} (hn : current.values name = none) :
    (current.add name value).Lists (entries ++ [(name, value)]) := by
  have hf := h.values_eq_none.mp hn
  refine ⟨?_, ?_, ?_⟩
  · rw [List.map_append, List.nodup_append_comm]
    exact List.nodup_cons.mpr ⟨hf, h.nodup⟩
  · rw [List.map_append, ← h.order]
    rfl
  · intro name' value'
    by_cases hs : name' = name
    · subst hs
      simp only [Resource.add, Function.update_self, Option.some.injEq, List.mem_append,
        List.mem_singleton, Prod.mk.injEq, true_and]
      constructor
      · rintro rfl
        exact .inr rfl
      · rintro (hm | rfl)
        · exact (hf (List.mem_map_of_mem hm)).elim
        · rfl
    · simp [Resource.add, h.values, hs]

theorem significant_cons (line : Bytes) (lines : List Bytes) : significant (line :: lines) =
      if trimRight line = [] ∨ (trimRight line).head? = some hash then significant lines
      else trimRight line :: significant lines := by
  rw [significant, List.map_cons, List.filter_cons]
  split
  next h =>
    rw [if_neg (not_or.mpr (of_decide_eq_true h))]
    rfl
  next h =>
    rw [if_pos (not_not.mp fun hn => h (decide_eq_true (not_or.mp hn)))]
    rfl

theorem Resource.readLine_cases {number : ℕ} {line : Bytes}
    (h : current.readLine number (dropCr line) = .ok next) :
    (trimRight line = [] ∨ (trimRight line).head? = some hash) ∧ next = current ∨
      ¬ (trimRight line = [] ∨ (trimRight line).head? = some hash) ∧
        ∃ name value, readEntry number (trimRight line) = .ok (name, value) ∧
          current.values name = none ∧ next = current.add name value := by
  unfold Resource.readLine at h
  rw [trimRight_dropCr] at h
  dsimp only at h
  split at h
  next hs =>
    cases h
    exact .inl ⟨hs, rfl⟩
  next hs =>
    cases he : readEntry number (trimRight line) with
    | error e =>
      rw [he] at h
      cases h
    | ok entry =>
      rw [he] at h
      change failIf _ _ >>= _ = _ at h
      rw [bind_eq_ok, failIf_eq_ok] at h
      obtain ⟨hf, ⟨⟩⟩ := h
      exact .inr ⟨hs, entry.1, entry.2, rfl, by simpa using hf, rfl⟩

theorem Resource.Lists.readLine (h : current.Lists entries) {number : ℕ} {line : Bytes}
    (hr : current.readLine number (dropCr line) = .ok next) :
    ∃ added, next.Lists (entries ++ added) ∧ ∀ lines more,
      List.Forall₂ (fun line entry => Holds line entry.1 entry.2) (significant lines) more →
      List.Forall₂ (fun line entry => Holds line entry.1 entry.2) (significant (line :: lines))
        (added ++ more) := by
  rcases Resource.readLine_cases hr with
    ⟨hs, rfl⟩ | ⟨hs, name, value, he, hf, rfl⟩
  · refine ⟨[], by rwa [List.append_nil], fun lines more hm => ?_⟩
    rw [significant_cons, if_pos hs]
    exact hm
  · refine ⟨[(name, value)], h.add hf, fun lines more hm => ?_⟩
    rw [significant_cons, if_neg hs]
    exact .cons (readEntry_holds he) hm

theorem Resource.readLines_cons {number : ℕ} {line : Bytes}
    (h : current.readLines number (line :: lines) = .ok out) : ∃ next,
      current.readLine number (dropCr line) = .ok next ∧
        next.readLines (number + 1) lines = .ok out := by
  rw [Resource.readLines, bind_eq_ok, failIf_eq_ok] at h
  cases hn : current.readLine number (dropCr line) with
  | error e =>
    rw [hn] at h
    cases h.2
  | ok next =>
    rw [hn] at h
    exact ⟨next, rfl, h.2⟩

theorem Resource.Lists.readLines (h : current.Lists entries) {number : ℕ}
    (hr : current.readLines number lines = .ok out) : ∃ more, out.Lists (entries ++ more) ∧
      List.Forall₂ (fun line entry => Holds line entry.1 entry.2) (significant lines) more := by
  induction lines generalizing current number entries with
  | nil =>
    cases hr
    exact ⟨[], by rwa [List.append_nil], .nil⟩
  | cons line lines ih =>
    obtain ⟨next, hn, hrs⟩ := Resource.readLines_cons hr
    obtain ⟨added, hl, hh⟩ := h.readLine hn
    obtain ⟨more, ho, hm⟩ := ih hl hrs
    exact ⟨added ++ more, by rwa [← List.append_assoc], hh lines more hm⟩

/-! ### Files that are written -/

structure Writing where
  name : Bytes
  value : Bytes
  quote : Option UInt8

namespace Writing

def text (w : Writing) : Bytes :=
  match w.quote with
  | none => w.value
  | some q => q :: (w.value ++ [q])

def line (w : Writing) : Bytes := w.name ++ colon :: blank :: w.text

variable {w : Writing} {b : UInt8}

end Writing

variable {writings : List Writing}

end MessageServer.Cmd
