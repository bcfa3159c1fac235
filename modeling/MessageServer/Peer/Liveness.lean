import MessageServer.Peer.Connections

/-! # A dead nonce stays dead

A connection is live while its client id has no later one and it has not been
silent for longer than the bound. Nothing brings it back: the live map takes
only connections that are opened, and a touch reaches only those that are live.
-/

namespace MessageServer.Peer

namespace Connections

variable {t : Connections} {p q : ℕ} {current : Connection} {now now' : Time}

def Sound (t : Connections) : Prop :=
  ∀ entry ∈ t.live.rows, ∃ current, t.opened[entry.connection]? = some current ∧
    current.clientId = entry.clientId ∧
    ∀ (q : ℕ) (other : Connection), t.opened[q]? = some other →
      other.clientId = entry.clientId → q ≤ entry.connection

def Dead (t : Connections) (p : ℕ) (now : Time) : Prop :=
  p < t.opened.length ∧ t.isLive (some p) now = false

theorem find_live {clientId : Bytes} : (t.live.find clientId).map (·.connection) = some p ↔
    ⟨clientId, p⟩ ∈ t.live.rows := by
  constructor
  · intro h
    obtain ⟨⟨_, _⟩, hf, rfl⟩ := Option.map_eq_some_iff.mp h
    obtain ⟨hm, rfl⟩ := Table.find_eq_some.mp hf
    exact hm
  · intro hm
    rw [Table.find_eq_some.mpr ⟨hm, rfl⟩]
    rfl

theorem isLive_iff : t.isLive (some p) now = true ↔ ∃ current, t.opened[p]? = some current ∧
    ⟨current.clientId, p⟩ ∈ t.live.rows ∧ t.expired current now = false := by
  unfold isLive
  cases ho : t.opened[p]? with
  | none => simp [ho]
  | some current =>
    simp only [Option.bind_some, ho, Option.map_some, Option.some.injEq, exists_eq_left',
      ← find_live]
    split
    next hot => simp [hot]
    next hs => simp [not_not.mp hs]

theorem expired_mono (hle : now ≤ now') (h : t.expired current now' = false) :
    t.expired current now = false := by
  unfold expired at h ⊢
  split
  · rfl
  next hi =>
    rw [if_neg hi, decide_eq_false_iff_not, Int.not_lt] at h
    rw [decide_eq_false_iff_not, Int.not_lt]
    exact Int.le_trans (Int.sub_le_sub_right hle _) h

theorem isLive_mono (hle : now ≤ now') (h : t.isLive (some p) now' = true) :
    t.isLive (some p) now = true := by
  obtain ⟨current, ho, hen, he⟩ := isLive_iff.mp h
  exact isLive_iff.mpr ⟨current, ho, hen, expired_mono hle he⟩

theorem Dead.not_live (h : t.Dead p now) : ¬ t.isLive (some p) now = true := by
  rw [h.2]
  exact Bool.false_ne_true

theorem Dead.later (h : t.Dead p now) (hle : now ≤ now') : t.Dead p now' :=
  ⟨h.1, Bool.eq_false_iff.mpr fun hl => h.not_live (isLive_mono hle hl)⟩

theorem Sound.last (hs : t.Sound) (hlv : t.isLive (some p) now = true)
    {opened other : Connection} (hp : t.opened[p]? = some opened) (hq : t.opened[q]? = some other)
    (hid : other.clientId = opened.clientId) : q ≤ p := by
  obtain ⟨current, hc, he, -⟩ := isLive_iff.mp hlv
  cases hp.symm.trans hc
  obtain ⟨-, -, -, hl⟩ := hs _ he
  exact hl q other hq hid

section Filter

variable {f : LiveEntry → Bool}

theorem Sound.filter (h : t.Sound) : Sound { t with live := t.live.filter f } :=
  fun entry he => h entry (List.mem_of_mem_filter he)

theorem Dead.filter (h : t.Dead p now) : Dead { t with live := t.live.filter f } p now := by
  refine ⟨h.1, Bool.eq_false_iff.mpr fun hl => h.not_live ?_⟩
  obtain ⟨current, ho, hen, he⟩ := isLive_iff.mp hl
  exact isLive_iff.mpr ⟨current, ho, List.mem_of_mem_filter hen, he⟩

end Filter

theorem touch_opened (connection : ℕ) : (t.touch connection now).opened[p]? =
    (t.opened[p]?).map fun current =>
      if connection = p then { current with seen := now } else current := by
  unfold touch
  rw [List.getElem?_modify]
  rfl

theorem touch_clientId {connection : ℕ} {touched : Connection}
    (h : (t.touch connection now).opened[p]? = some touched) :
    ∃ current, t.opened[p]? = some current ∧ current.clientId = touched.clientId ∧
      current.nonce = touched.nonce ∧ (connection ≠ p → current = touched) := by
  rw [touch_opened] at h
  obtain ⟨current, hc, rfl⟩ := Option.map_eq_some_iff.mp h
  refine ⟨current, hc, ?_⟩
  split
  next heq => exact ⟨rfl, rfl, fun hne => (hne heq).elim⟩
  · exact ⟨rfl, rfl, fun _ => rfl⟩

theorem Sound.touch (h : t.Sound) (connection : ℕ) : (t.touch connection now).Sound := by
  intro entry he
  obtain ⟨current, hc, hid, hl⟩ := h entry he
  refine ⟨_, by rw [touch_opened, hc, Option.map_some], ?_, ?_⟩
  · split <;> exact hid
  · intro q other ho ho'
    obtain ⟨old, hol, hs, -⟩ := touch_clientId ho
    exact hl q old hol (hs.trans ho')

theorem Dead.touch (h : t.Dead p now) (hl : t.isLive (some q) now = true) :
    (t.touch q now').Dead p now := by
  have hne : q ≠ p := by
    rintro rfl
    exact h.not_live hl
  refine ⟨by simpa [Connections.touch] using h.1, Bool.eq_false_iff.mpr fun hb => ?_⟩
  obtain ⟨touched, ht, hen, he⟩ := isLive_iff.mp hb
  obtain ⟨current, hc, -, -, hs⟩ := touch_clientId ht
  obtain rfl := hs hne
  exact h.not_live (isLive_iff.mpr ⟨current, hc, hen, he⟩)

theorem mem_live_replace {entry : LiveEntry} (h : entry ∈ (t.replace current).live.rows) :
    entry = ⟨current.clientId, t.opened.length⟩ ∨
      entry ∈ t.live.rows ∧ entry.clientId ≠ current.clientId := by
  have hfr : ((t.delete current.clientId).live).find current.clientId = none := by
    rw [delete, Table.find_filter]
    cases hf : t.live.find current.clientId with
    | none => rfl
    | some old => simp [(Table.find_eq_some.mp hf).2]
  rw [replace, Table.rows_insert hfr, List.mem_append, List.mem_singleton] at h
  rcases h with ho | rfl
  · obtain ⟨hm, hid⟩ := List.mem_filter.mp ho
    exact .inr ⟨hm, by simpa using hid⟩
  · exact .inl rfl

theorem replace_opened (hp : p < t.opened.length) :
    (t.replace current).opened[p]? = t.opened[p]? := List.getElem?_append_left hp

theorem Sound.replace (h : t.Sound) : (t.replace current).Sound := by
  intro entry he
  rcases mem_live_replace he with rfl | ⟨hm, ho⟩
  · refine ⟨current, List.getElem?_concat_length, rfl, fun q other hq _ => ?_⟩
    have hlt := (List.getElem?_eq_some_iff.mp hq).1
    simp only [Connections.replace, List.length_append, List.length_singleton] at hlt
    exact Nat.le_of_lt_succ hlt
  · obtain ⟨old, hol, hid, hl⟩ := h entry hm
    have hlt := (List.getElem?_eq_some_iff.mp hol).1
    refine ⟨old, (replace_opened hlt).trans hol, hid, fun q other hq hs => ?_⟩
    by_cases hn : q < t.opened.length
    · exact hl q other ((replace_opened hn).symm.trans hq) hs
    · have hq' := (List.getElem?_eq_some_iff.mp hq).1
      simp only [Connections.replace, List.length_append, List.length_singleton] at hq'
      obtain rfl : q = t.opened.length := by omega
      have hc : (t.replace current).opened[t.opened.length]? = some current :=
        List.getElem?_concat_length
      cases hq.symm.trans hc
      exact (ho hs.symm).elim

theorem Dead.replace (h : t.Dead p now) : (t.replace current).Dead p now := by
  refine ⟨by simpa [Connections.replace] using Nat.lt_succ_of_lt h.1,
    Bool.eq_false_iff.mpr fun hb => h.not_live ?_⟩
  obtain ⟨old, ho, hen, he⟩ := isLive_iff.mp hb
  rw [replace_opened h.1] at ho
  rcases mem_live_replace hen with heq | ⟨hm, -⟩
  · exact absurd (LiveEntry.mk.inj heq).2 (Nat.ne_of_lt h.1)
  · exact isLive_iff.mpr ⟨old, ho, hm, he⟩

section Operations

variable {clientId : Bytes} {random : Option (Sized serverNonceBytes)} {later : Time}

theorem Sound.sweep (h : t.Sound) : (t.sweep now).1.Sound := by
  unfold Connections.sweep
  split
  · exact h
  · exact h.filter

theorem Dead.sweep (h : t.Dead p now) : (t.sweep now').1.Dead p now := by
  unfold Connections.sweep
  split
  · exact h
  · exact h.filter

theorem Sound.openConnection (h : t.Sound) :
    (t.openConnection clientId random now later).1.Sound := by
  cases random with
  | none => exact h
  | some nonce => exact h.sweep.replace

theorem Dead.openConnection (h : t.Dead p now) :
    (t.openConnection clientId random now' later).1.Dead p now ∧
      (t.openConnection clientId random now' later).2 ≠ some p := by
  cases random with
  | none => exact ⟨h, nofun⟩
  | some nonce =>
    exact ⟨h.sweep.replace, fun heq => Nat.ne_of_gt h.sweep.1 (Option.some.inj heq)⟩

theorem Sound.live_of_find (h : t.Sound) {entry : LiveEntry}
    (hf : t.live.find clientId = some entry)
    (he : ¬ t.expiredAt entry.connection now = true) :
    t.isLive (some entry.connection) now = true := by
  obtain ⟨hm, -⟩ := Table.find_eq_some.mp hf
  obtain ⟨current, hc, hid, -⟩ := h entry hm
  refine isLive_iff.mpr ⟨current, hc, by rwa [hid], ?_⟩
  simpa [expiredAt, hc] using he

theorem Sound.lookup (h : t.Sound) : (t.lookup clientId now).1.Sound ∧
    ∀ q, (t.lookup clientId now).2 = some q → t.isLive (some q) now = true := by
  unfold Connections.lookup
  cases hf : t.live.find clientId with
  | none => exact ⟨h, nofun⟩
  | some entry =>
    dsimp only
    split
    · exact ⟨h.filter, nofun⟩
    next he =>
      refine ⟨h.touch _, ?_⟩
      rintro q ⟨⟩
      exact h.live_of_find hf he

theorem Dead.lookup (hs : t.Sound) (h : t.Dead p now) (hle : now ≤ now') :
    (t.lookup clientId now').1.Dead p now ∧ (t.lookup clientId now').2 ≠ some p := by
  have hr : (t.lookup clientId now').2 ≠ some p :=
    fun heq => h.not_live (isLive_mono hle (hs.lookup.2 p heq))
  refine ⟨?_, hr⟩
  unfold Connections.lookup
  cases hf : t.live.find clientId with
  | none => exact h
  | some entry =>
    dsimp only
    split
    · exact h.filter
    next he => exact h.touch (isLive_mono hle (hs.live_of_find hf he))

theorem Sound.peek (h : t.Sound) (hp : t.peek clientId now = some q) :
    t.isLive (some q) now = true := by
  unfold Connections.peek at hp
  cases hf : t.live.find clientId with
  | none =>
    rw [hf] at hp
    cases hp
  | some entry =>
    rw [hf] at hp
    dsimp only at hp
    split at hp
    · cases hp
    next he =>
      cases hp
      exact h.live_of_find hf he

end Operations

theorem connectionAuthenticated_iff {arrived : Option Inbound} {conn : Option Api.Connection} :
    connectionAuthenticated t arrived conn now = .ok ↔
      ∃ inbound p opened told, arrived = some inbound ∧ inbound.connection = some p ∧
        conn = some told ∧ t.isLive (some p) now = true ∧ t.opened[p]? = some opened ∧
        told.serverNonce = opened.nonce.val := by
  unfold connectionAuthenticated
  constructor
  · intro h
    split at h
    next p told hc =>
      obtain ⟨inbound, rfl, hp⟩ := Option.bind_eq_some_iff.mp hc
      split at h
      · cases h
      next hl =>
        rw [not_not] at hl
        obtain ⟨opened, ho, -⟩ := isLive_iff.mp hl
        split at h
        · cases h
        next hh =>
          refine ⟨inbound, p, opened, told, rfl, hp, rfl, hl, ho, ?_⟩
          simpa [ho, Connection.holds, eq_comm] using hh
    · cases h
  · rintro ⟨inbound, p, opened, told, rfl, hp, rfl, hl, ho, hn⟩
    simp [hp, hl, ho, Connection.holds, hn]

end Connections

open Interleaving Connections

variable {settings : Settings} {tick : Tick} {t : Connections} {p : ℕ} {now : Time}

section Steps

variable {request : Arriving} {call : Call}

theorem answer_sound (h : t.Sound) : (answer settings tick t request).1.Sound := by
  unfold answer
  split
  · exact h
  · exact h
  · split
    · exact h
    split
    · exact h
    have ho : (t.openConnection request.clientId tick.random tick.now tick.later).1.Sound :=
      h.openConnection
    split
    next heq => rwa [heq] at ho
    next heq => rwa [heq] at ho
  · split
    · exact h
    have hl : (t.lookup request.clientId tick.now).1.Sound := h.lookup.1
    split
    next heq => rwa [heq] at hl
    next heq => rwa [heq] at hl

theorem answer_dead (hs : t.Sound) (h : t.Dead p now) (hle : now ≤ tick.now) :
    (answer settings tick t request).1.Dead p now ∧
      (answer settings tick t request).2 ≠ .resolved request p := by
  unfold answer
  split
  · exact ⟨h, nofun⟩
  · exact ⟨h, nofun⟩
  · split
    · exact ⟨h, nofun⟩
    split
    · exact ⟨h, nofun⟩
    have ho : (t.openConnection request.clientId tick.random tick.now tick.later).1.Dead p now :=
      h.openConnection.1
    split
    next heq =>
      rw [heq] at ho
      exact ⟨ho, nofun⟩
    next heq =>
      rw [heq] at ho
      exact ⟨ho, nofun⟩
  · split
    · exact ⟨h, nofun⟩
    have hl : (t.lookup request.clientId tick.now).1.Dead p now ∧
        (t.lookup request.clientId tick.now).2 ≠ some p := h.lookup hs hle
    split
    next heq =>
      rw [heq] at hl
      exact ⟨hl.1, nofun⟩
    next heq =>
      rw [heq] at hl
      refine ⟨hl.1, ?_⟩
      rintro ⟨⟩
      exact hl.2 rfl

theorem authenticated_of_frontChecks {front : Api.FrontChecks} (h : Api.frontChecks front = .ok) :
    front.connectionAuthenticated = .ok := by
  unfold Api.frontChecks at h
  split at h
  next hf => exact (hf h).elim
  split at h
  next hc => exact (hc h).elim
  next hc => exact not_not.mp hc

theorem serve_admitted {q : ℕ} {told : Api.Connection}
    (h : serve settings tick t request p = .admitted request q told) :
    q = p ∧ t.isLive (some p) tick.now = true ∧
      ∃ opened, t.opened[p]? = some opened ∧ told.serverNonce = opened.nonce.val := by
  unfold serve at h
  split at h
  · cases h
  next opened ho =>
    dsimp only at h
    split at h
    · cases h
    next hf =>
      cases h
      have hc := authenticated_of_frontChecks (not_not.mp hf)
      dsimp only at hc
      obtain ⟨_, _, _, _, ⟨⟩, ⟨⟩, ⟨⟩, hl, -⟩ := connectionAuthenticated_iff.mp hc
      exact ⟨rfl, hl, opened, ho, rfl⟩

theorem step_sound (h : t.Sound) : (call.step settings tick t).1.Sound := by
  cases call with
  | arriving => exact answer_sound h
  | sweeping => exact h.sweep
  | _ => exact h

theorem step_dead (hs : t.Sound) (h : t.Dead p now) (hle : now ≤ tick.now) :
    (call.step settings tick t).1.Dead p now := by
  cases call with
  | arriving => exact (answer_dead hs h hle).1
  | sweeping => exact h.sweep
  | _ => exact h

end Steps

section Runs

variable {ι : Type*} [DecidableEq ι] {idle : ℤ} {calls : ι → Call}

def machine (settings : Settings) : Machine Connections Call Tick :=
  ⟨fun tick t call => call.step settings tick t⟩

/-- The world in which calls run on a table, from the start of the process on. -/
def run (settings : Settings) (idle : ℤ) (calls : ι → Call) (sched : List (ι × Tick)) :
    World Connections Call ι :=
  (machine settings).exec ⟨newConnections idle, calls⟩ sched

theorem newConnections_sound : (newConnections idle).Sound := fun _ h => nomatch h

theorem run_sound (sched : List (ι × Tick)) : (run settings idle calls sched).shared.Sound :=
  Machine.exec_induction (M := machine settings) (P := fun w => Sound w.shared) newConnections_sound
    (fun w m h => show Sound ((w.calls m.1).step settings m.2 w.shared).1 from step_sound h) sched

theorem exec_dead {w : World Connections Call ι} {after : List (ι × Tick)}
    (hs : w.shared.Sound) (h : w.shared.Dead p now)
    (hc : ∀ m ∈ after, now ≤ m.2.now) :
    ((machine settings).exec w after).shared.Dead p now := by
  induction after generalizing w with
  | nil => exact h
  | cons m after ih =>
    rw [List.forall_mem_cons] at hc
    exact ih (step_sound hs) (step_dead hs h hc.1) hc.2

theorem run_dead {before after : List (ι × Tick)}
    (h : (run settings idle calls before).shared.Dead p now)
    (hc : ∀ m ∈ after, now ≤ m.2.now) :
    (run settings idle calls (before ++ after)).shared.Dead p now := by
  rw [run, Machine.exec_append]
  exact exec_dead (run_sound before) h hc

end Runs

def Connections.DistinctNonces (t : Connections) : Prop := (t.opened.map (·.nonce)).Nodup

instance : Decidable t.DistinctNonces := inferInstanceAs (Decidable (List.Nodup _))

/-- No operation at a time answers with a connection, or accepts it or its nonce. -/
structure Gone (settings : Settings) (t : Connections) (p : ℕ) (now : Time) : Prop where
  not_live : t.isLive (some p) now = false
  not_opened : ∀ clientId random later, (t.openConnection clientId random now later).2 ≠ some p
  not_found : ∀ clientId, (t.lookup clientId now).2 ≠ some p
  not_peeked : ∀ clientId, t.peek clientId now ≠ some p
  not_resolved : ∀ tick request, tick.now = now →
    (answer settings tick t request).2 ≠ .resolved request p
  not_authenticated : ∀ inbound conn,
    connectionAuthenticated t (some inbound) (some conn) now = .ok → inbound.connection ≠ some p ∧
        ∀ opened, t.opened[p]? = some opened → conn.serverNonce ≠ opened.nonce.val
  not_admitted : ∀ tick request q r told, tick.now = now →
    serve settings tick t request q = .admitted request r told →
      r ≠ p ∧ ∀ opened, t.opened[p]? = some opened → told.serverNonce ≠ opened.nonce.val

theorem Connections.DistinctNonces.ne (h : t.DistinctNonces) {q : ℕ} (hne : q ≠ p)
    {current other : Connection} (hq : t.opened[q]? = some current)
    (hp : t.opened[p]? = some other) : current.nonce.val ≠ other.nonce.val := by
  intro heq
  have hq' : (t.opened.map (·.nonce))[q]? = some current.nonce := by
    rw [List.getElem?_map, hq, Option.map_some]
  have hp' : (t.opened.map (·.nonce))[p]? = some current.nonce := by
    rw [List.getElem?_map, hp, Option.map_some, Subtype.ext heq]
  obtain ⟨hlt, -⟩ := List.getElem?_eq_some_iff.mp hq'
  exact hne ((List.getElem?_inj hlt h).mp (hq'.trans hp'.symm))

theorem Connections.Dead.gone (hs : t.Sound) (hnn : t.DistinctNonces)
    (h : t.Dead p now) : Gone settings t p now := by
  have hot : ∀ {q}, t.isLive (some q) now = true → q ≠ p := by
    rintro q hl rfl
    exact h.not_live hl
  constructor
  · exact h.2
  · intro clientId random later
    exact h.openConnection.2
  · intro clientId
    exact (h.lookup hs (Int.le_refl now)).2
  · intro clientId hp
    exact h.not_live (hs.peek hp)
  · rintro tick request rfl
    exact (answer_dead hs h (Int.le_refl _)).2
  · intro inbound conn hok
    obtain ⟨_, q, current, _, ⟨⟩, hq, ⟨⟩, hl, hc, hn⟩ := connectionAuthenticated_iff.mp hok
    have hne := hot hl
    refine ⟨fun heq => hne (Option.some.inj (hq.symm.trans heq)), fun opened ho => ?_⟩
    rw [hn]
    exact hnn.ne hne hc ho
  · rintro tick request q r told rfl hsr
    obtain ⟨rfl, hl, current, hc, hn⟩ := serve_admitted hsr
    have hne := hot hl
    refine ⟨hne, fun opened ho => ?_⟩
    rw [hn]
    exact hnn.ne hne hc ho

def Connections.LiveIsLast (t : Connections) : Prop :=
  ∀ p q opened other now, t.opened[p]? = some opened → t.opened[q]? = some other →
    other.clientId = opened.clientId → t.isLive (some p) now = true → q ≤ p

section Run

variable {ι : Type*} [DecidableEq ι]

/--
In every run a client id has at most one live connection, its last, and one that is not live is gone
from then on.
-/
theorem dead_nonce_stays_dead (settings : Settings) (idle : ℤ) (calls : ι → Call)
    (sched : List (ι × Tick)) :
    (run settings idle calls sched).shared.LiveIsLast ∧
    (∀ before after now p, sched = before ++ after → (∀ m ∈ after, now ≤ m.2.now) →
      (run settings idle calls sched).shared.DistinctNonces →
      p < (run settings idle calls before).shared.opened.length →
      (run settings idle calls before).shared.isLive (some p) now = false →
      ∀ now', now ≤ now' → Gone settings (run settings idle calls sched).shared p now') ∧
    ∀ arrived conn now,
      connectionAuthenticated (run settings idle calls sched).shared arrived conn now = .ok ↔
      ∃ inbound p opened told, arrived = some inbound ∧ inbound.connection = some p ∧
        conn = some told ∧ (run settings idle calls sched).shared.isLive (some p) now = true ∧
        (run settings idle calls sched).shared.opened[p]? = some opened ∧
        told.serverNonce = opened.nonce.val := by
  refine ⟨?_, ?_, fun arrived conn now => connectionAuthenticated_iff⟩
  · intro p q opened other now hp hq hid hl
    exact (run_sound sched).last hl hp hq hid
  · rintro before after now p rfl hc hn hp hd now' hle
    have hs := run_dead ⟨hp, hd⟩ hc
    exact (hs.later hle).gone (run_sound _) hn

end Run

namespace Sample

def limits : Settings := ⟨1000, 1⟩

def nonce (byte : UInt8) : Sized serverNonceBytes :=
  ⟨List.replicate serverNonceBytes byte, List.length_replicate⟩

def reading (now : Time) (byte : UInt8) : Tick := ⟨now, now, some (nonce byte)⟩

def clients : ℕ → Call
  | 0 | 1 => .arriving ⟨[7], 10, .hello [1]⟩
  | 2 | 3 => .arriving ⟨[7], 10, .pipeline 1⟩
  | _ => .sweeping

def hellos : List (ℕ × Tick) := [(0, reading 0 1), (2, reading 1 0), (1, reading 2 2)]

def requests : List (ℕ × Tick) := [(2, reading 3 0), (3, reading 4 0)]

end Sample

open Sample

/-- The first of the two connections is gone once the second was opened. -/
theorem dead_nonce_stays_dead_hello : Gone limits
      (run limits 100 clients (hellos ++ requests)).shared 0 5 :=
  (dead_nonce_stays_dead limits 100 clients
    (hellos ++ requests)).2.1 hellos requests 2 0 rfl
    (by decide) (by decide +kernel) (by decide +kernel) (by decide +kernel) 5 (by decide)

end MessageServer.Peer
