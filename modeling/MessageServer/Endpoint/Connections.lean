import MessageServer.Store.Basic
import MessageServer.Lib.Runs
import Mathlib.Data.Finset.Card

/-! # The connections of the endpoint

A request is upgraded to a connection between two critical sections: the first
refuses it when the endpoint is closed or full, the second registers it unless
the endpoint was closed meanwhile.
-/

namespace MessageServer.Endpoint

def defaultPath : String := "/urmessage/v1"
def defaultMaxConnections : ℕ := 4096

/-- How long a closed connection's id is still recognised, in nanoseconds. -/
def retiredIdRetention : Time := 600000000000

/-- What the operator sets; zero values take the defaults. -/
structure Config where
  path : String
  maxConnections : ℤ

variable {Id : Type} [DecidableEq Id]

/-- The endpoint: what it was built with, and what its mutex guards. -/
structure State (Id : Type) where
  path : String
  maxConnections : ℕ
  conns : Finset Id
  retired : Id → Option Time
  closed : Bool

/-- A new endpoint, with the defaults in the place of zero values. -/
def new (config : Config) : State Id where
  path := if config.path = "" then defaultPath else config.path
  maxConnections :=
    if config.maxConnections ≤ 0 then defaultMaxConnections else config.maxConnections.toNat
  conns := ∅
  retired := fun _ => none
  closed := false

inductive Ending
  | notFound
  | busy
  | failed
  | dropped
  | ended

inductive Request (Id : Type)
  | arrived (path : String) (isWebSocketUpgrade : Bool)
  /-- The endpoint was not full; the handshake is under way. -/
  | upgrading
  /-- The handshake is done and the connection has an id. -/
  | upgraded (id : Id)
  | serving (id : Id)
  | over (ending : Ending)

namespace State

variable (endpoint : State Id)

def full : Bool := endpoint.closed || endpoint.maxConnections ≤ endpoint.conns.card

def check (path : String) (isWebSocketUpgrade : Bool) : Request Id :=
  if path ≠ endpoint.path then .over .notFound
  else if ¬ isWebSocketUpgrade then .over .notFound
  else if endpoint.full then .over .busy
  else .upgrading

def register (id : Id) : State Id × Request Id :=
  if endpoint.closed then (endpoint, .over .dropped)
  else ({ endpoint with conns := insert id endpoint.conns }, .serving id)

/-- Take a connection off, and keep its id for a while. -/
def leave (id : Id) (now : Time) : State Id :=
  { endpoint with
    conns := endpoint.conns.erase id
    retired := fun other =>
      (if other = id then some now else endpoint.retired other).filter fun time =>
        ¬ retiredIdRetention < now - time }

end State

structure World (Id : Type) where
  endpoint : State Id
  requests : List (Request Id)

/-- One step of the world; the handshake of an upgrade answers with an id or fails. -/
inductive Event (Id : Type)
  | arrive (path : String) (isWebSocketUpgrade : Bool)
  | check (k : ℕ)
  | upgrade (k : ℕ) (id : Option Id)
  | register (k : ℕ)
  | leave (k : ℕ) (now : Time)
  | close

namespace World

/-- An event moves the request that it names, if that one stands in front of it. -/
def step (w : World Id) : Event Id → World Id
  | .arrive path isWebSocketUpgrade =>
    { w with requests := w.requests ++ [.arrived path isWebSocketUpgrade] }
  | .check k =>
    match w.requests[k]? with
    | some (.arrived path isWebSocketUpgrade) =>
      { w with requests := w.requests.set k (w.endpoint.check path isWebSocketUpgrade) }
    | _ => w
  | .upgrade k id =>
    match w.requests[k]? with
    | some .upgrading =>
      { w with requests := w.requests.set k (id.elim (.over .failed) .upgraded) }
    | _ => w
  | .register k =>
    match w.requests[k]? with
    | some (.upgraded id) =>
      ⟨(w.endpoint.register id).1, w.requests.set k (w.endpoint.register id).2⟩
    | _ => w
  | .leave k now =>
    match w.requests[k]? with
    | some (.serving id) => ⟨w.endpoint.leave id now, w.requests.set k (.over .ended)⟩
    | _ => w
  | .close => { w with endpoint := { w.endpoint with closed := true } }

def run (w : World Id) (events : List (Event Id)) : World Id := events.foldl step w

end World

def start (config : Config) : World Id := ⟨new config, []⟩

/-- The request passed the fullness check and is not registered yet. -/
def Request.inFlight : Request Id → Bool
  | .upgrading => true
  | .upgraded _ => true
  | _ => false

def World.taken (w : World Id) : ℕ :=
  w.endpoint.conns.card + w.requests.countP Request.inFlight

/-- The check of a request lets it past only where it would not be one too many. -/
def Counts (w : World Id) : Event Id → Prop
  | .check k => ∀ path isWebSocketUpgrade,
      w.requests[k]? = some (.arrived path isWebSocketUpgrade) →
      (w.endpoint.check path isWebSocketUpgrade).inFlight = true →
      w.taken < w.endpoint.maxConnections
  | _ => True

/-- Every check of a run counts the upgrades in flight. -/
def CountsAll : World Id → List (Event Id) → Prop := Runs.Meets Counts World.step

/-! ### What an event does -/

/-- The effect of an event: it moves the request that it names, or changes nothing. -/
inductive Moved (w : World Id) : Event Id → World Id → Prop
  | arrived (path : String) (isWebSocketUpgrade : Bool) :
      Moved w (.arrive path isWebSocketUpgrade)
        { w with requests := w.requests ++ [.arrived path isWebSocketUpgrade] }
  | checked {k : ℕ} {path : String} {isWebSocketUpgrade : Bool}
      (hk : w.requests[k]? = some (.arrived path isWebSocketUpgrade)) :
      Moved w (.check k)
        { w with requests := w.requests.set k (w.endpoint.check path isWebSocketUpgrade) }
  | upgraded {k : ℕ} (id : Option Id) (hk : w.requests[k]? = some .upgrading) :
      Moved w (.upgrade k id)
        { w with requests := w.requests.set k (id.elim (.over .failed) .upgraded) }
  | registered {k : ℕ} {id : Id} (hk : w.requests[k]? = some (.upgraded id)) :
      Moved w (.register k)
        ⟨(w.endpoint.register id).1, w.requests.set k (w.endpoint.register id).2⟩
  | left {k : ℕ} {id : Id} (now : Time) (hk : w.requests[k]? = some (.serving id)) :
      Moved w (.leave k now) ⟨w.endpoint.leave id now, w.requests.set k (.over .ended)⟩
  | closed : Moved w .close { w with endpoint := { w.endpoint with closed := true } }
  | idle (event : Event Id) : Moved w event w

theorem World.moved (w : World Id) (event : Event Id) : Moved w event (w.step event) := by
  cases event with
  | arrive path isWebSocketUpgrade => exact .arrived path isWebSocketUpgrade
  | check k =>
    dsimp only [step]
    split
    · exact .checked ‹_›
    · exact .idle _
  | upgrade k id =>
    dsimp only [step]
    split
    · exact .upgraded id ‹_›
    · exact .idle _
  | register k =>
    dsimp only [step]
    split
    · exact .registered ‹_›
    · exact .idle _
  | leave k now =>
    dsimp only [step]
    split
    · exact .left now ‹_›
    · exact .idle _
  | close => exact .closed

variable {before : Request Id}

omit [DecidableEq Id] in
theorem countP_set {requests : List (Request Id)} {k : ℕ} (hk : requests[k]? = some before)
    (after : Request Id) :
    (requests.set k after).countP Request.inFlight + before.inFlight.toNat =
      requests.countP Request.inFlight + after.inFlight.toNat := by
  obtain ⟨hlt, hg⟩ := List.getElem?_eq_some_iff.mp hk
  have hp : before.inFlight = true → 0 < requests.countP Request.inFlight := fun h =>
    List.countP_pos_iff.mpr ⟨before, hg ▸ List.getElem_mem hlt, h⟩
  rw [List.countP_set hlt, hg]
  cases hb : before.inFlight with
  | false => cases after.inFlight <;> rfl
  | true =>
    have := hp hb
    cases after.inFlight <;> simp <;> omega

namespace State

variable (endpoint : State Id)

theorem register_card (id : Id) : (endpoint.register id).2.inFlight = false ∧
    (endpoint.register id).1.conns.card ≤ endpoint.conns.card + 1 ∧
    (endpoint.register id).1.maxConnections = endpoint.maxConnections := by
  unfold register
  split
  · exact ⟨rfl, Nat.le_succ _, rfl⟩
  · exact ⟨rfl, Finset.card_insert_le _ _, rfl⟩

end State

/-! ### The bound -/

variable {w : World Id}

omit [DecidableEq Id] in
theorem World.taken_set {k : ℕ} (hk : w.requests[k]? = some before) (endpoint : State Id)
    (after : Request Id) :
    (⟨endpoint, w.requests.set k after⟩ : World Id).taken + w.endpoint.conns.card +
        before.inFlight.toNat =
      w.taken + endpoint.conns.card + after.inFlight.toNat := by
  have hc := countP_set hk after
  simp only [World.taken]
  omega

structure World.Within (bound : ℕ) (w : World Id) : Prop where
  maxConnections : w.endpoint.maxConnections = bound
  taken : w.taken ≤ bound

theorem World.Within.step {bound : ℕ} (hw : w.Within bound) {event : Event Id}
    (hc : Counts w event) :
    (w.step event).Within bound := by
  obtain ⟨hb, ht⟩ := hw
  have hm := w.moved event
  generalize w.step event = w' at hm
  cases hm with
  | arrived path isWebSocketUpgrade =>
    refine ⟨hb, ?_⟩
    simpa [World.taken, Request.inFlight] using ht
  | @checked k path isWebSocketUpgrade hk =>
    refine ⟨hb, ?_⟩
    have hs := World.taken_set hk w.endpoint (w.endpoint.check path isWebSocketUpgrade)
    have hbf : (Request.arrived path isWebSocketUpgrade : Request Id).inFlight.toNat = 0 := rfl
    cases hp : (w.endpoint.check path isWebSocketUpgrade).inFlight with
    | false =>
      rw [hp, Bool.toNat_false] at hs
      omega
    | true =>
      have hr : w.taken < w.endpoint.maxConnections := hc _ _ hk hp
      rw [hp, Bool.toNat_true] at hs
      omega
  | @upgraded k id hk =>
    refine ⟨hb, ?_⟩
    have hs := World.taken_set hk w.endpoint (id.elim (.over .failed) .upgraded)
    have hbf : (Request.upgrading : Request Id).inFlight.toNat = 1 := rfl
    have ha := Bool.toNat_le (id.elim (Request.over .failed) Request.upgraded).inFlight
    omega
  | @registered k id hk =>
    obtain ⟨hl, hcr, hmx⟩ := w.endpoint.register_card id
    refine ⟨hmx.trans hb, ?_⟩
    have hs := World.taken_set hk (w.endpoint.register id).1 (w.endpoint.register id).2
    have hbf : (Request.upgraded id).inFlight.toNat = 1 := rfl
    rw [hl, Bool.toNat_false] at hs
    omega
  | @left k id now hk =>
    refine ⟨hb, ?_⟩
    have hs := World.taken_set hk (w.endpoint.leave id now) (.over .ended)
    have hbf : (Request.serving id).inFlight.toNat = 0 := rfl
    have ha : (Request.over .ended : Request Id).inFlight.toNat = 0 := rfl
    have hcr : (w.endpoint.leave id now).conns.card ≤ w.endpoint.conns.card := Finset.card_erase_le
    omega
  | closed => exact ⟨hb, ht⟩
  | idle => exact ⟨hb, ht⟩

theorem World.Within.run {bound : ℕ} (hw : w.Within bound) {events : List (Event Id)}
    (hc : CountsAll w events) : (w.run events).Within bound :=
  Runs.Meets.invariant (fun _ _ hw hc => hw.step hc) hc hw

/-- The registered connections never exceed the bound of an endpoint whose fullness checks count
the upgrades in flight. -/
theorem registered_le_maxConnections (config : Config) (events : List (Event Id))
    (hcounts : CountsAll (start config) events) :
    ((start config).run events).endpoint.conns.card ≤ (new config : State Id).maxConnections := by
  have hs : (start config : World Id).Within (new config : State Id).maxConnections :=
    ⟨rfl, Nat.zero_le _⟩
  have hr := (hs.run hcounts).taken
  exact Nat.le_trans (Nat.le_add_right _ _) hr

namespace Sample

def single : Config := ⟨"", 1⟩

def together : List (Event ℕ) :=
  [.arrive defaultPath true, .arrive defaultPath true, .check 0, .check 1,
    .upgrade 0 (some 0), .upgrade 1 (some 1), .register 0, .register 1]

def inTurn : List (Event ℕ) :=
  [.arrive defaultPath true, .check 0, .upgrade 0 (some 0), .register 0,
    .arrive defaultPath true, .check 1]

end Sample

open Sample

/-- Two upgrades at once take an endpoint over its bound. -/
theorem registered_exceeds_maxConnections :
    (new single : State ℕ).maxConnections < ((start single).run together).endpoint.conns.card := by
  decide

/-- Requests that are checked one after the other. -/
theorem registered_le_maxConnections_inTurn :
    CountsAll (start single) inTurn ∧ ((start single).run inTurn).endpoint.conns.card ≤ 1 := by
  have hc : CountsAll (start single) inTurn := by
    refine ⟨trivial, ?_, trivial, trivial, trivial, ?_, trivial⟩
    · exact fun _ _ _ _ => by decide
    · rintro _ _ ⟨⟩ ⟨⟩
  exact ⟨hc, registered_le_maxConnections _ _ hc⟩

end MessageServer.Endpoint
