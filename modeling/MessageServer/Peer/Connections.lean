import MessageServer.Api.Messages
import MessageServer.Lib.Interleaving
import MessageServer.Lib.Table

/-! # The connections of a peer

A connection is one Hello epoch of a client id: it is opened with a fresh nonce
and ends when the next one is opened, or when it has been silent for longer than
the idle bound. The model keeps every connection that was ever opened and names
it by its place.
-/

namespace MessageServer.Peer

def serverNonceBytes : ℕ := 32

structure Connection where
  clientId : Bytes
  nonce : Sized serverNonceBytes
  generation : ℕ
  seen : Time

structure LiveEntry where
  clientId : Bytes
  connection : ℕ

/-- The connection table, with the connections that were ever opened on it. -/
structure Connections where
  idle : ℤ
  opened : List Connection
  live : Table LiveEntry.clientId

def newConnections (idle : ℤ) : Connections := ⟨idle, [], .empty⟩

namespace Connection

/-- The nonce that reached a handler is the connection's own. -/
def holds (current : Connection) (nonce : Bytes) : Bool := current.nonce.val = nonce

def apiConnection (current : Connection) : Api.Connection :=
  ⟨current.nonce.val, current.clientId⟩

end Connection

namespace Connections

variable (t : Connections)

/-- The connection has been silent for longer than the idle bound. -/
def expired (current : Connection) (now : Time) : Bool :=
  if t.idle = 0 then false else current.seen < now - t.idle

def expiredAt (connection : ℕ) (now : Time) : Bool :=
  t.opened[connection]?.any (t.expired · now)

def delete (clientId : Bytes) : Connections :=
  { t with live := t.live.filter (·.clientId ≠ clientId) }

/-- Close every connection past the bound, and count them. -/
def sweep (now : Time) : Connections × ℕ :=
  if t.idle = 0 then (t, 0)
  else
    ({ t with live := t.live.filter fun entry => !t.expiredAt entry.connection now },
      t.live.rows.countP fun entry => t.expiredAt entry.connection now)

def nextGeneration (clientId : Bytes) : ℕ :=
  match (t.live.find clientId).bind (t.opened[·.connection]?) with
  | none => 1
  | some previous => (previous.generation + 1) % 2 ^ 64

/-- Put a fresh connection in the place of the previous one. -/
def replace (current : Connection) : Connections :=
  { t with
    opened := t.opened ++ [current]
    live := (t.delete current.clientId).live.insert ⟨current.clientId, t.opened.length⟩ }

/-- Open a connection; a random source that answers short opens none. -/
def openConnection (clientId : Bytes) (random : Option (Sized serverNonceBytes))
    (now later : Time) : Connections × Option ℕ :=
  match random with
  | none => (t, none)
  | some nonce =>
    let swept := (t.sweep now).1
    (swept.replace ⟨clientId, nonce, t.nextGeneration clientId, later⟩, some swept.opened.length)

def touch (connection : ℕ) (now : Time) : Connections :=
  { t with opened := t.opened.modify connection fun current => { current with seen := now } }

def lookup (clientId : Bytes) (now : Time) : Connections × Option ℕ :=
  match t.live.find clientId with
  | none => (t, none)
  | some entry =>
    if t.expiredAt entry.connection now then (t.delete clientId, none)
    else (t.touch entry.connection now, some entry.connection)

def peek (clientId : Bytes) (now : Time) : Option ℕ :=
  match t.live.find clientId with
  | none => none
  | some entry => if t.expiredAt entry.connection now then none else some entry.connection

def isLive (current : Option ℕ) (now : Time) : Bool :=
  match current.bind fun connection => (t.opened[connection]?).map (connection, ·) with
  | none => false
  | some (connection, opened) =>
    if (t.live.find opened.clientId).map (·.connection) ≠ some connection then false
    else !t.expired opened now

end Connections

/-- What the frame layer measured of a request, and the connection it arrived on. -/
structure Inbound where
  clientId : Bytes
  connection : Option ℕ
  bytes : ℕ

def connectionAuthenticated (t : Connections) (arrived : Option Inbound)
    (conn : Option Api.Connection) (now : Time) : Reason :=
  match arrived.bind (·.connection), conn with
  | some connection, some conn =>
    if ¬ t.isLive (some connection) now then .rejected
    else if ¬ (t.opened[connection]?).any (·.holds conn.serverNonce) then .rejected
    else .ok
  | _, _ => .rejected

def withinLimits (bytes max : ℕ) : Reason := if max < bytes then .oversize else .ok

/-- The arm of a request that this server tells apart: Hello, the arms of the pipeline, others. -/
inductive Arm
  | hello (supportedVersions : List ℕ)
  | pipeline (protocolVersion : ℕ)
  | unserved
  | absent

structure Arriving where
  clientId : Bytes
  bytes : ℕ
  arm : Arm

structure Settings where
  maxRequestBytes : ℕ
  protocolVersion : ℕ

/-- Where a call on the table stands between two of its critical sections. -/
inductive Call
  /-- A request, in front of its lookup or of the opening of its connection. -/
  | arriving (request : Arriving)
  /-- A request whose connection was found; check 2 is still to come. -/
  | resolved (request : Arriving) (connection : ℕ)
  /-- A request that check 2 let through, with what its handler was told. -/
  | admitted (request : Arriving) (connection : ℕ) (conn : Api.Connection)
  | answered (request : Arriving) (reason : Reason)
  /-- A push to a client, for the connection that its subscription was made on. -/
  | pushing (clientId serverNonce : Bytes)
  | pushed (connection : Option ℕ)
  | asking (connection : Option ℕ)
  | told (live : Bool)
  | sweeping
  | swept (closed : ℕ)

/-- What a critical section reads from outside: the clock, twice at most, and 32 random bytes. -/
structure Tick where
  now : Time
  later : Time
  random : Option (Sized serverNonceBytes)

/-- The start of the dispatch, up to the one critical section that it holds. -/
def answer (settings : Settings) (tick : Tick) (t : Connections) (request : Arriving) :
    Connections × Call :=
  match request.arm with
  | .absent => (t, .answered request .rejected)
  | .unserved => (t, .answered request .internal)
  | .hello supportedVersions =>
    if withinLimits request.bytes settings.maxRequestBytes ≠ .ok then
      (t, .answered request (withinLimits request.bytes settings.maxRequestBytes))
    else if settings.protocolVersion ∉ supportedVersions then
      (t, .answered request .unsupportedVersion)
    else
      match t.openConnection request.clientId tick.random tick.now tick.later with
      | (t, none) => (t, .answered request .internal)
      | (t, some _) => (t, .answered request .ok)
  | .pipeline protocolVersion =>
    if protocolVersion ≠ 0 ∧ protocolVersion ≠ settings.protocolVersion then
      (t, .answered request .unsupportedVersion)
    else
      match t.lookup request.clientId tick.now with
      | (t, none) => (t, .answered request .rejected)
      | (t, some connection) => (t, .resolved request connection)

/-- The front checks of a handler, on the connection that the dispatch found. -/
def serve (settings : Settings) (tick : Tick) (t : Connections) (request : Arriving)
    (connection : ℕ) : Call :=
  match t.opened[connection]? with
  | none => .answered request .internal
  | some opened =>
    let arrived : Inbound := ⟨request.clientId, some connection, request.bytes⟩
    let front := Api.frontChecks ⟨withinLimits request.bytes settings.maxRequestBytes,
        connectionAuthenticated t (some arrived) (some opened.apiConnection) tick.now, .ok⟩
    if front ≠ .ok then .answered request front
    else .admitted request connection opened.apiConnection

def Call.step (settings : Settings) (tick : Tick) (t : Connections) : Call → Connections × Call
  | .arriving request => answer settings tick t request
  | .resolved request connection => (t, serve settings tick t request connection)
  | .pushing clientId serverNonce =>
    let found := (t.peek clientId tick.now).filter fun connection =>
      (t.opened[connection]?).any (·.holds serverNonce)
    (t, .pushed found)
  | .asking connection => (t, .told (t.isLive connection tick.now))
  | .sweeping =>
    let next := t.sweep tick.now
    (next.1, .swept next.2)
  | call => (t, call)

end MessageServer.Peer
