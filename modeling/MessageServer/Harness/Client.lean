import MessageServer.Peer.Frames

/-! # The frames of a client

The client cuts its requests and joins the responses with code of its own. It
has one sender to listen to, so a buffer is named by its request alone, and it
holds neither a bound nor a clock.
-/

namespace MessageServer.Harness

open Protocol Peer

structure Partial where
  count : UInt32
  next : UInt32
  bytes : Bytes

structure InFlight where
  requestId : UInt64
  buffer : Partial

structure Client where
  inFlight : Table InFlight.requestId
  aborted : ℕ

/-- The frames that one request travels in; it is cut only with a positive part size. -/
def requestFrames (codec : FragmentCodec) (request : Outgoing) (partBytes : ℤ) :
    Option (List Frame) := do
  let body ← request.body
  if partBytes ≤ 0 ∨ (body.length : ℤ) ≤ partBytes then
    some [⟨.messageServerRequest, body, false⟩]
  else fragmentFrames codec (fragmentsOf request.requestId partBytes.toNat body)

namespace Client

variable (client : Client)

def current (requestId : UInt64) : Option Partial :=
  (client.inFlight.find requestId).map (·.buffer)

def delete (requestId : UInt64) : Client :=
  { client with inFlight := client.inFlight.filter (·.requestId ≠ requestId) }

def start (requestId : UInt64) (current : Partial) : Client :=
  { client with inFlight := client.inFlight.insert ⟨requestId, current⟩ }

def put (requestId : UInt64) (current : Partial) : Client :=
  { client with
    inFlight := client.inFlight.modify requestId (fun row => ⟨row.requestId, current⟩)
      fun _ => rfl }

def aborts (fragment : MessageServerFragment) : Option Partial → Bool
  | none => fragment.count ≤ fragment.index || fragment.index ≠ 0
  | some current => fragment.count ≤ fragment.index || fragment.index ≠ current.next ||
      fragment.count ≠ current.count

def accept (fragment : MessageServerFragment) : Client × Bytes × Bool :=
  let requestId := fragment.requestId
  if aborts fragment (client.current requestId) then
    ({ client.delete requestId with aborted := client.aborted + 1 }, [], false)
  else
    let current := (client.current requestId).getD ⟨fragment.count, 0, []⟩
    let grown : Partial :=
      { current with bytes := current.bytes ++ fragment.part, next := current.next + 1 }
    let held :=
      if (client.current requestId).isNone then client.start requestId grown
      else client.put requestId grown
    if grown.next < grown.count then (held, [], false)
    else (held.delete requestId, grown.bytes, true)

end Client

end MessageServer.Harness
