import MessageServer.Peer.Connections

/-! # Frames and their reassembly

A response that does not fit one part travels as numbered fragments, and so does
a request. The receiving side keeps one buffer for each client and request,
takes the fragments of it in order and aborts on anything else.
-/

namespace MessageServer

namespace Protocol

structure MessageServerFragment where
  requestId : UInt64
  index : UInt32
  count : UInt32
  part : Bytes

inductive MessageType
  | messageServerRequest | messageServerResponse | messageServerFragment

structure Frame where
  messageType : MessageType
  messageBytes : Bytes
  raw : Bool

end Protocol

namespace Peer

open Protocol

def maxFragmentPartBytes : ℕ := 2048

/-- The size of a part: the budget up to the ceiling, and the ceiling without a budget. -/
def partSize (budget : ℤ) : ℕ :=
  if budget ≤ 0 ∨ (maxFragmentPartBytes : ℤ) < budget then maxFragmentPartBytes
  else budget.toNat

structure FragmentCodec where
  marshal : MessageServerFragment → Option Bytes
  unmarshal : Bytes → Option MessageServerFragment

/-- A request or a response with what marshaling makes of it. -/
structure Outgoing where
  requestId : UInt64
  body : Option Bytes

def fragmentAt (requestId : UInt64) (partBytes : ℕ) (body : Bytes) (count index : ℕ) :
    MessageServerFragment :=
  let stop := min ((index + 1) * partBytes) body.length
  ⟨requestId, .ofNat index, .ofNat count, (body.take stop).drop (index * partBytes)⟩

def fragmentsOf (requestId : UInt64) (partBytes : ℕ) (body : Bytes) : List MessageServerFragment :=
  let count := (body.length + partBytes - 1) / partBytes
  (List.range count).map (fragmentAt requestId partBytes body count)

def fragmentFrames (codec : FragmentCodec) (fragments : List MessageServerFragment) :
    Option (List Frame) :=
  fragments.mapM fun fragment =>
    (codec.marshal fragment).map (⟨.messageServerFragment, ·, false⟩)

def responseFrames (codec : FragmentCodec) (response : Outgoing) (partBytes : ℤ) :
    Option (List Frame) := do
  let partBytes := partSize partBytes
  let body ← response.body
  if body.length ≤ partBytes then
    some [⟨.messageServerResponse, body, false⟩]
  else fragmentFrames codec (fragmentsOf response.requestId partBytes body)

def decodeFragment (codec : FragmentCodec) (frame : Frame) : Option MessageServerFragment :=
  if frame.raw then none else codec.unmarshal frame.messageBytes

structure ReassemblyKey where
  clientId : Bytes
  requestId : UInt64
  deriving DecidableEq

structure Partial where
  count : UInt32
  next : UInt32
  bytes : Bytes
  started : Time

structure InFlight where
  key : ReassemblyKey
  buffer : Partial

structure FragmentState where
  fragment : MessageServerFragment
  current : Option Partial
  openForClient : ℕ
  openTotal : ℕ
  perClient : ℤ
  maxReassemblies : ℤ
  maxRequestBytes : ℕ

namespace FragmentState

variable (state : FragmentState)

/-- The index that the reassembly accepts; one that does not exist yet accepts the first. -/
def next : UInt32 := state.current.elim 0 (·.next)

def buffered : ℕ := state.current.elim 0 (·.bytes.length)

def opening : Bool := state.current.isNone

end FragmentState

/-- Every way in which a reassembly is aborted, in the order in which they are asked. -/
def reassemblyAborts : List (FragmentState → Reason) := [
  fun state => if state.fragment.count ≤ state.fragment.index then .rejected else .ok,
  fun state => if state.fragment.index ≠ state.next then .rejected else .ok,
  fun state =>
    match state.current with
    | none => .ok
    | some current => if state.fragment.count ≠ current.count then .rejected else .ok,
  fun state =>
    if state.opening ∧ state.perClient ≤ state.openForClient then .rejected else .ok,
  fun state =>
    if state.opening ∧ 0 < state.maxReassemblies ∧ state.maxReassemblies ≤ state.openTotal then
      .rejected
    else .ok,
  fun state => withinLimits (state.buffered + state.fragment.part.length) state.maxRequestBytes]

def firstRefusal (state : FragmentState) : List (FragmentState → Reason) → Reason
  | [] => .ok
  | rule :: rules => if rule state ≠ .ok then rule state else firstRefusal state rules

structure Reassembly where
  maxRequestBytes : ℕ
  perClient : ℤ
  maxReassemblies : ℤ
  idle : ℤ
  inFlight : Table InFlight.key
  counts : Bytes → Option ℕ
  order : List ReassemblyKey
  examined : ℕ

def newReassembly (maxRequestBytes : ℕ) (perClient maxReassemblies idle : ℤ) : Reassembly :=
  ⟨maxRequestBytes, perClient, maxReassemblies, idle, .empty, fun _ => none, [], 0⟩

structure Accepted where
  assembled : Bytes
  complete : Bool
  reason : Reason

namespace Reassembly

variable (r : Reassembly)

def current (key : ReassemblyKey) : Option Partial := (r.inFlight.find key).map (·.buffer)

/-- Release a buffer, its place in the order, and the slot of its client. -/
def drop (key : ReassemblyKey) : Reassembly :=
  match r.inFlight.find key with
  | none => r
  | some _ =>
    { r with
      inFlight := r.inFlight.filter (·.key ≠ key)
      order := r.order.erase key
      counts := Function.update r.counts key.clientId
        (if (r.counts key.clientId).getD 0 ≤ 1 then none
          else (r.counts key.clientId).map (· - 1)) }

def look : Reassembly := { r with examined := r.examined + 1 }

/-- Walk the order from its front, and drop what began before a deadline. -/
def expireFrom (deadline : Time) : List ReassemblyKey → Reassembly → Reassembly × ℕ
  | [], r => (r, 0)
  | key :: order, r =>
    match r.current key with
    | none => expireFrom deadline order { r.look with order := order }
    | some current =>
      if ¬ current.started < deadline then (r.look, 0)
      else
        let rest := expireFrom deadline order (r.look.drop key)
        (rest.1, rest.2 + 1)

def expire (now : Time) : Reassembly × ℕ :=
  if r.idle = 0 then (r, 0) else expireFrom (now - r.idle) r.order r

def start (key : ReassemblyKey) (current : Partial) : Reassembly :=
  { r with
    inFlight := r.inFlight.insert ⟨key, current⟩
    order := r.order ++ [key]
    counts := Function.update r.counts key.clientId
      (some ((r.counts key.clientId).getD 0 + 1)) }

def put (key : ReassemblyKey) (current : Partial) : Reassembly :=
  { r with inFlight := r.inFlight.modify key (fun row => ⟨row.key, current⟩) fun _ => rfl }

def accept (clientId : Bytes) (fragment : MessageServerFragment) (now later : Time) :
    Reassembly × Accepted :=
  let r := (r.expire now).1
  let key : ReassemblyKey := ⟨clientId, fragment.requestId⟩
  let state : FragmentState :=
    ⟨fragment, r.current key, (r.counts clientId).getD 0, r.inFlight.rows.length, r.perClient,
      r.maxReassemblies, r.maxRequestBytes⟩
  let reason := firstRefusal state reassemblyAborts
  if reason ≠ .ok then (r.drop key, ⟨[], false, reason⟩)
  else
    let current := (r.current key).getD ⟨fragment.count, 0, [], later⟩
    let grown : Partial :=
      { current with bytes := current.bytes ++ fragment.part, next := current.next + 1 }
    let held := if (r.current key).isNone then r.start key grown else r.put key grown
    if grown.next < grown.count then (held, ⟨[], false, .ok⟩)
    else (held.drop key, ⟨grown.bytes, true, .ok⟩)

end Reassembly

end Peer

end MessageServer
