import MessageServer.Peer.Frames
import MessageServer.Lib.DropQueue
import MessageServer.Lib.Runs

/-! # The refusals of fragments

The receive loop decides a refusal and offers it to a bounded queue; one loop
takes the refusals out and sends them. So the first refusal of a request is the
one that is sent first, if it finds room when it is decided.
-/

namespace MessageServer.Peer

open Protocol

structure Refusal where
  clientId : Bytes
  requestId : UInt64
  reason : Reason
  deriving DecidableEq

def Refusal.request (refusal : Refusal) : ReassemblyKey := ⟨refusal.clientId, refusal.requestId⟩

/-- A request that assembled, with the bytes it was measured at. -/
structure Job where
  clientId : Bytes
  body : Bytes

/-- What the receive loop and the refusal loop work on. -/
structure Receiver where
  reassembly : Reassembly
  refusals : DropQueue Refusal
  jobs : List Job
  framesDropped : ℕ
  refusalsDropped : ℕ
  /-- The refusals whose frames the transport took. -/
  delivered : List (Offered Refusal)

def newReceiver (reassembly : Reassembly) (queueDepth : ℕ) : Receiver :=
  ⟨reassembly, .empty queueDepth, [], 0, 0, []⟩

/-- What reaches the two loops: a fragment frame, the sweep's tick, and the turn of the refusal
loop with what the transport makes of the send. -/
inductive Occurrence
  | frame (clientId : Bytes) (frame : Frame) (now later : Time)
  | sweep (now : Time)
  | send (taken : Bool)

namespace Receiver

variable (p : Receiver)

def refuse (clientId : Bytes) (requestId : UInt64) (reason : Reason) : Receiver :=
  { p with
    refusals := p.refusals.offer ⟨clientId, requestId, reason⟩
    refusalsDropped := if p.refusals.hasRoom then p.refusalsDropped else p.refusalsDropped + 1 }

/-- One fragment frame; `decodes` tells whether assembled bytes are a request. -/
def arrivedFragment (codec : FragmentCodec) (decodes : Bytes → Bool) (clientId : Bytes)
    (frame : Frame) (now later : Time) : Receiver :=
  match decodeFragment codec frame with
  | none => { p with framesDropped := p.framesDropped + 1 }
  | some fragment =>
    let next := p.reassembly.accept clientId fragment now later
    let p : Receiver := { p with reassembly := next.1 }
    if next.2.reason ≠ .ok then p.refuse clientId fragment.requestId next.2.reason
    else if ¬ next.2.complete then p
    else if ¬ decodes next.2.assembled then p.refuse clientId fragment.requestId .rejected
    else { p with jobs := p.jobs ++ [⟨clientId, next.2.assembled⟩] }

def refuseLoop (taken : Bool) : Receiver :=
  { p with
    refusals := p.refusals.take
    delivered := if taken then p.delivered ++ p.refusals.waiting.head?.toList else p.delivered }

end Receiver

def Receiver.step (codec : FragmentCodec) (decodes : Bytes → Bool) (p : Receiver) :
    Occurrence → Receiver
  | .frame clientId frame now later => p.arrivedFragment codec decodes clientId frame now later
  | .sweep now => { p with reassembly := (p.reassembly.expire now).1 }
  | .send taken => p.refuseLoop taken

def Receiver.run (codec : FragmentCodec) (decodes : Bytes → Bool) (p : Receiver)
    (occurrences : List Occurrence) : Receiver :=
  occurrences.foldl (Receiver.step codec decodes) p

/-- A fragment of a request of which no refusal was decided yet finds room for one. -/
def RoomForFirst (codec : FragmentCodec) (p : Receiver) : Occurrence → Prop
  | .frame clientId frame _ _ => ∀ fragment, decodeFragment codec frame = some fragment →
      (∀ refusal ∈ p.refusals.offered, refusal.request ≠ ⟨clientId, fragment.requestId⟩) →
        p.refusals.hasRoom = true
  | _ => True

/-! ### What an occurrence does to the refusals -/

variable {codec : FragmentCodec} {decodes : Bytes → Bool} {p : Receiver}

theorem Receiver.arrivedFragment_refusals (codec : FragmentCodec) (decodes : Bytes → Bool)
    (p : Receiver) (clientId : Bytes) (frame : Frame) (now later : Time) :
    (p.arrivedFragment codec decodes clientId frame now later).delivered = p.delivered ∧
    ((p.arrivedFragment codec decodes clientId frame now later).refusals = p.refusals ∨
      ∃ fragment reason, decodeFragment codec frame = some fragment ∧
        (p.arrivedFragment codec decodes clientId frame now later).refusals =
          p.refusals.offer ⟨clientId, fragment.requestId, reason⟩) := by
  unfold Receiver.arrivedFragment
  split
  · exact ⟨rfl, .inl rfl⟩
  next fragment hd =>
    dsimp only
    split
    · exact ⟨rfl, .inr ⟨fragment, _, hd, rfl⟩⟩
    · split
      · exact ⟨rfl, .inl rfl⟩
      · split
        · exact ⟨rfl, .inr ⟨fragment, _, hd, rfl⟩⟩
        · exact ⟨rfl, .inl rfl⟩

/-- The queue is in order, it keeps the first refusal of every request, and what was delivered is
part of what it gave out. -/
structure Receiver.Keeps (p : Receiver) : Prop where
  ordered : p.refusals.Ordered
  first : p.refusals.KeepsFirst Refusal.request
  delivered : p.delivered.Sublist p.refusals.out

theorem keeps_newReceiver (reassembly : Reassembly) (queueDepth : ℕ) :
    (newReceiver reassembly queueDepth).Keeps := by
  constructor
  · constructor
    · exact nofun
    · exact List.Pairwise.nil
  · exact nofun
  · exact List.nil_sublist _

theorem Receiver.Keeps.refuseLoop (h : p.Keeps) (taken : Bool) : (p.refuseLoop taken).Keeps := by
  refine ⟨h.ordered.take, h.first.take, ?_⟩
  have hd := h.delivered
  unfold Receiver.refuseLoop DropQueue.take
  cases hw : p.refusals.waiting with
  | nil => cases taken <;> simpa using hd
  | cons entry waiting =>
    cases taken with
    | false => exact hd.trans (List.sublist_append_left _ _)
    | true => exact hd.append (List.Sublist.refl _)

theorem Receiver.Keeps.step (h : p.Keeps) {occurrence : Occurrence}
    (hrm : RoomForFirst codec p occurrence) : (p.step codec decodes occurrence).Keeps := by
  cases occurrence with
  | frame clientId frame now later =>
    obtain ⟨hd, hr⟩ := p.arrivedFragment_refusals codec decodes clientId frame now later
    obtain hs | ⟨fragment, reason, hdc, ho⟩ := hr
    · constructor
      · exact hs ▸ h.ordered
      · exact hs ▸ h.first
      · exact hd ▸ hs ▸ h.delivered
    · constructor
      · exact ho ▸ h.ordered.offer _
      · exact ho ▸ h.first.offer (hrm fragment hdc)
      · exact hd ▸ ho ▸ h.delivered
  | sweep now => exact ⟨h.ordered, h.first, h.delivered⟩
  | send taken => exact h.refuseLoop taken

theorem Receiver.Keeps.run (h : p.Keeps) {occurrences : List Occurrence}
    (hr : Runs.Meets (RoomForFirst codec) (Receiver.step codec decodes) p occurrences) :
    (p.run codec decodes occurrences).Keeps :=
  hr.invariant (fun _ _ h hr => h.step hr) h

def Receiver.FirstInFront (p : Receiver) (log : List (Offered Refusal)) : Prop :=
  ∀ request entry, log.find? (·.value.request = request) = some entry →
    entry.number = p.refusals.offered.findIdx (·.request = request) ∧
      p.refusals.offered[entry.number]? = some entry.value

theorem Receiver.Keeps.firstInFront (h : p.Keeps) {log : List (Offered Refusal)}
    (hl : log.Sublist p.refusals.queued)
    (hfr : ∀ entry ∈ log, ∃ first ∈ log,
      first.number = p.refusals.firstOf Refusal.request entry.value.request) :
    p.FirstInFront log := by
  intro request entry hf
  have hm := List.mem_of_find?_eq_some hf
  have hr : entry.value.request = request := by simpa using List.find?_some hf
  obtain ⟨first, hin, hn⟩ := hfr entry hm
  rw [hr] at hn
  obtain rfl := h.ordered.find_first hl hin hn hf
  exact ⟨hn, h.ordered.offered entry (hl.subset hm)⟩

/--
Where the first refusal of every request finds room, the first to be sent is the first decided.
-/
theorem first_refusal_survives (codec : FragmentCodec) (decodes : Bytes → Bool)
    (reassembly : Reassembly) (queueDepth : ℕ) (occurrences : List Occurrence)
    (hroom : Runs.Meets (RoomForFirst codec) (Receiver.step codec decodes)
      (newReceiver reassembly queueDepth) occurrences) :
    let p := (newReceiver reassembly queueDepth).run codec decodes occurrences
    p.FirstInFront p.refusals.out ∧
      ((∀ entry ∈ p.refusals.out, entry.number = p.refusals.offered.findIdx
          (·.request = entry.value.request) → entry ∈ p.delivered) →
        p.FirstInFront p.delivered) := by
  intro p
  have hk : p.Keeps := (keeps_newReceiver reassembly queueDepth).run hroom
  have hot : p.refusals.out.Sublist p.refusals.queued := List.sublist_append_left _ _
  constructor
  · apply hk.firstInFront hot
    intro entry he
    exact hk.first.first_out hk.ordered he
  · intro ht
    apply hk.firstInFront (hk.delivered.trans hot)
    intro entry he
    have hh := hk.delivered.subset he
    obtain ⟨first, hf, hn⟩ := hk.first.first_out hk.ordered hh
    refine ⟨first, ht first hf ?_, hn⟩
    have ho := hk.ordered.offered entry (hot.subset hh)
    have hs : first.value.request = entry.value.request := by
      apply DropQueue.kind_firstOf (List.mem_of_getElem? ho)
      rw [← hn]
      exact hk.ordered.offered first (hot.subset hf)
    rw [hs]
    exact hn

namespace Sample

def fourBytes : FragmentCodec where
  marshal fragment := some [fragment.requestId.toUInt8, fragment.index.toUInt8,
    fragment.count.toUInt8, .ofNat fragment.part.length]
  unmarshal
    | [requestId, index, count, length] => some ⟨requestId.toUInt64, index.toUInt32,
        count.toUInt32, List.replicate length.toNat 0⟩
    | _ => none

def tiny : Reassembly := newReassembly 1 16 1024 0

def frameOf (client request index count length : UInt8) : Occurrence :=
  .frame [client] ⟨.messageServerFragment, [request, index, count, length], false⟩ 0 0

def crowded : List Occurrence :=
  [frameOf 1 7 1 1 0, frameOf 2 9 0 2 2, .send true, frameOf 2 9 1 2 0, .send true]

def drained : List Occurrence :=
  [frameOf 1 7 1 1 0, .send true, frameOf 2 9 0 2 2, .send true, frameOf 2 9 1 2 0, .send true]

end Sample

open Sample

/-- A client whose request was too long hears that it was rejected and nothing else. -/
theorem first_refusal_lost :
    let p := (newReceiver tiny 1).run fourBytes (fun _ => false) crowded
    p.refusals.offered = [⟨[1], 7, .rejected⟩, ⟨[2], 9, .oversize⟩, ⟨[2], 9, .rejected⟩] ∧
      p.delivered.map (·.value) = [⟨[1], 7, .rejected⟩, ⟨[2], 9, .rejected⟩] ∧
      ¬ p.FirstInFront p.refusals.out := by
  refine ⟨by decide, by decide, fun hf => ?_⟩
  have hn := (hf ⟨[2], 9⟩ ⟨2, [2], 9, .rejected⟩ (by decide)).1
  revert hn
  decide

/-- Every refusal finds room, and the client hears first that its request was too long. -/
theorem first_refusal_survives_drained :
    Runs.Meets (RoomForFirst fourBytes) (Receiver.step fourBytes fun _ => false)
        (newReceiver tiny 1) drained ∧
      let p := (newReceiver tiny 1).run fourBytes (fun _ => false) drained
      p.FirstInFront p.refusals.out ∧
        p.delivered.map (·.value.reason) = [.rejected, .oversize, .rejected] := by
  have hr : Runs.Meets (RoomForFirst fourBytes)
      (Receiver.step fourBytes fun _ => false) (newReceiver tiny 1)
      drained := by
    refine ⟨?_, trivial, ?_, trivial, ?_, trivial, trivial⟩ <;> exact fun _ _ _ => rfl
  exact ⟨hr, (first_refusal_survives _ _ _ _ _ hr).1, by decide⟩

end MessageServer.Peer
