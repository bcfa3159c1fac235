import MessageServer.Harness.Client
import MessageServer.Peer.Reassembly
import Mathlib.Logic.Equiv.List

/-! # What is cut on one side is joined on the other

Server and client cut with their own part sizes and join with their own buffers.
Both cutters number the pieces of a body, and both joiners are collectors of one
request at a time, so every pair of them gives the body back.
-/

namespace MessageServer.Harness

open Protocol Peer Fragments

/-- A buffer of the client as one of the server, which keeps the time it was opened as well. -/
def Partial.timed (current : Partial) : Peer.Partial :=
  ⟨current.count, current.next, current.bytes, 0⟩

def Partial.progress (current : Partial) : Progress UInt8 := current.timed.progress

theorem Partial.next_lt_iff {current : Partial} :
    current.next < current.count ↔ current.progress.next < current.progress.count :=
  UInt32.lt_iff_toNat_lt

/-- A buffer of the client grows as that of the server does. -/
def grown (current : Option Partial) (fragment : MessageServerFragment) : Partial :=
  let next := Peer.grown (current.map Partial.timed) fragment 0
  ⟨next.count, next.next, next.bytes⟩

theorem grown_eq (current : Option Partial) (fragment : MessageServerFragment) :
    grown current fragment = let current := current.getD ⟨fragment.count, 0, []⟩
      { current with bytes := current.bytes ++ fragment.part, next := current.next + 1 } := by
  cases current <;> rfl

theorem progress_grown {current : Option Partial} {fragment : MessageServerFragment}
    (h : ¬ (numberedPiece fragment).OutOfOrder (current.map Partial.progress)) :
    (grown current fragment).progress =
      (numberedPiece fragment).added (current.map Partial.progress) := by
  have hp : current.map Partial.progress =
      (current.map Partial.timed).map Peer.Partial.progress := by
    rw [Option.map_map]
    rfl
  rw [hp] at h ⊢
  exact Peer.progress_grown h

namespace Client

variable {client : Client} {requestId : UInt64} {fragment : MessageServerFragment} {other : UInt64}

theorem aborts_iff {current : Option Partial} : aborts fragment current = true ↔
    (numberedPiece fragment).OutOfOrder (current.map Partial.progress) := by
  cases current <;>
    simp [aborts, Piece.OutOfOrder, numberedPiece, Partial.progress, Partial.timed,
      Peer.Partial.progress, UInt32.le_iff_toNat_le, ← UInt32.toNat_inj, or_assoc]

theorem current_delete : (client.delete requestId).current other =
    if other = requestId then none else client.current other := by
  rw [Client.current, delete, Table.find_filter]
  cases hf : client.inFlight.find other with
  | none => simp [Client.current, hf]
  | some row =>
    obtain ⟨-, rfl⟩ := Table.find_eq_some.mp hf
    by_cases heq : row.requestId = requestId <;> simp [Client.current, hf, heq]

def holding (client : Client) (requestId : UInt64) (current : Partial) : Client :=
  if (client.current requestId).isNone then client.start requestId current
  else client.put requestId current

variable {current : Partial}

theorem current_holding : (client.holding requestId current).current other =
      if other = requestId then some current else client.current other := by
  unfold holding
  cases hc : client.current requestId with
  | none =>
    have hf : client.inFlight.find requestId = none := Option.map_eq_none_iff.mp hc
    rw [if_pos Option.isNone_none, Client.current, start, Table.find_insert hf]
    split <;> rfl
  | some _ =>
    rw [if_neg (by simp), Client.current, put, Table.find_modify]
    split
    next heq =>
      obtain ⟨row, hr, -⟩ := Option.map_eq_some_iff.mp hc
      rw [heq, hr]
      rfl
    · rfl

theorem aborted_holding : (client.holding requestId current).aborted = client.aborted := by
  unfold holding
  split <;> rfl

theorem accept_aborted (h : aborts fragment (client.current fragment.requestId) = true) :
    client.accept fragment =
      ({ client.delete fragment.requestId with aborted := client.aborted + 1 }, [], false) :=
  if_pos h

theorem accept_taken (h : ¬ aborts fragment (client.current fragment.requestId) = true) :
    client.accept fragment = let next := grown (client.current fragment.requestId) fragment
      let held := client.holding fragment.requestId next
      if next.next < next.count then (held, [], false)
      else (held.delete fragment.requestId, next.bytes, true) := by
  rw [accept, if_neg h, grown_eq]
  rfl

/-- One fragment, with what came of it: the client counts an abort and answers nothing. -/
def arrive (client : Client) (fragment : MessageServerFragment) : Client × Outcome UInt8 :=
  let accepted := client.accept fragment
  (accepted.1, if accepted.1.aborted ≠ client.aborted then .aborted
    else if accepted.2.2 then .complete accepted.2.1
    else .more)

theorem current_accept_of_ne (h : requestId ≠ fragment.requestId) :
    (client.accept fragment).1.current requestId = client.current requestId := by
  by_cases ha : aborts fragment (client.current fragment.requestId) = true
  · rw [accept_aborted ha]
    exact current_delete.trans (if_neg h)
  · rw [accept_taken ha]
    dsimp only
    split
    · rw [current_holding, if_neg h]
    · rw [current_delete, if_neg h, current_holding, if_neg h]

theorem collect_arrive :
    collect ((client.current fragment.requestId).map Partial.progress) (numberedPiece fragment) =
      (((client.arrive fragment).1.current fragment.requestId).map Partial.progress,
        (client.arrive fragment).2) := by
  unfold collect arrive
  split
  next ho =>
    rw [accept_aborted (aborts_iff.mpr ho)]
    have hd : Client.current { client.delete fragment.requestId with
        aborted := client.aborted + 1 } fragment.requestId = none :=
      current_delete.trans (if_pos rfl)
    dsimp only
    rw [hd, if_pos (Nat.succ_ne_self _)]
    rfl
  next hin =>
    rw [accept_taken (mt aborts_iff.mp hin), ← progress_grown hin]
    split
    next hm =>
      rw [if_pos (Partial.next_lt_iff.mpr hm)]
      dsimp only
      rw [current_holding, if_pos rfl, aborted_holding, if_neg (not_not.mpr rfl)]
      rfl
    next hl =>
      rw [if_neg (mt Partial.next_lt_iff.mp hl)]
      dsimp only
      rw [current_delete, if_pos rfl, delete, aborted_holding, if_neg (not_not.mpr rfl)]
      rfl

def own (requestId : UInt64) (fragment : MessageServerFragment) : Option (Piece UInt8) :=
  if fragment.requestId = requestId then some (numberedPiece fragment) else none

variable (traffic : List MessageServerFragment)

theorem filterMap_own : traffic.filterMap (own requestId) =
      (traffic.filter (·.requestId = requestId)).map numberedPiece := by
  induction traffic with
  | nil => rfl
  | cons fragment traffic ih =>
    by_cases ho : fragment.requestId = requestId <;> simp [own, ho, ← ih]

theorem answersTo_arrive :
    answersTo (fun fragment => fragment.requestId = requestId) arrive client traffic =
      answers collect ((client.current requestId).map Partial.progress)
        ((traffic.filter (·.requestId = requestId)).map numberedPiece) := by
  have hp : (fun fragment : MessageServerFragment => decide (fragment.requestId = requestId)) =
      fun fragment => (own requestId fragment).isSome := by
    funext fragment
    by_cases how : fragment.requestId = requestId <;> simp [own, how]
  rw [← filterMap_own, hp]
  refine answersTo_eq_answers (v := fun client => (client.current requestId).map Partial.progress)
    (I := fun _ => True) (fun _ _ _ => trivial) ?_ ?_ trivial (along_true client traffic)
    (along_true _ _)
  · intro client fragment _ _ ho
    have hne : requestId ≠ fragment.requestId := by
      rintro rfl
      simp [own] at ho
    exact congrArg _ (current_accept_of_ne hne)
  · intro client fragment arrived _ _ how _
    unfold own at how
    split at how
    next heq =>
      subst heq
      cases how
      exact collect_arrive
    · cases how

end Client

section Cut

variable {codec : FragmentCodec} {requestId : UInt64} {body : Bytes} {partBytes : ℕ}

/-- Every fragment can be put on the wire and is read back as it was. -/
def Faithful (codec : FragmentCodec) : Prop :=
  ∀ fragment, ∃ encoded, codec.marshal fragment = some encoded ∧
    codec.unmarshal encoded = some fragment

structure Carries (codec : FragmentCodec) (frame : Frame) (fragment : MessageServerFragment) :
    Prop where
  messageType : frame.messageType = .messageServerFragment
  server : decodeFragment codec frame = some fragment
  client : codec.unmarshal frame.messageBytes = some fragment

theorem fragmentFrames_carries (hcd : Faithful codec) (fragments : List MessageServerFragment) :
    ∃ frames, fragmentFrames codec fragments = some frames ∧
      List.Forall₂ (Carries codec) frames fragments := by
  induction fragments with
  | nil => exact ⟨[], rfl, .nil⟩
  | cons fragment fragments ih =>
    obtain ⟨frames, hf, hc⟩ := ih
    obtain ⟨encoded, hm, hu⟩ := hcd fragment
    refine ⟨⟨.messageServerFragment, encoded, false⟩ :: frames, ?_, .cons ⟨rfl, hu, hu⟩ hc⟩
    rw [fragmentFrames] at hf ⊢
    rw [List.mapM_cons, hm, hf]
    rfl

theorem length_fragmentsOf :
    (fragmentsOf requestId partBytes body).length = pieceCount body.length partBytes := by
  rw [fragmentsOf, List.length_map, List.length_range, pieceCount]

theorem length_part_le {fragment : MessageServerFragment}
    (h : fragment ∈ fragmentsOf requestId partBytes body) : fragment.part.length ≤ partBytes := by
  obtain ⟨index, -, rfl⟩ := List.mem_map.mp h
  exact length_piece_le index

theorem map_fragmentsOf (h : pieceCount body.length partBytes < 2 ^ 32) :
    (fragmentsOf requestId partBytes body).map numberedPiece =
      numbered (pieceCount body.length partBytes) 0 (pieces partBytes body) := by
  rw [← numbered_pieces, fragmentsOf, List.map_map]
  refine List.map_congr_left fun index hi => ?_
  have hlt : index < 2 ^ 32 := Nat.lt_trans (List.mem_range.mp hi) h
  have hc : (UInt32.ofNat (pieceCount body.length partBytes)).toNat =
      pieceCount body.length partBytes := UInt32.toNat_ofNat_of_lt h
  have hn : (UInt32.ofNat index).toNat = index := UInt32.toNat_ofNat_of_lt hlt
  rw [pieceCount] at hc
  simp [fragmentAt, numberedPiece, piece, pieceCount, hc, hn]

theorem answers_fragmentsOf (hpr : 0 < partBytes) (hb : body ≠ [])
    (h : pieceCount body.length partBytes < 2 ^ 32) :
    answers collect none ((fragmentsOf requestId partBytes body).map numberedPiece) =
      List.replicate ((fragmentsOf requestId partBytes body).length - 1) .more ++
        [.complete body] := by
  have hf : (pieces partBytes body).flatten = body := flatten_pieces hpr
  have hp : pieces partBytes body ≠ [] := by
    intro hn
    rw [hn] at hf
    exact hb hf.symm
  have hl : 0 + (pieces partBytes body).length = pieceCount body.length partBytes := by
    rw [length_pieces, Nat.zero_add]
  rw [map_fragmentsOf h, answers_collect hp reached_none hl, hf, length_pieces,
    length_fragmentsOf, List.nil_append]

theorem along_fragmentsOf (hp : 0 < partBytes) {max : ℕ} (hm : body.length ≤ max)
    (h : pieceCount body.length partBytes < 2 ^ 32) :
    Along (Fits max) collect none ((fragmentsOf requestId partBytes body).map numberedPiece) := by
  have hl : 0 + (pieces partBytes body).length = pieceCount body.length partBytes := by
    rw [length_pieces, Nat.zero_add]
  rw [map_fragmentsOf h]
  exact along_collect reached_none hl (by rwa [flatten_pieces hp, List.nil_append])

theorem partSize_pos {budget : ℤ} : 0 < partSize budget := by
  unfold partSize
  split
  · decide
  · omega

theorem partSize_le {budget : ℤ} : partSize budget ≤ maxFragmentPartBytes := by
  unfold partSize
  split
  · exact Nat.le_refl _
  · omega

end Cut

inductive Side
  | server | client

namespace Side

def frames : Side → FragmentCodec → Outgoing → ℤ → Option (List Frame)
  | .server => responseFrames
  | .client => requestFrames

/-- The type of a frame that carries a whole message. -/
def messageType : Side → MessageType
  | .server => .messageServerResponse
  | .client => .messageServerRequest

def partBytes : Side → ℤ → ℕ
  | .server, budget => partSize budget
  | .client, budget => budget.toNat

def Whole (side : Side) (budget : ℤ) (body : Bytes) : Prop :=
  body.length ≤ side.partBytes budget ∨ side = .client ∧ budget ≤ 0

variable {side : Side} {codec : FragmentCodec} {message : Outgoing} {body : Bytes} {budget : ℤ}

theorem frames_of_whole (hb : message.body = some body) (h : side.Whole budget body) :
    side.frames codec message budget = some [⟨side.messageType, body, false⟩] := by
  cases side with
  | server =>
    have hf : body.length ≤ partSize budget := h.resolve_right fun hc => nomatch hc.1
    simp [frames, responseFrames, messageType, hb, hf]
  | client =>
    have hf : budget ≤ 0 ∨ (body.length : ℤ) ≤ budget := by
      rcases h with hf | ⟨-, hbd⟩
      · simp only [partBytes] at hf
        omega
      · exact .inl hbd
    simp [frames, requestFrames, messageType, hb, hf]

theorem frames_of_not_whole (hb : message.body = some body) (h : ¬ side.Whole budget body) :
    side.frames codec message budget =
      fragmentFrames codec (fragmentsOf message.requestId (side.partBytes budget) body) := by
  cases side with
  | server =>
    have hl : ¬ body.length ≤ partSize budget := fun hf => h (.inl hf)
    simp [frames, responseFrames, partBytes, hb, hl]
  | client =>
    have hl : ¬ (budget ≤ 0 ∨ (body.length : ℤ) ≤ budget) := by
      rintro (hbd | hf)
      · exact h (.inr ⟨rfl, hbd⟩)
      · exact h (.inl (by simp only [partBytes]; omega))
    simp [frames, requestFrames, partBytes, hb, hl]

theorem partBytes_pos (h : ¬ side.Whole budget body) : 0 < side.partBytes budget := by
  cases side with
  | server => exact partSize_pos
  | client =>
    by_contra hz
    simp only [partBytes] at hz
    exact h (.inr ⟨rfl, by omega⟩)

end Side

/-- The answers to the fragments of a body: more is expected up to the last, which gives it. -/
def Joined (fragments : List MessageServerFragment) (body : Bytes)
    (outcomes : List (Outcome UInt8)) : Prop :=
  outcomes = List.replicate (fragments.length - 1) .more ++ [.complete body]

/--
A body that fits one part is sent whole. The fragments of any other, fed in order to either side
with others in between, complete it at the last.
-/
theorem fragmentation_round_trip (codec : FragmentCodec) (hcodec : Faithful codec) (side : Side)
    (message : Outgoing) (body : Bytes) (hbody : message.body = some body) (budget : ℤ)
    (fragments : List MessageServerFragment)
    (hfragments : fragments = fragmentsOf message.requestId (side.partBytes budget) body) :
    partSize budget ≤ 2048 ∧
    (side.Whole budget body →
      side.frames codec message budget = some [⟨side.messageType, body, false⟩]) ∧
    (¬ side.Whole budget body → pieceCount body.length (side.partBytes budget) < 2 ^ 32 →
      (∃ frames, side.frames codec message budget = some frames ∧
        List.Forall₂ (Carries codec) frames fragments) ∧ 1 < fragments.length ∧
      (∀ fragment ∈ fragments, fragment.part.length ≤ side.partBytes budget) ∧
      (∀ (max : ℕ) (perClient maxReassemblies idle : ℤ) (before traffic : List Arrival)
          (clientId : Bytes) (r : Reassembly),
        r = (newReassembly max perClient maxReassemblies idle).after before →
        body.length ≤ max → r.current ⟨clientId, message.requestId⟩ = none →
        Along (Reassembly.Room ⟨clientId, message.requestId⟩) Reassembly.arrive r traffic →
        traffic.filterMap (·.own ⟨clientId, message.requestId⟩) = fragments →
        Joined fragments body
          (answersTo (fun arrival => (arrival.own ⟨clientId, message.requestId⟩).isSome)
            Reassembly.arrive r traffic)) ∧
      ∀ (client : Client) (traffic : List MessageServerFragment),
        client.current message.requestId = none →
        traffic.filter (·.requestId = message.requestId) = fragments →
        Joined fragments body
          (answersTo (fun fragment => fragment.requestId = message.requestId) Client.arrive
            client traffic)) := by
  subst hfragments
  refine ⟨partSize_le, Side.frames_of_whole hbody, fun hct hc => ?_⟩
  have hp := Side.partBytes_pos hct
  have hl : side.partBytes budget < body.length := Nat.not_le.mp fun hf => hct (.inl hf)
  have hne : body ≠ [] := List.ne_nil_of_length_pos (Nat.zero_lt_of_lt hl)
  refine ⟨?_, ?_, fun _ => length_part_le, ?_, ?_⟩
  · rw [Side.frames_of_not_whole hbody hct]
    exact fragmentFrames_carries hcodec _
  · rw [length_fragmentsOf]
    exact one_lt_pieceCount hp hl
  · rintro max perClient maxReassemblies idle before traffic clientId r rfl hm hn hr ho
    have hb : ((newReassembly max perClient maxReassemblies idle).after before).Bounded max :=
      Reassembly.newReassembly_bounded.after before
    have hf : Along (Fits max) collect none ((fragmentsOf message.requestId
        (side.partBytes budget) body).map numberedPiece) := along_fragmentsOf hp hm hc
    rw [Joined, Reassembly.answersTo_arrive hb hr (by rwa [hn, ho]), hn, ho]
    exact answers_fragmentsOf hp hne hc
  · intro client traffic hn ho
    rw [Joined, Client.answersTo_arrive, hn, ho]
    exact answers_fragmentsOf hp hne hc

namespace Sample

def unary : FragmentCodec where
  marshal fragment := some (List.replicate (Encodable.encode (fragment.requestId.toNat,
    fragment.index.toNat, fragment.count.toNat, fragment.part.map UInt8.toNat)) 0)
  unmarshal encoded :=
    (Encodable.decode (α := ℕ × ℕ × ℕ × List ℕ) encoded.length).map fun numbers =>
      ⟨.ofNat numbers.1, .ofNat numbers.2.1, .ofNat numbers.2.2.1, numbers.2.2.2.map UInt8.ofNat⟩

theorem unary_faithful : Faithful unary := by
  intro fragment
  refine ⟨_, rfl, ?_⟩
  simp [unary, Function.comp_def]

def message : Outgoing := ⟨5, some [1, 2, 3]⟩

def traffic : List Arrival :=
  [.fragment [7] ⟨5, 0, 2, [1, 2]⟩ 0 0, .fragment [8] ⟨5, 0, 9, [4]⟩ 1 1, .sweep 2,
    .fragment [7] ⟨5, 1, 2, [3]⟩ 3 3]

def reassembly : Reassembly := newReassembly 100 16 1024 30

theorem traffic_room : Along (Reassembly.Room ⟨[7], 5⟩) Reassembly.arrive reassembly traffic := by
  refine ⟨⟨.inr (fun current h => nomatch h), fun _ _ => by decide⟩,
    ⟨.inr ?_, fun h => nomatch h⟩, ⟨.inr ?_, fun h => nomatch h⟩,
    ⟨.inr ?_, fun _ h => nomatch h⟩, trivial⟩
  all_goals
    intro current h
    cases show some _ = some current from h
    decide

end Sample

open Sample

theorem fragmentation_round_trip_unary : Joined (fragmentsOf 5 2 [1, 2, 3]) [1, 2, 3]
      (answersTo (fun arrival => (arrival.own ⟨[7], 5⟩).isSome) Reassembly.arrive
        reassembly traffic) :=
  ((fragmentation_round_trip unary unary_faithful .client message [1, 2, 3] rfl
    2 _ rfl).2.2 (by simp [Side.Whole, Side.partBytes]) (by decide)).2.2.2.1 100 16 1024 30 []
    traffic [7] reassembly rfl (by decide) rfl traffic_room rfl

end MessageServer.Harness
