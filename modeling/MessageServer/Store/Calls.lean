import Mathlib.Data.Fin.VecNotation
import MessageServer.Lib.Interleaving
import MessageServer.Store.Submit

/-! # Interleaved calls on one store

A creation and a close are one atomic step each. A submission reads its claims
in a first step, without the row lock, and then either fills in an answer that
step decided or takes the row lock for everything else.
-/

namespace MessageServer.Store

open Interleaving

inductive Request
  | createGroup (request : CreateGroupRequest)
  | closeGroup (groupId : Bytes)
  | submit (request : SubmitRequest)

inductive Call
  | start (request : Request)
  | created (request : CreateGroupRequest) (result : Except Error CreateGroupResult)
  | closed (groupId : Bytes) (result : Except Error Unit)
  | failed (request : SubmitRequest) (error : Error)
  /-- Step (0) decided the answer; the read that fills it in is still to come. -/
  | answering (request : SubmitRequest) (batch : List Pending)
  /-- Step (0) left records to gate; the row lock is still to be taken. -/
  | waiting (request : SubmitRequest) (batch : List Pending)
  | submitted (request : SubmitRequest) (batch : List Pending)

/-- The next atomic step of a call, at the clock reading `now`. -/
def Call.step (cfg : Config) (now : Time) (s : MemoryStore) : Call → MemoryStore × Call
  | .start (.createGroup request) =>
    let next := Store.createGroup cfg now s request
    (next.1, .created request next.2)
  | .start (.closeGroup groupId) =>
    let next := Store.closeGroup now s groupId
    (next.1, .closed groupId next.2)
  | .start (.submit request) =>
    match validateSubmit request with
    | .error e => (s, .failed request e)
    | .ok _ =>
      match submitProbe cfg s request with
      | .answering batch => (s, .answering request batch)
      | .unavailable batch => (s, .submitted request (refuseUnavailable batch))
      | .waiting batch => (s, .waiting request batch)
  | .answering request batch =>
    (s, .submitted request (fillCurrentEpoch (s.groups request.groupId) batch))
  | .waiting request batch =>
    match s.groups request.groupId with
    | none => (s, .waiting request batch)
    | some g =>
      let next := submitLocked cfg now g request.epochKeys batch
      (s.setGroup request.groupId next.1, .submitted request next.2)
  | call => (s, call)

def machine (cfg : Config) : Machine MemoryStore Call Time := ⟨fun now s c => c.step cfg now s⟩

variable {ι : Type*} [DecidableEq ι]

/-- A family of calls on a store, none of which has taken a step. -/
def initial (s : MemoryStore) (requests : ι → Request) : World MemoryStore Call ι :=
  ⟨s, fun i => .start (requests i)⟩

/-- The world a schedule of calls reaches from a store. -/
def runFrom (cfg : Config) (s : MemoryStore) (requests : ι → Request)
    (sched : List (ι × Time)) : World MemoryStore Call ι :=
  (machine cfg).exec (initial s requests) sched

/-- The world a schedule of calls reaches from an empty store. -/
def run (cfg : Config) (requests : ι → Request) (sched : List (ι × Time)) :
    World MemoryStore Call ι :=
  runFrom cfg .empty requests sched

theorem runFrom_snoc_calls (cfg : Config) (s : MemoryStore) (requests : ι → Request)
    (sched : List (ι × Time)) (i : ι) (now : Time) :
    (runFrom cfg s requests (sched ++ [(i, now)])).calls i =
      (((runFrom cfg s requests sched).calls i).step cfg now
        (runFrom cfg s requests sched).shared).2 := by
  rw [runFrom, Machine.exec_snoc, Machine.turn_calls_self]
  rfl

def Call.answer : Call → Option (Except Error (List SubmitResult))
  | .failed _ e => some (.error e)
  | .submitted _ batch => some (.ok (resultsOf batch))
  | _ => none

namespace Sample

def sha256 (bytes : Bytes) : Bytes :=
  if bytes = [1] then
    [0x4b, 0xf5, 0x12, 0x2f, 0x34, 0x45, 0x54, 0xc5, 0x3b, 0xde, 0x2e, 0xbb, 0x8c, 0xd2, 0xb7, 0xe3,
     0xd1, 0x60, 0x0a, 0xd6, 0x31, 0xc3, 0x85, 0xa5, 0xd7, 0xcc, 0xe2, 0x3c, 0x77, 0x85, 0x45, 0x9a]
  else if bytes = [] then
    [0xe3, 0xb0, 0xc4, 0x42, 0x98, 0xfc, 0x1c, 0x14, 0x9a, 0xfb, 0xf4, 0xc8, 0x99, 0x6f, 0xb9, 0x24,
     0x27, 0xae, 0x41, 0xe4, 0x64, 0x9b, 0x93, 0x4c, 0xa4, 0x95, 0x99, 0x1b, 0x78, 0x52, 0xb8, 0x55]
  else []

def config : Config := ⟨defaultLimits, sha256⟩

def groupId : Bytes := List.replicate 32 0
def alice : Bytes := List.replicate 16 0
def bob : Bytes := List.replicate 16 1

def record (sender : Bytes) (epoch streamIndex : ℕ) (attachment : Option Attachment) : Record where
  senderHandle := sender
  epoch := epoch
  streamIndex := streamIndex
  isCommit := isEpochAttachmentKind (attachment.elim .none (·.kind))
  retentionClass := classPermanent
  ephWindow := 0
  sizeBucket := 0
  expireAtMs := 0
  bodyHash := sha256 []
  ctHead := [1]
  ctBody := some []
  blobId := none
  serverAttachment := []
  attachment := attachment

def commit (sender : Bytes) (epoch streamIndex : ℕ) : Record :=
  record sender epoch streamIndex (some {
    kind := .epoch
    epoch := some {
      epoch := epoch + 1
      writeKey := some (List.replicate 32 2)
      readKey := some (List.replicate 32 3)
      algId := 1
      mediaTtlSeconds := 0
      durableTtlSeconds := 0
      groupContextHash := none
      expectedWrapCount := 1 } })

def marker (sender : Bytes) (epoch streamIndex : ℕ) : Record :=
  record sender epoch streamIndex (some {
    kind := .epochComplete
    epochComplete := some ⟨epoch, 1⟩ })

def createGroup : Request :=
  .createGroup ⟨groupId, some (commit alice 0 1), List.replicate 32 4, none⟩

def submit (records : List Record) : Request := .submit ⟨groupId, records, none⟩

def founding : Fin 2 → Request := ![createGroup, submit [marker alice 1 2]]

def foundingOrder : List (Fin 2 × Time) := [(0, 0), (1, 1), (1, 2)]

def founded : MemoryStore := (run config founding foundingOrder).shared

def mixed : SubmitRequest := ⟨groupId, [marker alice 1 2, record alice 1 3 none], none⟩

def marked : SubmitRequest := ⟨groupId, [marker alice 1 2], none⟩

def advanced : MemoryStore :=
  (runFrom config (Store.submit config 1 (run config ![createGroup] [(0, 0)]).shared marked).1
    ![submit [commit alice 1 3]] [(0, 2), (0, 3)]).shared

def retried : SubmitRequest := ⟨groupId, [commit alice 1 3], none⟩

def race : Fin 4 → Request :=
  ![createGroup, submit [marker alice 1 2], submit [commit alice 1 3], submit [commit bob 1 1]]

def raceOrder : List (Fin 4 × Time) := [(0, 0), (1, 1), (1, 2), (2, 3), (3, 4), (2, 5)]

end Sample

end MessageServer.Store
