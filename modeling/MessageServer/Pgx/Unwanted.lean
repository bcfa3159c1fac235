import MessageServer.Pgx.Refusals
import MessageServer.Store.Unwanted

/-! # Deliveries that the SQL store does not read

The gates of the SQL store read the keys delivered beside a batch where those of
the store in memory read them: for a commit alone. A commit that carries its own
keys does not get past them, and a batch with no commit left to write is run as
it is without them.
-/

namespace MessageServer.Pgx

open Store Transaction Store.Sample

section Gate

variable {store : PgxStore} {groupId : Bytes} {draw : Draw} {keys : EpochKeyDelivery}
  {state : GroupState} {record : Record} {highWater : Bytes → Option ℕ}
  {pinned : Bytes → Option Bytes} {A : Reply → Prop} {p : Pending} (batch : List Pending)

end Gate

section Submit

variable {store : PgxStore} {draw : Draw} {d : Database} {keys : EpochKeyDelivery}

variable {A : Reply → Prop}

variable {request : SubmitRequest}

/-- Nothing of the batch is stored, and some record of it is refused. -/
def Refused (store : PgxStore) (draw : Draw) (d : Database) (request : SubmitRequest) : Prop :=
  ∃ answer, (submit store draw request).run schema d = .rolledBack answer ∧
    ∀ results, answer = .ok (.submitted results) → ∃ r ∈ results, accepted r.reason = false

section WithoutKeys

variable {groupId : Bytes} {keys : Option EpochKeyDelivery} {state : GroupState}
  {batch : List Pending} {rest : List Pending}

end WithoutKeys

end Submit

namespace Sample

def delivered : EpochKeyDelivery := ⟨some [], some []⟩

def unwanted : SubmitRequest :=
  ⟨groupId, [record alice 1 3 none], some delivered⟩

def committed : Outcome Row Error Reply Empty → Option (List SubmitResult)
  | .committed _ (.submitted results) => some results
  | _ => none

end Sample

open Sample

end MessageServer.Pgx
