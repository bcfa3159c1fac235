import MessageServer.Pgx.Submit

/-! # What a transaction touches

Behind the statement that takes the row of its group, a transaction reads and
writes rows of that group only. The rows of every other group are its frame.
-/

namespace MessageServer.Pgx

open Store Transaction

abbrev InGroup {α : Type} (groupId : Bytes) (p : Statements α) : Prop :=
  p.Within Key.groupId groupId

section Reads

variable {store : PgxStore} {groupId : Bytes} {d d' : Database}

theorem joinedEpoch_congr (h : AgreeOn Key.groupId groupId d d') (columns : AttachmentColumns) :
    joinedEpoch groupId d columns = joinedEpoch groupId d' columns := by
  unfold joinedEpoch
  cases columns.epoch with
  | none => rfl
  | some epoch =>
    rw [Option.bind_some, Option.bind_some, h (.epoch groupId epoch) rfl]

theorem winningCommit_congr (h : AgreeOn Key.groupId groupId d d') (epoch : ℕ) :
    winningCommit store groupId epoch d = winningCommit store groupId epoch d' := by
  unfold winningCommit
  rw [h (.commit groupId (int64 epoch)) rfl]
  split
  · rfl
  · rename_i winner _
    rw [h (.record groupId winner.recordId) rfl]
    split
    · rfl
    · rw [readRow, readRow, joinedEpoch_congr h]

end Reads

section Parts

variable (store : PgxStore) (groupId : Bytes) (draw : Draw) (epoch : ℕ) (batch : List Pending)
  {α : Type}

theorem inGroup_orFail (result : Except Error α) : InGroup groupId (orFail result) := by
  cases result <;> trivial

theorem inGroup_insert {groupId : Bytes} {k : Key} {row : Row k} {conflict : OnConflict (Row k)}
    (hk : k.groupId = groupId) :
    InGroup groupId (.insert k row conflict fun _ => pure () : Statements Unit) :=
  Prog.within_insert hk fun _ => trivial

theorem inGroup_fillOne (p : Pending) : InGroup groupId (fillOne store groupId epoch p) := by
  unfold fillOne
  split
  · trivial
  · refine Prog.within_select (fun d d' h => ?_) fun d =>
      Prog.within_bind (inGroup_orFail _ _) fun _ => trivial
    rw [winningCommit_congr h]

theorem inGroup_fillAll : InGroup groupId (fillAll store groupId epoch batch) := by
  induction batch with
  | nil => trivial
  | cons p batch ih =>
    exact Prog.within_bind (inGroup_fillOne store groupId epoch p) fun _ =>
      Prog.within_bind ih fun _ => trivial

theorem inGroup_fill : InGroup groupId (fill store groupId epoch batch) := by
  unfold fill
  split
  · refine Prog.within_select (fun d d' h => ?_) fun d => ?_
    · have hg : d.lookup (.group groupId) = d'.lookup (.group groupId) := h (.group groupId) rfl
      rw [hg]
    · split
      · trivial
      · split
        · trivial
        · exact inGroup_fillAll store groupId _ batch
  · exact inGroup_fillAll store groupId _ batch

theorem inGroup_refuse (offender : ℕ) (reason : Reason) (epoch : ℕ) :
    InGroup groupId (refuse store groupId batch offender reason epoch : Statements α) :=
  Prog.within_bind (inGroup_fill store groupId epoch _) fun _ => trivial

theorem inGroup_openEpoch (state : GroupState) (record : Record) (keys : Option EpochKeyDelivery) :
    InGroup groupId (openEpoch store groupId draw state record keys) := by
  unfold openEpoch
  split
  · trivial
  · refine Prog.within_bind (inGroup_orFail _ _) fun _ =>
      Prog.within_bind (inGroup_orFail _ _) fun _ =>
        ⟨rfl, fun _ => ⟨rfl, fun _ => ⟨fun k row hc => ?_, rfl, fun _ => trivial⟩⟩⟩
    cases k with
    | epoch g e =>
      simp only [isSuperseded, decide_eq_true_eq] at hc
      exact hc.1
    | group | record | claim | commit | sender | recovery => cases hc

theorem inGroup_closeFanOut (marker : EpochCompleteTag) :
    InGroup groupId (closeFanOut groupId epoch marker) := by
  unfold closeFanOut
  split
  · trivial
  · refine Prog.within_select (fun d d' h => ?_) fun d => ?_
    · rw [h (.epoch groupId (int64 epoch)) rfl]
    · split
      · trivial
      · split
        · trivial
        · exact ⟨rfl, fun _ => trivial⟩

theorem inGroup_pinRecoveryHandle (tag : RecoveryTag) (now : Time) :
    InGroup groupId (pinRecoveryHandle groupId tag now) := by
  refine Prog.within_insert rfl fun inserted => ?_
  split
  · trivial
  · refine Prog.within_select (fun d d' h => ?_) fun d => ?_
    · rw [h (.recovery groupId tag.handle) rfl]
    · split <;> trivial

end Parts

section Batch

variable (store : PgxStore) (groupId : Bytes) (draw : Draw) (keys : Option EpochKeyDelivery)
  (state : GroupState) (batch : List Pending) (offender epoch : ℕ) (record : Record)
  (result : SubmitResult)

theorem inGroup_advance :
    InGroup groupId (advance store groupId draw keys state batch offender epoch record result) := by
  unfold advance
  split
  · refine Prog.within_insert rfl fun won => ?_
    split
    · exact Prog.within_bind (inGroup_openEpoch store groupId draw state record keys) fun _ =>
        trivial
    · exact inGroup_refuse store groupId batch offender _ _
  · trivial

theorem inGroup_completeEpoch (epoch : ℕ) (record : Record) :
    InGroup groupId (completeEpoch groupId epoch record) := by
  unfold completeEpoch
  split
  · trivial
  · exact inGroup_closeFanOut groupId epoch _

theorem inGroup_bindRecovery (offender : ℕ) (record : Record) :
    InGroup groupId (bindRecovery store groupId draw state batch offender record) := by
  unfold bindRecovery
  split
  · trivial
  · refine Prog.within_bind (inGroup_pinRecoveryHandle groupId _ _) fun rebound => ?_
    split
    · exact inGroup_refuse store groupId batch offender _ _
    · trivial

theorem inGroup_writeOne :
    InGroup groupId (writeOne store groupId draw keys state batch offender epoch record result) :=
  Prog.within_bind
    (inGroup_advance store groupId draw keys state batch offender epoch record result)
    fun _ => Prog.within_bind (inGroup_completeEpoch groupId _ record) fun _ =>
      Prog.within_bind (inGroup_insert rfl) fun _ => Prog.within_bind (inGroup_insert rfl) fun _ =>
        Prog.within_bind (inGroup_bindRecovery store groupId draw state batch offender record)
          fun _ => Prog.within_bind (inGroup_insert rfl) fun _ => trivial

theorem inGroup_writeAll (epoch id : ℕ) (done rest : List Pending) :
    InGroup groupId (writeAll store groupId draw keys state epoch id done rest) := by
  induction rest generalizing epoch id done with
  | nil => trivial
  | cons p rest ih =>
    unfold writeAll
    split
    · exact ih ..
    · exact Prog.within_bind (inGroup_writeOne store groupId draw keys state _ _ _ _ _) fun _ =>
        ih ..

theorem inGroup_write : InGroup groupId (write store groupId draw keys state batch) := by
  refine ⟨rfl, fun row => ?_⟩
  cases row with
  | none => trivial
  | some row =>
    exact Prog.within_bind (inGroup_writeAll store groupId draw keys state _ _ _ _) fun _ => trivial

theorem inGroup_gate (highWater : Bytes → Option ℕ) (pinned : Bytes → Option Bytes) :
    InGroup groupId (gate groupId keys state record highWater pinned) := by
  unfold gate
  split
  · refine Prog.within_select (fun d d' h => ?_) fun d => ?_
    · rw [h (.commit groupId (int64 record.epoch)) rfl]
    · split <;> trivial
  · trivial

theorem inGroup_gateAll (pinned : Bytes → Option Bytes) (highWater : Bytes → Option ℕ) (index : ℕ)
    (rest : List Pending) :
    InGroup groupId (gateAll store groupId keys state batch pinned highWater index rest) := by
  induction rest generalizing highWater index with
  | nil => trivial
  | cons p rest ih =>
    unfold gateAll
    split
    · exact ih ..
    · refine Prog.within_bind (inGroup_gate groupId keys state _ _ _) fun refusal => ?_
      split
      · exact inGroup_refuse store groupId batch _ _ _
      · exact ih ..

theorem inGroup_senderHighWater : InGroup groupId (senderHighWater groupId batch) := by
  refine Prog.within_select (fun d d' h => ?_) fun _ => trivial
  simp only [fun handle => h (.sender groupId handle) rfl]

theorem inGroup_pinnedRecoveryKeys : InGroup groupId (pinnedRecoveryKeys groupId batch) := by
  unfold pinnedRecoveryKeys
  split
  · trivial
  · refine Prog.within_select (fun d d' h => ?_) fun _ => trivial
    simp only [fun handle => h (.recovery groupId handle) rfl]

end Batch

section Calls

variable (store : PgxStore) (draw : Draw) (request : CreateGroupRequest) (groupId : Bytes)
  (record : Record) (opening : EpochOpening)

theorem inGroup_transact (keys : Option EpochKeyDelivery) (batch : List Pending) :
    InGroup groupId (transact store draw groupId keys batch) := by
  refine ⟨rfl, fun row => ?_⟩
  cases row with
  | none => trivial
  | some row =>
    exact Prog.within_bind (inGroup_senderHighWater groupId _) fun _ =>
      Prog.within_bind (inGroup_pinnedRecoveryKeys groupId _) fun _ =>
        Prog.within_bind (inGroup_gateAll store groupId keys _ _ _ _ _ _) fun _ =>
          inGroup_write store groupId draw keys _ _

theorem inGroup_pinFounding : InGroup groupId (pinFounding draw groupId record) := by
  unfold pinFounding
  split
  · trivial
  · exact Prog.within_bind (inGroup_pinRecoveryHandle groupId _ _) fun _ => trivial

theorem inGroup_foundEpochs :
    InGroup request.groupId (foundEpochs store draw request record opening) :=
  Prog.within_bind (inGroup_orFail _ _) fun _ => Prog.within_bind (inGroup_insert rfl) fun _ =>
    Prog.within_bind (inGroup_orFail _ _) fun _ => Prog.within_bind (inGroup_orFail _ _) fun _ =>
      inGroup_insert rfl

theorem inGroup_foundRecord : InGroup groupId (foundRecord store draw groupId record opening) :=
  Prog.within_bind (inGroup_insert rfl) fun _ => Prog.within_bind (inGroup_insert rfl) fun _ =>
    Prog.within_bind (inGroup_insert rfl) fun _ => Prog.within_bind (inGroup_insert rfl) fun _ =>
      inGroup_pinFounding draw groupId record

theorem inGroup_foundRows : InGroup request.groupId (foundRows store draw request record opening) :=
  Prog.within_bind (inGroup_foundEpochs store draw request record opening) fun _ =>
    Prog.within_bind (inGroup_foundRecord store draw request.groupId record opening) fun _ =>
      trivial

theorem inGroup_createGroup : InGroup request.groupId (createGroup store draw request) := by
  unfold createGroup
  split
  · trivial
  · split
    · trivial
    · split
      · trivial
      · refine Prog.within_insert rfl fun created => ?_
        split
        · exact inGroup_foundRows store draw request _ _
        · trivial

theorem inGroup_closeGroup : InGroup groupId (closeGroup draw groupId) := by
  unfold closeGroup
  split
  · trivial
  · refine ⟨rfl, fun row => ?_⟩
    cases row <;> trivial

end Calls

end MessageServer.Pgx
