import MessageServer.Api.Nesting
import MessageServer.Api.RoundTrip
import MessageServer.Store.NewRecord

/-! # The answer to a new record

The epoch of a record decides whether its authenticator can be checked at all:
the store holds the write keys of the current epoch and of the one before. Past
the authenticator the gates of the store answer, each with a code of its own.
-/

namespace MessageServer.Api

open Protocol Handler
open Store hiding EpochKeyDelivery SubmitRequest SubmitResult

inductive Verdict
  | refuse (reason : Reason) (currentEpoch : ℕ) (winner : Option CommitRow)
  | accept (recordId : ℕ)

/-- The kinds of record that may be written while the fan-out of an epoch is open. -/
def CheckedRecord.inFanOut (record : CheckedRecord) : Bool :=
  match record.attachment with
  | .wrap _ | .complete _ => true
  | _ => false

/-- The recovery handle of a record is pinned to another key. -/
def CheckedRecord.rebinds (g : MemoryGroup) (record : CheckedRecord) : Bool :=
  match record.attachment with
  | .recovery tag => (g.recovery tag.handle).any (·.verifyPub ≠ tag.verifyPub)
  | _ => false

/-- The documented answer to a record that is new to its group, by the first case that applies. -/
def CheckedRecord.verdict (g : MemoryGroup) (record : CheckedRecord) : Verdict :=
  let header := record.parsed.header
  if header.epoch = g.currentEpoch then
    if ¬ g.epochComplete ∧ ¬ record.inFanOut then
      .refuse .epochIncomplete g.currentEpoch none
    else if header.isCommit ∧ opensEpochOf record.attachment ≠ some (g.currentEpoch + 1) then
      .refuse .rejected g.currentEpoch none
    else if (g.senders header.senderHandle.val).any (header.streamIndex ≤ ·.lastStreamIndex) then
      .refuse .streamIndexRegressed g.currentEpoch none
    else if record.rebinds g then .refuse .rejected g.currentEpoch none
    else .accept g.nextRecordId
  else if header.epoch + 1 = g.currentEpoch then
    if header.isCommit then .refuse .commitLost g.currentEpoch (g.commits header.epoch)
    else .refuse .epochStale g.currentEpoch none
  else .refuse .rejected 0 none

def Verdict.Told (h : Handler) (groupId : Bytes) (result : SubmitResult) : Verdict → Prop
  | .refuse reason currentEpoch winner =>
    result.reason = reason ∧ result.currentEpoch = currentEpoch ∧ result.recordId = 0 ∧
      match winner with
      | none => result.winningCommit = none
      | some commit => ∃ wire, result.winningCommit = some wire ∧
          rebuildRecord h.layer groupId commit.record false = some wire
  | .accept recordId => accepted result.reason = true ∧ result.recordId = recordId

def Verdict.Leaves (groupId : Bytes) (columns : Store.Record) (s s' : MemoryStore) : Verdict → Prop
  | .refuse _ _ _ => s' = s
  | .accept recordId => s'.log groupId = s.log groupId ++ [stamp columns recordId]

section Checks

variable {h : Handler} {s : Server} {groupId : Bytes} {g : MemoryGroup}
  {record : CheckedRecord} {columns : Store.Record} {key : Bytes} {keys : Option EpochKeyDelivery}
  {conn : Connection}

theorem lookupKey_of_group (hl : groupId.length = groupIdBytes)
    (hg : s.store.groups groupId = some g) (ho : g.closed = false) (epoch : ℕ) :
    lookupKey s.store groupId (fun _ => none) epoch = (g.epochs epoch).bind (·.writeKey) := by
  unfold lookupKey
  by_cases hk : ∃ row, g.epochs epoch = some row ∧ ¬ (row.writeKey = none ∧ row.readKey = none)
  · obtain ⟨row, hr, hh⟩ := hk
    simp only [epochKeys_of_row hl hg ho hr hh, hr, Option.bind_some]
  · rw [not_exists] at hk
    have hn : ∀ row, g.epochs epoch = some row → row.writeKey = none ∧ row.readKey = none :=
      fun row hr => not_not.mp fun hh => hk row ⟨hr, hh⟩
    simp only [epochKeys_unknown hl hg hn]
    cases hr : g.epochs epoch with
    | none => rfl
    | some row => exact (hn row hr).1.symm

theorem contains_of_group (hl : groupId.length = groupIdBytes)
    (hg : s.store.groups groupId = some g) (ho : g.closed = false)
    (hk : h.knownGroups = .memory → s.known groupId = true) :
    ∃ s', contains h.knownGroups s groupId = (s', .ok ()) ∧ s'.store = s.store := by
  unfold contains
  split
  · exact ⟨s, rfl, rfl⟩
  next hm =>
    cases hf : h.knownGroups with
    | memory => exact absurd (hk hf) hm
    | store =>
      rcases groupState_cases hl s.store with ⟨-, state, hs⟩ | ⟨hu, -⟩
      · simp only [hs]
        exact ⟨_, rfl, rfl⟩
      · simp [MemoryStore.available, hg, ho] at hu

theorem checkRecords_none
    (hk : lookupKey s.store groupId (fun _ => none) record.parsed.header.epoch = none) :
    h.checkRecords s.store conn groupId ⟨[record], keys⟩ = .error ⟨.rejected, some 0⟩ := by
  unfold checkRecords checkEpochKey
  simp only [hk]
  rfl

theorem checkRecords_some
    (hk : lookupKey s.store groupId (fun _ => none) record.parsed.header.epoch = some key)
    (hm : h.layer.verifyWriteAuth key conn.serverNonce record.parsed = true)
    (hh : h.bodyHash record = .ok ()) (hs : h.storeRecord record = .ok columns) :
    h.checkRecords s.store conn groupId ⟨[record], keys⟩ = .ok ([⟨record, key⟩], [columns]) := by
  unfold checkRecords checkEpochKey checkWriteAuth checkBodyHash
    storeRecords
  simp [hk, hm, hh, hs, checkEpochKey, forEach, bind, Except.bind, Except.map, failIf,
    pure, Except.pure]

end Checks

section Columns

variable {layer : Message.RecordLayer} {record : CheckedRecord} {columns : Store.Record}

variable (hc : columnsOf layer record = some columns)
include hc

theorem exempt_columns : exemptFromEpochComplete columns = record.inFanOut := by
  obtain ⟨wire, -, rfl⟩ := Option.map_eq_some_iff.mp hc
  obtain ⟨parsed, attachment⟩ := record
  cases attachment <;> rfl

theorem rebinds_columns (g : MemoryGroup) : ((recoveryTagOf columns).any fun tag =>
      (g.recovery tag.handle).any (·.verifyPub ≠ tag.verifyPub)) = record.rebinds g := by
  obtain ⟨wire, -, rfl⟩ := Option.map_eq_some_iff.mp hc
  obtain ⟨parsed, attachment⟩ := record
  cases attachment <;> rfl

theorem kind_columns : Store.isEpochAttachmentKind (attachmentKindOf columns) =
      isEpochAttachmentKind record.attachment := by
  obtain ⟨wire, -, rfl⟩ := Option.map_eq_some_iff.mp hc
  obtain ⟨parsed, attachment⟩ := record
  cases attachment <;> rfl

end Columns

section Verdict

variable {h : Handler} {record : CheckedRecord} {columns : Store.Record} {g : MemoryGroup}
  {keys : Option Store.EpochKeyDelivery}

def Verdict.reason : Verdict → Reason
  | .refuse reason _ _ => reason
  | .accept _ => .ok

/-- A record of an epoch whose write key the group holds. -/
def CheckedRecord.Keyed (g : MemoryGroup) (record : CheckedRecord) : Prop :=
  record.parsed.header.epoch = g.currentEpoch ∨ record.parsed.header.epoch + 1 = g.currentEpoch

/-- The gates of the store give the code of the verdict. -/
theorem gate_eq_reason (hcl : columnsOf h.layer record = some columns)
    (hkn : isEpochAttachmentKind record.attachment = record.parsed.header.isCommit)
    (hw : record.parsed.header.isCommit = true → ∀ opens,
      wellFormedEpochAttachment columns opens keys =
        decide (opensEpochOf record.attachment = some opens))
    (hct : ∀ e, (∃ c, g.commits e = some c) ↔ e < g.currentEpoch) (hk : record.Keyed g) :
    gate g g.state columns keys (fun _ => none) (fun _ => none) = (record.verdict g).reason := by
  have hcm : columns.isCommit = record.parsed.header.isCommit := by
    obtain ⟨wire, -, rfl⟩ := Option.map_eq_some_iff.mp hcl
    rfl
  have he : columns.epoch = record.parsed.header.epoch := by
    obtain ⟨wire, -, rfl⟩ := Option.map_eq_some_iff.mp hcl
    rfl
  have hs : columns.senderHandle = record.parsed.header.senderHandle.val ∧
      columns.streamIndex = record.parsed.header.streamIndex := by
    obtain ⟨wire, -, rfl⟩ := Option.map_eq_some_iff.mp hcl
    exact ⟨rfl, rfl⟩
  unfold CheckedRecord.verdict
  by_cases hcr : record.parsed.header.epoch = g.currentEpoch
  · have ho : (columns.isCommit = true ∧
        ¬ wellFormedEpochAttachment columns (g.currentEpoch + 1) keys = true) ↔
        record.parsed.header.isCommit = true ∧
          opensEpochOf record.attachment ≠ some (g.currentEpoch + 1) := by
      rw [hcm]
      refine and_congr_right fun hc => ?_
      rw [hw hc, decide_eq_true_eq]
    rw [gate_current (he.trans hcr) hct (by rw [kind_columns hcl, hkn, hcm]), if_pos hcr]
    simp only [exempt_columns hcl, ho, hs.1, hs.2, rebinds_columns hcl]
    split
    · rfl
    · split
      · rfl
      · split
        · rfl
        · split <;> rfl
  · have hp := hk.resolve_left hcr
    rw [gate_previous (by rw [he]; exact hp) hct, if_neg hcr, if_pos hp, hcm]
    split <;> rfl

theorem CheckedRecord.verdict_refuse {reason : Reason} {currentEpoch : ℕ}
    {winner : Option CommitRow}
    (hcm : ∀ e, (∃ c, g.commits e = some c) ↔ e < g.currentEpoch) (hk : record.Keyed g)
    (hv : record.verdict g = .refuse reason currentEpoch winner) :
    reason ≠ .ok ∧ currentEpoch = g.currentEpoch ∧
      winner = if record.parsed.header.isCommit then g.commits record.parsed.header.epoch
        else none := by
  unfold verdict at hv
  dsimp only at hv
  by_cases hcr : record.parsed.header.epoch = g.currentEpoch
  · have hn : (if record.parsed.header.isCommit then g.commits record.parsed.header.epoch
        else none) = none := by
      cases hc : g.commits record.parsed.header.epoch with
      | none => exact ite_self _
      | some c => exact absurd ((hcm _).mp ⟨c, hc⟩) (by omega)
    rw [hn]
    rw [if_pos hcr] at hv
    repeat' split at hv
    all_goals cases hv
    all_goals exact ⟨nofun, rfl, rfl⟩
  · rw [if_neg hcr, if_pos (hk.resolve_left hcr)] at hv
    split at hv
    next hct =>
      cases hv
      exact ⟨nofun, rfl, (if_pos hct).symm⟩
    next hp =>
      cases hv
      exact ⟨nofun, rfl, (if_neg hp).symm⟩

theorem CheckedRecord.verdict_accept {id : ℕ} (hv : record.verdict g = .accept id) :
    id = g.nextRecordId := by
  unfold verdict at hv
  dsimp only at hv
  repeat' split at hv
  all_goals cases hv
  rfl

theorem CheckedRecord.verdict_unkeyed (hk : ¬ record.Keyed g) :
    record.verdict g = .refuse .rejected 0 none := by
  rw [Keyed, not_or] at hk
  unfold verdict
  rw [if_neg hk.1, if_neg hk.2]

theorem submit_verdict {cfg : Config} {now : Time} {s : MemoryStore} {groupId : Bytes}
    (hvl : validateSubmit ⟨groupId, [columns], keys⟩ = .ok ())
    (hgr : s.groups groupId = some g) (ho : g.closed = false)
    (hn : g.claims (claimKeyOf columns) = none)
    (hcl : columnsOf h.layer record = some columns)
    (hcm : ∀ e, (∃ c, g.commits e = some c) ↔ e < g.currentEpoch) (hk : record.Keyed g)
    (hg : gate g g.state columns keys (fun _ => none) (fun _ => none) = (record.verdict g).reason)
    (hrb : ∀ e c, g.commits e = some c →
      ∃ wire, rebuildRecord h.layer groupId c.record false = some wire) :
    ∃ result, (submit cfg now s ⟨groupId, [columns], keys⟩).2 = .ok [result] ∧
      (record.verdict g).Told h groupId (h.resultOf groupId result) ∧
      (record.verdict g).Leaves groupId columns s
        (submit cfg now s ⟨groupId, [columns], keys⟩).1 := by
  cases hv : record.verdict g with
  | refuse reason currentEpoch winner =>
    obtain ⟨hr, rfl, hwn⟩ := record.verdict_refuse hcm hk hv
    rw [hv] at hg
    rw [submit_new_refused hvl hgr ho hn hr hg]
    have hrf : accepted reason = false := by
      have hgt : ∀ r, gate g g.state columns keys (fun _ => none) (fun _ => none) = r →
          r ≠ .ok → accepted r = false := by
        rintro _ rfl
        exact accepted_gate
      exact hgt _ hg hr
    refine ⟨_, rfl, ⟨rfl, rfl, by simp [Handler.resultOf, hrf], ?_⟩, rfl⟩
    obtain ⟨wire, -, rfl⟩ := Option.map_eq_some_iff.mp hcl
    subst hwn
    simp only [Handler.resultOf]
    cases record.parsed.header.isCommit with
    | false => rfl
    | true =>
      cases hc : g.commits record.parsed.header.epoch with
      | none => rfl
      | some c =>
        obtain ⟨wire, hw⟩ := hrb _ c hc
        exact ⟨wire, hw, hw⟩
  | accept id =>
    obtain rfl := CheckedRecord.verdict_accept hv
    rw [hv] at hg
    obtain ⟨g', result, hs, ha, hid, hl⟩ := submit_new_accepted hvl hgr ho hn hg
    rw [hs]
    refine ⟨result, rfl, ⟨ha, ?_⟩, ?_⟩
    · simp [Handler.resultOf, ha, hid]
    · change (s.setGroup groupId g').log groupId = _
      rw [MemoryStore.log_of_group MemoryStore.setGroup_self, MemoryStore.log_of_group hgr]
      exact hl

end Verdict

section Submit

variable {h : Handler} {clock : ℕ → Time} {now : Time} {s : Server}
  {r : Incoming SubmitRequest} {record : CheckedRecord}
  {keys : Option EpochKeyDelivery}

structure PastFilter (h : Handler) (clock : ℕ → Time) (s : Server) (r : Incoming SubmitRequest)
    (pass : Pass) : Prop where
  front : frontChecks r.front = .ok
  shape : h.checkStaticShape clock r.body = .ok pass
  known : ∃ s', contains h.knownGroups s r.body.groupId = (s', .ok ()) ∧ s'.store = s.store

theorem PastFilter.submit_unkeyed (hps : PastFilter h clock s r ⟨[record], keys⟩)
    (hk : lookupKey s.store r.body.groupId (fun _ => none) record.parsed.header.epoch = none) :
    (h.submit clock now s r).1.store = s.store ∧
      (h.submit clock now s r).2 = ⟨.ok, [{ reason := .rejected }]⟩ := by
  obtain ⟨s', hc, hs⟩ := hps.known
  have hp := checkStaticShape_eq_ok.mp hps.shape
  have ho : r.body.records.length = 1 := (forall₂_of_forEach hp.shaped).length_eq
  rw [← hs] at hk
  unfold Handler.submit
  rw [if_neg (not_not.mpr hps.front), hps.shape]
  rw [hc]
  dsimp only
  rw [checkRecords_none hk]
  exact ⟨hs, by rw [ho]; rfl⟩

theorem PastFilter.submit_keyed (hp : PastFilter h clock s r ⟨[record], keys⟩) {key : Bytes}
    {columns : Store.Record} {result : Store.SubmitResult}
    (hk : lookupKey s.store r.body.groupId (fun _ => none) record.parsed.header.epoch = some key)
    (hm : h.layer.verifyWriteAuth key r.conn.serverNonce record.parsed = true)
    (hh : h.bodyHash record = .ok ()) (hst : h.storeRecord record = .ok columns)
    (hs : (submit h.store now s.store ⟨r.body.groupId, [columns], deliveryOf keys⟩).2 =
      .ok [result]) :
    (h.submit clock now s r).1.store =
        (submit h.store now s.store ⟨r.body.groupId, [columns], deliveryOf keys⟩).1 ∧
      (h.submit clock now s r).2 = ⟨.ok, [h.resultOf r.body.groupId result]⟩ := by
  obtain ⟨s', hc, hsr⟩ := hp.known
  rw [← hsr] at hk hs ⊢
  unfold Handler.submit
  rw [if_neg (not_not.mpr hp.front), hp.shape]
  rw [hc]
  dsimp only
  rw [checkRecords_some hk hm hh hst]
  dsimp only
  rw [hs]
  exact ⟨rfl, rfl⟩

end Submit

section Main

variable {ι : Type*} [DecidableEq ι] {g : MemoryGroup}

theorem writeKey_iff_keyed {record : CheckedRecord} (hc : Custody g) : (∃ key,
      (g.epochs record.parsed.header.epoch).bind (·.writeKey) = some key) ↔ record.Keyed g := by
  unfold CheckedRecord.Keyed
  constructor
  · rintro ⟨key, hky⟩
    obtain ⟨row, hr, hky⟩ := Option.bind_eq_some_iff.mp hky
    have hle := (hc.rows _).mp ⟨row, hr⟩
    have hge := (hc.writeKeys _ row hr).mp ⟨key, hky⟩
    omega
  · intro hk
    obtain ⟨row, hr⟩ := (hc.rows record.parsed.header.epoch).mpr (by omega)
    obtain ⟨key, hky⟩ := (hc.writeKeys _ row hr).mpr (by omega)
    exact ⟨key, by rw [hr, Option.bind_some, hky]⟩

theorem run_group {h : Handler} {registry : Option Subscriptions} {requests : ι → Request}
    {sched : List (ι × Tick)} {groupId : Bytes}
    (hgr : (run h registry requests sched).shared.store.groups groupId = some g) :
    Sound h.store g ∧ Custody g := by
  rw [run_store] at hgr
  exact ⟨Store.run_sound h.store _ _ groupId g hgr,
    runFrom_each (fun _ _ _ hs hg => hs.custody hg) (by rintro _ _ ⟨⟩) _ _ groupId g
      hgr⟩

/--
A record that is new to its open group and passes the checks of its shape, its body and its
authenticator gets the documented answer; a refusal stores nothing.
-/
theorem new_record_verdict (h : Handler) (hdocumented : Documented h.layer)
    (hparsers : ParsersCheck h.layer) (hlaw : Lawful h.layer) (registry : Option Subscriptions)
    (requests : ι → Request) (sched : List (ι × Tick)) (clock : ℕ → Time) (now : Time)
    (r : Incoming SubmitRequest) (g : MemoryGroup) (record : CheckedRecord)
    (keys : Option EpochKeyDelivery)
    (hgroup : (run h registry requests sched).shared.store.groups r.body.groupId = some g)
    (hopen : g.closed = false)
    (hknown : h.knownGroups = .memory →
      (run h registry requests sched).shared.known r.body.groupId = true)
    (hfront : frontChecks r.front = .ok) (hclock : ∀ index, clock index / 1000000 < 2 ^ 63)
    (hshape : h.checkStaticShape clock r.body = .ok ⟨[record], keys⟩)
    (hhash : h.bodyHash record = .ok ()) (hbuilt : recordKindIsBuilt record = .ok ())
    (hnew : g.claims ⟨record.parsed.header.senderHandle.val, record.parsed.header.streamIndex⟩ =
      none)
    (hmac : ∀ row key, g.epochs record.parsed.header.epoch = some row → row.writeKey = some key →
        h.layer.verifyWriteAuth key r.conn.serverNonce record.parsed = true) :
    ∃ columns result, columnsOf h.layer record = some columns ∧
      (h.submit clock now (run h registry requests sched).shared r).2 = ⟨.ok, [result]⟩ ∧
      (record.verdict g).Told h r.body.groupId result ∧
      (record.verdict g).Leaves r.body.groupId columns
        (run h registry requests sched).shared.store
        (h.submit clock now (run h registry requests sched).shared r).1.store := by
  have hp := checkStaticShape_eq_ok.mp hshape
  have hm : record ∈ (⟨[record], keys⟩ : Pass).records := List.mem_cons_self
  obtain ⟨_, -, index, hs⟩ := (exists_of_forall₂ (forall₂_of_forEach hp.shaped)).2 record hm
  obtain ⟨sent, -, hsh⟩ := staticShape_eq_ok.mp hs
  obtain ⟨columns, hcl⟩ := hsh.columns
  obtain ⟨hsn, hcs⟩ := run_group hgroup
  have hlo := hsn.groupLog
  have hps : PastFilter h clock (run h registry requests sched).shared r ⟨[record], keys⟩ :=
    ⟨hfront, hshape, contains_of_group hp.groupId hgroup hopen hknown⟩
  have hl := lookupKey_of_group hp.groupId hgroup hopen record.parsed.header.epoch
  by_cases hk : record.Keyed g
  · obtain ⟨key, hky⟩ := (writeKey_iff_keyed hcs).mpr hk
    obtain ⟨row, hrw, hwr⟩ := Option.bind_eq_some_iff.mp hky
    have hsr : h.storeRecord record = .ok columns := by
      unfold storeRecord
      rw [hbuilt, hcl]
      rfl
    have hrc : h.storeRecords [⟨record, key⟩] = .ok [columns] := by
      simp [storeRecords, forEach, hsr, Except.map]
    have hv := (validateSubmit_columns hdocumented hclock hshape rfl hrc (deliveryOf keys)).2
    have hw : record.parsed.header.isCommit = true → ∀ opens,
        wellFormedEpochAttachment columns opens (deliveryOf keys) =
          decide (opensEpochOf record.attachment = some opens) := by
      intro hcm opens
      obtain ⟨columns', opening, hcl', -, ho, hw⟩ := hsh.opening hparsers hcm (hp.delivered hm hcm)
      cases hcl.symm.trans hcl'
      rw [hw, ho]
      simp
    have hr : ∀ e c, g.commits e = some c →
        ∃ wire, rebuildRecord h.layer r.body.groupId c.record false = some wire := by
      intro e c hc
      obtain ⟨-, row, hrw, hrr, -⟩ := hlo.commit e c hc
      have hlg : c.record ∈ (run h registry requests sched).shared.store.log r.body.groupId := by
        rw [MemoryStore.log_of_group hgroup, ← hrr]
        exact List.mem_map_of_mem hrw
      exact run_rebuilt hlaw hlg false
    have hcla : g.claims (claimKeyOf columns) = none := by
      obtain ⟨wire, -, rfl⟩ := Option.map_eq_some_iff.mp hcl
      exact hnew
    have hg := gate_eq_reason hcl hsh.kind hw hlo.commits hk
    obtain ⟨result, hsb, ht, hlv⟩ := submit_verdict hv hgroup hopen hcla hcl hlo.commits hk hg hr
    obtain ⟨hst, ha⟩ := hps.submit_keyed (hl.trans hky) (hmac row key hrw hwr) hhash hsr hsb
    exact ⟨columns, _, hcl, ha, ht, hst ▸ hlv⟩
  · have hn : (g.epochs record.parsed.header.epoch).bind (·.writeKey) = none := by
      by_contra hsm
      exact hk ((writeKey_iff_keyed hcs).mp (Option.ne_none_iff_exists'.mp hsm))
    obtain ⟨hst, ha⟩ := hps.submit_unkeyed (hl.trans hn)
    rw [CheckedRecord.verdict_unkeyed hk]
    exact ⟨columns, _, hcl, ha, ⟨rfl, rfl, rfl, rfl⟩, hst⟩

namespace Sample

def ladderCodec : Message.RecordLayer :=
  { codec with
    retentionClassWire
      | .permanent, 0 => some 0
      | .durable, 0 => some 1
      | .media, 0 => some 2
      | .eph, bucket => if bucket ≤ 5 then some (16 + bucket) else none
      | _, _ => none }

def ladderCodecHandler : Handler := { handler with layer := ladderCodec }

theorem ladderCodec_lawful : Lawful ladderCodec where
  encode_of_parse := codec_lawful.encode_of_parse
  parse_of_encode := codec_lawful.parse_of_encode
  class_of_wire := by
    intro retentionClass bucket wire hw
    refine codec_lawful.class_of_wire (?_ : codec.retentionClassWire retentionClass bucket = _)
    simp only [ladderCodec] at hw
    split at hw
    · exact hw
    · exact hw
    · exact hw
    · split at hw
      · exact hw
      · cases hw
    · cases hw

theorem ladderCodec_checks : ParsersCheck ladderCodec where
  server {bytes attachment} h := by
    change parseAttachment bytes = _ at h
    unfold parseAttachment at h
    split at h
    · cases h
      trivial
    · cases h
      exact ⟨rfl, rfl, Nat.one_pos, .inl rfl⟩
    · cases h
      trivial
    · cases h
  digest hp := by cases hp

theorem parseSample_inline {bytes : Bytes} {record : Message.Record}
    (hp : parseSample bytes = some record) :
    record.header.sizeBucket = 0 ∧ record.header.blobId = none := by
  unfold parseSample at hp
  split at hp
  · cases hp
    exact ⟨rfl, rfl⟩
  · cases hp
    exact ⟨rfl, rfl⟩
  · cases hp

theorem ladderCodec_documented : Documented ladderCodec where
  sizeBucket hp := (parseSample_inline hp).1 ▸ Nat.zero_le _
  blobId hp _ := (parseSample_inline hp).2
  retentionClass {retentionClass bucket wire} hw := by
    simp only [ladderCodec] at hw
    split at hw
    · exact (Option.some.inj hw).symm
    · exact (Option.some.inj hw).symm
    · exact (Option.some.inj hw).symm
    · split at hw
      next hb => exact ⟨hb, (Option.some.inj hw).symm⟩
      · cases hw
    · cases hw
  attachment := ladderLayer_documented.attachment

def lateCommit : CheckedRecord := ⟨parsed 1 0 7 5, .epoch (epochAttachment 1)⟩

end Sample

open Sample

/-- A commit that comes an epoch late is told who won. -/
theorem new_record_verdict_late : ∃ result wire, (ladderCodecHandler.submit (fun _ => 0) 0
      (run ladderCodecHandler registry founding foundingOrder).shared
      (submission 1 0 7 5)).2 = ⟨.ok, [result]⟩ ∧
    result.reason = .commitLost ∧ result.currentEpoch = 1 ∧ result.winningCommit = some wire := by
  have hs : ladderCodecHandler.checkStaticShape (fun _ => 0)
      (submission 1 0 7 5).body = .ok ⟨[lateCommit], none⟩ :=
    checkStaticShape_eq_ok.mpr
      { groupId := rfl
        nonempty := by decide
        bounded := by decide
        shaped := by decide +kernel
        alone := by decide
        keys := rfl }
  have hst : ((run ladderCodecHandler registry founding
      foundingOrder).shared.store.groups (submission 1 0 7 5).body.groupId).map
        (fun g => (g.closed, g.currentEpoch, (g.claims ⟨Store.Sample.alice, 7⟩).isNone,
          (g.commits 0).isSome, decide ((g.epochs 0).bind (·.writeKey) = some (writeKey 0)))) =
      some (false, 1, true, true, true) := by decide +kernel
  obtain ⟨g, hg, hf⟩ := Option.map_eq_some_iff.mp hst
  simp only [Prod.mk.injEq, Option.isNone_iff_eq_none, Option.isSome_iff_exists,
    decide_eq_true_eq] at hf
  obtain ⟨ho, he, hn, ⟨winner, hw⟩, hk⟩ := hf
  have hv : lateCommit.verdict g = .refuse .commitLost 1 (some winner) := by
    unfold CheckedRecord.verdict
    have hcm : lateCommit.parsed.header.isCommit = true := rfl
    rw [if_neg (by rw [he]; decide), if_pos (by rw [he]; rfl), if_pos hcm, he]
    exact congrArg _ hw
  obtain ⟨columns, result, -, ha, ht, -⟩ := new_record_verdict ladderCodecHandler
    ladderCodec_documented ladderCodec_checks ladderCodec_lawful
    registry founding foundingOrder (fun _ => 0) 0
    (submission 1 0 7 5) g lateCommit none hg ho nofun rfl
    (fun _ => by decide) hs (by decide +kernel) (by decide +kernel) hn (by
      intro row key hrw hwr
      have hrw : g.epochs 0 = some row := hrw
      rw [hrw, Option.bind_some, hwr, Option.some.injEq] at hk
      subst hk
      decide +kernel)
  rw [hv] at ht
  obtain ⟨hr, hc, -, wire, hwi, -⟩ := ht
  exact ⟨result, wire, ha, hr, hc, hwi⟩

end Main

end MessageServer.Api
