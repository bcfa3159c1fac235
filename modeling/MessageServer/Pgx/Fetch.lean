import Mathlib.Data.List.Forall2
import Mathlib.Data.Nat.Bitwise
import MessageServer.Pgx.Reads
import MessageServer.Store.Pages

/-! # Both fetches read one table alike

A row of the log and its copy in memory are compared without the keys of an
epoch attachment. The condition of the statement holds of a row exactly when
the loop in memory serves its copy, so the two pages agree on every table,
whatever order its epochs are in.
-/

namespace MessageServer.Pgx

open Store Transaction Paging

def withoutKeys (attachment : Attachment) : Attachment :=
  { attachment with
    epoch := attachment.epoch.map fun epoch => { epoch with writeKey := none, readKey := none } }

def bare (record : Record) : Record :=
  { record with attachment := record.attachment.map withoutKeys }

def barePage (page : FetchResult) : FetchResult := { page with records := page.records.map bare }

/-- A row of `message_record` reads as what a row in memory holds, apart from keys. -/
def Copies (ring : KekRing) (groupId : Bytes) (d : Database) (stored : ℤ × MessageRecord)
    (row : RecordRow) : Prop :=
  ∃ record, readRow ring groupId d stored.1 stored.2 = .ok record ∧
    bare record = bare (row.read false)

/-- A group in memory and its tables are open alike and hold the same log, apart from keys. -/
structure SameLog (ring : KekRing) (groupId : Bytes) (d : Database) (g : MemoryGroup) : Prop where
  state : ∃ row : MessageGroup, d.lookup (.group groupId) = some row ∧ row.closed = g.closed
  rows : List.Forall₂ (Copies ring groupId d) (recordRows d groupId) g.records

/-- A stored row of the log: it passes the CHECKs and is numbered from one on. -/
def StoredRow (groupId : Bytes) (stored : ℤ × MessageRecord) : Prop :=
  admits (.record groupId stored.1) stored.2 = true ∧ 1 ≤ stored.1 ∧ 0 ≤ stored.2.epoch

section Rows

variable {d : Database} {groupId : Bytes} {id : ℤ} {row : MessageRecord}

theorem mem_recordIds : id ∈ recordIds d groupId ↔ Key.record groupId id ∈ d := by
  simp only [recordIds, Finset.mem_sort, Finset.mem_filterMap, Finmap.mem_keys, recordIdOf_eq_some]
  exact ⟨fun ⟨_, hk, he⟩ => he ▸ hk, fun h => ⟨_, h, rfl⟩⟩

theorem mem_recordRows :
    (id, row) ∈ recordRows d groupId ↔ d.lookup (.record groupId id) = some row := by
  simp only [recordRows, List.mem_filterMap, mem_recordIds, Option.map_eq_some_iff, Prod.mk.injEq]
  constructor
  · rintro ⟨_, -, row', hr, rfl, rfl⟩
    exact hr
  · intro h
    exact ⟨id, Finmap.mem_iff.mpr ⟨row, h⟩, row, h, rfl, rfl⟩

theorem recordRows_pairwise (d : Database) (groupId : Bytes) :
    (recordRows d groupId).Pairwise fun a b => a.1 < b.1 := by
  have hi : (recordIds d groupId).Pairwise (· < ·) := (Finset.sortedLT_sort _).pairwise
  refine List.Pairwise.filterMap _ (fun a b hab c hc c' hc' => ?_) hi
  obtain ⟨_, -, rfl⟩ := Option.map_eq_some_iff.mp hc
  obtain ⟨_, -, rfl⟩ := Option.map_eq_some_iff.mp hc'
  exact hab

theorem recordRows_eq {rows : List (ℤ × MessageRecord)} (ho : rows.Pairwise fun a b => a.1 < b.1)
    (hm : ∀ id row, (id, row) ∈ rows ↔ d.lookup (.record groupId id) = some row) :
    recordRows d groupId = rows := by
  have hlt := recordRows_pairwise d groupId
  have hp : (recordRows d groupId).Perm rows := by
    refine (List.perm_ext_iff_of_nodup (hlt.imp ?_) (ho.imp ?_)).mpr fun row => ?_
    · rintro a b hab rfl
      exact lt_irrefl _ hab
    · rintro a b hab rfl
      exact lt_irrefl _ hab
    · rw [hm, ← mem_recordRows]
  exact hp.eq_of_pairwise (fun a b _ _ hab hba => absurd hab hba.not_gt) hlt ho

end Rows

section Served

variable {ring : KekRing} {groupId : Bytes} {d : Database} {row : RecordRow}
  {stored : ℤ × MessageRecord} {request : FetchRequest}

theorem StoredRow.range (h : StoredRow groupId stored) :
    1 ≤ stored.1 ∧ stored.1 ≤ 9223372036854775807 ∧
      0 ≤ stored.2.epoch ∧ stored.2.epoch ≤ 9223372036854775807 ∧
      0 ≤ stored.2.retentionClass ∧ stored.2.retentionClass ≤ 21 := by
  obtain ⟨ha, hid, he⟩ := h
  simp only [admits, MessageRecord.admitted, isBigint, Bool.and_eq_true, Bool.or_eq_true,
    decide_eq_true_eq] at ha
  omega

theorem Copies.columns (h : Copies ring groupId d stored row) (hs : StoredRow groupId stored) :
    (row.id : ℤ) = stored.1 ∧ (row.record.epoch : ℤ) = stored.2.epoch ∧
      (row.record.retentionClass : ℤ) = stored.2.retentionClass := by
  obtain ⟨record, hrd, hb⟩ := h
  obtain ⟨hid, hid', he, he', hc, hc'⟩ := hs.range
  have hcl : record.recordId = uint64 stored.1 ∧ record.epoch = uint64 stored.2.epoch ∧
      record.retentionClass = uint8 stored.2.retentionClass := by
    simp only [readRow, recordOf, bind, Except.bind] at hrd
    split at hrd
    · cases hrd
    · cases hrd
      exact ⟨rfl, rfl, rfl⟩
  rw [uint64_of_nonneg (by omega) (by omega), uint64_of_nonneg he (by omega),
    uint8_of_nonneg hc (by omega)] at hcl
  have hr : record.recordId = row.id := (congrArg Record.recordId hb :)
  have hre : record.epoch = row.record.epoch := (congrArg Record.epoch hb :)
  have hrc : record.retentionClass = row.record.retentionClass :=
    (congrArg Record.retentionClass hb :)
  omega

theorem classIncluded_iff (mask n : ℕ) :
    classIncluded mask n = (mask == 0 || mask &&& 1 <<< n != 0) := by
  rw [classIncluded, Nat.one_shiftLeft, Nat.and_two_pow]
  cases mask.testBit n <;> simp

theorem Copies.includes (h : Copies ring groupId d stored row) (hs : StoredRow groupId stored) :
    (fetchArgs request).includes stored =
      (request.wants row && decide (request.sinceRecordId < row.id)) := by
  obtain ⟨hid, he, hc⟩ := h.columns hs
  obtain ⟨-, hid', -, he', -⟩ := hs.range
  have hsn : (fetchArgs request).since < stored.1 ↔ request.sinceRecordId < row.id := by
    simp only [fetchArgs, maxInt64]
    omega
  have hce : stored.2.epoch ≤ (fetchArgs request).ceiling ↔
      row.record.epoch ≤ request.readEpoch := by
    simp only [fetchArgs, maxInt64]
    omega
  have hcl : stored.2.retentionClass.toNat = row.record.retentionClass := by omega
  have hm : (fetchArgs request).classMask = request.classMask := rfl
  simp only [FetchArgs.includes, FetchRequest.wants, hsn, hce, hcl, hm, classIncluded_iff]
  cases decide (request.sinceRecordId < row.id) <;> simp

end Served

section Page

variable {ring : KekRing} {groupId : Bytes} {d : Database} {rows : List RecordRow}
  {table : List (ℤ × MessageRecord)} {request : FetchRequest}

def Paired (ring : KekRing) (groupId : Bytes) (d : Database) (stored : ℤ × MessageRecord)
    (row : RecordRow) : Prop :=
  StoredRow groupId stored ∧ Copies ring groupId d stored row

theorem highWaterRecordId_le {e n : ℕ} (h : ∀ row ∈ rows, row.record.epoch ≤ e → row.id ≤ n) :
    highWaterRecordId e rows ≤ n := by
  induction rows using List.reverseRecOn with
  | nil => exact Nat.zero_le _
  | append_singleton rows last ih =>
    have hle := ih fun row hr => h row (by simp [hr])
    unfold highWaterRecordId at hle ⊢
    rw [List.foldl_append, List.foldl_cons, List.foldl_nil]
    split
    · exact hle
    · exact max_le hle (h last (by simp) (by omega))

theorem ids_under_ceiling (h : List.Forall₂ (Paired ring groupId d) table rows) :
    (table.filter fun row => row.2.epoch ≤ (fetchArgs request).ceiling).map (·.1) =
      (rows.filter (·.record.epoch ≤ request.readEpoch)).map fun row => (row.id : ℤ) := by
  induction h with
  | nil => rfl
  | @cons stored row table rows hp _ ih =>
    obtain ⟨hid, he, -⟩ := hp.2.columns hp.1
    obtain ⟨-, -, -, he', -⟩ := hp.1.range
    have hi : stored.2.epoch ≤ (fetchArgs request).ceiling ↔
        row.record.epoch ≤ request.readEpoch := by
      simp only [fetchArgs, maxInt64]
      omega
    by_cases hc : row.record.epoch ≤ request.readEpoch
    · rw [List.filter_cons_of_pos (by simpa using hi.mpr hc),
        List.filter_cons_of_pos (by simpa using hc), List.map_cons, List.map_cons, ih, hid]
    · rw [List.filter_cons_of_neg (by simpa using mt hi.mp hc),
        List.filter_cons_of_neg (by simpa using hc), ih]

theorem highWater_eq (h : List.Forall₂ (Paired ring groupId d) table rows) :
    (maxColumn ((table.filter fun row => row.2.epoch ≤ (fetchArgs request).ceiling).map
      (·.1))).elim 0 uint64 = highWaterRecordId request.readEpoch rows := by
  cases hm : maxColumn ((table.filter fun row => row.2.epoch ≤ (fetchArgs request).ceiling).map
      (·.1)) with
  | none =>
    have hn := List.max?_eq_none_iff.mp hm
    rw [ids_under_ceiling h] at hn
    refine (Nat.le_zero.mp (highWaterRecordId_le fun row hrw he => ?_)).symm
    have := List.filter_eq_nil_iff.mp (List.map_eq_nil_iff.mp hn) row hrw
    exact absurd he (by simpa using this)
  | some m =>
    obtain ⟨hmm, hmx⟩ := List.max?_eq_some_iff.mp hm
    obtain ⟨stored, hst, rfl⟩ := List.mem_map.mp hmm
    rw [ids_under_ceiling h] at hmm hmx
    obtain ⟨row, hrw, hid⟩ := List.mem_map.mp hmm
    obtain ⟨hr, he⟩ := List.mem_filter.mp hrw
    obtain ⟨-, hlt, -⟩ := ((List.forall₂_and_left ..).mp h).1 stored
      (List.mem_of_mem_filter hst) |>.range
    rw [Option.elim_some, uint64_of_nonneg (by omega) (by omega)]
    refine le_antisymm ?_ (highWaterRecordId_le fun row' hrw' he' => ?_)
    · have := le_highWaterRecordId hr (by simpa using he)
      simp only [RecordRow.id] at hid
      omega
    · have := hmx row'.id (List.mem_map.mpr ⟨row', List.mem_filter.mpr ⟨hrw', by simpa using he'⟩,
        rfl⟩)
      omega

theorem served_paired (h : List.Forall₂ (Paired ring groupId d) table rows) :
    List.Forall₂ (Paired ring groupId d) (table.filter (fetchArgs request).includes)
      (request.served rows) := by
  refine List.rel_filter (fun stored row hp => ?_) h
  exact Bool.eq_iff_iff.mp (hp.2.includes hp.1)

theorem readRow_recordColumns (id : ℤ) (headsOnly : Bool) (row : MessageRecord) :
    readRow ring groupId d id (recordColumns headsOnly row) =
      (readRow ring groupId d id row).map fun record =>
        { record with ctBody := if headsOnly then none else record.ctBody } := by
  simp only [readRow, recordOf, recordColumns, bind, Except.bind]
  cases attachmentOf ring groupId row.attachment (joinedEpoch groupId d row.attachment).1
    (joinedEpoch groupId d row.attachment).2 <;> rfl

theorem exists_page (h : List.Forall₂ (Paired ring groupId d) table rows) (headsOnly : Bool) :
    ∃ records, (table.map fun row => (row.1, recordColumns headsOnly row.2)).mapM
        (fun row => readRow ring groupId d row.1 row.2) = .ok records ∧
      records.map bare = rows.map fun row => bare (row.read headsOnly) := by
  induction h with
  | nil => exact ⟨[], rfl, rfl⟩
  | @cons stored row table rows hp _ ih =>
    obtain ⟨-, record, hr, hb⟩ := hp
    obtain ⟨records, hrc, hm⟩ := ih
    refine ⟨{ record with ctBody := if headsOnly then none else record.ctBody } :: records, ?_, ?_⟩
    · rw [List.map_cons, List.mapM_cons, hrc, readRow_recordColumns, hr]
      rfl
    · rw [List.map_cons, List.map_cons, hm]
      congr 1
      cases headsOnly with
      | true => exact congrArg (fun r : Record => { r with ctBody := none }) hb
      | false => exact hb

variable {state : MessageGroup}

theorem fetchQuery_open (hg : d.lookup (.group groupId) = some state) (ho : state.closed = false)
    (args : FetchArgs) (headsOnly : Bool) :
    (fetchQuery args headsOnly d groupId).filterMap (·.2) =
        (args.page (recordRows d groupId)).map (fun row => (row.1, recordColumns headsOnly row.2)) ∧
      (fetchQuery args headsOnly d groupId).head?.map (·.1) =
        some (maxColumn (((recordRows d groupId).filter fun row =>
          row.2.epoch ≤ args.ceiling).map (·.1))) := by
  simp only [fetchQuery, hg, ho]
  cases args.page (recordRows d groupId) with
  | nil => simp
  | cons row page => simp [List.filterMap_map]

theorem page_paired (h : List.Forall₂ (Paired ring groupId d) table rows) (request : FetchRequest) :
    List.Forall₂ (Paired ring groupId d) ((fetchArgs request).page table)
      (if request.limit ≠ 0 then (request.served rows).take (request.limit + 1)
        else request.served rows) := by
  unfold FetchArgs.page
  by_cases hl : request.limit ≠ 0
  · simp only [fetchArgs, if_pos hl]
    exact List.forall₂_take _ (served_paired h)
  · simp only [fetchArgs, if_neg hl]
    exact served_paired h

variable {records : List Record} {store : PgxStore}

theorem elim_getLast? {page : List RecordRow} {headsOnly : Bool}
    (h : records.map bare = page.map fun row => bare (row.read headsOnly)) (since : ℕ) :
    records.getLast?.elim since (·.recordId) = next RecordRow.id since page := by
  have hl := congrArg (fun rs => rs.getLast?.map Record.recordId) h
  simp only [List.getLast?_map, Option.map_map] at hl
  change records.getLast?.map Record.recordId = page.getLast?.map RecordRow.id at hl
  rw [next, ← hl]
  cases records.getLast? <;> rfl

theorem barePage_pageOf {highWater : Option ℤ} (ht : request.limit < 2 ^ 32)
    (hln : (request.served rows).length < 2 ^ 32)
    (hr : records.map bare = (if request.limit ≠ 0 then (request.served rows).take
      (request.limit + 1) else request.served rows).map
        fun row => bare (row.read request.headsOnly))
    (hw : highWater.elim 0 uint64 = highWaterRecordId request.readEpoch rows) :
    barePage (pageOf request highWater records) = barePage (request.page rows) := by
  have hl := congrArg List.length hr
  have hc : decide (request.limit ≠ 0 ∧ request.limit < records.length % 2 ^ 32) =
      !decide (request.limit = 0 ∨ (request.served rows).length ≤ request.limit) := by
    rw [← decide_not, decide_eq_decide, not_or, not_le]
    refine and_congr_right fun h0 => ?_
    rw [if_pos h0, List.length_map, List.length_map, List.length_take] at hl
    rw [hl, Nat.mod_eq_of_lt (by omega)]
    omega
  have hrw : ((if decide (request.limit ≠ 0 ∧ request.limit < records.length % 2 ^ 32) = true then
      records.take request.limit else records).map bare) =
      (request.paged rows).map fun row => bare (row.read request.headsOnly) := by
    rw [hc, FetchRequest.paged]
    by_cases h0 : request.limit = 0
    · simpa [h0] using hr
    · rw [if_pos h0] at hr ⊢
      by_cases hle : (request.served rows).length ≤ request.limit
      · rw [List.take_of_length_le (show (request.served rows).length ≤ request.limit + 1 by
          omega)] at hr
        rw [List.take_of_length_le hle, ← hr]
        simp [hle]
      · simp only [h0, hle, or_self, decide_false, Bool.not_false, if_true]
        rw [List.map_take, hr, ← List.map_take, List.take_take,
          Nat.min_eq_left (Nat.le_succ request.limit)]
  rw [page_eq ht hln]
  simp only [barePage, pageOf, elim_getLast? hrw, hrw, hw, List.map_map, Function.comp_def]
  rw [hc, Bool.not_not]

theorem fetchResult_open (hg : d.lookup (.group request.groupId) = some state)
    (ho : state.closed = false)
    (h : List.Forall₂ (Paired store.keys request.groupId d) (recordRows d request.groupId) rows)
    (hc : rows.length < 2 ^ 32) (ht : request.limit < 2 ^ 32) :
    ∃ page, fetchResult store request d = .ok page ∧
      barePage page = barePage (request.page rows) := by
  obtain ⟨hp, hh⟩ := fetchQuery_open hg ho (fetchArgs request) request.headsOnly
  obtain ⟨records, hm, hb⟩ := exists_page (page_paired h request) request.headsOnly
  obtain ⟨⟨hi, first⟩, hhd, hh⟩ := Option.map_eq_some_iff.mp hh
  have hs : (request.served rows).length < 2 ^ 32 := (List.length_filter_le ..).trans_lt hc
  refine ⟨pageOf request hi records, ?_, barePage_pageOf ht hs hb ?_⟩
  · simp only [fetchResult, hp, hm, hhd, bind, Except.bind, pure, Except.pure]
  · change hi = _ at hh
    rw [hh]
    exact highWater_eq h

theorem fetchResult_unavailable
    (h : ∀ state : MessageGroup, d.lookup (.group request.groupId) = some state →
      state.closed = true) :
    fetchResult store request d = .error (.store .groupUnavailable) := by
  have hq : fetchQuery (fetchArgs request) request.headsOnly d request.groupId = [] := by
    unfold fetchQuery
    split
    · rfl
    · rename_i state hs
      rw [if_pos (h state hs)]
  simp only [fetchResult, hq]
  rfl

/-- A database and a store that hold the same group, keys aside, answer every fetch alike. -/
theorem fetch_agrees (store : PgxStore) (d : Database) (s : MemoryStore) (request : FetchRequest)
    (hsame : (s.groups request.groupId = none ∧ d.lookup (.group request.groupId) = none) ∨
      ∃ g, s.groups request.groupId = some g ∧ SameLog store.keys request.groupId d g)
    (hrows : ∀ stored ∈ recordRows d request.groupId, StoredRow request.groupId stored)
    (hcount : (recordRows d request.groupId).length < 2 ^ 32) (hlimit : request.limit < 2 ^ 32) :
    (fetch store d request).map barePage =
      ((Store.fetch s request).mapError Error.store).map barePage := by
  unfold fetch Store.fetch
  cases checkLength request.groupId groupIdBytes with
  | error e => rfl
  | ok u =>
    rcases hsame with ⟨hs, hd⟩ | ⟨g, hs, ⟨state, hst, hcl⟩, hl⟩
    · rw [fetchResult_unavailable fun state hst => by cases hd.symm.trans hst]
      simp [hs, Except.mapError, Except.map]
    · cases hc : g.closed with
      | true =>
        have ha : ∀ row : MessageGroup, d.lookup (.group request.groupId) = some row →
            row.closed = true := fun row hr => by
          cases hst.symm.trans hr
          rw [hcl, hc]
        rw [fetchResult_unavailable ha]
        simp [hs, hc, Except.mapError, Except.map]
      | false =>
        obtain ⟨page, hp, hb⟩ := fetchResult_open hst (hcl.trans hc)
          ((List.forall₂_and_left ..).mpr ⟨hrows, hl⟩) (hl.length_eq ▸ hcount) hlimit
        simp only [hp, hs, hc, Except.map, hb]
        rfl

end Page

namespace Sample

open Store.Sample

def stored (epoch : ℤ) : MessageRecord where
  senderHandle := alice
  epoch := epoch
  streamIndex := 5
  isCommit := false
  retentionClass := 0
  ephWindow := 0
  sizeBucket := 0
  expireAt := none
  pruneAfter := none
  policyVersion := 1
  bodyHash := sha256 []
  ctHead := [1]
  ctBody := some []
  blobId := none
  serverAttachment := []
  createTime := 0
  attachment := { kind := 0 }

def groupRow : MessageGroup where
  createTime := 0
  currentEpoch := 1
  nextRecordId := 3
  mediaTtlSeconds := 1
  durableTtlSeconds := none
  groupContextHash := none
  policyVersion := 1
  epochComplete := true
  closed := false
  closeTime := none

def falling : Database :=
  ((Finmap.singleton (Key.group groupId) groupRow).insert (.record groupId 1) (stored 3)).insert
    (.record groupId 2) (stored 1)

def fallingRows : List RecordRow :=
  [⟨{ record alice 3 5 none with recordId := 1 }, none, 0, 1⟩,
    ⟨{ record alice 1 5 none with recordId := 2 }, none, 0, 1⟩]

def fallingGroup : MemoryGroup where
  groupId := groupId
  createTime := 0
  currentEpoch := 1
  nextRecordId := 3
  mediaTtlSeconds := 1
  durableTtlSeconds := none
  policyVersion := 1
  epochComplete := true
  groupContextHash := none
  closed := false
  closeTime := none
  records := fallingRows
  claims := fun _ => none
  commits := fun _ => none
  senders := fun _ => none
  epochs := fun _ => none
  recovery := fun _ => none

def pgxStore : PgxStore := { config with keys := ⟨0, fun _ => none⟩ }

theorem recordRows_falling : recordRows falling groupId = [(1, stored 3), (2, stored 1)] := by
  refine recordRows_eq (by simp) fun id row => ?_
  by_cases h2 : id = 2
  · subst h2
    simp [falling, eq_comm]
  · rw [falling, Finmap.lookup_insert_of_ne _ (by simp [h2])]
    by_cases h1 : id = 1
    · subst h1
      simp [eq_comm]
    · rw [Finmap.lookup_insert_of_ne _ (by simp [h1]), Finmap.lookup_eq_none.mpr (by simp)]
      simp [h1, h2]

theorem sameLog_falling : SameLog pgxStore.keys groupId falling fallingGroup where
  state := ⟨groupRow, by simp [falling, Finmap.lookup_insert_of_ne], rfl⟩
  rows := by
    rw [recordRows_falling]
    exact .cons ⟨_, rfl, rfl⟩ (.cons ⟨_, rfl, rfl⟩ .nil)

def ceilingTwo : FetchRequest := ⟨groupId, 0, 1, false, 0, 2⟩

end Sample

open Sample

theorem fetch_agrees_falling : (fetch pgxStore falling ceilingTwo).map barePage =
      ((Store.fetch ⟨fun _ => some fallingGroup⟩ ceilingTwo).mapError
        Error.store).map barePage := by
  refine fetch_agrees _ _ _ _ (.inr ⟨_, rfl, sameLog_falling⟩) ?_ ?_ (by decide)
  · change ∀ stored ∈ recordRows falling Store.Sample.groupId, StoredRow Store.Sample.groupId stored
    rw [recordRows_falling]
    simp only [List.forall_mem_cons]
    exact ⟨⟨by decide, by decide, by decide⟩, ⟨by decide, by decide, by decide⟩, by simp⟩
  · change (recordRows falling Store.Sample.groupId).length < 2 ^ 32
    rw [recordRows_falling]
    decide

end MessageServer.Pgx
