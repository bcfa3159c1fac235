import MessageServer.Lib.Paging
import MessageServer.Store.Answers

/-! # Pages of a group's log

At a ceiling these rows are a prefix of the log that ends in the commit of the
ceiling's epoch, and a reader that follows the cursor from page to page is
served each of them once.
-/

namespace MessageServer.Store

open Interleaving Paging Sample

def RecordRow.id (row : RecordRow) : ℕ := row.record.recordId

/-- The rows a fetch may serve: at or below its ceiling, in a class of its mask. -/
def FetchRequest.wants (request : FetchRequest) (row : RecordRow) : Bool :=
  row.record.epoch ≤ request.readEpoch && classIncluded request.classMask row.record.retentionClass

section Page

variable (request : FetchRequest)

/-- The rows a fetch serves when its limit does not stop it. -/
def FetchRequest.served (rows : List RecordRow) : List RecordRow :=
  behind RecordRow.id request.wants request.sinceRecordId rows

/-- The page of a group's rows that a request asks for. -/
def FetchRequest.page (rows : List RecordRow) : FetchResult :=
  fetchPage request {
    records := []
    nextRecordId := request.sinceRecordId
    highWaterRecordId := highWaterRecordId request.readEpoch rows
    complete := true } rows

structure Serves (rows : List RecordRow) (before page : FetchResult) (n : ℕ) : Prop where
  le : n ≤ (request.served rows).length
  records : page.records =
    before.records ++ ((request.served rows).take n).map (·.read request.headsOnly)
  next : page.nextRecordId = next RecordRow.id before.nextRecordId ((request.served rows).take n)
  complete : n = (request.served rows).length ∧ page.complete = before.complete ∨
    n < (request.served rows).length ∧ page.complete = false ∧ request.limit ≠ 0 ∧
      (before.records.length + n) % 2 ^ 32 = request.limit

variable {request} {rows : List RecordRow} {row : RecordRow} {before page : FetchResult} {n : ℕ}

theorem Serves.skip (h : ¬ (request.wants row = true ∧ request.sinceRecordId < row.id))
    (hp : Serves request rows before page n) : Serves request (row :: rows) before page n := by
  have hs : request.served (row :: rows) = request.served rows := behind_cons_of_neg h
  refine ⟨?_, ?_, ?_, ?_⟩ <;> rw [hs]
  · exact hp.le
  · exact hp.records
  · exact hp.next
  · exact hp.complete

theorem Serves.serve (hw : request.wants row = true) (hc : request.sinceRecordId < row.id)
    (hp : Serves request rows
      { before with
        records := before.records ++ [row.read request.headsOnly]
        nextRecordId := row.id } page n) :
    Serves request (row :: rows) before page (n + 1) := by
  have hs : request.served (row :: rows) = row :: request.served rows := behind_cons_of_pos hw hc
  refine ⟨?_, ?_, ?_, ?_⟩ <;> rw [hs]
  · exact Nat.succ_le_succ hp.le
  · simpa using hp.records
  · rw [List.take_succ_cons, next_cons]
    exact hp.next
  · rcases hp.complete with ⟨hn, hd⟩ | ⟨hn, hd, hl, hln⟩
    · exact .inl ⟨by simp [hn], hd⟩
    · refine .inr ⟨by simpa using hn, hd, hl, ?_⟩
      simp only [List.length_append, List.length_singleton] at hln
      rw [← hln, Nat.add_assoc, Nat.add_comm 1 n]

/-- The loop of a fetch serves the rows it may, up to its limit. -/
theorem fetchPage_serves (request : FetchRequest) (rows : List RecordRow) (before : FetchResult) :
    ∃ n, Serves request rows before (fetchPage request before rows) n := by
  induction rows generalizing before with
  | nil => exact ⟨0, le_rfl, by simp [FetchRequest.served, behind, fetchPage], rfl, .inl ⟨rfl, rfl⟩⟩
  | cons row rows ih =>
    by_cases he : request.readEpoch < row.record.epoch
    · obtain ⟨n, hn⟩ := ih before
      refine ⟨n, ?_⟩
      rw [fetchPage, if_pos he]
      exact hn.skip fun h => by simp [FetchRequest.wants] at h; omega
    by_cases hc : row.record.recordId ≤ request.sinceRecordId
    · obtain ⟨n, hn⟩ := ih before
      refine ⟨n, ?_⟩
      rw [fetchPage, if_neg he, if_pos hc]
      exact hn.skip fun h => by simp [RecordRow.id] at h; omega
    by_cases hm : classIncluded request.classMask row.record.retentionClass = true
    · have hw : request.wants row = true := by simp [FetchRequest.wants, hm]; omega
      by_cases hl : request.limit ≠ 0 ∧ before.records.length % 2 ^ 32 = request.limit
      · have hs : request.served (row :: rows) = row :: request.served rows :=
          behind_cons_of_pos hw (not_le.mp hc)
        refine ⟨0, ?_⟩
        rw [fetchPage, if_neg he, if_neg hc, if_neg (not_not.mpr hm), if_pos hl]
        exact ⟨Nat.zero_le _, by simp, rfl, .inr ⟨by simp [hs], rfl, hl.1, hl.2⟩⟩
      · obtain ⟨n, hn⟩ := ih { before with
          records := before.records ++ [row.read request.headsOnly]
          nextRecordId := row.record.recordId }
        refine ⟨n + 1, ?_⟩
        rw [fetchPage, if_neg he, if_neg hc, if_neg (not_not.mpr hm), if_neg hl]
        exact hn.serve hw (not_le.mp hc)
    · obtain ⟨n, hn⟩ := ih before
      refine ⟨n, ?_⟩
      rw [fetchPage, if_neg he, if_neg hc, if_pos hm]
      exact hn.skip fun h => by simp [FetchRequest.wants, hm] at h

theorem fetch_eq_ok {s : MemoryStore} : fetch s request = .ok page ↔
    request.groupId.length = groupIdBytes ∧ ∃ g, s.groups request.groupId = some g ∧
      g.closed = false ∧ request.page g.records = page := by
  simp only [fetch, bind_eq_ok, checkLength, failIf_eq_ok, not_not, ne_eq]
  cases s.groups request.groupId with
  | none => simp
  | some g =>
    cases hc : g.closed with
    | true => simp [hc]
    | false => simp [hc, pure, Except.pure, FetchRequest.page]

@[simp] theorem page_highWaterRecordId : (request.page rows).highWaterRecordId =
    highWaterRecordId request.readEpoch rows :=
  fetchPage_highWaterRecordId ..

theorem page_of_complete (h : (request.page rows).complete = true) :
    (request.page rows).records = (request.served rows).map (·.read request.headsOnly) ∧
      (request.page rows).nextRecordId =
        next RecordRow.id request.sinceRecordId (request.served rows) := by
  obtain ⟨n, hn⟩ : ∃ n, Serves request rows _ (request.page rows) n := fetchPage_serves ..
  rcases hn.complete with ⟨rfl, -⟩ | ⟨-, hf, -⟩
  · exact ⟨by simpa using hn.records, by simpa using hn.next⟩
  · exact absurd (h.symm.trans hf) (by simp)

theorem page_of_incomplete (h : (request.page rows).complete = false) :
    ∃ n, 0 < n ∧ n < (request.served rows).length ∧ (request.page rows).records =
        ((request.served rows).take n).map (·.read request.headsOnly) ∧
      (request.page rows).nextRecordId =
        next RecordRow.id request.sinceRecordId ((request.served rows).take n) := by
  obtain ⟨n, hn⟩ : ∃ n, Serves request rows _ (request.page rows) n := fetchPage_serves ..
  rcases hn.complete with ⟨-, ht⟩ | ⟨hlt, -, hl, hln⟩
  · exact absurd (h.symm.trans ht) (by simp)
  · refine ⟨n, ?_, hlt, by simpa using hn.records, hn.next⟩
    by_contra hz
    obtain rfl : n = 0 := by omega
    exact hl hln.symm

theorem page_complete (rows : List RecordRow) (hl : request.limit = 0) :
    (request.page rows).complete = true := by
  obtain ⟨n, hn⟩ : ∃ n, Serves request rows _ (request.page rows) n := fetchPage_serves ..
  rcases hn.complete with ⟨-, hc⟩ | ⟨-, -, hne, -⟩
  · exact hc
  · exact absurd hl hne

theorem fetchPage_length_le (hl : request.limit ≠ 0) (ht : request.limit < 2 ^ 32)
    (hb : before.records.length ≤ request.limit) :
    (fetchPage request before rows).records.length ≤ request.limit := by
  induction rows generalizing before with
  | nil => exact hb
  | cons row rows ih =>
    unfold fetchPage
    split_ifs with _ _ _ hs
    · exact ih hb
    · exact ih hb
    · exact hb
    · have hne : before.records.length ≠ request.limit := fun he =>
        hs ⟨hl, by rw [he, Nat.mod_eq_of_lt ht]⟩
      exact ih (by simp; omega)
    · exact ih hb

/-- The rows on a page: those its request may be served, as many as its limit says. -/
def FetchRequest.paged (request : FetchRequest) (rows : List RecordRow) : List RecordRow :=
  if request.limit ≠ 0 then (request.served rows).take request.limit else request.served rows

/-- Where no counter of the loop wraps around, the page is given by what may be served. -/
theorem page_eq (ht : request.limit < 2 ^ 32) (hln : (request.served rows).length < 2 ^ 32) :
    request.page rows = {
      records := (request.paged rows).map (·.read request.headsOnly)
      nextRecordId := next RecordRow.id request.sinceRecordId (request.paged rows)
      highWaterRecordId := highWaterRecordId request.readEpoch rows
      complete := decide (request.limit = 0 ∨ (request.served rows).length ≤ request.limit) } := by
  obtain ⟨n, hn⟩ : ∃ n, Serves request rows _ (request.page rows) n := fetchPage_serves ..
  have hle : request.limit ≠ 0 → n ≤ request.limit := by
    intro hl
    have hb : (request.page rows).records.length ≤ request.limit :=
      fetchPage_length_le hl ht (Nat.zero_le _)
    have hr := congrArg List.length hn.records
    have hlt := hn.le
    simp only [List.nil_append, List.length_map, List.length_take] at hr
    omega
  have hw : (request.page rows).highWaterRecordId = highWaterRecordId request.readEpoch rows :=
    page_highWaterRecordId
  have hrc : (request.page rows).records =
      ((request.served rows).take n).map (·.read request.headsOnly) := hn.records
  have hnx : (request.page rows).nextRecordId =
      next RecordRow.id request.sinceRecordId ((request.served rows).take n) := hn.next
  rcases hn.complete with ⟨ha, hc⟩ | ⟨hlt, hc, hl, hm⟩
  · have hp : request.paged rows = (request.served rows).take n := by
      unfold FetchRequest.paged
      split_ifs with hl
      · rw [List.take_of_length_le (by have := hle hl; omega), List.take_of_length_le (by omega)]
      · rw [List.take_of_length_le (by omega)]
    have hd : decide (request.limit = 0 ∨ (request.served rows).length ≤ request.limit) = true := by
      simp only [decide_eq_true_eq]
      by_cases hl : request.limit = 0
      · exact .inl hl
      · have := hle hl
        omega
    rw [hp, hd, ← hw, ← hnx, ← hrc]
    change (request.page rows).complete = true at hc
    rw [← hc]
  · have hlm : n = request.limit := by
      simp only [List.length_nil, Nat.zero_add] at hm
      rw [← hm, Nat.mod_eq_of_lt (by omega)]
    have hp : request.paged rows = (request.served rows).take n := by
      rw [FetchRequest.paged, if_pos hl, hlm]
    have hd :
        decide (request.limit = 0 ∨ (request.served rows).length ≤ request.limit) = false := by
      simp only [decide_eq_false_iff_not]
      omega
    rw [hp, hd, ← hw, ← hnx, ← hrc, ← hc]

theorem lt_next_of_incomplete (hc : (request.page rows).complete = false) :
    request.sinceRecordId < (request.page rows).nextRecordId := by
  obtain ⟨n, hp, hlt, -, hnx⟩ := page_of_incomplete hc
  rw [hnx]
  obtain ⟨row, hl⟩ : ∃ row, ((request.served rows).take n).getLast? = some row := by
    refine Option.ne_none_iff_exists'.mp fun hn => ?_
    have hln := congrArg List.length (List.getLast?_eq_none_iff.mp hn)
    simp only [List.length_take, List.length_nil] at hln
    omega
  simp only [next, hl, Option.map_some, Option.getD_some]
  exact (mem_behind.mp (List.mem_of_mem_take (List.mem_of_getLast? hl))).2.2

end Page

section Ceiling

variable {cfg : Config} {g : MemoryGroup} {e : ℕ} {rows : List RecordRow}

theorem ids_below (hi : rows.map RecordRow.id = List.range' 1 rows.length)
    (he : rows.Pairwise fun a b => a.record.epoch ≤ b.record.epoch) :
    (rows.filter (·.record.epoch ≤ e)).map RecordRow.id =
      List.range' 1 (highWaterRecordId e rows) := by
  induction rows using List.reverseRecOn with
  | nil => rfl
  | append_singleton rows row ih =>
    rw [List.map_append, List.length_append, List.length_singleton, List.range'_concat] at hi
    obtain ⟨hrw, hro⟩ := List.append_inj' hi rfl
    obtain ⟨hep, -, hl⟩ := List.pairwise_append.mp he
    have hid : row.id = rows.length + 1 := by simpa [Nat.add_comm] using hro
    have hw : highWaterRecordId e (rows ++ [row]) =
        if e < row.record.epoch then highWaterRecordId e rows
        else max (highWaterRecordId e rows) row.id := by
      simp [highWaterRecordId, RecordRow.id]
    rw [hw, List.filter_append, List.map_append, ih hrw hep]
    split
    · rename_i hlt
      simp [not_le.mpr hlt]
    · rename_i hge
      have ha : rows.filter (·.record.epoch ≤ e) = rows := by
        refine List.filter_eq_self.mpr fun r hr => ?_
        have hr' := hl r hr row (by simp)
        simp
        omega
      have hln := congrArg List.length (ih hrw hep)
      rw [ha, List.length_map, List.length_range'] at hln
      rw [← hln, hid, Nat.max_eq_right (by omega), List.range'_concat]
      simp [not_lt.mp hge, hid, Nat.add_comm]

theorem GroupLog.ids_length (h : GroupLog cfg g) :
    g.records.map RecordRow.id = List.range' 1 g.records.length := by
  have hl := congrArg List.length h.ids
  rw [List.length_map, List.length_range'] at hl
  rw [hl]
  exact h.ids

theorem GroupLog.inOrder (h : GroupLog cfg g) : InOrder RecordRow.id g.records := by
  have hi := h.ids_length
  refine List.pairwise_map.mp ?_
  rw [hi]
  exact List.pairwise_lt_range'

theorem run_log_inOrder {ι : Type*} [DecidableEq ι] (cfg : Config) (requests : ι → Request)
    (sched : List (ι × Time)) (groupId : Bytes) :
    ((run cfg requests sched).shared.log groupId).Pairwise fun a b => a.recordId < b.recordId := by
  cases hg : (run cfg requests sched).shared.groups groupId with
  | none => simp [MemoryStore.log, hg]
  | some g =>
    rw [MemoryStore.log_of_group hg, List.pairwise_map]
    exact (run_sound cfg requests sched groupId g hg).groupLog.inOrder

theorem GroupLog.exists_highWater (h : GroupLog cfg g) (hp : 0 < highWaterRecordId e g.records) :
    ∃ row ∈ g.records, row.record.epoch ≤ e ∧ row.id = highWaterRecordId e g.records := by
  have hm : highWaterRecordId e g.records ∈
      (g.records.filter (·.record.epoch ≤ e)).map RecordRow.id := by
    rw [ids_below h.ids_length h.epochs, List.mem_range'_1]
    omega
  obtain ⟨row, hrw, hid⟩ := List.mem_map.mp hm
  obtain ⟨hr, he⟩ := List.mem_filter.mp hrw
  exact ⟨row, hr, by simpa using he, hid⟩

theorem GroupLog.getLast?_below (h : GroupLog cfg g) (he : e < g.currentEpoch) :
    ∃ c row, g.commits e = some c ∧ row.record = c.record ∧
      (g.records.filter (·.record.epoch ≤ e)).getLast? = some row := by
  obtain ⟨c, hc⟩ := (h.commits e).mpr he
  obtain ⟨-, row, hro, hrc, -, -, hre, hmx⟩ := h.commit e c hc
  have hm : row ∈ g.records.filter (·.record.epoch ≤ e) := List.mem_filter.mpr ⟨hro, by simp [hre]⟩
  have ho := (h.inOrder.and h.epochs).filter fun row => decide (row.record.epoch ≤ e)
  obtain ⟨last, hls⟩ : ∃ last, (g.records.filter (·.record.epoch ≤ e)).getLast? = some last :=
    Option.ne_none_iff_exists'.mp fun hn => by simp [List.getLast?_eq_none_iff.mp hn] at hm
  obtain ⟨rows, hrw⟩ := List.getLast?_eq_some_iff.mp hls
  obtain ⟨hl, hle⟩ := List.mem_filter.mp (List.mem_of_getLast? hls)
  rw [hrw] at hm ho
  rcases List.mem_append.mp hm with hr | hr
  · obtain ⟨hid, hep⟩ := (List.pairwise_append.mp ho).2.2 row hr last (by simp)
    have hle' : last.record.epoch ≤ e := by simpa using hle
    exact absurd (hmx last hl (by omega)) (not_le.mpr hid)
  · obtain rfl := List.mem_singleton.mp hr
    exact ⟨c, row, hc, hrc, hls⟩

/-- The page a reader at a ceiling gets when it asks for everything. -/
structure CeilingPage (g : MemoryGroup) (e : ℕ) (headsOnly : Bool) (page : FetchResult) : Prop where
  records : page.records = (g.records.filter (·.record.epoch ≤ e)).map (·.read headsOnly)
  ids : page.records.map (·.recordId) = List.range' 1 page.highWaterRecordId
  last : e < g.currentEpoch → ∃ (c : CommitRow) (row : RecordRow), g.commits e = some c ∧
    row.record = c.record ∧ page.records.getLast? = some (row.read headsOnly)

variable {request : FetchRequest}

theorem served_of_all (hm : request.classMask = 0) (hp : ∀ row ∈ rows,
    request.sinceRecordId < row.id) : request.served rows =
      rows.filter (·.record.epoch ≤ request.readEpoch) := by
  refine List.filter_congr fun row hr => ?_
  simp [FetchRequest.wants, classIncluded, hm, hp row hr]

theorem GroupLog.ceilingPage (h : GroupLog cfg g) (groupId : Bytes) (e : ℕ) (headsOnly : Bool) :
    CeilingPage g e headsOnly
      (FetchRequest.page ⟨groupId, 0, 0, headsOnly, 0, e⟩ g.records) := by
  have hp : ∀ row ∈ g.records, 0 < row.id := by
    intro row hrw
    have hm := List.mem_map_of_mem (f := RecordRow.id) hrw
    rw [h.ids_length, List.mem_range'_1] at hm
    omega
  have hl : FetchRequest.limit ⟨groupId, 0, 0, headsOnly, 0, e⟩ = 0 := rfl
  obtain ⟨hrc, -⟩ := page_of_complete (page_complete g.records hl)
  rw [served_of_all rfl hp] at hrc
  refine ⟨hrc, ?_, fun he => ?_⟩
  · rw [hrc, List.map_map, page_highWaterRecordId]
    exact ids_below h.ids_length h.epochs
  · obtain ⟨c, row, hc, hr, hls⟩ := h.getLast?_below he
    exact ⟨c, row, hc, hr, by rw [hrc, List.getLast?_map, hls]; rfl⟩

theorem GroupLog.next_of_complete (h : GroupLog cfg g) (hm : request.classMask = 0)
    (hc : (request.page g.records).complete = true) :
    (request.page g.records).nextRecordId =
      max request.sinceRecordId (highWaterRecordId request.readEpoch g.records) := by
  have hmm : ∀ row, row ∈ request.served g.records ↔ row ∈ g.records ∧
      row.record.epoch ≤ request.readEpoch ∧ request.sinceRecordId < row.id := by
    intro row
    simp [FetchRequest.served, mem_behind, FetchRequest.wants, classIncluded, hm]
  rw [(page_of_complete hc).2]
  refine le_antisymm ?_ (max_le ?_ ?_)
  · cases hl : (request.served g.records).getLast? with
    | none => simp [next, hl]
    | some row =>
      obtain ⟨hr, he, -⟩ := (hmm row).mp (List.mem_of_getLast? hl)
      simp only [next, hl, Option.map_some, Option.getD_some]
      exact (le_highWaterRecordId hr he).trans (le_max_right ..)
  · exact le_next fun row hrw => ((hmm row).mp hrw).2.2
  · by_contra hlt
    have hle : request.sinceRecordId ≤ next RecordRow.id request.sinceRecordId
        (request.served g.records) := le_next fun row hrw => ((hmm row).mp hrw).2.2
    obtain ⟨row, hr, he, hid⟩ := h.exists_highWater (e := request.readEpoch) (by omega)
    have hs := (hmm row).mpr ⟨hr, he, by omega⟩
    exact hlt (hid ▸ h.inOrder.behind.le_next request.sinceRecordId hs)

end Ceiling

section Walk

variable {cfg : Config} {ι : Type*} [DecidableEq ι] {requests : ι → Request}
  {request : FetchRequest} {sched last : List (ι × Time)} {since : ℕ} {records : List Record}

def FetchRequest.behind (request : FetchRequest) (since limit : ℕ) : FetchRequest :=
  { request with sinceRecordId := since, limit := limit }

/-- A reader follows the cursor until a page is complete; other calls may run between two pages. -/
inductive PageWalk (cfg : Config) (requests : ι → Request) (request : FetchRequest) :
    List (ι × Time) → ℕ → List Record → List (ι × Time) → Prop
  | last {sched : List (ι × Time)} {since : ℕ} {page : FetchResult} (limit : ℕ)
      (fetched : fetch (run cfg requests sched).shared (request.behind since limit) = .ok page)
      (complete : page.complete = true) :
      PageWalk cfg requests request sched since page.records sched
  | more {sched last : List (ι × Time)} {since : ℕ} {page : FetchResult} {records : List Record}
      (limit : ℕ) (between : List (ι × Time))
      (fetched : fetch (run cfg requests sched).shared (request.behind since limit) = .ok page)
      (incomplete : page.complete = false)
      (rest : PageWalk cfg requests request (sched ++ between) page.nextRecordId records last) :
      PageWalk cfg requests request sched since (page.records ++ records) last

theorem PageWalk.extends (w : PageWalk cfg requests request sched since records last) :
    ∃ later, last = sched ++ later := by
  induction w with
  | last => exact ⟨[], (List.append_nil _).symm⟩
  | more _ between _ _ _ ih =>
    obtain ⟨later, rfl⟩ := ih
    exact ⟨between ++ later, List.append_assoc ..⟩

theorem PageWalk.walk (w : PageWalk cfg requests request sched since records last) :
    ∃ g rows, (run cfg requests last).shared.groups request.groupId = some g ∧
      Walk RecordRow.id request.wants since rows g.records ∧
      records = rows.map (·.read request.headsOnly) := by
  induction w with
  | last limit fetched complete =>
    obtain ⟨-, g, hg, -, rfl⟩ := fetch_eq_ok.mp fetched
    exact ⟨g, _, hg, .last _ _, (page_of_complete complete).1⟩
  | @more sched last since page records limit between fetched incomplete rest ih =>
    obtain ⟨-, g, hg, -, rfl⟩ := fetch_eq_ok.mp fetched
    obtain ⟨n, -, -, hr, hn⟩ := page_of_incomplete incomplete
    obtain ⟨g', rows, hg', hw, rfl⟩ := ih
    obtain ⟨later, rfl⟩ := rest.extends
    rw [hn] at hw
    obtain ⟨g₁, hg₁, hgr⟩ := runFrom_grows each_sound_empty requests sched (between ++ later) _ g hg
    rw [← List.append_assoc] at hg₁
    obtain rfl := Option.some.inj (hg₁.symm.trans hg')
    refine ⟨g₁, _, hg', .more n hgr.records hw, ?_⟩
    rw [hr, List.map_append]
    rfl

theorem PageWalk.complete (w : PageWalk cfg requests request sched 0 records last) :
    ∃ g, (run cfg requests last).shared.groups request.groupId = some g ∧
      records = (g.records.filter request.wants).map (·.read request.headsOnly) ∧
      records.Pairwise fun a b => a.recordId < b.recordId := by
  obtain ⟨g, rows, hg, hw, rfl⟩ := w.walk
  have hl := (run_sound cfg requests last _ g hg).groupLog
  have hr : rows = g.records.filter request.wants := by
    rw [hw.served_eq hl.inOrder]
    refine List.filter_congr fun row hrw => ?_
    have hm := List.mem_map_of_mem (f := RecordRow.id) hrw
    rw [hl.ids_length, List.mem_range'_1] at hm
    simp
    omega
  refine ⟨g, hg, by rw [hr], List.pairwise_map.mpr ?_⟩
  rw [hr]
  exact List.Pairwise.filter _ hl.inOrder

end Walk

section Main

variable {ι : Type*} [DecidableEq ι]

/-- What the pages of a reader at a ceiling say and hold, and what a finished walk of them holds. -/
theorem pages_of_run (cfg : Config) (requests : ι → Request) (sched : List (ι × Time))
    (groupId : Bytes) (g : MemoryGroup)
    (hg : (run cfg requests sched).shared.groups groupId = some g) (ho : g.closed = false)
    (e : ℕ) (headsOnly : Bool) :
    (∃ page, fetch (run cfg requests sched).shared ⟨groupId, 0, 0, headsOnly, 0, e⟩ = .ok page ∧
      CeilingPage g e headsOnly page) ∧
    (∀ since limit mask, ∃ page,
      fetch (run cfg requests sched).shared ⟨groupId, since, limit, headsOnly, mask, e⟩ = .ok page ∧
      page.highWaterRecordId = highWaterRecordId e g.records ∧
      (page.complete = true → mask = 0 → page.nextRecordId = max since page.highWaterRecordId) ∧
      (page.complete = false → since < page.nextRecordId)) ∧
    (∀ mask records last,
      PageWalk cfg requests ⟨groupId, 0, 0, headsOnly, mask, e⟩ sched 0 records last →
      ∃ g', (run cfg requests last).shared.groups groupId = some g' ∧
        records = (g'.records.filter fun row => row.record.epoch ≤ e &&
          classIncluded mask row.record.retentionClass).map (·.read headsOnly) ∧
        records.Pairwise fun a b => a.recordId < b.recordId) := by
  have hl := (run_sound cfg requests sched groupId g hg).groupLog
  have hln := run_named cfg requests sched groupId g hg
  have hf : ∀ request : FetchRequest, request.groupId = groupId →
      fetch (run cfg requests sched).shared request = .ok (request.page g.records) := by
    rintro request rfl
    exact fetch_eq_ok.mpr ⟨hln, g, hg, ho, rfl⟩
  refine ⟨⟨_, hf _ rfl, hl.ceilingPage groupId e headsOnly⟩, ?_, ?_⟩
  · intro since limit mask
    refine ⟨_, hf _ rfl, page_highWaterRecordId, fun hc hm => ?_, lt_next_of_incomplete⟩
    rw [page_highWaterRecordId]
    exact hl.next_of_complete hm hc
  · intro mask records last w
    exact w.complete

/-- A page of one record, the commit that ends the epoch, and the page that serves the rest. -/
theorem pages_of_run_race : ∃ records g', PageWalk config race ⟨groupId, 0, 0, false, 0, 1⟩
      [(0, 0), (1, 1), (1, 2)] 0 records [(0, 0), (1, 1), (1, 2), (2, 3), (2, 4)] ∧
    (run config race [(0, 0), (1, 1), (1, 2), (2, 3), (2, 4)]).shared.groups
      groupId = some g' ∧
    records.map (·.recordId) = [1, 2, 3] ∧
    records = (g'.records.filter fun row => row.record.epoch ≤ 1 &&
      classIncluded 0 row.record.retentionClass).map (·.read false) := by
  have w : PageWalk config race ⟨groupId, 0, 0, false, 0, 1⟩
      [(0, 0), (1, 1), (1, 2)] 0 _ [(0, 0), (1, 1), (1, 2), (2, 3), (2, 4)] :=
    .more 1 [(2, 3), (2, 4)] rfl rfl (.last 5 rfl rfl)
  obtain ⟨g', hg', hr, -⟩ := (pages_of_run config race [(0, 0), (1, 1), (1, 2)]
    groupId _ rfl rfl 1 false).2.2 0 _ _ w
  exact ⟨_, g', w, hg', rfl, hr⟩

end Main

end MessageServer.Store
