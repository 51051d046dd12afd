import AlephCore.Web.ListingPages
import AlephCore.Web.MessageCursor

/-!
# MessageHashes — the listing of message hashes

Mirrors `get_message_hashes` of `web/handlers.rs`.  Its rows are sorted by time and, among those of one time, by hash,
and no two messages have one hash.  So the database has nothing left to choose, and the pages of the list follow one
another as long as the offset of the last one has 32 bits.
-/

namespace AlephCore.Web

open ProgE OffsetPages

/-- Query parameters; the parameters `status` and `hash_only` are not read. -/
structure MessageHashesQuery where
  /-- Page number, from 1 on. -/
  page : Option UInt32
  pagination : Option UInt32
  startDate : Option Timestamp
  endDate : Option Timestamp
  /-- 1 for ascending. -/
  sortOrder : Option Int

namespace MessageHashesQuery

def pageOf (q : MessageHashesQuery) : UInt32 := max (q.page.getD 1) 1

def rawPagination (q : MessageHashesQuery) : UInt32 := q.pagination.getD 20

def unlimited (q : MessageHashesQuery) : Bool := decide (q.rawPagination = 0)

def perPage (q : MessageHashesQuery) : UInt32 := if q.unlimited then 0 else min q.rawPagination 1000

def offset (q : MessageHashesQuery) : UInt32 := if q.unlimited then 0 else offsetOf q.pageOf q.perPage

def ascending (q : MessageHashesQuery) : Bool := decide (q.sortOrder = some 1)

end MessageHashesQuery

/-- The messages between the dates. -/
def matchingHashes (q : MessageHashesQuery) (n : Node) : List MessageRow :=
  n.messages.rows.filter fun r => q.startDate.all (fun start => decide (start ≤ r.time)) &&
    q.endDate.all fun stop => decide (r.time < stop)

/-- `ORDER BY time …, item_hash ASC`. -/
def byTimeAndHash (db : Messages.MessagesDb) (q : MessageHashesQuery) (r s : MessageRow) : Prop :=
  Messages.timeLe db q.ascending r s = true

instance (db : Messages.MessagesDb) (q : MessageHashesQuery) : DecidableRel (byTimeAndHash db q) := fun r s =>
  inferInstanceAs (Decidable (Messages.timeLe db q.ascending r s = true))

/-- The rows of a page, or all rows. -/
def hashPage (db : Messages.MessagesDb) (order : SqlOrder) (q : MessageHashesQuery) (n : Node) : List MessageRow :=
  if q.unlimited then (order.scan (matchingHashes q n)).insertionSort (byTimeAndHash db q)
  else sortedPage order (byTimeAndHash db q) q.perPage q.offset (matchingHashes q n)

/-- Get message hashes with optional date filters and pagination. -/
def getMessageHashes (db : Messages.MessagesDb) (order : SqlOrder) (q : MessageHashesQuery) :
    Db DbError (ListPage ItemHash) := do
  let total ← orDefault 0 (query fun n => (matchingHashes q n).length)
  let hashes ← orDefault [] (query fun n => (hashPage db order q n).map MessageRow.itemHash)
  pure ⟨hashes, total, q.pageOf, q.perPage⟩

variable {db : Messages.MessagesDb} {q : MessageHashesQuery} {n : Node}

/-! ## The order -/

theorem byTimeAndHash_total (r s : MessageRow) : byTimeAndHash db q r s ∨ byTimeAndHash db q s r := by
  unfold byTimeAndHash
  cases q.ascending with
  | true =>
    rw [Messages.timeLe_ascending, Messages.timeLe_ascending]
    rcases lt_trichotomy r.time s.time with hlt | heq | hlt
    · exact .inl ⟨hlt.le, .inl hlt⟩
    · exact (db.collation.total r.itemHash s.itemHash).imp (⟨heq.le, .inr ·⟩) (⟨heq.ge, .inr ·⟩)
    · exact .inr ⟨hlt.le, .inl hlt⟩
  | false =>
    rw [Messages.timeLe_descending, Messages.timeLe_descending]
    rcases lt_trichotomy r.time s.time with hlt | heq | hlt
    · exact .inr ⟨hlt.le, .inl hlt⟩
    · exact (db.collation.total r.itemHash s.itemHash).imp (⟨heq.ge, .inr ·⟩) (⟨heq.le, .inr ·⟩)
    · exact .inl ⟨hlt.le, .inl hlt⟩

theorem byTimeAndHash_trans (r s t : MessageRow) (hrs : byTimeAndHash db q r s) (hst : byTimeAndHash db q s t) :
    byTimeAndHash db q r t := by
  unfold byTimeAndHash at *
  cases hdir : q.ascending with
  | true =>
    rw [hdir, Messages.timeLe_ascending] at hrs hst
    rw [Messages.timeLe_ascending]
    refine ⟨hrs.1.trans hst.1, ?_⟩
    rcases hrs.2 with hlt | hle
    · exact .inl (hlt.trans_le hst.1)
    · exact hst.2.imp hrs.1.trans_lt (db.collation.trans _ _ _ hle)
  | false =>
    rw [hdir, Messages.timeLe_descending] at hrs hst
    rw [Messages.timeLe_descending]
    refine ⟨hst.1.trans hrs.1, ?_⟩
    rcases hrs.2 with hlt | hle
    · exact .inl (hst.1.trans_lt hlt)
    · exact hst.2.imp (·.trans_le hrs.1) (db.collation.trans _ _ _ hle)

/-- Rows that are tied have one hash. -/
theorem byTimeAndHash_antisymm {r s : MessageRow} (hrs : byTimeAndHash db q r s) (hsr : byTimeAndHash db q s r) :
    r.itemHash = s.itemHash := by
  unfold byTimeAndHash at *
  cases hdir : q.ascending with
  | true =>
    rw [hdir, Messages.timeLe_ascending] at hrs hsr
    exact db.collation.antisymm _ _ (hrs.2.resolve_left hsr.1.not_gt) (hsr.2.resolve_left hrs.1.not_gt)
  | false =>
    rw [hdir, Messages.timeLe_descending] at hrs hsr
    exact db.collation.antisymm _ _ (hrs.2.resolve_left hsr.1.not_gt) (hsr.2.resolve_left hrs.1.not_gt)

theorem hashes_nodup (q : MessageHashesQuery) (n : Node) :
    ((matchingHashes q n).map MessageRow.itemHash).Nodup :=
  n.messages.nodup.sublist (List.filter_sublist.map _)

def hashListing (db : Messages.MessagesDb) (q : MessageHashesQuery) (n : Node) : Listing MessageRow ItemHash :=
  .keyed (byTimeAndHash db q) byTimeAndHash_total byTimeAndHash_trans (hashes_nodup q n)

theorem hashListing_antisymm : ∀ r ∈ matchingHashes q n, ∀ s ∈ matchingHashes q n, byTimeAndHash db q r s →
    byTimeAndHash db q s r → r = s :=
  fun _ hr _ hs hrs hsr => List.inj_on_of_nodup_map (hashes_nodup q n) hr hs (byTimeAndHash_antisymm hrs hsr)

/-- The messages in the order of the list. -/
def sortedHashes (db : Messages.MessagesDb) (q : MessageHashesQuery) (n : Node) : List MessageRow :=
  (matchingHashes q n).insertionSort (byTimeAndHash db q)

/-- **The database has nothing to choose.** -/
theorem sort_scan (order : SqlOrder) :
    (order.scan (matchingHashes q n)).insertionSort (byTimeAndHash db q) = sortedHashes db q n := by
  have hanswer := answers_sort (hashListing db q n) (byTimeAndHash db q) (fun _ _ => Iff.rfl) order
  have hsorted := answers_sort (hashListing db q n) (byTimeAndHash db q) (fun _ _ => Iff.rfl) .stored
  refine List.Perm.eq_of_pairwise (fun r s hr hs hrs hsr => ?_) hanswer.sorted hsorted.sorted
    (hanswer.perm.trans hsorted.perm.symm)
  exact hashListing_antisymm r (hanswer.perm.mem_iff.1 hr) s (hsorted.perm.mem_iff.1 hs) hrs hsr

theorem length_sortedHashes : (sortedHashes db q n).length = (matchingHashes q n).length :=
  List.length_insertionSort _ _

/-! ## The pages -/

theorem run_getMessageHashes (order : SqlOrder) :
    (getMessageHashes db order q).run.run n =
      (.ok ⟨(hashPage db order q n).map MessageRow.itemHash, (matchingHashes q n).length, q.pageOf, q.perPage⟩, n) := by
  unfold getMessageHashes
  rw [run_bind_ok (run_orDefault 0 _ n), run_bind_ok (run_orDefault [] _ n)]
  rfl

/-- Without a limit all hashes come in one page. -/
theorem hashPage_unlimited (order : SqlOrder) (h : q.unlimited = true) :
    hashPage db order q n = sortedHashes db q n := by
  rw [hashPage, if_pos h, sort_scan]

theorem hashPage_limited (order : SqlOrder) (h : q.unlimited = false) :
    hashPage db order q n =
      page (((q.page.getD 1).toNat - 1) * q.perPage.toNat % 2 ^ 32) q.perPage.toNat (sortedHashes db q n) := by
  have hlimited : ¬ q.unlimited = true := by rw [h]; exact Bool.false_ne_true
  rw [hashPage, if_neg hlimited, sortedPage, sort_scan, MessageHashesQuery.offset, if_neg hlimited,
    MessageHashesQuery.pageOf, toNat_offsetOf_max]

theorem perPage_pos (h : q.unlimited = false) : 0 < q.perPage.toNat := by
  have hraw : q.rawPagination.toNat ≠ 0 := fun hzero => of_decide_eq_false h (UInt32.toNat_inj.1 hzero)
  rw [MessageHashesQuery.perPage, if_neg (by rw [h]; exact Bool.false_ne_true)]
  show 0 < (if q.rawPagination ≤ 1000 then q.rawPagination else 1000).toNat
  split_ifs
  · exact Nat.pos_of_ne_zero hraw
  · decide

/-- The pages 1 to `ceil(total / size)` are the list in its order, each with the total, whatever the database chooses at
each request. -/
def HashesListed (db : Messages.MessagesDb) (q : MessageHashesQuery) (n : Node) : Prop :=
  let total := (matchingHashes q n).length
  let count := (total + q.perPage.toNat - 1) / q.perPage.toNat
  count < 2 ^ 32 ∧ ∀ choice : ℕ → SqlOrder, ∃ pages : ℕ → ListPage ItemHash,
    (∀ i, i = 0 ∨ i < count →
      ((getMessageHashes db (choice i) { q with page := some (.ofNat (i + 1)) }).run.run n).1 = .ok (pages i) ∧
        (pages i).paginationTotal = total) ∧
    ((List.range count).flatMap fun i => (pages i).items) = (sortedHashes db q n).map MessageRow.itemHash

theorem HashesListed.listsOnce (h : HashesListed db q n) :
    ListsOnce (fun order p => getMessageHashes db order { q with page := some p }) id q.perPage.toNat
      ((matchingHashes q n).map MessageRow.itemHash) n := by
  unfold ListsOnce
  rw [List.length_map]
  refine ⟨h.1, fun choice => ?_⟩
  obtain ⟨pages, hpages, hitems⟩ := h.2 choice
  refine ⟨pages, hpages, ?_⟩
  simp only [List.map_id]
  rw [hitems]
  exact (List.perm_insertionSort _ _).map _

theorem lastPageFits_of_listsOnce (hlimited : q.unlimited = false)
    (h : ListsOnce (fun order p => getMessageHashes db order { q with page := some p }) id q.perPage.toNat
      ((matchingHashes q n).map MessageRow.itemHash) n) :
    LastPageFits (matchingHashes q n).length q.perPage.toNat := by
  have hdelivers : (hashListing db q n).pageCount q.perPage.toNat < 2 ^ 32 ∧
      (hashListing db q n).Delivers (fun _ => true) (fun i => i * q.perPage.toNat % 2 ^ 32) q.perPage.toNat := by
    refine (listsOnce_iff_delivers (hashListing db q n) (fun _ _ => sortedHashes db q n) (fun l hl => ?_)
      (fun _ _ => answers_sort (hashListing db q n) (byTimeAndHash db q) (fun _ _ => Iff.rfl) .stored)
      fun order p _ => ?_).1 h
    · obtain ⟨order, horder⟩ := exists_order (hashListing db q n) (byTimeAndHash db q) (fun _ _ => Iff.rfl) hl
      exact ⟨order, fun _ => (sort_scan order).symm.trans horder⟩
    · refine ⟨_, congrArg Prod.fst (run_getMessageHashes order), (List.length_map _).symm, ?_⟩
      rw [readAll_of_forall fun _ _ => rfl, List.map_id]
      exact congrArg (List.map MessageRow.itemHash) (hashPage_limited order hlimited)
  obtain ⟨hcount, hdelivers⟩ := hdelivers
  rw [Listing.delivers_of_readable fun _ _ => rfl,
    Listing.once_iff (perPage_pos hlimited) q.perPage.toNat_lt.le] at hdelivers
  have htotal : (hashListing db q n).targets.length = (matchingHashes q n).length := List.length_map _
  rw [Listing.pageCount, htotal] at hcount hdelivers
  exact ⟨hcount, hdelivers.1⟩

/-- **The pages are the list in its order** exactly if the number of the last page and its offset have 32 bits. -/
theorem hashesListed_iff (hlimited : q.unlimited = false) :
    HashesListed db q n ↔ LastPageFits (matchingHashes q n).length q.perPage.toNat := by
  refine ⟨fun h => lastPageFits_of_listsOnce hlimited h.listsOnce, fun ⟨hcount, hoffset⟩ => ⟨hcount, fun choice => ?_⟩⟩
  have hsize := perPage_pos hlimited
  refine ⟨fun i => ⟨(page (i * q.perPage.toNat) q.perPage.toNat (sortedHashes db q n)).map MessageRow.itemHash,
    (matchingHashes q n).length, max (.ofNat (i + 1)) 1, q.perPage⟩, fun i hi => ⟨?_, rfl⟩, ?_⟩
  · have hnumber : i + 1 < 2 ^ 32 := by omega
    have hle : i * q.perPage.toNat ≤
        (((matchingHashes q n).length + q.perPage.toNat - 1) / q.perPage.toNat - 1) * q.perPage.toNat :=
      Nat.mul_le_mul_right _ (by omega)
    have hexact : ((UInt32.ofNat (i + 1)).toNat - 1) * q.perPage.toNat % 2 ^ 32 = i * q.perPage.toNat := by
      rw [toNat_pageNumber hnumber, Nat.add_sub_cancel]
      exact Nat.mod_eq_of_lt (hle.trans_lt hoffset)
    let request : MessageHashesQuery := { q with page := some (.ofNat (i + 1)) }
    have hpage : hashPage db (choice i) request n =
        page (i * q.perPage.toNat) q.perPage.toNat (sortedHashes db q n) := by
      rw [← hexact]
      exact hashPage_limited (choice i) hlimited
    refine (congrArg Prod.fst (run_getMessageHashes (choice i))).trans ?_
    exact congrArg (fun rows : List MessageRow => Except.ok (⟨rows.map MessageRow.itemHash,
      (matchingHashes q n).length, max (.ofNat (i + 1)) 1, q.perPage⟩ : ListPage ItemHash)) hpage
  · have hall : (sortedHashes db q n).length ≤
        ((matchingHashes q n).length + q.perPage.toNat - 1) / q.perPage.toNat * q.perPage.toNat := by
      have htotal : (hashListing db q n).targets.length = (matchingHashes q n).length := List.length_map _
      have hcover := le_pageCount_mul (L := hashListing db q n) hsize
      rw [length_sortedHashes]
      rwa [Listing.pageCount, htotal] at hcover
    rw [← List.map_flatMap, flatMap_page, List.take_of_length_le hall]

/-- Pages of two hashes, from the latest message on. -/
def twoHashes : MessageHashesQuery := ⟨none, some 2, none, none, none⟩

/-- Two messages of one second are on different pages, and each comes once. -/
theorem twoHashes_listed :
    (sortedHashes Messages.sampleDb twoHashes Messages.sampleNode).map MessageRow.itemHash = ["Qm", "Qm_a", "Qm_b"] ∧
      HashesListed Messages.sampleDb twoHashes Messages.sampleNode :=
  ⟨by decide +kernel, (hashesListed_iff (by decide)).2 (by decide +kernel)⟩

end AlephCore.Web
