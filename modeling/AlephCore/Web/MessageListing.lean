import AlephCore.Web.Messages
import Mathlib.Data.List.Nodup

/-!
# MessageListing — what a page of messages holds

A message matches a request if it meets each of its filters.  The conditions of both queries say just that, so a page
holds the rows it should and the total counts the matching messages, unless a query is refused, the page lies behind the
last message or its offset overflows.
-/

namespace AlephCore.Web.Messages

open ProgE

variable (db : MessagesDb) (q : MessageQuery) (n : Node)

/-! ## Messages that match -/

/-- A filter without values allows everything, one with values the texts among them. -/
def Allows (values : List String) (column : Option String) : Prop := values = [] ∨ ∃ text ∈ column, text ∈ values

/-- The JSON value has one of the keys; it has all of none. -/
def HasKey (keys : List String) (value : Option Json) : Prop :=
  keys = [] ∨ ∃ json ∈ value, ∃ key ∈ keys, existsKey key json = true

/-- The message meets each filter. -/
structure Matches (r : MessageRow) : Prop where
  processed : includeProcessed db q = true
  notForgotten : includeForgotten db q = true ∨ ∀ f ∈ n.forgottenMessages, f.itemHash ≠ r.itemHash
  address : Allows (values q.addresses) (some r.sender)
  messageType : Allows ((values (q.messageType.or q.messageTypes)).map db.toUppercase) (some r.messageType.toString)
  channel : Allows (values q.channels) r.channel
  hash : Allows (values q.hashes) (some r.itemHash)
  chain : Allows (values q.chains) (some r.chain.toString)
  ref_ : Allows (values q.refs) r.contentRef
  tag : HasKey (values q.tags) ((contentField db r).bind (·.get? "tags"))
  contentType : Allows (values q.contentTypes) r.contentType
  contentHash : Allows (values q.contentHashes) r.contentItemHash
  owner : Allows (values q.owners) r.owner
  contentKey : HasKey (values q.contentKeys) (contentField db r)
  paymentType : Allows ((values q.paymentTypes).map db.toLowercase) r.paymentType
  startDate : ∀ start ∈ q.startDate, start ≤ r.time
  endDate : ∀ stop ∈ q.endDate, r.time < stop
  blocks : (q.startBlock = none ∧ q.endBlock = none) ∨ ∃ t ∈ n.chainTxs, t.itemHash = r.itemHash ∧
    (∀ b ∈ q.startBlock, b ≤ t.height) ∧ ∀ b ∈ q.endBlock, t.height ≤ b

section Conditions

variable {db q n} {r : MessageRow}

theorem holds_andIn {column : Column} {vs : List String} :
    (andIn column vs).all (·.holds db n r) = true ↔ Allows vs (column.read r) := by
  cases vs with
  | nil => simp [andIn, Allows]
  | cons v vs => simp [andIn, Allows, Clause.holds, Option.any_eq_true]

theorem holds_andTypes {vs : List String} :
    (andTypes vs).all (·.holds db n r) = true ↔ Allows vs (some r.messageType.toString) := by
  match vs with
  | [] => simp [andTypes, Allows]
  | [v] => simp [andTypes, Allows, Clause.holds, Column.read]
  | v :: v' :: vs => simp [andTypes, Allows, Clause.holds, Column.read]

theorem holds_andTags {vs : List String} : (andTags vs).all (·.holds db n r) = true ↔
    HasKey vs ((contentField db r).bind (·.get? "tags")) := by
  cases vs with
  | nil => simp [andTags, HasKey]
  | cons v vs => simp [andTags, HasKey, Clause.holds, Option.any_eq_true]

theorem holds_andKeys {vs : List String} :
    (andKeys vs).all (·.holds db n r) = true ↔ HasKey vs (contentField db r) := by
  cases vs with
  | nil => simp [andKeys, HasKey]
  | cons v vs => simp [andKeys, HasKey, Clause.holds, Option.any_eq_true]

theorem holds_andBlocks : (andBlocks q).all (·.holds db n r) = true ↔
    (q.startBlock = none ∧ q.endBlock = none) ∨ ∃ t ∈ n.chainTxs, t.itemHash = r.itemHash ∧
      (∀ b ∈ q.startBlock, b ≤ t.height) ∧ ∀ b ∈ q.endBlock, t.height ≤ b := by
  unfold andBlocks
  by_cases hblocks : q.startBlock.isSome || q.endBlock.isSome
  · have hsome : ¬ (q.startBlock = none ∧ q.endBlock = none) := by
      rintro ⟨hstart, hend⟩
      rw [hstart, hend] at hblocks
      cases hblocks
    rw [if_pos hblocks, or_iff_right hsome]
    simp [Clause.holds, Table.mem_def, and_assoc, Option.all_eq_true]
  · have hnone : q.startBlock = none ∧ q.endBlock = none := by
      simpa using hblocks
    rw [if_neg hblocks]
    exact iff_of_true rfl (.inl hnone)

theorem holds_notForgotten : (if includeForgotten db q then [] else [Clause.notForgotten]).all (·.holds db n r) = true ↔
    includeForgotten db q = true ∨ ∀ f ∈ n.forgottenMessages, f.itemHash ≠ r.itemHash := by
  cases includeForgotten db q with
  | true => simp
  | false => simp [Clause.holds, Table.find?_eq_none]

/-- **The conditions of the filters are true of the messages that match.** -/
theorem holds_filters (hprocessed : includeProcessed db q = true) :
    (filters db q).all (·.holds db n r) = true ↔ Matches db q n r := by
  have hstart : (q.startDate.toList.map Clause.timeGte).all (·.holds db n r) = true ↔
      ∀ start ∈ q.startDate, start ≤ r.time := by
    cases q.startDate <;> simp [Clause.holds]
  have hend : (q.endDate.toList.map Clause.timeLt).all (·.holds db n r) = true ↔
      ∀ stop ∈ q.endDate, r.time < stop := by
    cases q.endDate <;> simp [Clause.holds]
  unfold filters
  simp only [List.all_append, Bool.and_eq_true, holds_notForgotten, holds_andIn, holds_andTypes, holds_andTags,
    holds_andKeys, holds_andBlocks, hstart, hend]
  constructor
  · rintro ⟨⟨⟨⟨⟨⟨⟨⟨⟨⟨⟨⟨⟨⟨⟨h₁, h₂⟩, h₃⟩, h₄⟩, h₅⟩, h₆⟩, h₇⟩, h₈⟩, h₉⟩, h₁₀⟩, h₁₁⟩, h₁₂⟩, h₁₃⟩, h₁₄⟩, h₁₅⟩, h₁₆⟩
    exact ⟨hprocessed, h₁, h₂, h₃, h₄, h₅, h₆, h₇, h₈, h₉, h₁₀, h₁₁, h₁₂, h₁₃, h₁₄, h₁₅, h₁₆⟩
  · rintro ⟨-, h₁, h₂, h₃, h₄, h₅, h₆, h₇, h₈, h₉, h₁₀, h₁₁, h₁₂, h₁₃, h₁₄, h₁₅, h₁₆⟩
    exact ⟨⟨⟨⟨⟨⟨⟨⟨⟨⟨⟨⟨⟨⟨⟨h₁, h₂⟩, h₃⟩, h₄⟩, h₅⟩, h₆⟩, h₇⟩, h₈⟩, h₉⟩, h₁₀⟩, h₁₁⟩, h₁₂⟩, h₁₃⟩, h₁₄⟩, h₁₅⟩, h₁₆⟩

theorem matches_iff : Matches db q n r ↔
    includeProcessed db q = true ∧ (filters db q).all (·.holds db n r) = true := by
  constructor
  · intro h
    exact ⟨h.processed, (holds_filters h.processed).2 h⟩
  · rintro ⟨hprocessed, hall⟩
    exact (holds_filters hprocessed).1 hall

instance : Decidable (Matches db q n r) := decidable_of_iff _ matches_iff.symm

end Conditions

/-- The messages that match, in the order they are stored. -/
def matching : List MessageRow := n.messages.rows.filter fun r => decide (Matches db q n r)

/-- The messages that match, in the order that is asked for. -/
def inOrder : List MessageRow :=
  let orderBy : OrderBy := if needsTxTimeJoin q then .txTime (ascending q) else .time (ascending q)
  (matching db q n).insertionSort fun r t => orderBy.le db r t = true

/-- The number of messages before the page. -/
def before : Nat := ((pageOf q).toNat - 1) * (perPage q).toNat

/-- The matching messages of the page. -/
def pageRows : List MessageRow :=
  if unlimited q then inOrder db q n else ((inOrder db q n).drop (before q)).take (perPage q).toNat

/-- The rows are listed, one after another, each with some confirmations. -/
def Lists (messages : List MessageResponse) (rows : List MessageRow) : Prop :=
  List.Forall₂ (fun m r => ∃ confirmations, m = MessageResponse.fromDb db r confirmations) messages rows

/-- The answer holds the messages of the page and the number of all that match. -/
def PageRight : Prop :=
  ∃ messages total, (listMessages db q).run.run n = (.ok (.page messages total (pageOf q) (perPage q)), n) ∧
    Lists db messages (pageRows db q n) ∧ total = (matching db q n).length

/-- PostgreSQL refuses the query. -/
def Select.Refused (s : Select) : Prop := s.Ambiguous ∨ s.HasNul ∨ s.Miscasts db n

instance (s : Select) : Decidable (s.Refused db n) :=
  inferInstanceAs (Decidable (s.Ambiguous ∨ s.HasNul ∨ s.Miscasts db n))

/-- When the main query is refused, an empty page is right.  Otherwise the page must not lie behind the last message,
its offset must not overflow, and a full page needs the count. -/
def PageServed : Prop :=
  includeProcessed db q = true →
    if (mainSelect db q).Refused db n then
      if unlimited q then (matching db q n).length = 0 else (matching db q n).length = before q
    else if unlimited q then ((countSelect db q).Refused db n → (matching db q n).length = 0)
    else before q < 2 ^ 32 ∧ before q ≤ (matching db q n).length ∧
      (before q + (perPage q).toNat ≤ (matching db q n).length → ¬ (countSelect db q).Refused db n)

/-! ## What the queries find -/

section Queries

variable {db q n}

theorem run_of_refused {s : Select} (h : s.Refused db n) : ∃ e, s.run db n = .error e := by
  unfold Select.run
  by_cases hambiguous : s.Ambiguous
  · exact ⟨_, if_pos hambiguous⟩
  · rw [if_neg hambiguous]
    by_cases hnul : s.HasNul
    · exact ⟨_, if_pos hnul⟩
    · rw [if_neg hnul]
      exact ⟨_, if_pos ((h.resolve_left hambiguous).resolve_left hnul)⟩

theorem run_of_not_refused {s : Select} (h : ¬ s.Refused db n) : s.run db n = .ok (s.cut (s.sorted db n)) := by
  unfold Select.run
  rw [if_neg fun ha => h (.inl ha), if_neg fun hn => h (.inr (.inl hn)), if_neg fun hm => h (.inr (.inr hm))]

/-- The rows the main query returns; none if it is refused. -/
def foundRows (db : MessagesDb) (q : MessageQuery) (n : Node) : List MessageRow :=
  ((mainSelect db q).run db n).toOption.getD []

/-- What the handler takes for the number of messages. -/
def foundTotal (db : MessagesDb) (q : MessageQuery) (n : Node) : Int :=
  if cursorActive db q then 0
  else if !unlimited q && decide ((foundRows db q n).length < (perPage q).toNat) then
    ((pageOf q).toNat - 1 : Int) * (perPage q).toNat + (foundRows db q n).length
  else (((countSelect db q).run db n).map fun found => (found.length : Int)).toOption.getD 0

theorem run_totalOf : (totalOf db q (foundRows db q n)).run.run n = (.ok (foundTotal db q n), n) := by
  unfold totalOf foundTotal
  split_ifs
  · rfl
  · rfl
  · exact run_orDefault_sql _ _ n

/-- **What the handler answers**, when the statuses include stored messages. -/
theorem run_listMessages (hprocessed : includeProcessed db q = true) :
    ∃ found, (listMessages db q).run.run n =
      (.ok (respond db q (foundRows db q n) (foundTotal db q n) found), n) := by
  obtain ⟨found, hfound⟩ := run_fetchConfirmations
    (((truncate db q (foundRows db q n)).map MessageRow.itemHash).toChunks 10000) n
  have hrows : (orDefault [] (sql fun n => ((mainSelect db q).run db n, n))).run.run n = (.ok (foundRows db q n), n) :=
    run_orDefault_sql _ _ n
  unfold listMessages
  rw [if_pos hprocessed, run_bind_ok hrows, run_bind_ok run_totalOf, run_bind_ok hfound]
  exact ⟨found, rfl⟩

theorem run_listMessages_none (h : includeProcessed db q = false) :
    (listMessages db q).run.run n = (.ok (.page [] 0 (pageOf q) (perPage q)), n) := by
  unfold listMessages
  rw [if_neg (by simp [h])]
  rfl

theorem matching_of_not_processed (h : includeProcessed db q = false) : matching db q n = [] := by
  refine List.filter_eq_nil_iff.2 fun r _ hr => ?_
  have hprocessed := (of_decide_eq_true hr).processed
  rw [h] at hprocessed
  cases hprocessed

theorem lists_map (rows : List MessageRow) (confirmations : MessageRow → List ConfirmationResponse) :
    Lists db (rows.map fun r => MessageResponse.fromDb db r (confirmations r)) rows := by
  unfold Lists
  rw [List.forall₂_map_left_iff]
  exact List.forall₂_same.2 fun r _ => ⟨confirmations r, rfl⟩

/-- What is listed tells the hashes. -/
theorem Lists.hashes {messages : List MessageResponse} {rows : List MessageRow} (h : Lists db messages rows) :
    messages.map MessageResponse.itemHash = rows.map MessageRow.itemHash := by
  unfold Lists at h
  induction h with
  | nil => rfl
  | cons h _ ih =>
    obtain ⟨confirmations, rfl⟩ := h
    rw [List.map_cons, List.map_cons, ih]
    rfl

theorem selected_eq {s : Select} (hprocessed : includeProcessed db q = true) (hclauses : s.clauses = filters db q) :
    s.selected db n = matching db q n := by
  unfold Select.selected matching
  refine List.filter_congr fun r _ => ?_
  rw [hclauses]
  exact Bool.eq_iff_iff.2 ((holds_filters hprocessed).trans decide_eq_true_iff.symm)

theorem nodup_hashes : ((inOrder db q n).map MessageRow.itemHash).Nodup := by
  have hmatching : ((matching db q n).map MessageRow.itemHash).Nodup :=
    n.messages.nodup.sublist (List.filter_sublist.map MessageRow.itemHash)
  exact ((List.perm_insertionSort _ _).map _).nodup_iff.2 hmatching

theorem length_inOrder (db : MessagesDb) (q : MessageQuery) (n : Node) :
    (inOrder db q n).length = (matching db q n).length := List.length_insertionSort _ _

end Queries

/-! ## Pages -/

section Pages

variable {db q n}

/-- The query of a page, when the cursor is not used. -/
theorem mainSelect_of_page (hcursor : cursorActive db q = false) :
    (mainSelect db q).clauses = filters db q ∧
      (mainSelect db q).limit = (if unlimited q then none else some (perPage q).toNat) ∧
      (mainSelect db q).offset = offset q := by
  unfold mainSelect
  dsimp only
  rw [hcursor, if_neg Bool.false_ne_true, if_neg Bool.false_ne_true]
  refine ⟨?_, rfl, rfl⟩
  have hnone : andCursor db q = [] := by
    unfold andCursor
    unfold cursorActive at hcursor
    split_ifs with hjoin
    · rfl
    · rw [Bool.and_eq_false_iff] at hcursor
      have hparts : (cursorParts db q).isSome = false := hcursor.resolve_right (by simpa using hjoin)
      rw [Option.isSome_eq_false_iff, Option.isNone_iff_eq_none] at hparts
      rw [hparts]
      rfl
  rw [hnone, List.append_nil]

theorem sorted_of_page (hprocessed : includeProcessed db q = true) (hcursor : cursorActive db q = false) :
    (mainSelect db q).sorted db n = inOrder db q n := by
  have hselected := selected_eq (n := n) hprocessed (mainSelect_of_page hcursor).1
  show ((mainSelect db q).selected db n).insertionSort _ = _
  rw [hselected]
  rfl

theorem foundRows_of_refused (h : (mainSelect db q).Refused db n) : foundRows db q n = [] := by
  obtain ⟨e, he⟩ := run_of_refused h
  rw [foundRows, he]
  rfl

theorem foundRows_of_page (hprocessed : includeProcessed db q = true) (hcursor : cursorActive db q = false)
    (h : ¬ (mainSelect db q).Refused db n) :
    foundRows db q n = if unlimited q then inOrder db q n
      else ((inOrder db q n).drop (offset q)).take (perPage q).toNat := by
  obtain ⟨-, hlimit, hoffset⟩ := mainSelect_of_page hcursor
  rw [foundRows, run_of_not_refused h, Except.toOption, Option.getD_some, sorted_of_page hprocessed hcursor, Select.cut,
    hlimit, hoffset]
  split_ifs <;> rfl

theorem count_of_not_refused (hprocessed : includeProcessed db q = true) (h : ¬ (countSelect db q).Refused db n) :
    (((countSelect db q).run db n).map fun found => (found.length : Int)).toOption.getD 0 =
      (matching db q n).length := by
  rw [run_of_not_refused h]
  show (((countSelect db q).selected db n).length : Int) = _
  have hclauses : (countSelect db q).clauses = filters db q := rfl
  rw [selected_eq hprocessed hclauses]

theorem count_of_refused (h : (countSelect db q).Refused db n) :
    (((countSelect db q).run db n).map fun found => (found.length : Int)).toOption.getD 0 = 0 := by
  obtain ⟨e, he⟩ := run_of_refused h
  rw [he]
  rfl

theorem mem_inOrder {r : MessageRow} (h : r ∈ inOrder db q n) : r ∈ n.messages :=
  List.mem_of_mem_filter ((List.mem_insertionSort _).1 h)

/-- Stored rows are told apart by their hashes. -/
theorem eq_of_hashes {rows rows' : List MessageRow} (hrows : ∀ r ∈ rows, r ∈ n.messages)
    (hrows' : ∀ r ∈ rows', r ∈ n.messages) (h : rows.map MessageRow.itemHash = rows'.map MessageRow.itemHash) :
    rows = rows' := by
  induction rows generalizing rows' with
  | nil => exact (List.map_eq_nil_iff.1 h.symm).symm
  | cons r rows ih =>
    cases rows' with
    | nil => cases h
    | cons r' rows' =>
      obtain ⟨hhash, hrest⟩ := List.cons.inj h
      rw [Table.eq_of_key (hrows r List.mem_cons_self) (hrows' r' List.mem_cons_self) hhash]
      rw [ih (fun s hs => hrows s (List.mem_cons_of_mem r hs)) (fun s hs => hrows' s (List.mem_cons_of_mem r' hs)) hrest]

/-- The answer is right if the rows found are those of the page, and the total is. -/
theorem pageRight_of_found (hprocessed : includeProcessed db q = true) (hcursor : cursorActive db q = false) :
    PageRight db q n ↔ foundRows db q n = pageRows db q n ∧ foundTotal db q n = (matching db q n).length := by
  obtain ⟨found, hrun⟩ := run_listMessages (n := n) hprocessed
  have htruncate : truncate db q (foundRows db q n) = foundRows db q n := by
    unfold truncate hasMore
    rw [hcursor]
    exact if_neg Bool.false_ne_true
  rw [respond, htruncate, hcursor, if_neg Bool.false_ne_true] at hrun
  have hpage : ∀ r ∈ pageRows db q n, r ∈ n.messages := by
    intro r hr
    unfold pageRows at hr
    split_ifs at hr
    · exact mem_inOrder hr
    · exact mem_inOrder (List.mem_of_mem_drop (List.mem_of_mem_take hr))
  have hfound : ∀ r ∈ foundRows db q n, r ∈ n.messages := by
    intro r hr
    by_cases hrefused : (mainSelect db q).Refused db n
    · rw [foundRows_of_refused hrefused] at hr
      exact absurd hr List.not_mem_nil
    · rw [foundRows_of_page hprocessed hcursor hrefused] at hr
      split_ifs at hr
      · exact mem_inOrder hr
      · exact mem_inOrder (List.mem_of_mem_drop (List.mem_of_mem_take hr))
  constructor
  · rintro ⟨messages, total, hanswer, hlists, htotal⟩
    obtain ⟨hresponse, -⟩ := Prod.mk.inj (hrun.symm.trans hanswer)
    obtain ⟨rfl, rfl, -, -⟩ := MessagesResponse.page.inj (Except.ok.inj hresponse)
    refine ⟨eq_of_hashes hfound hpage ?_, htotal⟩
    rw [← hlists.hashes, (lists_map (foundRows db q n) _).hashes]
  · rintro ⟨hrows, htotal⟩
    refine ⟨_, _, hrun, ?_, htotal⟩
    rw [← hrows]
    exact lists_map _ _

theorem perPage_pos (h : unlimited q = false) : 0 < (perPage q).toNat := by
  have hraw : rawPagination q ≠ 0 := by simpa [unlimited] using h
  have hpos : 0 < (rawPagination q).toNat := by
    rw [Nat.pos_iff_ne_zero]
    exact fun h0 => hraw (UInt32.toNat_inj.1 h0)
  rw [perPage, h, if_neg Bool.false_ne_true]
  show 0 < (if rawPagination q ≤ 1000 then rawPagination q else 1000).toNat
  split_ifs
  · exact hpos
  · decide

theorem offset_eq (hpage : pageOf q ≠ 0) (hlimited : unlimited q = false) : offset q = before q % 2 ^ 32 := by
  have hone : (1 : UInt32) ≤ pageOf q := by
    rw [UInt32.le_iff_toNat_le, UInt32.toNat_one]
    exact Nat.one_le_iff_ne_zero.2 fun h => hpage (UInt32.toNat_inj.1 h)
  rw [offset, hlimited, if_neg Bool.false_ne_true, UInt32.toNat_mul, UInt32.toNat_sub_of_le _ _ hone]
  rfl


/-- With a limit, a page that is not full takes its total from its length. -/
theorem foundTotal_of_limited (hcursor : cursorActive db q = false) (hlimited : unlimited q = false)
    (hpage : pageOf q ≠ 0) (hfull : (foundRows db q n).length < (perPage q).toNat) :
    foundTotal db q n = before q + (foundRows db q n).length := by
  have hone : 1 ≤ (pageOf q).toNat := Nat.one_le_iff_ne_zero.2 fun h => hpage (UInt32.toNat_inj.1 h)
  unfold foundTotal before
  rw [hcursor, hlimited, if_neg Bool.false_ne_true, if_pos (by simpa using hfull)]
  push_cast [hone]
  rfl

theorem foundTotal_of_count (hcursor : cursorActive db q = false)
    (hfull : unlimited q = true ∨ (perPage q).toNat ≤ (foundRows db q n).length) :
    foundTotal db q n = (((countSelect db q).run db n).map fun found => (found.length : Int)).toOption.getD 0 := by
  unfold foundTotal
  rw [hcursor, if_neg Bool.false_ne_true, if_neg]
  rw [Bool.and_eq_true, Bool.not_eq_true', decide_eq_true_eq]
  rintro ⟨hlimited, hlt⟩
  rcases hfull with hunlimited | hfull
  · rw [hunlimited] at hlimited
    cases hlimited
  · omega

/-- **A refused query** gives an empty page. -/
theorem pageRight_of_refused (hprocessed : includeProcessed db q = true) (hcursor : cursorActive db q = false)
    (hpage : pageOf q ≠ 0) (h : (mainSelect db q).Refused db n) :
    PageRight db q n ↔
      if unlimited q then (matching db q n).length = 0 else (matching db q n).length = before q := by
  have hlength := length_inOrder db q n
  rw [pageRight_of_found hprocessed hcursor, foundRows_of_refused h]
  cases hunlimited : unlimited q with
  | true =>
    rw [if_pos rfl, foundTotal_of_count hcursor (.inl hunlimited), pageRows, hunlimited, if_pos rfl]
    constructor
    · rintro ⟨hrows, -⟩
      rw [← hlength, ← hrows, List.length_nil]
    · intro hnone
      have hempty : inOrder db q n = [] := List.eq_nil_of_length_eq_zero (hlength.trans hnone)
      refine ⟨hempty.symm, ?_⟩
      by_cases hcount : (countSelect db q).Refused db n
      · rw [count_of_refused hcount, hnone]
        rfl
      · exact count_of_not_refused hprocessed hcount
  | false =>
    have hrows := foundRows_of_refused h
    have htotal : foundTotal db q n = before q := by
      rw [foundTotal_of_limited hcursor hunlimited hpage (by rw [hrows]; exact perPage_pos hunlimited), hrows]
      rfl
    rw [if_neg Bool.false_ne_true, htotal, pageRows, hunlimited, if_neg Bool.false_ne_true]
    constructor
    · rintro ⟨-, htotal⟩
      exact_mod_cast htotal.symm
    · intro hnumber
      refine ⟨?_, by exact_mod_cast hnumber.symm⟩
      rw [List.drop_of_length_le (by omega), List.take_nil]

/-- **A page of all messages** is right unless their count is refused. -/
theorem pageRight_of_unlimited (hprocessed : includeProcessed db q = true) (hcursor : cursorActive db q = false)
    (hunlimited : unlimited q = true) (h : ¬ (mainSelect db q).Refused db n) :
    PageRight db q n ↔ ((countSelect db q).Refused db n → (matching db q n).length = 0) := by
  rw [pageRight_of_found hprocessed hcursor, foundRows_of_page hprocessed hcursor h, pageRows, hunlimited, if_pos rfl,
    if_pos rfl, foundTotal_of_count hcursor (.inl hunlimited)]
  rw [and_iff_right rfl]
  by_cases hcount : (countSelect db q).Refused db n
  · rw [count_of_refused hcount]
    constructor
    · intro h0 _
      exact_mod_cast h0.symm
    · intro h0
      exact_mod_cast (h0 hcount).symm
  · rw [count_of_not_refused hprocessed hcount]
    exact iff_of_true rfl fun h' => absurd h' hcount

/-- A page whose offset overflows is never right. -/
theorem not_pageRight_of_overflow (hprocessed : includeProcessed db q = true) (hcursor : cursorActive db q = false)
    (hpage : pageOf q ≠ 0) (hlimited : unlimited q = false) (h : ¬ (mainSelect db q).Refused db n)
    (hover : 2 ^ 32 ≤ before q) : ¬ PageRight db q n := by
  rw [pageRight_of_found hprocessed hcursor]
  rintro ⟨hrows, htotal⟩
  have hpos := perPage_pos hlimited
  have hlength := length_inOrder db q n
  have hoffset : offset q < before q := by
    rw [offset_eq hpage hlimited]
    exact (Nat.mod_lt _ (Nat.two_pow_pos 32)).trans_le hover
  have hfound := foundRows_of_page hprocessed hcursor h
  rw [hlimited, if_neg Bool.false_ne_true] at hfound
  by_cases hbehind : (matching db q n).length ≤ offset q
  · have hempty : foundRows db q n = [] := by
      rw [hfound, List.drop_of_length_le (by omega), List.take_nil]
    rw [foundTotal_of_limited hcursor hlimited hpage (by rw [hempty]; exact hpos), hempty, List.length_nil] at htotal
    omega
  · have hfirst : (foundRows db q n)[0]? = (inOrder db q n)[offset q]? := by
      rw [hfound, List.getElem?_take_of_lt hpos, List.getElem?_drop, Nat.add_zero]
    have hright : (pageRows db q n)[0]? = (inOrder db q n)[before q]? := by
      rw [pageRows, hlimited, if_neg Bool.false_ne_true, List.getElem?_take_of_lt hpos, List.getElem?_drop, Nat.add_zero]
    have hnodup : (inOrder db q n).Nodup := nodup_hashes.of_map
    have hlt : offset q < (inOrder db q n).length := by omega
    rw [hrows, hright] at hfirst
    exact hoffset.ne ((List.getElem?_inj hlt hnodup).1 hfirst.symm)

/-- **A page with a limit** is right if it does not lie behind the last message and, when it is full, the count is to be
had. -/
theorem pageRight_of_limited (hprocessed : includeProcessed db q = true) (hcursor : cursorActive db q = false)
    (hpage : pageOf q ≠ 0) (hlimited : unlimited q = false) (h : ¬ (mainSelect db q).Refused db n)
    (hfits : before q < 2 ^ 32) :
    PageRight db q n ↔ before q ≤ (matching db q n).length ∧
      (before q + (perPage q).toNat ≤ (matching db q n).length → ¬ (countSelect db q).Refused db n) := by
  have hpos := perPage_pos hlimited
  have hlength := length_inOrder db q n
  have hrows : foundRows db q n = pageRows db q n := by
    rw [foundRows_of_page hprocessed hcursor h, pageRows, offset_eq hpage hlimited, Nat.mod_eq_of_lt hfits]
  have hfound : (foundRows db q n).length = min (perPage q).toNat ((matching db q n).length - before q) := by
    rw [hrows, pageRows, hlimited, if_neg Bool.false_ne_true, List.length_take, List.length_drop, hlength]
  rw [pageRight_of_found hprocessed hcursor, and_iff_right hrows]
  by_cases hfull : before q + (perPage q).toNat ≤ (matching db q n).length
  · rw [foundTotal_of_count hcursor (.inr (by omega))]
    by_cases hcount : (countSelect db q).Refused db n
    · rw [count_of_refused hcount]
      refine iff_of_false (fun h0 => ?_) fun h' => h'.2 hfull hcount
      omega
    · rw [count_of_not_refused hprocessed hcount]
      exact iff_of_true rfl ⟨by omega, fun _ => hcount⟩
  · rw [foundTotal_of_limited hcursor hlimited hpage (by omega)]
    constructor
    · intro htotal
      exact ⟨by omega, fun hfull' => absurd hfull' hfull⟩
    · rintro ⟨hbefore, -⟩
      omega

/-- **Which pages are right**: for every table and request, those that are served. -/
theorem pageRight_iff (hpage : pageOf q ≠ 0) (hcursor : cursorActive db q = false) :
    PageRight db q n ↔ PageServed db q n := by
  unfold PageServed
  cases hprocessed : includeProcessed db q with
  | false =>
    refine iff_of_true ⟨[], 0, run_listMessages_none hprocessed, ?_, ?_⟩ fun h => (by cases h)
    · have hnone : inOrder db q n = [] := by
        unfold inOrder
        rw [matching_of_not_processed hprocessed]
        rfl
      have hempty : pageRows db q n = [] := by
        rw [pageRows, hnone, List.drop_nil, List.take_nil, ite_self]
      rw [hempty]
      exact List.Forall₂.nil
    · rw [matching_of_not_processed hprocessed]
      rfl
  | true =>
    rw [imp_iff_right rfl]
    by_cases hrefused : (mainSelect db q).Refused db n
    · rw [if_pos hrefused]
      exact pageRight_of_refused hprocessed hcursor hpage hrefused
    · rw [if_neg hrefused]
      cases hunlimited : unlimited q with
      | true =>
        rw [if_pos rfl]
        exact pageRight_of_unlimited hprocessed hcursor hunlimited hrefused
      | false =>
        rw [if_neg Bool.false_ne_true]
        by_cases hfits : before q < 2 ^ 32
        · rw [and_iff_right hfits]
          exact pageRight_of_limited hprocessed hcursor hpage hunlimited hrefused hfits
        · refine iff_of_false ?_ fun h => hfits h.1
          exact not_pageRight_of_overflow hprocessed hcursor hpage hunlimited hrefused (by omega)

end Pages

/-! ## Three messages -/

section Sample

/-- Texts in the order of their code points. -/
def codePoints : Collation where
  le s t := decide (s ≤ t)
  antisymm _ _ h h' := String.le_antisymm (of_decide_eq_true h) (of_decide_eq_true h')
  trans _ _ _ h h' := decide_eq_true (String.le_trans (of_decide_eq_true h) (of_decide_eq_true h'))
  total s t := (String.le_total s t).imp decide_eq_true decide_eq_true

/-- Full seconds are written in digits. -/
def readSeconds (s : String) : Option Timestamp :=
  if s.toList ≠ [] ∧ s.toList.all Char.isDigit then some (Nat.ofDigitChars 10 s.toList 0 : Nat) else none

/-- Times are full seconds, and no content is cast. -/
def sampleDb : MessagesDb where
  collation := codePoints
  earliestConfirmation _ := none
  jsonb _ := none
  casts _ _ := []
  printTime t := toString t.num.toNat
  parseTime := readSeconds
  toUppercase := String.toUpper
  toLowercase := String.toLower
  parseJson _ := none

def sampleRow (itemHash : ItemHash) (time : Timestamp) : MessageRow :=
  { itemHash, messageType := .post, chain := .eth, sender := "0x51A58800b26AA1451aaA803d1746687cB88E0501",
    signature := "0x", itemType := .ipfs, itemContent := none, channel := some "TEST", time, status := "processed",
    receptionTime := none, owner := none, contentType := none, contentRef := none, contentKey := none,
    contentItemHash := none, paymentType := none }

/-- Two messages of one second, with underscores in their hashes, and a later one. -/
def sampleNode : Node :=
  { Node.empty with
    messages := ((Table.empty.insertNew (sampleRow "Qm_b" 100)).insertNew (sampleRow "Qm_a" 100)).insertNew
      (sampleRow "Qm" 200)
    chainTxs := Table.empty.insertNew ⟨"0x01", "ETH", 500, "Qm"⟩ }

def sampleQuery : MessageQuery where
  addresses := none
  channels := some "TEST"
  messageType := none
  messageTypes := none
  hashes := none
  refs := none
  tags := none
  contentTypes := none
  contentHashes := none
  contentKeys := none
  chains := none
  owners := none
  pagination := some 2
  limit := none
  page := some 2
  startDate := none
  endDate := none
  order := none
  sortOrder := none
  sortBy := none
  msgStatuses := none
  startBlock := none
  endBlock := none
  paymentTypes := none
  cursor := none

example : (perPage sampleQuery, offset sampleQuery) = (2, 2) := by decide +kernel

/-- The second page holds the last of the three messages. -/
theorem pageRight_second : (pageRows sampleDb sampleQuery sampleNode).map MessageRow.itemHash = ["Qm_b"] ∧
    PageRight sampleDb sampleQuery sampleNode :=
  ⟨by decide +kernel, (pageRight_iff (by decide) rfl).2 (by unfold PageServed; decide +kernel)⟩

/-- The fifth page is empty, but its total is no count of messages; and a bound for the blocks hides the message that
meets it. -/
theorem pages_wrong : ¬ PageRight sampleDb { sampleQuery with page := some 5 } sampleNode ∧
    (matching sampleDb { sampleQuery with page := none, startBlock := some 400 } sampleNode).map MessageRow.itemHash =
      ["Qm"] ∧
    ¬ PageRight sampleDb { sampleQuery with page := none, startBlock := some 400 } sampleNode := by
  refine ⟨fun h => ?_, by decide +kernel, fun h => ?_⟩
  · have hserved := (pageRight_of_limited rfl rfl (by decide) rfl (by decide +kernel) (by decide)).1 h
    exact absurd hserved.1 (by decide +kernel)
  · have hempty := (pageRight_of_refused rfl rfl (by decide) (by decide +kernel)).1 h
    exact absurd hempty (by decide +kernel)

end Sample

end AlephCore.Web.Messages
