import AlephCore.Lib.Keyset
import AlephCore.Web.MessageListing
import Mathlib.Logic.Relation

/-!
# MessageCursor — following the cursor

Behind the cursor of a row, `list_messages` returns the messages that come after it in the order of time and hash, and
the cursor of the last one if there are more.  Whoever follows the cursors gets them all, each once and in order, as long
as no query on the way is refused and each cursor can be read again, which that of an empty hash cannot.
-/

namespace AlephCore.Web.Messages

open ProgE

variable (db : MessagesDb) (q : MessageQuery) (n : Node)

/-! ## The order of the messages -/

/-- The message comes after the row: by time in the chosen direction, then by hash. -/
def Behind (r s : MessageRow) : Prop :=
  (if ascending q then r.time < s.time else s.time < r.time) ∨
    (s.time = r.time ∧ ¬ db.collation.le s.itemHash r.itemHash)

instance : DecidableRel (Behind db q) := fun r s =>
  inferInstanceAs (Decidable ((if ascending q then r.time < s.time else s.time < r.time) ∨
    (s.time = r.time ∧ ¬ db.collation.le s.itemHash r.itemHash)))

/-- The matching messages, by time and hash. -/
def inTimeOrder : List MessageRow :=
  (matching db q n).insertionSort fun r s => timeLe db (ascending q) r s = true

/-- The matching messages that come after a row. -/
def rest (r : MessageRow) : List MessageRow := Keyset.after (Behind db q) (inTimeOrder db q n) r

section Order

variable {db q n} {r s t : MessageRow}

theorem Collation.refl (c : Collation) (x : String) : c.le x x = true := (c.total x x).elim id id

theorem behind_irrefl (r : MessageRow) : ¬ Behind db q r r := by
  rintro (h | ⟨-, h⟩)
  · split_ifs at h <;> exact lt_irrefl _ h
  · exact h (db.collation.refl _)

theorem behind_trans (r s t : MessageRow) (h : Behind db q r s) (h' : Behind db q s t) : Behind db q r t := by
  have hle : ¬ db.collation.le s.itemHash r.itemHash = true → ¬ db.collation.le t.itemHash s.itemHash = true →
      ¬ db.collation.le t.itemHash r.itemHash = true := by
    intro hsr hts htr
    have hst : db.collation.le s.itemHash t.itemHash = true := (db.collation.total _ _).resolve_right hts
    exact hsr (db.collation.trans _ _ _ hst htr)
  unfold Behind at h h' ⊢
  cases hdir : ascending q with
  | true =>
    rw [hdir, if_pos rfl] at h h'
    rw [if_pos rfl]
    rcases h with h | ⟨hrs, h⟩
    · rcases h' with h' | ⟨hst, -⟩
      · exact .inl (h.trans h')
      · exact .inl (hst ▸ h)
    · rcases h' with h' | ⟨hst, h'⟩
      · exact .inl (hrs ▸ h')
      · exact .inr ⟨hst.trans hrs, hle h h'⟩
  | false =>
    rw [hdir, if_neg Bool.false_ne_true] at h h'
    rw [if_neg Bool.false_ne_true]
    rcases h with h | ⟨hrs, h⟩
    · rcases h' with h' | ⟨hst, -⟩
      · exact .inl (h'.trans h)
      · exact .inl (hst ▸ h)
    · rcases h' with h' | ⟨hst, h'⟩
      · exact .inl (hrs ▸ h')
      · exact .inr ⟨hst.trans hrs, hle h h'⟩

theorem timeLe_ascending : timeLe db true r s = true ↔
    r.time ≤ s.time ∧ (r.time < s.time ∨ db.collation.le r.itemHash s.itemHash = true) := by
  simp [timeLe, lexLe]

theorem timeLe_descending : timeLe db false r s = true ↔
    s.time ≤ r.time ∧ (s.time < r.time ∨ db.collation.le r.itemHash s.itemHash = true) := by
  simp [timeLe, lexLe]

/-- A row comes no later than another exactly if it is not behind it. -/
theorem timeLe_iff : timeLe db (ascending q) r s = true ↔ ¬ Behind db q s r := by
  unfold Behind
  cases ascending q with
  | true =>
    rw [timeLe_ascending, if_pos rfl, not_or, not_lt, not_and, not_not]
    constructor
    · rintro ⟨hle, hlt | hhash⟩
      · exact ⟨hle, fun heq => absurd heq hlt.ne⟩
      · exact ⟨hle, fun _ => hhash⟩
    · rintro ⟨hle, hhash⟩
      exact ⟨hle, hle.lt_or_eq.imp_right hhash⟩
  | false =>
    rw [timeLe_descending, if_neg Bool.false_ne_true, not_or, not_lt, not_and, not_not]
    constructor
    · rintro ⟨hle, hlt | hhash⟩
      · exact ⟨hle, fun heq => absurd heq hlt.ne'⟩
      · exact ⟨hle, fun _ => hhash⟩
    · rintro ⟨hle, hhash⟩
      exact ⟨hle, hle.lt_or_eq.imp_right fun heq => hhash heq.symm⟩

/-- Of two rows with different hashes one comes after the other. -/
theorem behind_or (h : r.itemHash ≠ s.itemHash) : Behind db q r s ∨ Behind db q s r := by
  have hhash : r.time = s.time → Behind db q r s ∨ Behind db q s r := by
    intro htime
    by_cases hle : db.collation.le r.itemHash s.itemHash = true
    · refine .inl (.inr ⟨htime.symm, fun hle' => h (db.collation.antisymm _ _ hle hle')⟩)
    · exact .inr (.inr ⟨htime, hle⟩)
  rcases lt_trichotomy r.time s.time with hlt | htime | hlt
  · cases hdir : ascending q with
    | true => exact .inl (.inl (by rwa [hdir, if_pos rfl]))
    | false => exact .inr (.inl (by rwa [hdir, if_neg Bool.false_ne_true]))
  · exact hhash htime
  · cases hdir : ascending q with
    | true => exact .inr (.inl (by rwa [hdir, if_pos rfl]))
    | false => exact .inl (.inl (by rwa [hdir, if_neg Bool.false_ne_true]))

instance : Std.Total fun r s : MessageRow => timeLe db (ascending q) r s = true where
  total r s := by
    rw [timeLe_iff, timeLe_iff]
    by_cases h : Behind db q s r
    · exact .inr fun h' => behind_irrefl r (behind_trans r s r h' h)
    · exact .inl h

/-- Two rules in a row, each transitive. -/
theorem lex_trans {a b c : Timestamp} {h₁ h₂ h₃ : Prop} (hhash : h₁ → h₂ → h₃) (hab : a ≤ b ∧ (a < b ∨ h₁))
    (hbc : b ≤ c ∧ (b < c ∨ h₂)) : a ≤ c ∧ (a < c ∨ h₃) := by
  refine ⟨hab.1.trans hbc.1, ?_⟩
  rcases hab.2 with hlt | h
  · exact .inl (hlt.trans_le hbc.1)
  · rcases hbc.2 with hlt | h'
    · exact .inl (hab.1.trans_lt hlt)
    · exact .inr (hhash h h')

instance : IsTrans MessageRow fun r s => timeLe db (ascending q) r s = true where
  trans r s t hrs hst := by
    cases hdir : ascending q with
    | true =>
      rw [hdir, timeLe_ascending] at hrs hst
      rw [timeLe_ascending]
      exact lex_trans (db.collation.trans _ _ _) hrs hst
    | false =>
      rw [hdir, timeLe_descending] at hrs hst
      rw [timeLe_descending]
      exact lex_trans (fun h h' => db.collation.trans _ _ _ h' h) hst hrs

theorem mem_inTimeOrder : r ∈ inTimeOrder db q n ↔ r ∈ matching db q n := List.mem_insertionSort _

/-- **Each message comes behind those before it.** -/
theorem pairwise_inTimeOrder : (inTimeOrder db q n).Pairwise (Behind db q) := by
  have hsorted : (inTimeOrder db q n).Pairwise fun r s => timeLe db (ascending q) r s = true :=
    List.pairwise_insertionSort _ _
  have hnodup : (inTimeOrder db q n).Pairwise fun r s => r.itemHash ≠ s.itemHash := by
    have hmatching : ((matching db q n).map MessageRow.itemHash).Nodup :=
      n.messages.nodup.sublist (List.filter_sublist.map MessageRow.itemHash)
    exact List.pairwise_map.1 (((List.perm_insertionSort _ _).map _).nodup_iff.2 hmatching)
  refine (hsorted.and hnodup).imp fun h => ?_
  exact (behind_or h.2).resolve_right (timeLe_iff.1 h.1)

/-- What is behind the last row of a page. -/
theorem rest_of_getElem {k : Nat} (hk : 0 < k) (h : (rest db q n r)[k - 1]? = some s) :
    rest db q n s = (rest db q n r).drop k :=
  Keyset.after_getElem behind_irrefl behind_trans pairwise_inTimeOrder hk h

theorem mem_of_mem_rest (h : s ∈ rest db q n r) : s ∈ n.messages :=
  List.mem_of_mem_filter (mem_inTimeOrder.1 (Keyset.mem_after.1 h).1)

end Order

/-! ## Following the cursors -/

/-- The request with the cursor of a row. -/
def behind (r : MessageRow) : MessageQuery := { q with cursor := some (rowCursor db r) }

/-- The time of each row is read as it was written, and there is no underscore in it. -/
def PrintsTimes : Prop :=
  ∀ r ∈ n.messages, db.parseTime (db.printTime r.time) = some r.time ∧ '_' ∉ (db.printTime r.time).toList

/-- The messages of an answer, and the cursor to go on with. -/
def readPage : Except DbError MessagesResponse → Option (List MessageResponse × Option String)
  | .ok (.cursor messages _ true (some next)) => some (messages, some next)
  | .ok (.cursor messages _ _ _) => some (messages, none)
  | .ok (.page messages _ _ _) => some (messages, none)
  | .error _ => none

/-- The answer behind a cursor. -/
def pageBehind (cursor : String) : Option (List MessageResponse × Option String) :=
  readPage ((listMessages db { q with cursor := some cursor }).run.run n).1

/-- Follow the cursors until there is no more; at most so many requests. -/
def follow : Nat → String → Option (List MessageResponse)
  | 0, _ => none
  | requests + 1, cursor =>
    match pageBehind db q n cursor with
    | some (messages, some next) => (follow requests next).map (messages ++ ·)
    | some (messages, none) => some messages
    | none => none

/-- From the cursor of the row on, the messages that come after it are listed, each once and in order. -/
def Enumerates (r : MessageRow) : Prop :=
  ∃ requests messages, follow db q n requests (rowCursor db r) = some messages ∧ Lists db messages (rest db q n r)

/-- The page behind the row is followed by others, and ends with `s`. -/
def PageEnd (r s : MessageRow) : Prop :=
  (perPage q).toNat < (rest db q n r).length ∧ (rest db q n r)[(perPage q).toNat - 1]? = some s

/-- The page by number that an unreadable cursor gets. -/
def offsetPage : List MessageRow := ((inTimeOrder db q n).drop (offset q)).take (perPage q).toNat

/-- The request behind the row is served: a refused one lists nothing, and an empty hash gets a page by number. -/
structure Served (r : MessageRow) : Prop where
  refused : (mainSelect db (behind db q r)).Refused db n → rest db q n r = []
  emptyHash : ¬ (mainSelect db (behind db q r)).Refused db n → r.itemHash = "" → offsetPage db q n = rest db q n r

section Requests

variable {db q n} {r s : MessageRow}

/-- **A cursor is read again** unless the hash is empty. -/
theorem parseCursor_rowCursor (hprint : PrintsTimes db n) (hr : r ∈ n.messages) :
    parseCursor db (rowCursor db r) = if r.itemHash = "" then none else some (r.time, r.itemHash) := by
  obtain ⟨hparse, hunderscore⟩ := hprint r hr
  have hspan : (rowCursor db r).toList.span (· ≠ '_') = ((db.printTime r.time).toList, '_' :: r.itemHash.toList) := by
    have htime : ∀ c ∈ (db.printTime r.time).toList, decide (c ≠ '_') = true := by
      intro c hc
      exact decide_eq_true fun h => hunderscore (h ▸ hc)
    rw [rowCursor, String.toList_append, String.toList_append, List.append_assoc, List.span_eq_takeWhile_dropWhile,
      List.takeWhile_append_of_pos htime, List.dropWhile_append_of_pos htime]
    exact Prod.ext (List.append_nil _) rfl
  unfold parseCursor
  rw [hspan]
  dsimp only
  by_cases hempty : r.itemHash = ""
  · rw [if_pos hempty, hempty]
    rfl
  · have hne : r.itemHash.toList ≠ [] := fun h => hempty (by rw [← String.toList_inj, h]; rfl)
    rw [if_neg hempty, if_neg hne, String.ofList_toList, String.ofList_toList, hparse]
    rfl

theorem matching_behind (r : MessageRow) : matching db (behind db q r) n = matching db q n := by
  refine List.filter_congr fun s _ => decide_eq_decide.2 ?_
  have hfilters : Matches db (behind db q r) n s ↔
      includeProcessed db q = true ∧ (filters db q).all (·.holds db n s) = true := matches_iff
  exact hfilters.trans matches_iff.symm

/-- The query behind a row whose cursor can be read. -/
theorem mainSelect_behind (hprint : PrintsTimes db n) (hr : r ∈ n.messages) (hjoin : needsTxTimeJoin q = false)
    (hlimited : unlimited q = false) (hhash : r.itemHash ≠ "") :
    cursorActive db (behind db q r) = true ∧ mainSelect db (behind db q r) =
      ⟨.messages, filters db q ++ [.cursorKeyset r.time r.itemHash (ascending q)], some (.time (ascending q)),
        some ((perPage q).toNat + 1), 0⟩ := by
  have hparts : cursorParts db (behind db q r) = some (r.time, r.itemHash) :=
    (parseCursor_rowCursor hprint hr).trans (if_neg hhash)
  have hjoin' : needsTxTimeJoin (behind db q r) = false := hjoin
  have hlimited' : unlimited (behind db q r) = false := hlimited
  have hactive : cursorActive db (behind db q r) = true := by
    rw [cursorActive, hparts, hjoin']
    rfl
  refine ⟨hactive, ?_⟩
  unfold mainSelect andCursor
  rw [hactive, hjoin', hlimited', hparts]
  rfl

/-- **What is found behind a row**: the messages that come after it, one more than fit on the page. -/
theorem foundRows_behind (hprint : PrintsTimes db n) (hr : r ∈ n.messages) (hjoin : needsTxTimeJoin q = false)
    (hlimited : unlimited q = false) (hhash : r.itemHash ≠ "") (hprocessed : includeProcessed db q = true)
    (h : ¬ (mainSelect db (behind db q r)).Refused db n) :
    foundRows db (behind db q r) n = (rest db q n r).take ((perPage q).toNat + 1) := by
  have hselected : (mainSelect db (behind db q r)).selected db n =
      (matching db q n).filter fun s => decide (Behind db q r s) := by
    rw [(mainSelect_behind hprint hr hjoin hlimited hhash).2]
    unfold Select.selected matching
    rw [List.filter_filter]
    refine List.filter_congr fun s _ => Bool.eq_iff_iff.2 ?_
    rw [List.all_append, Bool.and_eq_true, holds_filters hprocessed, Bool.and_eq_true, decide_eq_true_iff,
      decide_eq_true_iff, and_comm]
    refine and_congr_left fun _ => ?_
    unfold Behind
    cases ascending q <;> simp [Clause.holds]
  have hsorted : (mainSelect db (behind db q r)).sorted db n = rest db q n r := by
    have hanti : ∀ s ∈ matching db q n, ∀ t ∈ matching db q n, timeLe db (ascending q) s t = true →
        timeLe db (ascending q) t s = true → s = t := by
      intro s hs t ht hst hts
      by_contra hne
      have hhashes : s.itemHash ≠ t.itemHash := fun h =>
        hne (Table.eq_of_key (List.mem_of_mem_filter hs) (List.mem_of_mem_filter ht) h)
      exact (behind_or hhashes).elim (timeLe_iff.1 hts) (timeLe_iff.1 hst)
    have hfilter : ((matching db q n).filter fun s => decide (Behind db q r s)).insertionSort
        (fun s t => timeLe db (ascending q) s t = true) = rest db q n r :=
      Keyset.insertionSort_filter _ hanti
    have horder : (mainSelect db (behind db q r)).orderBy = some (.time (ascending q)) := by
      rw [(mainSelect_behind hprint hr hjoin hlimited hhash).2]
    unfold Select.sorted
    rw [horder, hselected]
    exact hfilter
  rw [foundRows, run_of_not_refused h, Except.toOption, Option.getD_some, hsorted, Select.cut,
    (mainSelect_behind hprint hr hjoin hlimited hhash).2]
  rfl

/-- There are more messages behind a row whose request is answered than fit on the page. -/
def Continues (db : MessagesDb) (q : MessageQuery) (n : Node) (r : MessageRow) : Prop :=
  ¬ (mainSelect db (behind db q r)).Refused db n ∧ r.itemHash ≠ "" ∧ (perPage q).toNat < (rest db q n r).length

/-- What a request lists whose answer is the last. -/
def lastRows (db : MessagesDb) (q : MessageQuery) (n : Node) (r : MessageRow) : List MessageRow :=
  if (mainSelect db (behind db q r)).Refused db n then []
  else if r.itemHash = "" then offsetPage db q n else rest db q n r

theorem processed_of_rest (h : rest db q n r ≠ []) : includeProcessed db q = true := by
  by_contra hnot
  rw [Bool.not_eq_true] at hnot
  obtain ⟨s, hs⟩ := List.exists_mem_of_ne_nil _ h
  have hmem := mem_inTimeOrder.1 (Keyset.mem_after.1 hs).1
  rw [matching_of_not_processed hnot] at hmem
  exact List.not_mem_nil hmem

theorem pageBehind_of_run {response : MessagesResponse}
    (h : (listMessages db (behind db q r)).run.run n = (.ok response, n)) :
    pageBehind db q n (rowCursor db r) = readPage (.ok response) := by
  show readPage ((listMessages db (behind db q r)).run.run n).1 = _
  rw [h]

/-- **A page in between**: the next messages, and the cursor of the last of them. -/
theorem pageBehind_of_continues (hprint : PrintsTimes db n) (hr : r ∈ n.messages) (hjoin : needsTxTimeJoin q = false)
    (hlimited : unlimited q = false) (h : Continues db q n r) :
    ∃ s messages, PageEnd db q n r s ∧ pageBehind db q n (rowCursor db r) = some (messages, some (rowCursor db s)) ∧
      Lists db messages ((rest db q n r).take (perPage q).toNat) := by
  obtain ⟨hrefused, hhash, hmore⟩ := h
  have hpos := perPage_pos hlimited
  have hne : rest db q n r ≠ [] := fun hnil => by rw [hnil, List.length_nil] at hmore; omega
  have hprocessed := processed_of_rest hne
  have hprocessed' : includeProcessed db (behind db q r) = true := hprocessed
  have hfound := foundRows_behind hprint hr hjoin hlimited hhash hprocessed hrefused
  have hactive := (mainSelect_behind hprint hr hjoin hlimited hhash).1
  obtain ⟨s, hs⟩ : ∃ s, (rest db q n r)[(perPage q).toNat - 1]? = some s :=
    ⟨_, List.getElem?_eq_getElem (show (perPage q).toNat - 1 < (rest db q n r).length by omega)⟩
  have hmoreFound : hasMore db (behind db q r) (foundRows db (behind db q r) n) = true := by
    have hlimited' : unlimited (behind db q r) = false := hlimited
    have hlength : (perPage (behind db q r)).toNat < min ((perPage q).toNat + 1) (rest db q n r).length := by
      show (perPage q).toNat < _
      omega
    rw [hasMore, hactive, hlimited', hfound, List.length_take]
    exact decide_eq_true hlength
  have htruncate : truncate db (behind db q r) (foundRows db (behind db q r) n) =
      (rest db q n r).take (perPage q).toNat := by
    rw [truncate, if_pos hmoreFound, hfound, List.take_take]
    exact congrArg (fun k => (rest db q n r).take k) (Nat.min_eq_left (Nat.le_succ _))
  have hnext : nextCursor db (behind db q r) (foundRows db (behind db q r) n) = some (rowCursor db s) := by
    rw [nextCursor, if_pos hmoreFound, htruncate, List.getLast?_take, if_neg hpos.ne', hs]
    rfl
  obtain ⟨found, hrun⟩ := run_listMessages (n := n) hprocessed'
  rw [respond, htruncate, hmoreFound, hnext, hactive, if_pos rfl] at hrun
  exact ⟨s, _, ⟨hmore, hs⟩, pageBehind_of_run hrun, lists_map _ _⟩

/-- An answer without more behind it. -/
theorem readPage_respond {rows : List MessageRow} (h : hasMore db q rows = false) (total : Int)
    (found : List ChainTxRow) :
    ∃ messages, readPage (.ok (respond db q rows total found)) = some (messages, none) ∧ Lists db messages rows := by
  have htruncate : truncate db q rows = rows := by
    rw [truncate, h, if_neg Bool.false_ne_true]
  unfold respond
  rw [htruncate, h]
  by_cases hactive : cursorActive db q = true
  · rw [if_pos hactive]
    exact ⟨_, rfl, lists_map _ _⟩
  · rw [if_neg hactive]
    exact ⟨_, rfl, lists_map _ _⟩

theorem rest_of_not_processed (h : includeProcessed db q = false) : rest db q n r = [] := by
  by_contra hne
  rw [processed_of_rest hne] at h
  cases h

theorem lastRows_of_not_processed (h : includeProcessed db q = false) : lastRows db q n r = [] := by
  have hempty : inTimeOrder db q n = [] := by
    unfold inTimeOrder
    rw [matching_of_not_processed h]
    rfl
  have hoffset : offsetPage db q n = [] := by
    rw [offsetPage, hempty, List.drop_nil, List.take_nil]
  rw [lastRows, hoffset, rest_of_not_processed h, ite_self, ite_self]

/-- **A bound for the blocks** needs the join, in which the hash is ambiguous. -/
theorem refused_of_join (hsort : q.sortBy ≠ some .txTime) (hjoin : needsTxTimeJoin q = true) (r : MessageRow) :
    (mainSelect db (behind db q r)).Refused db n := by
  have hblocks : (q.startBlock.isSome || q.endBlock.isSome) = true := by
    rw [needsTxTimeJoin, decide_eq_false hsort, Bool.false_or] at hjoin
    exact hjoin
  have hclause : Clause.inBlocks q.startBlock q.endBlock ∈ (mainSelect db (behind db q r)).clauses := by
    refine List.mem_append_left _ (List.mem_append_right _ ?_)
    show _ ∈ andBlocks (behind db q r)
    unfold andBlocks
    rw [if_pos (show ((behind db q r).startBlock.isSome || (behind db q r).endBlock.isSome) = true from hblocks)]
    exact List.mem_cons_self
  have hsource : (mainSelect db (behind db q r)).source = .joined := if_pos hjoin
  refine .inl ⟨_, hclause, "item_hash", List.mem_cons_self, ?_⟩
  rw [hsource]
  decide

/-- **The last page**: what is left, nothing if the query is refused, or a page by number. -/
theorem pageBehind_of_last (hprint : PrintsTimes db n) (hr : r ∈ n.messages) (hsort : q.sortBy ≠ some .txTime)
    (hlimited : unlimited q = false) (h : ¬ Continues db q n r) :
    ∃ messages, pageBehind db q n (rowCursor db r) = some (messages, none) ∧
      Lists db messages (lastRows db q n r) := by
  cases hprocessed : includeProcessed db q with
  | false =>
    have hrun := run_listMessages_none (n := n) (show includeProcessed db (behind db q r) = false from hprocessed)
    rw [lastRows_of_not_processed hprocessed]
    exact ⟨[], pageBehind_of_run hrun, List.Forall₂.nil⟩
  | true =>
    have hprocessed' : includeProcessed db (behind db q r) = true := hprocessed
    obtain ⟨found, hrun⟩ := run_listMessages (n := n) hprocessed'
    rw [pageBehind_of_run hrun]
    have hrows : hasMore db (behind db q r) (foundRows db (behind db q r) n) = false ∧
        foundRows db (behind db q r) n = lastRows db q n r := by
      by_cases hrefused : (mainSelect db (behind db q r)).Refused db n
      · rw [foundRows_of_refused hrefused, lastRows, if_pos hrefused]
        refine ⟨?_, rfl⟩
        rw [hasMore, Bool.and_eq_false_iff]
        exact .inr (decide_eq_false (by simp))
      · have hjoin : needsTxTimeJoin q = false := by
          by_contra hnot
          exact hrefused (refused_of_join hsort (by simpa using hnot) r)
        rw [lastRows, if_neg hrefused]
        by_cases hhash : r.itemHash = ""
        · have hparts : cursorParts db (behind db q r) = none :=
            (parseCursor_rowCursor hprint hr).trans (if_pos hhash)
          have hinactive : cursorActive db (behind db q r) = false := by
            rw [cursorActive, hparts]
            rfl
          have horder : inOrder db (behind db q r) n = inTimeOrder db q n := by
            have hjoin' : needsTxTimeJoin (behind db q r) = false := hjoin
            unfold inOrder
            rw [matching_behind, hjoin']
            rfl
          have hlimited' : unlimited (behind db q r) = false := hlimited
          rw [if_pos hhash, foundRows_of_page hprocessed' hinactive hrefused, horder, hlimited',
            if_neg Bool.false_ne_true]
          refine ⟨?_, rfl⟩
          rw [hasMore, hinactive]
          rfl
        · have hfits : (rest db q n r).length ≤ (perPage q).toNat := by
            by_contra hmore
            exact h ⟨hrefused, hhash, by omega⟩
          rw [if_neg hhash, foundRows_behind hprint hr hjoin hlimited hhash hprocessed hrefused,
            List.take_of_length_le (by omega)]
          refine ⟨?_, rfl⟩
          rw [hasMore, Bool.and_eq_false_iff]
          exact .inr (decide_eq_false (not_lt.2 hfits))
    rw [← hrows.2]
    exact readPage_respond hrows.1 _ found

end Requests

/-! ## What the cursors enumerate -/

section Reached

variable {α : Type} {next : α → α → Prop} {P : α → Prop} {a b : α}

/-- What is reached where one step leads on. -/
theorem forall_reached_of_next (h : next a b) (hunique : ∀ c, next a c → c = b) :
    (∀ c, Relation.ReflTransGen next a c → P c) ↔ P a ∧ ∀ c, Relation.ReflTransGen next b c → P c := by
  constructor
  · exact fun hall => ⟨hall a .refl, fun c hc => hall c (.head h hc)⟩
  · rintro ⟨ha, hb⟩ c hc
    rcases hc.cases_head with rfl | ⟨d, hd, hc⟩
    · exact ha
    · rw [hunique d hd] at hc
      exact hb c hc

theorem forall_reached_of_stop (h : ∀ c, ¬ next a c) : (∀ c, Relation.ReflTransGen next a c → P c) ↔ P a := by
  constructor
  · exact fun hall => hall a .refl
  · rintro ha c hc
    rcases hc.cases_head with rfl | ⟨d, hd, -⟩
    · exact ha
    · exact absurd hd (h d)

end Reached

section Enumerate

variable {db q n} {r s : MessageRow}

/-- The rest gets shorter with every page. -/
theorem rest_shorter (hlimited : unlimited q = false) (h : PageEnd db q n r s) :
    (rest db q n s).length < (rest db q n r).length := by
  have hpos := perPage_pos hlimited
  rw [rest_of_getElem hpos h.2, List.length_drop]
  exact Nat.sub_lt (hpos.trans h.1) hpos

theorem pageEnd_unique {t : MessageRow} (h : PageEnd db q n r s) (h' : PageEnd db q n r t) : t = s :=
  Option.some.inj (h'.2.symm.trans h.2)

/-- A served row with more behind it than fits on a page has another page. -/
theorem continues_of_served (h : Served db q n r) (hmore : (perPage q).toNat < (rest db q n r).length) :
    Continues db q n r := by
  have hrefused : ¬ (mainSelect db (behind db q r)).Refused db n := by
    intro hrefused
    rw [h.refused hrefused, List.length_nil] at hmore
    omega
  refine ⟨hrefused, fun hhash => ?_, hmore⟩
  have hlength := congrArg List.length (h.emptyHash hrefused hhash)
  rw [offsetPage, List.length_take] at hlength
  omega

theorem served_of_continues (h : Continues db q n r) : Served db q n r :=
  ⟨fun hrefused => absurd hrefused h.1, fun _ hhash => absurd hhash h.2.1⟩

/-- The last page is right exactly if its row is served. -/
theorem lastRows_eq_iff : lastRows db q n r = rest db q n r ↔ Served db q n r := by
  unfold lastRows
  by_cases hrefused : (mainSelect db (behind db q r)).Refused db n
  · rw [if_pos hrefused]
    exact ⟨fun hnil => ⟨fun _ => hnil.symm, fun hnot => absurd hrefused hnot⟩, fun h => (h.refused hrefused).symm⟩
  · rw [if_neg hrefused]
    by_cases hhash : r.itemHash = ""
    · rw [if_pos hhash]
      exact ⟨fun hpage => ⟨fun h => absurd h hrefused, fun _ _ => hpage⟩, fun h => h.emptyHash hrefused hhash⟩
    · rw [if_neg hhash]
      exact iff_of_true rfl ⟨fun h => absurd h hrefused, fun _ h => absurd h hhash⟩

theorem Lists.append {ms ms' : List MessageResponse} {rows rows' : List MessageRow} (h : Lists db ms rows)
    (h' : Lists db ms' rows') : Lists db (ms ++ ms') (rows ++ rows') := List.rel_append h h'

/-- With the first page taken away, the others are listed. -/
theorem Lists.behind {ms ms' : List MessageResponse} {rows rows' : List MessageRow} (h : Lists db ms rows)
    (h' : Lists db (ms ++ ms') (rows ++ rows')) : Lists db ms' rows' := by
  have hdrop := List.forall₂_drop_append _ _ _ h'
  rwa [← h.length_eq, List.drop_left] at hdrop

/-- Behind a page in between, the rest is to be enumerated. -/
theorem enumerates_of_continues (hprint : PrintsTimes db n) (hr : r ∈ n.messages) (hsort : q.sortBy ≠ some .txTime)
    (hlimited : unlimited q = false) (h : Continues db q n r) :
    ∃ s, PageEnd db q n r s ∧ (Enumerates db q n r ↔ Enumerates db q n s) := by
  have hjoin : needsTxTimeJoin q = false := by
    by_contra hnot
    exact h.1 (refused_of_join hsort (by simpa using hnot) r)
  obtain ⟨s, messages, hend, hpage, hlists⟩ := pageBehind_of_continues hprint hr hjoin hlimited h
  have hrest : rest db q n r = (rest db q n r).take (perPage q).toNat ++ rest db q n s := by
    rw [rest_of_getElem (perPage_pos hlimited) hend.2, List.take_append_drop]
  have hfollow : ∀ requests, follow db q n (requests + 1) (rowCursor db r) =
      (follow db q n requests (rowCursor db s)).map (messages ++ ·) := by
    intro requests
    rw [follow, hpage]
  refine ⟨s, hend, ?_, ?_⟩
  · rintro ⟨requests, all, hall, hlisted⟩
    cases requests with
    | zero => cases hall
    | succ requests =>
      rw [hfollow, Option.map_eq_some_iff] at hall
      obtain ⟨others, hothers, rfl⟩ := hall
      rw [hrest] at hlisted
      exact ⟨requests, others, hothers, hlists.behind hlisted⟩
  · rintro ⟨requests, others, hothers, hlisted⟩
    refine ⟨requests + 1, messages ++ others, ?_, ?_⟩
    · rw [hfollow, hothers]
      rfl
    · rw [hrest]
      exact hlists.append hlisted

theorem enumerates_of_last (hprint : PrintsTimes db n) (hr : r ∈ n.messages) (hsort : q.sortBy ≠ some .txTime)
    (hlimited : unlimited q = false) (h : ¬ Continues db q n r) : Enumerates db q n r ↔ Served db q n r := by
  obtain ⟨messages, hpage, hlists⟩ := pageBehind_of_last hprint hr hsort hlimited h
  rw [← lastRows_eq_iff]
  constructor
  · rintro ⟨requests, all, hall, hlisted⟩
    cases requests with
    | zero => cases hall
    | succ requests =>
      rw [follow, hpage] at hall
      obtain rfl := Option.some.inj hall
      have hmem : ∀ t ∈ lastRows db q n r, t ∈ n.messages := by
        intro t ht
        unfold lastRows at ht
        split_ifs at ht
        · exact absurd ht List.not_mem_nil
        · exact List.mem_of_mem_filter (mem_inTimeOrder.1 (List.mem_of_mem_drop (List.mem_of_mem_take ht)))
        · exact mem_of_mem_rest ht
      exact eq_of_hashes hmem (fun t ht => mem_of_mem_rest ht) (hlists.hashes.symm.trans hlisted.hashes)
  · intro hrows
    refine ⟨1, messages, ?_, hrows ▸ hlists⟩
    rw [follow, hpage]

/-- **Following the cursors** lists the messages behind a row, each once and in order, exactly if the request behind
that row and those behind the last rows of the pages are served. -/
theorem enumerates_iff (hprint : PrintsTimes db n) (hsort : q.sortBy ≠ some .txTime) (hlimited : unlimited q = false)
    (hr : r ∈ n.messages) :
    Enumerates db q n r ↔ ∀ s, Relation.ReflTransGen (PageEnd db q n) r s → Served db q n s := by
  induction hk : (rest db q n r).length using Nat.strong_induction_on generalizing r with
  | _ k ih =>
    by_cases hcontinues : Continues db q n r
    · obtain ⟨s, hend, hiff⟩ := enumerates_of_continues hprint hr hsort hlimited hcontinues
      have hshorter : (rest db q n s).length < k := hk ▸ rest_shorter hlimited hend
      have hs : s ∈ n.messages := mem_of_mem_rest (List.mem_of_getElem? hend.2)
      have hnext := forall_reached_of_next (P := Served db q n) hend fun t ht => pageEnd_unique hend ht
      rw [hiff, ih _ hshorter hs rfl, hnext, and_iff_right (served_of_continues hcontinues)]
    · rw [enumerates_of_last hprint hr hsort hlimited hcontinues]
      by_cases hmore : (perPage q).toNat < (rest db q n r).length
      · have hunserved : ¬ Served db q n r := fun h => hcontinues (continues_of_served h hmore)
        exact iff_of_false hunserved fun h => hunserved (h r .refl)
      · have hstop : ∀ t, ¬ PageEnd db q n r t := fun t ht => hmore ht.1
        exact (forall_reached_of_stop hstop).symm

theorem mem_of_reached (hr : r ∈ n.messages) (h : Relation.ReflTransGen (PageEnd db q n) r s) : s ∈ n.messages := by
  cases h with
  | refl => exact hr
  | tail _ hend => exact mem_of_mem_rest (List.mem_of_getElem? hend.2)

end Enumerate

/-! ## A message to a page -/

section Sample

/-- One message to a page, the latest first. -/
def cursorQuery : MessageQuery := { sampleQuery with pagination := some 1, page := none }

example : parseCursor sampleDb "200_Qm_a" = some (200, "Qm_a") := by decide +kernel

theorem sample_prints : PrintsTimes sampleDb sampleNode := by
  have hrows : ∀ r ∈ sampleNode.messages.rows, sampleDb.parseTime (sampleDb.printTime r.time) = some r.time ∧
      '_' ∉ (sampleDb.printTime r.time).toList := by
    decide +kernel
  exact hrows

/-- Behind the latest message come the two of one second, each on a page of its own. -/
theorem sample_enumerated :
    (rest sampleDb cursorQuery sampleNode (sampleRow "Qm" 200)).map MessageRow.itemHash = ["Qm_a", "Qm_b"] ∧
      Enumerates sampleDb cursorQuery sampleNode (sampleRow "Qm" 200) := by
  have hserved : ∀ r ∈ sampleNode.messages.rows, ¬ (mainSelect sampleDb (behind sampleDb cursorQuery r)).Refused sampleDb
      sampleNode ∧ r.itemHash ≠ "" := by
    decide +kernel
  have hmem : sampleRow "Qm" 200 ∈ sampleNode.messages := by
    rw [Table.mem_def]
    decide +kernel
  refine ⟨by decide +kernel, (enumerates_iff sample_prints (by decide) (by decide) hmem).2 fun s hs => ?_⟩
  obtain ⟨hrefused, hhash⟩ := hserved s (mem_of_reached hmem hs)
  exact ⟨fun h => absurd h hrefused, fun _ h => absurd h hhash⟩

/-- A message of block 500 comes behind another one of that block. -/
def confirmedNode : Node :=
  { sampleNode with
    chainTxs := sampleNode.chainTxs.insertNew ⟨"0x02", "ETH", 500, "Qm_a"⟩ }

/-- An old message has no hash. -/
def namelessNode : Node :=
  { Node.empty with
    messages := (Table.empty.insertNew (sampleRow "" 200)).insertNew (sampleRow "Qm" 100) }

/-- With a bound for the blocks the message behind is not listed; and behind an empty hash the first page is, though
another message comes next. -/
theorem sample_lost :
    ((rest sampleDb { cursorQuery with startBlock := some 400 } confirmedNode (sampleRow "Qm" 200)).map
        MessageRow.itemHash = ["Qm_a"] ∧
      ¬ Enumerates sampleDb { cursorQuery with startBlock := some 400 } confirmedNode (sampleRow "Qm" 200)) ∧
    (rest sampleDb cursorQuery namelessNode (sampleRow "" 200)).map MessageRow.itemHash = ["Qm"] ∧
      ¬ Enumerates sampleDb cursorQuery namelessNode (sampleRow "" 200) := by
  refine ⟨⟨by decide +kernel, fun h => ?_⟩, by decide +kernel, fun h => ?_⟩
  · have hprints : PrintsTimes sampleDb confirmedNode := sample_prints
    have hrefused : (mainSelect sampleDb (behind sampleDb { cursorQuery with startBlock := some 400 }
        (sampleRow "Qm" 200))).Refused sampleDb confirmedNode := by
      decide +kernel
    have hmem : sampleRow "Qm" 200 ∈ confirmedNode.messages := by
      rw [Table.mem_def]
      decide +kernel
    have hserved := (enumerates_of_last hprints hmem (by decide) (by decide) fun h' => h'.1 hrefused).1 h
    have hlength := congrArg List.length (hserved.refused hrefused)
    exact absurd hlength (by decide +kernel)
  · have hprints : ∀ r ∈ namelessNode.messages.rows, sampleDb.parseTime (sampleDb.printTime r.time) = some r.time ∧
        '_' ∉ (sampleDb.printTime r.time).toList := by
      decide +kernel
    have hrefused : ¬ (mainSelect sampleDb (behind sampleDb cursorQuery (sampleRow "" 200))).Refused sampleDb
        namelessNode := by
      decide +kernel
    have hmem : sampleRow "" 200 ∈ namelessNode.messages := by
      rw [Table.mem_def]
      decide +kernel
    have hserved := (enumerates_of_last hprints hmem (by decide) (by decide) fun h' => h'.2.1 rfl).1 h
    have hpage := congrArg (List.map MessageRow.itemHash) (hserved.emptyHash hrefused rfl)
    exact absurd hpage (by decide +kernel)

end Sample

end AlephCore.Web.Messages
