import AlephCore.Jobs.Backfill
import AlephCore.Lib.Faults
import AlephCore.Lib.Latest
import AlephCore.Lib.Pages
import AlephCore.Lib.Serde
import Mathlib.Algebra.Order.Ring.Unbundled.Rat

/-!
# BackfillSpec — what the backfill of the posts leaves in the table

Every POST message that is stored with a content and has no row gets one, whether it was ever accepted or not; no
other row is made, and a post named by amends gets the newest of them as its latest.  A batch that ends between two
messages of one time would leave some of them out.
-/

namespace AlephCore.Backfill

open ProgE Env

/-! ## Batches -/

/-- The times the cursor of a type comes to. -/
inductive Visited (ctx : BackfillContext) (t : MessageType) (n : Node) : Timestamp → Prop
  | start : Visited ctx t n 0
  | next {lastTime time : Timestamp} (h : Visited ctx t n lastTime)
      (hcursor : batchCursor ctx t lastTime n = some (time, true)) : Visited ctx t n time

/-- A message of the type that the cursor counts. -/
def Counted (t : MessageType) (r : MessageRow) : Prop := r.messageType = t ∧ r.itemContent.isSome

instance (t : MessageType) (r : MessageRow) : Decidable (Counted t r) := inferInstanceAs (Decidable (_ ∧ _))

/-- No full batch ends between two messages of one time. -/
def NoSplitTies (ctx : BackfillContext) (t : MessageType) (n : Node) : Prop :=
  ∀ lastTime time, Visited ctx t n lastTime → batchCursor ctx t lastTime n = some (time, true) →
    (n.messages.rows.countP fun r => decide (Counted t r ∧ lastTime < r.time ∧ r.time ≤ time)) ≤ backfillBatchSize

/-- The counted messages after a time. -/
def left (t : MessageType) (lastTime : Timestamp) (n : Node) : Nat :=
  n.messages.rows.countP fun r => decide (Counted t r ∧ lastTime < r.time)

section Batches

variable {ctx : BackfillContext} {t : MessageType} {derived : List ItemHash} {lastTime time : Timestamp} {n s : Node}
  {r : MessageRow}

/-- The messages of a batch, sorted, before the limit is applied. -/
def sortedAfter (ctx : BackfillContext) (p : MessageRow → Prop) [DecidablePred p] (lastTime : Timestamp) (n : Node) :
    List MessageRow :=
  byTime ((ctx.order.scan n.messages.rows).filter fun r => decide (p r ∧ lastTime < r.time))

theorem sortedAfter_pairwise (p : MessageRow → Prop) [DecidablePred p] :
    (sortedAfter ctx p lastTime n).Pairwise fun a b => a.time ≤ b.time := by
  have hsorted := List.pairwise_insertionSort (fun a b : MessageRow => a.time ≤ b.time)
    ((ctx.order.scan n.messages.rows).filter fun r => decide (p r ∧ lastTime < r.time))
  exact hsorted

theorem mem_sortedAfter {p : MessageRow → Prop} [DecidablePred p] :
    r ∈ sortedAfter ctx p lastTime n ↔ r ∈ n.messages ∧ p r ∧ lastTime < r.time := by
  rw [sortedAfter, byTime, List.mem_insertionSort, List.mem_filter, SqlOrder.mem_scan, decide_eq_true_eq]
  rfl

theorem perm_sortedAfter {p : MessageRow → Prop} [DecidablePred p] :
    (sortedAfter ctx p lastTime n).Perm (n.messages.rows.filter fun r => decide (p r ∧ lastTime < r.time)) :=
  (List.perm_insertionSort _ _).trans ((ctx.order.perm _).filter _)

theorem countP_sortedAfter {p : MessageRow → Prop} [DecidablePred p] (q : MessageRow → Prop) [DecidablePred q] :
    (sortedAfter ctx p lastTime n).countP (fun r => decide (q r)) =
      n.messages.rows.countP fun r => decide (q r ∧ p r ∧ lastTime < r.time) := by
  rw [perm_sortedAfter.countP_eq, List.countP_filter]
  refine List.countP_congr fun r _ => ?_
  simp only [Bool.and_eq_true, decide_eq_true_eq]

theorem length_sortedAfter : (sortedAfter ctx (Counted t) lastTime n).length = left t lastTime n := by
  rw [perm_sortedAfter.length_eq, left, List.countP_eq_length_filter]

theorem rawBatch_eq :
    rawBatch ctx t derived lastTime n = (sortedAfter ctx (Missing t derived) lastTime n).take backfillBatchSize := rfl

theorem batchCursor_eq :
    batchCursor ctx t lastTime n = ((sortedAfter ctx (Counted t) lastTime n).take backfillBatchSize).getLast?.map
      fun r => (r.time, decide (backfillBatchSize ≤
        ((sortedAfter ctx (Counted t) lastTime n).take backfillBatchSize).length)) := by
  have hfilter : ((ctx.order.scan n.messages.rows).filter fun r =>
      decide (r.messageType = t ∧ r.itemContent.isSome ∧ lastTime < r.time)) =
        (ctx.order.scan n.messages.rows).filter fun r => decide (Counted t r ∧ lastTime < r.time) := by
    refine List.filter_congr fun r _ => ?_
    rw [decide_eq_decide, Counted, and_assoc]
  rw [batchCursor, hfilter]
  rfl

theorem Missing.counted (h : Missing t derived r) : Counted t r := by
  obtain ⟨htype, ⟨s, hs, -⟩, -⟩ := h
  exact ⟨htype, Option.isSome_iff_exists.2 ⟨s, hs⟩⟩

/-- The cursor ends where nothing is left. -/
theorem not_lt_of_no_cursor (h : batchCursor ctx t lastTime n = none) (hr : r ∈ n.messages) (hcounted : Counted t r) :
    r.time ≤ lastTime := by
  rw [batchCursor_eq, Option.map_eq_none_iff, List.getLast?_eq_none_iff, List.take_eq_nil_iff] at h
  by_contra hlt
  rcases h with h | h
  · exact absurd h (by decide)
  · have hmem : r ∈ sortedAfter ctx (Counted t) lastTime n := mem_sortedAfter.2 ⟨hr, hcounted, not_le.1 hlt⟩
    rw [h] at hmem
    exact absurd hmem List.not_mem_nil

/-- The last batch holds everything that is left. -/
theorem mem_rawBatch_of_last (h : batchCursor ctx t lastTime n = some (time, false)) (hr : r ∈ n.messages)
    (hmissing : Missing t derived r) (hlt : lastTime < r.time) : r ∈ rawBatch ctx t derived lastTime n := by
  rw [batchCursor_eq, Option.map_eq_some_iff] at h
  obtain ⟨last, -, h⟩ := h
  have hnot : ((sortedAfter ctx (Counted t) lastTime n).take backfillBatchSize).length < backfillBatchSize :=
    not_le.1 (of_decide_eq_false (Prod.mk.inj h).2)
  rw [List.length_take, length_sortedAfter] at hnot
  have hsub : (sortedAfter ctx (Missing t derived) lastTime n).length ≤ left t lastTime n := by
    rw [perm_sortedAfter.length_eq, left, List.countP_eq_length_filter]
    refine List.Sublist.length_le (List.monotone_filter_right _ fun r h => ?_)
    rw [decide_eq_true_eq] at h ⊢
    exact ⟨h.1.counted, h.2⟩
  rw [rawBatch_eq]
  refine Pages.mem_take_of_length_lt ?_ (mem_sortedAfter.2 ⟨hr, hmissing, hlt⟩)
  rw [List.length_take]
  omega

/-- A batch that splits no ties holds everything up to the next cursor. -/
theorem mem_rawBatch_of_next (hties : NoSplitTies ctx t n) (hvisited : Visited ctx t n lastTime)
    (h : batchCursor ctx t lastTime n = some (time, true)) (hr : r ∈ n.messages) (hmissing : Missing t derived r)
    (hlt : lastTime < r.time) (hle : r.time ≤ time) : r ∈ rawBatch ctx t derived lastTime n := by
  have hcount : (sortedAfter ctx (Missing t derived) lastTime n).countP (fun r => decide (r.time ≤ time)) ≤
      backfillBatchSize := by
    rw [countP_sortedAfter fun r => r.time ≤ time]
    refine le_trans (List.countP_mono_left fun r _ h => ?_) (hties lastTime time hvisited h)
    rw [decide_eq_true_eq] at h ⊢
    exact ⟨h.2.1.counted, h.2.2, h.1⟩
  exact Pages.mem_take_of_countP_le (sortedAfter_pairwise _) hcount (mem_sortedAfter.2 ⟨hr, hmissing, hlt⟩) hle

/-- The cursor moves on. -/
theorem lt_of_next {full : Bool} (h : batchCursor ctx t lastTime n = some (time, full)) : lastTime < time := by
  rw [batchCursor_eq, Option.map_eq_some_iff] at h
  obtain ⟨last, hlast, h⟩ := h
  obtain ⟨rfl, -⟩ := Prod.mk.inj h
  have hmem := List.mem_of_mem_take (List.mem_of_getLast? hlast)
  exact (mem_sortedAfter.1 hmem).2.2

/-- With every full batch there is less left. -/
theorem left_of_next (h : batchCursor ctx t lastTime n = some (time, true)) :
    left t time n + backfillBatchSize ≤ left t lastTime n := by
  have hpast : lastTime < time := lt_of_next h
  rw [batchCursor_eq, Option.map_eq_some_iff] at h
  obtain ⟨last, hlast, h⟩ := h
  obtain ⟨rfl, hfull⟩ := Prod.mk.inj h
  have hcount : (sortedAfter ctx (Counted t) lastTime n).countP (fun r => decide (last.time < r.time)) +
      backfillBatchSize ≤ (sortedAfter ctx (Counted t) lastTime n).length :=
    Pages.countP_after_full (sortedAfter_pairwise (Counted t)) hlast (of_decide_eq_true hfull)
  have hleft : (sortedAfter ctx (Counted t) lastTime n).countP (fun r => decide (last.time < r.time)) =
      left t last.time n := by
    rw [countP_sortedAfter fun r => last.time < r.time, left]
    refine List.countP_congr fun r _ => ?_
    rw [decide_eq_true_eq, decide_eq_true_eq]
    exact ⟨fun ⟨h, hc, _⟩ => ⟨hc, h⟩, fun ⟨hc, h⟩ => ⟨h, hc, hpast.trans h⟩⟩
  rw [length_sortedAfter, hleft] at hcount
  exact hcount

end Batches

/-! ## The loop -/

section Loop

variable {insert : Timestamp → Db DbError Unit} {cursor : Timestamp → Node → Option (Timestamp × Bool)}
  {I : Timestamp → Node → Prop} {J : Node → Prop} {m : Timestamp → Nat} {size : Nat} {n : Node}

/-- **A loop over batches succeeds** if every batch does and leaves less to do. -/
theorem run_batches (hinsert : ∀ lastTime n, I lastTime n → ∃ n', (insert lastTime).run.run n = (.ok (), n') ∧
      match cursor lastTime n' with
      | some (time, true) => I time n' ∧ m time + size ≤ m lastTime
      | _ => J n')
    {rounds : Nat} {lastTime : Timestamp} (hrounds : m lastTime < size * rounds) (h : I lastTime n) :
    ∃ n', (batches insert cursor rounds lastTime).run.run n = (.ok (), n') ∧ J n' := by
  induction rounds generalizing lastTime n with
  | zero => omega
  | succ rounds ih =>
    obtain ⟨n', hrun, hnext⟩ := hinsert lastTime n h
    obtain ⟨k, hk, hnone, hsome⟩ : ∃ k : Option (Timestamp × Bool) → Db DbError Unit,
        batches insert cursor (rounds + 1) lastTime = (insert lastTime >>= fun _ => query (cursor lastTime) >>= k) ∧
        k none = pure () ∧
        ∀ time full, k (some (time, full)) = if full then batches insert cursor rounds time else pure () :=
      ⟨_, rfl, rfl, fun _ _ => rfl⟩
    rw [hk, run_bind_ok hrun, run_bind_ok (run_query _ _)]
    cases hcursor : cursor lastTime n' with
    | none =>
      rw [hcursor] at hnext
      rw [hnone]
      exact ⟨n', rfl, hnext⟩
    | some c =>
      obtain ⟨time, full⟩ := c
      rw [hcursor] at hnext
      rw [hsome]
      cases full with
      | false => exact ⟨n', rfl, hnext⟩
      | true =>
        obtain ⟨hI, hless⟩ := hnext
        rw [Nat.mul_succ] at hrounds
        exact ih (by omega) hI

/-- What every statement of a batch does, the loop does. -/
theorem moves_batches {R : Node → Node → Prop} [IsPreorder Node R] (hinsert : ∀ time, Prog.Moves R (insert time).run)
    (rounds : Nat) (lastTime : Timestamp) : Prog.Moves R (batches insert cursor rounds lastTime).run := by
  induction rounds generalizing lastTime with
  | zero => exact moves_pure ()
  | succ rounds ih =>
    refine moves_bind (hinsert lastTime) fun _ => moves_bind (moves_query _) fun next => ?_
    cases next with
    | none => exact moves_pure ()
    | some next =>
      dsimp only
      split_ifs
      · exact ih next.1
      · exact moves_pure ()

end Loop

theorem moves_insertRows {R : Node → Node → Prop} [Std.Refl R] {ρ : Type} {rows : Node → Cast (List ρ)}
    {insert : ρ → Node → Node} (h : ∀ n rs, rows n = .ok rs → R n (rs.foldl (fun n r => insert r n) n)) :
    Prog.Moves R (insertRows rows insert).run := by
  refine moves_sql fun n => ?_
  cases hrows : rows n with
  | error e => exact refl_of R n
  | ok rs => exact h n rs hrows

/-- What every statement of the backfill does, the backfill does. -/
theorem moves_runStartupBackfill {R : Node → Node → Prop} [IsPreorder Node R] {ctx : BackfillContext}
    (hinsertPosts : ∀ time, Prog.Moves R (insertPosts ctx time).run)
    (hlatest : Prog.Moves R (updateLatestAmends ctx).run)
    (hinsertElements : ∀ time, Prog.Moves R (insertElements ctx time).run)
    (hmark : Prog.Moves R (markAggregates ctx).run)
    (hinstances : Prog.Moves R (backfillInstances ctx).run) (hprograms : Prog.Moves R (backfillPrograms ctx).run)
    (hdenorm : ∀ time, Prog.Moves R (denormStep ctx time).run) (hstatus : Prog.Moves R updateStatus.run) :
    Prog.Moves R (runStartupBackfill ctx).run := by
  have hposts : Prog.Moves R (backfillPosts ctx).run :=
    moves_bind (moves_batches hinsertPosts _ _) fun _ => moves_ignore hlatest
  have hindex : Prog.Moves R createUniqueIndex.run := by
    refine moves_sql fun n => ?_
    split_ifs
    · exact refl_of R n
    · exact refl_of R n
  have haggregates : Prog.Moves R (backfillAggregates ctx).run :=
    moves_bind hindex fun _ => moves_bind (moves_batches hinsertElements _ _) fun _ => moves_ignore hmark
  have hbatches : ∀ rounds time, Prog.Moves R (denormBatches ctx rounds time).run := by
    intro rounds
    induction rounds with
    | zero => exact fun _ => moves_pure ()
    | succ rounds ih =>
      refine fun time => moves_bind (hdenorm time) fun cursor => ?_
      cases cursor with
      | none => exact moves_pure ()
      | some cursor =>
        dsimp only
        split_ifs
        · exact ih cursor.1
        · exact moves_pure ()
  have hmessages : Prog.Moves R (backfillMessageDenorm ctx).run :=
    moves_bind (hbatches _ _) fun _ => moves_ignore hstatus
  have hall : Prog.Moves R (runBackfills ctx).run :=
    moves_bind (moves_ignore hposts) fun _ => moves_bind (moves_ignore haggregates) fun _ =>
      moves_bind (moves_ignore hinstances) fun _ => moves_bind (moves_ignore hprograms) fun _ =>
        moves_ignore hmessages
  refine moves_bind (moves_query _) fun pendingCount => moves_bind (moves_query _) fun needed => ?_
  split_ifs
  · exact moves_pure ()
  · exact hall
  · exact moves_pure ()

/-! ## The rows that are made -/

theorem itemHash_of_elementOf {r : MessageRow} {e : AggregateElement} (h : elementOf env r = .ok (some e)) :
    e.itemHash = r.itemHash := by
  obtain ⟨jb, -, h⟩ := Serde.bind_ok.1 h
  obtain ⟨time, -, h⟩ := Serde.bind_ok.1 h
  obtain ⟨key, -, h⟩ := Option.bind_eq_some_iff.1 (Except.ok.inj h)
  obtain ⟨address, -, h⟩ := Option.bind_eq_some_iff.1 h
  obtain rfl := Option.some.inj h
  rfl

/-- The post that a stored message makes: what the cast finds under the names of the fields. -/
theorem postOf_eq_some {env : Env} {r : MessageRow} {p : PostRecord} (h : postOf env r = .ok (some p)) :
    ∃ jb, contentJsonb env r = .ok jb ∧ contentTime env r jb = .ok p.time ∧
      env.jsonbGetText jb "type" = some p.postType ∧ p.itemHash = r.itemHash ∧
      p.originalItemHash = (if env.toLowercase p.postType = "amend" then env.jsonbGetText jb "ref" else none) ∧
      p.latestAmend = none := by
  obtain ⟨jb, hjb, h⟩ := Serde.bind_ok.1 h
  obtain ⟨time, htime, h⟩ := Serde.bind_ok.1 h
  have hsome := Except.ok.inj h
  obtain ⟨address, -, hsome⟩ := Option.bind_eq_some_iff.1 hsome
  obtain ⟨postType, htype, hsome⟩ := Option.bind_eq_some_iff.1 hsome
  obtain rfl := Option.some.inj hsome
  exact ⟨jb, hjb, htime, htype, rfl, rfl, rfl⟩

/-- A stored POST message without a row, and the row it makes. -/
structure Makes (env : Env) (n : Node) (r : MessageRow) (p : PostRecord) : Prop where
  stored : r ∈ n.messages
  missing : Missing .post (n.posts.rows.map PostRecord.itemHash) r
  positive : 0 < r.time
  makes : postOf env r = .ok (some p)

/-- The contents of the POST messages without a row can be cast. -/
def Castable (env : Env) (n : Node) : Prop :=
  ∀ r ∈ n.messages, Missing .post (n.posts.rows.map PostRecord.itemHash) r → 0 < r.time → ∃ o, postOf env r = .ok o

/-- The posts are filled: the rows there were, and those that the messages make. -/
structure Filled (env : Env) (n s : Node) : Prop where
  frame : s = { n with posts := s.posts }
  rows : ∀ p, p ∈ s.posts ↔ p ∈ n.posts ∨ ∃ r, Makes env n r p

/-- The posts are filled up to a time. -/
structure FilledTo (env : Env) (n : Node) (lastTime : Timestamp) (s : Node) : Prop where
  positive : 0 ≤ lastTime
  frame : s = { n with posts := s.posts }
  keeps : ∀ p ∈ n.posts, p ∈ s.posts
  sound : ∀ p ∈ s.posts, p ∈ n.posts ∨ ∃ r, Makes env n r p
  covered : ∀ r p, Makes env n r p → r.time ≤ lastTime → p ∈ s.posts

section Insert

variable {env : Env} {n s : Node} {r r' : MessageRow} {p p' : PostRecord} {lastTime : Timestamp}

theorem Makes.itemHash (h : Makes env n r p) : p.itemHash = r.itemHash := by
  obtain ⟨jb, -, -, -, hhash, -⟩ := postOf_eq_some h.makes
  exact hhash

theorem Makes.new (h : Makes env n r p) : ∀ q ∈ n.posts, q.itemHash ≠ p.itemHash := by
  intro q hq he
  refine h.missing.2.2 ?_
  rw [← h.itemHash, ← he]
  exact List.mem_map_of_mem hq

/-- The hash says which row is made. -/
theorem Makes.unique (h : Makes env n r p) (h' : Makes env n r' p') (he : p.itemHash = p'.itemHash) : p = p' := by
  have hhash : r.itemHash = r'.itemHash := by rw [← h.itemHash, ← h'.itemHash, he]
  obtain rfl := Table.eq_of_key h.stored h'.stored hhash
  exact Option.some.inj (Except.ok.inj (h.makes.symm.trans h'.makes))

/-- The statement inserts the posts of the batch. -/
theorem foldl_insertNew_node (ps : List PostRecord) (n : Node) :
    ps.foldl (fun n p => { n with posts := n.posts.insertNew p }) n =
      { n with posts := ps.foldl Table.insertNew n.posts } := by
  induction ps generalizing n with
  | nil => rfl
  | cons p ps ih =>
    rw [List.foldl_cons, ih]
    rfl

variable {ctx : BackfillContext}

theorem missing_mono {t : MessageType} {derived derived' : List ItemHash} (hsub : ∀ h ∈ derived', h ∈ derived)
    (h : Missing t derived r) : Missing t derived' r :=
  ⟨h.1, h.2.1, fun hold => h.2.2 (hsub _ hold)⟩

theorem run_insertPosts {ps : List PostRecord}
    (hps : ((rawBatch ctx .post (s.posts.rows.map PostRecord.itemHash) lastTime s).mapM (postOf ctx.env)).map
      (fun ps => ps.filterMap id) = .ok ps) :
    (insertPosts ctx lastTime).run.run s = (.ok (), { s with posts := ps.foldl Table.insertNew s.posts }) := by
  rw [insertPosts, insertRows, run_sql, hps, ← foldl_insertNew_node]

/-- **One batch** inserts the posts of its messages. -/
theorem FilledTo.insertPosts (h : FilledTo ctx.env n lastTime s) (hcast : Castable ctx.env n) :
    ∃ s', (insertPosts ctx lastTime).run.run s = (.ok (), s') ∧ s' = { n with posts := s'.posts } ∧
      (∀ p ∈ n.posts, p ∈ s'.posts) ∧ (∀ p ∈ s'.posts, p ∈ n.posts ∨ ∃ r, Makes ctx.env n r p) ∧
      ∀ r p, Makes ctx.env n r p → (r.time ≤ lastTime ∨
        ∀ derived, Missing .post derived r → r ∈ rawBatch ctx .post derived lastTime n) → p ∈ s'.posts := by
  have hmessages : s.messages = n.messages := by rw [h.frame]
  have hbatch : rawBatch ctx .post (s.posts.rows.map PostRecord.itemHash) lastTime s =
      rawBatch ctx .post (s.posts.rows.map PostRecord.itemHash) lastTime n := by
    rw [rawBatch, hmessages, rawBatch]
  have hhashes : ∀ x ∈ n.posts.rows.map PostRecord.itemHash, x ∈ s.posts.rows.map PostRecord.itemHash := by
    intro x hx
    obtain ⟨q, hq, rfl⟩ := List.mem_map.1 hx
    exact List.mem_map_of_mem (h.keeps q hq)
  -- what the batch takes was missing from the start
  have hmakes : ∀ r ∈ rawBatch ctx .post (s.posts.rows.map PostRecord.itemHash) lastTime n, r ∈ n.messages ∧
      Missing .post (n.posts.rows.map PostRecord.itemHash) r ∧ 0 < r.time := by
    intro r hr
    obtain ⟨hstored, hmissing, hlt⟩ := mem_sortedAfter.1 (List.mem_of_mem_take hr)
    exact ⟨hstored, missing_mono hhashes hmissing, h.positive.trans_lt hlt⟩
  obtain ⟨os, hos, hmem⟩ := Serde.mapM_ok (f := postOf ctx.env) fun r hr =>
    hcast r (hmakes r hr).1 (hmakes r hr).2.1 (hmakes r hr).2.2
  have hps : ∀ p, p ∈ os.filterMap id ↔
      ∃ r ∈ rawBatch ctx .post (s.posts.rows.map PostRecord.itemHash) lastTime n, postOf ctx.env r = .ok (some p) := by
    intro p
    rw [List.mem_filterMap]
    constructor
    · rintro ⟨o, ho, rfl⟩
      exact (hmem _).1 ho
    · rintro ⟨r, hr, hp⟩
      exact ⟨some p, (hmem _).2 ⟨r, hr, hp⟩, rfl⟩
  have hrun : (Backfill.insertPosts ctx lastTime).run.run s =
      (.ok (), { s with posts := (os.filterMap id).foldl Table.insertNew s.posts }) := by
    refine run_insertPosts ?_
    rw [hbatch, hos]
    rfl
  obtain ⟨hkeeps, hsound, hall⟩ := Table.foldl_insertNew (t := s.posts) (os.filterMap id)
  have hsound' : ∀ p ∈ (os.filterMap id).foldl Table.insertNew s.posts, p ∈ n.posts ∨ ∃ r, Makes ctx.env n r p := by
    intro p hp
    rcases hsound p hp with hp | hp
    · exact h.sound p hp
    · obtain ⟨r, hr, hmade⟩ := (hps p).1 hp
      obtain ⟨hstored, hmissing, hpositive⟩ := hmakes r hr
      exact .inr ⟨r, hstored, hmissing, hpositive, hmade⟩
  refine ⟨_, hrun, ?_, fun p hp => hkeeps p (h.keeps p hp), hsound', fun r p hp hcovered => ?_⟩
  · conv_lhs => rw [h.frame]
  -- the row of the hash is the one that is made
  suffices hrow : ∃ q ∈ (os.filterMap id).foldl Table.insertNew s.posts, q.itemHash = p.itemHash by
    obtain ⟨q, hq, he⟩ := hrow
    rcases hsound' q hq with hold | ⟨r', hq'⟩
    · exact absurd he (hp.new q hold)
    · rw [hp.unique hq' he.symm]
      exact hq
  by_cases hthere : p.itemHash ∈ s.posts.rows.map PostRecord.itemHash
  · obtain ⟨q, hq, he⟩ := List.mem_map.1 hthere
    exact ⟨q, hkeeps q hq, he⟩
  · rcases hcovered with hle | hbatched
    · exact ⟨p, hkeeps p (h.covered r p hp hle), rfl⟩
    · have hmissing : Missing .post (s.posts.rows.map PostRecord.itemHash) r :=
        ⟨hp.missing.1, hp.missing.2.1, hp.itemHash ▸ hthere⟩
      exact hall p ((hps p).2 ⟨r, hbatched _ hmissing, hp.makes⟩)

end Insert

/-! ## The whole backfill of the posts -/

section Posts

variable {ctx : BackfillContext} {n s : Node} {t : MessageType} {lastTime : Timestamp} {p : PostRecord}

theorem batchCursor_congr (h : s.messages = n.messages) :
    batchCursor ctx t lastTime s = batchCursor ctx t lastTime n := by
  rw [batchCursor, h, batchCursor]

theorem FilledTo.start : FilledTo ctx.env n 0 n where
  positive := le_rfl
  frame := rfl
  keeps _ hp := hp
  sound _ hp := .inl hp
  covered _ _ hp hle := absurd hp.positive (not_lt.2 hle)

/-- **The loop fills the posts**, if the contents can be cast, no batch splits a tie, and there are enough rounds. -/
theorem run_batches_posts (hcast : Castable ctx.env n) (hties : NoSplitTies ctx .post n)
    (hrounds : left .post 0 n < backfillBatchSize * ctx.rounds) :
    ∃ s, (batches (insertPosts ctx) (batchCursor ctx .post) ctx.rounds 0).run.run n = (.ok (), s) ∧
      Filled ctx.env n s := by
  refine run_batches (I := fun lastTime s => FilledTo ctx.env n lastTime s ∧ Visited ctx .post n lastTime)
    (m := fun lastTime => left .post lastTime n) (fun lastTime s h => ?_) hrounds ⟨FilledTo.start, .start⟩
  obtain ⟨hfilled, hvisited⟩ := h
  obtain ⟨s', hrun, hframe, hkeeps, hsound, hcovers⟩ := hfilled.insertPosts hcast
  refine ⟨s', hrun, ?_⟩
  have hcursor : batchCursor ctx .post lastTime s' = batchCursor ctx .post lastTime n :=
    batchCursor_congr (by rw [hframe])
  have hlast : (∀ r p, Makes ctx.env n r p → p ∈ s'.posts) → Filled ctx.env n s' := fun hall =>
    ⟨hframe, fun p => ⟨hsound p, fun hp => hp.elim (hkeeps p) fun ⟨r, hr⟩ => hall r p hr⟩⟩
  rw [hcursor]
  cases hnext : batchCursor ctx .post lastTime n with
  | none =>
    exact hlast fun r p hp => hcovers r p hp (.inl (not_lt_of_no_cursor hnext hp.stored hp.missing.counted))
  | some c =>
    obtain ⟨time, full⟩ := c
    cases full with
    | false =>
      refine hlast fun r p hp => hcovers r p hp ?_
      rcases le_or_gt r.time lastTime with hle | hlt
      · exact .inl hle
      · exact .inr fun derived hmissing => mem_rawBatch_of_last hnext hp.stored hmissing hlt
    | true =>
      have hpast : lastTime ≤ time := (lt_of_next hnext).le
      refine ⟨⟨⟨hfilled.positive.trans hpast, hframe, hkeeps, hsound, fun r p hp hle => hcovers r p hp ?_⟩,
        hvisited.next hnext⟩, left_of_next hnext⟩
      rcases le_or_gt r.time lastTime with hle' | hlt
      · exact .inl hle'
      · exact .inr fun derived hmissing => mem_rawBatch_of_next hties hvisited hnext hp.stored hmissing hlt hle

/-- The amends that name a post. -/
def naming (env : Env) (s : Node) (itemHash : ItemHash) : Set PostRecord :=
  {q | q ∈ s.posts ∧ env.toLowercase q.postType = "amend" ∧ q.originalItemHash = some itemHash}

/-- The newest of the amends that name a post, if there are any. -/
theorem latestAmendOf_spec (ctx : BackfillContext) (s : Node) (p : PostRecord) :
    (latestAmendOf ctx s p = none ∧ naming ctx.env s p.itemHash = ∅) ∨
    ∃ a, latestAmendOf ctx s p = some a.itemHash ∧ IsLatest PostRecord.time (naming ctx.env s p.itemHash) a := by
  set amends := (((ctx.order.scan s.posts.rows).filter fun q =>
    decide (ctx.env.toLowercase q.postType = "amend" ∧ q.originalItemHash = some p.itemHash)).insertionSort
      fun a b => b.time ≤ a.time) with hamends
  have hset : {q | q ∈ amends} = naming ctx.env s p.itemHash := by
    ext q
    rw [Set.mem_ofPred_eq, hamends, List.mem_insertionSort, List.mem_filter, SqlOrder.mem_scan, decide_eq_true_eq]
    rfl
  have hlatest : latestAmendOf ctx s p = amends.head?.map PostRecord.itemHash := rfl
  have hsorted : amends.Pairwise fun a b => b.time ≤ a.time :=
    List.pairwise_insertionSort (fun a b : PostRecord => b.time ≤ a.time) _
  cases hhead : amends.head? with
  | none =>
    refine .inl ⟨by rw [hlatest, hhead]; rfl, ?_⟩
    rw [← hset, List.head?_eq_none_iff.1 hhead]
    exact Set.eq_empty_of_forall_notMem fun q hq => List.not_mem_nil hq
  | some a => exact .inr ⟨a, by rw [hlatest, hhead]; rfl, hset ▸ IsLatest.of_head? hsorted hhead⟩

theorem amendNamed_itemHash (ctx : BackfillContext) (s : Node) (p : PostRecord) :
    ({ p with latestAmend := latestAmendOf ctx s p } : PostRecord).itemHash = p.itemHash := rfl

/-- The node with the newest amends named. -/
def amendsNamed (ctx : BackfillContext) (s : Node) : Node :=
  { s with
    posts := s.posts.update (fun p => (latestAmendOf ctx s p).isSome)
      (fun p => { p with latestAmend := latestAmendOf ctx s p }) (amendNamed_itemHash ctx s) }

theorem mem_amendsNamed {q : PostRecord} : q ∈ (amendsNamed ctx s).posts ↔
    ∃ p ∈ s.posts, q = { p with latestAmend := (latestAmendOf ctx s p).or p.latestAmend } := by
  rw [amendsNamed, Table.mem_update]
  constructor
  · rintro (⟨hq, hnone⟩ | ⟨p, hp, hsome, rfl⟩)
    · refine ⟨q, hq, ?_⟩
      rw [Option.not_isSome_iff_eq_none.1 hnone]
      rfl
    · refine ⟨p, hp, ?_⟩
      obtain ⟨h, hh⟩ := Option.isSome_iff_exists.1 hsome
      rw [hh, Option.some_or]
  · rintro ⟨p, hp, rfl⟩
    cases hlatest : latestAmendOf ctx s p with
    | none =>
      refine .inl ⟨hp, ?_⟩
      show ¬ (latestAmendOf ctx s p).isSome = true
      rw [hlatest]
      exact Bool.false_ne_true
    | some h =>
      refine .inr ⟨p, hp, ?_, ?_⟩
      · rw [hlatest]
        rfl
      · rw [hlatest, Option.some_or]

/-- **The backfill of the posts** fills the posts, and names the newest amends. -/
theorem run_backfillPosts (hcast : Castable ctx.env n) (hties : NoSplitTies ctx .post n)
    (hrounds : left .post 0 n < backfillBatchSize * ctx.rounds) :
    ∃ s, Filled ctx.env n s ∧ (backfillPosts ctx).run.run n = (.ok (), amendsNamed ctx s) := by
  obtain ⟨s, hrun, hfilled⟩ := run_batches_posts hcast hties hrounds
  refine ⟨s, hfilled, ?_⟩
  rw [backfillPosts, run_bind_ok hrun]
  rfl

end Posts

end AlephCore.Backfill
