import AlephCore.Jobs.BackfillSpec
import Mathlib.Logic.Relation

/-!
# BackfillComplete — which messages the backfill leaves without a row

The loop over the posts and the loop over the aggregate elements are one `Filling`.  The first batch starts behind the
time zero, and every other one behind the time the cursor of the one before it came to.  A message is left without a
row if its time is not positive, or if the limit of a batch cuts it off and the cursor passes it.
-/

namespace AlephCore.Backfill

open ProgE Prog Env Relation

/-! ## A table that is filled -/

/-- The content of the message has these fields. -/
def Names (env : Env) (fields : List String) (r : MessageRow) : Prop :=
  ∃ jb, contentJsonb env r = .ok jb ∧ ∀ f ∈ fields, (env.jsonbGetText jb f).isSome

/-- A table with one row for each message of a type whose content has some fields. -/
structure Filling (ctx : BackfillContext) (ρ : Type) where
  messageType : MessageType
  fields : List String
  make : MessageRow → Cast (Option ρ)
  hashOf : ρ → ItemHash
  derived : Node → List ItemHash
  put : ρ → Node → Node
  makes : ∀ {r : MessageRow} {o : Option ρ}, make r = .ok o →
    (o.isSome ↔ Names ctx.env fields r) ∧ ∀ p ∈ o, hashOf p = r.itemHash
  mem_put : ∀ {p : ρ} {n : Node} {h : ItemHash}, h ∈ derived (put p n) ↔ h ∈ derived n ∨ h = hashOf p
  messages_put : ∀ (p : ρ) (n : Node), (put p n).messages = n.messages

namespace Filling

variable {ctx : BackfillContext} {ρ : Type} (F : Filling ctx ρ)

/-- The messages of the batch behind a time. -/
def batch (lastTime : Timestamp) (n : Node) : List MessageRow :=
  rawBatch ctx F.messageType (F.derived n) lastTime n

def insert (lastTime : Timestamp) : Db DbError Unit :=
  insertRows (fun n => ((F.batch lastTime n).mapM F.make).map fun ps => ps.filterMap id) F.put

def cursor (lastTime : Timestamp) (n : Node) : Option (Timestamp × Bool) := batchCursor ctx F.messageType lastTime n

def loop : Db DbError Unit := batches F.insert F.cursor ctx.rounds 0

/-- A message that should have a row. -/
def Wanted (n : Node) (r : MessageRow) : Prop :=
  r ∈ n.messages ∧ r.messageType = F.messageType ∧ (∃ s ∈ r.itemContent, s ≠ "") ∧ Names ctx.env F.fields r

/-- **Every message that should have a row has one.** -/
def Complete (n : Node) : Prop := ∀ r, F.Wanted n r → r.itemHash ∈ F.derived n

/-- A full batch leads to the next one: the time behind which they start, and the node they find. -/
def Next (x y : Timestamp × Node) : Prop :=
  (F.insert x.1).run.run x.2 = (.ok (), y.2) ∧ F.cursor x.1 x.2 = some (y.1, true)

/-- Of the messages up to the next time, the limit of the batch cuts off none that should have a row. -/
def CutsNone (x : Timestamp × Node) : Prop :=
  ∀ time, F.cursor x.1 x.2 = some (time, true) → ∀ r, F.Wanted x.2 r → r.itemHash ∉ F.derived x.2 →
    x.1 < r.time → r.time ≤ time → r ∈ F.batch x.1 x.2

/-- No message that should have a row, and has none, is passed. -/
structure PassesNone (n : Node) : Prop where
  positive : ∀ r, F.Wanted n r → r.itemHash ∉ F.derived n → 0 < r.time
  cutsNone : ∀ x, ReflTransGen F.Next (0, n) x → F.CutsNone x

/-! ## One batch -/

section Batch

variable {F} {n s : Node} {r : MessageRow} {lastTime time : Timestamp}

theorem mem_foldl_put (ps : List ρ) (n : Node) : (ps.foldl (fun n p => F.put p n) n).messages = n.messages ∧
    ∀ h, h ∈ F.derived (ps.foldl (fun n p => F.put p n) n) ↔ h ∈ F.derived n ∨ ∃ p ∈ ps, F.hashOf p = h := by
  induction ps generalizing n with
  | nil => exact ⟨rfl, fun h => by simp⟩
  | cons p ps ih =>
    obtain ⟨hmessages, hmem⟩ := ih (F.put p n)
    refine ⟨hmessages.trans (F.messages_put p n), fun h => ?_⟩
    rw [List.foldl_cons, hmem, F.mem_put, List.exists_mem_cons_iff, or_assoc, eq_comm (a := h)]

theorem exec_insert (h : Exec (F.insert lastTime).run n (.ok ()) s) :
    (F.insert lastTime).run.run n = (.ok (), s) :=
  exec_sql_ok.1 h

theorem run_insert (h : (F.insert lastTime).run.run n = (.ok (), s)) : s.messages = n.messages ∧
    ∀ x, x ∈ F.derived s ↔ x ∈ F.derived n ∨ ∃ r ∈ F.batch lastTime n, Names ctx.env F.fields r ∧ r.itemHash = x := by
  rw [insert, insertRows, run_sql] at h
  cases hos : (F.batch lastTime n).mapM F.make with
  | error e =>
    rw [hos] at h
    cases h
  | ok os =>
    rw [hos] at h
    obtain ⟨-, rfl⟩ := Prod.mk.inj h
    obtain ⟨hall, hmem⟩ := Serde.mem_of_mapM hos
    obtain ⟨hmessages, hderived⟩ := mem_foldl_put (F := F) (os.filterMap id) n
    refine ⟨hmessages, fun x => (hderived x).trans (or_congr_right ?_)⟩
    constructor
    · rintro ⟨p, hp, rfl⟩
      obtain ⟨o, ho, rfl⟩ := List.mem_filterMap.1 hp
      obtain ⟨r, hr, hmake⟩ := (hmem _).1 ho
      obtain ⟨hnames, hhash⟩ := F.makes hmake
      exact ⟨r, hr, hnames.1 rfl, (hhash p rfl).symm⟩
    · rintro ⟨r, hr, hnames, rfl⟩
      obtain ⟨o, hmake⟩ := hall r hr
      obtain ⟨hsome, hhash⟩ := F.makes hmake
      obtain ⟨p, rfl⟩ := Option.isSome_iff_exists.1 (hsome.2 hnames)
      exact ⟨p, List.mem_filterMap.2 ⟨some p, (hmem _).2 ⟨r, hr, hmake⟩, rfl⟩, hhash p rfl⟩

theorem mem_batch : r ∈ F.batch lastTime n →
    r ∈ n.messages ∧ Missing F.messageType (F.derived n) r ∧ lastTime < r.time :=
  fun hr => mem_sortedAfter.1 (List.mem_of_mem_take hr)

/-- A message that should have a row has one after a batch if it had one before, or is in the batch. -/
theorem derived_insert (h : (F.insert lastTime).run.run n = (.ok (), s)) (hr : F.Wanted n r) :
    r.itemHash ∈ F.derived s ↔ r.itemHash ∈ F.derived n ∨ r ∈ F.batch lastTime n := by
  obtain ⟨-, hderived⟩ := run_insert h
  rw [hderived]
  refine or_congr_right ⟨?_, fun hbatch => ⟨r, hbatch, hr.2.2.2, rfl⟩⟩
  rintro ⟨r', hr', -, he⟩
  rwa [← Table.eq_of_key (mem_batch hr').1 hr.1 he]

theorem wanted_congr (h : s.messages = n.messages) : F.Wanted s r ↔ F.Wanted n r := by
  unfold Wanted
  rw [h]

theorem Wanted.missing (h : F.Wanted n r) (hnot : r.itemHash ∉ F.derived n) :
    Missing F.messageType (F.derived n) r := ⟨h.2.1, h.2.2.1, hnot⟩

theorem cursor_congr (h : s.messages = n.messages) : F.cursor lastTime s = F.cursor lastTime n :=
  batchCursor_congr h

end Batch

/-! ## The loop -/

section Loop

variable {F} {n m s : Node} {r : MessageRow} {lastTime time : Timestamp}

/-- What one turn of the loop does. -/
theorem exec_batches_succ {rounds : Nat}
    (h : Exec (batches F.insert F.cursor (rounds + 1) lastTime).run n (.ok ()) s) :
    ∃ m, (F.insert lastTime).run.run n = (.ok (), m) ∧
      ((∃ time, F.cursor lastTime n = some (time, true) ∧
        Exec (batches F.insert F.cursor rounds time).run m (.ok ()) s) ∨
      (∀ time, F.cursor lastTime n ≠ some (time, true)) ∧ s = m) := by
  obtain ⟨⟨⟩, m, hinsert, h⟩ := exec_bind_ok.1 h
  have hrun := exec_insert hinsert
  refine ⟨m, hrun, ?_⟩
  have h := exec_query_bind_ok.1 h
  have hcursor : F.cursor lastTime m = F.cursor lastTime n := cursor_congr (run_insert hrun).1
  rw [hcursor] at h
  cases hnext : F.cursor lastTime n with
  | none =>
    rw [hnext] at h
    obtain ⟨-, rfl⟩ := exec_pure_ok.1 h
    exact .inr ⟨fun time => (Option.some_ne_none _).symm, rfl⟩
  | some c =>
    obtain ⟨time, full⟩ := c
    rw [hnext] at h
    cases full with
    | false =>
      obtain ⟨-, rfl⟩ := exec_pure_ok.1 h
      refine .inr ⟨fun time' he => ?_, rfl⟩
      exact Bool.false_ne_true (Prod.mk.inj (Option.some.inj he)).2
    | true => exact .inl ⟨time, rfl, h⟩

variable (F) in
/-- What the loop does from a time on: rows of messages up to that time stay, and all others are made exactly if no
batch cuts off one that should have a row. -/
structure Ran (lastTime : Timestamp) (n s : Node) : Prop where
  messages : s.messages = n.messages
  keeps : ∀ r, F.Wanted n r → r.itemHash ∈ F.derived n → r.itemHash ∈ F.derived s
  leaves : ∀ r, F.Wanted n r → r.time ≤ lastTime → r.itemHash ∈ F.derived s → r.itemHash ∈ F.derived n
  complete_iff : (∀ r, F.Wanted n r → lastTime < r.time → r.itemHash ∈ F.derived s) ↔
    ∀ x, ReflTransGen F.Next (lastTime, n) x → F.CutsNone x

/-- The last batch holds all that is left. -/
theorem Ran.last (hrun : (F.insert lastTime).run.run n = (.ok (), s))
    (hlast : ∀ time, F.cursor lastTime n ≠ some (time, true)) : F.Ran lastTime n s := by
  refine ⟨(run_insert hrun).1, fun r hr hin => (derived_insert hrun hr).2 (.inl hin), fun r hr hle hin => ?_, ?_⟩
  · rcases (derived_insert hrun hr).1 hin with hin | hbatch
    · exact hin
    · exact absurd (mem_batch hbatch).2.2 (not_lt.2 hle)
  · refine iff_of_true (fun r hr hlt => (derived_insert hrun hr).2 ?_) fun x hx => ?_
    · by_cases hin : r.itemHash ∈ F.derived n
      · exact .inl hin
      · have hmissing := hr.missing hin
        cases hcursor : F.cursor lastTime n with
        | none => exact absurd (not_lt_of_no_cursor hcursor hr.1 hmissing.counted) (not_le.2 hlt)
        | some c =>
          obtain ⟨time, full⟩ := c
          cases full with
          | false => exact .inr (mem_rawBatch_of_last hcursor hr.1 hmissing hlt)
          | true => exact absurd hcursor (hlast time)
    · rcases hx.cases_head with rfl | ⟨y, hy, -⟩
      · exact fun time hcursor => absurd hcursor (hlast time)
      · exact absurd hy.2 (hlast y.1)

/-- A full batch, and what the loop does behind it. -/
theorem Ran.next (hrun : (F.insert lastTime).run.run n = (.ok (), m))
    (hcursor : F.cursor lastTime n = some (time, true)) (h : F.Ran time m s) : F.Ran lastTime n s := by
  have hmessages : m.messages = n.messages := (run_insert hrun).1
  have hwanted : ∀ {r}, F.Wanted n r → F.Wanted m r := (wanted_congr hmessages).2
  have hnext : F.Next (lastTime, n) (time, m) := ⟨hrun, hcursor⟩
  have honly : ∀ y, F.Next (lastTime, n) y → y = (time, m) := by
    rintro ⟨time', m'⟩ ⟨hrun', hcursor'⟩
    have htime : some (time', true) = some (time, true) := hcursor'.symm.trans hcursor
    have hnode : (Except.ok (), m') = (Except.ok (), m) := hrun'.symm.trans hrun
    rw [(Prod.mk.inj (Option.some.inj htime)).1, (Prod.mk.inj hnode).2]
  have hkeeps : ∀ r, F.Wanted n r → r.itemHash ∈ F.derived n ∨ r ∈ F.batch lastTime n → r.itemHash ∈ F.derived s :=
    fun r hr hin => h.keeps r (hwanted hr) ((derived_insert hrun hr).2 hin)
  refine ⟨h.messages.trans hmessages, fun r hr hin => hkeeps r hr (.inl hin), fun r hr hle hin => ?_, ?_⟩
  · have hin' := h.leaves r (hwanted hr) (hle.trans (lt_of_next hcursor).le) hin
    rcases (derived_insert hrun hr).1 hin' with hin' | hbatch
    · exact hin'
    · exact absurd (mem_batch hbatch).2.2 (not_lt.2 hle)
  constructor
  · intro hall x hx
    rcases hx.cases_head with rfl | ⟨y, hy, hyx⟩
    · intro time' hcursor' r hr hnot hlt hle
      obtain rfl : time' = time := (Prod.mk.inj (Option.some.inj (hcursor'.symm.trans hcursor))).1
      have hin := h.leaves r (hwanted hr) hle (hall r hr hlt)
      exact ((derived_insert hrun hr).1 hin).resolve_left hnot
    · rw [honly y hy] at hyx
      refine h.complete_iff.1 (fun r hr hlt => ?_) x hyx
      exact hall r ((wanted_congr hmessages).1 hr) ((lt_of_next hcursor).trans hlt)
  · intro hcuts r hr hlt
    rcases le_or_gt r.time time with hle | hgt
    · refine hkeeps r hr ?_
      by_cases hin : r.itemHash ∈ F.derived n
      · exact .inl hin
      · exact .inr (hcuts _ .refl time hcursor r hr hin hlt hle)
    · exact h.complete_iff.2 (fun x hx => hcuts x (.head hnext hx)) r (hwanted hr) hgt

/-- **The loop**, if it is given enough rounds. -/
theorem ran_batches {rounds : Nat} (hrounds : left F.messageType lastTime n < backfillBatchSize * rounds)
    (h : Exec (batches F.insert F.cursor rounds lastTime).run n (.ok ()) s) : F.Ran lastTime n s := by
  induction rounds generalizing lastTime n with
  | zero => omega
  | succ rounds ih =>
    obtain ⟨m, hrun, ⟨time, hcursor, hrest⟩ | ⟨hlast, rfl⟩⟩ := exec_batches_succ h
    · refine .next hrun hcursor (ih ?_ hrest)
      have hless := left_of_next hcursor
      have hleft : left F.messageType time m = left F.messageType time n := by
        rw [left, (run_insert hrun).1, left]
      rw [Nat.mul_succ] at hrounds
      omega
    · exact .last hrun hlast

/-- **The table is complete after a run exactly if no message is passed.** -/
theorem complete_loop_iff (hrounds : left F.messageType 0 n < backfillBatchSize * ctx.rounds)
    (h : Exec F.loop.run n (.ok ()) s) : F.Complete s ↔ F.PassesNone n := by
  have hran := ran_batches hrounds h
  constructor
  · intro hcomplete
    have hall : ∀ r, F.Wanted n r → r.itemHash ∈ F.derived s := fun r hr =>
      hcomplete r ((wanted_congr hran.messages).2 hr)
    refine ⟨fun r hr hnot => ?_, hran.complete_iff.1 fun r hr _ => hall r hr⟩
    by_contra hle
    exact hnot (hran.leaves r hr (not_lt.1 hle) (hall r hr))
  · intro hpasses r hr
    have hr := (wanted_congr hran.messages).1 hr
    by_cases hin : r.itemHash ∈ F.derived n
    · exact hran.keeps r hr hin
    · exact hran.complete_iff.2 hpasses.cutsNone r hr (hpasses.positive r hr hin)

/-- **No message is passed** if no batch ends between two messages of one time, and all times are positive. -/
theorem passesNone_of_noSplitTies (hpositive : ∀ r, F.Wanted n r → r.itemHash ∉ F.derived n → 0 < r.time)
    (hties : NoSplitTies ctx F.messageType n) : F.PassesNone n := by
  refine ⟨hpositive, fun x hx => ?_⟩
  have hvisited : x.2.messages = n.messages ∧ Visited ctx F.messageType n x.1 := by
    induction hx with
    | refl => exact ⟨rfl, .start⟩
    | @tail y x _ hnext ih =>
      obtain ⟨hmessages, hvisited⟩ := ih
      obtain ⟨hrun, hcursor⟩ := hnext
      exact ⟨(run_insert hrun).1.trans hmessages, hvisited.next ((cursor_congr hmessages).symm.trans hcursor)⟩
  obtain ⟨hmessages, hvisited⟩ := hvisited
  intro time hcursor r hr hnot hlt hle
  have hbatch := mem_rawBatch_of_next hties hvisited ((cursor_congr hmessages).symm.trans hcursor)
    ((wanted_congr hmessages).1 hr).1 (hr.missing hnot) hlt hle
  rw [batch, rawBatch, hmessages]
  exact hbatch

end Loop

theorem complete_congr {n s : Node} (hmessages : s.messages = n.messages)
    (hderived : ∀ x, x ∈ F.derived s ↔ x ∈ F.derived n) : F.Complete s ↔ F.Complete n :=
  forall_congr' fun _ => imp_congr (wanted_congr hmessages) (hderived _)

end Filling

/-! ## The posts and the elements -/

theorem names_pair {env : Env} {r : MessageRow} {jb : Json} {f g : String} (hjb : contentJsonb env r = .ok jb) :
    Names env [f, g] r ↔ (env.jsonbGetText jb f).isSome ∧ (env.jsonbGetText jb g).isSome := by
  constructor
  · rintro ⟨jb', hjb', hall⟩
    obtain rfl := Except.ok.inj (hjb.symm.trans hjb')
    exact ⟨hall f (by simp), hall g (by simp)⟩
  · rintro ⟨hf, hg⟩
    exact ⟨jb, hjb, by simp [hf, hg]⟩

theorem postOf_names {env : Env} {r : MessageRow} {o : Option PostRecord} (h : postOf env r = .ok o) :
    (o.isSome ↔ Names env ["address", "type"] r) ∧ ∀ p ∈ o, p.itemHash = r.itemHash := by
  obtain ⟨jb, hjb, h⟩ := Serde.bind_ok.1 h
  obtain ⟨time, -, h⟩ := Serde.bind_ok.1 h
  rw [names_pair hjb]
  obtain rfl := Except.ok.inj h
  cases env.jsonbGetText jb "address" with
  | none => simp
  | some address =>
    cases env.jsonbGetText jb "type" with
    | none => simp
    | some postType => simp

theorem elementOf_names {env : Env} {r : MessageRow} {o : Option AggregateElement} (h : elementOf env r = .ok o) :
    (o.isSome ↔ Names env ["key", "address"] r) ∧ ∀ p ∈ o, p.itemHash = r.itemHash := by
  obtain ⟨jb, hjb, h⟩ := Serde.bind_ok.1 h
  obtain ⟨time, -, h⟩ := Serde.bind_ok.1 h
  rw [names_pair hjb]
  obtain rfl := Except.ok.inj h
  cases env.jsonbGetText jb "key" with
  | none => simp
  | some key =>
    cases env.jsonbGetText jb "address" with
    | none => simp
    | some address => simp

theorem mem_hashes {posts : Table PostRecord PostRecord.itemHash} {x : ItemHash} :
    x ∈ posts.rows.map PostRecord.itemHash ↔ ∃ p ∈ posts, p.itemHash = x := List.mem_map

/-- The posts table. -/
def posts (ctx : BackfillContext) : Filling ctx PostRecord where
  messageType := .post
  fields := ["address", "type"]
  make := postOf ctx.env
  hashOf := PostRecord.itemHash
  derived n := n.posts.rows.map PostRecord.itemHash
  put p n := { n with posts := n.posts.insertNew p }
  makes := postOf_names
  mem_put {p n h} := by
    rw [mem_hashes, mem_hashes, Table.exists_key_insertNew (P := (· = h)), eq_comm (a := h)]
  messages_put _ _ := rfl

/-- The `aggregate_elements` table. -/
def elements (ctx : BackfillContext) : Filling ctx AggregateElement where
  messageType := .aggregate
  fields := ["key", "address"]
  make := elementOf ctx.env
  hashOf := AggregateElement.itemHash
  derived n := n.aggregateElements.map AggregateElement.itemHash
  put := AggregateHandler.storeElement
  makes := elementOf_names
  mem_put {e n h} := by
    unfold AggregateHandler.storeElement
    split_ifs with hthere
    · obtain ⟨e', he', hhash⟩ := hthere
      refine (or_iff_left_of_imp ?_).symm
      rintro rfl
      exact hhash ▸ List.mem_map_of_mem he'
    · simp
  messages_put e n := by
    unfold AggregateHandler.storeElement
    split_ifs <;> rfl

section Phases

variable {ctx : BackfillContext} {n s : Node}

/-- The posts are filled by the loop; the update of the amends keeps their hashes. -/
theorem exec_backfillPosts (h : Exec (backfillPosts ctx).run n (.ok ()) s) :
    ∃ m, Exec (posts ctx).loop.run n (.ok ()) m ∧ ((posts ctx).Complete s ↔ (posts ctx).Complete m) := by
  obtain ⟨⟨⟩, m, hloop, h⟩ := exec_bind_ok.1 h
  refine ⟨m, hloop, ?_⟩
  obtain ⟨r, h⟩ := exec_ignore_ok.1 h
  cases r with
  | ok u =>
    obtain rfl := exec_execute_ok.1 h
    refine Filling.complete_congr _ rfl fun x => ?_
    change x ∈ (amendsNamed ctx m).posts.rows.map _ ↔ _
    rw [mem_hashes]
    exact (Table.exists_key_update (amendNamed_itemHash ctx m) (P := (· = x))).trans mem_hashes.symm
  | error e =>
    obtain rfl := exec_execute_error.1 h
    rfl

/-- The elements are filled by the loop; the rest is about the aggregates. -/
theorem exec_backfillAggregates (h : Exec (backfillAggregates ctx).run n (.ok ()) s) :
    ∃ m, Exec (elements ctx).loop.run n (.ok ()) m ∧ ((elements ctx).Complete s ↔ (elements ctx).Complete m) := by
  obtain ⟨⟨⟩, n', hindex, hrest⟩ := exec_bind_ok.1 h
  obtain rfl : n = n' := by
    have hrun := exec_sql_ok.1 hindex
    split_ifs at hrun
    · exact (Prod.mk.inj hrun).2
    · cases hrun
  obtain ⟨⟨⟩, m, hloop, hmark⟩ := exec_bind_ok.1 hrest
  refine ⟨m, hloop, ?_⟩
  obtain ⟨r, hmark⟩ := exec_ignore_ok.1 hmark
  cases r with
  | ok u =>
    obtain rfl := exec_execute_ok.1 hmark
    exact Filling.complete_congr _ rfl fun _ => .rfl
  | error e =>
    obtain rfl := exec_execute_error.1 hmark
    rfl

variable (ctx n)

/-- **Both backfills are complete exactly if they pass no message**: when one has returned, every message that should
have a row has one if and only if none had a time that is not positive, and none was cut off by the limit of a batch
whose cursor passed it. -/
theorem backfill_complete_iff :
    (left .post 0 n < backfillBatchSize * ctx.rounds → ∀ s, Exec (backfillPosts ctx).run n (.ok ()) s →
      ((posts ctx).Complete s ↔ (posts ctx).PassesNone n)) ∧
    (left .aggregate 0 n < backfillBatchSize * ctx.rounds → ∀ s, Exec (backfillAggregates ctx).run n (.ok ()) s →
      ((elements ctx).Complete s ↔ (elements ctx).PassesNone n)) := by
  refine ⟨fun hrounds s h => ?_, fun hrounds s h => ?_⟩
  · obtain ⟨m, hloop, hcomplete⟩ := exec_backfillPosts h
    exact hcomplete.trans (Filling.complete_loop_iff hrounds hloop)
  · obtain ⟨m, hloop, hcomplete⟩ := exec_backfillAggregates h
    exact hcomplete.trans (Filling.complete_loop_iff hrounds hloop)

end Phases

/-! ### A message of the time zero -/

/-- A content with the fields of a post and of an element. -/
def ownedText : String :=
  "\x7b\"address\":\"0x51A58800b26AA1451aaA803d1746687cB88E0500\",\"key\":\"profile\",\"type\":\"note\"\x7d"

def ownedContent : Json :=
  .obj [("address", .str "0x51A58800b26AA1451aaA803d1746687cB88E0500"), ("key", .str "profile"), ("type", .str "note")]

def ownedContext : BackfillContext := ⟨.ofTables [(ownedText, ownedContent)] [] [], .stored, 1⟩

/-- A message with that content. -/
def ownedRow (messageType : MessageType) (itemHash : ItemHash) (time : Timestamp) : MessageRow where
  itemHash := itemHash
  messageType := messageType
  chain := .eth
  sender := "0x51A58800b26AA1451aaA803d1746687cB88E0500"
  signature := ""
  itemType := .inline
  itemContent := some ownedText
  channel := none
  time := time
  status := "processed"
  receptionTime := none
  owner := none
  contentType := none
  contentRef := none
  contentKey := none
  contentItemHash := none
  paymentType := none

def ownedPost (time : Timestamp) : MessageRow :=
  ownedRow .post "ecc08f6edcc9ebf41f8a08771e8bfed297a0eda99725ea598b272aafae53b010" time

def ownedElement (time : Timestamp) : MessageRow :=
  ownedRow .aggregate "3fbd65025f2828a0f8b99b593419ab74ecbbf38a4594196f7811e678c9fc2dea" time

/-- A POST and an AGGREGATE message of one time. -/
def ownedNode (time : Timestamp) : Node :=
  { Node.empty with messages := (Table.empty.insertNew (ownedPost time)).insertNew (ownedElement time) }

/-- Both backfills return, if they do without a refused statement. -/
theorem exec_owned (time : Timestamp) (hposts : ((backfillPosts ownedContext).run.run (ownedNode time)).1 = .ok ())
    (helements : ((backfillAggregates ownedContext).run.run (ownedNode time)).1 = .ok ()) :
    ∃ s s', Exec (backfillPosts ownedContext).run (ownedNode time) (.ok ()) s ∧
      Exec (backfillAggregates ownedContext).run (ownedNode time) (.ok ()) s' :=
  ⟨_, _, hposts ▸ exec_run (backfillPosts ownedContext).run (ownedNode time),
    helements ▸ exec_run (backfillAggregates ownedContext).run (ownedNode time)⟩

theorem left_owned (t : MessageType) (time : Timestamp) :
    left t 0 (ownedNode time) < backfillBatchSize * ownedContext.rounds := by
  have hlength : (ownedNode time).messages.rows.length = 2 := rfl
  have hcount := List.countP_le_length (p := fun r => decide (Counted t r ∧ 0 < r.time))
    (l := (ownedNode time).messages.rows)
  have hsize : backfillBatchSize * ownedContext.rounds = 5000 := rfl
  unfold left
  omega

theorem owned_backfill : ∃ s s', Exec (backfillPosts ownedContext).run (ownedNode 1700000000) (.ok ()) s ∧
    Exec (backfillAggregates ownedContext).run (ownedNode 1700000000) (.ok ()) s' ∧
    ((posts ownedContext).Complete s ↔ (posts ownedContext).PassesNone (ownedNode 1700000000)) ∧
    ((elements ownedContext).Complete s' ↔ (elements ownedContext).PassesNone (ownedNode 1700000000)) := by
  obtain ⟨s, s', hposts, helements⟩ := exec_owned 1700000000 (by decide +kernel) (by decide +kernel)
  obtain ⟨hcomplete, hcomplete'⟩ := backfill_complete_iff ownedContext (ownedNode 1700000000)
  exact ⟨s, s', hposts, helements, hcomplete (left_owned _ _) _ hposts, hcomplete' (left_owned _ _) _ helements⟩

/-- A message of the time zero is passed. -/
theorem zero_time_passed {ρ : Type} {F : Filling ownedContext ρ} {r : MessageRow} (hstored : r ∈ (ownedNode 0).messages)
    (htype : r.messageType = F.messageType) (hcontent : r.itemContent = some ownedText) (htime : r.time = 0)
    (hfields : ∀ f ∈ F.fields, (ownedContext.env.jsonbGetText ownedContent f).isSome)
    (hnew : F.derived (ownedNode 0) = []) : ¬ F.PassesNone (ownedNode 0) := by
  intro hpasses
  have htext : ownedText ≠ "" := by decide +kernel
  have hjsonb : contentJsonb ownedContext.env r = .ok ownedContent := by
    rw [contentJsonb, hcontent]
    decide +kernel
  have hwanted : F.Wanted (ownedNode 0) r :=
    ⟨hstored, htype, ⟨ownedText, hcontent, htext⟩, ownedContent, hjsonb, hfields⟩
  have hpositive := hpasses.positive r hwanted (by rw [hnew]; exact List.not_mem_nil)
  rw [htime] at hpositive
  exact lt_irrefl 0 hpositive

/-- **Messages of the time zero get no row**, though both backfills return. -/
theorem zero_time_skipped : ∃ s s', Exec (backfillPosts ownedContext).run (ownedNode 0) (.ok ()) s ∧
    Exec (backfillAggregates ownedContext).run (ownedNode 0) (.ok ()) s' ∧
    ¬ (posts ownedContext).Complete s ∧ ¬ (elements ownedContext).Complete s' := by
  obtain ⟨s, s', hposts, helements⟩ := exec_owned 0 (by decide +kernel) (by decide +kernel)
  refine ⟨s, s', hposts, helements, ?_, ?_⟩
  · obtain ⟨m, hloop, hcomplete⟩ := exec_backfillPosts hposts
    rw [hcomplete, Filling.complete_loop_iff (left_owned _ _) hloop]
    exact zero_time_passed (r := ownedPost 0) (by decide +kernel) rfl rfl rfl (by decide +kernel) rfl
  · obtain ⟨m, hloop, hcomplete⟩ := exec_backfillAggregates helements
    rw [hcomplete, Filling.complete_loop_iff (left_owned _ _) hloop]
    exact zero_time_passed (r := ownedElement 0) (by decide +kernel) rfl rfl rfl (by decide +kernel) rfl

end AlephCore.Backfill
