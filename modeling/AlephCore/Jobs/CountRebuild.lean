import AlephCore.Db.MessageCounts
import AlephCore.Jobs.Backfill
import AlephCore.Jobs.MessageProcessor
import AlephCore.Lib.Faults
import AlephCore.Lib.Serde
import Mathlib.Logic.Relation

/-!
# CountRebuild — the counts while the backfill rebuilds them

Mirrors the frame of `backfill_message_denorm` in `jobs/backfill.rs`: the counting trigger is turned off, columns are
filled, the counts are rebuilt, and the trigger is turned on again, error or not.  In between others go on writing
messages.  The counts are exact when nothing is written between the rebuild and the moment the trigger is on again,
and no batch fails after something was written.
-/

namespace AlephCore.CountRebuild

open CountView MessageCounts Backfill ProgE

/-- Where the backfill is: the statement it executes next. -/
inductive Phase where
  /-- Not running; next, the trigger is disabled. -/
  | idle
  /-- The batch after a time. -/
  | denorm (lastTime : Timestamp)
  | status
  | truncate
  | rebuild
  /-- The trigger is enabled. -/
  | enable

/-- The database, and the backfill on it. -/
structure State where
  db : CountedNode
  phase : Phase
  /-- Has anything been written since the trigger was disabled? -/
  written : Bool

/-- Somebody executes a statement on the messages, or the backfill executes its next one. -/
inductive Action where
  | write (st : Statement)
  | backfill

/-- A statement that writes: it succeeds, and there is a row it changes. -/
def Writes (st : Statement) (s : State) : Bool :=
  match st.run s.db.node.messages with
  | .error _ => false
  | .ok (_, changes) => !changes.isEmpty

/-- A statement of somebody else; if it fails, nothing happens. -/
def write (st : Statement) (s : State) : State :=
  match MessageCounts.execute st s.db with
  | .error _ => s
  | .ok db => { s with db, written := s.written || Writes st s }

/-- Phase 3: rebuild the counts of all messages; a failure is only logged. -/
def rebuildCounts (db : CountedNode) : CountedNode :=
  match rebuild Combination.key PgDatabase.affectedTwice combinations db.node.messages.rows db.counts with
  | .error _ => db
  | .ok counts => { db with counts }

/-- The next statement of `backfill_message_denorm`; its updates meet no trigger. -/
def backfillStep (ctx : BackfillContext) (s : State) : State :=
  match s.phase with
  | .idle => { db := { s.db with triggerEnabled := false }, phase := .denorm 0, written := false }
  | .denorm lastTime =>
    match (denormStep ctx lastTime).run.run s.db.node with
    -- An error ends the inner function; the trigger is enabled all the same.
    | (.error _, _) => { s with phase := .enable }
    | (.ok (some (time, true)), node) => { db := { s.db with node }, phase := .denorm time, written := true }
    | (.ok _, node) => { db := { s.db with node }, phase := .status, written := true }
  -- The confirmations that are filled next are no columns that are counted.
  | .status => { s with db := { s.db with node := (updateStatus.run.run s.db.node).2 }, phase := .truncate }
  | .truncate => { s with db := { s.db with counts := .empty }, phase := .rebuild }
  | .rebuild => { s with db := rebuildCounts s.db, phase := .enable }
  | .enable => { s with db := { s.db with triggerEnabled := true }, phase := .idle }

/-- One step of the database. -/
def step (ctx : BackfillContext) (s : State) : Action → State
  | .write st => write st s
  | .backfill => backfillStep ctx s

/-- Steps that meet the guard. -/
def Step (ctx : BackfillContext) (guard : State → Action → Prop) (s s' : State) : Prop :=
  ∃ a, guard s a ∧ s' = step ctx s a

/-- Runs whose every step meets the guard. -/
abbrev Runs (ctx : BackfillContext) (guard : State → Action → Prop) : State → State → Prop :=
  Relation.ReflTransGen (Step ctx guard)

/-- Messages that can be counted, with exact counts. -/
def Good (db : CountedNode) : Prop :=
  AllCountable db.node.messages ∧ Exact dimensions db.node.messages.rows db.counts

/-- No backfill runs, the trigger is on, and the counts are exact: the start of a run. -/
def Started (s : State) : Prop := s.phase = .idle ∧ s.db.triggerEnabled = true ∧ Good s.db

/-- **Exact counts**: unless the backfill is at work they are exact, and the triggers of every statement succeed. -/
def CountsKept (guard : State → Action → Prop) (s : State) : Prop :=
  (s.phase = .idle → CountsExact s.db.node.messages s.db.counts) ∧
    ∀ st, guard s (.write st) → TriggersSucceed st s.db

/-! ## The condition -/

/-- Every content of the batch is JSON. -/
def BatchCasts (ctx : BackfillContext) (lastTime : Timestamp) (n : Node) : Prop :=
  ∀ r ∈ denormBatch ctx lastTime n, ∃ jb, contentJsonb ctx.env r = .ok jb

/-- The steps that keep the counts. -/
def Admitted (ctx : BackfillContext) (s : State) : Action → Prop
  | .write st =>
    match s.phase with
    | .idle => ∀ r ∈ st.newRows s.db.node.messages, Countable r
    | .enable => Writes st s = false
    | _ => True
  | .backfill =>
    match s.phase with
    | .denorm lastTime => BatchCasts ctx lastTime s.db.node ∨ s.written = false
    | .rebuild => AllCountable s.db.node.messages
    | _ => True

/-- What holds in every phase. -/
def Invariant (s : State) : Prop :=
  match s.phase with
  | .idle => s.db.triggerEnabled = true ∧ Good s.db
  | .denorm _ => s.db.triggerEnabled = false ∧ (s.written = false → Good s.db)
  | .status | .truncate => s.db.triggerEnabled = false
  | .rebuild => s.db.triggerEnabled = false ∧ s.db.counts = .empty
  | .enable => s.db.triggerEnabled = false ∧ Good s.db

/-! ## One step -/

section Step

variable {ctx : BackfillContext} {s s' : State} {st : Statement} {a : Action}

theorem good_perm {db db' : CountedNode} (hrows : db.node.messages.rows.Perm db'.node.messages.rows)
    (hcounts : db'.counts = db.counts) (h : Good db) : Good db' := by
  obtain ⟨hall, hexact⟩ := h
  refine ⟨fun r hr => hall r (hrows.mem_iff.2 hr), fun k => ?_⟩
  rw [hcounts, hexact k, tally_perm hrows k]

/-- With the trigger off, a statement leaves the counts, and if it writes nothing also the messages. -/
theorem write_disabled (st : Statement) (hdisabled : s.db.triggerEnabled = false) :
    (write st s).phase = s.phase ∧ (write st s).db.triggerEnabled = false ∧
      (write st s).db.counts = s.db.counts ∧ ((write st s).written = (s.written || Writes st s)) ∧
        (Writes st s = false → Good s.db → Good (write st s).db) := by
  cases hrun : st.run s.db.node.messages with
  | error e =>
    have hwrites : Writes st s = false := by rw [Writes, hrun]
    have hsame : write st s = s := by rw [write, execute_error hrun]
    rw [hsame, hwrites]
    exact ⟨rfl, hdisabled, rfl, (Bool.or_false _).symm, fun _ h => h⟩
  | ok w =>
    have hexec := execute_disabled hdisabled hrun
    rw [write, hexec]
    refine ⟨rfl, hdisabled, rfl, rfl, fun hwrites hgood => ?_⟩
    rw [Writes, hrun] at hwrites
    have hnone : w.2 = [] := by simpa using hwrites
    have hchanged := Statement.changed hrun
    rw [hnone] at hchanged
    cases hchanged with
    | done hperm => exact good_perm hperm rfl hgood

theorem write_enabled (st : Statement) (henabled : s.db.triggerEnabled = true) (hgood : Good s.db) :
    (write st s).phase = s.phase ∧ (write st s).db.triggerEnabled = true ∧ Good (write st s).db := by
  cases hexec : MessageCounts.execute st s.db with
  | error e =>
    have hsame : write st s = s := by rw [write, hexec]
    rw [hsame]
    exact ⟨rfl, henabled, hgood⟩
  | ok db =>
    have hafter : Good db := execute_exact henabled hgood.1 hgood.2 hexec
    have hsame : write st s = { s with db, written := s.written || Writes st s } := by rw [write, hexec]
    rw [hsame]
    exact ⟨rfl, (execute_triggerEnabled hexec).trans henabled, hafter⟩

theorem invariant_write (h : Invariant s) (hadmitted : Admitted ctx s (.write st)) : Invariant (write st s) := by
  obtain ⟨db, phase, written⟩ := s
  cases phase with
  | idle =>
    obtain ⟨hphase, henabled, hgood⟩ := write_enabled st h.1 h.2
    rw [Invariant, hphase]
    exact ⟨henabled, hgood⟩
  | denorm lastTime =>
    obtain ⟨hphase, hdisabled, -, hwritten, hgood⟩ := write_disabled st h.1
    rw [Invariant, hphase]
    refine ⟨hdisabled, fun hnone => ?_⟩
    rw [hwritten, Bool.or_eq_false_iff] at hnone
    exact hgood hnone.2 (h.2 hnone.1)
  | status =>
    obtain ⟨hphase, hdisabled, -⟩ := write_disabled st h
    rw [Invariant, hphase]
    exact hdisabled
  | truncate =>
    obtain ⟨hphase, hdisabled, -⟩ := write_disabled st h
    rw [Invariant, hphase]
    exact hdisabled
  | rebuild =>
    obtain ⟨hphase, hdisabled, hcounts, -⟩ := write_disabled st h.1
    rw [Invariant, hphase]
    exact ⟨hdisabled, hcounts.trans h.2⟩
  | enable =>
    obtain ⟨hphase, hdisabled, -, -, hgood⟩ := write_disabled st h.1
    rw [Invariant, hphase]
    exact ⟨hdisabled, hgood hadmitted h.2⟩

/-- A batch of JSON contents does not fail. -/
theorem denormStep_ne_error {lastTime : Timestamp} {n n' : Node} {e : DbError} (h : BatchCasts ctx lastTime n) :
    (denormStep ctx lastTime).run.run n ≠ (.error e, n') := by
  have hmap : ∀ r ∈ denormBatch ctx lastTime n, ∃ b : ItemHash × Json,
      ((contentJsonb ctx.env r).map fun jb => (r.itemHash, jb)) = .ok b := by
    intro r hr
    obtain ⟨jb, hjb⟩ := h r hr
    rw [hjb]
    exact ⟨_, rfl⟩
  obtain ⟨jbs, hjbs, -⟩ := Serde.mapM_ok hmap
  rw [denormStep, run_sql]
  simp only [hjbs]
  intro he
  cases he

/-- **Rebuilding the counts of countable messages** makes them exact. -/
theorem rebuildCounts_good {db : CountedNode} (hempty : db.counts = .empty) (hall : AllCountable db.node.messages) :
    Good (rebuildCounts db) ∧ (rebuildCounts db).triggerEnabled = db.triggerEnabled := by
  have hok : ∃ counts, rebuild Combination.key PgDatabase.affectedTwice combinations db.node.messages.rows
      db.counts = .ok counts := rebuild_ok_iff.2 (separated_of_countable hall)
  obtain ⟨counts, hcounts⟩ := hok
  have hexact : Exact dimensions db.node.messages.rows counts := by
    rw [hempty] at hcounts
    exact rebuild_exact hcounts
  rw [rebuildCounts, hcounts]
  exact ⟨⟨hall, hexact⟩, rfl⟩

theorem invariant_backfill (h : Invariant s) (hadmitted : Admitted ctx s .backfill) :
    Invariant (backfillStep ctx s) := by
  obtain ⟨db, phase, written⟩ := s
  cases phase with
  | idle => exact ⟨rfl, fun _ => h.2⟩
  | denorm lastTime =>
    cases hstep : (denormStep ctx lastTime).run.run db.node with
    | mk x node =>
      cases x with
      | error e =>
        -- The batch fails, and nothing has been written before it.
        have hwritten : written = false := by
          rcases hadmitted with hcasts | hwritten
          · exact absurd hstep (denormStep_ne_error hcasts)
          · exact hwritten
        rw [backfillStep]
        simp only [hstep]
        exact ⟨h.1, h.2 hwritten⟩
      | ok x =>
        rw [backfillStep]
        simp only [hstep]
        rcases x with _ | ⟨time, full⟩
        · exact h.1
        · cases full with
          | false => exact h.1
          | true => exact ⟨h.1, fun hwritten => Bool.noConfusion hwritten⟩
  | status => exact h
  | truncate => exact ⟨h, rfl⟩
  | rebuild =>
    obtain ⟨hgood, henabled⟩ := rebuildCounts_good h.2 hadmitted
    exact ⟨henabled.trans h.1, hgood⟩
  | enable => exact ⟨rfl, h.2⟩

theorem invariant_step (h : Invariant s) (hadmitted : Admitted ctx s a) : Invariant (step ctx s a) := by
  cases a with
  | write st => exact invariant_write h hadmitted
  | backfill => exact invariant_backfill h hadmitted

theorem invariant_runs (hrun : Runs ctx (Admitted ctx) s s') (h : Invariant s) : Invariant s' := by
  induction hrun with
  | refl => exact h
  | tail _ hstep ih =>
    obtain ⟨a, hadmitted, rfl⟩ := hstep
    exact invariant_step ih hadmitted

theorem Started.invariant (h : Started s) : Invariant s := by
  obtain ⟨hphase, henabled, hgood⟩ := h
  rw [Invariant, hphase]
  exact ⟨henabled, hgood⟩

/-- With the trigger off it cannot fail. -/
theorem triggersSucceed_disabled (hdisabled : s.db.triggerEnabled = false) : TriggersSucceed st s.db := by
  rintro ⟨w, hw⟩
  exact ⟨_, execute_disabled hdisabled hw⟩

theorem Invariant.countsKept (h : Invariant s) : CountsKept (Admitted ctx) s := by
  obtain ⟨db, phase, written⟩ := s
  refine ⟨fun hphase => ?_, fun st hst => ?_⟩
  · obtain rfl : phase = .idle := hphase
    exact countsExact_of_exact h.2.1 h.2.2
  · cases phase with
    | idle => exact (triggersSucceed_iff h.1).2 hst
    | denorm lastTime => exact triggersSucceed_disabled h.1
    | status => exact triggersSucceed_disabled h
    | truncate => exact triggersSucceed_disabled h
    | rebuild => exact triggersSucceed_disabled h.1
    | enable => exact triggersSucceed_disabled h.1

end Step

/-! ## What the message processor writes -/

section Processor

variable {env : Env} {message : Message} {receptionTime : Timestamp}

/-- The insert of a processed message. -/
def storeStatement (env : Env) (message : Message) (receptionTime : Timestamp) : Statement :=
  .insert [MessageProcessor.processedRow env message receptionTime]
    (.doUpdate MessageProcessor.refreshRow (fun _ => true) fun _ _ => rfl)

/-- **The statement is the insert of the message processor.** -/
theorem storeStatement_run (n : Node) : ∃ changes,
    (storeStatement env message receptionTime).run n.messages =
      .ok (((MessageProcessor.storeProcessedMessage env message receptionTime).run.run n).2.messages, changes) := by
  obtain ⟨changes, hrun, -⟩ := run_upsert n.messages (MessageProcessor.processedRow env message receptionTime)
    MessageProcessor.refreshRow fun _ _ => rfl
  exact ⟨changes, hrun⟩

/-- **A processed message with a sender is counted.** -/
theorem storeStatement_countable {t : Messages} (hall : AllCountable t) (hsender : message.sender ≠ "") :
    ∀ r ∈ (storeStatement env message receptionTime).newRows t, Countable r := by
  intro r hr
  obtain ⟨changes, hrun, hnew⟩ := run_upsert t (MessageProcessor.processedRow env message receptionTime)
    MessageProcessor.refreshRow fun _ _ => rfl
  rw [storeStatement, newRows_of_run hrun] at hr
  have hstatus : "processed" ≠ "" := by decide
  rcases hnew r hr with rfl | ⟨old, hold, rfl⟩
  · exact ⟨hstatus, .inl hsender⟩
  · refine ⟨hstatus, ?_⟩
    rcases (hall old hold).2 with h | h
    · exact .inl h
    · cases howner : old.owner with
      | none =>
        rw [howner] at h
        exact absurd rfl h
      | some owner =>
        right
        rw [howner] at h
        simpa only [MessageProcessor.refreshRow, howner, Option.some_or] using h

end Processor

/-! ## Every run -/

/-- **The counts are exact in every run whose steps are admitted.** -/
theorem countsKept_of_runs (ctx : BackfillContext) {s s' : State} (hstart : Started s)
    (hrun : Runs ctx (Admitted ctx) s s') : CountsKept (Admitted ctx) s' :=
  (invariant_runs hrun hstart.invariant).countsKept

/-! ## A message that comes after the rebuild -/

/-- No contents are read. -/
def plainBackfill : BackfillContext := ⟨.ofTables [] [] [], .stored, 1⟩

/-- A database without messages. -/
def fresh : State := ⟨⟨.empty, .empty, true⟩, .idle, false⟩

/-- A POST as the message processor stores it. -/
def storedNote : MessageRow :=
  { itemHash := "2a5f", messageType := .post, chain := .eth, sender := "0xa1", signature := "0x",
    itemType := .inline, itemContent := some "\x7b\x7d", channel := none, time := 1700000000, status := "processed",
    receptionTime := some 1700000001, owner := some "0xa1", contentType := some "note", contentRef := none,
    contentKey := none, contentItemHash := none, paymentType := none }

/-- Its insert. -/
def insertNote : Statement := .insert [storedNote] .doNothing

/-- The steps of a backfill that fills one batch. -/
def backfillSteps : List Action := List.replicate 5 .backfill

/-- The note is stored after the counts have been rebuilt, and before the trigger is on. -/
def afterRebuild : List Action := backfillSteps ++ [.write insertNote, .backfill]

/-- The note is stored, and the backfill runs. -/
def beforeBackfill : List Action := .write insertNote :: backfillSteps ++ [.backfill]

/-- Every step of the list meets the guard. -/
def Meets (ctx : BackfillContext) (guard : State → Action → Prop) : State → List Action → Prop
  | _, [] => True
  | s, a :: as => guard s a ∧ Meets ctx guard (step ctx s a) as

theorem runs_foldl {ctx : BackfillContext} {guard : State → Action → Prop} {s : State} {as : List Action}
    (h : Meets ctx guard s as) : Runs ctx guard s (as.foldl (step ctx) s) := by
  induction as generalizing s with
  | nil => exact .refl
  | cons a as ih => exact .head ⟨a, h.1, rfl⟩ (ih h.2)

theorem started_fresh : Started fresh :=
  ⟨rfl, rfl, fun _ hr => absurd hr List.not_mem_nil, exact_empty dimensions⟩

theorem storedNote_countable : Countable storedNote := by
  decide +kernel

theorem beforeBackfill_admitted : Meets plainBackfill (Admitted plainBackfill) fresh beforeBackfill := by
  have hnote : ∀ r ∈ [storedNote], Countable r := by
    intro r hr
    rw [List.mem_singleton.1 hr]
    exact storedNote_countable
  exact ⟨hnote, trivial, .inr rfl, trivial, trivial, hnote, trivial, trivial⟩

theorem beforeBackfill_countsKept :
    CountsKept (Admitted plainBackfill) (beforeBackfill.foldl (step plainBackfill) fresh) :=
  countsKept_of_runs plainBackfill started_fresh (runs_foldl beforeBackfill_admitted)

/-- **A message stored between the rebuild and the trigger is never counted.** -/
theorem afterRebuild_not_counted : ¬ ∀ s s' : State, Started s → Runs plainBackfill (fun _ _ => True) s s' →
    CountsKept (fun _ _ => True) s' := by
  intro h
  have hmeets : Meets plainBackfill (fun _ _ => True) fresh afterRebuild :=
    ⟨trivial, trivial, trivial, trivial, trivial, trivial, trivial, trivial⟩
  have hkept := (h fresh _ started_fresh (runs_foldl hmeets)).1 rfl .messageType storedNote (.inr storedNote_countable)
  have hstored : stored (afterRebuild.foldl (step plainBackfill) fresh).db.counts
      (Combination.messageType.key storedNote) = 0 := rfl
  have hnumber : numberOf .messageType (Combination.messageType.key storedNote)
      (afterRebuild.foldl (step plainBackfill) fresh).db.node.messages = 1 := by
    have hrows : (afterRebuild.foldl (step plainBackfill) fresh).db.node.messages.rows = [storedNote] := rfl
    rw [numberOf, hrows]
    exact List.countP_eq_length.2 (by simp)
  rw [hstored, hnumber] at hkept
  exact absurd hkept (by decide)

end AlephCore.CountRebuild
