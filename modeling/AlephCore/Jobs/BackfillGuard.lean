import AlephCore.Jobs.Backfill
import AlephCore.Lib.BusyFlag
import AlephCore.Lib.Faults

/-!
# BackfillGuard — the flag that keeps two backfills apart

`run_startup_backfill` takes `BACKFILL_RUNNING` by a compare-and-exchange, asks six counts, runs the
backfills and clears the flag.  The flag is cleared before the skip for a long queue, before the return
with nothing to do and after the backfills, whether or not these succeed; a count that fails returns at
once and leaves it set, and from then on every call is refused.
-/

namespace AlephCore.Backfill

open Env

/-- The statements of a call: the counts it begins with, and those of the backfills. -/
inductive GuardedStatement where
  | count
  | work
  deriving DecidableEq

/-- A call of `run_startup_backfill`. -/
abbrev GuardedCall (α : Type) := ExceptT String (Flagged Node DbError GuardedStatement) α

/-- `BACKFILL_RUNNING.compare_exchange(false, true)`: did it succeed? -/
def compareExchange : GuardedCall Bool := ExceptT.mk (.acquire fun clear => .ret (.ok clear))

/-- `BACKFILL_RUNNING.store(false)`. -/
def storeFalse : GuardedCall Unit := ExceptT.mk (.release (.ret (.ok ())))

/-- `SELECT COUNT(*)`; a failure is reported and ends the call. -/
def count (what : String) (rows : Node → Nat) : GuardedCall Nat :=
  ExceptT.mk (.stmt .count (fun n => (.ok (rows n), n))
    fun r => .ret (r.mapError fun e => s!"Failed to count {what}: {e}"))

/-- Run a backfill and keep its result. -/
def attempt (p : Db DbError Unit) : GuardedCall (Except DbError Unit) :=
  ExceptT.mk (Flagged.ofProg .work p.run >>= fun r => .ret (.ok r))

/-- Report a backfill that failed. -/
def orFail (what : String) (r : Except DbError Unit) : GuardedCall Unit :=
  ExceptT.mk (.ret (r.mapError fun e => s!"{what} backfill failed: {e}"))

/-! ## The counts -/

/-- The messages of a type with a content and without a derived row. -/
def countMissing (t : MessageType) (derived : Node → List ItemHash) (n : Node) : Nat :=
  n.messages.rows.countP fun r =>
    decide (r.messageType = t ∧ r.itemContent.isSome ∧ r.itemHash ∉ derived n)

/-- The messages with a content whose owner is not set. -/
def countDenorm (n : Node) : Nat :=
  n.messages.rows.countP fun r =>
    decide (r.owner = none ∧ r.itemContent.isSome ∧ r.itemContent ≠ some "")

/-! ## The call -/

/-- Report the first backfill that failed. -/
def report (posts aggregates instances programs denorm : Except DbError Unit) : GuardedCall Unit := do
  orFail "Posts" posts
  orFail "Aggregates" aggregates
  orFail "Instances" instances
  orFail "Programs" programs
  orFail "Message denorm" denorm

/-- The five backfills, each whether or not the one before it failed; the flag is cleared before the
first failure is reported. -/
def backfillAll (ctx : BackfillContext) : GuardedCall Unit := do
  let postsResult ← attempt (backfillPosts ctx)
  let aggregatesResult ← attempt (backfillAggregates ctx)
  let instancesResult ← attempt (backfillInstances ctx)
  let programsResult ← attempt (backfillPrograms ctx)
  let denormResult ← attempt (backfillMessageDenorm ctx)
  storeFalse
  report postsResult aggregatesResult instancesResult programsResult denormResult

/-- Count what is missing, and backfill it. -/
def backfillMissing (ctx : BackfillContext) : GuardedCall Unit := do
  let missingPosts ← count "missing posts" (countMissing .post fun n => n.posts.rows.map PostRecord.itemHash)
  let missingAggregates ← count "missing aggregates"
    (countMissing .aggregate fun n => n.aggregateElements.map AggregateElement.itemHash)
  let missingInstances ← count "missing instances"
    (countMissing .instance fun n => n.instances.rows.map InstanceRow.itemHash)
  let missingPrograms ← count "missing programs"
    (countMissing .program fun n => n.programs.rows.map ProgramRow.itemHash)
  let missingDenorm ← count "missing denorm" countDenorm
  if missingPosts = 0 ∧ missingAggregates = 0 ∧ missingInstances = 0 ∧ missingPrograms = 0 ∧
      missingDenorm = 0 then storeFalse
  else backfillAll ctx

/-- The call once it has set the flag. -/
def guardedBackfill (ctx : BackfillContext) : GuardedCall Unit := do
  let pendingCount ← count "pending" fun n => n.pendingMessages.rows.length
  if pendingLimit < pendingCount then storeFalse else backfillMissing ctx

/-- The error of a call that finds the flag set. -/
def alreadyRunning : Except String Unit := .error "Backfill already running"

/-- `run_startup_backfill`, with its flag. -/
def runGuarded (ctx : BackfillContext) : GuardedCall Unit := do
  let clear ← compareExchange
  if clear then guardedBackfill ctx else ExceptT.mk (.ret alreadyRunning)

/-! ## Every call releases the flag, unless a count fails -/

/-- The statements whose failure leaves the flag set. -/
def critical (s : GuardedStatement) : Bool := decide (s = .count)

section Releases

variable {α : Type}

theorem releases_count {what : String} {rows : Node → Nat} {q : Nat → GuardedCall α}
    (h : ∀ a, Flagged.Releases critical (q a).run) :
    Flagged.Releases critical (count what rows >>= q).run := by
  refine .critical (fun e => ⟨_, rfl⟩) (fun x => ?_) rfl
  exact h x

theorem attempt_bind {p : Db DbError Unit} {q : Except DbError Unit → GuardedCall α} :
    (attempt p >>= q).run = (Flagged.ofProg .work p.run >>= fun r => (q r).run) := by
  rw [attempt, ExceptT.run_bind, ExceptT.run_mk, Flagged.bind_assoc]
  rfl

theorem releases_attempt {p : Db DbError Unit} {q : Except DbError Unit → GuardedCall α}
    (h : ∀ r, Flagged.Releases critical (q r).run) :
    Flagged.Releases critical (attempt p >>= q).run := by
  rw [attempt_bind]
  exact Flagged.releases_ofProg_bind rfl _ h

/-- What follows the clearing of the flag returns without another action. -/
theorem releases_storeFalse {q : Unit → GuardedCall α} (h : ∃ a, (q ()).run = .ret a) :
    Flagged.Releases critical (storeFalse >>= q).run := by
  obtain ⟨a, ha⟩ := h
  have hrun : (storeFalse >>= q).run = .release (q ()).run := rfl
  rw [hrun, ha]
  exact .release a

theorem returns_orFail {what : String} {r : Except DbError Unit} {q : Unit → GuardedCall α}
    (h : ∃ a, (q ()).run = .ret a) : ∃ a, (orFail what r >>= q).run = .ret a := by
  cases r with
  | ok _ => exact h
  | error e => exact ⟨_, rfl⟩

end Releases

theorem returns_report (posts aggregates instances programs denorm : Except DbError Unit) :
    ∃ a, (report posts aggregates instances programs denorm).run = .ret a :=
  returns_orFail (returns_orFail (returns_orFail (returns_orFail ⟨_, rfl⟩)))

/-- **The backfills release the flag, whatever fails in them.** -/
theorem releases_backfillAll (ctx : BackfillContext) : Flagged.Releases critical (backfillAll ctx).run := by
  unfold backfillAll
  refine releases_attempt fun posts => ?_
  refine releases_attempt fun aggregates => ?_
  refine releases_attempt fun instances => ?_
  refine releases_attempt fun programs => ?_
  refine releases_attempt fun denorm => ?_
  exact releases_storeFalse (returns_report posts aggregates instances programs denorm)

theorem releases_backfillMissing (ctx : BackfillContext) :
    Flagged.Releases critical (backfillMissing ctx).run := by
  unfold backfillMissing
  refine releases_count fun posts => ?_
  refine releases_count fun aggregates => ?_
  refine releases_count fun instances => ?_
  refine releases_count fun programs => ?_
  refine releases_count fun denorm => ?_
  split_ifs
  · exact .release _
  · exact releases_backfillAll ctx

theorem releases_guardedBackfill (ctx : BackfillContext) :
    Flagged.Releases critical (guardedBackfill ctx).run := by
  unfold guardedBackfill
  refine releases_count fun pending => ?_
  split_ifs
  · exact .release _
  · exact releases_backfillMissing ctx

theorem enters_runGuarded (ctx : BackfillContext) :
    Flagged.Enters critical alreadyRunning (runGuarded ctx).run :=
  ⟨_, rfl, rfl, releases_guardedBackfill ctx⟩

/-! ## What a call does to the database -/

section Run

variable {α : Type} {n : Node} {b : Bool}

theorem run_count {what : String} {rows : Node → Nat} {q : Nat → GuardedCall α} :
    (count what rows >>= q).run.run n b = (q (rows n)).run.run n b := rfl

theorem run_storeFalse {q : Unit → GuardedCall α} :
    (storeFalse >>= q).run.run n b = (q ()).run.run n false := rfl

theorem run_attempt {p : Db DbError Unit} {q : Except DbError Unit → GuardedCall α} :
    (attempt p >>= q).run.run n b = (q (p.run.run n).1).run.run (p.run.run n).2 b := by
  rw [attempt_bind, Flagged.run_ofProg_bind]

theorem run_ignore_bind {p : Db DbError Unit} {q : Unit → Db DbError α} :
    (ProgE.ignore p >>= q).run.run n = (q ()).run.run (p.run.run n).2 := by
  refine ProgE.run_bind_ok ?_
  rw [ProgE.ignore, ExceptT.run_mk, Prog.run_bind]
  rfl

theorem run_report {posts aggregates instances programs denorm : Except DbError Unit} :
    ((report posts aggregates instances programs denorm).run.run n b).2 = (n, b) := by
  obtain ⟨a, ha⟩ := returns_report posts aggregates instances programs denorm
  rw [ha]
  rfl

theorem run_backfillAll (ctx : BackfillContext) :
    ((backfillAll ctx).run.run n b).2 = (((runBackfills ctx).run.run n).2, false) := by
  unfold backfillAll runBackfills
  rw [run_attempt, run_attempt, run_attempt, run_attempt, run_attempt, run_storeFalse, run_report]
  rw [run_ignore_bind, run_ignore_bind, run_ignore_bind, run_ignore_bind, ProgE.ignore, ExceptT.run_mk,
    Prog.run_bind]
  rfl

theorem countMissing_eq_zero {t : MessageType} {derived : Node → List ItemHash} :
    countMissing t derived n = 0 ↔
      ∀ r ∈ n.messages.rows, r.messageType = t → r.itemContent.isSome → r.itemHash ∈ derived n := by
  simp [countMissing, List.countP_eq_zero]

theorem countDenorm_eq_zero :
    countDenorm n = 0 ↔
      ∀ r ∈ n.messages.rows, r.owner = none → r.itemContent.isSome → r.itemContent = some "" := by
  simp [countDenorm, List.countP_eq_zero]

/-- There is something to do if and only if a count is not zero. -/
theorem needed_iff : Needed n ↔
    ¬ (countMissing .post (fun n => n.posts.rows.map PostRecord.itemHash) n = 0 ∧
      countMissing .aggregate (fun n => n.aggregateElements.map AggregateElement.itemHash) n = 0 ∧
      countMissing .instance (fun n => n.instances.rows.map InstanceRow.itemHash) n = 0 ∧
      countMissing .program (fun n => n.programs.rows.map ProgramRow.itemHash) n = 0 ∧
      countDenorm n = 0) := by
  simp only [countMissing_eq_zero, countDenorm_eq_zero]
  constructor
  · rintro ⟨r, hr, hc, h | h | h | h | h⟩ ⟨h1, h2, h3, h4, h5⟩
    · exact h.2 (h1 r hr h.1 hc)
    · exact h.2 (h2 r hr h.1 hc)
    · exact h.2 (h3 r hr h.1 hc)
    · exact h.2 (h4 r hr h.1 hc)
    · exact h.2 (h5 r hr h.1 hc)
  · intro h
    by_contra hn
    refine h ⟨fun r hr ht hc => ?_, fun r hr ht hc => ?_, fun r hr ht hc => ?_, fun r hr ht hc => ?_,
      fun r hr ho hc => ?_⟩
    · exact by_contra fun hno => hn ⟨r, hr, hc, .inl ⟨ht, hno⟩⟩
    · exact by_contra fun hno => hn ⟨r, hr, hc, .inr (.inl ⟨ht, hno⟩)⟩
    · exact by_contra fun hno => hn ⟨r, hr, hc, .inr (.inr (.inl ⟨ht, hno⟩))⟩
    · exact by_contra fun hno => hn ⟨r, hr, hc, .inr (.inr (.inr (.inl ⟨ht, hno⟩)))⟩
    · exact by_contra fun hno => hn ⟨r, hr, hc, .inr (.inr (.inr (.inr ⟨ho, hno⟩)))⟩

/-- **A call that nothing refuses does what the job does, and gives the flag back.** -/
theorem run_runGuarded (ctx : BackfillContext) (n : Node) :
    ((runGuarded ctx).run.run n false).2 = (((runStartupBackfill ctx).run.run n).2, false) := by
  have hguarded : (runGuarded ctx).run.run n false = (guardedBackfill ctx).run.run n true := rfl
  have hjob : (runStartupBackfill ctx).run.run n =
      (if pendingLimit < n.pendingMessages.rows.length then pure ()
        else if Needed n then runBackfills ctx else pure () : Db DbError Unit).run.run n := by
    rw [runStartupBackfill, ProgE.run_bind_ok (ProgE.run_query _ n), ProgE.run_bind_ok (ProgE.run_query _ n)]
    simp only [decide_eq_true_eq]
  rw [hguarded, hjob, guardedBackfill, run_count]
  by_cases hpending : pendingLimit < n.pendingMessages.rows.length
  · rw [if_pos hpending, if_pos hpending]
    rfl
  · rw [if_neg hpending, if_neg hpending, backfillMissing, run_count, run_count, run_count, run_count, run_count]
    by_cases hneeded : Needed n
    · rw [if_pos hneeded, if_neg (needed_iff.1 hneeded), run_backfillAll]
    · rw [if_neg hneeded, if_pos (not_not.1 (mt needed_iff.2 hneeded))]
      rfl

end Run

/-! ## The guard -/

/-- The calls of `run_startup_backfill`, in any number and any order. -/
abbrev Calls (ι : Type) := Flagged.World Node DbError GuardedStatement (Except String Unit) ι

/-- A state that calls of `run_startup_backfill` lead to; other code may change the database meanwhile. -/
abbrev CallsReach (ctx : BackfillContext) {ι : Type} [DecidableEq ι] (w : Calls ι) : Prop :=
  Flagged.Reachable critical (runGuarded ctx).run w

/-- `BACKFILL_RUNNING` is given back and never taken over. -/
abbrev GuardKept (ctx : BackfillContext) {ι : Type} [DecidableEq ι] (w : Calls ι) : Prop :=
  Flagged.Kept critical (runGuarded ctx).run alreadyRunning w

/-- **The guard is kept in a reachable state if and only if no count has failed so far.** -/
theorem guardKept_iff {ctx : BackfillContext} {ι : Type} [DecidableEq ι] {w : Calls ι} (h : CallsReach ctx w) :
    GuardKept ctx w ↔ w.failed = false :=
  h.kept_iff (enters_runGuarded ctx)

/-! ### A failed count -/

/-- A job with the tables of an empty environment. -/
def guardContext : BackfillContext := { env := .ofTables [] [] [], order := .stored, rounds := 1 }

/-- Nothing called yet, and an empty database. -/
def noCalls : Calls (Fin 2) := .init (runGuarded guardContext).run .empty

local instance twoCalls : NeZero 2 := ⟨two_ne_zero⟩

/-- The first call has set the flag. -/
def oneCall : Calls (Fin 2) :=
  { noCalls with
    flag := true, calls := Function.update noCalls.calls 0 (guardedBackfill guardContext).run,
    holder := some 0 }

/-- Its count of the pending messages has failed. -/
def countFailed : Calls (Fin 2) :=
  { oneCall with
    calls := Function.update oneCall.calls 0 (.ret (.error "Failed to count pending: timeout")),
    failed := true }

theorem reach_oneCall : CallsReach guardContext oneCall := by
  have hbegin : noCalls.calls 0 = .acquire _ := rfl
  exact .step (.init .empty) (.acquire hbegin)

theorem reach_countFailed : CallsReach guardContext countFailed := by
  have hcount : oneCall.calls 0 = .stmt _ _ _ := rfl
  exact .step reach_oneCall (.refused "timeout" hcount)

/-- While the first call runs, the guard is kept. -/
theorem oneCall_kept : GuardKept guardContext oneCall := (guardKept_iff reach_oneCall).2 rfl

/-- **A count that fails leaves the flag set for ever**: its call has returned, and the next is refused. -/
theorem guard_leaks :
    CallsReach guardContext countFailed ∧ countFailed.flag = true ∧ (countFailed.calls 0).returned = true ∧
      ¬ GuardKept guardContext countFailed := by
  have hret : (countFailed.calls 0).returned = true := rfl
  refine ⟨reach_countFailed, rfl, hret, fun hkept => ?_⟩
  obtain ⟨i, hi, hnot⟩ := hkept.released rfl
  obtain rfl : i = 0 := (Option.some.inj hi).symm
  rw [hret] at hnot
  exact Bool.false_ne_true hnot.symm

end AlephCore.Backfill
