import AlephCore.Jobs.ChainSync
import AlephCore.Jobs.TakeBatch
import AlephCore.Lib.Guarantee
import Mathlib.Data.List.Perm.Basic
import Mathlib.Logic.Relation

/-!
# BatchRun — batches, statement by statement

The processor takes a batch, works on its messages at the same time and settles the results, one batch after
another.  Every statement may be refused, a message that takes too long is cut off, and other jobs queue
messages in between.  A `Supervision` says what each stage of a batch relies on and promises; what it keeps
holds in every state of every run that meets its guard.  A `Discipline` does so without a look at the batch.
-/

namespace AlephCore.MessageProcessor

open ProgE Prog

/-! ## The states of a run -/

/-- A message of the batch, and what is left of its task. -/
structure Task where
  pending : PendingMessageDb
  rest : Prog Node DbError (Except ProcessorError ProcessResult)

/-- How far the processor has come with a batch. -/
inductive Phase where
  | idle
  | taking (ctx : ProcessorContext) (rest : Prog Node DbError (Except ProcessorError Batch))
  | working (ctx : ProcessorContext) (batch : Batch) (tasks : List Task)
  | settling (ctx : ProcessorContext) (batch : Batch) (results : List TaskResult)
      (rest : Prog Node DbError (Except ProcessorError Unit))

/-- The database, and the processor that works on it. -/
structure World where
  node : Node
  phase : Phase

def Task.start (ctx : ProcessorContext) (pending : PendingMessageDb) : Task :=
  ⟨pending, (processSingleMessage ctx pending).run⟩

/-- A task that has returned. -/
def Task.ended (r : TaskResult) : Task := ⟨r.1, .pure r.2⟩

/-- The result of a task that was cut off after 30 seconds. -/
def timedOut : Except ProcessorError ProcessResult := .error (.invalidMessage "Timeout")

/-- A task is waited for until it has returned, and then only while its message is published. -/
def MayTimeOut (p : Prog Node DbError (Except ProcessorError ProcessResult)) : Prop :=
  ∀ r, p = .pure r → r = .ok .processed

/-- One step: of the processor, or of the other jobs.  The tasks of a batch run in any order and overlap in any
way. -/
inductive Step (other : Node → Node → Prop) : World → World → Prop
  | start {n : Node} (ctx : ProcessorContext) : Step other ⟨n, .idle⟩ ⟨n, .taking ctx (takeBatch ctx).run⟩
  | take {n n' : Node} {ctx : ProcessorContext} {p p' : Prog Node DbError (Except ProcessorError Batch)}
      (h : Next p n p' n') : Step other ⟨n, .taking ctx p⟩ ⟨n', .taking ctx p'⟩
  | taken {n : Node} {ctx : ProcessorContext} {batch : Batch} :
      Step other ⟨n, .taking ctx (.pure (.ok batch))⟩ ⟨n, .working ctx batch (batch.messages.map (Task.start ctx))⟩
  | takeFailed {n : Node} {ctx : ProcessorContext} {e : ProcessorError} :
      Step other ⟨n, .taking ctx (.pure (.error e))⟩ ⟨n, .idle⟩
  | work {n n' : Node} {ctx : ProcessorContext} {batch : Batch} {ts us : List Task} {q : PendingMessageDb}
      {p p' : Prog Node DbError (Except ProcessorError ProcessResult)} (h : Next p n p' n') :
      Step other ⟨n, .working ctx batch (ts ++ ⟨q, p⟩ :: us)⟩ ⟨n', .working ctx batch (ts ++ ⟨q, p'⟩ :: us)⟩
  | timeout {n : Node} {ctx : ProcessorContext} {batch : Batch} {ts us : List Task} {q : PendingMessageDb}
      {p : Prog Node DbError (Except ProcessorError ProcessResult)} (h : MayTimeOut p) :
      Step other ⟨n, .working ctx batch (ts ++ ⟨q, p⟩ :: us)⟩
        ⟨n, .working ctx batch (ts ++ ⟨q, .pure timedOut⟩ :: us)⟩
  | worked {n : Node} {ctx : ProcessorContext} {batch : Batch} {tasks : List Task} {results : List TaskResult}
      (h : tasks.Perm (results.map Task.ended)) :
      Step other ⟨n, .working ctx batch tasks⟩
        ⟨n, .settling ctx batch results (MessageProcessor.settle ctx batch results).run⟩
  | settle {n n' : Node} {ctx : ProcessorContext} {batch : Batch} {results : List TaskResult}
      {p p' : Prog Node DbError (Except ProcessorError Unit)} (h : Next p n p' n') :
      Step other ⟨n, .settling ctx batch results p⟩ ⟨n', .settling ctx batch results p'⟩
  | settled {n : Node} {ctx : ProcessorContext} {batch : Batch} {results : List TaskResult}
      {r : Except ProcessorError Unit} : Step other ⟨n, .settling ctx batch results (.pure r)⟩ ⟨n, .idle⟩
  | other {n n' : Node} {phase : Phase} (h : other n n') : Step other ⟨n, phase⟩ ⟨n', phase⟩

/-- The processor does the same beside more jobs. -/
theorem Step.mono {other other' : Node → Node → Prop} (hother : ∀ n n', other n n' → other' n n') {w w' : World}
    (h : Step other w w') : Step other' w w' := by
  cases h with
  | start ctx => exact .start ctx
  | take h => exact .take h
  | taken => exact .taken
  | takeFailed => exact .takeFailed
  | work h => exact .work h
  | timeout h => exact .timeout h
  | worked h => exact .worked h
  | settle h => exact .settle h
  | settled => exact .settled
  | other h => exact .other (hother _ _ h)

/-! ## The other jobs -/

/-- A message arrives from the network or over the web API, or one that is synced from a chain is queued. -/
inductive Queued : Node → Node → Prop
  | received {n n' : Node} (now : Timestamp) (json : Json) (message : Message)
      (hdecode : Message.decode json = .ok message)
      (h : Exec (ChainSync.insertPendingMessage now message.itemHash json).run n (.ok ()) n') : Queued n n'
  | synced {n n' : Node} (ctx : ChainSync.ChainSyncContext) (messages : List Message)
      (h : Exec (ChainSync.queueMessagesForProcessing ctx messages).run n (.ok ()) n') : Queued n n'

/-- A chunk of messages from a chain is stored. -/
def Synced (chunk : List Message) (n n' : Node) : Prop :=
  ∃ affected, Exec (ChainSync.insertChunk chunk).run n (.ok affected) n'

/-- The statements of the other jobs. -/
def Insertion (n n' : Node) : Prop := Queued n n' ∨ ∃ chunk, Synced chunk n n'

/-- A stored chunk adds rows, and contents to rows that have none. -/
theorem Synced.eq {chunk : List Message} {n n' : Node} (h : Synced chunk n n') :
    n' = { n with messages := chunk.foldl ChainSync.insertMessage n.messages } := by
  obtain ⟨affected, hexec⟩ := h
  have hstatement := exec_sql_ok.1 hexec
  simp only at hstatement
  split_ifs at hstatement
  · exact (Prod.mk.inj hstatement).2.symm
  · cases (Prod.mk.inj hstatement).1

/-- A row has the hash of a row from before, and its status, or that of a message of the chunk. -/
theorem mem_insertMessages {chunk : List Message} {t : Table MessageRow MessageRow.itemHash} {r : MessageRow}
    (h : r ∈ chunk.foldl ChainSync.insertMessage t) :
    (∃ q ∈ t, q.itemHash = r.itemHash ∧ q.status = r.status) ∨ ∃ m ∈ chunk, m.itemHash = r.itemHash := by
  induction chunk generalizing t with
  | nil => exact .inl ⟨r, h, rfl, rfl⟩
  | cons m chunk ih =>
    rcases ih h with ⟨q, hq, hhash, hstatus⟩ | ⟨m', hm', hhash⟩
    · rcases Table.mem_upsert.1 hq with ⟨hq, -⟩ | ⟨s, hs, -, rfl⟩ | ⟨rfl, -⟩
      · exact .inl ⟨q, hq, hhash, hstatus⟩
      · exact .inl ⟨s, hs, hhash, hstatus⟩
      · exact .inr ⟨m, List.mem_cons_self, hhash⟩
    · exact .inr ⟨m', List.mem_cons_of_mem _ hm', hhash⟩

theorem exists_insertMessages {chunk : List Message} {t : Table MessageRow MessageRow.itemHash} {x : ItemHash}
    (h : ∃ r ∈ t, r.itemHash = x) : ∃ r ∈ chunk.foldl ChainSync.insertMessage t, r.itemHash = x := by
  induction chunk generalizing t with
  | nil => exact h
  | cons m chunk ih => exact ih ((Table.exists_key_upsert (P := fun k => k = x)).2 (.inl h))

/-! ## What holds throughout a run -/

/-- The stages of a batch that touch the database. -/
inductive Stage where
  | taking (ctx : ProcessorContext)
  | working
  | settling (results : List TaskResult)

def Phase.stage : Phase → Option Stage
  | .idle => none
  | .taking ctx _ => some (.taking ctx)
  | .working _ _ _ => some .working
  | .settling _ _ results _ => some (.settling results)

/-- A step from a state that meets the guard of its stage. -/
def Guarded (other : Node → Node → Prop) (guard : Stage → Node → Prop) (w w' : World) : Prop :=
  Step other w w' ∧ ∀ s, w.phase.stage = some s → guard s w.node

/-- A stage, and the batch it works on. -/
inductive Duty where
  | taking (ctx : ProcessorContext)
  | working (ctx : ProcessorContext) (batch : Batch)
  | settling (ctx : ProcessorContext) (batch : Batch) (results : List TaskResult)

def Duty.stage : Duty → Stage
  | .taking ctx => .taking ctx
  | .working _ _ => .working
  | .settling _ _ results => .settling results

def Phase.duty : Phase → Option Duty
  | .idle => none
  | .taking ctx _ => some (.taking ctx)
  | .working ctx batch _ => some (.working ctx batch)
  | .settling ctx batch results _ => some (.settling ctx batch results)

/-- A step from a state that meets the guard of its stage and batch. -/
def Watched (other : Node → Node → Prop) (guard : Duty → Node → Prop) (w w' : World) : Prop :=
  Step other w w' ∧ ∀ d, w.phase.duty = some d → guard d w.node

theorem guarded_iff {other : Node → Node → Prop} {guard : Stage → Node → Prop} {w w' : World} :
    Guarded other guard w w' ↔ Watched other (fun d => guard d.stage) w w' := by
  refine and_congr_right fun _ => ?_
  have hstage : w.phase.stage = w.phase.duty.map Duty.stage := by
    cases w.phase <;> rfl
  rw [hstage]
  constructor
  · exact fun h d hd => h d.stage (by rw [hd, Option.map_some])
  · intro h s hs
    obtain ⟨d, hd, rfl⟩ := Option.map_eq_some_iff.1 hs
    exact h d hd

/-- What the stages of a batch rely on and promise, such that `inv` is kept. -/
structure Supervision (other : Node → Node → Prop) (guard : Duty → Node → Prop) where
  inv : Node → Prop
  contract : Duty → Contract Node
  /-- Of the batch that was taken. -/
  taken : Batch → Node → Prop
  /-- Of a task that has returned. -/
  ended : TaskResult → Node → Prop
  given : ∀ {d n}, inv n → guard d n → (contract d).given n
  kept : ∀ {d n n'}, inv n → (contract d).guar n n' → inv n'
  undisturbed : ∀ {n n'}, inv n → other n n' → inv n' ∧ ∀ d, (contract d).rely n n'
  shared : ∀ {ctx b n n'}, (contract (.working ctx b)).guar n n' → (contract (.working ctx b)).rely n n'
  stable : ∀ {ctx b}, (contract (.working ctx b)).Stable (taken b)
  take : ∀ {ctx n}, inv n →
    Assures (contract (.taking ctx)) (IfOk taken) (takeBatch ctx).run n
  work : ∀ {ctx b n}, taken b n → ∀ p ∈ b.messages,
    Assures (contract (.working ctx b)) (fun r n => ended (p, r) n) (processSingleMessage ctx p).run n
  timeout : ∀ {p n}, ended (p, timedOut) n
  settle : ∀ {ctx b results n}, taken b n → (∀ r ∈ results, r.1 ∈ b.messages ∧ ended r n) →
    Assures (contract (.settling ctx b results)) (fun _ _ => True) (settle ctx b results).run n

namespace Supervision

variable {other : Node → Node → Prop} {guard : Duty → Node → Prop} (d : Supervision other guard)

/-- What is left of a phase assures what the next one needs. -/
def OnTrack (n : Node) : Phase → Prop
  | .idle => True
  | .taking ctx p => Assures (d.contract (.taking ctx)) (IfOk d.taken) p n
  | .working ctx b tasks => d.taken b n ∧ ∀ t ∈ tasks, t.pending ∈ b.messages ∧
      Assures (d.contract (.working ctx b)) (fun r n => d.ended (t.pending, r) n) t.rest n
  | .settling ctx b results p => Assures (d.contract (.settling ctx b results)) (fun _ _ => True) p n

/-- The invariant of a run. -/
def Holds (w : World) : Prop := d.inv w.node ∧ d.OnTrack w.node w.phase

variable {d}

theorem holds_idle {n : Node} (h : d.inv n) : d.Holds ⟨n, .idle⟩ := ⟨h, trivial⟩

/-- The other tasks are still on track after a step of one. -/
theorem onTrack_tasks {n n' : Node} {ctx : ProcessorContext} {b : Batch} {ts us : List Task} {t t' : Task}
    (h : d.OnTrack n (.working ctx b (ts ++ t :: us))) (hpending : t'.pending = t.pending)
    (hrely : (d.contract (.working ctx b)).rely n n')
    (ht : Assures (d.contract (.working ctx b)) (fun r n => d.ended (t.pending, r) n) t'.rest n') :
    d.OnTrack n' (.working ctx b (ts ++ t' :: us)) := by
  refine ⟨d.stable _ _ hrely h.1, fun u hu => ?_⟩
  have hother : u ∈ ts ++ t :: us → u.pending ∈ b.messages ∧
      Assures (d.contract (.working ctx b)) (fun r n => d.ended (u.pending, r) n) u.rest n' := fun hu =>
    ⟨(h.2 u hu).1, (h.2 u hu).2.rely hrely⟩
  rcases List.mem_append.1 hu with hu | hu
  · exact hother (List.mem_append_left _ hu)
  · rcases List.mem_cons.1 hu with rfl | hu
    · rw [hpending]
      exact ⟨(h.2 t (List.mem_append_right _ List.mem_cons_self)).1, ht⟩
    · exact hother (List.mem_append_right _ (List.mem_cons_of_mem _ hu))

/-- **The other jobs** keep the invariant, whatever the guard. -/
theorem Holds.beside {n n' : Node} {phase : Phase} (h : d.Holds ⟨n, phase⟩) (hother : other n n') :
    d.Holds ⟨n', phase⟩ := by
  obtain ⟨hinv, htrack⟩ := h
  obtain ⟨hinv', hrely⟩ := d.undisturbed hinv hother
  refine ⟨hinv', ?_⟩
  cases phase with
  | idle => trivial
  | taking ctx p => exact Assures.rely htrack (hrely _)
  | working ctx b tasks =>
    have hworking := hrely (.working ctx b)
    exact ⟨d.stable _ _ hworking htrack.1, fun t ht => ⟨(htrack.2 t ht).1, (htrack.2 t ht).2.rely hworking⟩⟩
  | settling ctx b results p => exact Assures.rely htrack (hrely _)

/-- **A watched step keeps the invariant.** -/
theorem Holds.step {w w' : World} (h : d.Holds w) (hstep : Watched other guard w w') : d.Holds w' := by
  obtain ⟨hinv, htrack⟩ := h
  obtain ⟨hstep, hguard⟩ := hstep
  cases hstep with
  | start ctx => exact ⟨hinv, d.take hinv⟩
  | take hnext =>
    obtain ⟨hguar, hrest⟩ := Assures.next htrack (d.given hinv (hguard _ rfl)) hnext
    exact ⟨d.kept hinv hguar, hrest⟩
  | @taken n ctx batch =>
    have hrest : Assures (d.contract (.taking ctx)) (IfOk d.taken)
        (.pure (.ok batch) : Prog Node DbError (Except ProcessorError Batch)) n := htrack
    have htaken : d.taken batch n := ifOk_ok.1 hrest.result
    refine ⟨hinv, htaken, fun t ht => ?_⟩
    obtain ⟨p, hp, rfl⟩ := List.mem_map.1 ht
    exact ⟨hp, d.work htaken p hp⟩
  | takeFailed => exact holds_idle hinv
  | work hnext =>
    have htask := htrack.2 _ (List.mem_append_right _ List.mem_cons_self)
    obtain ⟨hguar, hrest⟩ := Assures.next htask.2 (d.given hinv (hguard _ rfl)) hnext
    exact ⟨d.kept hinv hguar, onTrack_tasks htrack rfl (d.shared hguar) hrest⟩
  | @timeout n ctx batch ts us q p _ =>
    refine ⟨hinv, onTrack_tasks htrack rfl ((d.contract (.working ctx batch)).rely_refl _) fun _ _ => d.timeout⟩
  | @worked n ctx batch tasks results hperm =>
    refine ⟨hinv, d.settle htrack.1 fun r hr => ?_⟩
    have htask := htrack.2 (Task.ended r) (hperm.mem_iff.2 (List.mem_map_of_mem hr))
    exact ⟨htask.1, htask.2.result⟩
  | settle hnext =>
    obtain ⟨hguar, hrest⟩ := Assures.next htrack (d.given hinv (hguard _ rfl)) hnext
    exact ⟨d.kept hinv hguar, hrest⟩
  | settled => exact holds_idle hinv
  | other hother => exact Holds.beside ⟨hinv, htrack⟩ hother

/-- **A watched step** of the processor itself keeps the promise of its stage. -/
theorem Holds.promise {w w' : World} (h : d.Holds w) (hstep : Watched (fun _ _ => False) guard w w') :
    w'.node = w.node ∨ ∃ u, (d.contract u).guar w.node w'.node := by
  obtain ⟨hinv, htrack⟩ := h
  obtain ⟨hstep, hguard⟩ := hstep
  cases hstep with
  | start ctx => exact .inl rfl
  | take hnext => exact .inr ⟨_, (Assures.next htrack (d.given hinv (hguard _ rfl)) hnext).1⟩
  | taken => exact .inl rfl
  | takeFailed => exact .inl rfl
  | work hnext =>
    have htask := htrack.2 _ (List.mem_append_right _ List.mem_cons_self)
    exact .inr ⟨_, (Assures.next htask.2 (d.given hinv (hguard _ rfl)) hnext).1⟩
  | timeout => exact .inl rfl
  | worked => exact .inl rfl
  | settle hnext => exact .inr ⟨_, (Assures.next htrack (d.given hinv (hguard _ rfl)) hnext).1⟩
  | settled => exact .inl rfl
  | other hother => exact hother.elim

/-- **What a supervision keeps** holds in every state of a watched run. -/
theorem inv_of_run {n : Node} {w : World} (h : d.inv n)
    (hrun : Relation.ReflTransGen (Watched other guard) ⟨n, .idle⟩ w) : d.inv w.node := by
  have hholds : d.Holds w := by
    induction hrun with
    | refl => exact holds_idle h
    | tail _ hstep ih => exact ih.step hstep
  exact hholds.1

end Supervision

/-- What the stages of a batch rely on and promise, whatever the batch. -/
structure Discipline (other : Node → Node → Prop) (guard : Stage → Node → Prop) where
  inv : Node → Prop
  contract : Stage → Contract Node
  /-- Of the batch that was taken. -/
  taken : Batch → Node → Prop
  /-- Of a task that has returned. -/
  ended : TaskResult → Node → Prop
  given : ∀ {s n}, inv n → guard s n → (contract s).given n
  kept : ∀ {s n n'}, inv n → (contract s).guar n n' → inv n'
  undisturbed : ∀ {n n'}, inv n → other n n' → inv n' ∧ ∀ s, (contract s).rely n n'
  shared : ∀ {n n'}, (contract .working).guar n n' → (contract .working).rely n n'
  stable : ∀ {b}, (contract .working).Stable (taken b)
  take : ∀ {ctx n}, inv n →
    Assures (contract (.taking ctx)) (IfOk taken) (takeBatch ctx).run n
  work : ∀ {ctx b n}, taken b n → ∀ p ∈ b.messages,
    Assures (contract .working) (fun r n => ended (p, r) n) (processSingleMessage ctx p).run n
  timeout : ∀ {p n}, ended (p, timedOut) n
  settle : ∀ {ctx b results n}, taken b n → (∀ r ∈ results, r.1 ∈ b.messages ∧ ended r n) →
    Assures (contract (.settling results)) (fun _ _ => True) (settle ctx b results).run n

namespace Discipline

variable {other : Node → Node → Prop} {guard : Stage → Node → Prop} (d : Discipline other guard)

def supervision : Supervision other fun u => guard u.stage where
  inv := d.inv
  contract u := d.contract u.stage
  taken := d.taken
  ended := d.ended
  given := d.given
  kept := d.kept
  undisturbed hinv hother := ⟨(d.undisturbed hinv hother).1, fun u => (d.undisturbed hinv hother).2 u.stage⟩
  shared := d.shared
  stable := d.stable
  take := d.take
  work := d.work
  timeout := d.timeout
  settle := d.settle

variable {d}

/-- **What a discipline keeps** holds in every state of a guarded run. -/
theorem inv_of_run {n : Node} {w : World} (h : d.inv n)
    (hrun : Relation.ReflTransGen (Guarded other guard) ⟨n, .idle⟩ w) : d.inv w.node :=
  d.supervision.inv_of_run h (Relation.ReflTransGen.mono (fun _ _ => guarded_iff.1) _ _ hrun)

end Discipline

/-! ## Batches whose tasks run one after another -/

/-- The tasks of these messages, one after another, and their results. -/
def WorkedOff (ctx : ProcessorContext) : List PendingMessageDb → Node → List TaskResult → Node → Prop
  | [], n, results, n' => results = [] ∧ n' = n
  | p :: ps, n, results, n' => ∃ r n₁ rest, Exec (processSingleMessage ctx p).run n r n₁ ∧
      WorkedOff ctx ps n₁ rest n' ∧ results = (p, r) :: rest

section Run

variable {other : Node → Node → Prop} {ctx : ProcessorContext} {b : Batch}

section Watched

variable {guard : Duty → Node → Prop}

/-- A phase executes its program. -/
theorem run_phase {α : Type} (phase : Prog Node DbError α → Phase) (duty : Duty)
    (hduty : ∀ p, (phase p).duty = some duty)
    (hstep : ∀ {p p' : Prog Node DbError α} {n n' : Node}, Next p n p' n' → Step other ⟨n, phase p⟩ ⟨n', phase p'⟩)
    {p : Prog Node DbError α} {a : α} {n n' : Node} (h : Exec p n a n') (hguard : ∀ t, Reach p n t → guard duty t) :
    Relation.ReflTransGen (Watched other guard) ⟨n, phase p⟩ ⟨n', phase (.pure a)⟩ := by
  refine (h.nexts hguard).lift (fun x : Prog Node DbError α × Node => World.mk x.2 (phase x.1)) ?_
  rintro x y ⟨hnext, hG⟩
  refine ⟨hstep hnext, fun s hs => ?_⟩
  obtain rfl := Option.some.inj ((hduty x.1).symm.trans hs)
  exact hG

/-- Some tasks have ended, and the others run one after another. -/
theorem run_tasks (hguard : ∀ t, guard (.working ctx b) t) (ended : List TaskResult) {ps : List PendingMessageDb}
    {n n' : Node} {results : List TaskResult} (h : WorkedOff ctx ps n results n') :
    Relation.ReflTransGen (Watched other guard)
      ⟨n, .working ctx b (ended.map Task.ended ++ ps.map (Task.start ctx))⟩
      ⟨n', .working ctx b ((ended ++ results).map Task.ended)⟩ := by
  induction ps generalizing ended n results with
  | nil =>
    obtain ⟨rfl, rfl⟩ := h
    simp only [List.map_nil, List.append_nil]
    exact .refl
  | cons p ps ih =>
    obtain ⟨r, n₁, rest, hexec, hrest, rfl⟩ := h
    refine .trans (run_phase (fun q => .working ctx b (ended.map Task.ended ++ ⟨p, q⟩ :: ps.map (Task.start ctx)))
      (.working ctx b) (fun _ => rfl) .work hexec fun t _ => hguard t) ?_
    have hnext := ih (ended ++ [(p, r)]) hrest
    simp only [List.map_append, List.map_cons, List.map_nil, List.append_assoc, List.singleton_append] at hnext ⊢
    exact hnext

/-- **A batch whose tasks run one after another** is a run. -/
theorem watched_batch {n n₁ n₂ n₃ : Node} {results : List TaskResult} {r : Except ProcessorError Unit}
    (htake : Exec (takeBatch ctx).run n (.ok b) n₁) (hwork : WorkedOff ctx b.messages n₁ results n₂)
    (hsettle : Exec (settle ctx b results).run n₂ r n₃)
    (hG₁ : ∀ t, Reach (takeBatch ctx).run n t → guard (.taking ctx) t) (hG₂ : ∀ t, guard (.working ctx b) t)
    (hG₃ : ∀ t, Reach (settle ctx b results).run n₂ t → guard (.settling ctx b results) t) :
    Relation.ReflTransGen (Watched other guard) ⟨n, .idle⟩ ⟨n₃, .idle⟩ := by
  have hstart : Watched other guard ⟨n, .idle⟩ ⟨n, .taking ctx (takeBatch ctx).run⟩ :=
    ⟨.start ctx, fun _ hs => nomatch hs⟩
  have htaken : Watched other guard ⟨n₁, .taking ctx (.pure (.ok b))⟩
      ⟨n₁, .working ctx b (b.messages.map (Task.start ctx))⟩ := by
    refine ⟨.taken, fun s hs => ?_⟩
    cases hs
    exact hG₁ n₁ htake.reach
  have hworked : Watched other guard ⟨n₂, .working ctx b (results.map Task.ended)⟩
      ⟨n₂, .settling ctx b results (settle ctx b results).run⟩ := by
    refine ⟨.worked (.refl _), fun s hs => ?_⟩
    cases hs
    exact hG₂ n₂
  have hsettled : Watched other guard ⟨n₃, .settling ctx b results (.pure r)⟩ ⟨n₃, .idle⟩ := by
    refine ⟨.settled, fun s hs => ?_⟩
    cases hs
    exact hG₃ n₃ hsettle.reach
  have htakes : Relation.ReflTransGen (Watched other guard) ⟨n, .taking ctx (takeBatch ctx).run⟩
      ⟨n₁, .taking ctx (.pure (.ok b))⟩ := run_phase (.taking ctx) (.taking ctx) (fun _ => rfl) .take htake hG₁
  have hworks : Relation.ReflTransGen (Watched other guard)
      ⟨n₁, .working ctx b (b.messages.map (Task.start ctx))⟩ ⟨n₂, .working ctx b (results.map Task.ended)⟩ :=
    run_tasks hG₂ [] hwork
  have hsettles : Relation.ReflTransGen (Watched other guard)
      ⟨n₂, .settling ctx b results (settle ctx b results).run⟩ ⟨n₃, .settling ctx b results (.pure r)⟩ :=
    run_phase (.settling ctx b results) (.settling ctx b results) (fun _ => rfl) .settle hsettle hG₃
  exact (htakes.head hstart).trans (.head htaken (hworks.trans (.head hworked (hsettles.tail hsettled))))

/-- The same, for a batch that is taken and settled without refusals. -/
theorem watched_batchOf {n n₂ : Node} {ps : List PendingMessageDb} {results : List TaskResult}
    (hplain : ∀ p ∈ duePending ctx n, chainConfirmation p.itemHash p.message = none)
    (hmessages : (batchOf ctx n).messages = ps) (hwork : WorkedOff ctx ps n results n₂)
    (hG₁ : ∀ t, Reach (takeBatch ctx).run n t → guard (.taking ctx) t)
    (hG₂ : ∀ t, guard (.working ctx (batchOf ctx n)) t)
    (hG₃ : ∀ t, guard (.settling ctx (batchOf ctx n) results) t) :
    Relation.ReflTransGen (Watched other guard) ⟨n, .idle⟩
      ⟨((settle ctx (batchOf ctx n) results).run.run n₂).2, .idle⟩ := by
  rw [← hmessages] at hwork
  exact watched_batch (exec_takeBatch hplain) hwork (exec_run _ _) hG₁ hG₂ fun t _ => hG₃ t

end Watched

section Guarded

variable {guard : Stage → Node → Prop}

theorem run_batch {n n₁ n₂ n₃ : Node} {results : List TaskResult} {r : Except ProcessorError Unit}
    (htake : Exec (takeBatch ctx).run n (.ok b) n₁) (hwork : WorkedOff ctx b.messages n₁ results n₂)
    (hsettle : Exec (settle ctx b results).run n₂ r n₃)
    (hG₁ : ∀ t, Reach (takeBatch ctx).run n t → guard (.taking ctx) t) (hG₂ : ∀ t, guard .working t)
    (hG₃ : ∀ t, Reach (settle ctx b results).run n₂ t → guard (.settling results) t) :
    Relation.ReflTransGen (Guarded other guard) ⟨n, .idle⟩ ⟨n₃, .idle⟩ :=
  Relation.ReflTransGen.mono (fun _ _ => guarded_iff.2) _ _ (watched_batch htake hwork hsettle hG₁ hG₂ hG₃)

theorem run_batchOf {n n₂ : Node} {ps : List PendingMessageDb} {results : List TaskResult}
    (hplain : ∀ p ∈ duePending ctx n, chainConfirmation p.itemHash p.message = none)
    (hmessages : (batchOf ctx n).messages = ps) (hwork : WorkedOff ctx ps n results n₂)
    (hG₁ : ∀ t, Reach (takeBatch ctx).run n t → guard (.taking ctx) t) (hG₂ : ∀ t, guard .working t)
    (hG₃ : ∀ t, guard (.settling results) t) :
    Relation.ReflTransGen (Guarded other guard) ⟨n, .idle⟩
      ⟨((settle ctx (batchOf ctx n) results).run.run n₂).2, .idle⟩ :=
  Relation.ReflTransGen.mono (fun _ _ => guarded_iff.2) _ _
    (watched_batchOf hplain hmessages hwork hG₁ hG₂ hG₃)

end Guarded

end Run

end AlephCore.MessageProcessor
