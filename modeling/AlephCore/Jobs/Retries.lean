import AlephCore.Jobs.CrashSafety
import AlephCore.Jobs.GarbageCollector
import AlephCore.Jobs.StrandedContent
import Mathlib.Tactic.NormNum

/-!
# Retries — no pending message is stuck

The processor only takes pending rows whose time has come and that have been tried less than ten times; it deletes a
row that reaches the tenth retry.  In every run, with any statements refused and beside the jobs that queue,
overwrite and clean up pending rows, each pending row is due again an hour after the last clock that anybody has read.
-/

namespace AlephCore.MessageProcessor

open ProgE Prog ForgetHandler
open ContentFetch (setContent requeue)
open StrandedContent (rebuilt)

/-- The row has retries left, and its time comes at most an hour after `T`. -/
structure Prompt (T : Timestamp) (p : PendingMessageDb) : Prop where
  retries : p.retries < maxRetries
  nextAttempt : p.nextAttempt ≤ T + maxRetryDelay

/-- Every pending row is prompt. -/
def AllPrompt (T : Timestamp) (n : Node) : Prop := ∀ p ∈ n.pendingMessages, Prompt T p

variable {T : Timestamp} {n n' : Node} {ctx : ProcessorContext} {p : PendingMessageDb}

/-- What a prompt row waits for: an hour later it is due. -/
theorem Prompt.due (h : Prompt T p) (hnow : T + maxRetryDelay ≤ ctx.now) : Due ctx p :=
  ⟨h.nextAttempt.trans hnow, h.retries⟩

theorem maxRetryDelay_nonneg : 0 ≤ maxRetryDelay := by
  unfold maxRetryDelay
  norm_num

/-- A row that has just been queued. -/
theorem Prompt.of_now (hretries : p.retries = 0) (hnext : p.nextAttempt ≤ T) : Prompt T p where
  retries := by
    rw [hretries]
    decide
  nextAttempt := hnext.trans (le_add_of_nonneg_right maxRetryDelay_nonneg)

theorem retryDelay_le (retries : Int) : retryDelay retries ≤ maxRetryDelay := min_le_right _ _

/-! ## The other jobs -/

/-- What the other jobs do, by clocks and block heights up to `T`. -/
inductive Disturbance (T : Timestamp) (n : Node) : Node → Prop
  /-- A message arrives from the network or over the web API. -/
  | received (now : Timestamp) (json : Json) (message : Message) {n' : Node} (hnow : now ≤ T)
      (h : Exec (ChainSync.insertPendingMessage now message.itemHash json).run n (.ok ()) n') : Disturbance T n n'
  /-- Messages of a chain are stored, and queued. -/
  | synced (chunk : List Message) {n' : Node} (h : Synced chunk n n') : Disturbance T n n'
  | queued (sync : ChainSync.ChainSyncContext) (messages : List Message) {n' : Node}
      (hclock : ∀ m ∈ messages, ChainSync.receptionTime sync m.itemHash ≤ T)
      (h : Exec (ChainSync.queueMessagesForProcessing sync messages).run n (.ok ()) n') : Disturbance T n n'
  /-- A chain indexer queues a message it has found, or a batch that is still to be fetched. -/
  | indexed (q : PendingMessageDb) (hretries : q.retries = 0) (hnext : q.nextAttempt ≤ T) :
      Disturbance T n { n with pendingMessages := n.pendingMessages.insertNew q }
  /-- The garbage collector cleans up pending rows. -/
  | expires (gc : GarbageCollector.GcContext) {n' : Node}
      (h : Exec (GarbageCollector.cleanExpiredPending gc).run n (.ok ()) n') : Disturbance T n n'
  /-- A content is stored, and its message queued or its pending row rebuilt. -/
  | stores (x : ItemHash) (content : String) : Disturbance T n (setContent x content n)
  | requeues (now : Timestamp) (x : ItemHash) (hnow : now ≤ T) : Disturbance T n (requeue now x n)
  | rebuilds (now : Timestamp) (x : ItemHash) (hnow : now ≤ T) : Disturbance T n (rebuilt now x n)

theorem AllPrompt.insertNew {q : PendingMessageDb} (h : AllPrompt T n) (hq : Prompt T q) :
    AllPrompt T { n with pendingMessages := n.pendingMessages.insertNew q } := by
  intro p hp
  rcases Table.mem_insertNew.1 hp with hp | ⟨rfl, -⟩
  · exact h p hp
  · exact hq

theorem AllPrompt.queued {sync : ChainSync.ChainSyncContext} {messages : List Message} (h : AllPrompt T n)
    (hclock : ∀ m ∈ messages, ChainSync.receptionTime sync m.itemHash ≤ T) :
    AllPrompt T (ChainSync.enqueued sync n messages) := by
  unfold ChainSync.enqueued
  induction messages generalizing n with
  | nil => exact h
  | cons m messages ih =>
    have hm : Prompt T (ChainSync.queued sync m) := .of_now rfl (hclock m List.mem_cons_self)
    exact ih (h.insertNew hm) fun m' hm' => hclock m' (List.mem_cons_of_mem _ hm')

/-- **The other jobs** leave every pending row prompt. -/
theorem AllPrompt.disturbance (h : AllPrompt T n) (hd : Disturbance T n n') : AllPrompt T n' := by
  cases hd with
  | received now json message hnow hexec =>
    obtain rfl := exec_execute_ok.1 hexec
    exact h.insertNew (.of_now rfl hnow)
  | synced chunk hsynced =>
    rw [hsynced.eq]
    exact h
  | queued sync messages hclock hexec =>
    obtain rfl := ChainSync.exec_queue_ok.1 hexec
    exact h.queued hclock
  | indexed q hretries hnext => exact h.insertNew (.of_now hretries hnext)
  | expires gc hexec =>
    obtain rfl := exec_execute_ok.1 hexec
    exact fun p hp => h p (Table.mem_delete.1 hp).1
  | stores x content => exact h
  | requeues now x hnow =>
    unfold requeue
    cases hfind : n.messages.find? x with
    | none => exact h
    | some r =>
      intro p hp
      rcases Table.mem_upsert.1 hp with ⟨hp, -⟩ | ⟨q, -, -, rfl⟩ | ⟨rfl, -⟩
      · exact h p hp
      · exact .of_now rfl hnow
      · exact .of_now rfl hnow
  | rebuilds now x hnow =>
    unfold rebuilt ChainSync.rebuildPending
    rw [run_sql]
    cases hfind : n.messages.find? x with
    | none => exact h
    | some r =>
      intro p hp
      simp only [Table.mem_update] at hp
      rcases hp with ⟨hp, -⟩ | ⟨q, -, -, rfl⟩
      · exact h p hp
      · exact .of_now rfl hnow

/-! ## The processor -/

/-- While its clock has not passed `T`, the statements of the processor keep pending rows prompt; beside it forgotten
messages stay forgotten. -/
def promptContract (T clock : Timestamp) : Contract Node where
  given _ := clock ≤ T
  rely n n' := ∀ x, Forgotten n x → Forgotten n' x
  guar n n' := (∀ x, Forgotten n x → Forgotten n' x) ∧ (AllPrompt T n → AllPrompt T n')
  rely_refl _ _ hx := hx
  rely_trans h h' x hx := h' x (h x hx)
  guar_refl _ := ⟨fun _ hx => hx, fun hn => hn⟩

variable {clock : Timestamp}

/-- Only the pending rows change. -/
theorem guar_pending {t : Table PendingMessageDb PendingMessageDb.itemHash}
    (h : AllPrompt T n → ∀ p ∈ t, Prompt T p) :
    (promptContract T clock).guar n { n with pendingMessages := t } :=
  ⟨fun _ hx => hx, h⟩

theorem keepsBooks_prompt : KeepsBooks (promptContract T clock) where
  same hsame := by
    refine ⟨fun x hx => (forgotten_congr hsame.forgottenMessages).2 hx, fun h => ?_⟩
    unfold AllPrompt
    rw [hsame.pendingMessages]
    exact h
  marks n r := ⟨fun x hx => forgotten_insertNew.2 (.inl hx), fun h => h⟩
  drops _ := ⟨fun _ hx => hx, fun h => h⟩
  others x _ _ hst hx := hst x hx
  own hguar hx := hguar.1 _ hx

/-- A statement that sets the next attempt of a row, and keeps its retries or sets them to less than ten. -/
theorem guar_postpone {x : ItemHash} {f : PendingMessageDb → PendingMessageDb} {hf : ∀ p, (f p).itemHash = p.itemHash}
    (hprompt : ∀ p, Prompt T p → Prompt T (f p)) :
    (promptContract T clock).guar n { n with pendingMessages := n.pendingMessages.update (·.itemHash = x) f hf } := by
  refine guar_pending fun h p hp => ?_
  simp only [Table.mem_update] at hp
  rcases hp with ⟨hp, -⟩ | ⟨q, hq, -, rfl⟩
  · exact h p hp
  · exact hprompt q (h q hq)

theorem guar_delete {d : PendingMessageDb → Prop} [DecidablePred d] :
    (promptContract T clock).guar n { n with pendingMessages := n.pendingMessages.delete d } :=
  guar_pending fun h p hp => h p (Table.mem_delete.1 hp).1

/-- A message that cannot be fetched is put off for half a minute. -/
theorem assures_deferPending (x : ItemHash) :
    Assures (promptContract T ctx.now) (IfOk fun _ _ => True) (deferPending ctx x 30).run n := by
  refine assures_execute_ifOk (fun _ _ _ _ => trivial) fun t _ hnow =>
    ⟨guar_postpone fun p hp => ⟨hp.retries, ?_⟩, trivial⟩
  have hdelay : (30 : Timestamp) ≤ maxRetryDelay := by
    unfold maxRetryDelay
    norm_num
  exact add_le_add hnow hdelay

theorem assures_processWithContent (message : Message) :
    Assures (promptContract T ctx.now) (fun _ _ => True) (processWithContent ctx p message).run n := by
  unfold processWithContent
  cases rejection ctx p.trustedSource message with
  | some r => exact fun _ _ => trivial
  | none =>
    refine assures_bind (assures_ofProg (fun _ _ _ _ _ => trivial) keepsBooks_prompt.assures_processMessage)
      (fun status t _ => ?_) fun _ _ _ _ _ => trivial
    cases status with
    | rejected code text => exact fun _ _ => trivial
    | processed =>
      have hstore : Assures (promptContract T ctx.now) (IfOk fun _ _ => True)
          (storeProcessedMessage ctx.env message p.receptionTime).run t :=
        assures_execute_ifOk (fun _ _ _ _ => trivial) fun u _ _ => ⟨⟨fun _ hx => hx, fun h => h⟩, trivial⟩
      refine assures_bind (assures_mapErr (fun _ _ _ _ _ => trivial) (hstore.mono fun _ _ _ => trivial))
        (fun _ u _ => fun _ _ => trivial) fun _ _ _ _ _ => trivial

/-- **A task** leaves every pending row prompt. -/
theorem assures_processSingleMessage :
    Assures (promptContract T ctx.now) (fun _ _ => True) (processSingleMessage ctx p).run n := by
  unfold processSingleMessage
  cases Message.decode p.message with
  | error e => exact fun _ _ => trivial
  | ok received =>
    refine assures_pure_bind ?_
    cases obtainContent ctx received with
    | error e =>
      refine assures_bind (assures_mapErr (fun _ _ _ _ _ => trivial)
        ((assures_deferPending p.itemHash).mono fun _ _ _ => trivial)) (fun _ t _ => fun _ _ => trivial)
        fun _ _ _ _ _ => trivial
    | ok message => exact assures_processWithContent message

theorem assures_moveToRejected (p : PendingMessageDb) (code : ErrorCode) (text : String) :
    Assures (promptContract T ctx.now) (IfOk fun _ _ => True) (moveToRejected ctx p code text).run n := by
  refine assures_bind_ifOk (P := fun _ _ => True) ?_ fun _ t _ => ?_
  · exact assures_execute_ifOk (fun _ _ _ _ => trivial) fun u _ _ => ⟨⟨fun _ hx => hx, fun h => h⟩, trivial⟩
  · exact assures_execute_ifOk (fun _ _ _ _ => trivial) fun u _ _ => ⟨guar_delete, trivial⟩

/-- A row that is tried again has less than ten retries, and waits for an hour at most. -/
theorem assures_updateRetry (p : PendingMessageDb) (reason : String) :
    Assures (promptContract T ctx.now) (IfOk fun _ _ => True) (updateRetry ctx p reason).run n := by
  unfold updateRetry
  simp only
  split_ifs with hlast
  · exact assures_moveToRejected p _ _
  · refine assures_execute_ifOk (fun _ _ _ _ => trivial) fun t _ hnow => ⟨guar_postpone fun q _ => ?_, trivial⟩
    exact ⟨not_le.1 hlast, add_le_add hnow (retryDelay_le _)⟩

theorem assures_settleOne (r : TaskResult) :
    Assures (promptContract T ctx.now) (fun _ _ => True) (settleOne ctx r).run n := by
  have hignored : ∀ {p : Db DbError Unit}, Assures (promptContract T ctx.now) (IfOk fun _ _ => True) p.run n →
      Assures (promptContract T ctx.now) (fun _ _ => True) (ignore p : Db ProcessorError Unit).run n := fun hp =>
    assures_ignore (fun _ _ _ _ => trivial) (hp.mono fun _ _ _ => trivial)
  match r with
  | (_, .ok .processed) => exact fun _ _ => trivial
  | (p, .ok (.rejected code text)) => exact hignored (assures_moveToRejected p code text)
  | (p, .ok (.retry reason)) => exact hignored (assures_updateRetry p reason)
  | (_, .ok .deferred) => exact fun _ _ => trivial
  | (p, .error e) => exact hignored (assures_updateRetry p e.toString)

/-- **Settling** leaves every pending row prompt. -/
theorem assures_settle {b : Batch} {results : List TaskResult} :
    Assures (promptContract T ctx.now) (fun _ _ => True) (settle ctx b results).run n := by
  refine assures_bind (assures_forEach (J := fun _ => True) (fun _ _ _ _ => trivial)
    (fun r _ t _ => assures_settleOne r) trivial) (fun _ t _ => ?_) fun _ _ _ _ _ => trivial
  refine assures_mapErr (fun _ _ _ _ _ => trivial) ?_
  unfold batchDeletePending
  split_ifs
  · exact fun _ _ => trivial
  · exact (assures_execute_ifOk (J := fun _ => True) (fun _ _ _ _ => trivial) fun u _ _ =>
      ⟨guar_delete, trivial⟩).mono fun _ _ _ => trivial

/-! ## Runs -/

/-- The clock of the batch. -/
def Duty.now : Duty → Timestamp
  | .taking ctx => ctx.now
  | .working ctx _ => ctx.now
  | .settling ctx _ _ => ctx.now

/-- The other jobs forget nothing. -/
theorem Disturbance.forgotten (hd : Disturbance T n n') : n'.forgottenMessages = n.forgottenMessages := by
  cases hd with
  | received now json message hnow hexec =>
    obtain rfl := exec_execute_ok.1 hexec
    rfl
  | synced chunk hsynced =>
    rw [hsynced.eq]
  | queued sync messages hclock hexec =>
    obtain rfl := ChainSync.exec_queue_ok.1 hexec
    rfl
  | indexed q hretries hnext => rfl
  | expires gc hexec =>
    obtain rfl := exec_execute_ok.1 hexec
    rfl
  | stores x content => rfl
  | requeues now x hnow =>
    unfold requeue
    cases n.messages.find? x <;> rfl
  | rebuilds now x hnow =>
    unfold rebuilt ChainSync.rebuildPending
    rw [run_sql]
    cases n.messages.find? x <;> rfl

/-- What the stages of a batch keep of the pending rows, by clocks up to `T`. -/
def keepsPrompt (T : Timestamp) : Supervision (Disturbance T) fun d _ => d.now ≤ T where
  inv := AllPrompt T
  contract d := promptContract T d.now
  taken _ _ := True
  ended _ _ := True
  given _ hguard := hguard
  kept hinv hguar := hguar.2 hinv
  undisturbed hinv hother := ⟨hinv.disturbance hother, fun _ _ hx => (forgotten_congr hother.forgotten).2 hx⟩
  shared hguar := hguar.1
  stable _ _ _ _ := trivial
  take _ := (moves_takeBatch.assures (J := fun _ => True) (fun _ _ _ _ => trivial)
    (fun _ _ _ _ htxs => ⟨keepsBooks_prompt.same htxs.sameBooks, trivial⟩) trivial).mono
      fun _ _ _ _ _ => trivial
  work _ _ _ := assures_processSingleMessage
  timeout := trivial
  settle _ _ := assures_settle

/-! ## The next batch -/

/-- What the front of a sorted list leaves out comes after all of it, and the front is full. -/
theorem full_of_not_mem_take {α : Type} {r : α → α → Prop} {l : List α} (hsorted : l.Pairwise r) {k : Nat} {a : α}
    (ha : a ∈ l) (hleft : a ∉ l.take k) : (l.take k).length = k ∧ ∀ b ∈ l.take k, r b a := by
  have hparts : a ∈ l.take k ++ l.drop k := by
    rw [List.take_append_drop]
    exact ha
  have hdrop : a ∈ l.drop k := (List.mem_append.1 hparts).resolve_left hleft
  constructor
  · have hlong : k ≤ l.length := by
      by_contra hshort
      rw [List.drop_eq_nil_of_le (by omega)] at hdrop
      exact List.not_mem_nil hdrop
    rw [List.length_take, Nat.min_eq_left hlong]
  · intro b hb
    rw [← List.take_append_drop k l, List.pairwise_append] at hsorted
    exact hsorted.2.2 b hb a hdrop

/-- A batch reads a due row, unless it is full of rows that were received no later. -/
theorem read_or_full (hp : p ∈ n.pendingMessages) (hdue : Due ctx p) :
    p ∈ duePending ctx n ∨ (duePending ctx n).length = batchSize ∧
      ∀ q ∈ duePending ctx n, q.receptionTime ≤ p.receptionTime := by
  by_cases hread : p ∈ duePending ctx n
  · exact .inl hread
  · have hsorted := List.pairwise_insertionSort (fun p q : PendingMessageDb => p.receptionTime ≤ q.receptionTime)
      ((ctx.order.scan n.pendingMessages.rows).filter fun p => p.nextAttempt ≤ ctx.now ∧ p.retries < maxRetries)
    refine .inr (full_of_not_mem_take hsorted ?_ hread)
    rw [List.mem_insertionSort, List.mem_filter, SqlOrder.mem_scan, decide_eq_true_eq]
    exact ⟨hp, hdue⟩

/-- **No pending message is stuck**: in every run by clocks up to `T`, whatever is refused and beside the jobs that
queue messages, a batch that starts an hour later reads each pending row, or is full of rows that were received no
later. -/
theorem read_within_hour {n₀ : Node} {w : World} (hprompt : AllPrompt T n₀)
    (hrun : Relation.ReflTransGen (Watched (Disturbance T) fun d _ => d.now ≤ T) ⟨n₀, .idle⟩ w)
    (hlater : T + maxRetryDelay ≤ ctx.now) (hp : p ∈ w.node.pendingMessages) :
    p ∈ duePending ctx w.node ∨ (duePending ctx w.node).length = batchSize ∧
      ∀ q ∈ duePending ctx w.node, q.receptionTime ≤ p.receptionTime := by
  have hinv : AllPrompt T w.node := (keepsPrompt T).inv_of_run (n := n₀) hprompt hrun
  exact read_or_full hp ((hinv p hp).due hlater)

section Postponed

open PostHandler

/-- An hour after the batch that postponed the note. -/
def hourLater : ProcessorContext := { revisionCtx with now := revisionCtx.now + maxRetryDelay }

/-- The note, after a try that was refused. -/
def noteRetried : PendingMessageDb := ⟨noteHash, note.toJson, 1700000010, true, true, 1, revisionCtx.now + 60, true⟩

theorem run_postponed : Relation.ReflTransGen (Watched (Disturbance revisionCtx.now) fun d _ => d.now ≤ revisionCtx.now)
    ⟨queuedNode, .idle⟩ ⟨postponed, .idle⟩ := by
  have hone : (batchOf revisionCtx queuedNode).messages = [noteQueued] := by decide +kernel
  have htake : Exec (takeBatch revisionCtx).run queuedNode (.ok (batchOf revisionCtx queuedNode)) queuedNode :=
    exec_takeBatch (by decide +kernel)
  have hwork : WorkedOff revisionCtx (batchOf revisionCtx queuedNode).messages queuedNode [(noteQueued, refusal.1)]
      refusal.2 := by
    rw [hone]
    exact ⟨refusal.1, refusal.2, [], exec_runWith _ _ _, ⟨rfl, rfl⟩, rfl⟩
  exact watched_batch htake hwork (exec_run _ _) (fun _ _ => le_refl revisionCtx.now) (fun _ => le_refl revisionCtx.now)
    fun _ _ => le_refl revisionCtx.now

/-- The note whose message was not stored is read again. -/
theorem note_read_again : noteRetried ∈ duePending hourLater postponed ∨
    (duePending hourLater postponed).length = batchSize ∧
      ∀ q ∈ duePending hourLater postponed, q.receptionTime ≤ noteRetried.receptionTime := by
  have hprompt : AllPrompt revisionCtx.now queuedNode := by
    intro p hp
    obtain rfl := List.mem_singleton.1 hp
    exact .of_now rfl (by decide +kernel)
  have hretried : noteRetried ∈ postponed.pendingMessages.rows := by
    decide +kernel
  exact read_within_hour hprompt run_postponed (le_refl _) hretried

end Postponed

end AlephCore.MessageProcessor
