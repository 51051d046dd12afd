import AlephCore.Handlers.Books
import AlephCore.Jobs.BatchRun
import AlephCore.Jobs.Integrity

/-!
# Tracking — one message through a batch

A task stores its message last, and settling deletes the pending rows of what was stored.  Whatever a contract says
of the statements in between, a message whose task returns that it is processed is `done`, and its pending row is
deleted only if it `may` be.
-/

namespace AlephCore

open ProgE Prog ForgetHandler

/-- The JSON of the row, where it is a message, has the hash of the row. -/
def PendingMessageDb.Named (p : PendingMessageDb) : Prop :=
  ∀ m, Message.decode p.message = .ok m → m.itemHash = p.itemHash

namespace MessageProcessor

variable {c : Contract Node} {h : ItemHash} {done may : Node → Prop} {n : Node} {ctx : ProcessorContext}
  {p : PendingMessageDb}

/-- A task of the message returns that it is processed only once it is done. -/
def EndsDone (h : ItemHash) (done : Node → Prop) (r : TaskResult) (n : Node) : Prop :=
  r.2 = .ok .processed → r.1.itemHash = h → done n

theorem endsDone_ne {r : Except ProcessorError ProcessResult} (hr : r ≠ .ok .processed) :
    EndsDone h done (p, r) n := fun he => absurd he hr

/-! ## Working on a message -/

/-- What a contract says of the statements of a task: storing the message makes it `done`. -/
structure TracksTask (c : Contract Node) (h : ItemHash) (done : Node → Prop) : Prop where
  books : KeepsBooks c
  stable : c.Stable done
  stores : ∀ n env message receptionTime, c.guar n (stored env message receptionTime n) ∧
    (message.itemHash = h → done (stored env message receptionTime n))
  postpones : ∀ n x (f : PendingMessageDb → PendingMessageDb) (hf : ∀ p, (f p).itemHash = p.itemHash),
    (∀ p, (f p).message = p.message) → (∀ p, (f p).retries = p.retries) →
      c.guar n { n with pendingMessages := n.pendingMessages.update (·.itemHash = x) f hf }

namespace TracksTask

variable (ht : TracksTask c h done)
include ht

theorem assures_storeProcessedMessage (env : Env) (message : Message) (receptionTime : Timestamp) :
    Assures c (IfOk fun _ n => message.itemHash = h → done n) (storeProcessedMessage env message receptionTime).run n :=
  assures_execute_ifOk (fun s t hst hs he => ht.stable s t hst (hs he)) fun t _ _ => ht.stores t _ _ _

theorem assures_deferPending (x : ItemHash) (delay : Timestamp) :
    Assures c (IfOk fun _ _ => True) (deferPending ctx x delay).run n :=
  assures_execute_ifOk (fun _ _ _ _ => trivial) fun t _ _ =>
    ⟨ht.postpones t x _ _ (fun _ => rfl) fun _ => rfl, trivial⟩

/-- The message is stored before the task returns that it is processed. -/
theorem assures_processWithContent {message : Message} (hhash : message.itemHash = p.itemHash) :
    Assures c (fun r n => EndsDone h done (p, r) n) (processWithContent ctx p message).run n := by
  unfold processWithContent
  cases hrejection : rejection ctx p.trustedSource message with
  | some r => exact fun _ _ => endsDone_ne fun he => rejection_ne_processed hrejection (Except.ok.inj he)
  | none =>
    have hhandled : Assures c (fun _ _ => True) (ofProg (processMessage message
        (createHandlerContext ctx p.trustedSource)) : Db ProcessorError ProcessingStatus).run n :=
      assures_ofProg (fun _ _ _ _ _ => trivial) ht.books.assures_processMessage
    refine assures_bind hhandled (fun status t _ => ?_) fun _ _ _ _ _ => endsDone_ne nofun
    cases status with
    | rejected code text => exact fun _ _ => endsDone_ne nofun
    | processed =>
      refine assures_bind (assures_mapErr_ifOk (fun _ s t hst hs he => ht.stable s t hst (hs he))
        (ht.assures_storeProcessedMessage ctx.env message p.receptionTime)) (fun _ t hstored => ?_)
        fun _ _ _ _ _ => endsDone_ne nofun
      intro u htu _ he
      exact ht.stable t u htu (ifOk_ok.1 hstored (hhash.trans he))

/-- **A task** keeps the promise, and stores the message it returns as processed. -/
theorem assures_processSingleMessage (hp : p.Named) :
    Assures c (fun r n => EndsDone h done (p, r) n) (processSingleMessage ctx p).run n := by
  unfold processSingleMessage
  cases hdecode : Message.decode p.message with
  | error e => exact fun _ _ => endsDone_ne nofun
  | ok received =>
    refine assures_pure_bind ?_
    cases hobtain : obtainContent ctx received with
    | error e =>
      refine assures_bind (assures_mapErr_ifOk (fun _ _ _ _ _ => trivial) (ht.assures_deferPending p.itemHash 30))
        (fun _ t _ => ?_) fun _ _ _ _ _ => endsDone_ne nofun
      exact fun _ _ => endsDone_ne nofun
    | ok message =>
      exact ht.assures_processWithContent ((obtainContent_itemHash hobtain).trans (hp received hdecode))

end TracksTask

/-! ## Settling the results -/

/-- What a contract says of the statements that settle results: rejecting the message makes it `done`, and its
pending row is deleted while it `may` be. -/
structure TracksSettling (c : Contract Node) (h : ItemHash) (done may : Node → Prop) : Prop where
  stable : c.Stable done
  own : ∀ {n n'}, c.guar n n' → done n → done n'
  postpones : ∀ n x (f : PendingMessageDb → PendingMessageDb) (hf : ∀ p, (f p).itemHash = p.itemHash),
    (∀ p, (f p).message = p.message) → (∀ p, (f p).retries < maxRetries) →
      c.guar n { n with pendingMessages := n.pendingMessages.update (·.itemHash = x) f hf }
  rejects : ∀ n row (f : RejectedRow → RejectedRow) (hf : ∀ r, (f r).itemHash = r.itemHash),
    c.guar n { n with rejectedMessages := n.rejectedMessages.upsert row f hf } ∧
      (row.itemHash = h → done { n with rejectedMessages := n.rejectedMessages.upsert row f hf })
  deletes : ∀ n (d : PendingMessageDb → Prop) [DecidablePred d], (∀ p, d p → p.itemHash = h → may n) →
    c.guar n { n with pendingMessages := n.pendingMessages.delete d }
  may_of_done : ∀ n, c.given n → done n → may n

namespace TracksSettling

variable (ht : TracksSettling c h done may)
include ht

/-- A message is rejected before its pending row is deleted. -/
theorem assures_moveToRejected (p : PendingMessageDb) (code : ErrorCode) (text : String) :
    Assures c (IfOk fun _ _ => True) (moveToRejected ctx p code text).run n := by
  refine assures_bind_ifOk (P := fun _ n => p.itemHash = h → done n) ?_ fun _ t hrejected => ?_
  · exact assures_execute_ifOk (fun s t hst hs he => ht.stable s t hst (hs he)) fun t _ _ => ht.rejects t _ _ _
  · refine assures_execute_ifOk (fun _ _ _ _ => trivial) fun u htu hgiven => ⟨ht.deletes u _ ?_, trivial⟩
    intro q hq he
    exact ht.may_of_done u hgiven (ht.stable t u htu (hrejected (hq.symm.trans he)))

theorem assures_updateRetry (p : PendingMessageDb) (reason : String) :
    Assures c (IfOk fun _ _ => True) (updateRetry ctx p reason).run n := by
  unfold updateRetry
  simp only
  split_ifs with hlast
  · exact ht.assures_moveToRejected p _ _
  · exact assures_execute_ifOk (fun _ _ _ _ => trivial) fun t _ _ =>
      ⟨ht.postpones t _ _ _ (fun _ => rfl) fun _ => not_le.1 hlast, trivial⟩

theorem assures_settleOne (r : TaskResult) : Assures c (fun _ _ => True) (settleOne ctx r).run n := by
  have hignored : ∀ {p : Db DbError Unit}, Assures c (IfOk fun _ _ => True) p.run n →
      Assures c (fun _ _ => True) (ignore p : Db ProcessorError Unit).run n := fun hp =>
    assures_ignore (fun _ _ _ _ => trivial) (hp.mono fun _ _ _ => trivial)
  match r with
  | (_, .ok .processed) => exact fun _ _ => trivial
  | (p, .ok (.rejected code text)) => exact hignored (ht.assures_moveToRejected p code text)
  | (p, .ok (.retry reason)) => exact hignored (ht.assures_updateRetry p reason)
  | (_, .ok .deferred) => exact fun _ _ => trivial
  | (p, .error e) => exact hignored (ht.assures_updateRetry p e.toString)

/-- **Settling** keeps the promise if what the batch deletes at once may be deleted, which nobody makes false. -/
theorem assures_settle {b : Batch} {results : List TaskResult} {J : Node → Prop} (hstable : c.Stable J)
    (hown : ∀ s t, c.guar s t → J s → J t) (hdeleted : ∀ t, c.given t → J t → h ∈ b.toDelete → may t) (hJ : J n)
    (hended : ∀ r ∈ results, EndsDone h done r n) : Assures c (fun _ _ => True) (settle ctx b results).run n := by
  have hprocessed : h ∈ processedHashes results → done n := by
    intro hmem
    obtain ⟨r, hr, he⟩ := List.mem_map.1 hmem
    obtain ⟨hr, hprocessed⟩ := List.mem_filter.1 hr
    exact hended r hr (of_decide_eq_true hprocessed) he
  have hboth : c.Stable fun n => J n ∧ (h ∈ processedHashes results → done n) :=
    fun s t hst hs => ⟨hstable s t hst hs.1, fun hmem => ht.stable s t hst (hs.2 hmem)⟩
  refine assures_bind (assures_forEach hboth (fun r _ t hs => ?_) ⟨hJ, hprocessed⟩) (fun _ t hs => ?_)
    fun _ _ _ _ _ => trivial
  · refine ((ht.assures_settleOne r).frame hboth (fun s t hguar hs => ?_) hs).mono fun _ _ hr => hr.2
    exact ⟨hown s t hguar hs.1, fun hmem => ht.own hguar (hs.2 hmem)⟩
  · refine assures_mapErr (fun _ _ _ _ _ => trivial) ?_
    unfold batchDeletePending
    split_ifs
    · exact fun _ _ => trivial
    · refine (assures_execute_ifOk (J := fun _ => True) (fun _ _ _ _ => trivial) fun u htu hgiven =>
        ⟨ht.deletes u _ ?_, trivial⟩).mono fun _ _ _ => trivial
      rintro p hp rfl
      obtain ⟨hJ, hdone⟩ := hboth t u htu hs
      rcases List.mem_append.1 hp with hp | hp
      · exact hdeleted u hgiven hJ hp
      · exact ht.may_of_done u hgiven (hdone hp)

end TracksSettling

end MessageProcessor

end AlephCore
