import AlephCore.Jobs.NoLoss
import AlephCore.Jobs.PinTracking

/-!
# OneStatus — a message is rejected or processed, not both

The processor rejects a message without a look at the stored ones, and stores one without a look at the rejected
ones; so do the jobs that take messages from the chains.  A message has one status as long as none is taken up
again after it has been rejected, none is synced after that, and none is rejected that is stored.
-/

namespace AlephCore.MessageProcessor

open ProgE Prog ForgetHandler

/-! ## The status of a message -/

def Rejected (n : Node) (h : ItemHash) : Prop := ∃ r ∈ n.rejectedMessages, r.itemHash = h

def StoredProcessed (n : Node) (h : ItemHash) : Prop := ∃ r ∈ n.messages, r.itemHash = h ∧ r.status = "processed"

/-- No message is rejected and processed at the same time. -/
def OneStatus (n : Node) : Prop := ∀ h, ¬ (Rejected n h ∧ StoredProcessed n h)

/-- No message that a batch would work on is rejected. -/
def NoneTakenUpAgain (ctx : ProcessorContext) (n : Node) : Prop :=
  ∀ p ∈ n.pendingMessages, Due ctx p → isBlacklisted p = false → p.itemHash ∉ derivedHashes n →
    ¬ Forgotten n p.itemHash → ¬ Rejected n p.itemHash

/-- Settling the result rejects the message: at once, or because it was the last attempt. -/
def Rejects : TaskResult → Prop
  | (_, .ok (.rejected _ _)) => True
  | (p, .ok (.retry _)) => maxRetries ≤ p.retries + 1
  | (p, .error _) => maxRetries ≤ p.retries + 1
  | (_, .ok .processed) => False
  | (_, .ok .deferred) => False

/-- No message that is about to be rejected is stored. -/
def NoneStoredRejected (results : List TaskResult) (n : Node) : Prop :=
  ∀ r ∈ results, Rejects r → ¬ StoredProcessed n r.1.itemHash

/-- Whenever a batch is taken, and whenever its results are settled. -/
def statusGuard : Stage → Node → Prop
  | .taking ctx, n => NoneTakenUpAgain ctx n
  | .working, _ => True
  | .settling results, n => NoneStoredRejected results n

/-- Messages arrive, and those that a chain brings are not rejected. -/
def Arrival (n n' : Node) : Prop :=
  Queued n n' ∨ ∃ chunk, Synced chunk n n' ∧ ∀ m ∈ chunk, ¬ Rejected n m.itemHash

/-- What holds throughout a run. -/
structure Consistent (n : Node) : Prop where
  oneStatus : OneStatus n
  named : ∀ p ∈ n.pendingMessages, p.Named

variable {n n' : Node} {ctx : ProcessorContext}

theorem Arrival.insertion (h : Arrival n n') : Insertion n n' := by
  rcases h with h | ⟨chunk, h, -⟩
  · exact .inl h
  · exact .inr ⟨chunk, h⟩

/-! ## What a statement keeps -/

/-- Nothing is rejected, what is forgotten stays so, and the invariant is kept. -/
structure KeepsStatus (n n' : Node) : Prop where
  rejected : n'.rejectedMessages = n.rejectedMessages
  forgotten : ∀ x, Forgotten n x → Forgotten n' x
  consistent : Consistent n → Consistent n'

theorem KeepsStatus.refl (n : Node) : KeepsStatus n n := ⟨rfl, fun _ hx => hx, fun hc => hc⟩

theorem KeepsStatus.trans {n₁ n₂ n₃ : Node} (h₁ : KeepsStatus n₁ n₂) (h₂ : KeepsStatus n₂ n₃) : KeepsStatus n₁ n₃ :=
  ⟨h₂.rejected.trans h₁.rejected, fun x hx => h₂.forgotten x (h₁.forgotten x hx),
    fun hc => h₂.consistent (h₁.consistent hc)⟩

/-- Rows are added to the stored messages only under hashes that are not rejected. -/
theorem KeepsStatus.of_stored (hrejected : n'.rejectedMessages = n.rejectedMessages)
    (hforgotten : ∀ x, Forgotten n x → Forgotten n' x)
    (hstored : ∀ x, StoredProcessed n' x → StoredProcessed n x ∨ ¬ Rejected n x)
    (hnamed : (∀ p ∈ n.pendingMessages, p.Named) → ∀ p ∈ n'.pendingMessages, p.Named) : KeepsStatus n n' := by
  refine ⟨hrejected, hforgotten, fun hc => ⟨fun x hx => ?_, hnamed hc.named⟩⟩
  obtain ⟨hrej, hproc⟩ := hx
  rw [Rejected, hrejected] at hrej
  rcases hstored x hproc with hold | hnot
  · exact hc.oneStatus x ⟨hrej, hold⟩
  · exact hnot hrej

theorem SameBooks.keepsStatus (hsame : SameBooks n n') : KeepsStatus n n' := by
  obtain ⟨hpending, hrejected, hmessages, hforgotten⟩ := hsame
  refine .of_stored hrejected (fun x hx => ?_) (fun x hx => .inl ?_) fun hp => hpending ▸ hp
  · rwa [Forgotten, hforgotten]
  · rwa [StoredProcessed, hmessages] at hx

/-- Pending rows may change, if they keep their hashes. -/
theorem keepsStatus_pending {t : Table PendingMessageDb PendingMessageDb.itemHash}
    (hnamed : (∀ p ∈ n.pendingMessages, p.Named) → ∀ p ∈ t, p.Named) :
    KeepsStatus n { n with pendingMessages := t } :=
  .of_stored rfl (fun _ hx => hx) (fun _ hx => .inl hx) hnamed

theorem named_delete {d : PendingMessageDb → Prop} [DecidablePred d] (n : Node)
    (hn : ∀ p ∈ n.pendingMessages, p.Named) : ∀ p ∈ n.pendingMessages.delete d, p.Named :=
  fun p hp => hn p (Table.mem_delete.1 hp).1

theorem named_update (n : Node) {x : ItemHash} {f : PendingMessageDb → PendingMessageDb}
    (hf : ∀ p, (f p).itemHash = p.itemHash) (hmessage : ∀ p, (f p).message = p.message)
    (hn : ∀ p ∈ n.pendingMessages, p.Named) : ∀ p ∈ n.pendingMessages.update (·.itemHash = x) f hf, p.Named :=
  (keeps_update (h := x) hf hmessage).named hn

theorem keepsStatus_deleteMessage (x : ItemHash) :
    KeepsStatus n { n with messages := n.messages.delete (·.itemHash = x) } := by
  refine .of_stored rfl (fun _ hx => hx) (fun y hy => .inl ?_) fun hp => hp
  obtain ⟨r, hr, hstatus⟩ := hy
  exact ⟨r, (Table.mem_delete.1 hr).1, hstatus⟩

/-- A message is stored that is not rejected. -/
theorem keepsStatus_stored {env : Env} {message : Message} {receptionTime : Timestamp}
    (h : ¬ Rejected n message.itemHash) : KeepsStatus n (stored env message receptionTime n) := by
  refine .of_stored rfl (fun _ hx => hx) (fun x hx => ?_) fun hp => hp
  obtain ⟨r, hr, rfl, hstatus⟩ := hx
  rcases Table.mem_upsert.1 hr with ⟨hr, -⟩ | ⟨q, hq, he, rfl⟩ | ⟨rfl, -⟩
  · exact .inl ⟨r, hr, rfl, hstatus⟩
  · have hhash : q.itemHash = message.itemHash := he
    have hkept : (refreshRow (processedRow env message receptionTime) q).itemHash = q.itemHash := rfl
    rw [hkept, hhash]
    exact .inr h
  · exact .inr h

theorem keepsStatus_insertion (h : Arrival n n') : KeepsStatus n n' := by
  have hnamed := (keeps_insertion h.insertion (h := "")).1.named
  rcases h with hqueued | ⟨chunk, hsynced, hnew⟩
  · cases hqueued with
    | received now json message hdecode hexec =>
      obtain rfl := exec_execute_ok.1 hexec
      exact keepsStatus_pending hnamed
    | synced sync messages hexec =>
      unfold ChainSync.queueMessagesForProcessing at hexec
      split_ifs at hexec
      · obtain ⟨-, rfl⟩ := exec_pure_ok.1 hexec
        exact .refl _
      · obtain rfl := exec_execute_ok.1 hexec
        exact keepsStatus_pending hnamed
  · rw [hsynced.eq]
    refine .of_stored rfl (fun _ hx => hx) (fun x hx => ?_) fun hp => hp
    obtain ⟨r, hr, rfl, hstatus⟩ := hx
    rcases mem_insertMessages hr with ⟨q, hq, hhash, he⟩ | ⟨m, hm, hhash⟩
    · exact .inl ⟨q, hq, hhash, he.trans hstatus⟩
    · exact .inr (hhash ▸ hnew m hm)

/-! ## Taking a batch -/

/-- Pending, rejected and forgotten messages stay as they are in the meantime. -/
def statusTaking (ctx : ProcessorContext) : Contract Node where
  given n := Consistent n ∧ NoneTakenUpAgain ctx n
  rely n n' := (n'.rejectedMessages = n.rejectedMessages ∧ n'.forgottenMessages = n.forgottenMessages) ∧
    ∀ p ∈ n.pendingMessages, p ∈ n'.pendingMessages
  guar := OnlyChainTxs
  rely_refl _ := ⟨⟨rfl, rfl⟩, fun _ hp => hp⟩
  rely_trans h₁ h₂ := ⟨⟨h₂.1.1.trans h₁.1.1, h₂.1.2.trans h₁.1.2⟩, fun p hp => h₂.2 p (h₁.2 p hp)⟩
  guar_refl n := ⟨n.chainTxs, rfl⟩

/-- No message that the batch works on is rejected. -/
def NoneRejected (b : Batch) (n : Node) : Prop := ∀ p ∈ b.messages, p.Named ∧ ¬ Rejected n p.itemHash

theorem rejected_congr {h : ItemHash} (hsame : n'.rejectedMessages = n.rejectedMessages) :
    Rejected n' h ↔ Rejected n h := by
  rw [Rejected, Rejected, hsame]

theorem forgotten_congr {h : ItemHash} (hsame : n'.forgottenMessages = n.forgottenMessages) :
    Forgotten n' h ↔ Forgotten n h := by
  rw [Forgotten, Forgotten, hsame]

/-- What is found out of a due message: without derived data, it is forgotten, blacklisted or not rejected. -/
def freshFindings (ctx : ProcessorContext) : Findings ctx (statusTaking ctx) where
  seen p n := p ∈ n.pendingMessages ∧ Due ctx p ∧ p.Named
  derived found p n := found = false → isBlacklisted p = false → ¬ Forgotten n p.itemHash → ¬ Rejected n p.itemHash
  forgotten found p n := found = false → ¬ Forgotten n p.itemHash
  stable_seen _ _ hrely hs := ⟨hrely.2 _ hs.1, hs.2⟩
  stable_derived _ _ hrely hs hfound hsender := by
    rw [forgotten_congr hrely.1.2, rejected_congr hrely.1.1]
    exact hs hfound hsender
  stable_forgotten _ _ hrely hs hfound := by
    rw [forgotten_congr hrely.1.2]
    exact hs hfound
  sees {p n} hgiven hp := by
    obtain ⟨hpending, hdue⟩ := mem_duePending hp
    exact ⟨hpending, hdue, hgiven.1.named p hpending⟩
  findsDerived {p n} hgiven hs hfound hsender := hgiven.2 p hs.1 hs.2.1 hsender (of_decide_eq_false hfound)
  findsForgotten {p n} _ _ hfound := by
    rintro ⟨r, hr, he⟩
    exact of_decide_eq_false hfound (List.mem_map.2 ⟨r, hr, he⟩)
  records {n n'} hst := by
    refine ⟨hst, ?_⟩
    obtain ⟨txs, rfl⟩ := hst
    exact ⟨⟨rfl, rfl⟩, fun _ hp => hp⟩

/-- **A batch works on no message that is rejected.** -/
theorem assures_takeBatch_fresh : Assures (statusTaking ctx) (IfOk NoneRejected) (takeBatch ctx).run n := by
  refine (freshFindings ctx).assures_takeBatch.mono fun r t hr b hb p hp => ?_
  obtain ⟨ps, dup, forgotten, rfl, -, -, hall⟩ := hr b hb
  obtain ⟨hps, hdup, hforgotten, hsender⟩ := mem_messages_classify hp
  obtain ⟨⟨-, -, hnamed⟩, hderived, hfound⟩ := hall p hps
  exact ⟨hnamed, hderived (decide_eq_false hdup) hsender (hfound (decide_eq_false hforgotten))⟩

/-! ## Working on a message -/

/-- Beside other tasks. -/
def statusKeeping : Contract Node where
  given _ := True
  rely := KeepsStatus
  guar := KeepsStatus
  rely_refl := .refl
  rely_trans := .trans
  guar_refl := .refl

theorem keepsBooks_status : KeepsBooks statusKeeping where
  same hsame := SameBooks.keepsStatus hsame
  marks _ _ := .of_stored rfl (fun _ hx => forgotten_insertNew.2 (.inl hx)) (fun _ hx => .inl hx) fun hp => hp
  drops _ := keepsStatus_deleteMessage _
  others x _ _ hst hx := hst.forgotten x hx
  own hguar hx := hguar.forgotten _ hx

theorem stable_not_rejected (h : ItemHash) : statusKeeping.Stable fun n => ¬ Rejected n h := by
  intro s t hst hs
  rwa [rejected_congr hst.rejected]

theorem assures_deferPending_status (x : ItemHash) (delay : Timestamp) :
    Assures statusKeeping (IfOk fun _ _ => True) (deferPending ctx x delay).run n := by
  exact assures_execute_ifOk (fun _ _ _ _ => trivial) fun t _ _ =>
    ⟨keepsStatus_pending (named_update t _ fun _ => rfl), trivial⟩

/-- **A task** stores no message that is rejected. -/
theorem assures_processWithContent_status {p : PendingMessageDb} {message : Message}
    (hnew : ¬ Rejected n message.itemHash) :
    Assures statusKeeping (fun _ _ => True) (processWithContent ctx p message).run n := by
  unfold processWithContent
  cases rejection ctx p.trustedSource message with
  | some r => exact fun _ _ => trivial
  | none =>
    have hhandled : Assures statusKeeping (fun _ n => ¬ Rejected n message.itemHash) (ofProg (processMessage message
        (createHandlerContext ctx p.trustedSource)) : Db ProcessorError ProcessingStatus).run n := by
      refine assures_ofProg (fun _ => stable_not_rejected _) ?_
      exact (keepsBooks_status.assures_processMessage.frame (stable_not_rejected _) (stable_not_rejected _) hnew).mono
        fun _ _ ht => ht.2
    refine assures_bind hhandled (fun status t ht => ?_) fun _ _ _ _ _ => trivial
    cases status with
    | rejected code text => exact fun _ _ => trivial
    | processed =>
      have hstored : Assures statusKeeping (fun _ _ => True)
          (dbOp (storeProcessedMessage ctx.env message p.receptionTime)).run t := by
        refine assures_mapErr (fun _ _ _ _ _ => trivial) (assures_sql (fun _ _ _ _ _ => trivial) fun u htu _ => ?_)
        exact ⟨keepsStatus_stored (stable_not_rejected _ t u htu ht), trivial, fun _ => trivial⟩
      exact assures_bind hstored (fun _ _ _ _ _ => trivial) fun _ _ _ _ _ => trivial

theorem assures_processSingleMessage_status {p : PendingMessageDb} (hp : p.Named) (hnew : ¬ Rejected n p.itemHash) :
    Assures statusKeeping (fun _ _ => True) (processSingleMessage ctx p).run n := by
  unfold processSingleMessage
  cases hdecode : Message.decode p.message with
  | error e => exact fun _ _ => trivial
  | ok received =>
    refine assures_pure_bind ?_
    cases hobtain : obtainContent ctx received with
    | error e =>
      exact assures_bind (assures_mapErr_ifOk (fun _ _ _ _ _ => trivial) (assures_deferPending_status p.itemHash 30))
        (fun _ _ _ _ _ => trivial) fun _ _ _ _ _ => trivial
    | ok message =>
      refine assures_processWithContent_status ?_
      rwa [obtainContent_itemHash hobtain, hp received hdecode]

/-! ## Settling the results -/

/-- What a contract says of the statements that settle results: pending rows change, and messages are rejected. -/
structure Settles (c : Contract Node) (results : List TaskResult) : Prop where
  pending : ∀ n (t : Table PendingMessageDb PendingMessageDb.itemHash),
    ((∀ p ∈ n.pendingMessages, p.Named) → ∀ p ∈ t, p.Named) → c.guar n { n with pendingMessages := t }
  rejects : ∀ r ∈ results, Rejects r → ∀ n row (f : RejectedRow → RejectedRow) (hf : ∀ q, (f q).itemHash = q.itemHash),
    c.given n → row.itemHash = r.1.itemHash →
      c.guar n { n with rejectedMessages := n.rejectedMessages.upsert row f hf }

namespace Settles

variable {c : Contract Node} {results : List TaskResult} (hc : Settles c results) {p : PendingMessageDb}
include hc

theorem assures_pendingChange {f : Node → Table PendingMessageDb PendingMessageDb.itemHash}
    (hnamed : ∀ n, (∀ p ∈ n.pendingMessages, p.Named) → ∀ p ∈ f n, p.Named) :
    Assures c (IfOk fun _ _ => True) (execute fun n => { n with pendingMessages := f n } : Db DbError Unit).run n :=
  assures_execute_ifOk (fun _ _ _ _ => trivial) fun t _ _ => ⟨hc.pending t _ (hnamed t), trivial⟩

theorem assures_moveToRejected {result : Except ProcessorError ProcessResult} (hr : (p, result) ∈ results)
    (hrejects : Rejects (p, result)) (code : ErrorCode) (text : String) :
    Assures c (IfOk fun _ _ => True) (moveToRejected ctx p code text).run n := by
  refine assures_bind_ifOk (P := fun _ _ => True) ?_ fun _ t _ => hc.assures_pendingChange fun n => named_delete n
  exact assures_execute_ifOk (fun _ _ _ _ => trivial) fun t _ hgiven =>
    ⟨hc.rejects (p, result) hr hrejects t _ _ _ hgiven rfl, trivial⟩

theorem assures_updateRetry {result : Except ProcessorError ProcessResult} {reason : String}
    (hr : (p, result) ∈ results) (hrejects : maxRetries ≤ p.retries + 1 → Rejects (p, result)) :
    Assures c (IfOk fun _ _ => True) (updateRetry ctx p reason).run n := by
  unfold updateRetry
  simp only
  split_ifs with hlast
  · exact hc.assures_moveToRejected hr (hrejects hlast) _ _
  · exact hc.assures_pendingChange fun n => named_update n _ fun _ => rfl

theorem assures_settleOne {r : TaskResult} (hr : r ∈ results) :
    Assures c (fun _ _ => True) (settleOne ctx r).run n := by
  have hignored : ∀ {p : Db DbError Unit}, Assures c (IfOk fun _ _ => True) p.run n →
      Assures c (fun _ _ => True) (ignore p : Db ProcessorError Unit).run n := fun hp =>
    assures_ignore (fun _ _ _ _ => trivial) (hp.mono fun _ _ _ => trivial)
  match r with
  | (_, .ok .processed) => exact fun _ _ => trivial
  | (p, .ok (.rejected code text)) => exact hignored (hc.assures_moveToRejected hr trivial code text)
  | (p, .ok (.retry reason)) => exact hignored (hc.assures_updateRetry hr fun hlast => hlast)
  | (_, .ok .deferred) => exact fun _ _ => trivial
  | (p, .error e) => exact hignored (hc.assures_updateRetry hr fun hlast => hlast)

/-- **Settling** changes pending rows and rejects messages. -/
theorem assures_settle {b : Batch} : Assures c (fun _ _ => True) (settle ctx b results).run n := by
  refine assures_bind (assures_forEach (J := fun _ => True) (fun _ _ _ _ => trivial)
    (fun r hr t _ => hc.assures_settleOne hr) trivial) (fun _ t _ => ?_) fun _ _ _ _ _ => trivial
  refine assures_mapErr (fun _ _ _ _ _ => trivial) ?_
  unfold batchDeletePending
  split_ifs
  · exact fun _ _ => trivial
  · exact (hc.assures_pendingChange fun n => named_delete n).mono fun _ _ _ => trivial

end Settles

/-- Whatever the others do, if none of the messages that are rejected is stored. -/
def statusSettling (results : List TaskResult) : Contract Node where
  given n := Consistent n ∧ NoneStoredRejected results n
  rely _ _ := True
  guar n n' := Consistent n → Consistent n'
  rely_refl _ := trivial
  rely_trans _ _ := trivial
  guar_refl _ := fun hc => hc

/-- A row more among the rejected messages. -/
theorem rejected_upsert {row : RejectedRow} {f : RejectedRow → RejectedRow} {hf : ∀ q, (f q).itemHash = q.itemHash}
    {x : ItemHash} :
    Rejected { n with rejectedMessages := n.rejectedMessages.upsert row f hf } x ↔ Rejected n x ∨ row.itemHash = x :=
  Table.exists_key_upsert (P := fun k => k = x)

/-- A message is rejected that is not stored. -/
theorem settles_status (results : List TaskResult) : Settles (statusSettling results) results where
  pending _ _ hnamed := (keepsStatus_pending hnamed).consistent
  rejects r hr hrejects n row f hf hgiven hhash hc := by
    refine ⟨?_, hc.named⟩
    rintro x ⟨hrejected, hstored⟩
    rcases rejected_upsert.1 hrejected with hold | rfl
    · exact hc.oneStatus _ ⟨hold, hstored⟩
    · have hnot := hgiven.2 r hr hrejects
      rw [← hhash] at hnot
      exact hnot hstored

/-! ## Runs -/

theorem Arrival.undisturbed (h : Arrival n n') :
    (n'.rejectedMessages = n.rejectedMessages ∧ n'.forgottenMessages = n.forgottenMessages) ∧
      ∀ p ∈ n.pendingMessages, p ∈ n'.pendingMessages := by
  have hpending := (keeps_insertion h.insertion (h := "")).2
  refine ⟨⟨(keepsStatus_insertion h).rejected, ?_⟩, hpending⟩
  rcases h with hqueued | ⟨chunk, hsynced, -⟩
  · cases hqueued with
    | received now json message hdecode hexec => rw [exec_execute_ok.1 hexec]
    | synced sync messages hexec =>
      unfold ChainSync.queueMessagesForProcessing at hexec
      split_ifs at hexec
      · rw [(exec_pure_ok.1 hexec).2]
      · rw [exec_execute_ok.1 hexec]
  · rw [hsynced.eq]

/-- What the stages of a batch keep of the status of all messages. -/
def keepsStatus : Discipline Arrival statusGuard where
  inv := Consistent
  contract
    | .taking ctx => statusTaking ctx
    | .working => statusKeeping
    | .settling results => statusSettling results
  taken := NoneRejected
  ended _ _ := True
  given {s n} hinv hguard := by
    cases s with
    | taking ctx => exact ⟨hinv, hguard⟩
    | working => trivial
    | settling results => exact ⟨hinv, hguard⟩
  kept {s n n'} hinv hguar := by
    cases s with
    | taking ctx => exact (SameBooks.keepsStatus (OnlyChainTxs.sameBooks hguar)).consistent hinv
    | working => exact KeepsStatus.consistent hguar hinv
    | settling results => exact hguar hinv
  undisturbed {n n'} hinv hother := by
    have hkeeps := keepsStatus_insertion hother
    refine ⟨hkeeps.consistent hinv, fun s => ?_⟩
    cases s with
    | taking ctx => exact hother.undisturbed
    | working => exact hkeeps
    | settling results => trivial
  shared hguar := hguar
  stable s t hst hs p hp := ⟨(hs p hp).1, stable_not_rejected _ s t hst (hs p hp).2⟩
  take _ := assures_takeBatch_fresh
  work ht p hp := assures_processSingleMessage_status (ht p hp).1 (ht p hp).2
  timeout := trivial
  settle _ _ := (settles_status _).assures_settle

/-- **A message has one status**: in a run in which none is taken up again after it has been rejected, none is synced
after that, and none is rejected that is stored, no message is ever both rejected and processed. -/
theorem oneStatus_of_run {w : World}
    (hrun : Relation.ReflTransGen (Guarded Arrival statusGuard) ⟨.empty, .idle⟩ w) : OneStatus w.node := by
  refine (keepsStatus.inv_of_run (n := .empty) ⟨?_, fun p hp => absurd hp List.not_mem_nil⟩ hrun).oneStatus
  rintro h ⟨⟨r, hr, -⟩, -⟩
  exact absurd hr List.not_mem_nil

/-! ### A FORGET message that is delivered again -/

section Redelivered

/-- A node that gets the messages over the network. -/
def networkCtx : ProcessorContext where
  env := .ofTables [(storeText "1700000000", storeJson 1700000000), (forgetText firstHash, forgetJson firstHash)]
    [(storeText "1700000000", firstHash), (forgetText firstHash, forgetFirst.itemHash)]
    [("ETH\n" ++ fileOwner ++ "\nSTORE\n" ++ firstHash, firstStore.signature, fileOwner),
      ("ETH\n" ++ fileOwner ++ "\nFORGET\n" ++ forgetFirst.itemHash, forgetFirst.signature, fileOwner)]
  order := .stored
  now := 1700000200
  cost := none
  ipfsGet := fun _ => .error "not found"

def networkHandlerCtx : HandlerContext := createHandlerContext networkCtx false

/-- The pending message of a message that arrives. -/
def arrived (message : Message) : PendingMessageDb :=
  ⟨message.itemHash, message.toJson, 1700000150, false, true, 0, 1700000150, false⟩

def arrivedFirst : Node := { Node.empty with pendingMessages := Table.empty.insertNew (arrived firstStore) }

def arrivedBoth : Node := { arrivedFirst with
  pendingMessages := arrivedFirst.pendingMessages.insertNew (arrived forgetFirst) }

/-- The file is stored. -/
def networkStored (n : Node) : Node :=
  stored networkCtx.env firstStore 1700000150
    (StoreHandler.recorded firstStore (storeContent 1700000000) networkHandlerCtx n)

/-- It is forgotten. -/
def networkForgotten : Node :=
  stored networkCtx.env forgetFirst 1700000150
    (hashesForgotten forgetFirst (forgetContent firstHash) networkHandlerCtx [firstHash] (networkStored arrivedBoth))

def processedFirst : Node :=
  ((settle networkCtx (batchOf networkCtx arrivedFirst) [(arrived firstStore, .ok .processed)]).run.run
    (networkStored arrivedFirst)).2

def processedBoth : Node :=
  ((settle networkCtx (batchOf networkCtx arrivedBoth)
    [(arrived firstStore, .ok .processed), (arrived forgetFirst, .ok .processed)]).run.run networkForgotten).2

def arrivedAgain : Node := { processedBoth with
  pendingMessages := processedBoth.pendingMessages.insertNew (arrived forgetFirst) }

/-- The answer of the handler. -/
def forgottenAgain : ProcessResult :=
  .rejected .forgottenDuplicate (HandlerError.duplicate s!"Content already forgotten: {firstHash}").toString

def refusedAgain : Node :=
  ((settle networkCtx (batchOf networkCtx arrivedAgain) [(arrived forgetFirst, .ok forgottenAgain)]).run.run
    arrivedAgain).2

example : firstStore.verifySignature networkCtx.env = .ok true := by decide +kernel

theorem network_fromStr_firstStore :
    networkCtx.env.fromStr StoreContent.decode (storeText "1700000000") = .ok (storeContent 1700000000) := by
  decide +kernel

theorem network_fromStr_forgetFirst :
    networkCtx.env.fromStr ForgetContent.decode (forgetText firstHash) = .ok (forgetContent firstHash) := by
  decide +kernel

theorem actsOn_arrived {message : Message} {text : String} (hcontent : message.itemContent = some text) :
    ActsOn networkCtx (arrived message) message message := by
  refine ⟨Message.decode_toJson message, ?_⟩
  rw [obtainContent, if_neg]
  intro h
  rw [(needsContentFetch_iff.1 h).2] at hcontent
  cases hcontent

theorem received_arrived {n : Node} (message : Message) :
    Insertion n { n with pendingMessages := n.pendingMessages.insertNew (arrived message) } := by
  refine .inl (.received 1700000150 message.toJson message (Message.decode_toJson message) (exec_execute_ok.2 rfl))

theorem exec_arrivedStore {n : Node}
    (hclash : ¬ PgDatabase.PinClash (StoreHandler.pinOf firstStore (storeContent 1700000000) networkCtx.now) n) :
    Exec (processSingleMessage networkCtx (arrived firstStore)).run n (.ok .processed) (networkStored n) := by
  have hplain : StoreHandler.Plain firstStore networkHandlerCtx (storeContent 1700000000) := by
    refine ⟨⟨_, rfl, network_fromStr_firstStore⟩, ?_, ?_, rfl, Nat.zero_le _, .inr rfl⟩
    · show file ≠ ""
      decide +kernel
    · show StoreHandler.validateItemTypeHash .ipfs file = .ok ()
      decide +kernel
  exact exec_processSingleMessage_processed.2 ⟨_, _, actsOn_arrived rfl, by decide +kernel, _,
    hplain.exec_processMessage rfl hclash, rfl⟩

/-- A FORGET of the file, where it is stored and no virtual machine runs. -/
theorem exec_networkForget {n : Node} (hstored : ∃ r ∈ n.messages, r.itemHash = firstHash ∧ r.messageType ≠ .forget ∧
      networkCtx.env.SameAddress r.sender fileOwner) (hforgotten : ¬ Forgotten n firstHash)
    (hprograms : ∀ p, p ∉ n.programs) (hinstances : ∀ i, i ∉ n.instances) :
    Exec (processSingleMessage networkCtx (arrived forgetFirst)).run n (.ok .processed)
      (stored networkCtx.env forgetFirst 1700000150
        (hashesForgotten forgetFirst (forgetContent firstHash) networkHandlerCtx [firstHash] n)) := by
  have hforgettable : Forgettable forgetFirst networkHandlerCtx n firstHash :=
    ⟨hstored, hforgotten, fun p hp => absurd hp (hprograms p), fun i hi => absurd hi (hinstances i)⟩
  have hacceptable : Acceptable forgetFirst networkHandlerCtx (forgetContent firstHash) n := by
    refine ⟨⟨_, rfl, network_fromStr_forgetFirst, .inr (by decide +kernel)⟩, List.cons_ne_nil _ _,
      by decide +kernel, ?_, .inr rfl⟩
    intro h hh
    rwa [List.mem_singleton.1 hh]
  exact exec_processSingleMessage_processed.2 ⟨_, _, actsOn_arrived rfl, by decide +kernel, _,
    hacceptable.exec_processMessage rfl, rfl⟩

example : arrivedAgain.forgottenMessages.rows.map ForgottenRow.itemHash = [firstHash] := by decide +kernel

theorem exec_arrivedForget :
    Exec (processSingleMessage networkCtx (arrived forgetFirst)).run (networkStored arrivedBoth) (.ok .processed)
      networkForgotten := by
  refine exec_networkForget ⟨processedRow networkCtx.env firstStore 1700000150, by decide +kernel, rfl, by decide, rfl⟩
    ?_ (fun p hp => absurd hp List.not_mem_nil) fun i hi => absurd hi List.not_mem_nil
  rintro ⟨q, hq, -⟩
  exact absurd hq List.not_mem_nil

/-- The same message is rejected, because it has been processed. -/
theorem exec_arrivedAgain :
    Exec (processSingleMessage networkCtx (arrived forgetFirst)).run arrivedAgain (.ok forgottenAgain) arrivedAgain := by
  have hgone : ∀ r ∈ arrivedAgain.messages.rows, r.itemHash ≠ firstHash := by decide +kernel
  have hforgotten : ∃ r ∈ arrivedAgain.forgottenMessages.rows, r.itemHash = firstHash := by decide +kernel
  have hfind : arrivedAgain.messages.find? firstHash = none := Table.find?_eq_none.2 hgone
  have hinvalid : Exec (validate forgetFirst networkHandlerCtx).run arrivedAgain
      (.error (.duplicate s!"Content already forgotten: {firstHash}")) arrivedAgain :=
    exec_validate_forgotten ⟨_, rfl, network_fromStr_forgetFirst⟩ rfl (by decide +kernel) hfind hforgotten
  have hrejected : Exec (processMessage forgetFirst networkHandlerCtx) arrivedAgain _ arrivedAgain :=
    exec_processMessage_invalid hinvalid
  exact exec_processSingleMessage_rejected (actsOn_arrived rfl) (by decide +kernel) hrejected

example : networkForgotten.messages.rows.map MessageRow.itemHash = [forgetFirst.itemHash] := by decide +kernel

section Runs

variable {other : Node → Node → Prop}

theorem run_arrivedFirst {guard : Stage → Node → Prop}
    (hG₁ : ∀ t, Reach (takeBatch networkCtx).run arrivedFirst t → guard (.taking networkCtx) t)
    (hG₂ : ∀ t, guard .working t) (hG₃ : ∀ t, guard (.settling [(arrived firstStore, .ok .processed)]) t) :
    Relation.ReflTransGen (Guarded other guard) ⟨arrivedFirst, .idle⟩ ⟨processedFirst, .idle⟩ := by
  have hwork : WorkedOff networkCtx [arrived firstStore] arrivedFirst [(arrived firstStore, .ok .processed)]
      (networkStored arrivedFirst) := by
    refine ⟨_, _, [], exec_arrivedStore ?_, ⟨rfl, rfl⟩, rfl⟩
    rintro ⟨p, hp, -⟩
    exact absurd hp List.not_mem_nil
  exact run_batchOf (by decide +kernel) (by decide +kernel) hwork hG₁ hG₂ hG₃

theorem run_arrivedBoth :
    Relation.ReflTransGen (Guarded other fun _ _ => True) ⟨arrivedBoth, .idle⟩ ⟨processedBoth, .idle⟩ := by
  have hwork : WorkedOff networkCtx [arrived firstStore, arrived forgetFirst] arrivedBoth
      [(arrived firstStore, .ok .processed), (arrived forgetFirst, .ok .processed)] networkForgotten := by
    refine ⟨_, _, _, exec_arrivedStore ?_, ⟨_, _, [], exec_arrivedForget, ⟨rfl, rfl⟩, rfl⟩, rfl⟩
    rintro ⟨p, hp, -⟩
    exact absurd hp List.not_mem_nil
  exact run_batchOf (by decide +kernel) (by decide +kernel) hwork (fun _ _ => trivial) (fun _ => trivial)
    fun _ => trivial

theorem run_arrivedAgain :
    Relation.ReflTransGen (Guarded other fun _ _ => True) ⟨arrivedAgain, .idle⟩ ⟨refusedAgain, .idle⟩ := by
  have hwork : WorkedOff networkCtx [arrived forgetFirst] arrivedAgain [(arrived forgetFirst, .ok forgottenAgain)]
      arrivedAgain := ⟨_, _, [], exec_arrivedAgain, ⟨rfl, rfl⟩, rfl⟩
  exact run_batchOf (by decide +kernel) (by decide +kernel) hwork (fun _ _ => trivial) (fun _ => trivial)
    fun _ => trivial

end Runs

/-- When the STORE message alone is worked on, no message is rejected. -/
theorem processedFirst_oneStatus : OneStatus processedFirst := by
  have harrives : Guarded Arrival statusGuard ⟨.empty, .idle⟩ ⟨arrivedFirst, .idle⟩ := by
    refine ⟨.other (.inl ?_), fun s hs => nomatch hs⟩
    exact .received 1700000150 firstStore.toJson firstStore (Message.decode_toJson _) (exec_execute_ok.2 rfl)
  refine oneStatus_of_run (.head harrives (run_arrivedFirst (fun t ht p _ _ _ _ _ => ?_) (fun _ => trivial) fun t => ?_))
  · obtain ⟨txs, rfl⟩ := reach_takeBatch ht
    rintro ⟨r, hr, -⟩
    exact absurd hr List.not_mem_nil
  · rintro r hr hrejects
    obtain rfl := List.mem_singleton.1 hr
    exact hrejects.elim

/-- A FORGET message that arrives twice is processed, and then rejected. -/
theorem forgetFirst_twoStatus :
    Relation.ReflTransGen (Step Insertion) ⟨.empty, .idle⟩ ⟨refusedAgain, .idle⟩ ∧
      Rejected refusedAgain forgetFirst.itemHash ∧ StoredProcessed refusedAgain forgetFirst.itemHash ∧
        ¬ OneStatus refusedAgain := by
  have hsteps : ∀ {w w' : World}, Relation.ReflTransGen (Guarded Insertion fun _ _ => True) w w' →
      Relation.ReflTransGen (Step Insertion) w w' :=
    fun hrun => Relation.ReflTransGen.mono (fun _ _ hs => hs.1) _ _ hrun
  have hrun : Relation.ReflTransGen (Step Insertion) ⟨.empty, .idle⟩ ⟨arrivedBoth, .idle⟩ :=
    .head (.other (received_arrived firstStore)) (.single (.other (received_arrived forgetFirst)))
  have hagain : Step Insertion ⟨processedBoth, .idle⟩ ⟨arrivedAgain, .idle⟩ := .other (received_arrived forgetFirst)
  have hrejected : ∃ r ∈ refusedAgain.rejectedMessages.rows, r.itemHash = forgetFirst.itemHash := by decide +kernel
  have hstored : ∃ r ∈ refusedAgain.messages.rows, r.itemHash = forgetFirst.itemHash ∧ r.status = "processed" := by
    decide +kernel
  refine ⟨hrun.trans ((hsteps run_arrivedBoth).trans (.head hagain (hsteps run_arrivedAgain))), hrejected, hstored, ?_⟩
  exact fun hone => hone _ ⟨hrejected, hstored⟩

end Redelivered

end AlephCore.MessageProcessor
