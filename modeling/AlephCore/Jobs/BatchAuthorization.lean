import AlephCore.Jobs.TakeBatch
import AlephCore.Jobs.VmOwnership
import AlephCore.Lib.Interleave

/-!
# BatchAuthorization — permissions in a batch, and in the order of reception

A batch works on its messages in parallel, and on its security aggregates afterwards: those of one address one after
another, those of different addresses beside each other.  So a message is checked against the security aggregates
from before the batch, whenever those of the batch arrived.  `checkedMessage` is the task of a message that also
returns what `check_permissions` has said of it.
-/

namespace AlephCore.MessageProcessor

open ProgE Prog

/-! ## What check_permissions says -/

/-- The outcome of the permission check; a message that is not valid is not checked. -/
inductive Verdict where
  | unchecked
  | granted
  | refused
  deriving DecidableEq

/-- The stages of a handler, with the outcome of the second one. -/
def checkedRun (h : MessageHandler) (message : Message) (ctx : HandlerContext) :
    Prog Node DbError (Except HandlerError Unit × Verdict) :=
  (h.validate message ctx).run >>= fun
    | .error e => .pure (.error e, .unchecked)
    | .ok () => (h.permissionStage message ctx).run >>= fun
      | .error e => .pure (.error e, .refused)
      | .ok () => (do h.checkBalance message ctx; h.process message ctx : Db HandlerError Unit).run >>= fun r =>
        .pure (r, .granted)

/-- The status of a message after its handler has returned. -/
def statusOf : Except HandlerError Unit → ProcessingStatus
  | .ok () => .processed
  | .error e => e.toStatus

/-- The checks and the handler, on a message that has its content. -/
def checkedWithContent (ctx : ProcessorContext) (pending : PendingMessageDb) (message : Message) :
    Prog Node DbError (Except ProcessorError ProcessResult × Verdict) :=
  match rejection ctx pending.trustedSource message with
  | some r => .pure (.ok r, .unchecked)
  | none =>
    checkedRun (handlerOf message.messageType) message (createHandlerContext ctx pending.trustedSource) >>= fun r =>
      (storeResult ctx pending message (statusOf r.1)).run >>= fun result => .pure (result, r.2)

/-- A single pending message is processed. -/
def checkedMessage (ctx : ProcessorContext) (pending : PendingMessageDb) :
    Prog Node DbError (Except ProcessorError ProcessResult × Verdict) :=
  match Message.decode pending.message with
  | .error e => .pure (.error (.invalidMessage s!"Failed to parse: {e}"), .unchecked)
  | .ok message =>
    match obtainContent ctx message with
    | .error _ => (do dbOp (deferPending ctx pending.itemHash 30); pure .deferred : Db ProcessorError ProcessResult).run >>=
        fun r => .pure (r, .unchecked)
    | .ok message => checkedWithContent ctx pending message

variable {ctx : ProcessorContext}

/-- **Without the outcome it is the handler.** -/
theorem checkedRun_fst (h : MessageHandler) (message : Message) (hctx : HandlerContext) :
    (checkedRun h message hctx >>= fun r => .pure r.1) = (h.run message hctx).run := by
  unfold checkedRun MessageHandler.run
  rw [Prog.bind_assoc, ExceptT.run_bind]
  congr 1
  funext validated
  cases validated with
  | error e => rfl
  | ok u =>
    show ((h.permissionStage message hctx).run >>= _) >>= _ =
      (do h.permissionStage message hctx; h.checkBalance message hctx; h.process message hctx : Db HandlerError Unit).run
    rw [Prog.bind_assoc, ExceptT.run_bind]
    congr 1
    funext permitted
    cases permitted with
    | error e => rfl
    | ok u =>
      show ((do h.checkBalance message hctx; h.process message hctx : Db HandlerError Unit).run >>= _) >>= _ = _
      rw [Prog.bind_assoc]
      exact Prog.bind_pure _

theorem processMessage_eq (message : Message) (hctx : HandlerContext) :
    processMessage message hctx =
      checkedRun (handlerOf message.messageType) message hctx >>= fun r => .pure (statusOf r.1) := by
  unfold processMessage
  rw [← checkedRun_fst, Prog.bind_assoc]
  congr 1
  funext r
  show _ = Prog.pure (statusOf r.1)
  cases r.1 <;> rfl

theorem checkedWithContent_fst (pending : PendingMessageDb) (message : Message) :
    (checkedWithContent ctx pending message >>= fun r => .pure r.1) = (processWithContent ctx pending message).run := by
  unfold checkedWithContent processWithContent
  cases rejection ctx pending.trustedSource message with
  | some r => rfl
  | none =>
    simp only
    rw [processMessage_eq, Prog.bind_assoc, ExceptT.run_bind]
    show _ = (ofProg _ : Db ProcessorError ProcessingStatus).run >>= _
    rw [ofProg, ExceptT.run_mk, Prog.bind_assoc, Prog.bind_assoc]
    congr 1
    funext r
    rw [Prog.bind_assoc]
    exact Prog.bind_pure _

/-- **Without the outcome it is the task of the message.** -/
theorem checkedMessage_fst (pending : PendingMessageDb) :
    (checkedMessage ctx pending >>= fun r => .pure r.1) = (processSingleMessage ctx pending).run := by
  unfold checkedMessage processSingleMessage
  cases Message.decode pending.message with
  | error e => rfl
  | ok message =>
    show _ = (match obtainContent ctx message with
      | .error _ => do dbOp (deferPending ctx pending.itemHash 30); pure .deferred
      | .ok message => processWithContent ctx pending message : Db ProcessorError ProcessResult).run
    simp only
    cases obtainContent ctx message with
    | error e =>
      simp only
      rw [Prog.bind_assoc]
      exact Prog.bind_pure _
    | ok message => exact checkedWithContent_fst pending message

/-! ## The two runs -/

/-- The messages one after another, and what `check_permissions` says of each. -/
def oneByOne (ctx : ProcessorContext) : List PendingMessageDb → Prog Node DbError (List (PendingMessageDb × Verdict))
  | [] => .pure []
  | p :: ps => checkedMessage ctx p >>= fun r => oneByOne ctx ps >>= fun rest => .pure ((p, r.2) :: rest)

/-- What is said of the messages if nothing else happens. -/
def verdicts (ctx : ProcessorContext) (ps : List PendingMessageDb) (n : Node) : List (PendingMessageDb × Verdict) :=
  ((oneByOne ctx ps).run n).1

/-- The messages a batch works on, in the order of reception. -/
def workOf (ps : List PendingMessageDb) (dup forgotten : List ItemHash) : List PendingMessageDb :=
  (ps.filter fun p => p.itemHash ∉ dup ∧ p.itemHash ∉ forgotten).filter fun p => ¬ isBlacklisted p

def worklist (ctx : ProcessorContext) (n : Node) : List PendingMessageDb :=
  let hashes := (duePending ctx n).map PendingMessageDb.itemHash
  workOf (duePending ctx n) (hashes.filter fun h => decide (h ∈ derivedHashes n))
    (hashes.filter fun h => decide (h ∈ n.forgottenMessages.rows.map ForgottenRow.itemHash))

/-- A message of the parallel part, or the security aggregates of an address. -/
abbrev ThreadId := ItemHash ⊕ Address

def threadOf (env : Env) (p : PendingMessageDb) : ThreadId :=
  if isSecurityAggregate env p then .inr (securityAddress env p) else .inl p.itemHash

/-- What a thread of the batch works on, in this order. -/
def Batch.thread (b : Batch) (env : Env) : ThreadId → List PendingMessageDb
  | .inl h => b.parallel.filter fun p => p.itemHash = h
  | .inr a => b.groups.flatten.filter fun p => securityAddress env p = a

/-- The batch has been taken, and its tasks are about to start. -/
def batchStart (ctx : ProcessorContext) (n : Node) : Config Node DbError (List (PendingMessageDb × Verdict)) ThreadId where
  store := ((takeBatch ctx).run.run n).2
  threads t := oneByOne ctx ((batchOf ctx n).thread ctx.env t)

/-- The security aggregates are worked on when the parallel part has ended. -/
def InPhase (c : Config Node DbError (List (PendingMessageDb × Verdict)) ThreadId) : ThreadId → Prop
  | .inl _ => True
  | .inr _ => ∀ h, (c.threads (.inl h)).finished = true

/-- The messages of the thread, with what is said of them in the order of reception. -/
def inOrder (ctx : ProcessorContext) (n : Node) (t : ThreadId) : List (PendingMessageDb × Verdict) :=
  (verdicts ctx (worklist ctx n) (batchStart ctx n).store).filter fun r => decide (threadOf ctx.env r.1 = t)

/-- The batch grants and refuses each message as the run that processes the messages one at a time in the order of
reception. -/
def SameVerdicts (ctx : ProcessorContext) (n : Node)
    (c : Config Node DbError (List (PendingMessageDb × Verdict)) ThreadId) : Prop :=
  ∀ t, c.threads t = .pure (inOrder ctx n t)

/-- In the order of reception every message gets the answer it would get on the database from before the batch, after
the security aggregates before it in its own group. -/
def AsBefore (ctx : ProcessorContext) (n : Node) : Prop :=
  ∀ t, inOrder ctx n t = verdicts ctx ((worklist ctx n).filter fun p => threadOf ctx.env p = t) (batchStart ctx n).store

/-! ## The threads of a batch -/

section Threads

variable {env : Env} {ps : List PendingMessageDb}

/-- A group has the messages of its address, in their order. -/
theorem filter_groupByAddress (a : Address) :
    (groupByAddress env ps).flatten.filter (fun p => securityAddress env p = a) =
      ps.filter fun p => securityAddress env p = a := by
  have hgroups : ∀ as : List Address, as.Nodup →
      ((as.map fun b => ps.filter fun p => securityAddress env p = b).flatten.filter fun p => securityAddress env p = a) =
        if a ∈ as then ps.filter fun p => securityAddress env p = a else [] := by
    intro as
    induction as with
    | nil => exact fun _ => rfl
    | cons b as ih =>
      intro hnodup
      obtain ⟨hb, hnodup⟩ := List.nodup_cons.1 hnodup
      rw [List.map_cons, List.flatten_cons, List.filter_append, ih hnodup, List.filter_filter]
      by_cases hab : a = b
      · subst hab
        rw [if_neg hb, if_pos List.mem_cons_self, List.append_nil]
        exact List.filter_congr fun p _ => Bool.and_self _
      · have hnone : ps.filter (fun p => decide (securityAddress env p = a) && decide (securityAddress env p = b)) = [] := by
          refine List.filter_eq_nil_iff.2 fun p _ hp => hab ?_
          rw [Bool.and_eq_true, decide_eq_true_eq, decide_eq_true_eq] at hp
          exact hp.1.symm.trans hp.2
        rw [hnone, List.nil_append]
        simp only [List.mem_cons, hab, false_or]
  unfold groupByAddress
  rw [hgroups _ (List.nodup_dedup _)]
  split_ifs with ha
  · rfl
  · refine (List.filter_eq_nil_iff.2 fun p hp he => ha (List.mem_dedup.2 ?_)).symm
    exact List.mem_map.2 ⟨p, hp, of_decide_eq_true he⟩

/-- **A thread works on its messages**, in the order of reception. -/
theorem thread_classify (dup forgotten : List ItemHash) (t : ThreadId) :
    (classify env ps dup forgotten).thread env t =
      (workOf ps dup forgotten).filter fun p => threadOf env p = t := by
  have hthread : ∀ p, threadOf env p = t ↔ match t with
      | .inl h => ¬ isSecurityAggregate env p = true ∧ p.itemHash = h
      | .inr a => isSecurityAggregate env p = true ∧ securityAddress env p = a := by
    intro p
    unfold threadOf
    cases t <;> split_ifs with hs <;> simp [hs]
  cases t with
  | inl h =>
    show ((workOf ps dup forgotten).filter fun p => decide (¬ isSecurityAggregate env p = true)).filter _ = _
    rw [List.filter_filter]
    refine List.filter_congr fun p _ => ?_
    rw [Bool.eq_iff_iff, Bool.and_eq_true, decide_eq_true_eq, decide_eq_true_eq, decide_eq_true_eq, hthread]
    exact and_comm
  | inr a =>
    show (groupByAddress env ((workOf ps dup forgotten).filter fun p => isSecurityAggregate env p)).flatten.filter _ = _
    rw [filter_groupByAddress, List.filter_filter]
    refine List.filter_congr fun p _ => ?_
    rw [Bool.eq_iff_iff, Bool.and_eq_true, decide_eq_true_eq, decide_eq_true_eq, hthread]
    exact and_comm

end Threads

theorem batchStart_threads {n : Node} (t : ThreadId) :
    (batchStart ctx n).threads t = oneByOne ctx ((worklist ctx n).filter fun p => threadOf ctx.env p = t) := by
  show oneByOne ctx ((batchOf ctx n).thread ctx.env t) = _
  rw [batchOf, thread_classify]
  rfl

/-! ## The answers of a run without interruptions -/

section Answers

variable {n n₁ : Node} {p : PendingMessageDb} {ps : List PendingMessageDb}

theorem verdicts_cons : verdicts ctx (p :: ps) n =
    (p, ((checkedMessage ctx p).run n).1.2) :: verdicts ctx ps ((checkedMessage ctx p).run n).2 := by
  rw [verdicts, oneByOne, run_bind, run_bind]
  rfl

/-- A valid message gets the answer of the permission check. -/
theorem run_checkedRun_granted {h : MessageHandler} {message : Message} {hctx : HandlerContext}
    {r : Except HandlerError Unit} (hvalid : (h.validate message hctx).run.run n = (.ok (), n))
    (hpermitted : (h.permissionStage message hctx).run.run n = (.ok (), n))
    (hprocess : (do h.checkBalance message hctx; h.process message hctx : Db HandlerError Unit).run.run n = (r, n₁)) :
    (checkedRun h message hctx).run n = ((r, .granted), n₁) := by
  unfold checkedRun
  rw [run_bind, hvalid]
  simp only
  rw [run_bind, hpermitted]
  simp only
  rw [run_bind, hprocess]
  rfl

/-- The task of a message that is not rejected beforehand. -/
theorem run_checkedMessage {received message : Message} {r : Except HandlerError Unit} {v : Verdict}
    (hacts : ActsOn ctx p received message) (hunrejected : rejection ctx p.trustedSource message = none)
    (hrun : (checkedRun (handlerOf message.messageType) message (createHandlerContext ctx p.trustedSource)).run n =
      ((r, v), n₁)) :
    (checkedMessage ctx p).run n = ((((storeResult ctx p message (statusOf r)).run.run n₁).1, v),
      ((storeResult ctx p message (statusOf r)).run.run n₁).2) := by
  unfold checkedMessage checkedWithContent
  rw [hacts.1]
  simp only
  rw [hacts.2]
  simp only
  rw [hunrejected]
  simp only
  rw [run_bind, hrun]
  simp only
  rw [run_bind]
  rfl

/-- A message that is valid and permitted is granted. -/
theorem answer_granted {received message : Message} (hacts : ActsOn ctx p received message)
    (hunrejected : rejection ctx p.trustedSource message = none)
    (hvalid : ((handlerOf message.messageType).validate message
      (createHandlerContext ctx p.trustedSource)).run.run n = (.ok (), n))
    (hpermitted : ((handlerOf message.messageType).permissionStage message
      (createHandlerContext ctx p.trustedSource)).run.run n = (.ok (), n)) :
    ((checkedMessage ctx p).run n).1.2 = .granted := by
  rw [run_checkedMessage hacts hunrejected (run_checkedRun_granted hvalid hpermitted rfl)]

end Answers

/-! ## When they agree -/

/-- Each message leaves what the remaining messages of the other threads are told. -/
def OrderUndisturbed (ctx : ProcessorContext) : List PendingMessageDb → Node → Prop
  | [], _ => True
  | p :: ps, n =>
    (∀ t, threadOf ctx.env p ≠ t →
      verdicts ctx (ps.filter fun q => threadOf ctx.env q = t) ((checkedMessage ctx p).run n).2 =
        verdicts ctx (ps.filter fun q => threadOf ctx.env q = t) n) ∧
    OrderUndisturbed ctx ps ((checkedMessage ctx p).run n).2

/-- **One message at a time**: if none changes what the remaining ones are told, but for its own group, each gets the
answer from before. -/
theorem verdicts_filter {ps : List PendingMessageDb} {n : Node} (h : OrderUndisturbed ctx ps n) (t : ThreadId) :
    ((verdicts ctx ps n).filter fun r => decide (threadOf ctx.env r.1 = t)) =
      verdicts ctx (ps.filter fun p => threadOf ctx.env p = t) n := by
  induction ps generalizing n with
  | nil => rfl
  | cons p ps ih =>
    obtain ⟨hkept, hrest⟩ := h
    rw [verdicts_cons, List.filter_cons, List.filter_cons]
    by_cases hp : threadOf ctx.env p = t
    · rw [if_pos (decide_eq_true hp), if_pos (decide_eq_true hp), verdicts_cons, ih hrest]
    · rw [if_neg (by simpa using hp), if_neg (by simpa using hp), ih hrest, hkept t hp]

theorem orderUndisturbed_single (p : PendingMessageDb) (n : Node) : OrderUndisturbed ctx [p] n :=
  ⟨fun _ _ => rfl, trivial⟩

theorem asBefore_of_orderUndisturbed {n : Node} (h : OrderUndisturbed ctx (worklist ctx n) (batchStart ctx n).store) :
    AsBefore ctx n :=
  fun t => verdicts_filter h t

/-! ### An authorization that comes first -/

section Delegated

section FirstElement

open AggregateHandler

/-- The first element of an aggregate, if no statement is refused. -/
theorem run_processElement_first {e : AggregateElement} {n : Node}
    (hnone : (storeElement e n).aggregates.find? (e.address, e.key) = none) :
    (processElement e).run.run n = (.ok (), processed e n) := by
  have hinsert : (db (insertElement e)).run.run n = (.ok (), storeElement e n) := by
    rw [db, run_mapErr, insertElement, run_execute]
    rfl
  have hrow : (db (insertAggregate (firstRow e))).run.run (storeElement e n) =
      (.ok 1, insertFirst e (storeElement e n)) := by
    have hfree : (storeElement e n).aggregates.find? ((firstRow e).address, (firstRow e).key) = none := hnone
    rw [db, run_mapErr, insertAggregate, run_sql, hfree]
    rfl
  rw [processElement, run_bind_ok hinsert, run_bind_ok hrow, processed_of_none hnone]
  rfl

variable {message : Message} {content : AggregateContent} {hctx : HandlerContext} {n : Node}

theorem run_validate_keyed {f : String → String}
    (hparse : parseContent hctx.env AggregateContent.decode f message = .ok content) (hkey : content.key ≠ "") :
    (handler.validate message hctx).run.run n = (.ok (), n) := by
  refine AggregateHandler.checks_validate.run_ok (exec_fromExcept_bind_ok.2 ⟨content, parseContent_text hparse, ?_⟩)
  rw [if_neg hkey]
  exact exec_pure_ok.2 ⟨rfl, rfl⟩

theorem run_process_first {f : String → String}
    (hparse : parseContent hctx.env AggregateContent.decode f message = .ok content)
    (hnone : (storeElement (elementOf message content) n).aggregates.find? (content.address, content.key) = none) :
    (do handler.checkBalance message hctx; handler.process message hctx : Db HandlerError Unit).run.run n =
      (.ok (), processed (elementOf message content) n) := by
  have hbalance : (handler.checkBalance message hctx).run.run n = (.ok (), n) := rfl
  have hcontent : (fromExcept (parseContent hctx.env AggregateContent.decode (fun e => e) message) :
      Db HandlerError AggregateContent).run.run n = (.ok content, n) := by
    rw [run_fromExcept, parseContent_text hparse]
  have helement : (processElement (elementOf message content)).run.run n =
      (.ok (), processed (elementOf message content) n) := run_processElement_first hnone
  have hprocess : (handler.process message hctx).run.run n = (.ok (), processed (elementOf message content) n) :=
    (run_bind_ok hcontent).trans helement
  exact (run_bind_ok hbalance).trans hprocess

end FirstElement

/-- The owner lets the delegate send messages. -/
def authorization : Message :=
  { delegation with
    itemType := .inline
    signature := "0xbb5a3198e8a99c0c0fcd5c704998843f0a15428c1f827e59c2299e0aefecc5165b2b3791d693f5bce18ce0e09cf54db7fb4f" ++
      "43d13e07bf76d748a9b2609137351b" }

def profileText : String :=
  "\x7b\"address\":\"" ++ fileOwner ++ "\",\"key\":\"profile\",\"content\":\x7b\"name\":\"alice\"\x7d,\"time\":1700000010\x7d"

/-- The delegate sets the profile of the owner. -/
def profile : Message :=
  { authorization with
    sender := vmDelegate
    itemHash := "3ee582caaf4547bc1e0fbef25dfe08ffee3389cf6f0131cce778e3d8d2966c52"
    itemContent := some profileText
    signature := "0x3559c38dc93cc0dc252c680711fdaa309ccc724994c361ea2f30b2bcdcd4a5af703b47b8200ed9a9d20117396c427daafb71" ++
      "9c40d2ad9f5c7441e8ed94d2e9de1c" }

def profileContent : AggregateContent :=
  ⟨fileOwner, "profile", (Json.obj [("name", .str "alice")]).toValue, 1700000010⟩

def batchCtx : ProcessorContext where
  env := .ofTables [(delegationText, .obj [("address", .str fileOwner), ("key", .str "security"), ("content", delegationJson),
        ("time", .num (.int 1700000000))]),
      (profileText, .obj [("address", .str fileOwner), ("key", .str "profile"),
        ("content", .obj [("name", .str "alice")]), ("time", .num (.int 1700000010))])]
    [(delegationText, authorization.itemHash), (profileText, profile.itemHash)]
    [("ETH\n" ++ fileOwner ++ "\nAGGREGATE\n" ++ authorization.itemHash, authorization.signature, fileOwner),
      ("ETH\n" ++ vmDelegate ++ "\nAGGREGATE\n" ++ profile.itemHash, profile.signature, vmDelegate)]
  order := .stored
  now := 1700000200
  cost := none
  ipfsGet := fun _ => .error "not found"

/-- The authorization arrives, and a second later the profile. -/
def pendingAuthorization : PendingMessageDb :=
  ⟨authorization.itemHash, authorization.toJson, 1700000150, false, true, 0, 1700000150, false⟩

def pendingProfile : PendingMessageDb := ⟨profile.itemHash, profile.toJson, 1700000151, false, true, 0, 1700000151, false⟩

def bothPending : Node := { Node.empty with
  pendingMessages := (Table.empty.insertNew pendingAuthorization).insertNew pendingProfile }

def profilePending : Node := { Node.empty with pendingMessages := Table.empty.insertNew pendingProfile }

example : worklist batchCtx bothPending = [pendingAuthorization, pendingProfile] := by decide +kernel

theorem verdicts_profile_refused : verdicts batchCtx [pendingProfile] bothPending = [(pendingProfile, .refused)] := by
  have hrefused : (verdicts batchCtx [pendingProfile] bothPending).map Prod.snd = [.refused] := by decide +kernel
  rw [verdicts_cons, List.map_cons] at hrefused
  rw [verdicts_cons, List.head_eq_of_cons_eq hrefused]
  rfl

theorem batchCtx_actsOn {message : Message} {p : PendingMessageDb} {text : String} (hp : p.message = message.toJson)
    (hcontent : message.itemContent = some text) : ActsOn batchCtx p message message := by
  refine ⟨hp ▸ Message.decode_toJson message, ?_⟩
  rw [obtainContent, if_neg]
  intro h
  rw [(needsContentFetch_iff.1 h).2] at hcontent
  cases hcontent

theorem batchCtx_unrejected {message : Message} {text : String} (hinline : message.itemType = .inline)
    (hcontent : message.itemContent = some text)
    (hsignature : message.verifySignature batchCtx.env = .ok true)
    (hdigest : batchCtx.env.sha256Hex text.toUTF8 = message.itemHash) : rejection batchCtx false message = none := by
  have hhash : message.verifyItemHash batchCtx.env = .ok true := by
    rw [Message.verifyItemHash, hcontent]
    simp only
    rw [hdigest, decide_eq_true rfl]
  rw [rejection, signatureRejection, hashRejection, if_neg Bool.false_ne_true, hsignature, if_pos hinline, hhash]
  rfl

/-- The node once the authorization has been accepted. -/
def authorized : Node := stored batchCtx.env authorization pendingAuthorization.receptionTime
  (AggregateHandler.processed (AggregateHandler.elementOf authorization delegationContent) bothPending)

theorem authorization_accepted :
    ((checkedMessage batchCtx pendingAuthorization).run bothPending).1.2 = .granted ∧
      ((checkedMessage batchCtx pendingAuthorization).run bothPending).2 = authorized := by
  have hparse : parseContent batchCtx.env AggregateContent.decode (fun e => e) authorization = .ok delegationContent :=
    parseContent_ok.2 ⟨delegationText, rfl, by decide +kernel⟩
  have hacts : ActsOn batchCtx pendingAuthorization authorization authorization := batchCtx_actsOn rfl rfl
  have hunrejected : rejection batchCtx false authorization = none := by
    refine batchCtx_unrejected rfl rfl (by decide +kernel) ?_
    simp only [batchCtx, Env.ofTables_sha256Hex]
    decide +kernel
  have haddress : batchCtx.env.contentStr? delegationText "address" = some fileOwner := by decide +kernel
  have hpermits : Permissions.Permits batchCtx.env bothPending authorization :=
    (Permissions.permits_iff rfl haddress).2 (.inl rfl)
  have hpermitted : ((handlerOf .aggregate).permissionStage authorization (createHandlerContext batchCtx false)).run.run
      bothPending = (.ok (), bothPending) :=
    (checks_permissionStage (by decide)).run_ok (exec_permissionStage_permitted rfl hpermits)
  have hnone : (AggregateHandler.storeElement (AggregateHandler.elementOf authorization delegationContent)
      bothPending).aggregates.find? (fileOwner, "security") = none := by decide +kernel
  have htype : authorization.messageType = .aggregate := rfl
  have hkey : delegationContent.key ≠ "" := by decide
  have hvalid : ((handlerOf .aggregate).validate authorization (createHandlerContext batchCtx false)).run.run
      bothPending = (.ok (), bothPending) := run_validate_keyed hparse hkey
  have hrun := run_checkedRun_granted hvalid hpermitted (run_process_first hparse hnone)
  rw [run_checkedMessage hacts hunrejected (htype ▸ hrun)]
  exact ⟨rfl, rfl⟩

theorem profile_granted : ((checkedMessage batchCtx pendingProfile).run authorized).1.2 = .granted := by
  have hacts : ActsOn batchCtx pendingProfile profile profile := batchCtx_actsOn rfl rfl
  have hunrejected : rejection batchCtx false profile = none := by
    refine batchCtx_unrejected rfl rfl (by decide +kernel) ?_
    simp only [batchCtx, Env.ofTables_sha256Hex]
    decide +kernel
  refine answer_granted hacts hunrejected ?_ ?_
  · have hparse : parseContent batchCtx.env AggregateContent.decode (fun e => e) profile = .ok profileContent :=
      parseContent_ok.2 ⟨profileText, rfl, by decide +kernel⟩
    exact run_validate_keyed hparse (by decide)
  · have haddress : batchCtx.env.contentStr? profileText "address" = some fileOwner := by decide +kernel
    have hjson : batchCtx.env.parseJson profileText = .ok (.obj [("address", .str fileOwner), ("key", .str "profile"),
        ("content", .obj [("name", .str "alice")]), ("time", .num (.int 1700000010))]) := by decide +kernel
    have hauthorizes : Permissions.Authorizes batchCtx.env authorized fileOwner vmDelegate profile := by
      have hrow : ⟨fileOwner, "security", delegationJson.toValue, 1700000000, false, some authorization.itemHash⟩ ∈
          authorized.aggregates.rows := by decide +kernel
      have hdecode : Permissions.decodeAuthorizations delegationJson.toValue.json =
          .ok [⟨vmDelegate, none, [], [], [], []⟩] := by decide +kernel
      exact ⟨_, hrow, rfl, _, hdecode, _, List.mem_singleton_self _, matches_unfiltered⟩
    have hpermits : Permissions.Permits batchCtx.env authorized profile := by
      refine (Permissions.permits_iff rfl haddress).2 (.inr ⟨_, hjson, ?_⟩)
      rw [Permissions.amendTargetOf, if_neg fun h => absurd h.1 (by decide)]
      exact hauthorizes
    have hpermitted : ((handlerOf .aggregate).permissionStage profile (createHandlerContext batchCtx false)).run.run
        authorized = (.ok (), authorized) :=
      (checks_permissionStage (by decide)).run_ok (exec_permissionStage_permitted rfl hpermits)
    exact hpermitted

example : authorized.messages.rows.map MessageRow.itemHash = [authorization.itemHash] := by decide +kernel

theorem worklist_bothPending : worklist batchCtx bothPending = [pendingAuthorization, pendingProfile] := by decide +kernel

theorem worklist_profilePending : worklist batchCtx profilePending = [pendingProfile] := by decide +kernel

example : profilePending.pendingMessages.rows.map PendingMessageDb.itemHash = [profile.itemHash] := by decide +kernel

theorem threadOf_authorization : threadOf batchCtx.env pendingAuthorization = .inr fileOwner := by decide +kernel

theorem threadOf_profile : threadOf batchCtx.env pendingProfile = .inl profile.itemHash := by decide +kernel

/-- A batch of messages that came from no chain is taken without a change. -/
theorem batchStart_store {n : Node} (h : ∀ p ∈ duePending ctx n, chainConfirmation p.itemHash p.message = none) :
    (batchStart ctx n).store = n := by
  show ((takeBatch ctx).run.run n).2 = n
  rw [run_takeBatch h]

theorem bothPending_threads (t : ThreadId) : (batchStart batchCtx bothPending).threads t =
    oneByOne batchCtx ([pendingAuthorization, pendingProfile].filter fun p => threadOf batchCtx.env p = t) := by
  rw [batchStart_threads, worklist_bothPending]

theorem bothPending_idle {t : ThreadId} (hprofile : t ≠ .inl profile.itemHash) (howner : t ≠ .inr fileOwner) :
    ((batchStart batchCtx bothPending).threads t).finished = true := by
  have hnone : ([pendingAuthorization, pendingProfile].filter fun p => threadOf batchCtx.env p = t) = [] := by
    rw [List.filter_cons_of_neg, List.filter_cons_of_neg, List.filter_nil]
    · rw [threadOf_profile, decide_eq_true_eq]
      exact hprofile.symm
    · rw [threadOf_authorization, decide_eq_true_eq]
      exact howner.symm
  rw [bothPending_threads, hnone]
  rfl

/-- One at a time the delegate's message is granted. -/
theorem inOrder_profile : inOrder batchCtx bothPending (.inl profile.itemHash) = [(pendingProfile, .granted)] := by
  have hstore : (batchStart batchCtx bothPending).store = bothPending := batchStart_store (by decide +kernel)
  have hprofile : verdicts batchCtx [pendingProfile] authorized = [(pendingProfile, .granted)] := by
    rw [verdicts_cons, profile_granted]
    rfl
  have hboth : verdicts batchCtx [pendingAuthorization, pendingProfile] bothPending =
      [(pendingAuthorization, .granted), (pendingProfile, .granted)] := by
    rw [verdicts_cons, authorization_accepted.1, authorization_accepted.2, hprofile]
  rw [inOrder, hstore, worklist_bothPending, hboth, List.filter_cons_of_neg, List.filter_cons_of_pos, List.filter_nil]
  · exact decide_eq_true threadOf_profile
  · rw [threadOf_authorization, decide_eq_true_eq]
    exact Sum.inr_ne_inl

end Delegated

end AlephCore.MessageProcessor
