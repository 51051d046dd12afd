import AlephCore.Jobs.Censorship

/-!
# MessageStatus — the status of a message, at two endpoints

Mirrors `get_message` and `get_message_status` of `web/handlers.rs`.  Both look for a hash in four tables, and differ
in the order of the last two.  They agree as long as no hash is in both: while no FORGET lists what was rejected, and
nothing is rejected that was forgotten.
-/

namespace AlephCore.Web

open ProgE Prog ForgetHandler MessageProcessor P2pConsumer

/-! ## The endpoints -/

/-- What an endpoint says of a hash. -/
inductive ReportedStatus where
  | processed
  | pending
  | forgotten
  | rejected
  | notFound
  deriving DecidableEq

/-- The answer for a single message. -/
inductive MessageResponse where
  | processed (receptionTime : Timestamp) (message : MessageRow) (confirmations : List ChainTxRow)
  | pending (receptionTime : Timestamp) (messages : List Json)
  | forgotten
  | rejected (errorCode : Int) (errorMessage : String)
  | notFound

/-- The answer for its status. -/
inductive MessageStatusResponse where
  | processed (receptionTime : Timestamp)
  | pending (receptionTime : Timestamp)
  | rejected (errorCode : Int) (errorMessage : String)
  | forgotten
  | unknown

def MessageResponse.status : MessageResponse → ReportedStatus
  | .processed .. => .processed
  | .pending .. => .pending
  | .forgotten => .forgotten
  | .rejected .. => .rejected
  | .notFound => .notFound

def MessageStatusResponse.status : MessageStatusResponse → ReportedStatus
  | .processed .. => .processed
  | .pending .. => .pending
  | .rejected .. => .rejected
  | .forgotten => .forgotten
  | .unknown => .notFound

/-- `SELECT EXISTS(SELECT 1 FROM forgotten_messages WHERE item_hash = $1)`. -/
def isForgotten (n : Node) (hash : ItemHash) : Bool := (n.forgottenMessages.find? hash).isSome

variable (createdAt : ItemHash → Timestamp) (n : Node) (hash : ItemHash)

/-- Get a single message by hash; the reception time is the one at which its row was created. -/
def getMessage : MessageResponse :=
  match n.messages.find? hash with
  | some row => .processed (createdAt hash) row (n.chainTxs.rows.filter (·.itemHash = hash))
  | none =>
    match n.pendingMessages.find? hash with
    | some p => .pending p.receptionTime [p.message]
    | none =>
      if isForgotten n hash then .forgotten
      else
        match n.rejectedMessages.find? hash with
        | some r => .rejected r.errorCode r.errorMessage
        | none => .notFound

/-- Get message status. -/
def getMessageStatus : MessageStatusResponse :=
  match n.messages.find? hash with
  | some _ => .processed (createdAt hash)
  | none =>
    match n.pendingMessages.find? hash with
    | some p => .pending p.receptionTime
    | none =>
      match n.rejectedMessages.find? hash with
      | some r => .rejected r.errorCode r.errorMessage
      | none => if isForgotten n hash then .forgotten else .unknown

/-! ## When they agree -/

/-- The endpoints report the same status. -/
def SameStatus : Prop := (getMessage createdAt n hash).status = (getMessageStatus createdAt n hash).status

/-- No message is forgotten and rejected at the same time. -/
def Apart : Prop := ∀ x, ¬ (Rejected n x ∧ Forgotten n x)

variable {createdAt n hash} {n' : Node}

theorem isForgotten_iff : isForgotten n hash = true ↔ Forgotten n hash := by
  rw [isForgotten, Option.isSome_iff_exists]
  exact exists_congr fun _ => Table.find?_eq_some

theorem rejected_iff : (∃ r, n.rejectedMessages.find? hash = some r) ↔ Rejected n hash :=
  exists_congr fun _ => Table.find?_eq_some

/-- **The endpoints disagree exactly on** a hash that is forgotten and rejected, and neither stored nor pending. -/
theorem sameStatus_iff :
    SameStatus createdAt n hash ↔
      ¬ ((∀ r ∈ n.messages, r.itemHash ≠ hash) ∧ (∀ p ∈ n.pendingMessages, p.itemHash ≠ hash) ∧
        Rejected n hash ∧ Forgotten n hash) := by
  unfold SameStatus getMessage getMessageStatus
  cases hmessage : n.messages.find? hash with
  | some row =>
    obtain ⟨hrow, hhash⟩ := Table.find?_eq_some.1 hmessage
    exact iff_of_true rfl fun h => h.1 row hrow hhash
  | none =>
    cases hpending : n.pendingMessages.find? hash with
    | some p =>
      obtain ⟨hp, hhash⟩ := Table.find?_eq_some.1 hpending
      exact iff_of_true rfl fun h => h.2.1 p hp hhash
    | none =>
      rw [and_iff_right (Table.find?_eq_none.1 hmessage), and_iff_right (Table.find?_eq_none.1 hpending),
        ← rejected_iff, ← isForgotten_iff]
      cases hrejected : n.rejectedMessages.find? hash with
      | some r =>
        by_cases hforgotten : isForgotten n hash = true
        · simp only [hforgotten, if_true]
          exact iff_of_false (fun h => nomatch h) fun h => h ⟨⟨r, rfl⟩, trivial⟩
        · simp only [hforgotten]
          exact iff_of_true rfl fun h => Bool.false_ne_true h.2
      | none =>
        refine iff_of_true ?_ fun h => ?_
        · by_cases hforgotten : isForgotten n hash = true
          · simp only [hforgotten, if_true]
            rfl
          · simp only [hforgotten]
            rfl
        · obtain ⟨⟨r, hr⟩, -⟩ := h
          cases hr

theorem Apart.sameStatus (h : Apart n) : SameStatus createdAt n hash :=
  sameStatus_iff.2 fun hboth => h hash hboth.2.2

/-! ## Runs -/

/-- No hash that a FORGET of the batch lists is rejected, and neither is a stored amend of such a post. -/
def ForgetsNoneRejected (ctx : ProcessorContext) (batch : Batch) (n : Node) : Prop :=
  ∀ p ∈ batch.messages, ∀ received message, ActsOn ctx p received message → message.messageType = .forget →
    ∀ content, parseContent ctx.env ForgetContent.decode (fun e => e) message = .ok content →
      ∀ hash ∈ content.hashes, ¬ Rejected n hash ∧ ∀ q ∈ n.posts, q.originalItemHash = some hash → ¬ Rejected n q.itemHash

/-- Whenever a batch is worked on, and whenever its results are settled: no message that is about to be rejected is
forgotten. -/
def forgetGuard : Duty → Node → Prop
  | .taking _, _ => True
  | .working ctx batch, n => ForgetsNoneRejected ctx batch n
  | .settling _ _ results, n => ∀ r ∈ results, Rejects r → ¬ Forgotten n r.1.itemHash

/-- Nothing is rejected, and nothing that is rejected is forgotten. -/
structure KeepsApart (n n' : Node) : Prop where
  rejected : n'.rejectedMessages = n.rejectedMessages
  forgotten : ∀ x, Forgotten n x → Forgotten n' x
  marked : ∀ x, Forgotten n' x → Forgotten n x ∨ ¬ Rejected n x

theorem KeepsApart.refl (n : Node) : KeepsApart n n := ⟨rfl, fun _ h => h, fun _ h => .inl h⟩

theorem KeepsApart.trans {n₁ n₂ n₃ : Node} (h₁ : KeepsApart n₁ n₂) (h₂ : KeepsApart n₂ n₃) : KeepsApart n₁ n₃ := by
  refine ⟨h₂.rejected.trans h₁.rejected, fun x hx => h₂.forgotten x (h₁.forgotten x hx), fun x hx => ?_⟩
  rcases h₂.marked x hx with hold | hnot
  · exact h₁.marked x hold
  · rw [rejected_congr h₁.rejected] at hnot
    exact .inr hnot

theorem KeepsApart.apart (h : KeepsApart n n') (hapart : Apart n) : Apart n' := by
  rintro x ⟨hrejected, hforgotten⟩
  rw [rejected_congr h.rejected] at hrejected
  rcases h.marked x hforgotten with hold | hnot
  · exact hapart x ⟨hrejected, hold⟩
  · exact hnot hrejected

/-- The two tables stay as they are. -/
theorem keepsApart_of_same (hrejected : n'.rejectedMessages = n.rejectedMessages)
    (hforgotten : n'.forgottenMessages = n.forgottenMessages) : KeepsApart n n' :=
  ⟨hrejected, fun _ h => (forgotten_congr hforgotten).2 h, fun _ h => .inl ((forgotten_congr hforgotten).1 h)⟩

theorem keepsApart_insertion (h : Insertion n n') : KeepsApart n n' := by
  rcases h with hqueued | ⟨chunk, hsynced⟩
  · cases hqueued with
    | received now json message hdecode hexec =>
      obtain rfl := exec_execute_ok.1 hexec
      exact keepsApart_of_same rfl rfl
    | synced sync messages hexec =>
      unfold ChainSync.queueMessagesForProcessing at hexec
      split_ifs at hexec
      · obtain ⟨-, rfl⟩ := exec_pure_ok.1 hexec
        exact .refl _
      · obtain rfl := exec_execute_ok.1 hexec
        exact keepsApart_of_same rfl rfl
  · rw [hsynced.eq]
    exact keepsApart_of_same rfl rfl

/-! ### What each stage keeps -/

/-- A batch is taken beside anything. -/
def apartTaking : Contract Node where
  given _ := True
  rely _ _ := True
  guar := OnlyChainTxs
  rely_refl _ := trivial
  rely_trans _ _ := trivial
  guar_refl := refl_of OnlyChainTxs

/-- Tasks beside others, while no FORGET of the batch lists what is rejected. -/
def apartWorking (ctx : ProcessorContext) (batch : Batch) : Contract Node where
  given := ForgetsNoneRejected ctx batch
  rely := KeepsApart
  guar := KeepsApart
  rely_refl := .refl
  rely_trans := .trans
  guar_refl := .refl

/-- Results are settled beside anything, while none rejects what is forgotten. -/
def apartSettling (results : List TaskResult) : Contract Node where
  given n := ∀ r ∈ results, Rejects r → ¬ Forgotten n r.1.itemHash
  rely _ _ := True
  guar n n' := Apart n → Apart n'
  rely_refl _ := trivial
  rely_trans _ _ := trivial
  guar_refl _ := fun h => h

variable {ctx : ProcessorContext} {batch : Batch}

theorem marksBooks_apart : MarksBooks (apartWorking ctx batch) fun x n => ¬ Rejected n x where
  same hsame := keepsApart_of_same hsame.rejectedMessages hsame.forgottenMessages
  marks n r hr := by
    refine ⟨rfl, fun x hx => forgotten_insertNew.2 (.inl hx), fun x hx => ?_⟩
    rcases forgotten_insertNew.1 hx with hold | rfl
    · exact .inl hold
    · exact .inr hr
  drops _ := keepsApart_of_same rfl rfl
  others x _ _ hst hx := hst.forgotten x hx
  own hguar hx := hguar.forgotten _ hx
  mayOthers x s t hst hx h := hx ((rejected_congr hst.rejected).1 h)
  mayOwn hguar hx h := hx ((rejected_congr hguar.rejected).1 h)

/-- **A task** of the batch keeps rejected and forgotten messages apart. -/
theorem assures_processSingleMessage_apart {p : PendingMessageDb} (hp : p ∈ batch.messages) :
    Assures (apartWorking ctx batch) (fun _ _ => True) (processSingleMessage ctx p).run n := by
  unfold processSingleMessage
  cases hdecode : Message.decode p.message with
  | error e => exact fun _ _ => trivial
  | ok received =>
    refine assures_pure_bind ?_
    cases hobtain : obtainContent ctx received with
    | error e =>
      have hdefer : Assures (apartWorking ctx batch) (IfOk fun _ _ => True) (deferPending ctx p.itemHash 30).run n :=
        assures_execute_ifOk (fun _ _ _ _ => trivial) fun t _ _ => ⟨keepsApart_of_same rfl rfl, trivial⟩
      exact assures_bind (assures_mapErr_ifOk (fun _ _ _ _ _ => trivial) hdefer)
        (fun _ _ _ _ _ => trivial) fun _ _ _ _ _ => trivial
    | ok message =>
      show Assures _ _ (processWithContent ctx p message).run n
      unfold processWithContent
      cases rejection ctx p.trustedSource message with
      | some r => exact fun _ _ => trivial
      | none =>
        have hlisted : message.messageType = .forget →
            MayForgetListed (apartWorking ctx batch) (fun x n => ¬ Rejected n x) ctx.env message :=
          fun htype content hparse hash hhash t hgiven =>
            hgiven p hp received message ⟨hdecode, hobtain⟩ htype content hparse hash hhash
        have hhandled : Assures (apartWorking ctx batch) (fun _ _ => True) (ofProg (processMessage message
            (createHandlerContext ctx p.trustedSource)) : Db ProcessorError ProcessingStatus).run n :=
          assures_ofProg (fun _ _ _ _ _ => trivial) (marksBooks_apart.assures_processMessage hlisted)
        refine assures_bind hhandled (fun status t _ => ?_) fun _ _ _ _ _ => trivial
        cases status with
        | rejected code text => exact fun _ _ => trivial
        | processed =>
          have hstored : Assures (apartWorking ctx batch) (fun _ _ => True)
              (dbOp (storeProcessedMessage ctx.env message p.receptionTime)).run t :=
            assures_mapErr (fun _ _ _ _ _ => trivial) (assures_sql (fun _ _ _ _ _ => trivial) fun u _ _ =>
              ⟨keepsApart_of_same rfl rfl, trivial, fun _ => trivial⟩)
          exact assures_bind hstored (fun _ _ _ _ _ => trivial) fun _ _ _ _ _ => trivial

theorem settles_apart (results : List TaskResult) : Settles (apartSettling results) results where
  pending n t _ := (keepsApart_of_same rfl rfl : KeepsApart n { n with pendingMessages := t }).apart
  rejects r hr hrejects n row f hf hgiven hhash hapart := by
    rintro x ⟨hrejected, hforgotten⟩
    rcases rejected_upsert.1 hrejected with hold | rfl
    · exact hapart x ⟨hold, hforgotten⟩
    · have hnot := hgiven r hr hrejects
      rw [← hhash] at hnot
      exact hnot hforgotten

/-- What the stages of a batch keep apart. -/
def keepsApart : Supervision Insertion forgetGuard where
  inv := Apart
  contract
    | .taking _ => apartTaking
    | .working ctx batch => apartWorking ctx batch
    | .settling _ _ results => apartSettling results
  taken _ _ := True
  ended _ _ := True
  given {d n} _ hguard := by
    cases d with
    | taking ctx => trivial
    | working ctx batch => exact hguard
    | settling ctx batch results => exact hguard
  kept {d n n'} hinv hguar := by
    cases d with
    | taking ctx =>
      obtain ⟨txs, rfl⟩ := hguar
      exact hinv
    | working ctx batch => exact KeepsApart.apart hguar hinv
    | settling ctx batch results => exact hguar hinv
  undisturbed {n n'} hinv hother := by
    have hkeeps := keepsApart_insertion hother
    refine ⟨hkeeps.apart hinv, fun d => ?_⟩
    cases d with
    | taking ctx => trivial
    | working ctx batch => exact hkeeps
    | settling ctx batch results => trivial
  shared hguar := hguar
  stable _ _ _ _ := trivial
  take _ := by
    refine (moves_takeBatch.assures (J := fun _ => True) (fun _ _ _ _ => trivial) (fun _ _ _ _ h => ⟨h, trivial⟩)
      trivial).mono fun _ _ _ _ _ => trivial
  work _ p hp := assures_processSingleMessage_apart hp
  timeout := trivial
  settle _ _ := (settles_apart _).assures_settle

/-- **The endpoints agree**: in a run whose FORGETs list nothing that is rejected, and which rejects nothing that is
forgotten, both report the same status of every hash. -/
theorem sameStatus_of_run {n₀ : Node} {w : World} (hapart : Apart n₀)
    (hrun : Relation.ReflTransGen (Watched Insertion forgetGuard) ⟨n₀, .idle⟩ w) (createdAt : ItemHash → Timestamp)
    (hash : ItemHash) : SameStatus createdAt w.node hash :=
  Apart.sameStatus (keepsApart.inv_of_run hapart hrun)

/-! ### A forged copy comes first -/

section Forged

/-- The forged copy has been rejected, and the message and a FORGET of it arrive. -/
def arrivedLater : Node := { refusedForged with
  pendingMessages := (refusedForged.pendingMessages.insertNew (arrived firstStore)).insertNew (arrived forgetFirst) }

def forgottenLater : Node :=
  stored networkCtx.env forgetFirst 1700000150
    (hashesForgotten forgetFirst (forgetContent firstHash) networkHandlerCtx [firstHash] (networkStored arrivedLater))

def processedLater : Node :=
  ((settle networkCtx (batchOf networkCtx arrivedLater)
    [(arrived firstStore, .ok .processed), (arrived forgetFirst, .ok .processed)]).run.run forgottenLater).2

example : processedLater.rejectedMessages.rows.map RejectedRow.itemHash = [firstHash] := by decide +kernel

theorem run_arrivedLater :
    Relation.ReflTransGen (Guarded Insertion fun _ _ => True) ⟨arrivedLater, .idle⟩ ⟨processedLater, .idle⟩ := by
  have hforget : Exec (processSingleMessage networkCtx (arrived forgetFirst)).run (networkStored arrivedLater)
      (.ok .processed) forgottenLater := by
    refine exec_networkForget ⟨processedRow networkCtx.env firstStore 1700000150, by decide +kernel, rfl, by decide, rfl⟩
      ?_ (fun p hp => absurd hp List.not_mem_nil) fun i hi => absurd hi List.not_mem_nil
    rintro ⟨q, hq, -⟩
    exact absurd hq List.not_mem_nil
  have hwork : WorkedOff networkCtx [arrived firstStore, arrived forgetFirst] arrivedLater
      [(arrived firstStore, .ok .processed), (arrived forgetFirst, .ok .processed)] forgottenLater := by
    refine ⟨_, _, _, exec_arrivedStore ?_, ⟨_, _, [], hforget, ⟨rfl, rfl⟩, rfl⟩, rfl⟩
    rintro ⟨p, hp, -⟩
    exact absurd hp List.not_mem_nil
  exact run_batchOf (by decide +kernel) (by decide +kernel) hwork (fun _ _ => trivial) (fun _ => trivial)
    fun _ => trivial

/-- A STORE message that arrives alone. -/
theorem processedFirst_sameStatus : SameStatus (fun _ => 1700000200) processedFirst firstHash := by
  have harrives : Watched Insertion forgetGuard ⟨.empty, .idle⟩ ⟨arrivedFirst, .idle⟩ :=
    ⟨.other (received_arrived firstStore), fun d hd => nomatch hd⟩
  have hbatch : (batchOf networkCtx arrivedFirst).messages = [arrived firstStore] := by decide +kernel
  have hwork : WorkedOff networkCtx [arrived firstStore] arrivedFirst [(arrived firstStore, .ok .processed)]
      (networkStored arrivedFirst) := by
    refine ⟨_, _, [], exec_arrivedStore ?_, ⟨rfl, rfl⟩, rfl⟩
    rintro ⟨p, hp, -⟩
    exact absurd hp List.not_mem_nil
  have hprocessed : Relation.ReflTransGen (Watched Insertion forgetGuard) ⟨arrivedFirst, .idle⟩ ⟨processedFirst, .idle⟩ := by
    refine watched_batchOf (by decide +kernel) hbatch hwork (fun _ _ => trivial) (fun t p hp received message hacts htype => ?_)
      fun t r hr hrejects => ?_
    · rw [hbatch] at hp
      obtain rfl := List.mem_singleton.1 hp
      obtain ⟨-, rfl⟩ := hacts.unique (actsOn_arrived rfl)
      cases htype
    · obtain rfl := List.mem_singleton.1 hr
      exact hrejects.elim
  exact sameStatus_of_run (fun x hx => by obtain ⟨⟨r, hr, -⟩, -⟩ := hx; exact absurd hr List.not_mem_nil)
    (.head harrives hprocessed) _ _

/-- A copy with a forged signature is rejected; then the message itself is processed and forgotten. -/
theorem forged_not_sameStatus :
    Apart .empty ∧ Relation.ReflTransGen (Step Insertion) ⟨.empty, .idle⟩ ⟨processedLater, .idle⟩ ∧
      (getMessage (fun _ => 1700000200) processedLater firstHash).status = .forgotten ∧
      (getMessageStatus (fun _ => 1700000200) processedLater firstHash).status = .rejected := by
  have hsteps : ∀ {w w' : World}, Relation.ReflTransGen (Guarded Insertion fun _ _ => True) w w' →
      Relation.ReflTransGen (Step Insertion) w w' :=
    fun hrun => Relation.ReflTransGen.mono (fun _ _ hs => hs.1) _ _ hrun
  have harrives : Relation.ReflTransGen (Step Insertion) ⟨refusedForged, .idle⟩ ⟨arrivedLater, .idle⟩ :=
    .head (.other (received_arrived firstStore)) (.single (.other (received_arrived forgetFirst)))
  refine ⟨?_, ?_, by decide +kernel, by decide +kernel⟩
  · rintro x ⟨⟨r, hr, -⟩, -⟩
    exact absurd hr List.not_mem_nil
  · exact .head (.other (received_arrived forgedStore))
      ((hsteps run_arrivedForged).trans (harrives.trans (hsteps run_arrivedLater)))

end Forged

end AlephCore.Web
