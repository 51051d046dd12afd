import AlephCore.Handlers.Process

/-!
# MessageProcessor — the job that works off the pending messages

Mirrors `jobs/message_processor.rs`.  `process_batch` is cut where its tasks begin and end: `takeBatch`
selects and sorts the due messages, `processSingleMessage` is one task, and `settle` deletes, rejects or
postpones according to the results.
-/

namespace AlephCore.MessageProcessor

open ProgE

/-- Maximum messages to process per batch. -/
def batchSize : Nat := 5000

/-- Maximum number of retries before rejecting a message. -/
def maxRetries : Int := 10

/-- Base retry delay in seconds. -/
def baseRetryDelay : Timestamp := 60

/-- Maximum retry delay in seconds. -/
def maxRetryDelay : Timestamp := 3600

/-- The services of the job. -/
structure ProcessorContext where
  env : Env
  order : SqlOrder
  /-- The clock. -/
  now : Timestamp
  cost : Option CostService
  /-- `IpfsService::get`. -/
  ipfsGet : ItemHash → Except String ByteArray

/-- Processor errors. -/
inductive ProcessorError where
  | database (e : String)
  | invalidMessage (e : String)
  | contentFetch (e : String)
  | handler (e : String)
  deriving DecidableEq

def ProcessorError.toString : ProcessorError → String
  | database e => s!"Database error: {e}"
  | invalidMessage e => s!"Invalid message: {e}"
  | contentFetch e => s!"Content fetch failed: {e}"
  | handler e => s!"Handler error: {e}"

/-- Result of processing a single message. -/
inductive ProcessResult where
  | processed
  | rejected (errorCode : ErrorCode) (errorMessage : String)
  | retry (reason : String)
  /-- Waiting for content; stays pending, no retry is counted. -/
  | deferred
  deriving DecidableEq

/-- A database operation of the job. -/
def dbOp {α : Type} (p : Db DbError α) : Db ProcessorError α := mapErr .database p

/-! ## Processing one message -/

/-- Check if message needs content to be fetched from IPFS/storage. -/
def needsContentFetch (message : Message) : Bool :=
  match message.itemType with
  | .inline => false
  | .ipfs | .storage => message.itemContent.isNone

/-- Fetch content for a message from IPFS or storage. -/
def fetchMessageContent (ctx : ProcessorContext) (message : Message) :
    Except ProcessorError Message :=
  match message.itemType with
  | .inline => .ok message
  | .ipfs | .storage =>
    match ctx.ipfsGet message.itemHash with
    | .error e => .error (.contentFetch e)
    | .ok content =>
      match String.fromUTF8? content with
      | none => .error (.contentFetch "Invalid UTF-8")
      | some contentStr => .ok { message with itemContent := some contentStr }

/-- The message with its content. -/
def obtainContent (ctx : ProcessorContext) (message : Message) : Except ProcessorError Message :=
  if needsContentFetch message then fetchMessageContent ctx message else .ok message

/-- Push the next attempt forward without counting a retry. -/
def deferPending (ctx : ProcessorContext) (itemHash : ItemHash) (delaySecs : Timestamp) :
    Db DbError Unit :=
  execute fun n => { n with
    pendingMessages := n.pendingMessages.update (·.itemHash = itemHash) fun p =>
      { p with nextAttempt := ctx.now + delaySecs } }

/-- The signature of a message from an untrusted source must be valid. -/
def signatureRejection (ctx : ProcessorContext) (trustedSource : Bool) (message : Message) :
    Option ProcessResult :=
  if trustedSource then none
  else
    match message.verifySignature ctx.env with
    | .ok true => none
    | .ok false => some (.rejected .invalidSignature "Signature verification failed")
    | .error e => some (.rejected .invalidSignature s!"Signature verification error: {e}")

/-- The item hash must match the content, for inline messages. -/
def hashRejection (ctx : ProcessorContext) (message : Message) : Option ProcessResult :=
  if message.itemType = .inline then
    match message.verifyItemHash ctx.env with
    | .ok true => none
    | .ok false => some (.rejected .invalidFormat "Item hash does not match content")
    | .error e => some (.rejected .invalidFormat s!"Hash verification error: {e}")
  else none

/-- Why a message is rejected before a handler sees it. -/
def rejection (ctx : ProcessorContext) (trustedSource : Bool) (message : Message) :
    Option ProcessResult :=
  (signatureRejection ctx trustedSource message).or (hashRejection ctx message)

/-- Normalize a timestamp to seconds. -/
def normalizeTimestamp (t : Timestamp) : Timestamp :=
  if 10000000000 < t then t / 1000 else t

/-- The columns of `messages` that are taken from the content. -/
structure Denormalized where
  owner : Option String
  contentType : Option String
  contentRef : Option String
  contentKey : Option String
  contentItemHash : Option String
  paymentType : Option String
  deriving DecidableEq

def denormalize (env : Env) (message : Message) : Denormalized :=
  let parsedContent := message.itemContent.bind env.fromStrValue?
  let field k := parsedContent.bind fun c => c.getStr? k
  { owner := field "address"
    contentType := field "type"
    contentRef := field "ref"
    contentKey := field "key"
    contentItemHash := field "item_hash"
    paymentType := (parsedContent.bind fun c => c.get? "payment").bind fun p => p.getStr? "type" }

/-- The row of a message that has been processed. -/
def processedRow (env : Env) (message : Message) (receptionTime : Timestamp) : MessageRow :=
  let d := denormalize env message
  { itemHash := message.itemHash, messageType := message.messageType, chain := message.chain,
    sender := message.sender, signature := message.signature, itemType := message.itemType,
    itemContent := message.itemContent, channel := message.channel,
    time := normalizeTimestamp message.time, status := "processed",
    receptionTime := some receptionTime, owner := d.owner, contentType := d.contentType,
    contentRef := d.contentRef, contentKey := d.contentKey, contentItemHash := d.contentItemHash,
    paymentType := d.paymentType }

/-- `ON CONFLICT (item_hash) DO UPDATE`: the status is new, the denormalized columns and the reception
time only where there was none, everything else stays. -/
def refreshRow (new old : MessageRow) : MessageRow :=
  { old with
    status := new.status
    receptionTime := old.receptionTime.or new.receptionTime
    owner := old.owner.or new.owner
    contentType := old.contentType.or new.contentType
    contentRef := old.contentRef.or new.contentRef
    contentKey := old.contentKey.or new.contentKey
    contentItemHash := old.contentItemHash.or new.contentItemHash
    paymentType := old.paymentType.or new.paymentType }

/-- Store a processed message in the main messages table. -/
def storeProcessedMessage (env : Env) (message : Message) (receptionTime : Timestamp) :
    Db DbError Unit :=
  execute fun n => { n with
    messages := n.messages.upsert (processedRow env message receptionTime)
      (refreshRow (processedRow env message receptionTime)) }

/-- The context the handlers get. -/
def createHandlerContext (ctx : ProcessorContext) (trustedSource : Bool) : HandlerContext :=
  ⟨ctx.env, ctx.order, ctx.now, ctx.cost, trustedSource⟩

/-- Store the message once a handler has accepted it. -/
def storeResult (ctx : ProcessorContext) (pending : PendingMessageDb) (message : Message) :
    ProcessingStatus → Db ProcessorError ProcessResult
  | .processed => do
    dbOp (storeProcessedMessage ctx.env message pending.receptionTime)
    pure .processed
  | .rejected code text => pure (.rejected code text)

/-- The checks and the handler, on a message that has its content. -/
def processWithContent (ctx : ProcessorContext) (pending : PendingMessageDb) (message : Message) :
    Db ProcessorError ProcessResult :=
  match rejection ctx pending.trustedSource message with
  | some r => pure r
  | none => do
    let status ← ofProg (processMessage message (createHandlerContext ctx pending.trustedSource))
    storeResult ctx pending message status

/-- Process a single pending message. -/
def processSingleMessage (ctx : ProcessorContext) (pending : PendingMessageDb) :
    Db ProcessorError ProcessResult := do
  let message ← fromExcept ((Message.decode pending.message).mapError fun e =>
    .invalidMessage s!"Failed to parse: {e}")
  match obtainContent ctx message with
  | .error _ => do
    dbOp (deferPending ctx pending.itemHash 30)
    pure .deferred
  | .ok message => processWithContent ctx pending message

/-! ## Taking a batch -/

/-- The messages that are due, oldest first. -/
def duePending (ctx : ProcessorContext) (n : Node) : List PendingMessageDb :=
  (((ctx.order.scan n.pendingMessages.rows).filter fun p =>
    p.nextAttempt ≤ ctx.now ∧ p.retries < maxRetries).insertionSort fun p q =>
      p.receptionTime ≤ q.receptionTime).take batchSize

/-- The hashes under which derived data is stored. -/
def derivedHashes (n : Node) : List ItemHash :=
  n.posts.rows.map PostRecord.itemHash ++ n.aggregateElements.map AggregateElement.itemHash ++
    n.filePins.rows.map FilePinRecord.itemHash ++ n.programs.rows.map ProgramRow.itemHash ++
    n.instances.rows.map InstanceRow.itemHash

/-- Which of the hashes already have derived data. -/
def batchCheckDuplicates (hashes : List ItemHash) : Db DbError (List ItemHash) :=
  if hashes.isEmpty then pure []
  else query fun n => hashes.filter fun h => decide (h ∈ derivedHashes n)

/-- Which of the hashes are forgotten. -/
def batchCheckForgotten (hashes : List ItemHash) : Db DbError (List ItemHash) :=
  if hashes.isEmpty then pure []
  else query fun n => hashes.filter fun h => decide (h ∈ n.forgottenMessages.rows.map ForgottenRow.itemHash)

/-- `Value::as_i64`. -/
def asI64? : Json → Option Int
  | .num (.int i) => if -2 ^ 63 ≤ i ∧ i < 2 ^ 63 then some i else none
  | _ => none

/-- The chain transaction a pending message came with. -/
def chainConfirmation (itemHash : ItemHash) (pendingJson : Json) : Option ChainTxRow := do
  let txHash ← pendingJson.getStr? "tx_hash"
  let chain ← pendingJson.getStr? "chain"
  let height ← (pendingJson.get? "height").bind asI64?
  pure { hash := txHash, chain, height, itemHash }

/-- Record a chain confirmation for a duplicate message. -/
def recordChainConfirmationIfPresent (pending : PendingMessageDb) : Db ProcessorError Unit :=
  match chainConfirmation pending.itemHash pending.message with
  | none => pure ()
  | some row => ignore (ε := DbError) (execute fun n => { n with chainTxs := n.chainTxs.insertNew row })

/-- Addresses whose messages are dropped. -/
def blacklistedAddresses : List Address := ["0x51A58800b26AA1451aaA803d1746687cB88E0501"]

def isBlacklisted (pending : PendingMessageDb) : Bool :=
  blacklistedAddresses.contains ((pending.message.getStr? "sender").getD "")

/-- The inline content of a pending message. -/
def pendingContent (env : Env) (pending : PendingMessageDb) : Option Json :=
  (pending.message.getStr? "item_content").bind env.fromStrValue?

/-- Is it a revision of a security aggregate? -/
def isSecurityAggregate (env : Env) (pending : PendingMessageDb) : Bool :=
  decide (pending.message.getStr? "type" = some "AGGREGATE" ∧
    (pendingContent env pending).bind (fun c => c.getStr? "key") = some "security")

/-- The address whose security aggregate is revised. -/
def securityAddress (env : Env) (pending : PendingMessageDb) : Address :=
  ((pendingContent env pending).bind fun c => c.getStr? "address").getD ""

/-- The messages of one address after the other. -/
def groupByAddress (env : Env) (ps : List PendingMessageDb) : List (List PendingMessageDb) :=
  (ps.map (securityAddress env)).dedup.map fun a => ps.filter fun p => securityAddress env p = a

/-- A batch: what is deleted at once, what is processed in parallel, and what in sequence. -/
structure Batch where
  toDelete : List ItemHash
  parallel : List PendingMessageDb
  groups : List (List PendingMessageDb)

/-- Sort the due messages. -/
def classify (env : Env) (pending : List PendingMessageDb) (duplicates forgotten : List ItemHash) :
    Batch :=
  let fresh := pending.filter fun p => p.itemHash ∉ duplicates ∧ p.itemHash ∉ forgotten
  let work := fresh.filter fun p => ¬ isBlacklisted p
  { toDelete := duplicates ++
      (pending.filter fun p => p.itemHash ∉ duplicates ∧ p.itemHash ∈ forgotten).map
        PendingMessageDb.itemHash ++
      (fresh.filter fun p => isBlacklisted p).map PendingMessageDb.itemHash
    parallel := work.filter fun p => ¬ isSecurityAggregate env p
    groups := groupByAddress env (work.filter fun p => isSecurityAggregate env p) }

/-- Phases 1 and 2 of `process_batch`. -/
def takeBatch (ctx : ProcessorContext) : Db ProcessorError Batch := do
  let pendingMessages ← dbOp (query (duePending ctx))
  let allHashes := pendingMessages.map PendingMessageDb.itemHash
  let duplicateHashes ← dbOp (batchCheckDuplicates allHashes)
  let forgottenHashes ← dbOp (batchCheckForgotten allHashes)
  forEach recordChainConfirmationIfPresent (pendingMessages.filter fun p => p.itemHash ∈ duplicateHashes)
  pure (classify ctx.env pendingMessages duplicateHashes forgottenHashes)

/-! ## Settling the results -/

def batchDeletePending (hashes : List ItemHash) : Db DbError Unit :=
  if hashes.isEmpty then pure ()
  else execute fun n => { n with pendingMessages := n.pendingMessages.delete (·.itemHash ∈ hashes) }

/-- Move a message to the rejected table. -/
def moveToRejected (ctx : ProcessorContext) (pending : PendingMessageDb) (errorCode : ErrorCode)
    (errorMessage : String) : Db DbError Unit := do
  execute fun n => { n with
    rejectedMessages := n.rejectedMessages.upsert
      ⟨pending.itemHash, pending.message, errorCode.asI32, errorMessage, ctx.now⟩ fun r =>
        { r with errorCode := errorCode.asI32, errorMessage, rejectedAt := ctx.now } }
  execute fun n => { n with
    pendingMessages := n.pendingMessages.delete (·.itemHash = pending.itemHash) }

/-- The delay before the next attempt: exponential backoff. -/
def retryDelay (retries : Int) : Timestamp :=
  min (baseRetryDelay * 2 ^ retries) maxRetryDelay

/-- Update retry count and next attempt time. -/
def updateRetry (ctx : ProcessorContext) (pending : PendingMessageDb) (reason : String) :
    Db DbError Unit :=
  let newRetries := pending.retries + 1
  if maxRetries ≤ newRetries then
    moveToRejected ctx pending .internalError s!"Max retries ({maxRetries}) exceeded: {reason}"
  else
    execute fun n => { n with
      pendingMessages := n.pendingMessages.update (·.itemHash = pending.itemHash) fun p =>
        { p with retries := newRetries, nextAttempt := ctx.now + retryDelay pending.retries } }

/-- A task that has ended. -/
abbrev TaskResult := PendingMessageDb × Except ProcessorError ProcessResult

/-- What is written for a result; errors are ignored. -/
def settleOne (ctx : ProcessorContext) : TaskResult → Db ProcessorError Unit
  | (_, .ok .processed) => pure ()
  | (pending, .ok (.rejected code text)) => ignore (moveToRejected ctx pending code text)
  | (pending, .ok (.retry reason)) => ignore (updateRetry ctx pending reason)
  | (_, .ok .deferred) => pure ()
  | (pending, .error e) => ignore (updateRetry ctx pending e.toString)

/-- The hashes whose messages have been processed. -/
def processedHashes (results : List TaskResult) : List ItemHash :=
  (results.filter fun r => decide (r.2 = .ok .processed)).map fun r => r.1.itemHash

/-- Phase 4 of `process_batch`. -/
def settle (ctx : ProcessorContext) (batch : Batch) (results : List TaskResult) :
    Db ProcessorError Unit := do
  forEach (settleOne ctx) results
  dbOp (batchDeletePending (batch.toDelete ++ processedHashes results))

end AlephCore.MessageProcessor
