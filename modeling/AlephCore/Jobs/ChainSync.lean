import AlephCore.Services.ContentFetch
import Mathlib.Data.List.Defs

/-!
# ChainSync — the job that takes messages from the chains

Mirrors the database side of `jobs/chain_sync.rs`: messages that are not stored yet are inserted and
queued as trusted, those without a content as shells whose content a background task fills in.
`insertPendingMessage` is how `jobs/p2p_consumer.rs` and the web API queue a message.
-/

namespace AlephCore.ChainSync

open ProgE

/-- Hashes checked by one query, and rows inserted by one statement. -/
def filterChunk : Nat := 1000

def dbBatchSize : Nat := 500

/-- Senders whose messages are skipped. -/
def blacklistedSenders : List Address := ["0x51A58800b26AA1451aaA803d1746687cB88E0501"]

/-- What a cycle needs to know. -/
structure ChainSyncContext where
  order : SqlOrder
  /-- The clock. -/
  now : Timestamp
  /-- The block of a message, when it is known. -/
  blockHeights : ItemHash → Option Nat

/-! ## Queueing -/

/-- Insert a message into the pending messages, unless one of its hash is pending. -/
def insertPendingMessage (now : Timestamp) (itemHash : ItemHash) (message : Json) : Db DbError Unit :=
  execute fun n => { n with
    pendingMessages := n.pendingMessages.insertNew
      { itemHash, message, receptionTime := now, fetched := false, checkMessage := true, retries := 0,
        nextAttempt := now, trustedSource := false } }

/-- The block height as reception time when it is known, else the clock. -/
def receptionTime (ctx : ChainSyncContext) (itemHash : ItemHash) : Timestamp :=
  match ctx.blockHeights itemHash with
  | some block => block
  | none => ctx.now

/-- The pending message of a synced message. -/
def queued (ctx : ChainSyncContext) (m : Message) : PendingMessageDb :=
  { itemHash := m.itemHash, message := m.toJson, receptionTime := receptionTime ctx m.itemHash,
    fetched := m.itemContent.isSome, checkMessage := true, retries := 0,
    nextAttempt := receptionTime ctx m.itemHash, trustedSource := true }

/-- Queue messages for processing. -/
def queueMessagesForProcessing (ctx : ChainSyncContext) (messages : List Message) : Db DbError Unit :=
  if messages.isEmpty then pure ()
  else execute fun n => { n with
    pendingMessages := messages.foldl (fun t m => t.insertNew (queued ctx m)) n.pendingMessages }

/-! ## Inserting -/

/-- The row of a message as it comes from the chain. -/
def syncedRow (m : Message) : MessageRow :=
  { itemHash := m.itemHash, messageType := m.messageType, chain := m.chain, sender := m.sender,
    signature := m.signature, itemType := m.itemType, itemContent := m.itemContent, channel := m.channel,
    time := m.time, status := "processed", receptionTime := none, owner := none, contentType := none,
    contentRef := none, contentKey := none, contentItemHash := none, paymentType := none }

/-- `INSERT … ON CONFLICT (item_hash) DO UPDATE SET item_content` where there is none. -/
def insertMessage (t : Table MessageRow MessageRow.itemHash) (m : Message) :
    Table MessageRow MessageRow.itemHash :=
  t.upsert (syncedRow m) fun r => { r with itemContent := r.itemContent.or m.itemContent }

/-- The message is new, or its row has no content: the insert affects it. -/
def Affected (n : Node) (m : Message) : Prop := ∀ r ∈ n.messages.rows, r.itemHash = m.itemHash → r.itemContent = none

instance (n : Node) (m : Message) : Decidable (Affected n m) :=
  inferInstanceAs (Decidable (∀ r ∈ n.messages.rows, _))

/-- Insert a chunk; the messages that were inserted or got a content. -/
def insertChunk (chunk : List Message) : Db DbError (List Message) :=
  sql fun n =>
    let affected := chunk.filter fun m => decide (Affected n m)
    if (affected.map Message.itemHash).Nodup then
      (.ok affected, { n with messages := chunk.foldl insertMessage n.messages })
    else (.error PgDatabase.affectedTwice, n)

/-- Insert and queue one chunk; the number of messages affected. -/
def insertAndQueue (ctx : ChainSyncContext) (chunk : List Message) : Db DbError Nat := do
  let affected ← insertChunk chunk
  queueMessagesForProcessing ctx affected
  pure affected.length

/-- The chunks one after another; an error ends the insertion. -/
def insertChunks (ctx : ChainSyncContext) : Nat → List (List Message) → Db DbError Nat
  | total, [] => pure total
  | total, chunk :: chunks => do
    let inserted ← insertAndQueue ctx chunk
    insertChunks ctx (total + inserted) chunks

/-- Insert messages and queue them for processing. -/
def batchInsertMessagesAndQueueOrdered (ctx : ChainSyncContext) (messages : List Message) : Db DbError Nat :=
  insertChunks ctx 0 (messages.toChunks dbBatchSize)

/-! ## A cycle -/

/-- The stored hashes among those of the messages. -/
def existingHashes : List (List Message) → Db DbError (List ItemHash)
  | [] => pure []
  | chunk :: chunks => do
    let found ← query fun n => (n.messages.rows.map MessageRow.itemHash).filter fun h =>
      decide (h ∈ chunk.map Message.itemHash)
    let rest ← existingHashes chunks
    pure (found ++ rest)

/-- Filter out messages that are stored; if the look-up fails, none. -/
def filterNewMessages (messages : List Message) : Db DbError (List Message) := do
  match ← attempt (existingHashes (messages.toChunks filterChunk)) with
  | .error (_ : DbError) => pure messages
  | .ok existing => pure (messages.filter fun m => decide (m.itemHash ∉ existing))

/-- The last message of each hash. -/
def dedupMessages (messages : List Message) : List Message :=
  messages.foldr (fun m seen => if ∃ m' ∈ seen, m'.itemHash = m.itemHash then seen else m :: seen) []

/-- The messages of a batch file that are worth a look. -/
def candidates (ctx : ChainSyncContext) (messages : List Message) : List Message :=
  (ctx.order.scan (dedupMessages messages)).filter fun m => decide (m.sender ∉ blacklistedSenders)

/-- Insert the new messages, first those with a content. -/
def syncMessages (ctx : ChainSyncContext) (messages : List Message) : Db DbError Nat := do
  let new ← filterNewMessages (candidates ctx messages)
  let inserted ← batchInsertMessagesAndQueueOrdered ctx (new.filter fun m => m.itemContent.isSome)
  let shells ← batchInsertMessagesAndQueueOrdered ctx (new.filter fun m => m.itemContent.isNone)
  pure (inserted + shells)

/-! ## Resolving contents -/

theorem rebuilt_itemHash (now : Timestamp) (r : MessageRow) (p : PendingMessageDb) :
    ({ p with message := ContentFetch.rowJson r, fetched := true, nextAttempt := now, retries := 0 } :
      PendingMessageDb).itemHash = p.itemHash := rfl

/-- Rebuild a pending message from the row of its hash; without a row the statement fails. -/
def rebuildPending (now : Timestamp) (itemHash : ItemHash) : Db DbError Unit :=
  sql fun n =>
    match n.messages.find? itemHash with
    | none => (.error "null value in column \"message\"", n)
    | some r => (.ok (), { n with
        pendingMessages := n.pendingMessages.update (·.itemHash = itemHash)
          (fun p => { p with message := ContentFetch.rowJson r, fetched := true, nextAttempt := now, retries := 0 })
          (rebuilt_itemHash now r) })

/-- Store one content from the gateway and make the pending message ready; errors are only logged. -/
def resolveOne (now : Timestamp) (itemHash : ItemHash) (content : String) : Db DbError Unit := do
  match ← attempt (ContentFetch.storeFetchedContent itemHash content) with
  | .error (_ : DbError) => pure ()
  | .ok () => ignore (rebuildPending now itemHash)

/-- Fill in what the gateway has returned for the shells. -/
def resolveAndUpdateContent (now : Timestamp) : List (ItemHash × Option String) → Db DbError Unit
  | [] => pure ()
  | (_, none) :: rest => resolveAndUpdateContent now rest
  | (itemHash, some content) :: rest => do
    resolveOne now itemHash content
    resolveAndUpdateContent now rest

end AlephCore.ChainSync
