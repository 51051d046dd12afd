import AlephCore.Chains.Ethereum
import AlephCore.Jobs.ChainSync
import AlephCore.Lib.Guarantee
import Mathlib.Data.List.Sort

/-!
# SyncLoops — the three loops that follow the chains

Mirrors `sync_chain`, `sync_chain_from_indexer_optimized` and `rpc_sync_cycle` of `jobs/chain_sync.rs` and the table
of `db/sync_state.rs`, one statement after another.  What the chain, the indexer and IPFS answer comes with the step,
and any statement may be refused.  A node runs one of the loops; it may be stopped and started with another one, and
its other jobs work on the database in between.
-/

namespace AlephCore.ChainSync

open BlockRange Ethereum Prog ProgE SyncFormat

/-! ## Batches and confirmations -/

/-- The identifier of the batch that an event names. -/
def cidOf (env : Env) (message : String) : Option String :=
  (env.fromStr SyncMessageContent.decode message).toOption.map SyncMessageContent.content

/-- A batch that was read from IPFS. -/
structure ReadBatch where
  cid : String
  messages : List Message

def readBatch (env : Env) (cid : String) (content : Option String) : Option ReadBatch :=
  (content.bind (batchMessages env)).map (ReadBatch.mk cid)

/-- The batches among the answers of IPFS, which are as many as the identifiers and in their order; what cannot be
fetched or parsed is passed over. -/
def readBatches (env : Env) (cids : List String) (fetched : List (Option String)) : List ReadBatch :=
  (List.zipWith (readBatch env) cids fetched).filterMap fun batch => batch

/-- An entry of `confirmation_data`. -/
structure Confirmation where
  itemHash : ItemHash
  txHash : String
  blockNumber : Nat
  deriving DecidableEq

/-- `cid_event_map`: the last event that names the batch. -/
def cidEventMap (env : Env) (events : List DecodedAlephSyncEvent) (cid : String) : Option DecodedAlephSyncEvent :=
  events.reverse.find? fun event => decide (cidOf env event.message = some cid)

/-- A confirmation of each message, by the event that is recorded for its batch. -/
def confirmationData (env : Env) (events : List DecodedAlephSyncEvent) (batches : List ReadBatch) :
    List Confirmation :=
  batches.flatMap fun batch => (cidEventMap env events batch.cid).toList.flatMap fun event =>
    batch.messages.map fun m => ⟨m.itemHash, event.txHash, event.blockNumber⟩

/-- `block_height_map`: the last block of each message. -/
def blockHeightMap (data : List Confirmation) (itemHash : ItemHash) : Option Nat :=
  (data.reverse.find? fun c => decide (c.itemHash = itemHash)).map Confirmation.blockNumber

/-- The row of a confirmation; the loop only runs for Ethereum. -/
def Confirmation.row (c : Confirmation) : ChainTxRow := ⟨c.txHash, "ETH", asI64 c.blockNumber, c.itemHash⟩

/-- Earlier blocks first. -/
def sortByBlock (ctx : ChainSyncContext) (messages : List Message) : List Message :=
  messages.insertionSort fun m m' =>
    (ctx.blockHeights m.itemHash).getD (2 ^ 64 - 1) ≤ (ctx.blockHeights m'.itemHash).getD (2 ^ 64 - 1)

/-- Insert the new messages by their blocks, first those with a content. -/
def rpcSyncMessages (ctx : ChainSyncContext) (messages : List Message) : Db DbError Nat := do
  let new ← filterNewMessages (candidates ctx messages)
  let sorted := sortByBlock ctx new
  let inserted ← batchInsertMessagesAndQueueOrdered ctx (sorted.filter fun m => m.itemContent.isSome)
  let shells ← batchInsertMessagesAndQueueOrdered ctx (sorted.filter fun m => m.itemContent.isNone)
  pure (inserted + shells)

/-! ## Cursors -/

/-- A row of `chain_sync_state`. -/
structure ChainSyncState where
  lastBlock : Int
  lastSyncTimestamp : Int
  deriving DecidableEq

abbrev SyncStates := Chain → Option ChainSyncState

/-- `get_last_block(..).unwrap_or(0)`. -/
def SyncStates.lastBlock (states : SyncStates) (chain : Chain) : Nat :=
  ((states chain).map fun state => asU64 state.lastBlock).getD 0

/-- `get_last_sync_timestamp(..).unwrap_or(0)`. -/
def SyncStates.lastSyncTimestamp (states : SyncStates) (chain : Chain) : Nat :=
  ((states chain).map fun state => asU64 state.lastSyncTimestamp).getD 0

/-- `INSERT … ON CONFLICT (chain) DO UPDATE SET last_block`. -/
def SyncStates.updateLastBlock (states : SyncStates) (chain : Chain) (block : Nat) : SyncStates :=
  Function.update states chain (some (((states chain).map fun state => { state with lastBlock := asI64 block }).getD
    ⟨asI64 block, 0⟩))

/-- `UPDATE … SET last_sync_timestamp`: without a row nothing is stored. -/
def SyncStates.updateLastSyncTimestamp (states : SyncStates) (chain : Chain) (timestamp : Nat) : SyncStates :=
  Function.update states chain ((states chain).map fun state => { state with lastSyncTimestamp := asI64 timestamp })

/-! ## Calls -/

/-- Blocks indexed by one call of `sync_chain`. -/
def maxBlocksPerBatch : Nat := 100

/-- Events of a page of the indexer. -/
def indexerLimit : Nat := 200

/-- What is left of an insertion. -/
abbrev Insertion := Prog Node DbError (Except DbError Nat)

/-- What a cycle of the RPC sync has fetched. -/
structure RpcFetch where
  events : List DecodedAlephSyncEvent
  endBlock : Nat
  batches : List ReadBatch

/-- What the indexer sync has fetched for a page; `now` is in milliseconds. -/
structure IndexerPage where
  now : Nat
  events : List IndexerSyncEvent
  batches : List ReadBatch

/-- What is left of the call of a loop. -/
inductive Call where
  | idle
  /-- `rpc_sync_cycle`: the insertion, then a row for each confirmation, then the cursor. -/
  | rpcInserting (fetch : RpcFetch) (rest : Insertion)
  | rpcConfirming (fetch : RpcFetch) (rest : List Confirmation)
  /-- `sync_chain_from_indexer_optimized`: the next page, its insertion, then the cursor. -/
  | indexerFetching (startTs now : Nat)
  | indexerInserting (page : IndexerPage) (rest : Insertion)
  | indexerAdvancing (page : IndexerPage)
  /-- `sync_chain`: the cursor, then the sync hashes. -/
  | blocksIndexed (chain : Chain) (result : IndexResult) (now : Timestamp)
  | queueing (rest : List ItemHash) (now : Timestamp)

/-- A call of `rpc_sync_cycle`, once the events and the batches have been fetched. -/
def rpcSyncCycle (env : Env) (order : SqlOrder) (now : Timestamp) (events : List DecodedAlephSyncEvent)
    (endBlock : Nat) (fetched : List (Option String)) : Call :=
  if events = [] then .idle
  else
    let cidsToFetch := extractIpfsCids env events
    if cidsToFetch = [] then .rpcConfirming ⟨events, endBlock, []⟩ []
    else
      let batches := readBatches env (cidsToFetch.map Prod.fst) fetched
      let ctx : ChainSyncContext := ⟨order, now, blockHeightMap (confirmationData env events batches)⟩
      .rpcInserting ⟨events, endBlock, batches⟩ (rpcSyncMessages ctx (batches.flatMap ReadBatch.messages)).run

/-- The identifiers that the events of a page name. -/
def cidsToFetch (env : Env) (events : List IndexerSyncEvent) : List String :=
  events.filterMap fun event => (parseSyncMessage env event.message).toOption.map SyncMessageContent.content

/-- A page of the indexer, once its events and batches have been fetched. -/
def indexerPage (env : Env) (order : SqlOrder) (now : Timestamp) (nowMs : Nat) (events : List IndexerSyncEvent)
    (fetched : List (Option String)) : Call :=
  if events = [] then .idle
  else
    let batches := readBatches env (cidsToFetch env events) fetched
    .indexerInserting ⟨nowMs, events, batches⟩
      (syncMessages ⟨order, now, fun _ => none⟩ (batches.flatMap ReadBatch.messages)).run

/-- The range of blocks that `sync_chain` asks for; none if there are no new blocks, or at the end of the words. -/
def blocksToIndex (lastSynced currentBlock : Nat) : Option (Nat × Nat) :=
  if currentBlock ≤ lastSynced then none
  else (add (lastSynced + 1) maxBlocksPerBatch).map fun past => (lastSynced + 1, min (past - 1) currentBlock)

/-- The message that stands for the batch of a sync hash. -/
def syncBatchMessage (now : Timestamp) (itemHash : ItemHash) : PendingMessageDb :=
  { itemHash, message := .obj [("_sync_batch", .bool true), ("item_hash", .str itemHash)], receptionTime := now,
    fetched := false, checkMessage := true, retries := 0, nextAttempt := now, trustedSource := true }

/-! ## Steps -/

/-- An event whose batch was read. -/
structure BatchEvent where
  txHash : String
  height : Nat
  itemHashes : List ItemHash
  deriving DecidableEq

/-- The event with each batch that was read under its identifier. -/
def batchEvents (env : Env) (batches : List ReadBatch) (message txHash : String) (height : Nat) : List BatchEvent :=
  (batches.filter fun batch => decide (cidOf env message = some batch.cid)).map fun batch =>
    ⟨txHash, height, batch.messages.map Message.itemHash⟩

def RpcFetch.batchEvents (env : Env) (fetch : RpcFetch) : List BatchEvent :=
  fetch.events.flatMap fun event =>
    ChainSync.batchEvents env fetch.batches event.message event.txHash event.blockNumber

def IndexerPage.batchEvents (env : Env) (page : IndexerPage) : List BatchEvent :=
  page.events.flatMap fun event =>
    ChainSync.batchEvents env page.batches event.message event.transaction event.height

structure SyncWorld where
  node : Node
  syncStates : SyncStates
  call : Call
  /-- The events the cursor of the RPC sync or of the indexer sync has passed, and whose batch was read; the
  confirmations the RPC sync has tried to insert; and the hashes that have been pending.  The source keeps none of
  these. -/
  passed : List BatchEvent
  tried : List Confirmation
  queued : List ItemHash

/-- The database changes. -/
def SyncWorld.setNode (w : SyncWorld) (node : Node) : SyncWorld :=
  { w with node, queued := node.pendingMessages.rows.map PendingMessageDb.itemHash ++ w.queued }

def SyncWorld.insertChainTx (w : SyncWorld) (c : Confirmation) : SyncWorld :=
  w.setNode { w.node with chainTxs := w.node.chainTxs.insertNew c.row }

def SyncWorld.insertSyncHash (w : SyncWorld) (now : Timestamp) (itemHash : ItemHash) : SyncWorld :=
  w.setNode { w.node with pendingMessages := w.node.pendingMessages.insertNew (syncBatchMessage now itemHash) }

/-- The end of a cycle: the cursor goes to the last block that was fetched. -/
def SyncWorld.updateLastRpcBlock (env : Env) (w : SyncWorld) (fetch : RpcFetch) : SyncWorld :=
  { w with
    syncStates := w.syncStates.updateLastBlock .eth fetch.endBlock
    call := .idle
    passed := fetch.batchEvents env ++ w.passed }

/-- The end of a page: the cursor goes behind its last event, and the next page follows on a full one. -/
def SyncWorld.updateLastSyncTimestamp (env : Env) (w : SyncWorld) (page : IndexerPage) (nextTs : Nat) : SyncWorld :=
  { w with
    syncStates := w.syncStates.updateLastSyncTimestamp .eth nextTs
    call := if page.events.length < indexerLimit then .idle else .indexerFetching nextTs page.now
    passed := page.batchEvents env ++ w.passed }

/-- Who makes the next step, and what is answered. -/
inductive Label where
  | rpcFetched (events : List DecodedAlephSyncEvent) (endBlock : Nat) (fetched : List (Option String))
  /-- The next statement of an insertion, and its return. -/
  | insert
  | inserted
  | insertChainTx (ok : Bool)
  | updateLastRpcBlock (ok : Bool)
  | indexerBegin (nowMs : Nat)
  | indexerFetched (events : List IndexerSyncEvent) (fetched : List (Option String))
  | updateLastSyncTimestamp (ok : Bool)
  | indexed (chain : Chain) (currentBlock : Nat) (result : IndexResult)
  | updateLastBlock (ok : Bool)
  | insertSyncHash (ok : Bool)
  /-- The call returns, a request fails and ends it, or the node is stopped. -/
  | ended
  | other (node : Node)

/-- One step. -/
inductive Step (env : Env) : Label → SyncWorld → SyncWorld → Prop
  | rpcFetched {w : SyncWorld} {events : List DecodedAlephSyncEvent} {endBlock : Nat}
      {fetched : List (Option String)} (order : SqlOrder) (now : Timestamp) (h : w.call = .idle) :
      Step env (.rpcFetched events endBlock fetched) w
        { w with call := rpcSyncCycle env order now events endBlock fetched }
  | rpcInsert {w : SyncWorld} {fetch : RpcFetch} {rest rest' : Insertion} {node : Node}
      (h : w.call = .rpcInserting fetch rest) (hnext : Next rest w.node rest' node) :
      Step env .insert w { w.setNode node with call := .rpcInserting fetch rest' }
  | rpcInserted {w : SyncWorld} {fetch : RpcFetch} {count : Nat}
      (h : w.call = .rpcInserting fetch (.pure (.ok count))) :
      Step env .inserted w
        { w with call := .rpcConfirming fetch (confirmationData env fetch.events fetch.batches) }
  | insertChainTx {w : SyncWorld} {fetch : RpcFetch} {c : Confirmation} {rest : List Confirmation}
      (h : w.call = .rpcConfirming fetch (c :: rest)) :
      Step env (.insertChainTx true) w
        { w.insertChainTx c with call := .rpcConfirming fetch rest, tried := c :: w.tried }
  | chainTxRefused {w : SyncWorld} {fetch : RpcFetch} {c : Confirmation} {rest : List Confirmation}
      (h : w.call = .rpcConfirming fetch (c :: rest)) :
      Step env (.insertChainTx false) w { w with call := .rpcConfirming fetch rest, tried := c :: w.tried }
  | updateLastRpcBlock {w : SyncWorld} {fetch : RpcFetch} (h : w.call = .rpcConfirming fetch []) :
      Step env (.updateLastRpcBlock true) w (w.updateLastRpcBlock env fetch)
  | rpcBlockRefused {w : SyncWorld} {fetch : RpcFetch} (h : w.call = .rpcConfirming fetch []) :
      Step env (.updateLastRpcBlock false) w { w with call := .idle }
  | indexerBegin {w : SyncWorld} {nowMs : Nat} (h : w.call = .idle) :
      Step env (.indexerBegin nowMs) w
        { w with call := .indexerFetching (w.syncStates.lastSyncTimestamp .eth) nowMs }
  | indexerFetched {w : SyncWorld} {startTs nowMs : Nat} {events : List IndexerSyncEvent}
      {fetched : List (Option String)} (order : SqlOrder) (now : Timestamp)
      (h : w.call = .indexerFetching startTs nowMs) :
      Step env (.indexerFetched events fetched) w
        { w with call := indexerPage env order now nowMs events fetched }
  | indexerInsert {w : SyncWorld} {page : IndexerPage} {rest rest' : Insertion} {node : Node}
      (h : w.call = .indexerInserting page rest) (hnext : Next rest w.node rest' node) :
      Step env .insert w { w.setNode node with call := .indexerInserting page rest' }
  | indexerInserted {w : SyncWorld} {page : IndexerPage} {count : Nat}
      (h : w.call = .indexerInserting page (.pure (.ok count))) :
      Step env .inserted w { w with call := .indexerAdvancing page }
  | updateLastSyncTimestamp {w : SyncWorld} {page : IndexerPage} {last : IndexerSyncEvent} {nextTs : Nat}
      (h : w.call = .indexerAdvancing page) (hlast : page.events.getLast? = some last)
      (hnext : add last.timestamp 1 = some nextTs) :
      Step env (.updateLastSyncTimestamp true) w (w.updateLastSyncTimestamp env page nextTs)
  | timestampRefused {w : SyncWorld} {page : IndexerPage} (h : w.call = .indexerAdvancing page) :
      Step env (.updateLastSyncTimestamp false) w { w with call := .idle }
  | indexed {w : SyncWorld} {chain : Chain} {currentBlock : Nat} {result : IndexResult} (now : Timestamp)
      (h : w.call = .idle) (hrange : (blocksToIndex (w.syncStates.lastBlock chain) currentBlock).isSome) :
      Step env (.indexed chain currentBlock result) w { w with call := .blocksIndexed chain result now }
  | updateLastBlock {w : SyncWorld} {chain : Chain} {result : IndexResult} {now : Timestamp}
      (h : w.call = .blocksIndexed chain result now) :
      Step env (.updateLastBlock true) w
        { w with
          syncStates := w.syncStates.updateLastBlock chain result.lastBlock
          call := .queueing result.syncHashes now }
  | lastBlockRefused {w : SyncWorld} {chain : Chain} {result : IndexResult} {now : Timestamp}
      (h : w.call = .blocksIndexed chain result now) : Step env (.updateLastBlock false) w { w with call := .idle }
  | insertSyncHash {w : SyncWorld} {itemHash : ItemHash} {rest : List ItemHash} {now : Timestamp}
      (h : w.call = .queueing (itemHash :: rest) now) :
      Step env (.insertSyncHash true) w { w.insertSyncHash now itemHash with call := .queueing rest now }
  | syncHashRefused {w : SyncWorld} {itemHash : ItemHash} {rest : List ItemHash} {now : Timestamp}
      (h : w.call = .queueing (itemHash :: rest) now) :
      Step env (.insertSyncHash false) w { w with call := .queueing rest now }
  | ended {w : SyncWorld} : Step env .ended w { w with call := .idle }
  | other {w : SyncWorld} (node : Node) : Step env (.other node) w (w.setNode node)

/-- Runs whose steps meet a condition. -/
inductive Run (env : Env) (guard : Label → SyncWorld → SyncWorld → Prop) (w : SyncWorld) : SyncWorld → Prop
  | refl : Run env guard w w
  | step {w' w'' : SyncWorld} {label : Label} (run : Run env guard w w') (hguard : guard label w' w'')
      (h : Step env label w' w'') : Run env guard w w''

end AlephCore.ChainSync
