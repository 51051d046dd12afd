import AlephCore.Jobs.CrashSafety
import AlephCore.Jobs.SyncLoops

/-!
# SyncConfirmations — the transactions of the events a cursor has passed

The RPC sync records one event for each identifier of a batch, and goes on where an insertion into `chain_txs` fails;
the indexer sync records nothing.  In runs that meet with neither, and in which nobody takes a recorded row away from
a message that stays, every message of a batch that was read has its row once the cursor has passed the event.
-/

namespace AlephCore.ChainSync

open BlockRange Prog ProgE SyncFormat

/-! ## Complete confirmations -/

/-- Every stored message of a passed event has a row with the transaction, the chain and the height of the event. -/
def Complete (w : SyncWorld) : Prop :=
  ∀ e ∈ w.passed, ∀ itemHash ∈ e.itemHashes, Stored w.node itemHash →
    ⟨e.txHash, "ETH", asI64 e.height, itemHash⟩ ∈ w.node.chainTxs

/-- No batch of messages that was read is named by two events of the cycle, unless these are in one transaction. -/
def RpcFetch.EachOnce (env : Env) (fetch : RpcFetch) : Prop :=
  ∀ batch ∈ fetch.batches, batch.messages ≠ [] → ∀ event ∈ fetch.events, ∀ event' ∈ fetch.events,
    cidOf env event.message = some batch.cid → cidOf env event'.message = some batch.cid →
      event.txHash = event'.txHash ∧ event.blockNumber = event'.blockNumber

/-- No other row is in the way of a confirmation. -/
def NoConflict (n : Node) (c : Confirmation) : Prop :=
  ∀ row ∈ n.chainTxs, row.hash = c.txHash → row.itemHash = c.itemHash → row = c.row

/-- No confirmation of a message that stays is deleted or altered. -/
def NoneLost (w : SyncWorld) (node : Node) : Prop :=
  ∀ c ∈ w.tried, c.row ∈ w.node.chainTxs → Stored node c.itemHash → c.row ∈ node.chainTxs

/-- No message comes in that lacks a confirmation. -/
def NoneBack (w : SyncWorld) (node : Node) : Prop :=
  ∀ c ∈ w.tried, Stored node c.itemHash → Stored w.node c.itemHash ∨ c.row ∈ w.node.chainTxs

/-- **A careful step**: a confirmation of a stored message is inserted, and meets no other row; the cursor of the RPC
sync moves after a cycle in which no two events name a batch, the one of the indexer sync over events that the RPC
sync has passed or that have no messages; and the database loses no confirmation of a message that is stored. -/
def Careful (env : Env) : Label → SyncWorld → SyncWorld → Prop
  | .insert, w, w' => NoneBack w w'.node
  | .insertChainTx ok, w, _ => ∀ fetch c rest, w.call = .rpcConfirming fetch (c :: rest) →
      Stored w.node c.itemHash → ok = true ∧ NoConflict w.node c
  | .updateLastRpcBlock true, w, _ => ∀ fetch, w.call = .rpcConfirming fetch [] → fetch.EachOnce env
  | .updateLastSyncTimestamp true, w, _ => ∀ page, w.call = .indexerAdvancing page →
      ∀ e ∈ page.batchEvents env, e.itemHashes = [] ∨ e ∈ w.passed
  | .other node, w, _ => NoneLost w node ∧ NoneBack w node
  | _, _, _ => True

/-! ## The insertion of messages -/

/-- The confirmations stay as they are. -/
def SameChainTxs (n n' : Node) : Prop := n'.chainTxs = n.chainTxs

instance : Std.Refl SameChainTxs := ⟨fun _ => rfl⟩

theorem moves_existingHashes (chunks : List (List Message)) : Moves SameChainTxs (existingHashes chunks).run := by
  induction chunks with
  | nil => exact moves_pure []
  | cons chunk chunks ih => exact moves_bind (moves_query _) fun _ => moves_bind ih fun _ => moves_pure _

theorem moves_filterNewMessages (messages : List Message) : Moves SameChainTxs (filterNewMessages messages).run := by
  refine moves_bind (moves_attempt (moves_existingHashes _)) fun r => ?_
  cases r with
  | error e => exact moves_pure _
  | ok existing => exact moves_pure _

theorem moves_insertAndQueue (ctx : ChainSyncContext) (chunk : List Message) :
    Moves SameChainTxs (insertAndQueue ctx chunk).run := by
  have hinsert : Moves SameChainTxs (insertChunk chunk).run := by
    refine moves_sql fun n => ?_
    dsimp only
    split_ifs
    · rfl
    · rfl
  refine moves_bind hinsert fun affected => moves_bind ?_ fun _ => moves_pure _
  unfold queueMessagesForProcessing
  split_ifs
  · exact moves_pure ()
  · exact moves_execute fun n => rfl

theorem moves_insertChunks (ctx : ChainSyncContext) (total : Nat) (chunks : List (List Message)) :
    Moves SameChainTxs (insertChunks ctx total chunks).run := by
  induction chunks generalizing total with
  | nil => exact moves_pure total
  | cons chunk chunks ih => exact moves_bind (moves_insertAndQueue ctx chunk) fun _ => ih _

theorem moves_rpcSyncMessages (ctx : ChainSyncContext) (messages : List Message) :
    Moves SameChainTxs (rpcSyncMessages ctx messages).run :=
  moves_bind (moves_filterNewMessages _) fun _ => moves_bind (moves_insertChunks _ _ _) fun _ =>
    moves_bind (moves_insertChunks _ _ _) fun _ => moves_pure _

theorem moves_syncMessages (ctx : ChainSyncContext) (messages : List Message) :
    Moves SameChainTxs (syncMessages ctx messages).run :=
  moves_bind (moves_filterNewMessages _) fun _ => moves_bind (moves_insertChunks _ _ _) fun _ =>
    moves_bind (moves_insertChunks _ _ _) fun _ => moves_pure _

/-! ## What every step keeps -/

/-- What is left of an insertion leaves the confirmations alone. -/
def Call.Inserts : Call → Prop
  | .rpcInserting _ rest => Moves SameChainTxs rest
  | .indexerInserting _ rest => Moves SameChainTxs rest
  | _ => True

/-- The confirmations that were tried are there for the messages that are stored, they are enough for the passed
events, and what is missing for those of a cycle is still to come. -/
structure Confirms (env : Env) (w : SyncWorld) : Prop where
  kept : ∀ c ∈ w.tried, Stored w.node c.itemHash → c.row ∈ w.node.chainTxs
  recorded : ∀ e ∈ w.passed, ∀ itemHash ∈ e.itemHashes, ⟨itemHash, e.txHash, e.height⟩ ∈ w.tried
  confirming : ∀ fetch rest, w.call = .rpcConfirming fetch rest →
    ∀ c ∈ confirmationData env fetch.events fetch.batches, c ∈ w.tried ∨ c ∈ rest
  inserts : w.call.Inserts

variable {env : Env} {w w' : SyncWorld} {label : Label}

theorem Confirms.complete (h : Confirms env w) : Complete w :=
  fun e he itemHash hmem hstored => h.kept _ (h.recorded e he itemHash hmem) hstored

/-- The call goes on, and no confirmation is tried. -/
theorem Confirms.goes {call : Call} (h : Confirms env w) (hinserts : call.Inserts)
    (hconfirming : ∀ fetch rest, call = .rpcConfirming fetch rest →
      ∀ c ∈ confirmationData env fetch.events fetch.batches, c ∈ rest) : Confirms env { w with call := call } where
  kept := h.kept
  recorded := h.recorded
  confirming fetch rest hcall c hc := .inr (hconfirming fetch rest hcall c hc)
  inserts := hinserts

theorem Confirms.idle (h : Confirms env w) : Confirms env { w with call := .idle } :=
  h.goes trivial fun _ _ hcall => (by cases hcall)

/-- The database changes without losing a confirmation. -/
theorem Confirms.setNode {node : Node} (h : Confirms env w) (hlost : NoneLost w node) (hback : NoneBack w node) :
    Confirms env (w.setNode node) where
  kept c hc hstored := by
    rcases hback c hc hstored with hold | hrow
    · exact hlost c hc (h.kept c hc hold) hstored
    · exact hlost c hc hrow hstored
  recorded := h.recorded
  confirming := h.confirming
  inserts := h.inserts

/-- A statement of an insertion. -/
theorem Confirms.insert {call : Call} {rest rest' : Insertion} {node : Node} (h : Confirms env w)
    (hmoves : Moves SameChainTxs rest) (hnext : Next rest w.node rest' node) (hback : NoneBack w node)
    (hinserts : Moves SameChainTxs rest' → call.Inserts)
    (hcall : ∀ fetch rest, call ≠ .rpcConfirming fetch rest) :
    Confirms env { w.setNode node with call := call } := by
  obtain ⟨hsame, hmoves'⟩ := hmoves.next hnext
  have hlost : NoneLost w node := fun c _ hrow _ => hsame ▸ hrow
  exact (h.setNode hlost hback).goes (hinserts hmoves') fun fetch rest hcall' => absurd hcall' (hcall fetch rest)

/-- A confirmation is tried; it has its row afterwards if its message is stored. -/
theorem Confirms.tries {fetch : RpcFetch} {c : Confirmation} {rest : List Confirmation} (node : Node)
    (h : Confirms env w) (hcall : w.call = .rpcConfirming fetch (c :: rest))
    (hstored : ∀ itemHash, Stored node itemHash ↔ Stored w.node itemHash)
    (hkeeps : ∀ row ∈ w.node.chainTxs, row ∈ node.chainTxs)
    (hrow : Stored w.node c.itemHash → c.row ∈ node.chainTxs) {queued : List ItemHash} :
    Confirms env ⟨node, w.syncStates, .rpcConfirming fetch rest, w.passed, c :: w.tried, queued⟩ where
  kept c' hc' hold := by
    rcases List.mem_cons.1 hc' with rfl | hc'
    · exact hrow ((hstored _).1 hold)
    · exact hkeeps _ (h.kept c' hc' ((hstored _).1 hold))
  recorded e he itemHash hmem := List.mem_cons_of_mem _ (h.recorded e he itemHash hmem)
  confirming fetch' rest' hcall' c' hc' := by
    cases hcall'
    rcases h.confirming _ _ hcall c' hc' with htried | hrest
    · exact .inl (List.mem_cons_of_mem _ htried)
    · rcases List.mem_cons.1 hrest with rfl | hrest
      · exact .inl List.mem_cons_self
      · exact .inr hrest
  inserts := trivial

/-- After an insertion that meets no other row the row is there. -/
theorem row_mem_insertNew {n : Node} {c : Confirmation} (h : NoConflict n c) : c.row ∈ n.chainTxs.insertNew c.row := by
  rw [Table.mem_insertNew]
  by_cases hclash : ∃ row ∈ n.chainTxs, row.hash = c.txHash ∧ row.itemHash = c.itemHash
  · obtain ⟨row, hrow, hhash, hitem⟩ := hclash
    exact .inl (h row hrow hhash hitem ▸ hrow)
  · refine .inr ⟨rfl, fun row hrow hkey => hclash ⟨row, hrow, ?_⟩⟩
    exact ⟨congrArg Prod.fst hkey, congrArg Prod.snd hkey⟩

/-- **A cycle in which no two events name a batch** confirms each message of each event whose batch was read. -/
theorem mem_confirmationData {fetch : RpcFetch} (honce : fetch.EachOnce env) {e : BatchEvent}
    (he : e ∈ fetch.batchEvents env) {itemHash : ItemHash} (hmem : itemHash ∈ e.itemHashes) :
    ⟨itemHash, e.txHash, e.height⟩ ∈ confirmationData env fetch.events fetch.batches := by
  obtain ⟨event, hevent, he⟩ := List.mem_flatMap.1 he
  obtain ⟨batch, hbatch, rfl⟩ := List.mem_map.1 he
  obtain ⟨hbatch, hcid⟩ := List.mem_filter.1 hbatch
  replace hcid : cidOf env event.message = some batch.cid := of_decide_eq_true hcid
  obtain ⟨m, hm, rfl⟩ := List.mem_map.1 hmem
  cases hlast : cidEventMap env fetch.events batch.cid with
  | none =>
    have hnone := List.find?_eq_none.1 hlast event (List.mem_reverse.2 hevent)
    exact absurd (decide_eq_true hcid) hnone
  | some event' =>
    have hevent' : event' ∈ fetch.events := List.mem_reverse.1 (List.mem_of_find?_eq_some hlast)
    have hcid' : cidOf env event'.message = some batch.cid := by
      unfold cidEventMap at hlast
      exact of_decide_eq_true
        (List.find?_some (p := fun e : DecodedAlephSyncEvent => decide (cidOf env e.message = _)) hlast)
    obtain ⟨htx, hblock⟩ := honce batch hbatch (List.ne_nil_of_mem hm) event hevent event' hevent' hcid hcid'
    refine List.mem_flatMap.2 ⟨batch, hbatch, List.mem_flatMap.2 ⟨event', ?_, List.mem_map.2 ⟨m, hm, ?_⟩⟩⟩
    · rw [hlast]
      exact List.mem_singleton_self event'
    · rw [htx, hblock]

theorem inserts_rpcSyncCycle {order : SqlOrder} {now : Timestamp} {events : List DecodedAlephSyncEvent}
    {endBlock : Nat} {fetched : List (Option String)} :
    (rpcSyncCycle env order now events endBlock fetched).Inserts ∧
      ∀ fetch rest, rpcSyncCycle env order now events endBlock fetched = .rpcConfirming fetch rest →
        ∀ c ∈ confirmationData env fetch.events fetch.batches, c ∈ rest := by
  unfold rpcSyncCycle
  dsimp only
  split_ifs
  · exact ⟨trivial, fun fetch rest hcall => (by cases hcall)⟩
  · refine ⟨trivial, fun fetch rest hcall c hc => ?_⟩
    cases hcall
    exact absurd hc List.not_mem_nil
  · exact ⟨moves_rpcSyncMessages _ _, fun fetch rest hcall => (by cases hcall)⟩

theorem inserts_indexerPage {order : SqlOrder} {now : Timestamp} {nowMs : Nat} {events : List IndexerSyncEvent}
    {fetched : List (Option String)} :
    (indexerPage env order now nowMs events fetched).Inserts ∧
      ∀ fetch rest, indexerPage env order now nowMs events fetched ≠ .rpcConfirming fetch rest := by
  unfold indexerPage
  split_ifs
  · exact ⟨trivial, fun fetch rest hcall => (by cases hcall)⟩
  · exact ⟨moves_syncMessages _ _, fun fetch rest hcall => (by cases hcall)⟩

/-- **A careful step** keeps the confirmations complete. -/
theorem Confirms.step (h : Confirms env w) (careful : Careful env label w w') (hstep : Step env label w w') :
    Confirms env w' := by
  cases hstep with
  | rpcFetched order now hidle =>
    exact h.goes inserts_rpcSyncCycle.1 inserts_rpcSyncCycle.2
  | rpcInsert hcall hnext =>
    have hmoves : (Call.rpcInserting _ _).Inserts := hcall ▸ h.inserts
    exact h.insert hmoves hnext careful id fun _ _ hcall => (by cases hcall)
  | rpcInserted hcall =>
    refine h.goes trivial fun fetch rest hcall' c hc => ?_
    cases hcall'
    exact hc
  | @insertChainTx _ fetch c rest hcall =>
    refine h.tries { w.node with chainTxs := w.node.chainTxs.insertNew c.row } hcall (fun _ => Iff.rfl)
      (fun row hrow => Table.mem_insertNew.2 (.inl hrow)) fun hstored => ?_
    exact row_mem_insertNew (careful _ _ _ hcall hstored).2
  | chainTxRefused hcall =>
    refine h.tries w.node hcall (fun _ => Iff.rfl) (fun _ hrow => hrow) fun hstored => ?_
    cases (careful _ _ _ hcall hstored).1
  | updateLastRpcBlock hcall =>
    refine ⟨h.kept, fun e he itemHash hmem => ?_, fun _ _ hcall => (by cases hcall), trivial⟩
    rcases List.mem_append.1 he with hnew | hold
    · rcases h.confirming _ _ hcall _ (mem_confirmationData (careful _ hcall) hnew hmem) with htried | hrest
      · exact htried
      · exact absurd hrest List.not_mem_nil
    · exact h.recorded e hold itemHash hmem
  | rpcBlockRefused hcall => exact h.idle
  | indexerBegin hidle => exact h.goes trivial fun _ _ hcall => (by cases hcall)
  | indexerFetched order now hcall =>
    exact h.goes inserts_indexerPage.1 fun fetch rest hcall => absurd hcall (inserts_indexerPage.2 fetch rest)
  | indexerInsert hcall hnext =>
    have hmoves : (Call.indexerInserting _ _).Inserts := hcall ▸ h.inserts
    exact h.insert hmoves hnext careful id fun _ _ hcall => (by cases hcall)
  | indexerInserted hcall => exact h.goes trivial fun _ _ hcall => (by cases hcall)
  | updateLastSyncTimestamp hcall hlast hnext =>
    have hpassed : ∀ e ∈ w.passed, ∀ itemHash ∈ e.itemHashes, ⟨itemHash, e.txHash, e.height⟩ ∈ w.tried := h.recorded
    refine ⟨h.kept, fun e he itemHash hmem => ?_, ?_, ?_⟩
    · rcases List.mem_append.1 he with hnew | hold
      · rcases careful _ hcall e hnew with hempty | hold
        · rw [hempty] at hmem
          exact absurd hmem List.not_mem_nil
        · exact hpassed e hold itemHash hmem
      · exact hpassed e hold itemHash hmem
    · intro fetch rest hcall'
      unfold SyncWorld.updateLastSyncTimestamp at hcall'
      dsimp only at hcall'
      split_ifs at hcall'
    · unfold SyncWorld.updateLastSyncTimestamp
      dsimp only
      split_ifs
      · trivial
      · trivial
  | timestampRefused hcall => exact h.idle
  | indexed now hidle hrange => exact h.goes trivial fun _ _ hcall => (by cases hcall)
  | updateLastBlock hcall => exact ⟨h.kept, h.recorded, fun _ _ hcall => (by cases hcall), trivial⟩
  | lastBlockRefused hcall => exact h.idle
  | @insertSyncHash _ itemHash rest now hcall =>
    have hset : Confirms env (w.insertSyncHash now itemHash) :=
      h.setNode (fun c _ hrow _ => hrow) fun c _ hstored => .inl hstored
    exact hset.goes trivial fun _ _ hcall => (by cases hcall)
  | syncHashRefused hcall => exact h.goes trivial fun _ _ hcall => (by cases hcall)
  | ended => exact h.idle
  | other node => exact h.setNode careful.1 careful.2

/-- A node that is started; the database and the cursors may have any past. -/
structure Initial (w : SyncWorld) : Prop where
  call : w.call = .idle
  passed : w.passed = []
  tried : w.tried = []

theorem Confirms.initial (h : Initial w) : Confirms env w where
  kept c hc := by
    rw [h.tried] at hc
    exact absurd hc List.not_mem_nil
  recorded e he := by
    rw [h.passed] at he
    exact absurd he List.not_mem_nil
  confirming fetch rest hcall := by
    rw [h.call] at hcall
    cases hcall
  inserts := by
    rw [h.call]
    trivial

theorem Confirms.of_run (run : Run env (Careful env) w w') (h : Confirms env w) : Confirms env w' := by
  induction run with
  | refl => exact h
  | step run careful hstep ih => exact ih.step careful hstep

/-- **Confirmations are complete in a careful run**: once a cursor has passed an event whose batch was read, every
stored message of the batch has a row with the transaction of the event. -/
theorem complete_of_run (env : Env) (h : Initial w) (run : Run env (Careful env) w w') : Complete w' :=
  ((Confirms.initial h).of_run run).complete

/-! ## Cycles that lose confirmations -/

section Sample

variable {guard : Label → SyncWorld → SyncWorld → Prop}

/-- An insertion that is not disturbed. -/
theorem Run.inserts {fetch : RpcFetch} {q : Insertion} {n node : Node} {r : Except DbError Nat}
    (hexec : Exec q n r node) (hguard : ∀ u u' : SyncWorld, u.tried = [] → guard .insert u u')
    (run : Run env guard w w') (hnode : w'.node = n) (hcall : w'.call = .rpcInserting fetch q)
    (htried : w'.tried = []) :
    ∃ w'', Run env guard w w'' ∧ w''.node = node ∧ w''.call = .rpcInserting fetch (.pure r) ∧ w''.tried = [] ∧
      w''.passed = w'.passed := by
  induction hexec generalizing w' with
  | pure a s => exact ⟨w', run, hnode, hcall, htried, rfl⟩
  | @step ρ f k s s' a _ ih =>
    have hnext : Next (.stmt f k) w'.node (k (f s).1) (f s).2 := hnode ▸ .answered f k s
    have hrun := run.step (hguard _ _ htried) (.rpcInsert hcall hnext)
    have hrest := ih hrun rfl rfl htried
    exact hrest
  | @refused ρ f k s s' a e _ ih =>
    have hnext : Next (.stmt f k) w'.node (k (.error e)) s := hnode ▸ .refused f k s e
    have hrun := run.step (hguard _ _ htried) (.rpcInsert hcall hnext)
    have hrest := ih hrun rfl rfl htried
    exact hrest

def eventText : String := "\x7b\"protocol\":\"aleph-offchain\",\"version\":1,\"content\":\"QmBatch\"\x7d"

def batchMessage : Message where
  messageType := .post
  chain := .eth
  sender := "0x1234567890123456789012345678901234567890"
  signature := "0x01"
  itemType := .storage
  itemHash := "5f1e28a1b7a4a2cf5d1a54c3bb6a8f5a1b5d7b7cbe10d97a3a0f5f1c2a1b3c4d"
  itemContent := none
  channel := some "TEST"
  time := 1700000000

/-- An event that names a batch, and the batch. -/
def sampleEnv : Env :=
  .ofTables [
    (eventText, .obj [("protocol", .str "aleph-offchain"), ("version", .num (.int 1)), ("content", .str "QmBatch")]),
    ("batch", .obj [("protocol", .str "aleph-offchain"), ("version", .num (.int 1)),
      ("content", .obj [("messages", .arr [batchMessage.toJson])])])] [] []

def firstEvent : DecodedAlephSyncEvent :=
  ⟨1700000100, "0x23eC28598DCeB2f7082Cc3a9D670592DfEd6e0dC", eventText, 100, "0xaa"⟩

/-- The same batch once more. -/
def secondEvent : DecodedAlephSyncEvent :=
  { firstEvent with timestamp := 1700000200, blockNumber := 101, txHash := "0xbb" }

/-- A node with an empty database. -/
def started : SyncWorld := ⟨.empty, fun _ => none, .idle, [], [], []⟩

theorem started_initial : Initial started := ⟨rfl, rfl, rfl⟩

/-- The insertion of the batch. -/
def sampleInsertion (data : List Confirmation) : Insertion :=
  (rpcSyncMessages ⟨.stored, 1700000300, blockHeightMap data⟩ [batchMessage]).run

def firstData : List Confirmation := [⟨batchMessage.itemHash, "0xaa", 100⟩]

/-- The second event is recorded for both copies of the batch. -/
def bothData : List Confirmation := [⟨batchMessage.itemHash, "0xbb", 101⟩, ⟨batchMessage.itemHash, "0xbb", 101⟩]

theorem rpcSyncCycle_first : rpcSyncCycle sampleEnv .stored 1700000300 [firstEvent] 100 [some "batch"] =
    .rpcInserting ⟨[firstEvent], 100, [⟨"QmBatch", [batchMessage]⟩]⟩
      (sampleInsertion firstData) := by
  rfl

theorem rpcSyncCycle_both :
    rpcSyncCycle sampleEnv .stored 1700000300 [firstEvent, secondEvent] 101 [some "batch", some "batch"] =
    .rpcInserting ⟨[firstEvent, secondEvent], 101, [⟨"QmBatch", [batchMessage]⟩, ⟨"QmBatch", [batchMessage]⟩]⟩
      (sampleInsertion bothData) := by
  rfl

/-- A cycle up to its confirmations. -/
theorem Run.confirms {events : List DecodedAlephSyncEvent} {endBlock : Nat} {fetched : List (Option String)}
    {fetch : RpcFetch} {data : List Confirmation}
    (hcycle : rpcSyncCycle sampleEnv .stored 1700000300 events endBlock fetched =
      .rpcInserting fetch (sampleInsertion data))
    (hok : ((sampleInsertion data).run .empty).1 = .ok 1)
    (hfetched : ∀ u u', guard (.rpcFetched events endBlock fetched) u u')
    (hinsert : ∀ u u' : SyncWorld, u.tried = [] → guard .insert u u')
    (hinserted : ∀ u u', guard .inserted u u') :
    ∃ w, Run sampleEnv guard started w ∧ w.node = ((sampleInsertion data).run .empty).2 ∧
      w.call = .rpcConfirming fetch (confirmationData sampleEnv fetch.events fetch.batches) ∧ w.tried = [] ∧
      w.passed = [] := by
  have hexec := exec_run (sampleInsertion data) .empty
  rw [hok] at hexec
  have hstart : Run sampleEnv guard started started := .refl
  have hfetch := hstart.step (hfetched _ _) (.rpcFetched .stored 1700000300 rfl)
  obtain ⟨w, hrun, hnode, hcall, htried, hpassed⟩ := Run.inserts hexec hinsert hfetch rfl hcycle rfl
  exact ⟨_, hrun.step (hinserted _ _) (.rpcInserted hcall), hnode, rfl, htried, hpassed⟩

example : cidEventMap sampleEnv [firstEvent, secondEvent] "QmBatch" = some secondEvent := by decide +kernel

theorem sampleInsertion_first : ((sampleInsertion firstData).run .empty).1 = .ok 1 ∧
    Stored ((sampleInsertion firstData).run .empty).2 batchMessage.itemHash ∧
    ((sampleInsertion firstData).run .empty).2.chainTxs.rows = [] := by
  decide +kernel

theorem sampleInsertion_both : ((sampleInsertion bothData).run .empty).1 = .ok 1 ∧
    Stored ((sampleInsertion bothData).run .empty).2 batchMessage.itemHash ∧
    ((sampleInsertion bothData).run .empty).2.chainTxs.rows = [] := by
  decide +kernel

/-- One event, whose batch is confirmed. -/
theorem sample_complete : ∃ w, Run sampleEnv (Careful sampleEnv) started w ∧
    w.passed = [⟨"0xaa", 100, [batchMessage.itemHash]⟩] ∧ Stored w.node batchMessage.itemHash ∧ Complete w := by
  obtain ⟨hok, hstored, hrows⟩ := sampleInsertion_first
  have hback : ∀ u u' : SyncWorld, u.tried = [] → Careful sampleEnv .insert u u' := by
    intro u u' htried c hc
    rw [htried] at hc
    exact absurd hc List.not_mem_nil
  obtain ⟨w, hrun, hnode, hcall, htried, hpassed⟩ :=
    Run.confirms rpcSyncCycle_first hok (fun _ _ => trivial) hback fun _ _ => trivial
  have hconflict : ∀ u, Careful sampleEnv (.insertChainTx true) w u := by
    intro u fetch c rest _ _
    refine ⟨rfl, fun row hrow => ?_⟩
    rw [hnode, Table.mem_def, hrows] at hrow
    exact absurd hrow List.not_mem_nil
  have hinsert := hrun.step (hconflict _) (.insertChainTx hcall)
  have honce : ∀ u u' : SyncWorld, u.call = .rpcConfirming ⟨[firstEvent], 100, [⟨"QmBatch", [batchMessage]⟩]⟩ [] →
      Careful sampleEnv (.updateLastRpcBlock true) u u' := by
    intro u u' hcall fetch hcall'
    cases hcall.symm.trans hcall'
    intro batch _ _ event hevent event' hevent' _ _
    rw [List.mem_singleton.1 hevent, List.mem_singleton.1 hevent']
    exact ⟨rfl, rfl⟩
  have hmove := hinsert.step (honce _ _ rfl) (.updateLastRpcBlock rfl)
  refine ⟨_, hmove, ?_, ?_, complete_of_run sampleEnv started_initial hmove⟩
  · show RpcFetch.batchEvents sampleEnv _ ++ w.passed = _
    rw [hpassed]
    decide +kernel
  · show Stored { w.node with chainTxs := _ } _
    rw [hnode]
    exact hstored

/-- **The first of two events that name one batch is not recorded.** -/
theorem first_unconfirmed :
    ∃ w w', Initial w ∧ Run sampleEnv (fun _ _ _ => True) w w' ∧ ¬ Complete w' := by
  obtain ⟨hok, hstored, hrows⟩ := sampleInsertion_both
  obtain ⟨w, hrun, hnode, hcall, htried, hpassed⟩ := @Run.confirms (fun _ _ _ => True) _ _ _ _ _ rpcSyncCycle_both hok
    (fun _ _ => trivial) (fun _ _ _ => trivial) fun _ _ => trivial
  have hinsert := hrun.step trivial (.insertChainTx hcall)
  have hagain := hinsert.step trivial (.insertChainTx rfl)
  have hmove := hagain.step trivial (.updateLastRpcBlock rfl)
  refine ⟨started, _, started_initial, hmove, fun h => ?_⟩
  have hpassed : ⟨"0xaa", 100, [batchMessage.itemHash]⟩ ∈ RpcFetch.batchEvents sampleEnv
      ⟨[firstEvent, secondEvent], 101, [⟨"QmBatch", [batchMessage]⟩, ⟨"QmBatch", [batchMessage]⟩]⟩ := by
    decide +kernel
  have hrow := h _ (List.mem_append_left _ hpassed) batchMessage.itemHash List.mem_cons_self (by
    show Stored { w.node with chainTxs := _ } _
    rw [hnode]
    exact hstored)
  replace hrow : ⟨"0xaa", "ETH", asI64 100, batchMessage.itemHash⟩ ∈ (w.node.chainTxs.insertNew
      ⟨"0xbb", "ETH", asI64 101, batchMessage.itemHash⟩).insertNew
        ⟨"0xbb", "ETH", asI64 101, batchMessage.itemHash⟩ := hrow
  rw [Table.mem_insertNew, Table.mem_insertNew, hnode, Table.mem_def, hrows] at hrow
  have hne : (⟨"0xaa", "ETH", asI64 100, batchMessage.itemHash⟩ : ChainTxRow) ≠
      ⟨"0xbb", "ETH", asI64 101, batchMessage.itemHash⟩ := by decide +kernel
  rcases hrow with (hrow | ⟨hrow, -⟩) | ⟨hrow, -⟩
  · exact absurd hrow List.not_mem_nil
  · exact hne hrow
  · exact hne hrow

end Sample

end AlephCore.ChainSync
