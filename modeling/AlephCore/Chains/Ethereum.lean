import AlephCore.Chains.RpcSync

/-!
# Ethereum — indexing a range of blocks

Mirrors `index_blocks` of the Ethereum indexer in `chains/ethereum.rs` with its two paths, and `parse_log`.  A large range
is fetched in batches whose size follows the answers of the node; a small one with a single query.
-/

namespace AlephCore.Ethereum

open BlockRange Loop SyncFormat RpcSync

variable {Address : Type} [DecidableEq Address]

/-- Maximum blocks to index in a single batch. -/
def maxBlocksPerBatch : Nat := 100

inductive ChainError where
  | rpc (e : String)
  | contract (e : String)
  | parse (e : String)
  | notSupported (e : String)
  | connection (e : String)
  | rateLimited (seconds : Nat)
  | invalidRange (e : String)
  | signature (e : String)
  | timeout
  deriving DecidableEq

structure ChainRef where
  chain : Chain
  height : Nat
  hash : String
  deriving DecidableEq

/-- A message found on-chain. -/
structure IndexedMessage where
  message : Message
  chainRef : ChainRef
  txHash : String
  blockTime : Option Nat
  deriving DecidableEq

/-- Result of indexing blocks. -/
structure IndexResult where
  messages : List IndexedMessage
  syncHashes : List String
  lastBlock : Nat
  blocksProcessed : Nat
  deriving DecidableEq

/-- What is needed of the ABI of the `Message` event: its topic, the decoding of `(string msgType, bytes content)`, and
the address in a topic. -/
structure MessageAbi (Address : Type) where
  message : String
  decode : ByteArray → Except String (String × ByteArray)
  addressOf : String → Address

structure EthereumIndexer (Address : Type) where
  env : Env
  abi : Abi
  messageAbi : MessageAbi Address
  /-- The batch size that is configured. -/
  configured : Nat
  configured_pos : 0 < configured
  authorizedEmitters : List Address

/-- `EthereumIndexer::new` cuts the configured size. -/
def EthereumIndexer.batchSize (indexer : EthereumIndexer Address) : Nat := min indexer.configured maxBlocksPerBatch

/-! ## Logs -/

/-- The content of a `Message` event. -/
def decodeMessageEvent (abi : MessageAbi Address) (log : RpcLog) : Except AbiError ByteArray :=
  match log.topics with
  | [] => .error .missingTopic
  | [topic] => if topic ≠ abi.message then .error .invalidSignature else .error .missingTopic
  | topic :: _ :: _ =>
    if topic ≠ abi.message then .error .invalidSignature
    else ((abi.decode log.data).map Prod.snd).mapError .decodeFailed

/-- Parse message content into a message. -/
def parseMessageContent (env : Env) (content : ByteArray) : Except AbiError Message :=
  match String.fromUTF8? content with
  | none => .error (.invalidMessage "Invalid UTF-8")
  | some s => (env.fromStr Message.decode s).mapError fun e => .invalidMessage s!"Invalid JSON: {e}"

/-- The message of a `Message` event, if both can be read. -/
def EthereumIndexer.parseMessage (indexer : EthereumIndexer Address) (log : RpcLog) : Option IndexedMessage := do
  let content ← (decodeMessageEvent indexer.messageAbi log).toOption
  let message ← (parseMessageContent indexer.env content).toOption
  some {
    message
    chainRef := { chain := .eth, height := log.blockNumber.getD 0, hash := log.transactionHash.getD "" }
    txHash := log.transactionHash.getD ""
    blockTime := none }

/-- The emitter is in the second topic; a log without one is accepted. -/
def EthereumIndexer.refuses (indexer : EthereumIndexer Address) (log : RpcLog) : Bool :=
  indexer.authorizedEmitters ≠ [] ∧
    ∃ sender ∈ log.topics[1]?, indexer.messageAbi.addressOf sender ∉ indexer.authorizedEmitters

/-- The hashes of a `SyncMessage` event, if it can be read. -/
def EthereumIndexer.parseSync (indexer : EthereumIndexer Address) (log : RpcLog) : List String :=
  match decodeSyncEvent indexer.abi log.toLog with
  | .error _ => []
  | .ok content =>
    if indexer.refuses log then [] else ((parseSyncContent indexer.env content).toOption).getD []

/-- Parse a log into a message or hashes; what cannot be read is passed over. -/
def EthereumIndexer.parseLog (indexer : EthereumIndexer Address) (log : RpcLog) : Option IndexedMessage × List String :=
  match indexer.parseMessage log with
  | some message => (some message, [])
  | none => (none, indexer.parseSync log)

/-- Add what a log has. -/
def EthereumIndexer.takeLog (indexer : EthereumIndexer Address) (found : List IndexedMessage × List String)
    (log : RpcLog) : List IndexedMessage × List String :=
  match indexer.parseLog log with
  | (some message, _) => (found.1 ++ [message], found.2)
  | (none, hashes) => (found.1, found.2 ++ hashes)

/-! ## Batches -/

/-- How the node answers a query for logs: with those of the blocks, or with an error. -/
abbrev Answers := Nat → Nat → Nat → Option ChainError

structure IndexState where
  batchSize : Nat
  «from» : Nat
  found : List IndexedMessage × List String
  /-- The ranges that have been fetched; the source does not keep them. -/
  fetched : List (Nat × Nat)

/-- The size after an error, unless the batch is already minimal and the error is passed on. -/
def reducedSize (batchSize : Nat) : ChainError → Option Nat
  | .rateLimited _ => some (max (batchSize / 2) 10)
  | _ => if batchSize ≤ 10 then none else some (max (batchSize / 2) 10)

/-- One turn of the loop over the batches. -/
def EthereumIndexer.adaptiveTurn (indexer : EthereumIndexer Address) (chain : Nat → List RpcLog) (answers : Answers)
    (start stop attempt : Nat) (st : IndexState) :
    Next IndexState (Ended (Except ChainError (IndexResult × List (Nat × Nat)))) :=
  if st.from ≤ stop then
    match add st.from st.batchSize with
    | none => .done .panicked
    | some past =>
      let last := min (past - 1) stop
      match answers attempt st.from last with
      | none =>
        match add last 1 with
        | none => .done .panicked
        | some next => .again {
            batchSize := min (st.batchSize + 10) maxBlocksPerBatch
            «from» := next
            found := (between chain st.from last).foldl indexer.takeLog st.found
            fetched := st.fetched ++ [(st.from, last)] }
      | some e =>
        match reducedSize st.batchSize e with
        | none => .done (.returned (.error e))
        | some batchSize => .again { st with batchSize }
  else
    match add (stop - start) 1 with
    | none => .done .panicked
    | some blocksProcessed => .done (.returned (.ok
        ({ messages := st.found.1, syncHashes := st.found.2, lastBlock := stop, blocksProcessed }, st.fetched)))

/-- Index blocks with dynamic range adjustment. -/
def EthereumIndexer.indexBlocksAdaptive (indexer : EthereumIndexer Address) (chain : Nat → List RpcLog)
    (answers : Answers) (start stop fuel : Nat) :
    Option (Ended (Except ChainError (IndexResult × List (Nat × Nat)))) :=
  run (indexer.adaptiveTurn chain answers start stop) fuel 0 ⟨indexer.batchSize, start, ([], []), []⟩

/-- Index blocks with a single query. -/
def EthereumIndexer.indexBlocksOnce (indexer : EthereumIndexer Address) (chain : Nat → List RpcLog)
    (answers : Answers) (start stop : Nat) : Ended (Except ChainError IndexResult) :=
  match answers 0 start stop with
  | some e => .returned (.error e)
  | none =>
    let found := (between chain start stop).foldl indexer.takeLog ([], [])
    match add (stop - start) 1 with
    | none => .panicked
    | some blocksProcessed => .returned (.ok
        { messages := found.1, syncHashes := found.2, lastBlock := stop, blocksProcessed })

/-- Index blocks: adaptively if there are many. -/
def EthereumIndexer.indexBlocks (indexer : EthereumIndexer Address) (chain : Nat → List RpcLog) (answers : Answers)
    (start stop fuel : Nat) : Option (Ended (Except ChainError IndexResult)) :=
  if stop < start then some (.returned (.error (.invalidRange
    s!"Start block {start} is greater than end block {stop}")))
  else if indexer.batchSize < stop - start then
    (indexer.indexBlocksAdaptive chain answers start stop fuel).map fun ended =>
      match ended with
      | .panicked => .panicked
      | .returned r => .returned (r.map Prod.fst)
  else some (indexer.indexBlocksOnce chain answers start stop)

/-! ## The two paths agree -/

variable {indexer : EthereumIndexer Address} {chain : Nat → List RpcLog} {answers : Answers} {start stop : Nat}
  {st st' : IndexState}

/-- The blocks of some ranges, in order. -/
def blocksOf (ranges : List (Nat × Nat)) : List Nat := ranges.flatMap fun r => between (fun block => [block]) r.1 r.2

/-- What has been found is what the blocks before the next one have, and each of them has been fetched once. -/
structure Indexed (indexer : EthereumIndexer Address) (chain : Nat → List RpcLog) (start stop : Nat) (st : IndexState) :
    Prop where
  batch : 0 < st.batchSize
  reached : start ≤ st.from
  bounded : st.from ≤ stop + 1
  found : st.found = (before chain start st.from).foldl indexer.takeLog ([], [])
  fetched : blocksOf st.fetched = before (fun block => [block]) start st.from

theorem reducedSize_eq_some {batchSize size : Nat} {e : ChainError} (h : reducedSize batchSize e = some size) :
    size = max (batchSize / 2) 10 := by
  unfold reducedSize at h
  split at h
  · exact (Option.some.inj h).symm
  · split_ifs at h
    exact (Option.some.inj h).symm

theorem adaptiveTurn_again {attempt : Nat}
    (h : indexer.adaptiveTurn chain answers start stop attempt st = .again st') :
    st.from ≤ stop ∧ ((∃ last, last = min (st.from + st.batchSize - 1) stop ∧
        st' = ⟨min (st.batchSize + 10) maxBlocksPerBatch, last + 1,
          (between chain st.from last).foldl indexer.takeLog st.found, st.fetched ++ [(st.from, last)]⟩) ∨
      st' = { st with batchSize := max (st.batchSize / 2) 10 }) := by
  unfold EthereumIndexer.adaptiveTurn at h
  by_cases hnext : st.from ≤ stop
  · rw [if_pos hnext] at h
    refine ⟨hnext, ?_⟩
    cases hpast : add st.from st.batchSize with
    | none =>
      rw [hpast] at h
      cases h
    | some past =>
      obtain ⟨-, rfl⟩ := add_eq_some.1 hpast
      rw [hpast] at h
      dsimp only at h
      cases hanswer : answers attempt st.from (min (st.from + st.batchSize - 1) stop) with
      | none =>
        rw [hanswer] at h
        dsimp only at h
        cases hadd : add (min (st.from + st.batchSize - 1) stop) 1 with
        | none =>
          rw [hadd] at h
          cases h
        | some next =>
          obtain ⟨-, rfl⟩ := add_eq_some.1 hadd
          rw [hadd] at h
          exact .inl ⟨_, rfl, (Next.again.inj h).symm⟩
      | some e =>
        rw [hanswer] at h
        dsimp only at h
        cases hsize : reducedSize st.batchSize e with
        | none =>
          rw [hsize] at h
          cases h
        | some size =>
          rw [hsize] at h
          rw [← reducedSize_eq_some hsize]
          exact .inr (Next.again.inj h).symm
  · rw [if_neg hnext] at h
    cases hadd : add (stop - start) 1 with
    | none =>
      rw [hadd] at h
      cases h
    | some blocksProcessed =>
      rw [hadd] at h
      cases h

theorem adaptiveTurn_ok {attempt : Nat} {result : IndexResult} {fetched : List (Nat × Nat)}
    (h : indexer.adaptiveTurn chain answers start stop attempt st = .done (.returned (.ok (result, fetched)))) :
    stop < st.from ∧ fetched = st.fetched ∧ add (stop - start) 1 = some result.blocksProcessed ∧
      result = ⟨st.found.1, st.found.2, stop, result.blocksProcessed⟩ := by
  unfold EthereumIndexer.adaptiveTurn at h
  by_cases hnext : st.from ≤ stop
  · rw [if_pos hnext] at h
    cases hpast : add st.from st.batchSize with
    | none =>
      rw [hpast] at h
      cases h
    | some past =>
      rw [hpast] at h
      dsimp only at h
      cases hanswer : answers attempt st.from (min (past - 1) stop) with
      | none =>
        rw [hanswer] at h
        dsimp only at h
        cases hadd : add (min (past - 1) stop) 1 with
        | none =>
          rw [hadd] at h
          cases h
        | some next =>
          rw [hadd] at h
          cases h
      | some e =>
        rw [hanswer] at h
        dsimp only at h
        cases hsize : reducedSize st.batchSize e with
        | none =>
          rw [hsize] at h
          cases h
        | some size =>
          rw [hsize] at h
          cases h
  · rw [if_neg hnext] at h
    cases hadd : add (stop - start) 1 with
    | none =>
      rw [hadd] at h
      cases h
    | some blocksProcessed =>
      rw [hadd] at h
      obtain ⟨rfl, rfl⟩ := Prod.mk.inj (Except.ok.inj (Ended.returned.inj (Next.done.inj h)))
      exact ⟨Nat.lt_of_not_le hnext, rfl, rfl, rfl⟩

/-- **A turn passes a batch or only resizes it.** -/
theorem Indexed.turn {attempt : Nat} (h : Indexed indexer chain start stop st)
    (hturn : indexer.adaptiveTurn chain answers start stop attempt st = .again st') :
    Indexed indexer chain start stop st' := by
  obtain ⟨hnext, ⟨last, hlast, rfl⟩ | rfl⟩ := adaptiveTurn_again hturn
  · have hbatch := h.batch
    have hreached := h.reached
    have hend : st.from ≤ last + 1 := by omega
    refine ⟨by dsimp only [maxBlocksPerBatch]; omega, by dsimp only; omega, by dsimp only; omega, ?_, ?_⟩
    · rw [h.found, ← List.foldl_append, before_append hreached hend]
    · have hsplit : blocksOf (st.fetched ++ [(st.from, last)]) =
          blocksOf st.fetched ++ between (fun block => [block]) st.from last := by
        rw [blocksOf, List.flatMap_append, List.flatMap_singleton]
        rfl
      rw [hsplit, h.fetched, before_append hreached hend]
  · exact ⟨by dsimp only; omega, h.reached, h.bounded, h.found, h.fetched⟩

/-- What the caller of the adaptive path should get. -/
def MatchesOnce (indexer : EthereumIndexer Address) (chain : Nat → List RpcLog) (start stop : Nat) :
    Ended (Except ChainError (IndexResult × List (Nat × Nat))) → Prop
  | .returned (.ok (result, fetched)) =>
    indexer.indexBlocksOnce chain (fun _ _ _ => none) start stop = .returned (.ok result) ∧
      blocksOf fetched = List.range' start (stop + 1 - start)
  | _ => True

/-- **Adaptive indexing is a single query**, whatever the node answers on the way: if it returns a result it is that of
one query for the whole range, and each block has been fetched once. -/
theorem adaptive_eq_once (indexer : EthereumIndexer Address) (chain : Nat → List RpcLog) (answers : Answers)
    (start stop fuel : Nat) (result : IndexResult) (fetched : List (Nat × Nat)) (hle : start ≤ stop)
    (h : indexer.indexBlocksAdaptive chain answers start stop fuel = some (.returned (.ok (result, fetched)))) :
    indexer.indexBlocksOnce chain (fun _ _ _ => none) start stop = .returned (.ok result) ∧
      blocksOf fetched = List.range' start (stop + 1 - start) := by
  have hmatches : MatchesOnce indexer chain start stop (.returned (.ok (result, fetched))) := by
    refine of_run (Indexed indexer chain start stop) (MatchesOnce indexer chain start stop) ?_ ?_ ?_ h
    · intro attempt s t hs hturn
      exact hs.turn hturn
    · intro attempt s ended hs hturn
      cases ended with
      | panicked => trivial
      | returned r =>
        cases r with
        | error e => trivial
        | ok r =>
          obtain ⟨result', fetched'⟩ := r
          obtain ⟨hend, rfl, hadd, hresult⟩ := adaptiveTurn_ok hturn
          have hfrom : s.from = stop + 1 := by
            have hbounded := hs.bounded
            omega
          have hfound := hs.found
          have hblocks := hs.fetched
          rw [hfrom] at hfound hblocks
          refine ⟨?_, ?_⟩
          · rw [hresult, hfound]
            unfold EthereumIndexer.indexBlocksOnce
            dsimp only
            rw [hadd]
            rfl
          · rw [hblocks, before, List.flatMap_singleton']
    · have hpos : 0 < indexer.batchSize := by
        have hconfigured := indexer.configured_pos
        unfold EthereumIndexer.batchSize maxBlocksPerBatch
        omega
      refine ⟨hpos, Nat.le_refl _, by dsimp only; omega, ?_, ?_⟩
      · rw [before_self]
        rfl
      · rw [before_self]
        rfl
  exact hmatches

section Sample

/-- An indexer with batches of five blocks, for a node whose one sync message has one hash. -/
def sampleIndexer : EthereumIndexer String where
  env := .ofTables [("[\"Qm\"]", .arr [.str "Qm"])] [] []
  abi := {
    syncMessage := "0xe9d47bf68fde88a327cce99283a201197ca7089cd5c642d49fd167c7651ed7b8"
    selector := ⟨#[0xf5, 0x8e, 0xdd, 0xd3]⟩
    encode := fun content => content
    decode := fun _ => .ok "[\"Qm\"]".toUTF8 }
  messageAbi := {
    message := "0x231c600c72fa045357f7d6c6195e838ac110931b1452bda25371094e85fe4860"
    decode := fun _ => .error "Invalid data"
    addressOf := fun topic => topic }
  configured := 5
  configured_pos := by decide
  authorizedEmitters := []

/-- Block 7 has the sync message. -/
def sampleLogs : Nat → List RpcLog := fun block =>
  if block = 7 then [{
    topics := ["0xe9d47bf68fde88a327cce99283a201197ca7089cd5c642d49fd167c7651ed7b8"]
    data := ⟨#[]⟩
    blockNumber := some 7
    transactionHash := some "0x11" }]
  else []

example : ((sampleLogs 7).map fun log => syncHashes sampleIndexer.env sampleIndexer.abi log.toLog) = [["Qm"]] := by
  decide +kernel

/-- Two batches, with a rate limit between them. -/
theorem sample_once :
    sampleIndexer.indexBlocksAdaptive sampleLogs
        (fun attempt _ _ => if attempt = 1 then some (.rateLimited 5) else none) 0 12 5 =
      some (.returned (.ok (⟨[], ["Qm"], 12, 13⟩, [(0, 4), (5, 12)]))) ∧
    sampleIndexer.indexBlocksOnce sampleLogs (fun _ _ _ => none) 0 12 = .returned (.ok ⟨[], ["Qm"], 12, 13⟩) ∧
    blocksOf [(0, 4), (5, 12)] = List.range' 0 (12 + 1 - 0) := by
  have hrun : sampleIndexer.indexBlocksAdaptive sampleLogs
      (fun attempt _ _ => if attempt = 1 then some (.rateLimited 5) else none) 0 12 5 =
      some (.returned (.ok (⟨[], ["Qm"], 12, 13⟩, [(0, 4), (5, 12)]))) := by
    decide +kernel
  exact ⟨hrun, adaptive_eq_once _ _ _ _ _ _ _ _ (by decide) hrun⟩

end Sample

end AlephCore.Ethereum
