import AlephCore.Chains.SyncFormat
import AlephCore.Db.PgDatabase
import Mathlib.Data.List.Sort

/-!
# TxPacker — publishing the messages that are not confirmed

Mirrors `chains/tx_packer.rs`.  The hashes of the messages are added to IPFS as a JSON array, and the identifier of
that object is the content of the published call.  The readers of `SyncFormat` expect something else at both
levels: a JSON text where the bare identifier stands, and a batch of messages where the array of hashes is.
-/

namespace AlephCore.TxPacker

open ProgE Prog SyncFormat

/-- Maximum messages per sync batch. -/
def maxMessagesPerBatch : Nat := 100

/-! ## The state -/

/-- A row of `pending_txs`. -/
structure PendingTx where
  itemHashes : List ItemHash
  ipfsHash : String
  chain : String
  txHash : Option String
  status : String
  deriving DecidableEq

/-- The database, the objects on IPFS and the calls sent to the contract. -/
structure World where
  node : Node
  pendingTxs : Table PendingTx PendingTx.ipfsHash
  objects : List (String × ByteArray)
  calls : List ByteArray

/-- TX packer errors. -/
inductive TxPackerError where
  | database (e : String)
  | ipfs (e : String)
  | chain (e : String)
  | connection (e : String)
  | config (e : String)
  | parse (e : String)
  deriving DecidableEq

/-- The services of the packer. -/
structure Packer where
  env : Env
  order : SqlOrder
  abi : Abi
  /-- `Value::to_string`. -/
  jsonText : Json → String
  /-- The identifier IPFS gives an object. -/
  ipfsAdd : ByteArray → Except String String
  /-- Wallet, provider, configuration and contract address of Ethereum. -/
  ethereum : Except TxPackerError Unit
  /-- Send a transaction with the call data; the hash of the transaction. -/
  sendTransaction : ByteArray → Except String String

/-! ## Publishing -/

/-- The messages without a transaction on the chain, the oldest first. -/
def unconfirmed (order : SqlOrder) (chain : Chain) (n : Node) : List MessageRow :=
  (((order.scan n.messages.rows).filter fun m =>
    decide (¬ ∃ t ∈ n.chainTxs.rows, t.itemHash = m.itemHash ∧ t.chain = chain.toString)).insertionSort
      fun a b => a.time ≤ b.time).take maxMessagesPerBatch

/-- The object that is added to IPFS. -/
def syncContent (p : Packer) (itemHashes : List ItemHash) : String := p.jsonText (.arr (itemHashes.map .str))

/-- Encode the `syncMessage` function call. -/
def encodeSyncMessage (abi : Abi) (content : ByteArray) : ByteArray := abi.selector ++ abi.encode content

/-- Add an object to IPFS. -/
def add (p : Packer) (content : ByteArray) : ProgE World DbError TxPackerError String :=
  mapErr .ipfs (sql fun w => match p.ipfsAdd content with
    | .ok cid => (.ok cid, { w with objects := (cid, content) :: w.objects })
    | .error e => (.error e, w))

def storePendingTx (pending : PendingTx) : ProgE World DbError TxPackerError Unit :=
  mapErr .database (execute fun w => { w with pendingTxs := w.pendingTxs.insertNew pending })

def updatePendingTxHash (ipfsHash txHash : String) : ProgE World DbError TxPackerError Unit :=
  mapErr .database (execute fun w => { w with
    pendingTxs := w.pendingTxs.update (·.ipfsHash = ipfsHash) fun t =>
      { t with txHash := some txHash, status := "submitted" } })

def sendTransaction (p : Packer) (callData : ByteArray) : ProgE World DbError TxPackerError String :=
  mapErr .chain (sql fun w => match p.sendTransaction callData with
    | .ok txHash => (.ok txHash, { w with calls := w.calls ++ [callData] })
    | .error e => (.error e, w))

/-- Submit the sync message to Ethereum. -/
def submitEthereumSync (p : Packer) (ipfsHash : String) : ProgE World DbError TxPackerError (Option String) := do
  fromExcept p.ethereum
  let txHash ← sendTransaction p (encodeSyncMessage p.abi ipfsHash.toUTF8)
  pure (some txHash)

/-- Submit to the chain; only Ethereum is implemented. -/
def submit (p : Packer) (chain : Chain) (ipfsHash : String) : ProgE World DbError TxPackerError (Option String) :=
  match chain with
  | .eth => submitEthereumSync p ipfsHash
  | _ => pure none

/-- Publish the messages with the given hashes. -/
def publish (p : Packer) (chain : Chain) (itemHashes : List ItemHash) :
    ProgE World DbError TxPackerError (Option String) := do
  let ipfsHash ← add p (syncContent p itemHashes).toUTF8
  storePendingTx { itemHashes, ipfsHash, chain := chain.toString, txHash := none, status := "pending" }
  let txHash ← submit p chain ipfsHash
  match txHash with
  | none => pure none
  | some hash => do
    updatePendingTxHash ipfsHash hash
    pure (some hash)

/-- Sync messages to a chain. -/
def syncChain (p : Packer) (chain : Chain) : ProgE World DbError TxPackerError (Option String) := do
  let messages ← mapErr .database (query fun w => unconfirmed p.order chain w.node)
  if messages.isEmpty then pure none
  else publish p chain (messages.map MessageRow.itemHash)

/-! ## What is published -/

section Published

variable {p : Packer} {chain : Chain} {w w' : World} {txHash : String} {hashes : List ItemHash}

theorem exec_add {content : ByteArray} {cid : String} (h : Exec (add p content).run w (.ok cid) w') :
    p.ipfsAdd content = .ok cid ∧ w' = { w with objects := (cid, content) :: w.objects } := by
  rw [add, exec_mapErr_ok, exec_sql_ok] at h
  cases hadd : p.ipfsAdd content with
  | error e => simp [hadd] at h
  | ok cid' =>
    simp only [hadd, Prod.mk.injEq, Except.ok.injEq] at h
    obtain ⟨rfl, hw⟩ := h
    exact ⟨rfl, hw.symm⟩

theorem exec_sendTransaction {callData : ByteArray} (h : Exec (sendTransaction p callData).run w (.ok txHash) w') :
    w' = { w with calls := w.calls ++ [callData] } := by
  rw [sendTransaction, exec_mapErr_ok, exec_sql_ok] at h
  cases hsend : p.sendTransaction callData with
  | error e => simp [hsend] at h
  | ok hash =>
    simp only [hsend, Prod.mk.injEq] at h
    exact h.2.symm

theorem exec_submit {cid : String} (h : Exec (submit p chain cid).run w (.ok (some txHash)) w') :
    chain = .eth ∧ w' = { w with calls := w.calls ++ [encodeSyncMessage p.abi cid.toUTF8] } := by
  by_cases hchain : chain = .eth
  · subst hchain
    obtain ⟨⟨⟩, t, hready, hrest⟩ := exec_bind_ok.1 h
    obtain ⟨-, rfl⟩ := exec_fromExcept.1 hready
    obtain ⟨hash, t', hsend, hpure⟩ := exec_bind_ok.1 hrest
    obtain ⟨-, rfl⟩ := exec_pure_ok.1 hpure
    exact ⟨rfl, exec_sendTransaction hsend⟩
  · have hnone : submit p chain cid = (pure none : ProgE World DbError TxPackerError (Option String)) := by
      cases chain <;> first | exact absurd rfl hchain | rfl
    rw [hnone] at h
    exact absurd (exec_pure_ok.1 h).1 (by simp)

/-- The call with the identifier `cid` has been sent, the array of the hashes having been added under it. -/
structure Published (p : Packer) (w w' : World) (hashes : List ItemHash) (cid : String) : Prop where
  identifier : p.ipfsAdd (syncContent p hashes).toUTF8 = .ok cid
  object : w'.objects = (cid, (syncContent p hashes).toUTF8) :: w.objects
  call : w'.calls = w.calls ++ [encodeSyncMessage p.abi cid.toUTF8]

/-- **What a successful run publishes**: the identifier of the array of the hashes. -/
theorem exec_syncChain (h : Exec (syncChain p chain).run w (.ok (some txHash)) w') :
    chain = .eth ∧ unconfirmed p.order chain w.node ≠ [] ∧
      ∃ cid, Published p w w' ((unconfirmed p.order chain w.node).map MessageRow.itemHash) cid := by
  obtain ⟨messages, t, hquery, h⟩ := exec_bind_ok.1 h
  rw [exec_mapErr_ok, exec_query_ok] at hquery
  obtain ⟨rfl, rfl⟩ := hquery
  by_cases hempty : unconfirmed p.order chain t.node = []
  · rw [hempty] at h
    exact absurd (exec_pure_ok.1 h).1 (by simp)
  · rw [if_neg (by simpa using hempty)] at h
    obtain ⟨cid, t₁, hadd, h⟩ := exec_bind_ok.1 h
    obtain ⟨hcid, rfl⟩ := exec_add hadd
    obtain ⟨⟨⟩, t₂, hstore, h⟩ := exec_bind_ok.1 h
    rw [storePendingTx, exec_mapErr_ok, exec_execute_ok] at hstore
    obtain ⟨result, t₃, hsubmit, h⟩ := exec_bind_ok.1 h
    cases result with
    | none => exact absurd (exec_pure_ok.1 h).1 (by simp)
    | some hash =>
      obtain ⟨hchain, rfl⟩ := exec_submit hsubmit
      obtain ⟨⟨⟩, t₄, hupdate, h⟩ := exec_bind_ok.1 h
      rw [updatePendingTxHash, exec_mapErr_ok, exec_execute_ok] at hupdate
      obtain ⟨-, rfl⟩ := exec_pure_ok.1 h
      refine ⟨hchain, hempty, cid, hcid, ?_, ?_⟩
      · rw [hupdate, hstore]
      · rw [hupdate, hstore]

end Published

/-! ## What is read back -/

/-- An identifier of IPFS: version 0 begins with `Qm`, version 1, in base 32, with `b`. -/
def IsCid (s : String) : Prop :=
  (s.toList.head? = some 'Q' ∨ s.toList.head? = some 'b') ∧ s.utf8ByteSize ≤ 128

instance (s : String) : Decidable (IsCid s) :=
  inferInstanceAs (Decidable ((s.toList.head? = some 'Q' ∨ s.toList.head? = some 'b') ∧ s.utf8ByteSize ≤ 128))

/-- What holds of IPFS, of JSON and of the ABI: objects get identifiers, which are no JSON texts, and the bytes of
one are decoded as they were encoded. -/
structure Reliable (p : Packer) : Prop where
  cid : ∀ content cid, p.ipfsAdd content = .ok cid → IsCid cid
  json : ∀ s, IsCid s → ∃ e, p.env.parseJson s = .error e
  abi : ∀ s, IsCid s → p.abi.decode (p.abi.encode s.toUTF8) = .ok s.toUTF8

/-- The hashes a reader finds are the published ones. -/
def Recovers (found published : List ItemHash) : Prop := ∀ h, h ∈ found ↔ h ∈ published

/-- What the Ethereum indexer finds in the event with the content. -/
def readByEthereumIndexer (p : Packer) (content : ByteArray) : List ItemHash :=
  syncHashes p.env p.abi ⟨[p.abi.syncMessage], p.abi.encode content⟩

/-- The messages of the batches with the given identifiers. -/
def batchHashes (env : Env) (ipfsGet : String → Option String) (cids : List String) : List ItemHash :=
  cids.flatMap fun cid => (((ipfsGet cid).bind (batchMessages env)).getD []).map Message.itemHash

/-- What the RPC sync finds. -/
def readByRpc (p : Packer) (ipfsGet : String → Option String) (event : DecodedAlephSyncEvent) : List ItemHash :=
  batchHashes p.env ipfsGet ((extractIpfsCids p.env [event]).map Prod.fst)

/-- What the indexer sync finds. -/
def readByIndexer (p : Packer) (ipfsGet : String → Option String) (event : IndexerSyncEvent) : List ItemHash :=
  batchHashes p.env ipfsGet
    ((parseSyncMessage p.env event.message).toOption.toList.map SyncMessageContent.content)

/-- Every reader finds the hashes in an event with the content. -/
structure ReadBack (p : Packer) (ipfsGet : String → Option String) (content : ByteArray) (hashes : List ItemHash) :
    Prop where
  ethereumIndexer : Recovers (readByEthereumIndexer p content) hashes
  rpc : ∀ event : DecodedAlephSyncEvent, event.message.toUTF8 = content → Recovers (readByRpc p ipfsGet event) hashes
  indexer : ∀ event : IndexerSyncEvent, event.message.toUTF8 = content →
    Recovers (readByIndexer p ipfsGet event) hashes

section Read

variable {p : Packer} {chain : Chain} {w w' : World} {txHash cid : String} {hashes : List ItemHash}

theorem fromUTF8?_toUTF8 (s : String) : String.fromUTF8? s.toUTF8 = some s := by
  unfold String.fromUTF8?
  exact dif_pos (show s.toUTF8.IsValidUTF8 from s.isValidUTF8)

theorem not_recovers_nil (hne : hashes ≠ []) : ¬ Recovers [] hashes := by
  intro h
  obtain ⟨hash, hmem⟩ := List.exists_mem_of_ne_nil hashes hne
  exact List.not_mem_nil ((h hash).2 hmem)

/-- **No reader finds anything** in an event whose content is a bare identifier. -/
theorem unread_of_cid (h : Reliable p) (hcid : IsCid cid) :
    readByEthereumIndexer p cid.toUTF8 = [] ∧ ∀ ipfsGet : String → Option String,
      (∀ event : DecodedAlephSyncEvent, event.message.toUTF8 = cid.toUTF8 → readByRpc p ipfsGet event = []) ∧
      ∀ event : IndexerSyncEvent, event.message.toUTF8 = cid.toUTF8 → readByIndexer p ipfsGet event = [] := by
  obtain ⟨e, hparse⟩ := h.json cid hcid
  have htext : ∀ {s : String}, s.toUTF8 = cid.toUTF8 → s = cid := by
    intro s hs
    simpa only [String.toUTF8_eq_toByteArray, String.toByteArray_inj] using hs
  refine ⟨?_, fun ipfsGet => ⟨fun event hevent => ?_, fun event hevent => ?_⟩⟩
  · refine syncHashes_of_error ?_ (fromUTF8?_toUTF8 cid) hparse
    simp only [decodeSyncEvent]
    rw [if_neg (by simp), h.abi cid hcid]
    rfl
  · obtain rfl := htext hevent
    rw [readByRpc, extractIpfsCids_of_error hparse]
    rfl
  · obtain rfl := htext hevent
    rw [readByIndexer, parseSyncMessage_of_error hparse]
    rfl

/-- **What is published is not read back**, by no reader and whatever IPFS returns; and were the identifier read, the
object under it would be no batch. -/
theorem published_unread (h : Reliable p) (hexec : Exec (syncChain p chain).run w (.ok (some txHash)) w') :
    ∃ hashes, hashes = (unconfirmed p.order chain w.node).map MessageRow.itemHash ∧ hashes ≠ [] ∧
      ∃ cid, Published p w w' hashes cid ∧
        ¬ Recovers (readByEthereumIndexer p cid.toUTF8) hashes ∧
        (∀ ipfsGet event, event.message.toUTF8 = cid.toUTF8 → ¬ Recovers (readByRpc p ipfsGet event) hashes) ∧
        (∀ ipfsGet event, event.message.toUTF8 = cid.toUTF8 → ¬ Recovers (readByIndexer p ipfsGet event) hashes) ∧
        (p.env.parseJson (syncContent p hashes) = .ok (.arr (hashes.map .str)) →
          batchMessages p.env (syncContent p hashes) = none) := by
  obtain ⟨-, hne, cid, hpublished⟩ := exec_syncChain hexec
  have hcid := h.cid _ _ hpublished.identifier
  have hhashes : (unconfirmed p.order chain w.node).map MessageRow.itemHash ≠ [] := by
    rwa [ne_eq, List.map_eq_nil_iff]
  refine ⟨_, rfl, hhashes, cid, hpublished, ?_, fun ipfsGet event hevent => ?_, fun ipfsGet event hevent => ?_,
    batchMessages_of_list⟩
  · rw [(unread_of_cid h hcid).1]
    exact not_recovers_nil hhashes
  · rw [((unread_of_cid h hcid).2 ipfsGet).1 event hevent]
    exact not_recovers_nil hhashes
  · rw [((unread_of_cid h hcid).2 ipfsGet).2 event hevent]
    exact not_recovers_nil hhashes

end Read

/-! ### One message -/

section Sample

/-- The encoding of at most 255 bytes: the offset and the length as words of 32 bytes, then the bytes, padded. -/
def sampleAbi : Abi where
  syncMessage := "0xe9d47bf68fde88a327cce99283a201197ca7089cd5c642d49fd167c7651ed7b8"
  selector := ⟨#[0xf5, 0x8e, 0xdd, 0xd3]⟩
  encode b := ⟨⟨List.replicate 31 0 ++ [32] ++ List.replicate 31 0 ++ [b.size.toUInt8] ++ b.data.toList ++
    List.replicate ((32 - b.size % 32) % 32) 0⟩⟩
  decode data := .ok ⟨⟨(data.data.toList.drop 64).take (data.data.toList.getD 63 0).toNat⟩⟩

def sampleHash : ItemHash := "f5daeb3a93b406461feefa557a1a9595fb79cd3f2a0e5b08f3564a5e3973846b"

def sampleText : String := "[\"" ++ sampleHash ++ "\"]"

def samplePacker : Packer where
  env := .ofTables [(sampleText, .arr [.str sampleHash])] [] []
  order := .stored
  abi := sampleAbi
  jsonText _ := sampleText
  ipfsAdd _ := .ok "QmQ3M6PTakL4wPejTaQgGgYNpbEQdqm5bNZepYSUy4A2jB"
  ethereum := .ok ()
  sendTransaction _ := .ok "0x39eeb1d0a0dd0f2a1a2e4b3f7f6a6b2cf8d2ef6c5a9b7d8e9f0a1b2c3d4e5f60"

/-- A message of the owner that no chain has confirmed. -/
def sampleRow : MessageRow :=
  { itemHash := sampleHash, messageType := .post, chain := .eth,
    sender := "0x8fa7De588b149EFa9F1FdBe307921842F27B37C7", signature := "", itemType := .inline,
    itemContent := none, channel := none, time := 1700000000, status := "processed", receptionTime := none,
    owner := none, contentType := none, contentRef := none, contentKey := none, contentItemHash := none,
    paymentType := none }

def sampleWorld : World where
  node := { Node.empty with messages := Table.empty.insertNew sampleRow }
  pendingTxs := .empty
  objects := []
  calls := []

example : (sampleAbi.encode sampleText.toUTF8).size = 160 := by decide +kernel

theorem sampleAbi_decode {b : ByteArray} (h : b.size ≤ 128) : sampleAbi.decode (sampleAbi.encode b) = .ok b := by
  have hsize : b.size.toUInt8.toNat = b.data.toList.length := by
    rw [Nat.toUInt8, UInt8.toNat_ofNat', Array.length_toList]
    exact Nat.mod_eq_of_lt (by omega)
  have hbytes : ∀ pad : List UInt8, let words := List.replicate 31 (0 : UInt8) ++ [32] ++ List.replicate 31 0
      ((words ++ [b.size.toUInt8] ++ b.data.toList ++ pad).drop 64).take
        ((words ++ [b.size.toUInt8] ++ b.data.toList ++ pad).getD 63 0).toNat = b.data.toList := by
    intro pad words
    have hwords : words.length = 63 := rfl
    have hlength : (words ++ [b.size.toUInt8] ++ b.data.toList ++ pad).getD 63 0 = b.size.toUInt8 := by
      simp [List.getD_eq_getElem?_getD, hwords]
    have hdrop : (words ++ [b.size.toUInt8] ++ b.data.toList ++ pad).drop 64 = b.data.toList ++ pad := by
      rw [List.append_assoc]
      exact List.drop_left' (by simp [hwords])
    rw [hlength, hsize, hdrop]
    exact List.take_left' rfl
  exact congrArg Except.ok (ByteArray.ext (Array.ext' (hbytes _)))

theorem sample_reliable : Reliable samplePacker where
  cid content cid h := by
    obtain rfl := Except.ok.inj h
    decide +kernel
  json s hs := by
    have hne : sampleText ≠ s := by
      rintro rfl
      exact absurd hs (by decide +kernel)
    exact ⟨"expected value", by simp [samplePacker, Env.ofTables, hne]⟩
  abi s hs := sampleAbi_decode (by simpa using hs.2)

theorem exec_sample : ∃ w' txHash, Exec (syncChain samplePacker .eth).run sampleWorld (.ok (some txHash)) w' := by
  have hrun := exec_run (syncChain samplePacker .eth).run sampleWorld
  have hresult : ((syncChain samplePacker .eth).run.run sampleWorld).1 =
      .ok (some "0x39eeb1d0a0dd0f2a1a2e4b3f7f6a6b2cf8d2ef6c5a9b7d8e9f0a1b2c3d4e5f60") := by
    decide +kernel
  rw [hresult] at hrun
  exact ⟨_, _, hrun⟩

theorem sample_unconfirmed : (unconfirmed samplePacker.order .eth sampleWorld.node).map MessageRow.itemHash =
    [sampleHash] := by decide +kernel

/-- The message is published and not read back. -/
theorem sample_published : ∃ w' cid, Published samplePacker sampleWorld w' [sampleHash] cid ∧
    ¬ Recovers (readByEthereumIndexer samplePacker cid.toUTF8) [sampleHash] ∧
    batchMessages samplePacker.env (syncContent samplePacker [sampleHash]) = none := by
  obtain ⟨w', txHash, hexec⟩ := exec_sample
  obtain ⟨hashes, hhashes, -, cid, hpublished, hindexer, -, -, hbatch⟩ := published_unread sample_reliable hexec
  rw [sample_unconfirmed] at hhashes
  subst hhashes
  exact ⟨w', cid, hpublished, hindexer, hbatch (by decide +kernel)⟩

/-- Whoever takes the event finds nothing of it. -/
theorem sample_unread : ¬ ∀ (p : Packer) (w w' : World) (chain : Chain) (txHash : String)
    (ipfsGet : String → Option String), Reliable p →
      Exec (syncChain p chain).run w (.ok (some txHash)) w' →
      (∀ cid content, (cid, content) ∈ w'.objects → ipfsGet cid = String.fromUTF8? content) →
      ∀ cid, Published p w w' ((unconfirmed p.order chain w.node).map MessageRow.itemHash) cid →
        ReadBack p ipfsGet cid.toUTF8 ((unconfirmed p.order chain w.node).map MessageRow.itemHash) := by
  intro h
  obtain ⟨w', txHash, hexec⟩ := exec_sample
  obtain ⟨-, hne, cid, hpublished⟩ := exec_syncChain hexec
  have hfetch : ∀ c content, (c, content) ∈ w'.objects → some sampleText = String.fromUTF8? content := by
    intro c content hmem
    rw [hpublished.object] at hmem
    obtain ⟨rfl, rfl⟩ := Prod.mk.inj (List.mem_singleton.1 hmem)
    exact (fromUTF8?_toUTF8 sampleText).symm
  have hread := h samplePacker sampleWorld w' .eth txHash (fun _ => some sampleText) sample_reliable hexec hfetch cid
    hpublished
  have hindexer := hread.ethereumIndexer
  have hcid := sample_reliable.cid _ _ hpublished.identifier
  rw [(unread_of_cid sample_reliable hcid).1, sample_unconfirmed] at hindexer
  exact not_recovers_nil (by simp) hindexer

end Sample

end AlephCore.TxPacker
