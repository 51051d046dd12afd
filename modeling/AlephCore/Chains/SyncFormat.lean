import AlephCore.Env

/-!
# SyncFormat — the format of the sync events, as it is read

Mirrors `chains/abi.rs`, the parsing of `chains/rpc_sync.rs` and `chains/indexer.rs`, and the batch of
`jobs/chain_sync.rs`.  The contract emits an event with a content; RPC and indexer sync expect in it an object
that names a batch on IPFS, the Ethereum indexer a list of hashes.
-/

namespace AlephCore.SyncFormat

open Serde

/-! ## Events -/

/-- Parsed sync message content; `content` names the batch on IPFS. -/
structure SyncMessageContent where
  protocol : String
  version : Nat
  content : String

def SyncMessageContent.decode : Decode SyncMessageContent := fun x => do
  let s ← asStruct ["protocol", "version", "content"] x
  let protocol ← s.required "protocol" 0 asString
  let version ← s.required "version" 1 (asUInt 32)
  let content ← s.required "content" 2 asString
  pure { protocol, version, content }

/-- A decoded sync event of the contract. -/
structure DecodedAlephSyncEvent where
  timestamp : Nat
  addr : String
  message : String
  blockNumber : Nat
  txHash : String
  deriving DecidableEq

/-- A sync event from the indexer. -/
structure IndexerSyncEvent where
  transaction : String
  height : Nat
  timestamp : Nat
  address : String
  message : String
  deriving DecidableEq

/-- Parse sync message to get the IPFS content hash. -/
def parseSyncMessage (env : Env) (message : String) : Except String SyncMessageContent :=
  (env.fromStr SyncMessageContent.decode message).mapError fun e => s!"Failed to parse sync message: {e}"

/-- Extract IPFS identifiers, with the block, from decoded sync events. -/
def extractIpfsCids (env : Env) (events : List DecodedAlephSyncEvent) : List (String × Nat) :=
  events.filterMap fun event =>
    ((env.fromStr SyncMessageContent.decode event.message).toOption).map fun c => (c.content, event.blockNumber)

/-! ## Batches -/

structure IpfsBatchMessages where
  messages : List Message

def IpfsBatchMessages.decode : Decode IpfsBatchMessages := fun x => do
  let s ← asStruct ["messages"] x
  let messages ← s.required "messages" 0 (asVec Message.decode)
  pure { messages }

/-- A batch of messages on IPFS. -/
structure IpfsBatchContent where
  protocol : String
  version : Nat
  content : IpfsBatchMessages

def IpfsBatchContent.decode : Decode IpfsBatchContent := fun x => do
  let s ← asStruct ["protocol", "version", "content"] x
  let protocol ← s.required "protocol" 0 asString
  let version ← s.required "version" 1 (asUInt 32)
  let content ← s.required "content" 2 IpfsBatchMessages.decode
  pure { protocol, version, content }

/-- The messages of a batch that can be read. -/
def batchMessages (env : Env) (content : String) : Option (List Message) :=
  (env.fromStr IpfsBatchContent.decode content).toOption.map fun batch => batch.content.messages

/-! ## Logs -/

/-- What is needed of the ABI: the topic of the event, the selector of the call, and the coding of `bytes`. -/
structure Abi where
  syncMessage : String
  selector : ByteArray
  encode : ByteArray → ByteArray
  decode : ByteArray → Except String ByteArray

/-- A log of the contract. -/
structure Log where
  topics : List String
  data : ByteArray

inductive AbiError where
  | missingTopic
  | invalidSignature
  | decodeFailed (e : String)
  | invalidMessage (e : String)

/-- Decode a `SyncMessage` event from a log. -/
def decodeSyncEvent (abi : Abi) (log : Log) : Except AbiError ByteArray :=
  match log.topics with
  | [] => .error .missingTopic
  | topic :: _ =>
    if topic ≠ abi.syncMessage then .error .invalidSignature
    else (abi.decode log.data).mapError .decodeFailed

/-- Parse the content of a `SyncMessage` event: a list of hashes to fetch. -/
def parseSyncContent (env : Env) (content : ByteArray) : Except AbiError (List ItemHash) :=
  match String.fromUTF8? content with
  | none => .error (.invalidMessage "Invalid UTF-8")
  | some s => (env.fromStr (asVec asString) s).mapError fun e => .invalidMessage s!"Invalid JSON: {e}"

/-- The hashes the Ethereum indexer takes from a log; what cannot be parsed is passed over. -/
def syncHashes (env : Env) (abi : Abi) (log : Log) : List ItemHash :=
  match decodeSyncEvent abi log with
  | .error _ => []
  | .ok content => ((parseSyncContent env content).toOption).getD []

/-! ## Texts that are no JSON -/

variable {env : Env}

/-- A text that does not parse is no sync message. -/
theorem extractIpfsCids_of_error {event : DecodedAlephSyncEvent} {e : String}
    (h : env.parseJson event.message = .error e) : extractIpfsCids env [event] = [] := by
  have hcontent : env.fromStr SyncMessageContent.decode event.message = .error e := by
    rw [Env.fromStr, h]
    rfl
  rw [extractIpfsCids, List.filterMap_cons_none]
  · rfl
  · rw [hcontent]
    rfl

theorem parseSyncMessage_of_error {message e : String} (h : env.parseJson message = .error e) :
    (parseSyncMessage env message).toOption = none := by
  rw [parseSyncMessage, Env.fromStr, h]
  rfl

theorem syncHashes_of_error {abi : Abi} {log : Log} {content : ByteArray} {s e : String}
    (hlog : decodeSyncEvent abi log = .ok content) (hs : String.fromUTF8? content = some s)
    (h : env.parseJson s = .error e) : syncHashes env abi log = [] := by
  rw [syncHashes, hlog]
  simp only [parseSyncContent, hs, Env.fromStr, h]
  rfl

/-- The fields of a struct that is written as an array are its elements. -/
theorem seq_of_asStruct {known : List String} {xs : List Json} {s : Source} (h : asStruct known (.arr xs) = .ok s) :
    s = .seq xs := by
  simp only [asStruct] at h
  split_ifs at h
  exact (Except.ok.inj h).symm

/-- **A list of texts is no batch**: a batch has a version, which is a number. -/
theorem batchMessages_of_list {content : String} {hashes : List String}
    (h : env.parseJson content = .ok (.arr (hashes.map .str))) : batchMessages env content = none := by
  have hdecode : ∀ batch, env.fromStr IpfsBatchContent.decode content ≠ .ok batch := by
    intro batch hbatch
    obtain ⟨x, hx, hbatch⟩ := bind_ok.1 hbatch
    obtain rfl := Except.ok.inj (h.symm.trans hx)
    obtain ⟨s, hs, hbatch⟩ := bind_ok.1 hbatch
    obtain ⟨protocol, -, hbatch⟩ := bind_ok.1 hbatch
    obtain ⟨version, hversion, -⟩ := bind_ok.1 hbatch
    obtain rfl := seq_of_asStruct hs
    unfold Source.required at hversion
    simp only [Source.get?, List.getElem?_map] at hversion
    cases hfield : hashes[1]? with
    | none =>
      rw [hfield] at hversion
      cases hversion
    | some text =>
      rw [hfield] at hversion
      cases hversion
  unfold batchMessages
  cases hbatch : env.fromStr IpfsBatchContent.decode content with
  | error e => rfl
  | ok batch => exact absurd hbatch (hdecode batch)

end AlephCore.SyncFormat
