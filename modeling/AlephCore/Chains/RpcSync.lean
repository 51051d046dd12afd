import AlephCore.Chains.SyncFormat
import AlephCore.Lib.BlockRange
import AlephCore.Lib.Loop

/-!
# RpcSync — fetching the sync events of the contract by ranges of blocks

Mirrors `fetch_sync_events` and `decode_sync_event` of `chains/rpc_sync.rs`.  The node answers a query for a range with
the logs of its blocks or with an error; the window is halved after an error, with a least size, and doubled after a
success.  Block numbers are words of 64 bits, and a sum that overflows ends the call, as it does with overflow checks.
-/

namespace AlephCore.RpcSync

open BlockRange Loop SyncFormat

variable {Address : Type} [DecidableEq Address]

/-! ## Decoding -/

/-- A log, with where it was found. -/
structure RpcLog extends Log where
  blockNumber : Option Nat
  transactionHash : Option String

/-- What is needed of the ABI: the topic of the event, the texts of addresses, and the decoding of
`(uint256 timestamp, address addr, string message)`. -/
structure EventAbi (Address : Type) where
  topic : String
  debug : Address → String
  parse : String → Option Address
  parse_debug : ∀ address, parse (debug address) = some address
  decode : ByteArray → Except String (Nat × Address × String)

/-- RPC sync client for direct blockchain sync. -/
structure RpcSyncClient (Address : Type) where
  abi : EventAbi Address
  /-- Maximum block range per query. -/
  maxBlockRange : Nat
  maxBlockRange_pos : 0 < maxBlockRange
  /-- Authorized emitters (empty: accept all). -/
  authorizedEmitters : List Address

inductive RpcSyncError where
  | rpc (e : String)
  | tooManyLogs (start stop : Nat)
  | abiDecode (e : String)
  deriving DecidableEq

/-- An address that can be read and is not on the list. -/
def RpcSyncClient.refuses (client : RpcSyncClient Address) (addr : String) : Bool :=
  client.authorizedEmitters ≠ [] ∧ ∃ emitter ∈ client.abi.parse addr, emitter ∉ client.authorizedEmitters

/-- Decode a raw log; nothing at all if the timestamp does not fit into 64 bits, where `as_u64` panics. -/
def RpcSyncClient.decodeSyncEvent (client : RpcSyncClient Address) (log : RpcLog) :
    Option (Except RpcSyncError (Option DecodedAlephSyncEvent)) :=
  if log.topics.head? ≠ some client.abi.topic then some (.ok none)
  else
    let blockNumber := log.blockNumber.getD 0
    let txHash := log.transactionHash.getD ""
    match client.abi.decode log.data with
    | .error e => some (.error (.abiDecode s!"Failed to decode SyncEvent data at block {blockNumber}: {e}"))
    | .ok (timestamp, address, message) =>
      if timestamp < 2 ^ 64 then
        let addr := client.abi.debug address
        some (.ok (if client.refuses addr then none else some { timestamp, addr, message, blockNumber, txHash }))
      else none

/-- The events of the logs; a log that cannot be decoded is passed over. -/
def RpcSyncClient.syncEvents (client : RpcSyncClient Address) : List RpcLog → Option (List DecodedAlephSyncEvent)
  | [] => some []
  | log :: logs => do
    let decoded ← client.decodeSyncEvent log
    let events ← client.syncEvents logs
    some ((decoded.toOption.bind fun event => event).toList ++ events)

/-! ## Fetching -/

/-- `str::contains`. -/
def contains (s t : String) : Bool := s.toList.tails.any fun rest => t.toList.isPrefixOf rest

/-- The texts by which nodes say that there are too many results. -/
def saysTooMany (e : String) : Bool :=
  contains e "too many" || contains e "query returned more than" || contains e "-32005" ||
    contains e "Log response size exceeded"

example : saysTooMany "query returned more than 10000 results" = true := by decide +kernel

/-- How the node answers a query: not at all well, with an error. -/
abbrev Provider := Nat → Nat → Option String

/-- Fetch logs in a specific block range; a successful query has the logs of its blocks. -/
def getLogsInRange (chain : Nat → List RpcLog) (provider : Provider) (fromBlock toBlock : Nat) :
    Except RpcSyncError (List RpcLog) :=
  match provider fromBlock toBlock with
  | none => .ok (between chain fromBlock toBlock)
  | some e => .error (if saysTooMany e then .tooManyLogs fromBlock toBlock else .rpc e)

structure FetchState where
  blockRange : Nat
  currentStart : Nat
  allEvents : List DecodedAlephSyncEvent
  lastBlock : Nat

/-- How a call ends. -/
inductive Ended (α : Type) where
  | panicked
  | returned (a : α)
  deriving DecidableEq

/-- On success, try to increase the range back to its maximum. -/
def RpcSyncClient.grow (client : RpcSyncClient Address) (blockRange : Nat) : Option Nat :=
  if blockRange < client.maxBlockRange then (add blockRange blockRange).map fun doubled => min doubled client.maxBlockRange
  else some blockRange

/-- What one query does to the state; nothing if it panics. -/
def fetchStep (client : RpcSyncClient Address) (chain : Nat → List RpcLog) (latestBlock : Nat) (provider : Provider)
    (st : FetchState) : Option FetchState := do
  let past ← add st.currentStart st.blockRange
  let currentEnd := min (past - 1) latestBlock
  match getLogsInRange chain provider st.currentStart currentEnd with
  | .ok logs =>
    let events ← client.syncEvents logs
    let next ← add currentEnd 1
    let blockRange ← client.grow st.blockRange
    some { blockRange, currentStart := next, allEvents := st.allEvents ++ events, lastBlock := currentEnd }
  | .error (.tooManyLogs _ _) =>
    let blockRange := max (st.blockRange / 2) 100
    if blockRange < 100 then
      let next ← add currentEnd 1
      some { st with currentStart := next, blockRange := 1000 }
    else some { st with blockRange }
  | .error _ => some { st with blockRange := max (st.blockRange / 2) 100 }

/-- One turn of the loop; it stops early when there are many events. -/
def fetchTurn (client : RpcSyncClient Address) (chain : Nat → List RpcLog) (latestBlock : Nat)
    (providers : Nat → Provider) (attempt : Nat) (st : FetchState) :
    Next FetchState (Ended (List DecodedAlephSyncEvent × Nat)) :=
  if st.currentStart ≤ latestBlock then
    match fetchStep client chain latestBlock (providers attempt) st with
    | none => .done .panicked
    | some st' => if 10000 < st'.allEvents.length then .done (.returned (st'.allEvents, st'.lastBlock)) else .again st'
  else .done (.returned (st.allEvents, st.lastBlock))

/-- Fetch all sync events from the start block on, with so many queries at most.  The answers may depend on the number of
the query, so that any sequence of outcomes is one of them. -/
def fetchSyncEvents (client : RpcSyncClient Address) (chain : Nat → List RpcLog) (blockNumber : Except String Nat)
    (providers : Nat → Provider) (startBlock fuel : Nat) :
    Option (Ended (Except RpcSyncError (List DecodedAlephSyncEvent × Nat))) :=
  match blockNumber with
  | .error e => some (.returned (.error (.rpc e)))
  | .ok latestBlock =>
    if latestBlock < startBlock then some (.returned (.ok ([], latestBlock)))
    else
      (run (fetchTurn client chain latestBlock providers) fuel 0 ⟨client.maxBlockRange, startBlock, [], startBlock⟩).map
        fun ended =>
          match ended with
          | .panicked => .panicked
          | .returned r => .returned (.ok r)

end AlephCore.RpcSync
