import AlephCore.Types.Content
import AlephCore.Lib.Table
import AlephCore.Lib.Prog

/-!
# Schema — the tables of the node

One row type for each table of `db/migrations.rs`, and `Node`: all tables, and the file hashes the node
has asked IPFS to unpin.  Primary keys are part of the table types.
-/

namespace AlephCore

/-- A row of `messages`. -/
structure MessageRow where
  itemHash : ItemHash
  messageType : MessageType
  chain : Chain
  sender : Address
  signature : String
  itemType : ItemType
  itemContent : Option String
  channel : Option String
  time : Timestamp
  status : String
  receptionTime : Option Timestamp
  owner : Option String
  contentType : Option String
  contentRef : Option String
  contentKey : Option String
  contentItemHash : Option String
  paymentType : Option String
  deriving DecidableEq

/-- The columns `get_message` reads. -/
def MessageRow.message (r : MessageRow) : Message where
  messageType := r.messageType
  chain := r.chain
  sender := r.sender
  signature := r.signature
  itemType := r.itemType
  itemHash := r.itemHash
  itemContent := r.itemContent
  channel := r.channel
  time := r.time

/-- A row of `pending_messages`. -/
structure PendingMessageDb where
  itemHash : ItemHash
  message : Json
  receptionTime : Timestamp
  fetched : Bool
  checkMessage : Bool
  retries : Int
  nextAttempt : Timestamp
  trustedSource : Bool
  deriving DecidableEq

/-- A row of `rejected_messages`. -/
structure RejectedRow where
  itemHash : ItemHash
  message : Json
  errorCode : Int
  errorMessage : String
  rejectedAt : Timestamp
  deriving DecidableEq

/-- A row of `forgotten_messages`. -/
structure ForgottenRow where
  itemHash : ItemHash
  forgetHash : ItemHash
  reason : Option String
  deriving DecidableEq

/-- A row of `aggregates`. -/
structure AggregateRow where
  address : Address
  key : String
  content : Value
  time : Timestamp
  dirty : Bool
  lastRevisionHash : Option ItemHash
  deriving DecidableEq

/-- A row of `aggregate_elements`. -/
structure AggregateElement where
  address : Address
  key : String
  itemHash : ItemHash
  content : Value
  time : Timestamp
  deriving DecidableEq

/-- A row of `posts`. -/
structure PostRecord where
  itemHash : ItemHash
  address : Address
  postType : String
  ref_ : Option String
  content : Value
  channel : Option String
  time : Timestamp
  originalItemHash : Option ItemHash
  latestAmend : Option ItemHash
  deriving DecidableEq

/-- Type of file pin. -/
inductive PinType where
  | message | tx | content | gracePeriod
  deriving DecidableEq

/-- A row of `file_pins`. -/
structure FilePinRecord where
  itemHash : ItemHash
  owner : Address
  size : Int
  contentType : Option String
  pinType : PinType
  ref_ : Option String
  deleteBy : Option Timestamp
  messageHash : Option ItemHash
  createdAt : Timestamp
  deriving DecidableEq

/-- Not merely kept for the grace period. -/
def FilePinRecord.Active (p : FilePinRecord) : Prop := p.pinType ≠ .gracePeriod

instance (p : FilePinRecord) : Decidable p.Active := inferInstanceAs (Decidable (¬ _ = _))

/-- A `u64` in a `BIGINT` column. -/
def asI64 (n : Nat) : Int := Int.bmod n (2 ^ 64)

/-- A `BIGINT` read as `u64`. -/
def asU64 (n : Int) : Nat := (n % 2 ^ 64).toNat

/-- Type of stored file. -/
inductive FileType where
  | file | directory
  deriving DecidableEq

/-- A row of `files`. -/
structure FileRecord where
  hash : ItemHash
  size : Int
  fileType : FileType
  deriving DecidableEq

/-- A row of `file_tags`. -/
structure FileTag where
  itemHash : ItemHash
  tag : String
  deriving DecidableEq

/-- A row of `file_tags_v2`. -/
structure FileTagRecord where
  tag : String
  owner : Address
  fileHash : ItemHash
  lastUpdated : Timestamp
  deriving DecidableEq

/-- A row of `programs`. -/
structure ProgramRow where
  itemHash : ItemHash
  owner : Address
  codeRef : ItemHash
  runtimeRef : ItemHash
  allowAmend : Bool
  replaces : Option ItemHash
  time : Option Timestamp
  deriving DecidableEq

/-- A row of `instances`. -/
structure InstanceRow where
  itemHash : ItemHash
  owner : Address
  rootfsRef : ItemHash
  allowAmend : Bool
  replaces : Option ItemHash
  time : Option Timestamp
  deriving DecidableEq

/-- A row of `vm_versions`. -/
structure VmVersionRow where
  vmHash : ItemHash
  owner : Address
  currentVersion : Option ItemHash
  lastUpdated : Option Timestamp
  deriving DecidableEq

/-- A row of `vm_machine_volumes`. -/
structure VmVolumeRow where
  vmHash : ItemHash
  volume : VolumeInfo
  deriving DecidableEq

/-- A row of `chain_txs`. -/
structure ChainTxRow where
  hash : String
  chain : String
  height : Int
  itemHash : ItemHash
  deriving DecidableEq

/-- A row of `account_costs`. -/
structure AccountCostRecord where
  owner : Address
  itemHash : ItemHash
  costType : String
  name : String
  refHash : Option ItemHash
  paymentType : String
  costHold : ℚ
  costStream : ℚ
  costCredit : ℚ
  deriving DecidableEq

/-- A row of `balances`. -/
structure BalanceRow where
  address : Address
  chain : String
  balance : ℚ
  deriving DecidableEq

/-- A row of `credit_balances`. -/
structure CreditBalanceRow where
  address : Address
  balance : ℚ
  deriving DecidableEq

/-- The database of the node, and the unpin requests it has sent to IPFS. -/
structure Node where
  messages : Table MessageRow MessageRow.itemHash
  pendingMessages : Table PendingMessageDb PendingMessageDb.itemHash
  rejectedMessages : Table RejectedRow RejectedRow.itemHash
  forgottenMessages : Table ForgottenRow ForgottenRow.itemHash
  aggregates : Table AggregateRow fun r => (r.address, r.key)
  aggregateElements : List AggregateElement
  posts : Table PostRecord PostRecord.itemHash
  filePins : Table FilePinRecord fun p => (p.itemHash, p.owner)
  files : Table FileRecord FileRecord.hash
  fileTags : Table FileTag fun t => (t.itemHash, t.tag)
  fileTagsV2 : Table FileTagRecord FileTagRecord.tag
  programs : Table ProgramRow ProgramRow.itemHash
  instances : Table InstanceRow InstanceRow.itemHash
  vmVersions : Table VmVersionRow VmVersionRow.vmHash
  vmMachineVolumes : List VmVolumeRow
  chainTxs : Table ChainTxRow fun t => (t.hash, t.itemHash)
  accountCosts : Table AccountCostRecord fun c => (c.owner, c.itemHash, c.costType, c.name)
  balances : Table BalanceRow fun b => (b.address, b.chain)
  creditBalances : Table CreditBalanceRow CreditBalanceRow.address
  unpinned : List ItemHash

/-- The node before its first message. -/
def Node.empty : Node where
  messages := .empty
  pendingMessages := .empty
  rejectedMessages := .empty
  forgottenMessages := .empty
  aggregates := .empty
  aggregateElements := []
  posts := .empty
  filePins := .empty
  files := .empty
  fileTags := .empty
  fileTagsV2 := .empty
  programs := .empty
  instances := .empty
  vmVersions := .empty
  vmMachineVolumes := []
  chainTxs := .empty
  accountCosts := .empty
  balances := .empty
  creditBalances := .empty
  unpinned := []

/-- Database errors are texts. -/
abbrev DbError := String

/-- Programs on the node's database. -/
abbrev Db (ε α : Type) := ProgE Node DbError ε α

end AlephCore
