import AlephCore.Types.Message

/-!
# Content — what the six message types carry

The content structs of `types/message.rs` with their derived deserialization.
-/

namespace AlephCore

open Serde

/-- Aggregate message content. -/
structure AggregateContent where
  address : Address
  key : String
  content : Value
  time : Timestamp
  deriving DecidableEq

def AggregateContent.decode : Decode AggregateContent := fun x => do
  let s ← asStruct ["address", "key", "content", "time"] x
  let address ← s.required "address" 0 asString
  let key ← s.required "key" 1 asString
  let content ← s.required "content" 2 asValue
  let time ← s.required "time" 3 asF64
  pure { address, key, content, time }

/-- Post message content. -/
structure PostContent where
  address : Address
  postType : String
  content : Value
  ref_ : Option String
  time : Timestamp
  deriving DecidableEq

def PostContent.decode : Decode PostContent := fun x => do
  let s ← asStruct ["address", "type", "content", "ref", "time"] x
  let address ← s.required "address" 0 asString
  let postType ← s.required "type" 1 asString
  let content ← s.required "content" 2 asValue
  let ref_ ← s.optional "ref" 3 asString
  let time ← s.required "time" 4 asF64
  pure { address, postType, content, ref_, time }

/-- Payment type. -/
inductive PaymentType where
  | hold | superfluid | credit
  deriving DecidableEq

namespace PaymentType

def toString : PaymentType → String
  | hold => "hold"
  | superfluid => "superfluid"
  | credit => "credit"

/-- The payment type of that name. -/
def ofString? (s : String) : Option PaymentType :=
  [hold, superfluid, credit].find? fun t => decide (t.toString = s)

end PaymentType

/-- Payment information. -/
structure PaymentInfo where
  chain : Chain
  paymentType : PaymentType
  receiver : Option Address
  deriving DecidableEq

def PaymentInfo.decode : Decode PaymentInfo := fun x => do
  let s ← asStruct ["chain", "type", "receiver"] x
  let chain ← s.required "chain" 0 (asEnum Chain.ofString?)
  let paymentType ← s.required "type" 1 (asEnum PaymentType.ofString?)
  let receiver ← s.optional "receiver" 2 asString
  pure { chain, paymentType, receiver }

/-- Store message content. -/
structure StoreContent where
  address : Address
  itemType : ItemType
  itemHash : ItemHash
  size : Option Nat
  contentType : Option String
  ref_ : Option String
  payment : Option PaymentInfo
  time : Timestamp
  deriving DecidableEq

def StoreContent.decode : Decode StoreContent := fun x => do
  let s ← asStruct ["address", "item_type", "item_hash", "size", "content_type", "ref", "payment",
    "time"] x
  let address ← s.required "address" 0 asString
  let itemType ← s.required "item_type" 1 (asEnum ItemType.ofString?)
  let itemHash ← s.required "item_hash" 2 asString
  let size ← s.optional "size" 3 (asUInt 64)
  let contentType ← s.optional "content_type" 4 asString
  let ref_ ← s.optional "ref" 5 asString
  let payment ← s.optional "payment" 6 PaymentInfo.decode
  let time ← s.required "time" 7 asF64
  pure { address, itemType, itemHash, size, contentType, ref_, payment, time }

/-- Forget message content. -/
structure ForgetContent where
  address : Address
  hashes : List ItemHash
  reason : Option String
  time : Timestamp
  deriving DecidableEq

def ForgetContent.decode : Decode ForgetContent := fun x => do
  let s ← asStruct ["address", "hashes", "reason", "time"] x
  let address ← s.required "address" 0 asString
  let hashes ← s.required "hashes" 1 (asVec asString)
  let reason ← s.optional "reason" 2 asString
  let time ← s.required "time" 3 asF64
  pure { address, hashes, reason, time }

/-! ## Virtual machines -/

/-- VM resource requirements. -/
structure VmResources where
  memory : Nat
  vcpus : Nat
  seconds : Nat
  deriving DecidableEq

def defaultSeconds : Nat := 30

def VmResources.decode : Decode VmResources := fun x => do
  let s ← asStruct ["memory", "vcpus", "seconds"] x
  let memory ← s.required "memory" 0 (asUInt 32)
  let vcpus ← s.required "vcpus" 1 (asUInt 32)
  let seconds ← s.withDefault "seconds" 2 defaultSeconds (asUInt 32)
  pure { memory, vcpus, seconds }

/-- VM environment settings. -/
structure VmEnvironment where
  reproducible : Bool
  internet : Bool
  alephApi : Bool
  sharedCache : Bool
  hypervisor : Option String
  deriving DecidableEq

def VmEnvironment.decode : Decode VmEnvironment := fun x => do
  let s ← asStruct ["reproducible", "internet", "aleph_api", "shared_cache", "hypervisor"] x
  let reproducible ← s.withDefault "reproducible" 0 false asBool
  let internet ← s.withDefault "internet" 1 false asBool
  let alephApi ← s.withDefault "aleph_api" 2 false asBool
  let sharedCache ← s.withDefault "shared_cache" 3 false asBool
  let hypervisor ← s.withDefault "hypervisor" 4 none (asOption asString)
  pure { reproducible, internet, alephApi, sharedCache, hypervisor }

structure CpuRequirements where
  architecture : Option String
  vendor : Option String
  deriving DecidableEq

def CpuRequirements.decode : Decode CpuRequirements := fun x => do
  let s ← asStruct ["architecture", "vendor"] x
  let architecture ← s.optional "architecture" 0 asString
  let vendor ← s.optional "vendor" 1 asString
  pure { architecture, vendor }

structure NodeRequirements where
  nodeHash : Option String
  addressRegex : Option String
  owner : Option String
  deriving DecidableEq

def NodeRequirements.decode : Decode NodeRequirements := fun x => do
  let s ← asStruct ["node_hash", "address_regex", "owner"] x
  let nodeHash ← s.optional "node_hash" 0 asString
  let addressRegex ← s.optional "address_regex" 1 asString
  let owner ← s.optional "owner" 2 asString
  pure { nodeHash, addressRegex, owner }

/-- VM node/CPU requirements. -/
structure VmRequirements where
  cpu : Option CpuRequirements
  node : Option NodeRequirements
  deriving DecidableEq

def VmRequirements.decode : Decode VmRequirements := fun x => do
  let s ← asStruct ["cpu", "node"] x
  let cpu ← s.withDefault "cpu" 0 none (asOption CpuRequirements.decode)
  let node ← s.withDefault "node" 1 none (asOption NodeRequirements.decode)
  pure { cpu, node }

/-- Volume source type. -/
inductive VolumeSource where
  | ephemeral (ephemeral : Bool) (sizeMib : Nat)
  | persistent (persistence : String) (name : String) (sizeMib : Nat)
  | immutable (ref_ : String) (useLatest : Bool)
  deriving DecidableEq

def VolumeSource.decodeEphemeral : Decode VolumeSource := fun x => do
  let s ← asStruct ["ephemeral", "size_mib"] x
  let ephemeral ← s.required "ephemeral" 0 asBool
  let sizeMib ← s.required "size_mib" 1 (asUInt 32)
  pure (.ephemeral ephemeral sizeMib)

def VolumeSource.decodePersistent : Decode VolumeSource := fun x => do
  let s ← asStruct ["persistence", "name", "size_mib"] x
  let persistence ← s.required "persistence" 0 asString
  let name ← s.required "name" 1 asString
  let sizeMib ← s.required "size_mib" 2 (asUInt 32)
  pure (.persistent persistence name sizeMib)

def VolumeSource.decodeImmutable : Decode VolumeSource := fun x => do
  let s ← asStruct ["ref", "use_latest"] x
  let ref_ ← s.required "ref" 0 asString
  let useLatest ← s.required "use_latest" 1 asBool
  pure (.immutable ref_ useLatest)

/-- Untagged: the first variant that fits. -/
def VolumeSource.decode : Decode VolumeSource := fun x =>
  match decodeEphemeral x, decodePersistent x, decodeImmutable x with
  | .ok v, _, _ => .ok v
  | _, .ok v, _ => .ok v
  | _, _, .ok v => .ok v
  | _, _, _ => .error "data did not match any variant of untagged enum VolumeSource"

/-- Volume information. -/
structure VolumeInfo where
  mount : String
  comment : Option String
  source : VolumeSource
  deriving DecidableEq

/-- The source's fields are flattened into the volume's object, so only an object is read. -/
def VolumeInfo.decode : Decode VolumeInfo
  | .obj fs => do
    let s ← asStruct ["mount", "comment"] (.obj fs)
    let mount ← s.withDefault "mount" 0 "" asString
    let comment ← s.withDefault "comment" 1 none (asOption asString)
    let source ← VolumeSource.decode (.obj (fs.filter fun p => p.1 ≠ "mount" ∧ p.1 ≠ "comment"))
    pure { mount, comment, source }
  | _ => .error "invalid type: expected a map"

/-- Runtime information for programs. -/
structure RuntimeInfo where
  ref_ : String
  useLatest : Bool
  comment : Option String
  deriving DecidableEq

def RuntimeInfo.decode : Decode RuntimeInfo := fun x => do
  let s ← asStruct ["ref", "use_latest", "comment"] x
  let ref_ ← s.required "ref" 0 asString
  let useLatest ← s.required "use_latest" 1 asBool
  let comment ← s.optional "comment" 2 asString
  pure { ref_, useLatest, comment }

/-- Code information for programs. -/
structure CodeInfo where
  encoding : String
  entrypoint : String
  ref_ : String
  useLatest : Bool
  deriving DecidableEq

def CodeInfo.decode : Decode CodeInfo := fun x => do
  let s ← asStruct ["encoding", "entrypoint", "ref", "use_latest"] x
  let encoding ← s.required "encoding" 0 asString
  let entrypoint ← s.required "entrypoint" 1 asString
  let ref_ ← s.required "ref" 2 asString
  let useLatest ← s.required "use_latest" 3 asBool
  pure { encoding, entrypoint, ref_, useLatest }

structure DataInfo where
  ref_ : String
  useLatest : Bool
  mount : Option String
  deriving DecidableEq

def DataInfo.decode : Decode DataInfo := fun x => do
  let s ← asStruct ["ref", "use_latest", "mount"] x
  let ref_ ← s.required "ref" 0 asString
  let useLatest ← s.required "use_latest" 1 asBool
  let mount ← s.withDefault "mount" 2 none (asOption asString)
  pure { ref_, useLatest, mount }

structure ExportInfo where
  encoding : Option String
  deriving DecidableEq

def ExportInfo.decode : Decode ExportInfo := fun x => do
  let s ← asStruct ["encoding"] x
  let encoding ← s.optional "encoding" 0 asString
  pure { encoding }

/-- Program (serverless function) content. -/
structure ProgramContent where
  address : Address
  allowAmend : Bool
  runtime : RuntimeInfo
  code : CodeInfo
  resources : VmResources
  environment : Option VmEnvironment
  metadata : Option Value
  vars : Option Value
  volumes : List VolumeInfo
  payment : Option PaymentInfo
  requirements : Option VmRequirements
  replaces : Option String
  data : Option DataInfo
  exportInfo : Option ExportInfo
  time : Timestamp
  deriving DecidableEq

def ProgramContent.decode : Decode ProgramContent := fun x => do
  let s ← asStruct ["address", "allow_amend", "runtime", "code", "resources", "environment",
    "metadata", "variables", "volumes", "payment", "requirements", "replaces", "data", "export",
    "time"] x
  let address ← s.required "address" 0 asString
  let allowAmend ← s.withDefault "allow_amend" 1 true asBool
  let runtime ← s.required "runtime" 2 RuntimeInfo.decode
  let code ← s.required "code" 3 CodeInfo.decode
  let resources ← s.required "resources" 4 VmResources.decode
  let environment ← s.withDefault "environment" 5 none (asOption VmEnvironment.decode)
  let metadata ← s.withDefault "metadata" 6 none (asOption asValue)
  let vars ← s.withDefault "variables" 7 none (asOption asValue)
  let volumes ← s.withDefault "volumes" 8 [] (asVec VolumeInfo.decode)
  let payment ← s.withDefault "payment" 9 none (asOption PaymentInfo.decode)
  let requirements ← s.withDefault "requirements" 10 none (asOption VmRequirements.decode)
  let replaces ← s.withDefault "replaces" 11 none (asOption asString)
  let data ← s.withDefault "data" 12 none (asOption DataInfo.decode)
  let exportInfo ← s.withDefault "export" 13 none (asOption ExportInfo.decode)
  let time ← s.required "time" 14 asF64
  pure ⟨address, allowAmend, runtime, code, resources, environment, metadata, vars, volumes, payment,
    requirements, replaces, data, exportInfo, time⟩

/-- Root filesystem parent reference. -/
structure RootfsParent where
  ref_ : String
  useLatest : Bool
  deriving DecidableEq

def RootfsParent.decode : Decode RootfsParent := fun x => do
  let s ← asStruct ["ref", "use_latest"] x
  let ref_ ← s.required "ref" 0 asString
  let useLatest ← s.required "use_latest" 1 asBool
  pure { ref_, useLatest }

/-- Root filesystem information for instances. -/
structure RootfsInfo where
  parent : RootfsParent
  persistence : String
  sizeMib : Nat
  deriving DecidableEq

def RootfsInfo.decode : Decode RootfsInfo := fun x => do
  let s ← asStruct ["parent", "persistence", "size_mib"] x
  let parent ← s.required "parent" 0 RootfsParent.decode
  let persistence ← s.required "persistence" 1 asString
  let sizeMib ← s.required "size_mib" 2 (asUInt 32)
  pure { parent, persistence, sizeMib }

/-- Instance (VM) content. -/
structure InstanceContent where
  address : Address
  allowAmend : Bool
  rootfs : RootfsInfo
  resources : VmResources
  environment : Option VmEnvironment
  metadata : Option Value
  vars : Option Value
  volumes : List VolumeInfo
  authorizedKeys : List String
  payment : Option PaymentInfo
  requirements : Option VmRequirements
  replaces : Option String
  time : Timestamp
  deriving DecidableEq

def InstanceContent.decode : Decode InstanceContent := fun x => do
  let s ← asStruct ["address", "allow_amend", "rootfs", "resources", "environment", "metadata",
    "variables", "volumes", "authorized_keys", "payment", "requirements", "replaces", "time"] x
  let address ← s.required "address" 0 asString
  let allowAmend ← s.withDefault "allow_amend" 1 true asBool
  let rootfs ← s.required "rootfs" 2 RootfsInfo.decode
  let resources ← s.required "resources" 3 VmResources.decode
  let environment ← s.withDefault "environment" 4 none (asOption VmEnvironment.decode)
  let metadata ← s.withDefault "metadata" 5 none (asOption asValue)
  let vars ← s.withDefault "variables" 6 none (asOption asValue)
  let volumes ← s.withDefault "volumes" 7 [] (asVec VolumeInfo.decode)
  let authorizedKeys ← s.withDefault "authorized_keys" 8 [] (asVec asString)
  let payment ← s.withDefault "payment" 9 none (asOption PaymentInfo.decode)
  let requirements ← s.withDefault "requirements" 10 none (asOption VmRequirements.decode)
  let replaces ← s.withDefault "replaces" 11 none (asOption asString)
  let time ← s.required "time" 12 asF64
  pure ⟨address, allowAmend, rootfs, resources, environment, metadata, vars, volumes, authorizedKeys,
    payment, requirements, replaces, time⟩

end AlephCore
