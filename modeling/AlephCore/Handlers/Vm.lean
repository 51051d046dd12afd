import AlephCore.Handlers.Context

/-!
# Vm — the program and instance message handlers

Mirrors `handlers/vm_common.rs`, `handlers/program.rs` and `handlers/instance.rs`.
-/

namespace AlephCore

open ProgE

namespace VmCommon

/-- The volume references to check: in the pins, and (latest version) in the tags. -/
def collectVolumeRefs (volumes : List VolumeInfo) : List ItemHash × List ItemHash :=
  (volumes.filterMap fun v => match v.source with
      | .immutable ref_ false => some ref_
      | _ => none,
    volumes.filterMap fun v => match v.source with
      | .immutable ref_ true => some ref_
      | _ => none)

/-- Add a reference to the list its `use_latest` flag selects. -/
def addRef (ref_ : ItemHash) (useLatest : Bool) (refs : List ItemHash × List ItemHash) :
    List ItemHash × List ItemHash :=
  if useLatest then (refs.1, refs.2 ++ [ref_]) else (refs.1 ++ [ref_], refs.2)

/-- Validate that volume references exist. -/
def validateVolumeRefs (refs : List ItemHash × List ItemHash) : Db HandlerError Unit :=
  if refs.1.isEmpty ∧ refs.2.isEmpty then pure ()
  else do
    let (missingPins, missingTags) ← db (PgDatabase.checkVolumeRefsExist refs.1 refs.2)
    if missingPins.isEmpty ∧ missingTags.isEmpty then pure ()
    else
      let allMissing := ", ".intercalate (missingPins ++ missingTags)
      throw (.notAllowed s!"Volume references not found: {allMissing}")

/-- Validate that the rootfs is at least as large as its parent file. -/
def validateParentVolumeSize (parentRef : ItemHash) (requestedSizeMib : Nat) :
    Db HandlerError Unit := do
  match ← db (PgDatabase.getFile parentRef) with
  | none => pure ()
  | some fileRecord =>
    let parentSizeMib := (asU64 fileRecord.size + (1024 * 1024 - 1)) % 2 ^ 64 / (1024 * 1024)
    if requestedSizeMib < parentSizeMib then
      throw (.invalidContent (s!"Rootfs size_mib ({requestedSizeMib}) is smaller than parent file " ++
        s!"size ({parentSizeMib} MiB). The rootfs must be at least as large as its parent."))
    else pure ()

/-- Validate amendment (`replaces`) constraints, given what the original itself replaces. -/
def validateAmendment (replaces : ItemHash) (original : Db DbError (Option (Option ItemHash))) :
    Db HandlerError Unit := do
  match ← db original with
  | none => throw (.notAllowed s!"Referenced VM not found: {replaces}")
  | some (some _) =>
    throw (.notAllowed "Cannot amend an amendment (only direct updates allowed)")
  | some none =>
    match ← db (PgDatabase.isVmAmendAllowed replaces) with
    | some true => pure ()
    | some false => throw (.notAllowed s!"VM {replaces} does not allow amendments")
    | none => throw (.notAllowed s!"Could not determine amend status for VM {replaces}")

/-- Validate that the address has sufficient balance for the VM costs. -/
def validateBalance (address : Address) (paymentType : PaymentType) (messageCost : ℚ) :
    Db HandlerError Unit :=
  match paymentType with
  | .superfluid => pure ()
  | .hold => do
    let balance ← db (PgDatabase.getBalance address "ETH")
    let existingCost ← db (PgDatabase.getTotalCostForAddress address "hold")
    if balance.getD 0 < existingCost + messageCost then throw .insufficientBalance else pure ()
  | .credit => do
    let balance ← db (PgDatabase.getCreditBalance address)
    let existingPerSec ← db (PgDatabase.getTotalCostForAddress address "credit")
    if balance.getD 0 < (existingPerSec + messageCost) * 86400 then throw .insufficientCredit
    else pure ()

/-- The balance check of both VM types: the sum of the hold costs, if there are payment details and a
cost service. -/
def checkBalance (address : Address) (payment : Option PaymentInfo)
    (costs : Option (List AccountCostRecord)) : Db HandlerError Unit :=
  match payment, costs with
  | some payment, some costs =>
    validateBalance address payment.paymentType (costs.map AccountCostRecord.costHold).sum
  | _, _ => pure ()

def storeVolumes (itemHash : ItemHash) (volumes : List VolumeInfo) : Db HandlerError Unit :=
  if volumes.isEmpty then pure () else db (PgDatabase.storeVmVolumes itemHash volumes)

def storeCosts : Option (List AccountCostRecord) → Db HandlerError Unit
  | some costs => if costs.isEmpty then pure () else db (PgDatabase.storeAccountCosts costs)
  | none => pure ()

/-- What both VM types store beside their own row. -/
def storeVm (itemHash : ItemHash) (address : Address) (volumes : List VolumeInfo)
    (replaces : Option ItemHash) (time : Timestamp) (costs : Option (List AccountCostRecord)) :
    Db HandlerError Unit := do
  storeVolumes itemHash volumes
  db (PgDatabase.upsertVmVersion (replaces.getD itemHash) address itemHash time)
  storeCosts costs

end VmCommon

namespace ProgramHandler

open VmCommon

def parseContent (env : Env) (message : Message) : Except HandlerError ProgramContent :=
  AlephCore.parseContent env ProgramContent.decode (fun e => s!"Failed to parse program content: {e}")
    message

/-- The costs of a program, if there is a cost service. -/
def costs (message : Message) (content : ProgramContent) (ctx : HandlerContext) :
    Option (List AccountCostRecord) :=
  ctx.cost.map fun service => service.calculateProgramCosts message.itemHash content

def validate : HandlerStep := fun message ctx => do
  let content ← fromExcept (parseContent ctx.env message)
  if content.resources.memory = 0 then throw (.invalidContent "Memory must be > 0")
  else if content.resources.vcpus = 0 then throw (.invalidContent "vCPUs must be > 0")
  else
    validateVolumeRefs (addRef content.runtime.ref_ content.runtime.useLatest
      (addRef content.code.ref_ content.code.useLatest (collectVolumeRefs content.volumes)))
    match content.replaces with
    | none => pure ()
    | some replaces => validateAmendment replaces do
        pure ((← PgDatabase.getProgram replaces).map ProgramRow.replaces)

def checkBalance : HandlerStep := fun message ctx => do
  let content ← fromExcept (parseContent ctx.env message)
  VmCommon.checkBalance content.address content.payment (costs message content ctx)

def process : HandlerStep := fun message ctx => do
  let content ← fromExcept (parseContent ctx.env message)
  db (PgDatabase.storeProgram message.itemHash content message.sender)
  storeVm message.itemHash content.address content.volumes content.replaces content.time
    (costs message content ctx)

def handler : MessageHandler := ⟨validate, checkPermissions, checkBalance, process⟩

end ProgramHandler

namespace InstanceHandler

open VmCommon

def parseContent (env : Env) (message : Message) : Except HandlerError InstanceContent :=
  AlephCore.parseContent env InstanceContent.decode
    (fun e => s!"Failed to parse instance content: {e}") message

/-- The costs of an instance, if there is a cost service. -/
def costs (message : Message) (content : InstanceContent) (ctx : HandlerContext) :
    Option (List AccountCostRecord) :=
  ctx.cost.map fun service => service.calculateInstanceCosts message.itemHash content

def validate : HandlerStep := fun message ctx => do
  let content ← fromExcept (parseContent ctx.env message)
  if content.resources.memory = 0 then throw (.invalidContent "Memory must be > 0")
  else if content.resources.vcpus = 0 then throw (.invalidContent "vCPUs must be > 0")
  else
    validateVolumeRefs (addRef content.rootfs.parent.ref_ content.rootfs.parent.useLatest
      (collectVolumeRefs content.volumes))
    validateParentVolumeSize content.rootfs.parent.ref_ content.rootfs.sizeMib
    match content.replaces with
    | none => pure ()
    | some replaces => validateAmendment replaces do
        pure ((← PgDatabase.getInstance replaces).map InstanceRow.replaces)

def checkBalance : HandlerStep := fun message ctx => do
  let content ← fromExcept (parseContent ctx.env message)
  VmCommon.checkBalance content.address content.payment (costs message content ctx)

def process : HandlerStep := fun message ctx => do
  let content ← fromExcept (parseContent ctx.env message)
  db (PgDatabase.storeInstance message.itemHash content message.sender)
  storeVm message.itemHash content.address content.volumes content.replaces content.time
    (costs message content ctx)

def handler : MessageHandler := ⟨validate, checkPermissions, checkBalance, process⟩

end InstanceHandler

end AlephCore
