import AlephCore.Handlers.Aggregate
import AlephCore.Handlers.Store

/-!
# Forget — the forget message handler

Mirrors `handlers/forget.rs`: which hashes a sender may forget, and what is deleted with each of them.
-/

namespace AlephCore.ForgetHandler

open ProgE

/-! ## Validation -/

/-- Check if a hash is for a forget message type. -/
def isForgetMessage (itemHash : ItemHash) : Db HandlerError Bool := do
  match ← db (PgDatabase.getMessage itemHash) with
  | some message => pure (decide (message.messageType = .forget))
  | none => pure false

/-- Check if a file hash is used by any VMs. -/
def checkVmDependencies (fileHash : ItemHash) (ctx : HandlerContext) :
    Db HandlerError (Option ItemHash) := do
  let dependentVms ← db (PgDatabase.getDependentVms ctx.order fileHash)
  pure dependentVms.head?

/-- Check ownership of content: the sender of a message, else the owner of a pin, else the address of
a post. -/
def checkOwnership (itemHash : ItemHash) (sender : Address) (ctx : HandlerContext) :
    Db HandlerError Bool := do
  match ← db (PgDatabase.getMessage itemHash) with
  | some message => pure (decide (ctx.env.SameAddress message.sender sender))
  | none =>
    match ← db (PgDatabase.getFilePin ctx.order itemHash) with
    | some pin => pure (decide (ctx.env.SameAddress pin.owner sender))
    | none =>
      match ← db (PgDatabase.getPost itemHash) with
      | some post => pure (decide (ctx.env.SameAddress post.address sender))
      | none => pure false

/-- The signature is verified again, also for a trusted source. -/
def checkSignature (message : Message) (ctx : HandlerContext) : Except HandlerError Unit :=
  match message.verifySignature ctx.env with
  | .error e => .error (.invalidSignature e)
  | .ok false => .error (.invalidSignature "Signature verification failed")
  | .ok true => .ok ()

/-- Validate one of the listed hashes. -/
def validateHash (message : Message) (ctx : HandlerContext) (hash : ItemHash) :
    Db HandlerError Unit := do
  let isForget ← isForgetMessage hash
  if isForget then throw (.notAllowed s!"Cannot forget a forget message: {hash}")
  else
    let alreadyForgotten ← db (PgDatabase.getForgottenHashes [hash])
    if ¬ alreadyForgotten.isEmpty then throw (.duplicate s!"Content already forgotten: {hash}")
    else
      let owned ← checkOwnership hash message.sender ctx
      if ¬ owned then throw (.permissionDenied s!"Not authorized to forget content: {hash}")
      else
        match ← checkVmDependencies hash ctx with
        | some vmHash =>
          throw (.notAllowed s!"Cannot forget file {hash} - it is used by VM {vmHash}")
        | none => pure ()

def validate : HandlerStep := fun message ctx => do
  let content ← fromExcept (parseContent ctx.env ForgetContent.decode
    (fun e => s!"Invalid forget content: {e}") message)
  if content.hashes.isEmpty then
    throw (.invalidContent "Forget message must specify at least one hash to forget")
  else
    fromExcept (checkSignature message ctx)
    forEach (validateHash message ctx) content.hashes

/-! ## Forgetting one hash -/

/-- How long a file without active pins is kept. -/
def gracePeriod : Timestamp := 24 * 3600

/-- The file a STORE message names and its `ref`; without readable content, the message's own hash. -/
def storeTarget (env : Env) (hash : ItemHash) (targetMessage : Message) :
    ItemHash × Option String :=
  match targetMessage.itemContent.map (env.fromStr StoreContent.decode) with
  | some (.ok storeContent) => (storeContent.itemHash, storeContent.ref_)
  | _ => (hash, none)

/-- Handle forgetting a STORE message: drop its pin, refresh the tag, and keep the file for the grace
period if it was the last active pin. -/
def processStoreForget (hash : ItemHash) (address : Address) (targetMessage : Message)
    (ctx : HandlerContext) : Db HandlerError Unit := do
  let (fileHash, ref_) := storeTarget ctx.env hash targetMessage
  db (PgDatabase.deleteFilePinByMessage hash)
  let tag := StoreHandler.makeFileTag ctx.env address ref_ fileHash
  db (PgDatabase.refreshFileTag ctx.order tag address)
  let activePins ← db (PgDatabase.countActivePins fileHash)
  if activePins = 0 then
    db (PgDatabase.insertGracePeriodPin ctx.now fileHash address (ctx.now + gracePeriod))
  else pure ()

/-- The amends of a post. -/
def amendHashes (hash : ItemHash) : Db DbError (List ItemHash) :=
  query fun n =>
    (n.posts.rows.filter (·.originalItemHash = some hash)).map PostRecord.itemHash

/-- Forget an amend together with its original. -/
def forgetAmend (hash amendHash : ItemHash) : Db HandlerError Unit := do
  db (PgDatabase.markForgotten amendHash hash (some "parent post forgotten"))
  db (PgDatabase.deleteDerivedData amendHash .post)
  db (PgDatabase.deleteMessage amendHash)

/-- The aggregate an element belongs to. -/
def elementAggregate (order : SqlOrder) (hash : ItemHash) : Db DbError (Option (Address × String)) :=
  query fun n =>
    ((order.scan n.aggregateElements).find? fun e => decide (e.itemHash = hash)).map fun e =>
      (e.address, e.key)

def deleteElement (hash : ItemHash) : Db DbError Unit :=
  execute fun n => { n with aggregateElements := n.aggregateElements.filter (·.itemHash ≠ hash) }

def deleteAggregate (address : Address) (key : String) : Db DbError Unit :=
  execute fun n => { n with
    aggregates := n.aggregates.delete fun r => (r.address, r.key) = (address, key) }

/-- Delete an element and delete or rebuild its aggregate. -/
def forgetElement (hash : ItemHash) (ctx : HandlerContext) : Db HandlerError Unit := do
  let aggInfo ← db (elementAggregate ctx.order hash)
  db (deleteElement hash)
  match aggInfo with
  | none => pure ()
  | some (address, key) => do
    let remaining ← db (AggregateHandler.countElements address key)
    if remaining = 0 then db (deleteAggregate address key)
    else AggregateHandler.rebuildAggregateFromElements address key

/-- Cascade forget to related data based on message type. -/
def cascadeForget (hash : ItemHash) (messageType : MessageType) (ctx : HandlerContext) :
    Db HandlerError Unit :=
  match messageType with
  | .post => do
    let amends ← db (amendHashes hash)
    forEach (forgetAmend hash) amends
  | .aggregate => forgetElement hash ctx
  | .program | .instance => do
    let _ ← db (PgDatabase.deleteVmUpdates hash)
    db (PgDatabase.deleteAccountCosts hash)
  | .store | .forget => pure ()

/-- Only the pins of a STORE message get a grace period. -/
def forgetPins (hash : ItemHash) (address : Address) (targetMessage : Message)
    (ctx : HandlerContext) : Db HandlerError Unit :=
  if targetMessage.messageType = .store then processStoreForget hash address targetMessage ctx
  else db (PgDatabase.removeFilePin hash address)

/-- What is deleted for a hash whose message is stored. -/
def forgetMessage (hash : ItemHash) (address : Address) (targetMessage : Message)
    (ctx : HandlerContext) : Db HandlerError Unit := do
  forgetPins hash address targetMessage ctx
  cascadeForget hash targetMessage.messageType ctx
  db (PgDatabase.deleteDerivedData hash targetMessage.messageType)

/-- What is deleted beside the message itself; without a message, the pins of a file of that hash. -/
def forgetTarget (hash : ItemHash) (address : Address) (targetMessage : Option Message)
    (ctx : HandlerContext) : Db HandlerError Unit :=
  match targetMessage with
  | some targetMessage => forgetMessage hash address targetMessage ctx
  | none => db (PgDatabase.removeFilePin hash address)

/-- Forget one of the listed hashes. -/
def forgetHash (message : Message) (content : ForgetContent) (ctx : HandlerContext)
    (hash : ItemHash) : Db HandlerError Unit := do
  let targetMessage ← db (PgDatabase.getMessage hash)
  db (PgDatabase.markForgotten hash message.itemHash content.reason)
  forgetTarget hash content.address targetMessage ctx
  db (PgDatabase.deleteMessage hash)

def process : HandlerStep := fun message ctx => do
  let content ← fromExcept (parseContent ctx.env ForgetContent.decode (fun e => e) message)
  forEach (forgetHash message content ctx) content.hashes

def handler : MessageHandler := ⟨validate, checkPermissions, checkNoBalance, process⟩

end AlephCore.ForgetHandler
