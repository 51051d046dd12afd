import AlephCore.Handlers.Context

/-!
# Store — the store message handler

Mirrors `handlers/store.rs`: a file is recorded, pinned for its owner and tagged.
-/

namespace AlephCore.StoreHandler

open ProgE

/-- Files up to this size are free (25 MiB). -/
def maxFreeFileSize : Nat := 25 * 1024 * 1024

def isAsciiHexdigit (c : Char) : Bool :=
  c.isDigit || ('a' ≤ c && c ≤ 'f') || ('A' ≤ c && c ≤ 'F')

/-- 64 hexadecimal characters. -/
def isHex64 (hash : String) : Bool := hash.utf8ByteSize == 64 && hash.toList.all isAsciiHexdigit

def validateIpfsHash (hash : String) : Bool :=
  ("Qm".toList.isPrefixOf hash.toList && hash.utf8ByteSize == 46) ||
  ("b".toList.isPrefixOf hash.toList && 50 ≤ hash.utf8ByteSize) || isHex64 hash

/-- Validate that the item type matches the hash format. -/
def validateItemTypeHash (itemType : ItemType) (hash : String) : Except HandlerError Unit :=
  match itemType with
  | .ipfs =>
    if validateIpfsHash hash then .ok ()
    else .error (.invalidContent s!"Invalid IPFS hash format: {hash}")
  | .storage =>
    if isHex64 hash then .ok ()
    else .error (.invalidContent s!"Invalid storage hash format (expected 64 hex chars): {hash}")
  | .inline => .ok ()

def validateRef (ref_ : String) : Except HandlerError Unit :=
  if ref_ = "" then .error (.invalidContent "ref field cannot be empty string") else .ok ()

/-- The file tag key for versioning: `owner:ref`, or `owner:item_hash` without a `ref`. -/
def makeFileTag (env : Env) (owner : Address) (ref_ : Option String) (itemHash : ItemHash) : String :=
  match ref_ with
  | some r =>
    if r = "" then s!"{env.toLowercase owner}:{itemHash}" else s!"{env.toLowercase owner}:{r}"
  | none => s!"{env.toLowercase owner}:{itemHash}"

/-- A `ref` that names a message must name a STORE message without a `ref` of its own. -/
def validateRefTarget (ref_ : String) (ctx : HandlerContext) : Db HandlerError Unit := do
  match ← db (PgDatabase.getMessage ref_) with
  | none => pure ()
  | some targetMsg =>
    if targetMsg.messageType ≠ .store then
      throw (.invalidContent s!"ref target {ref_} is not a STORE message")
    else
      match targetMsg.itemContent.map (ctx.env.fromStr StoreContent.decode) with
      | some (.ok targetContent) =>
        if targetContent.ref_.isSome then
          throw (.invalidContent "Cannot create revision chain: ref target has its own ref")
        else pure ()
      | _ => pure ()

def validate : HandlerStep := fun message ctx => do
  let content ← fromExcept (parseContent ctx.env StoreContent.decode
    (fun e => s!"Invalid store content: {e}") message)
  if content.itemHash = "" then throw (.invalidContent "Empty item_hash")
  else
    fromExcept (validateItemTypeHash content.itemType content.itemHash)
    match content.ref_ with
    | none => pure ()
    | some ref_ =>
      fromExcept (validateRef ref_)
      if isHex64 ref_ then validateRefTarget ref_ ctx else pure ()

/-- The tag a message with a `ref` writes must belong to its address. -/
def checkTagOwner (content : StoreContent) (ref_ : String) (ctx : HandlerContext) :
    Db HandlerError Unit := do
  let tag := makeFileTag ctx.env content.address (some ref_) content.itemHash
  match ← db (PgDatabase.getFileTag tag) with
  | none => pure ()
  | some existingTag =>
    if ctx.env.SameAddress existingTag.owner content.address then pure ()
    else throw (.permissionDenied s!"Address {content.address} does not own file tag {tag}")

def checkPermissions : HandlerStep := fun message ctx => do
  let content ← fromExcept (parseContent ctx.env StoreContent.decode (fun e => e) message)
  requireAuthorization message content.address ctx
  match content.ref_ with
  | none => pure ()
  | some ref_ => checkTagOwner content ref_ ctx

/-- Cost per MiB of storage: held, and in credits. -/
def storageHolding : ℚ := 16 / 1000000000

def storageCredit : ℚ := 33 / 10000

/-- Whole MiB of a file. -/
def sizeMib (fileSize : Nat) : ℚ := (fileSize / (1024 * 1024) : ℕ)

def checkBalance : HandlerStep := fun message ctx => do
  let content ← fromExcept (parseContent ctx.env StoreContent.decode (fun e => e) message)
  let fileSize := content.size.getD 0
  if fileSize ≤ maxFreeFileSize then pure ()
  else
    match content.payment with
    | none => pure ()
    | some payment =>
      match payment.paymentType with
      | .superfluid => pure ()
      | .hold => do
        match ← db (PgDatabase.getBalance content.address payment.chain.toString) with
        | none => pure ()
        | some balance =>
          let totalExisting ← db (PgDatabase.getTotalCostForAddress content.address "hold")
          if balance < totalExisting + storageHolding * sizeMib fileSize then
            throw .insufficientBalance
          else pure ()
      | .credit => do
        match ← db (PgDatabase.getCreditBalance content.address) with
        | none => pure ()
        | some balance =>
          let totalExisting ← db (PgDatabase.getTotalCostForAddress content.address "credit")
          if balance < totalExisting + storageCredit * sizeMib fileSize then
            throw .insufficientCredit
          else pure ()

/-- The pin of a STORE message. -/
def pinOf (message : Message) (content : StoreContent) (now : Timestamp) : FilePinRecord :=
  { itemHash := content.itemHash, owner := content.address, size := asI64 (content.size.getD 0),
    contentType := content.contentType, pinType := .message, ref_ := content.ref_, deleteBy := none,
    messageHash := some message.itemHash, createdAt := now }

/-- The tag of a STORE message. -/
def tagOf (env : Env) (message : Message) (content : StoreContent) : FileTagRecord :=
  { tag := makeFileTag env content.address content.ref_ content.itemHash, owner := content.address,
    fileHash := content.itemHash, lastUpdated := message.time }

/-- The cost record of a STORE message with a payment. -/
def costOf (message : Message) (content : StoreContent) (payment : PaymentInfo) : AccountCostRecord :=
  let sizeMib := sizeMib (content.size.getD 0)
  { owner := content.address, itemHash := message.itemHash, costType := "STORAGE", name := "storage",
    refHash := some content.itemHash, paymentType := payment.paymentType.toString,
    costHold := storageHolding * sizeMib, costStream := 0, costCredit := storageCredit * sizeMib }

/-- The raw insert: `ON CONFLICT (item_hash, owner) DO UPDATE SET` size, type and message hash. -/
def insertPinRaw (pin : FilePinRecord) : Db DbError Unit :=
  execute fun n => { n with
    filePins := n.filePins.upsert { pin with ref_ := none } fun p => { p with
      size := pin.size
      contentType := pin.contentType.or p.contentType
      messageHash := pin.messageHash } }

/-- Record the cost of a file with payment details. -/
def storeCosts (message : Message) (content : StoreContent) : Db HandlerError Unit :=
  match content.payment with
  | some payment => db (PgDatabase.storeAccountCosts [costOf message content payment])
  | none => pure ()

def process : HandlerStep := fun message ctx => do
  let content ← fromExcept (parseContent ctx.env StoreContent.decode (fun e => e) message)
  db (PgDatabase.upsertFile content.itemHash (content.size.getD 0) .file)
  db (PgDatabase.insertFilePinTyped (pinOf message content ctx.now))
  db (PgDatabase.upsertFileTag (tagOf ctx.env message content))
  storeCosts message content
  db (insertPinRaw (pinOf message content ctx.now))

def handler : MessageHandler := ⟨validate, checkPermissions, checkBalance, process⟩

end AlephCore.StoreHandler
