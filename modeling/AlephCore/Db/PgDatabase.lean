import AlephCore.Env
import AlephCore.Db.Schema
import Mathlib.Data.List.Sort

/-!
# PgDatabase — the database operations of the handlers

Mirrors `db/pg_database.rs`: every method is the SQL statements it issues, one after another.
-/

namespace AlephCore.PgDatabase

open ProgE

/-- PostgreSQL's answer to an insert that breaks a primary key. -/
def duplicateKey : DbError := "duplicate key value violates unique constraint"

/-- PostgreSQL's answer to a row that is affected twice by one statement. -/
def affectedTwice : DbError := "ON CONFLICT DO UPDATE command cannot affect row a second time"

/-! ## Messages -/

def getMessage (itemHash : ItemHash) : Db DbError (Option Message) :=
  query fun n => (n.messages.find? itemHash).map MessageRow.message

def deleteMessage (itemHash : ItemHash) : Db DbError Unit :=
  execute fun n => { n with messages := n.messages.delete (·.itemHash = itemHash) }

/-! ## Aggregates -/

/-- The content, whatever the dirty mark says. -/
def getAggregate (address : Address) (key : String) : Db DbError (Option Value) :=
  query fun n => (n.aggregates.find? (address, key)).map AggregateRow.content

/-! ## Posts -/

def getPost (itemHash : ItemHash) : Db DbError (Option PostRecord) :=
  query fun n => n.posts.find? itemHash

/-! ## Files and pins -/

/-- Some pin of the file. -/
def getFilePin (order : SqlOrder) (itemHash : ItemHash) : Db DbError (Option FilePinRecord) :=
  query fun n => (order.scan n.filePins.rows).find? fun p => decide (p.itemHash = itemHash)

/-- Every pin of the file goes, whoever owns it. -/
def removeFilePin (itemHash : ItemHash) (_owner : Address) : Db DbError Unit :=
  execute fun n => { n with filePins := n.filePins.delete (·.itemHash = itemHash) }

def upsertFile (hash : ItemHash) (size : Nat) (fileType : FileType) : Db DbError Unit :=
  execute fun n => { n with
    files := n.files.upsert ⟨hash, asI64 size, fileType⟩ fun f =>
      { f with size := asI64 size, fileType } }

def getFile (hash : ItemHash) : Db DbError (Option FileRecord) :=
  query fun n => n.files.find? hash

/-- `INSERT INTO file_pins … ON CONFLICT (item_hash, owner, pin_type) DO UPDATE SET f`.  A pin of
another type under the same file and owner breaks the primary key. -/
def insertPin (pin : FilePinRecord) (f : FilePinRecord → FilePinRecord)
    (hf : ∀ p, ((f p).itemHash, (f p).owner) = (p.itemHash, p.owner) := by intro p; rfl) :
    Db DbError Unit :=
  sql fun n =>
    if ∃ p ∈ n.filePins.rows, (p.itemHash, p.owner) = (pin.itemHash, pin.owner) ∧
        p.pinType ≠ pin.pinType then
      (.error duplicateKey, n)
    else
      (.ok (), { n with filePins := n.filePins.upsert pin f hf })

def insertFilePinTyped (pin : FilePinRecord) : Db DbError Unit :=
  insertPin pin fun p => { p with
    size := pin.size
    contentType := pin.contentType.or p.contentType
    ref_ := pin.ref_
    deleteBy := pin.deleteBy
    messageHash := pin.messageHash }

def deleteFilePinByMessage (messageHash : ItemHash) : Db DbError Unit :=
  execute fun n => { n with filePins := n.filePins.delete (·.messageHash = some messageHash) }

def countActivePins (fileHash : ItemHash) : Db DbError Nat :=
  query fun n => n.filePins.rows.countP fun p => decide (p.itemHash = fileHash ∧ p.Active)

def insertGracePeriodPin (now : Timestamp) (fileHash : ItemHash) (owner : Address)
    (deleteBy : Timestamp) : Db DbError Unit :=
  insertPin
    { itemHash := fileHash, owner, size := 0, contentType := none, pinType := .gracePeriod,
      ref_ := none, deleteBy := some deleteBy, messageHash := none, createdAt := now }
    fun p => { p with deleteBy := some deleteBy }

/-! ## File tags -/

def upsertFileTag (tag : FileTagRecord) : Db DbError Unit :=
  execute fun n => { n with
    fileTagsV2 := n.fileTagsV2.upsert tag fun t =>
      { t with fileHash := tag.fileHash, lastUpdated := tag.lastUpdated } }

def getFileTag (tag : String) : Db DbError (Option FileTagRecord) :=
  query fun n => n.fileTagsV2.find? tag

/-- The message pins of `owner`, each with the time of the message that holds it. -/
def ownerPins (order : SqlOrder) (owner : Address) (n : Node) : List (ItemHash × Timestamp) :=
  (order.scan n.filePins.rows).filterMap fun p =>
    if p.owner = owner ∧ p.pinType = .message then
      (p.messageHash.bind n.messages.find?).map fun m => (p.itemHash, m.time)
    else none

/-- The newest of them. -/
def newestPin (order : SqlOrder) (owner : Address) (n : Node) : Option (ItemHash × Timestamp) :=
  ((ownerPins order owner n).insertionSort fun a b => b.2 ≤ a.2).head?

def refreshFileTag (order : SqlOrder) (tag : String) (owner : Address) : Db DbError Unit := do
  match ← query (newestPin order owner) with
  | some (fileHash, time) =>
    execute fun n => { n with
      fileTagsV2 := n.fileTagsV2.update (·.tag = tag) fun t =>
        { t with fileHash, lastUpdated := time } }
  | none => execute fun n => { n with fileTagsV2 := n.fileTagsV2.delete (·.tag = tag) }

/-! ## Forgetting -/

def getForgottenHashes (hashes : List ItemHash) : Db DbError (List ItemHash) :=
  if hashes.isEmpty then pure []
  else query fun n => (n.forgottenMessages.rows.map ForgottenRow.itemHash).filter (· ∈ hashes)

def markForgotten (itemHash forgetHash : ItemHash) (reason : Option String) : Db DbError Unit :=
  execute fun n => { n with
    forgottenMessages := n.forgottenMessages.insertNew ⟨itemHash, forgetHash, reason⟩ }

def deleteVolumes (vmHash : ItemHash) : Db DbError Unit :=
  execute fun n => { n with vmMachineVolumes := n.vmMachineVolumes.filter (·.vmHash ≠ vmHash) }

def deleteVmVersion (vmHash : ItemHash) : Db DbError Unit :=
  execute fun n => { n with vmVersions := n.vmVersions.delete (·.vmHash = vmHash) }

def deleteAccountCosts (itemHash : ItemHash) : Db DbError Unit :=
  execute fun n => { n with accountCosts := n.accountCosts.delete (·.itemHash = itemHash) }

/-- The rows derived from a message of that type. -/
def deleteDerivedRows (itemHash : ItemHash) (messageType : MessageType) : Db DbError Unit :=
  match messageType with
  | .post => execute fun n => { n with posts := n.posts.delete (·.itemHash = itemHash) }
  | .aggregate => execute fun n => { n with
      aggregateElements := n.aggregateElements.filter (·.itemHash ≠ itemHash) }
  | .store => pure ()
  | .program => do
    deleteVolumes itemHash
    execute fun n => { n with programs := n.programs.delete (·.itemHash = itemHash) }
    deleteVmVersion itemHash
    deleteAccountCosts itemHash
  | .instance => do
    deleteVolumes itemHash
    execute fun n => { n with instances := n.instances.delete (·.itemHash = itemHash) }
    deleteVmVersion itemHash
    deleteAccountCosts itemHash
  | .forget => pure ()

def deleteChainTxs (itemHash : ItemHash) : Db DbError Unit :=
  execute fun n => { n with chainTxs := n.chainTxs.delete (·.itemHash = itemHash) }

def deleteDerivedData (itemHash : ItemHash) (messageType : MessageType) : Db DbError Unit := do
  deleteDerivedRows itemHash messageType
  deleteChainTxs itemHash

def getDependentVms (order : SqlOrder) (fileHash : ItemHash) : Db DbError (List ItemHash) :=
  query fun n => order.scan
    ((n.programs.rows.filter fun p => p.codeRef = fileHash ∨ p.runtimeRef = fileHash).map
        ProgramRow.itemHash ++
      (n.instances.rows.filter fun i => i.rootfsRef = fileHash).map InstanceRow.itemHash).dedup

/-! ## Balances and costs -/

def getBalance (address : Address) (chain : String) : Db DbError (Option ℚ) :=
  query fun n => (n.balances.find? (address, chain)).map BalanceRow.balance

def getCreditBalance (address : Address) : Db DbError (Option ℚ) :=
  query fun n => (n.creditBalances.find? address).map CreditBalanceRow.balance

def getTotalCostForAddress (address : Address) (paymentType : String) : Db DbError ℚ :=
  query fun n =>
    ((n.accountCosts.rows.filter fun c => c.owner = address ∧ c.paymentType = paymentType).map
      fun c => if paymentType = "credit" then c.costCredit else c.costHold).sum

def storeAccountCosts (costs : List AccountCostRecord) : Db DbError Unit :=
  forEach (fun cost => execute fun n => { n with
    accountCosts := n.accountCosts.upsert cost fun c => { c with
      refHash := cost.refHash
      paymentType := cost.paymentType
      costHold := cost.costHold
      costStream := cost.costStream
      costCredit := cost.costCredit } }) costs

/-! ## Virtual machines -/

def storeInstance (itemHash : ItemHash) (content : InstanceContent) (sender : Address) :
    Db DbError Unit :=
  execute fun n => { n with
    instances := n.instances.insertNew
      { itemHash, owner := sender, rootfsRef := content.rootfs.parent.ref_,
        allowAmend := content.allowAmend, replaces := content.replaces, time := some content.time } }

def storeProgram (itemHash : ItemHash) (content : ProgramContent) (sender : Address) :
    Db DbError Unit :=
  execute fun n => { n with
    programs := n.programs.insertNew
      { itemHash, owner := sender, codeRef := content.code.ref_, runtimeRef := content.runtime.ref_,
        allowAmend := content.allowAmend, replaces := content.replaces, time := some content.time } }

def getInstance (itemHash : ItemHash) : Db DbError (Option InstanceRow) :=
  query fun n => n.instances.find? itemHash

def getProgram (itemHash : ItemHash) : Db DbError (Option ProgramRow) :=
  query fun n => n.programs.find? itemHash

def storeVmVolumes (vmHash : ItemHash) (volumes : List VolumeInfo) : Db DbError Unit :=
  forEach (fun volume => execute fun n => { n with
    vmMachineVolumes := n.vmMachineVolumes ++ [⟨vmHash, volume⟩] }) volumes

def upsertVmVersion (vmHash : ItemHash) (owner : Address) (currentVersion : ItemHash)
    (time : Timestamp) : Db DbError Unit :=
  execute fun n => { n with
    vmVersions := n.vmVersions.upsert ⟨vmHash, owner, some currentVersion, some time⟩ fun v =>
      { v with
        currentVersion := if v.lastUpdated.all (· < time) then some currentVersion else v.currentVersion
        lastUpdated := if v.lastUpdated.all (· < time) then some time else v.lastUpdated } }

def isVmAmendAllowed (vmHash : ItemHash) : Db DbError (Option Bool) := do
  match ← query fun n => n.vmVersions.find? vmHash with
  | some version =>
    match version.currentVersion with
    | some currentVersion =>
      match ← query fun n => (n.instances.find? currentVersion).map InstanceRow.allowAmend with
      | some allow => pure (some allow)
      | none => query fun n => (n.programs.find? currentVersion).map ProgramRow.allowAmend
    | none =>
      query fun n => ((n.instances.find? vmHash).map InstanceRow.allowAmend).or
        ((n.programs.find? vmHash).map ProgramRow.allowAmend)
  | none => pure none

/-- Delete the amendments of a VM. -/
def deleteVmUpdates (vmHash : ItemHash) : Db DbError (List ItemHash) := do
  let instRows ← sql fun n =>
    (.ok ((n.instances.rows.filter (·.replaces = some vmHash)).map InstanceRow.itemHash),
      { n with instances := n.instances.delete (·.replaces = some vmHash) })
  let progRows ← sql fun n =>
    (.ok ((n.programs.rows.filter (·.replaces = some vmHash)).map ProgramRow.itemHash),
      { n with programs := n.programs.delete (·.replaces = some vmHash) })
  pure (instRows ++ progRows)

/-- The references that do not stand in a column; an empty list is not looked up. -/
def missingRefs (refs : List ItemHash) (column : Node → List ItemHash) : Db DbError (List ItemHash) :=
  if refs.isEmpty then pure []
  else query fun n => refs.filter fun r => decide (r ∉ column n)

/-- The references that name no pinned file, and those that name no tagged one. -/
def checkVolumeRefsExist (refs useLatestRefs : List ItemHash) :
    Db DbError (List ItemHash × List ItemHash) := do
  let missingPins ← missingRefs refs fun n => n.filePins.rows.map FilePinRecord.itemHash
  let missingTags ← missingRefs useLatestRefs fun n => n.fileTags.rows.map FileTag.itemHash
  pure (missingPins, missingTags)

end AlephCore.PgDatabase
