import AlephCore.Handlers.Store
import AlephCore.Web.Posts

/-!
# StorageRefs — the readers of file tags

Mirrors `get_storage_by_ref` and `get_storage_by_address_ref` of `web/handlers.rs`, which look a file up by a tag of
the table `file_tags`, and the first one by a STORE message as well.
-/

namespace AlephCore.Web

open ProgE

/-- The answer for a file. -/
structure FileMetadataResponse where
  ref_ : String
  owner : Address
  fileHash : ItemHash
  downloadUrl : String
  size : Int

/-- An answer with its status code. -/
inductive RefResponse where
  | ok (r : FileMetadataResponse)
  | notFound (error : String)
  | internalError (error : String)

def metadata (ref_ : String) (owner : Address) (fileHash : ItemHash) (size : Int) : RefResponse :=
  .ok { ref_, owner, fileHash, downloadUrl := "/api/v0/storage/raw/" ++ fileHash, size }

section Readers

variable (order : SqlOrder)

/-- `SELECT item_hash FROM file_tags WHERE … LIMIT 1`. -/
def taggedFile (p : FileTag → Prop) [DecidablePred p] (n : Node) : Option ItemHash :=
  ((order.scan n.fileTags.rows).find? fun t => decide (p t)).map FileTag.itemHash

/-- A pin of the file. -/
def somePin (fileHash : ItemHash) (n : Node) : Option FilePinRecord :=
  (order.scan n.filePins.rows).find? fun p => decide (p.itemHash = fileHash)

/-- Its size; 0 if there is none or the query fails. -/
def pinnedSize (fileHash : ItemHash) : Db DbError Int :=
  orDefault 0 (query fun n => ((somePin order fileHash n).map FilePinRecord.size).getD 0)

/-- Its owner and size. -/
def pinnedOwner (fileHash : ItemHash) : Db DbError (Address × Int) :=
  orDefault ("unknown", 0) (query fun n =>
    ((somePin order fileHash n).map fun p => (p.owner, p.size)).getD ("unknown", 0))

/-- The answer for a tagged file. -/
def taggedResponse (ref_ : String) (fileHash : ItemHash) : Db DbError RefResponse := do
  let (owner, size) ← pinnedOwner order fileHash
  pure (metadata ref_ owner fileHash size)

/-- Look the reference up among the tags. -/
def storageByTag (ref_ : String) : Db DbError RefResponse := do
  match ← attempt (query (taggedFile order fun t => t.tag = ref_) : Db DbError (Option ItemHash)) with
  | .ok (some fileHash) => taggedResponse order ref_ fileHash
  | .ok none => pure (.notFound s!"No file found for tag {ref_}")
  | .error e => pure (.internalError e)

/-- Does it look like a hash? -/
def looksLikeHash (ref_ : String) : Bool :=
  decide (ref_.utf8ByteSize = 64 ∧ ref_.toList.all fun c => c.isDigit || ('a' ≤ c && c ≤ 'f') || ('A' ≤ c && c ≤ 'F')) ||
    ref_.startsWith "Qm"

/-- The content of the STORE message of that hash. -/
def storeContentOf (env : Env) (ref_ : ItemHash) (n : Node) : Option StoreContent :=
  (n.messages.find? ref_).bind fun m =>
    if m.messageType = .store then
      m.itemContent.bind fun s => (env.fromStr StoreContent.decode s).toOption
    else none

/-- Get storage metadata by ref. -/
def getStorageByRef (env : Env) (ref_ : String) : Db DbError RefResponse := do
  if looksLikeHash ref_ then
    match ← attempt (query (taggedFile order fun t => t.tag = ref_ ∨ t.itemHash = ref_) :
        Db DbError (Option ItemHash)) with
    | .ok (some fileHash) => taggedResponse order ref_ fileHash
    | .ok none => do
      match ← orDefault none (query (storeContentOf env ref_)) with
      | some content => do
        let size ← pinnedSize order content.itemHash
        pure (metadata ref_ content.address content.itemHash size)
      | none => storageByTag order ref_
    | .error e => pure (.internalError e)
  else storageByTag order ref_

/-- Get storage metadata by ref with address. -/
def getStorageByAddressRef (address : Address) (ref_ : String) : Db DbError RefResponse := do
  let tag := address ++ "/" ++ ref_
  match ← attempt (query (taggedFile order fun t => t.tag = tag) : Db DbError (Option ItemHash)) with
  | .ok (some fileHash) => do
    let size ← pinnedSize order fileHash
    pure (metadata ref_ address fileHash size)
  | .ok none => pure (.notFound s!"No file found for tag {tag}")
  | .error e => pure (.internalError e)

end Readers

end AlephCore.Web
