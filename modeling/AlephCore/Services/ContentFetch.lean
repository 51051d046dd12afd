import AlephCore.Db.PgDatabase

/-!
# ContentFetch — the service that fetches missing contents

Mirrors `services/content_fetch.rs`.  Peers are asked over HTTP and may answer anything; IPFS is the last
resort for `ipfs` items.  What has been fetched is stored in the row of the message, and the message is
queued for processing as coming from a trusted source.
-/

namespace AlephCore.ContentFetch

open ProgE

/-- Maximum peers to try before falling back. -/
def maxPeerAttempts : Nat := 5

/-- Batch size of messages to process per tick. -/
def fetchBatchSize : Nat := 200

/-- Failures after which a message is marked as unfetchable. -/
def maxRetries : Nat := 3

/-- An HTTP response: is the status a success, and the body. -/
structure HttpResponse where
  success : Bool
  body : String

/-- The services of the job, during one tick. -/
structure ContentFetchContext where
  env : Env
  order : SqlOrder
  /-- The clock. -/
  now : Timestamp
  /-- The answer to the `i`-th request for an item: nothing is known about it. -/
  http : ItemHash → Nat → String → Except String HttpResponse
  base64Decode : String → Except String ByteArray
  /-- `IpfsService::get`. -/
  ipfsGet : ItemHash → Except String ByteArray
  /-- The nodes responsible for an item, when sharding is enabled. -/
  sharding : Option (ItemHash → List String)
  /-- The random order in which peers are tried for an item. -/
  shuffle : ItemHash → List String → List String

/-! ## Asking a peer -/

/-- Peer storage API response. -/
structure PeerStorageResponse where
  status : String
  content : Option String

def PeerStorageResponse.decode : Serde.Decode PeerStorageResponse := fun x => do
  let s ← Serde.asStruct ["status", "content"] x
  let status ← s.required "status" 0 Serde.asString
  let content ← s.withDefault "content" 1 none (Serde.asOption Serde.asString)
  pure { status, content }

/-- `char::is_whitespace`. -/
def isWhitespace (c : Char) : Bool :=
  let n := c.toNat
  (9 ≤ n && n ≤ 13) || n == 32 || n == 0x85 || n == 0xA0 || n == 0x1680 ||
    (0x2000 ≤ n && n ≤ 0x200A) || n == 0x2028 || n == 0x2029 || n == 0x202F || n == 0x205F || n == 0x3000

/-- Where a peer serves an item. -/
def peerUrl (peer : String) (itemHash : ItemHash) : String :=
  String.ofList (peer.toList.reverse.dropWhile (· = '/')).reverse ++ s!"/api/v0/storage/{itemHash}"

/-- The content in a peer's answer. -/
def decodePeerBody (ctx : ContentFetchContext) (body : PeerStorageResponse) : Except String ByteArray := do
  match body.content with
  | none => .error s!"Peer returned status '{body.status}'"
  | some b64Content =>
    if body.status ≠ "success" then .error s!"Peer returned status '{body.status}'"
    else if b64Content = "" then .error "Peer returned empty content"
    else
      let decoded ← (ctx.base64Decode (String.ofList (b64Content.toList.filter fun c => !isWhitespace c))).mapError
        fun e => s!"Base64 decode error: {e}"
      if decoded.isEmpty then .error "Decoded content is empty" else pure decoded

/-- Fetch content from a single peer's storage API, as the `i`-th request for the item. -/
def fetchFromPeer (ctx : ContentFetchContext) (i : Nat) (peer : String) (itemHash : ItemHash) :
    Except String ByteArray := do
  let response ← ctx.http itemHash i (peerUrl peer itemHash)
  if ¬ response.success then .error "HTTP error status"
  else
    let body ← ctx.env.fromStr PeerStorageResponse.decode response.body
    decodePeerBody ctx body

/-! ## Verifying -/

/-- Verify content hash matches expected item_hash; for `ipfs` the peer is believed. -/
def verifyHash (env : Env) (expectedHash : ItemHash) (itemType : ItemType) (content : ByteArray) : Bool :=
  match itemType with
  | .storage => decide (env.sha256Hex content = expectedHash)
  | .ipfs => if env.sha256Hex content = expectedHash then true else true
  | .inline => false

/-- Bytes as text. -/
def utf8 (content : ByteArray) : Except String String :=
  match String.fromUTF8? content with
  | some s => .ok s
  | none => .error "Content not UTF-8"

/-- Try the peers one after another, from the `i`-th request on: the first content that passes the check,
an error if it is not UTF-8, or nothing. -/
def tryPeers (ctx : ContentFetchContext) (itemHash : ItemHash) (itemType : ItemType) :
    Nat → List String → Except String (Option String)
  | _, [] => .ok none
  | i, peer :: peers =>
    match fetchFromPeer ctx i peer itemHash with
    | .error _ => tryPeers ctx itemHash itemType (i + 1) peers
    | .ok contentBytes =>
      if verifyHash ctx.env itemHash itemType contentBytes then (utf8 contentBytes).map some
      else tryPeers ctx itemHash itemType (i + 1) peers

/-- The responsible nodes, when sharding is enabled. -/
def responsibleNodes (ctx : ContentFetchContext) (itemHash : ItemHash) : List String :=
  (ctx.sharding.map fun s => s itemHash).getD []

/-- The last resort. -/
def fallback (ctx : ContentFetchContext) (itemHash : ItemHash) (itemType : ItemType) :
    Except String String :=
  if itemType = .ipfs then do
    let bytes ← (ctx.ipfsGet itemHash).mapError fun e => s!"IPFS fetch failed: {e}"
    utf8 bytes
  else .error s!"All fetch methods exhausted for {itemHash} (type={itemType.toString})"

/-- Fetch content from peers and verify hash integrity. -/
def fetchAndVerify (ctx : ContentFetchContext) (itemHash : ItemHash) (itemType : ItemType)
    (apiServers : List String) : Except String String := do
  let responsible := responsibleNodes ctx itemHash
  match ← tryPeers ctx itemHash itemType 0 responsible with
  | some content => pure content
  | none =>
    match ← tryPeers ctx itemHash itemType responsible.length
        ((ctx.shuffle itemHash apiServers).take maxPeerAttempts) with
    | some content => pure content
    | none => fallback ctx itemHash itemType

/-! ## The statements -/

/-- The sender whose contents are not fetched. -/
def skippedSender : Address := "0x51A58800b26AA1451aaA803d1746687cB88E0501"

/-- A content is missing and worth fetching. -/
def Unfetched (r : MessageRow) : Prop :=
  r.itemContent = none ∧ (r.itemType = .storage ∨ r.itemType = .ipfs) ∧ r.sender ≠ skippedSender

instance (r : MessageRow) : Decidable (Unfetched r) :=
  inferInstanceAs (Decidable (_ ∧ _ ∧ _))

/-- Messages without content, in random order. -/
def unfetchedMessages (ctx : ContentFetchContext) (n : Node) : List (ItemHash × ItemType) :=
  (((ctx.order.scan n.messages.rows).filter fun r => decide (Unfetched r)).map fun r =>
    (r.itemHash, r.itemType)).take fetchBatchSize

def getUnfetchedMessages (ctx : ContentFetchContext) : Db DbError (List (ItemHash × ItemType)) :=
  query (unfetchedMessages ctx)

/-- `UPDATE messages SET item_content = … WHERE item_hash = … AND item_content IS NULL`. -/
def setContent (itemHash : ItemHash) (content : String) (n : Node) : Node :=
  { n with
    messages := n.messages.update (fun r => r.itemHash = itemHash ∧ r.itemContent = none) fun r =>
      { r with itemContent := some content } }

/-- Store fetched content into the messages table. -/
def storeFetchedContent (itemHash : ItemHash) (content : String) : Db DbError Unit :=
  execute (setContent itemHash content)

/-- Text or `null`. -/
def textOrNull (s : Option String) : Json := s.elim .null .str

/-- `jsonb_build_object` on the row of a message. -/
def rowJson (r : MessageRow) : Json :=
  .obj [("type", .str r.messageType.toString), ("chain", .str r.chain.toString), ("sender", .str r.sender),
    ("signature", .str r.signature), ("item_type", .str r.itemType.toString), ("item_hash", .str r.itemHash),
    ("item_content", textOrNull r.itemContent), ("channel", textOrNull r.channel), ("time", .num (.frac r.time))]

/-- The pending message made from a row. -/
def requeued (now : Timestamp) (r : MessageRow) : PendingMessageDb :=
  { itemHash := r.itemHash, message := rowJson r, receptionTime := now, fetched := true,
    checkMessage := true, retries := 0, nextAttempt := now, trustedSource := true }

/-- Queue the message of a row; a pending one is overwritten but keeps its source. -/
def requeue (now : Timestamp) (itemHash : ItemHash) (n : Node) : Node :=
  match n.messages.find? itemHash with
  | none => n
  | some r => { n with
      pendingMessages := n.pendingMessages.upsert (requeued now r) fun p =>
        { p with message := rowJson r, fetched := true, nextAttempt := now, retries := 0 } }

/-- Queue a message for handler processing after content has been fetched. -/
def queueForProcessing (ctx : ContentFetchContext) (itemHash : ItemHash) : Db DbError Unit :=
  execute (requeue ctx.now itemHash)

/-- Mark a message as unfetchable by setting item_content to empty string. -/
def markUnfetchable (itemHash : ItemHash) : Db DbError Unit := execute (setContent itemHash "")

/-! ## One tick of the loop -/

/-- How often fetching has failed, for each hash. -/
abbrev FailureCounts := List (ItemHash × Nat)

def FailureCounts.get (f : FailureCounts) (itemHash : ItemHash) : Nat :=
  ((f.find? fun p => decide (p.1 = itemHash)).map Prod.snd).getD 0

def FailureCounts.remove (f : FailureCounts) (itemHash : ItemHash) : FailureCounts :=
  f.filter fun p => decide (p.1 ≠ itemHash)

/-- Store and queue; whatever fails is only logged.  The count is kept when storing fails. -/
def saveContent (ctx : ContentFetchContext) (failures : FailureCounts) (itemHash : ItemHash)
    (content : String) : Db DbError FailureCounts := do
  match ← attempt (storeFetchedContent itemHash content) with
  | .error _ => pure failures
  | .ok () => do
    ignore (queueForProcessing ctx itemHash)
    pure (failures.remove itemHash)

/-- Count a failure; the third one marks the message. -/
def countFailure (failures : FailureCounts) (itemHash : ItemHash) : Db DbError FailureCounts :=
  let count := failures.get itemHash + 1
  if maxRetries ≤ count then do
    ignore (markUnfetchable itemHash)
    pure (failures.remove itemHash)
  else pure ((itemHash, count) :: failures.remove itemHash)

/-- What is written for one fetched item. -/
def handleResult (ctx : ContentFetchContext) (failures : FailureCounts) (itemHash : ItemHash) :
    Except String String → Db DbError FailureCounts
  | .ok content => saveContent ctx failures itemHash content
  | .error _ => countFailure failures itemHash

/-- The results one after another. -/
def handleResults (ctx : ContentFetchContext) (servers : List String) :
    FailureCounts → List (ItemHash × ItemType) → Db DbError FailureCounts
  | failures, [] => pure failures
  | failures, (itemHash, itemType) :: rest => do
    let failures ← handleResult ctx failures itemHash (fetchAndVerify ctx itemHash itemType servers)
    handleResults ctx servers failures rest

/-- Prevent unbounded memory growth. -/
def FailureCounts.prune (f : FailureCounts) : FailureCounts :=
  if 100000 < f.length then [] else f

/-- One tick: without peers nothing is fetched. -/
def tick (ctx : ContentFetchContext) (servers : List String) (failures : FailureCounts) :
    Db DbError FailureCounts := do
  let unfetched ← getUnfetchedMessages ctx
  if unfetched.isEmpty || servers.isEmpty then pure failures
  else do
    let failures ← handleResults ctx servers failures unfetched
    pure failures.prune

end AlephCore.ContentFetch
