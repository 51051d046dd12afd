import AlephCore.Handlers.Context

/-!
# Post — the post message handler

Mirrors `handlers/post.rs`: original posts, and amends that name the original they replace.
-/

namespace AlephCore.PostHandler

open ProgE

/-- Check if this is an amend post. -/
def isAmend (env : Env) (postType : String) : Bool := decide (env.toLowercase postType = "amend")

/-- Validate an amend post against its target. -/
def validateAmend (content : PostContent) (ctx : HandlerContext) : Db HandlerError Unit :=
  match content.ref_ with
  | none => throw (.invalidContent
      "Amend post requires a 'ref' field pointing to the original post")
  | some targetRef => do
    match ← db (PgDatabase.getPost targetRef) with
    | none => throw (.targetNotFound s!"Target post {targetRef} not found")
    | some targetPost =>
      if isAmend ctx.env targetPost.postType then
        let originalHash := targetPost.originalItemHash.getD targetPost.itemHash
        throw (.notAllowed
          s!"Cannot amend an amend post. Amend the original post {originalHash} instead")
      else pure ()

def validate : HandlerStep := fun message ctx => do
  let content ← fromExcept (parseContent ctx.env PostContent.decode
    (fun e => s!"Invalid post content: {e}") message)
  if content.postType = "" then throw (.invalidContent "Post type cannot be empty")
  else if isAmend ctx.env content.postType then validateAmend content ctx
  else pure ()

/-- An amend must have the address of its original; a failing look-up is passed over. -/
def checkAmendAddress (content : PostContent) (targetRef : ItemHash) (ctx : HandlerContext) :
    Db HandlerError Unit := do
  match ← attempt (PgDatabase.getPost targetRef) with
  | .ok (some originalPost) =>
    if ctx.env.SameAddress originalPost.address content.address then pure ()
    else throw (.permissionDenied (s!"Cannot amend post {targetRef}: amend address " ++
      s!"{content.address} does not match original post owner {originalPost.address}"))
  | _ => pure ()

/-- The default check, and for amends the address of the original. -/
def checkPermissions : HandlerStep := fun message ctx => do
  AlephCore.checkPermissions message ctx
  match message.itemContent.map (ctx.env.fromStr PostContent.decode) with
  | some (.ok content) =>
    match isAmend ctx.env content.postType, content.ref_ with
    | true, some targetRef => checkAmendAddress content targetRef ctx
    | _, _ => pure ()
  | _ => pure ()

/-- The original an amend belongs to, looked up through its target. -/
def originalOf (targetRef : ItemHash) : Db HandlerError ItemHash := do
  match ← attempt (query fun n => n.posts.find? targetRef : Db DbError (Option PostRecord)) with
  | .ok (some target) => pure (target.originalItemHash.getD target.itemHash)
  | _ => pure targetRef

/-- `INSERT INTO posts … ON CONFLICT (item_hash) DO NOTHING`. -/
def insertPost (record : PostRecord) : Db DbError Unit :=
  execute fun n => { n with posts := n.posts.insertNew record }

def updateLatestAmend (originalHash amendHash : ItemHash) : Db DbError Unit :=
  execute fun n => { n with
    posts := n.posts.update (·.itemHash = originalHash) fun p =>
      { p with latestAmend := some amendHash } }

/-- The row a post message stores. -/
def recordOf (message : Message) (content : PostContent) (originalItemHash : Option ItemHash) :
    PostRecord :=
  { itemHash := message.itemHash, address := content.address, postType := content.postType,
    ref_ := content.ref_, content := content.content, channel := message.channel,
    time := content.time, originalItemHash, latestAmend := none }

def process : HandlerStep := fun message ctx => do
  let content ← fromExcept (parseContent ctx.env PostContent.decode (fun e => e) message)
  if isAmend ctx.env content.postType then
    match content.ref_ with
    | none => throw (.invalidContent "Amend post missing ref field")
    | some targetRef => do
      let originalHash ← originalOf targetRef
      db (insertPost (recordOf message content (some originalHash)))
      db (updateLatestAmend originalHash message.itemHash)
  else db (insertPost (recordOf message content none))

def handler : MessageHandler := ⟨validate, checkPermissions, checkNoBalance, process⟩

end AlephCore.PostHandler
