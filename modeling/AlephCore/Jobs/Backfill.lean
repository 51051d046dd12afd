import AlephCore.Handlers.Aggregate

/-!
# Backfill — the job that fills the derived tables from the messages

Mirrors `jobs/backfill.rs`: at startup, posts, aggregate elements, instances and programs are made from
stored messages that have none, aggregates are marked dirty, and the denormalized columns are filled.
-/

namespace AlephCore.Backfill

open ProgE Env

/-- Batch size for backfill processing. -/
def backfillBatchSize : Nat := 5000

/-- With more pending messages there is no backfill. -/
def pendingLimit : Nat := 10000

/-- What the job needs to know. -/
structure BackfillContext where
  env : Env
  order : SqlOrder
  /-- The batches a loop gets before the node is stopped. -/
  rounds : Nat

/-- Prints errors of a cast as errors of the database. -/
abbrev Cast (α : Type) := Except String α

/-! ## Selecting messages -/

/-- A message of the type, with a content that can be cast, and without a derived row. -/
def Missing (t : MessageType) (derived : List ItemHash) (r : MessageRow) : Prop :=
  r.messageType = t ∧ (∃ s ∈ r.itemContent, s ≠ "") ∧ r.itemHash ∉ derived

instance (t : MessageType) (derived : List ItemHash) (r : MessageRow) : Decidable (Missing t derived r) :=
  inferInstanceAs (Decidable (_ ∧ (∃ s ∈ r.itemContent, s ≠ "") ∧ _))

/-- `ORDER BY time ASC`. -/
def byTime (rows : List MessageRow) : List MessageRow := rows.insertionSort fun a b => a.time ≤ b.time

/-- The missing ones after a time, oldest first, up to the limit. -/
def rawBatch (ctx : BackfillContext) (t : MessageType) (derived : List ItemHash) (lastTime : Timestamp)
    (n : Node) : List MessageRow :=
  (byTime ((ctx.order.scan n.messages.rows).filter fun r =>
    decide (Missing t derived r ∧ lastTime < r.time))).take backfillBatchSize

/-- The content of a row as `jsonb`. -/
def contentJsonb (env : Env) (r : MessageRow) : Cast Json := env.jsonb (r.itemContent.getD "")

/-- The time in the content, else that of the message. -/
def contentTime (env : Env) (r : MessageRow) (jb : Json) : Cast Timestamp :=
  (env.jsonbGetFloat jb "time").map fun t => t.getD r.time

/-- `COALESCE(jb->'content', '{}')`. -/
def contentValue (jb : Json) : Value := ((jb.get? "content").map Json.toValue).getD Value.emptyObject

/-- The time of the last message of the type up to the limit, and whether the batch was full. -/
def batchCursor (ctx : BackfillContext) (t : MessageType) (lastTime : Timestamp) (n : Node) :
    Option (Timestamp × Bool) :=
  let times := (byTime ((ctx.order.scan n.messages.rows).filter fun r =>
    decide (r.messageType = t ∧ r.itemContent.isSome ∧ lastTime < r.time))).take backfillBatchSize
  times.getLast?.map fun r => (r.time, decide (backfillBatchSize ≤ times.length))

/-- Batch after batch, until one is not full. -/
def batches (insert : Timestamp → Db DbError Unit) (cursor : Timestamp → Node → Option (Timestamp × Bool)) :
    Nat → Timestamp → Db DbError Unit
  | 0, _ => pure ()
  | rounds + 1, lastTime => do
    insert lastTime
    match ← query (cursor lastTime) with
    | none => pure ()
    | some (time, full) => if full then batches insert cursor rounds time else pure ()

/-- Make rows from messages and insert them; if one cannot be made, the statement fails. -/
def insertRows {ρ : Type} (rows : Node → Cast (List ρ)) (insert : ρ → Node → Node) : Db DbError Unit :=
  sql fun n =>
    match rows n with
    | .error e => (.error e, n)
    | .ok rs => (.ok (), rs.foldl (fun n r => insert r n) n)

/-! ## Posts -/

/-- The post a message makes, if its content has an address and a type. -/
def postOf (env : Env) (r : MessageRow) : Cast (Option PostRecord) := do
  let jb ← contentJsonb env r
  let time ← contentTime env r jb
  pure do
    let address ← env.jsonbGetText jb "address"
    let postType ← env.jsonbGetText jb "type"
    let ref_ := env.jsonbGetText jb "ref"
    pure { itemHash := r.itemHash, address, postType, ref_, content := contentValue jb, channel := r.channel,
           time, originalItemHash := if env.toLowercase postType = "amend" then ref_ else none,
           latestAmend := none }

def insertPosts (ctx : BackfillContext) (lastTime : Timestamp) : Db DbError Unit :=
  insertRows (fun n =>
      ((rawBatch ctx .post (n.posts.rows.map PostRecord.itemHash) lastTime n).mapM (postOf ctx.env)).map
        fun ps => ps.filterMap id)
    fun p n => { n with posts := n.posts.insertNew p }

/-- The newest amend of a post. -/
def latestAmendOf (ctx : BackfillContext) (n : Node) (p : PostRecord) : Option ItemHash :=
  (((ctx.order.scan n.posts.rows).filter fun q =>
    decide (ctx.env.toLowercase q.postType = "amend" ∧ q.originalItemHash = some p.itemHash)).insertionSort
      fun a b => b.time ≤ a.time).head?.map PostRecord.itemHash

def updateLatestAmends (ctx : BackfillContext) : Db DbError Unit :=
  execute fun n => { n with
    posts := n.posts.update (fun p => (latestAmendOf ctx n p).isSome) fun p =>
      { p with latestAmend := latestAmendOf ctx n p } }

/-- Backfill the posts table; a failing update of the amends is only logged. -/
def backfillPosts (ctx : BackfillContext) : Db DbError Unit := do
  batches (insertPosts ctx) (batchCursor ctx .post) ctx.rounds 0
  ignore (updateLatestAmends ctx)

/-! ## Aggregates -/

/-- The element a message makes, if its content has a key and an address. -/
def elementOf (env : Env) (r : MessageRow) : Cast (Option AggregateElement) := do
  let jb ← contentJsonb env r
  let time ← contentTime env r jb
  pure do
    let key ← env.jsonbGetText jb "key"
    let address ← env.jsonbGetText jb "address"
    pure { address, key, itemHash := r.itemHash, content := contentValue jb, time }

def insertElements (ctx : BackfillContext) (lastTime : Timestamp) : Db DbError Unit :=
  insertRows (fun n =>
      ((rawBatch ctx .aggregate (n.aggregateElements.map AggregateElement.itemHash) lastTime n).mapM
        (elementOf ctx.env)).map fun es => es.filterMap id)
    AggregateHandler.storeElement

/-- `CREATE UNIQUE INDEX`: fails if two elements share their hash. -/
def createUniqueIndex : Db DbError Unit :=
  sql fun n =>
    if (n.aggregateElements.map AggregateElement.itemHash).Nodup then (.ok (), n)
    else (.error "could not create unique index", n)

/-- The placeholder row of an aggregate: its newest element, marked dirty. -/
def placeholder (ctx : BackfillContext) (n : Node) (key : Address × String) : Option AggregateRow :=
  let es := ((ctx.order.scan n.aggregateElements).filter fun e => decide ((e.address, e.key) = key)).insertionSort
    fun a b => b.time ≤ a.time
  match es.head?, es.getLast? with
  | some newest, some oldest => some
      { address := key.1, key := key.2, content := newest.content, time := oldest.time, dirty := true,
        lastRevisionHash := some newest.itemHash }
  | _, _ => none

theorem marked_key (r : AggregateRow) :
    (({ r with dirty := true } : AggregateRow).address, ({ r with dirty := true } : AggregateRow).key) =
      (r.address, r.key) := rfl

/-- `INSERT … ON CONFLICT (address, key) DO UPDATE SET dirty = true`, for every aggregate with elements. -/
def markAggregates (ctx : BackfillContext) : Db DbError Unit :=
  execute fun n => { n with
    aggregates := ((n.aggregateElements.map fun e => (e.address, e.key)).dedup.filterMap
      (placeholder ctx n)).foldl (fun t r => t.upsert r (fun old => { old with dirty := true }) marked_key) n.aggregates }

/-- Backfill the aggregate elements, and mark all aggregates dirty. -/
def backfillAggregates (ctx : BackfillContext) : Db DbError Unit := do
  createUniqueIndex
  batches (insertElements ctx) (batchCursor ctx .aggregate) ctx.rounds 0
  ignore (markAggregates ctx)

/-! ## Virtual machines -/

/-- A column that must not be null. -/
def notNull (column : String) (x : Option String) : Cast String :=
  x.elim (.error s!"null value in column {column}") .ok

def instanceOf (env : Env) (r : MessageRow) : Cast InstanceRow := do
  let jb ← contentJsonb env r
  let rootfsRef ← notNull "rootfs_ref"
    (env.jsonbGetText (jsonbGet (jsonbGet jb "rootfs") "parent") "ref")
  let allowAmend ← env.jsonbGetBool jb "allow_amend"
  let time ← contentTime env r jb
  pure { itemHash := r.itemHash, owner := r.sender, rootfsRef, allowAmend := allowAmend.getD true,
         replaces := env.jsonbGetText jb "replaces", time := some time }

def programOf (env : Env) (r : MessageRow) : Cast ProgramRow := do
  let jb ← contentJsonb env r
  let codeRef ← notNull "code_ref" (env.jsonbGetText (jsonbGet jb "code") "ref")
  let runtimeRef ← notNull "runtime_ref" (env.jsonbGetText (jsonbGet jb "runtime") "ref")
  let allowAmend ← env.jsonbGetBool jb "allow_amend"
  let time ← contentTime env r jb
  pure { itemHash := r.itemHash, owner := r.sender, codeRef, runtimeRef, allowAmend := allowAmend.getD true,
         replaces := env.jsonbGetText jb "replaces", time := some time }

/-- The messages of a type that have no row yet. -/
def missingVms (ctx : BackfillContext) (t : MessageType) (derived : List ItemHash) (n : Node) : List MessageRow :=
  (ctx.order.scan n.messages.rows).filter fun r => decide (Missing t derived r)

def backfillInstances (ctx : BackfillContext) : Db DbError Unit :=
  insertRows (fun n => (missingVms ctx .instance (n.instances.rows.map InstanceRow.itemHash) n).mapM
      (instanceOf ctx.env))
    fun i n => { n with instances := n.instances.insertNew i }

def backfillPrograms (ctx : BackfillContext) : Db DbError Unit :=
  insertRows (fun n => (missingVms ctx .program (n.programs.rows.map ProgramRow.itemHash) n).mapM
      (programOf ctx.env))
    fun p n => { n with programs := n.programs.insertNew p }

/-! ## Denormalized columns -/

/-- Rows without an owner, oldest first, up to the limit. -/
def denormBatch (ctx : BackfillContext) (lastTime : Timestamp) (n : Node) : List MessageRow :=
  (byTime ((ctx.order.scan n.messages.rows).filter fun r =>
    decide (r.owner = none ∧ r.itemContent.isSome ∧ r.itemContent ≠ some "" ∧ lastTime < r.time))).take
      backfillBatchSize

/-- The columns taken from the content, by the casts of PostgreSQL. -/
def denormRow (env : Env) (jb : Json) (r : MessageRow) : MessageRow :=
  { r with
    owner := env.jsonbGetText jb "address"
    contentType := env.jsonbGetText jb "type"
    contentRef := env.jsonbGetText jb "ref"
    contentKey := env.jsonbGetText jb "key"
    contentItemHash := env.jsonbGetText jb "item_hash"
    paymentType := env.jsonbGetText (jsonbGet jb "payment") "type"
    status := "processed" }

/-- One batch; the time of its last row, and whether it was full. -/
def denormStep (ctx : BackfillContext) (lastTime : Timestamp) : Db DbError (Option (Timestamp × Bool)) :=
  sql fun n =>
    let batch := denormBatch ctx lastTime n
    match batch.mapM fun r => (contentJsonb ctx.env r).map fun jb => (r.itemHash, jb) with
    | .error e => (.error e, n)
    | .ok jbs =>
      (.ok (batch.getLast?.map fun r => (r.time, decide (backfillBatchSize ≤ batch.length))), { n with
        messages := jbs.foldl (fun t x =>
          t.update (·.itemHash = x.1) (denormRow ctx.env x.2)) n.messages })

def denormBatches (ctx : BackfillContext) : Nat → Timestamp → Db DbError Unit
  | 0, _ => pure ()
  | rounds + 1, lastTime => do
    match ← denormStep ctx lastTime with
    | none => pure ()
    | some (time, full) => if full then denormBatches ctx rounds time else pure ()

def updateStatus : Db DbError Unit :=
  execute fun n => { n with
    messages := n.messages.update (·.status = "") fun r => { r with status := "processed" } }

/-- Backfill the denormalized columns. -/
def backfillMessageDenorm (ctx : BackfillContext) : Db DbError Unit := do
  denormBatches ctx ctx.rounds 0
  ignore updateStatus

/-! ## The job -/

/-- Is there anything to do? -/
def Needed (n : Node) : Prop :=
  ∃ r ∈ n.messages.rows, r.itemContent.isSome ∧
    (r.messageType = .post ∧ r.itemHash ∉ n.posts.rows.map PostRecord.itemHash ∨
      r.messageType = .aggregate ∧ r.itemHash ∉ n.aggregateElements.map AggregateElement.itemHash ∨
      r.messageType = .instance ∧ r.itemHash ∉ n.instances.rows.map InstanceRow.itemHash ∨
      r.messageType = .program ∧ r.itemHash ∉ n.programs.rows.map ProgramRow.itemHash ∨
      r.owner = none ∧ r.itemContent ≠ some "")

instance (n : Node) : Decidable (Needed n) := inferInstanceAs (Decidable (∃ _ ∈ _, _))

/-- The five backfills; each runs whether or not the one before it failed. -/
def runBackfills (ctx : BackfillContext) : Db DbError Unit := do
  ignore (backfillPosts ctx)
  ignore (backfillAggregates ctx)
  ignore (backfillInstances ctx)
  ignore (backfillPrograms ctx)
  ignore (backfillMessageDenorm ctx)

/-- Run the full backfill on startup, unless the queue is long or there is nothing to do. -/
def runStartupBackfill (ctx : BackfillContext) : Db DbError Unit := do
  let pendingCount ← query fun n => n.pendingMessages.rows.length
  let needed ← query fun n => decide (Needed n)
  if pendingLimit < pendingCount then pure ()
  else if needed then runBackfills ctx else pure ()

end AlephCore.Backfill
