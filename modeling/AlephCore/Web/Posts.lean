import AlephCore.Db.PgDatabase
import AlephCore.Lib.Faults
import AlephCore.Web.WebSocket
import Mathlib.Data.UInt

/-!
# Posts — the listing of posts

Mirrors `get_posts` and `get_posts_v1` of `web/handlers.rs`.  A listed post is a row of `posts` that the column
`amends` does not mark as an amend, with the row that its column `latest_amend` names on top.
-/

namespace AlephCore.Web

open ProgE

/-- Query parameters for the posts endpoint. -/
structure PostsQuery where
  /-- Filters, each with its values between commas. -/
  addresses : Option String
  channels : Option String
  types : Option String
  refs : Option String
  tags : Option String
  hashes : Option String
  /-- Items per page; `limit` goes before `pagination`. -/
  pagination : Option UInt32
  limit : Option UInt32
  page : Option UInt32
  startDate : Option Timestamp
  endDate : Option Timestamp
  sortBy : Option String
  /-- 1 for ascending; `order` goes before `sortOrder`. -/
  order : Option Int
  sortOrder : Option Int

/-- What the queries take from the database beside the rows: when a row was created and a message first confirmed,
the collation of texts, and the way a time is written. -/
structure PostsDb where
  createdAt : ItemHash → Timestamp
  earliestConfirmation : ItemHash → Option Timestamp
  collate : String → String → Bool
  toRfc3339 : Timestamp → String

/-- The values between the commas; empty ones are left out. -/
def parseCsvParam (param : String) : List String :=
  (WebSocket.SubscriptionFilter.parts param).filter (· ≠ "")

/-! ## The joined rows -/

/-- The column `amends` of a post.  No statement writes it. -/
def amendsColumn (_ : PostRecord) : Option Json := none

/-- `p.amends IS NULL OR p.amends = '[]'`. -/
def amendsNothing (p : PostRecord) : Bool := (amendsColumn p).all fun j => decide (j = .arr [])

/-- A post, the post that is its latest amend, and the messages of the two. -/
structure JoinedPost where
  p : PostRecord
  a : Option PostRecord
  om : Option MessageRow
  am : Option MessageRow

/-- `COALESCE(a.f, p.f)`, for columns that are never null. -/
def JoinedPost.coalesce {α : Type} (row : JoinedPost) (f : PostRecord → α) : α := (row.a.map f).getD (f row.p)

/-- `posts p LEFT JOIN posts a ON p.latest_amend = a.item_hash LEFT JOIN messages …`. -/
def joinPost (n : Node) (p : PostRecord) : JoinedPost :=
  let a := p.latestAmend.bind n.posts.find?
  ⟨p, a, n.messages.find? p.itemHash, a.bind fun q => n.messages.find? q.itemHash⟩

/-- `column IN (…)` for the values of a filter; no condition without values. -/
def columnIn (values : Option String) (column : Option String) : Bool :=
  let vs := (values.map parseCsvParam).getD []
  vs.isEmpty || column.any fun c => vs.contains c

/-- `value ? key`. -/
def existsKey (key : String) : Json → Bool
  | .str s => s = key
  | .arr xs => xs.contains (.str key)
  | .obj fields => fields.any fun f => f.1 = key
  | _ => false

/-- `(content->'tags') ?| ARRAY[…]`. -/
def hasTag (values : Option String) (content : Value) : Bool :=
  let vs := (values.map parseCsvParam).getD []
  vs.isEmpty || (content.json.get? "tags").any fun tags => vs.any fun key => existsKey key tags

/-- The conditions of the query. -/
def selected (q : PostsQuery) (row : JoinedPost) : Bool :=
  amendsNothing row.p && columnIn q.addresses (some row.p.address) && columnIn q.channels row.p.channel &&
    columnIn q.types (some row.p.postType) && columnIn q.refs row.p.ref_ && columnIn q.hashes (some row.p.itemHash) &&
    (q.startDate.all fun start => decide (start ≤ row.coalesce PostRecord.time)) &&
    (q.endDate.all fun stop => decide (row.coalesce PostRecord.time < stop)) &&
    hasTag q.tags (row.coalesce PostRecord.content)

/-- The rows the query selects, before they are sorted and cut. -/
def selectPosts (q : PostsQuery) (n : Node) : List JoinedPost :=
  (n.posts.rows.map (joinPost n)).filter (selected q)

/-! ## Sorting and cutting -/

/-- The columns to sort by. -/
inductive SortColumn where
  | time | address | postType | channel | txTime | createdAt

/-- The column of `sortBy`; the two versions differ in what stands for the time. -/
def sortColumn (timeColumn : SortColumn) : Option String → SortColumn
  | none => timeColumn
  | some s =>
    if s = "time" then timeColumn
    else if s = "address" then .address
    else if s = "post_type" then .postType
    else if s = "channel" then .channel
    else if s = "tx-time" then .txTime
    else .createdAt

/-- Null comes after everything else. -/
def nullsLast {α : Type} (le : α → α → Bool) : Option α → Option α → Bool
  | _, none => true
  | none, some _ => false
  | some x, some y => le x y

variable (db : PostsDb)

/-- The ascending order of a column. -/
def SortColumn.le (column : SortColumn) (r s : JoinedPost) : Bool :=
  match column with
  | .time => decide (r.coalesce PostRecord.time ≤ s.coalesce PostRecord.time)
  | .address => db.collate r.p.address s.p.address
  | .postType => db.collate r.p.postType s.p.postType
  | .channel => nullsLast db.collate r.p.channel s.p.channel
  | .txTime => nullsLast (fun x y => decide (x ≤ y)) (db.earliestConfirmation (r.coalesce PostRecord.itemHash))
      (db.earliestConfirmation (s.coalesce PostRecord.itemHash))
  | .createdAt => decide (db.createdAt (r.coalesce PostRecord.itemHash) ≤ db.createdAt (s.coalesce PostRecord.itemHash))

/-- `order` goes before `sortOrder`; the default is descending. -/
def ascending (q : PostsQuery) : Bool := (q.order.or q.sortOrder).any fun o => decide (o = 1)

/-- `ORDER BY column direction, p.item_hash ASC`. -/
def comesBefore (q : PostsQuery) (column : SortColumn) (r s : JoinedPost) : Bool :=
  let le x y := if ascending q then column.le db x y else column.le db y x
  le r s && (!le s r || db.collate r.p.itemHash s.p.itemHash)

/-- The selected rows in the order of the query. -/
def sortedPosts (q : PostsQuery) (column : SortColumn) (n : Node) : List JoinedPost :=
  (selectPosts q n).insertionSort fun r s => comesBefore db q column r s = true

/-- The page size as it is asked for. -/
def rawPagination (q : PostsQuery) : UInt32 := (q.limit.or q.pagination).getD 20

def pageOf (q : PostsQuery) : UInt32 := q.page.getD 1

/-- `LIMIT per_page OFFSET (page - 1) * per_page`. -/
def limitOffset {α : Type} (q : PostsQuery) (perPage : UInt32) (rows : List α) : List α :=
  (rows.drop ((pageOf q - 1) * perPage).toNat).take perPage.toNat

/-- A page of posts. -/
structure PostsPage (ρ : Type) where
  posts : List ρ
  paginationTotal : Nat
  paginationPage : UInt32
  paginationPerPage : UInt32

/-- The answer of a query; a default value if it fails. -/
def orDefault {α : Type} (d : α) (p : Db DbError α) : Db DbError α := do
  match ← attempt p with
  | .ok a => pure a
  | .error (_ : DbError) => pure d

theorem run_orDefault_sql {α : Type} (d : α) (f : Node → Except DbError α) (n : Node) :
    (orDefault d (sql fun n => (f n, n))).run.run n = (.ok ((f n).toOption.getD d), n) := by
  unfold orDefault
  rw [run_bind_ok (run_attempt _ n), run_sql]
  cases hanswer : f n with
  | ok a => rfl
  | error e => rfl

theorem run_orDefault {α : Type} (d : α) (f : Node → α) (n : Node) :
    (orDefault d (query f)).run.run n = (.ok (f n), n) :=
  run_orDefault_sql d (fun n => .ok (f n)) n

/-! ## Version 0 -/

structure ConfirmationResponse where
  chain : String
  hash : String
  height : Nat
  deriving DecidableEq

/-- `PostResponseV0`, with the columns of the message. -/
structure PostResponseV0 where
  itemHash : ItemHash
  ref_ : Option String
  address : Address
  postType : String
  content : Value
  channel : Option String
  time : Timestamp
  originalItemHash : ItemHash
  hash : ItemHash
  chain : String
  sender : Address
  signature : String
  itemType : String
  itemContent : Option String
  size : Nat
  confirmed : Bool
  confirmations : List ConfirmationResponse
  originalSignature : Option String
  originalType : Option String

/-- No limit is asked for. -/
def postsUnlimited (q : PostsQuery) : Bool := rawPagination q = 0

def perPageV0 (q : PostsQuery) : UInt32 := if postsUnlimited q then 0 else min (rawPagination q) 1000

/-- The confirmations of the listed hashes, one query for ten thousand hashes. -/
def fetchConfirmations : List (List ItemHash) → Db DbError (List ChainTxRow)
  | [] => pure []
  | chunk :: chunks => do
    let found ← orDefault [] (query fun n => n.chainTxs.rows.filter fun t => decide (t.itemHash ∈ chunk))
    let rest ← fetchConfirmations chunks
    pure (found ++ rest)

theorem run_fetchConfirmations (chunks : List (List ItemHash)) (n : Node) :
    ∃ found, (fetchConfirmations chunks).run.run n = (.ok found, n) := by
  induction chunks with
  | nil => exact ⟨[], rfl⟩
  | cons chunk chunks ih =>
    obtain ⟨rest, hrest⟩ := ih
    unfold fetchConfirmations
    rw [run_bind_ok (run_orDefault _ _ n), run_bind_ok hrest]
    exact ⟨_, rfl⟩

/-- The entry of a row, given the confirmations. -/
def responseV0 (found : List ChainTxRow) (row : JoinedPost) : PostResponseV0 :=
  let itemHash := row.coalesce PostRecord.itemHash
  let itemContent := (row.am.bind MessageRow.itemContent).or (row.om.bind MessageRow.itemContent)
  let confirmations := (found.filter fun t => decide (t.itemHash = itemHash)).map fun t =>
    ⟨t.chain, t.hash, (t.height % 2 ^ 64).toNat⟩
  { itemHash
    ref_ := row.p.ref_
    address := row.p.address
    postType := row.coalesce PostRecord.postType
    content := row.coalesce PostRecord.content
    channel := row.p.channel
    time := row.coalesce PostRecord.time
    originalItemHash := row.p.itemHash
    hash := row.p.itemHash
    chain := (row.om.map fun m => m.chain.toString).getD "ETH"
    sender := (row.om.map MessageRow.sender).getD row.p.address
    signature := ((row.am.map MessageRow.signature).or (row.om.map MessageRow.signature)).getD ""
    itemType := ((row.am.map MessageRow.itemType).or (row.om.map MessageRow.itemType)).elim "inline" ItemType.toString
    itemContent
    size := (itemContent.map String.utf8ByteSize).getD 0
    confirmed := !confirmations.isEmpty
    confirmations
    originalSignature := row.om.map MessageRow.signature
    originalType := some row.p.postType }

/-- Get posts. -/
def getPosts (q : PostsQuery) : Db DbError (PostsPage PostResponseV0) := do
  let total ← orDefault 0 (query fun n => (selectPosts q n).length)
  let rows ← orDefault [] (query fun n =>
    let sorted := sortedPosts db q (sortColumn .time q.sortBy) n
    if postsUnlimited q then sorted else limitOffset q (perPageV0 q) sorted)
  let found ← fetchConfirmations ((rows.map fun row => row.coalesce PostRecord.itemHash).toChunks 10000)
  pure ⟨rows.map (responseV0 found), total, pageOf q, perPageV0 q⟩

/-! ## Version 1 -/

structure PostResponseV1 where
  itemHash : ItemHash
  content : Value
  originalItemHash : ItemHash
  originalType : Option String
  address : Address
  ref_ : Option String
  channel : Option String
  created : String
  lastUpdated : String

def perPageV1 (q : PostsQuery) : UInt32 := if rawPagination q = 0 then 10000 else min (rawPagination q) 1000

def responseV1 (row : JoinedPost) : PostResponseV1 where
  itemHash := row.coalesce PostRecord.itemHash
  content := row.coalesce PostRecord.content
  originalItemHash := row.p.itemHash
  originalType := some row.p.postType
  address := row.p.address
  ref_ := row.p.ref_
  channel := row.p.channel
  created := db.toRfc3339 (db.createdAt row.p.itemHash)
  lastUpdated := db.toRfc3339 (db.createdAt (row.coalesce PostRecord.itemHash))

/-- Get posts, in the simpler format. -/
def getPostsV1 (q : PostsQuery) : Db DbError (PostsPage PostResponseV1) := do
  let total ← orDefault 0 (query fun n => (selectPosts q n).length)
  let rows ← orDefault [] (query fun n =>
    limitOffset q (perPageV1 q) (sortedPosts db q (sortColumn .createdAt q.sortBy) n))
  pure ⟨rows.map (responseV1 db), total, pageOf q, perPageV1 q⟩

end AlephCore.Web
