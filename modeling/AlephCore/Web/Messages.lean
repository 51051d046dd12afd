import AlephCore.Web.Posts

/-!
# Messages — the listing of messages

Mirrors `list_messages` of `web/handlers.rs` and what it uses of `db/query_builder.rs`.  The handler builds a query from
the parameters, for all tables or with a join that gives the first confirmation of a message, and where it needs the
number of messages a second query for that.  A query that PostgreSQL refuses counts as one without rows.
-/

namespace AlephCore.Web.Messages

open ProgE

/-- Sort by field options for messages. -/
inductive SortBy where
  | time
  | txTime
  deriving DecidableEq

/-- Query parameters for message list. -/
structure MessageQuery where
  /-- Filters, each with its values between commas. -/
  addresses : Option String
  channels : Option String
  messageType : Option String
  messageTypes : Option String
  hashes : Option String
  refs : Option String
  tags : Option String
  contentTypes : Option String
  contentHashes : Option String
  contentKeys : Option String
  chains : Option String
  owners : Option String
  /-- Items per page; `limit` goes before `pagination`. -/
  pagination : Option UInt32
  limit : Option UInt32
  page : Option UInt32
  startDate : Option Timestamp
  endDate : Option Timestamp
  /-- 1 for ascending; `sortOrder` goes before `order`. -/
  order : Option Int
  sortOrder : Option Int
  sortBy : Option SortBy
  msgStatuses : Option String
  /-- Bounds, inclusive, of the heights in `chain_txs`. -/
  startBlock : Option Int
  endBlock : Option Int
  paymentTypes : Option String
  /-- `time_itemHash` of the row to go on behind. -/
  cursor : Option String

/-! ## Queries -/

/-- The order of the texts in the database: a total order, whatever the collation is. -/
structure Collation where
  le : String → String → Bool
  antisymm : ∀ s t, le s t = true → le t s = true → s = t
  trans : ∀ s t u, le s t = true → le t u = true → le s u = true
  total : ∀ s t, le s t = true ∨ le t s = true

/-- The text columns of `messages` that are compared with values. -/
inductive Column where
  | sender
  | messageType
  | channel
  | itemHash
  | chain
  | contentRef
  | contentType
  | contentItemHash
  | owner
  | paymentType

def Column.name : Column → String
  | sender => "sender"
  | messageType => "message_type"
  | channel => "channel"
  | itemHash => "item_hash"
  | chain => "chain"
  | contentRef => "content_ref"
  | contentType => "content_type"
  | contentItemHash => "content_item_hash"
  | owner => "owner"
  | paymentType => "payment_type"

def Column.read : Column → MessageRow → Option String
  | sender, r => some r.sender
  | messageType, r => some r.messageType.toString
  | channel, r => r.channel
  | itemHash, r => some r.itemHash
  | chain, r => some r.chain.toString
  | contentRef, r => r.contentRef
  | contentType, r => r.contentType
  | contentItemHash, r => r.contentItemHash
  | owner, r => r.owner
  | paymentType, r => r.paymentType

/-- The conditions a builder can add. -/
inductive Clause where
  /-- `NOT EXISTS (SELECT 1 FROM forgotten_messages WHERE forgotten_messages.item_hash = messages.item_hash)`. -/
  | notForgotten
  | isIn (column : Column) (values : List String)
  | isEq (column : Column) (value : String)
  /-- `(item_content::jsonb #> '{content,tags}') ?| ARRAY[…]`. -/
  | hasAnyTag (values : List String)
  /-- `(item_content::jsonb->'content') ?| ARRAY[…]`. -/
  | hasAnyKey (values : List String)
  | timeGte (start : Timestamp)
  | timeLt (stop : Timestamp)
  /-- `item_hash IN (SELECT item_hash FROM chain_txs WHERE …)`. -/
  | inBlocks (startBlock endBlock : Option Int)
  /-- `(time < $1 OR (time = $1 AND item_hash > $2))`, with `>` in the ascending order. -/
  | cursorKeyset (time : Timestamp) (itemHash : ItemHash) (ascending : Bool)

/-- The columns a condition names without their table. -/
def Clause.columns : Clause → List String
  | notForgotten => []
  | isIn column _ => [column.name]
  | isEq column _ => [column.name]
  | hasAnyTag _ => ["item_content"]
  | hasAnyKey _ => ["item_content"]
  | timeGte _ => ["time"]
  | timeLt _ => ["time"]
  | inBlocks _ _ => ["item_hash"]
  | cursorKeyset _ _ _ => ["time", "item_hash"]

/-- The texts of a condition. -/
def Clause.texts : Clause → List String
  | isIn _ values => values
  | isEq _ value => [value]
  | hasAnyTag values => values
  | hasAnyKey values => values
  | cursorKeyset _ itemHash _ => [itemHash]
  | _ => []

/-- Whether a condition casts the content of a row. -/
def Clause.castsContent : Clause → Bool
  | hasAnyTag _ => true
  | hasAnyKey _ => true
  | _ => false

/-- What the rows are selected from: `messages`, or its join with the first confirmations `ct`. -/
inductive Source where
  | messages
  | joined
  deriving DecidableEq

def messagesColumns : List String :=
  ["item_hash", "message_type", "chain", "sender", "signature", "item_type", "item_content", "channel", "time",
    "created_at", "status", "reception_time", "owner", "content_type", "content_ref", "content_key", "content_item_hash",
    "first_confirmed_at", "first_confirmed_height", "payment_type"]

def ctColumns : List String := ["item_hash", "earliest_confirmation"]

/-- The tables in scope. -/
def Source.tables : Source → List (List String)
  | messages => [messagesColumns]
  | joined => [messagesColumns, ctColumns]

/-- More than one table in scope has the column. -/
def Source.Ambiguous (source : Source) (column : String) : Prop :=
  1 < (source.tables.filter fun columns => decide (column ∈ columns)).length

instance (source : Source) (column : String) : Decidable (source.Ambiguous column) :=
  inferInstanceAs (Decidable (1 < _))

/-- The orders the handler asks for. -/
inductive OrderBy where
  /-- `time …, item_hash ASC`. -/
  | time (ascending : Bool)
  /-- `ct.earliest_confirmation …, messages.time …, messages.item_hash ASC`, nulls at the later end. -/
  | txTime (ascending : Bool)

/-- A query; a count has no order. -/
structure Select where
  source : Source
  clauses : List Clause
  orderBy : Option OrderBy
  limit : Option Nat
  offset : Nat

/-- What the listing takes from the database, the standard library and `serde_json`. -/
structure MessagesDb where
  collation : Collation
  /-- `MIN(created_at)` of the transactions of a message. -/
  earliestConfirmation : ItemHash → Option Timestamp
  /-- `text::jsonb`, if the text can be cast. -/
  jsonb : String → Option Json
  /-- The rows whose content the plan of a query casts. -/
  casts : Select → List MessageRow → List MessageRow
  /-- `f64::to_string` and `f64::from_str`. -/
  printTime : Timestamp → String
  parseTime : String → Option Timestamp
  toUppercase : String → String
  toLowercase : String → String
  parseJson : String → Option Json

/-- PostgreSQL's answer to an unqualified column that two tables have. -/
def ambiguousColumn (column : String) : DbError := s!"column reference \"{column}\" is ambiguous"

/-- PostgreSQL's answer to a text with a zero byte. -/
def invalidByteSequence : DbError := "invalid byte sequence for encoding \"UTF8\": 0x00"

/-- PostgreSQL's answer to a text that is no JSON. -/
def invalidJson : DbError := "invalid input syntax for type json"

variable (db : MessagesDb)

/-- The value under `content`, if the content of the row is JSON and has one. -/
def contentField (r : MessageRow) : Option Json := (r.itemContent.bind db.jsonb).bind (·.get? "content")

/-- Whether a condition is true of a row. -/
def Clause.holds (n : Node) (r : MessageRow) : Clause → Bool
  | notForgotten => (n.forgottenMessages.find? r.itemHash).isNone
  | isIn column values => (column.read r).any (values.contains ·)
  | isEq column value => decide (column.read r = some value)
  | hasAnyTag values => ((contentField db r).bind (·.get? "tags")).any fun tags => values.any (existsKey · tags)
  | hasAnyKey values => (contentField db r).any fun content => values.any (existsKey · content)
  | timeGte start => decide (start ≤ r.time)
  | timeLt stop => decide (r.time < stop)
  | inBlocks startBlock endBlock => n.chainTxs.rows.any fun t =>
      decide (t.itemHash = r.itemHash) && startBlock.all (fun b => decide (b ≤ t.height)) &&
        endBlock.all fun b => decide (t.height ≤ b)
  | cursorKeyset time itemHash ascending =>
      (if ascending then decide (time < r.time) else decide (r.time < time)) ||
        (decide (r.time = time) && !db.collation.le r.itemHash itemHash)

/-- The first rule of an order decides unless it is a tie. -/
def lexLe {α : Type} (first second : α → α → Bool) (x y : α) : Bool := first x y && (!first y x || second x y)

/-- `time …, item_hash ASC`. -/
def timeLe (ascending : Bool) : MessageRow → MessageRow → Bool :=
  lexLe (fun r s => if ascending then decide (r.time ≤ s.time) else decide (s.time ≤ r.time))
    fun r s => db.collation.le r.itemHash s.itemHash

def txTimeLe (ascending : Bool) : MessageRow → MessageRow → Bool :=
  let confirmed := fun r s => nullsLast (fun x y : Timestamp => decide (x ≤ y)) (db.earliestConfirmation r.itemHash)
    (db.earliestConfirmation s.itemHash)
  lexLe (fun r s : MessageRow => if ascending then confirmed r s else confirmed s r) (timeLe db ascending)

def OrderBy.le : OrderBy → MessageRow → MessageRow → Bool
  | time ascending => timeLe db ascending
  | txTime ascending => txTimeLe db ascending

/-- A condition names a column that two tables have. -/
def Select.Ambiguous (s : Select) : Prop := ∃ clause ∈ s.clauses, ∃ column ∈ clause.columns, s.source.Ambiguous column

instance (s : Select) : Decidable s.Ambiguous :=
  inferInstanceAs (Decidable (∃ clause ∈ s.clauses, ∃ column ∈ clause.columns, s.source.Ambiguous column))

/-- A text of the query has a zero byte. -/
def Select.HasNul (s : Select) : Prop := ∃ clause ∈ s.clauses, ∃ text ∈ clause.texts, '\x00' ∈ text.toList

instance (s : Select) : Decidable s.HasNul :=
  inferInstanceAs (Decidable (∃ clause ∈ s.clauses, ∃ text ∈ clause.texts, '\x00' ∈ text.toList))

/-- The query comes upon a content that cannot be cast. -/
def Select.Miscasts (s : Select) (n : Node) : Prop :=
  (∃ clause ∈ s.clauses, clause.castsContent = true) ∧
    ∃ r ∈ db.casts s n.messages.rows, ∃ text ∈ r.itemContent, db.jsonb text = none

instance (s : Select) (n : Node) : Decidable (s.Miscasts db n) :=
  inferInstanceAs (Decidable ((∃ clause ∈ s.clauses, clause.castsContent = true) ∧
    ∃ r ∈ db.casts s n.messages.rows, ∃ text ∈ r.itemContent, db.jsonb text = none))

/-- The rows all conditions are true of. -/
def Select.selected (s : Select) (n : Node) : List MessageRow :=
  n.messages.rows.filter fun r => s.clauses.all (·.holds db n r)

/-- The rows in the order of the query. -/
def Select.sorted (s : Select) (n : Node) : List MessageRow :=
  match s.orderBy with
  | none => s.selected db n
  | some orderBy => (s.selected db n).insertionSort fun r t => orderBy.le db r t = true

/-- `LIMIT … OFFSET …`. -/
def Select.cut (s : Select) (rows : List MessageRow) : List MessageRow :=
  match s.limit with
  | none => rows
  | some limit => (rows.drop s.offset).take limit

/-- The answer to a query. -/
def Select.run (s : Select) (n : Node) : Except DbError (List MessageRow) :=
  if s.Ambiguous then .error (ambiguousColumn "item_hash")
  else if s.HasNul then .error invalidByteSequence
  else if s.Miscasts db n then .error invalidJson
  else .ok (s.cut (s.sorted db n))

/-! ## The parameters -/

/-- The values of a parameter. -/
def values (param : Option String) : List String := (param.map parseCsvParam).getD []

def statusList (q : MessageQuery) : List String :=
  match q.msgStatuses with
  | some statuses => (parseCsvParam statuses).map db.toLowercase
  | none => ["processed", "removing"]

def includeProcessed (q : MessageQuery) : Bool :=
  (statusList db q).any fun s => decide (s = "processed" ∨ s = "removing")

def includeForgotten (q : MessageQuery) : Bool := (statusList db q).contains "forgotten"

/-- `and_in`, if there are values. -/
def andIn (column : Column) : List String → List Clause
  | [] => []
  | vs => [.isIn column vs]

/-- `and_eq` for a single message type. -/
def andTypes : List String → List Clause
  | [] => []
  | [messageType] => [.isEq .messageType messageType]
  | messageTypes => [.isIn .messageType messageTypes]

def andTags : List String → List Clause
  | [] => []
  | vs => [.hasAnyTag vs]

def andKeys : List String → List Clause
  | [] => []
  | vs => [.hasAnyKey vs]

def andBlocks (q : MessageQuery) : List Clause :=
  if q.startBlock.isSome || q.endBlock.isSome then [.inBlocks q.startBlock q.endBlock] else []

/-- The conditions of the filters.  The handler adds them to the main query and, once more, to the count. -/
def filters (q : MessageQuery) : List Clause :=
  (if includeForgotten db q then [] else [.notForgotten]) ++
    andIn .sender (values q.addresses) ++
    andTypes ((values (q.messageType.or q.messageTypes)).map db.toUppercase) ++
    andIn .channel (values q.channels) ++
    andIn .itemHash (values q.hashes) ++
    andIn .chain (values q.chains) ++
    andIn .contentRef (values q.refs) ++
    andTags (values q.tags) ++
    andIn .contentType (values q.contentTypes) ++
    andIn .contentItemHash (values q.contentHashes) ++
    andIn .owner (values q.owners) ++
    andKeys (values q.contentKeys) ++
    andIn .paymentType ((values q.paymentTypes).map db.toLowercase) ++
    (q.startDate.toList.map .timeGte) ++
    (q.endDate.toList.map .timeLt) ++
    andBlocks q

def pageOf (q : MessageQuery) : UInt32 := q.page.getD 1

def rawPagination (q : MessageQuery) : UInt32 := (q.limit.or q.pagination).getD 20

/-- No limit is asked for. -/
def unlimited (q : MessageQuery) : Bool := rawPagination q = 0

def perPage (q : MessageQuery) : UInt32 := if unlimited q then 0 else min (rawPagination q) 1000

/-- `(page - 1) * per_page`, which may overflow. -/
def offset (q : MessageQuery) : Nat := if unlimited q then 0 else ((pageOf q - 1) * perPage q).toNat

/-- The time and the hash in a cursor, which the first underscore separates. -/
def parseCursor (cursor : String) : Option (Timestamp × ItemHash) :=
  match cursor.toList.span (· ≠ '_') with
  | (time, _ :: hash) =>
    if hash = [] then none else (db.parseTime (String.ofList time)).map fun t => (t, String.ofList hash)
  | (_, []) => none

def cursorParts (q : MessageQuery) : Option (Timestamp × ItemHash) := q.cursor.bind (parseCursor db)

/-- The main query needs the join with the confirmations. -/
def needsTxTimeJoin (q : MessageQuery) : Bool :=
  decide (q.sortBy = some .txTime) || q.startBlock.isSome || q.endBlock.isSome

def ascending (q : MessageQuery) : Bool := (q.sortOrder.or q.order).any fun o => decide (o = 1)

/-- The cursor is used; it is not when the query is joined. -/
def cursorActive (q : MessageQuery) : Bool := (cursorParts db q).isSome && !needsTxTimeJoin q

/-- `and_cursor_keyset`, if the cursor is used. -/
def andCursor (q : MessageQuery) : List Clause :=
  if needsTxTimeJoin q then []
  else (cursorParts db q).toList.map fun parts => .cursorKeyset parts.1 parts.2 (ascending q)

/-- The main query.  Behind a cursor it asks for one more row than the page has. -/
def mainSelect (q : MessageQuery) : Select where
  source := if needsTxTimeJoin q then .joined else .messages
  clauses := filters db q ++ andCursor db q
  orderBy := some (if needsTxTimeJoin q then .txTime (ascending q) else .time (ascending q))
  limit :=
    if unlimited q then none
    else some (if cursorActive db q then (perPage q).toNat + 1 else (perPage q).toNat)
  offset := if cursorActive db q then 0 else offset q

/-- `SELECT COUNT(*) FROM messages`. -/
def countSelect (q : MessageQuery) : Select where
  source := .messages
  clauses := filters db q
  orderBy := none
  limit := none
  offset := 0

/-! ## The handler -/

structure MessageResponse where
  messageType : String
  chain : String
  sender : Address
  signature : String
  itemType : String
  itemHash : ItemHash
  itemContent : Option String
  /-- The content as JSON. -/
  content : Option Json
  channel : Option String
  time : Timestamp
  size : Nat
  confirmations : List ConfirmationResponse
  confirmed : Bool

def MessageResponse.fromDb (r : MessageRow) (confirmations : List ConfirmationResponse) : MessageResponse where
  messageType := r.messageType.toString
  chain := r.chain.toString
  sender := r.sender
  signature := r.signature
  itemType := r.itemType.toString
  itemHash := r.itemHash
  itemContent := r.itemContent
  content := r.itemContent.bind db.parseJson
  channel := r.channel
  time := r.time
  size := (r.itemContent.map String.utf8ByteSize).getD 0
  confirmations
  confirmed := !confirmations.isEmpty

/-- The answer, with page and total or behind a cursor. -/
inductive MessagesResponse where
  | page (messages : List MessageResponse) (total : Int) (page perPage : UInt32)
  | cursor (messages : List MessageResponse) (perPage : UInt32) (hasMore : Bool) (nextCursor : Option String)

/-- The cursor of a row. -/
def rowCursor (r : MessageRow) : String := db.printTime r.time ++ "_" ++ r.itemHash

/-- A row more than the page has was found behind the cursor. -/
def hasMore (q : MessageQuery) (rows : List MessageRow) : Bool :=
  cursorActive db q && !unlimited q && decide ((perPage q).toNat < rows.length)

/-- The rows of the page, without the extra one. -/
def truncate (q : MessageQuery) (rows : List MessageRow) : List MessageRow :=
  if hasMore db q rows then rows.take (perPage q).toNat else rows

def nextCursor (q : MessageQuery) (rows : List MessageRow) : Option String :=
  if hasMore db q rows then (truncate db q rows).getLast?.map (rowCursor db) else none

/-- The number of messages: none behind a cursor, without a query if the page is not full. -/
def totalOf (q : MessageQuery) (rows : List MessageRow) : Db DbError Int :=
  if cursorActive db q then pure 0
  else if !unlimited q && decide (rows.length < (perPage q).toNat) then
    pure (((pageOf q).toNat - 1 : Int) * (perPage q).toNat + rows.length)
  else orDefault 0 (sql fun n => (((countSelect db q).run db n).map fun found => (found.length : Int), n))

def respond (q : MessageQuery) (rows : List MessageRow) (total : Int) (found : List ChainTxRow) : MessagesResponse :=
  let messages := (truncate db q rows).map fun r => MessageResponse.fromDb db r
    ((found.filter fun t => decide (t.itemHash = r.itemHash)).map fun t => ⟨t.chain, t.hash, (t.height % 2 ^ 64).toNat⟩)
  if cursorActive db q then .cursor messages (perPage q) (hasMore db q rows) (nextCursor db q rows)
  else .page messages total (pageOf q) (perPage q)

/-- List messages. -/
def listMessages (q : MessageQuery) : Db DbError MessagesResponse :=
  if includeProcessed db q then do
    let rows ← orDefault [] (sql fun n => ((mainSelect db q).run db n, n))
    let total ← totalOf db q rows
    let found ← fetchConfirmations (((truncate db q rows).map MessageRow.itemHash).toChunks 10000)
    pure (respond db q rows total found)
  else pure (.page [] 0 (pageOf q) (perPage q))

end AlephCore.Web.Messages
