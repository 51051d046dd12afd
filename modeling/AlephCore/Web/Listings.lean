import AlephCore.Jobs.TextSlices
import AlephCore.Lib.OffsetPages
import AlephCore.Web.Aggregates

/-!
# Listings — lists that are read by page and page size

Mirrors `get_balances`, `get_credit_balances`, `list_aggregates` and `get_addresses_stats_v1` of `web/handlers.rs`.
A query with `ORDER BY`, `LIMIT` and `OFFSET` may be answered with the rows in any order that is sorted; in the
release build the product that gives the offset wraps around at 32 bits.
-/

namespace AlephCore.Web

open ProgE OffsetPages UnixPath Storage

/-- What the queries take from the database and its driver. -/
structure ListingsDb where
  /-- The nearest double. -/
  toDouble : ℚ → ℚ
  /-- The decimal that a numeric is decoded to, as `to_string` writes it; `none` if there is no such decimal. -/
  decodeDecimal : ℚ → Option String
  /-- `str::parse::<f64>`. -/
  parseF64 : String → Option ℚ
  /-- `ILIKE`. -/
  ilike : Address → Text → Bool
  /-- A time in ISO 8601, with microseconds. -/
  toRfc3339 : Timestamp → String

/-- A page of a list, with the number of rows in the whole list. -/
structure ListPage (ρ : Type) where
  items : List ρ
  paginationTotal : ℕ
  paginationPage : UInt32
  paginationPerPage : UInt32

/-- `((page - 1) * per_page) as i64`. -/
def offsetOf (page perPage : UInt32) : UInt32 := (page - 1) * perPage

/-- `ORDER BY … LIMIT … OFFSET …`. -/
def sortedPage {ρ : Type} (order : SqlOrder) (le : ρ → ρ → Prop) [DecidableRel le] (perPage offset : UInt32)
    (rows : List ρ) : List ρ :=
  page offset.toNat perPage.toNat ((order.scan rows).insertionSort le)

/-- `fetch_all`: one row that cannot be decoded fails the query. -/
def fetchAll {ρ α : Type} (decode : ρ → Except DbError α) (rows : Node → List ρ) : Db DbError (List α) :=
  sql fun n => ((rows n).mapM decode, n)

variable (lib : ListingsDb)

/-! ## Balances -/

structure BalancesQuery where
  chains : Option String
  minBalance : Option Int
  pagination : Option UInt32
  page : Option UInt32

namespace BalancesQuery

def pageOf (q : BalancesQuery) : UInt32 := max (q.page.getD 1) 1

def perPage (q : BalancesQuery) : UInt32 := min (q.pagination.getD 100) 1000

def offset (q : BalancesQuery) : UInt32 := offsetOf q.pageOf q.perPage

end BalancesQuery

/-- A row as the handler reads it; `updated_at` is read too. -/
structure BalanceDb where
  address : Address
  chain : String
  balance : String

def BalanceDb.fields : List String := ["address", "chain", "balance", "updated_at"]

/-- `SELECT address, chain, balance FROM balances`. -/
def balanceColumns : List String := ["address", "chain", "balance"]

/-- `FromRow`: every field needs a column of its name. -/
def BalanceDb.fromRow (columns : List String) (r : BalanceRow) : Except DbError BalanceDb :=
  match fields.find? fun field => !columns.contains field with
  | some field => .error s!"no column found for name: {field}"
  | none => (lib.decodeDecimal r.balance).elim (.error "error occurred while decoding column \"balance\"")
      fun balance => .ok ⟨r.address, r.chain, balance⟩

structure BalanceItem where
  address : Address
  chain : String
  balance : ℚ

/-- The balances of the chains that are asked for, from the least balance on. -/
def matchingBalances (q : BalancesQuery) (n : Node) : List BalanceRow :=
  n.balances.rows.filter fun r => columnIn q.chains (some r.chain) && q.minBalance.all fun least =>
    !decide (0 < least) || decide (lib.toDouble least ≤ lib.toDouble r.balance)

/-- `ORDER BY balance DESC`. -/
def byBalance (r s : BalanceRow) : Prop := s.balance ≤ r.balance

instance : DecidableRel byBalance := fun r s => inferInstanceAs (Decidable (s.balance ≤ r.balance))

/-- Get list of balances. -/
def getBalances (order : SqlOrder) (q : BalancesQuery) : Db DbError (ListPage BalanceItem) := do
  let total ← orDefault 0 (query fun n => (matchingBalances lib q n).length)
  let balances ← orDefault [] (fetchAll (BalanceDb.fromRow lib balanceColumns) fun n =>
    sortedPage order byBalance q.perPage q.offset (matchingBalances lib q n))
  pure ⟨balances.map fun b => ⟨b.address, b.chain, (lib.parseF64 b.balance).getD 0⟩, total, q.pageOf, q.perPage⟩

/-! ## Credit balances -/

structure CreditBalancesQuery where
  addresses : Option String
  minBalance : Option Int
  pagination : Option UInt32
  page : Option UInt32

namespace CreditBalancesQuery

/-- Page 0 stays page 0. -/
def pageOf (q : CreditBalancesQuery) : UInt32 := q.page.getD 1

def perPage (q : CreditBalancesQuery) : UInt32 := min (q.pagination.getD 100) 1000

def offset (q : CreditBalancesQuery) : UInt32 := offsetOf q.pageOf q.perPage

end CreditBalancesQuery

structure CreditBalanceItem where
  address : Address
  credits : Int

/-- `str::parse::<i64>`. -/
def parseI64 (s : String) : Option Int :=
  let (sign, digits) : Int × Text :=
    match s.toList with
    | '-' :: digits => (-1, digits)
    | '+' :: digits => (1, digits)
    | digits => (1, digits)
  if digits.isEmpty || !digits.all Char.isDigit then none
  else
    let value := sign * digits.foldl (fun (value : Int) c => 10 * value + (c.toNat - '0'.toNat : ℕ)) 0
    if -(2 ^ 63) ≤ value ∧ value < 2 ^ 63 then some value else none

/-- `address = ANY($1) AND balance >= $2`. -/
def creditMatches (q : CreditBalancesQuery) (r : CreditBalanceRow) : Bool :=
  (q.addresses.all fun addresses => (parseCsvParam addresses).contains r.address) &&
    decide (((q.minBalance.getD 0 : Int) : ℚ) ≤ r.balance)

def matchingCredits (q : CreditBalancesQuery) (n : Node) : List CreditBalanceRow :=
  n.creditBalances.rows.filter (creditMatches q)

/-- There is no `ORDER BY`. -/
def inAnyOrder (_ _ : CreditBalanceRow) : Prop := True

instance : DecidableRel inAnyOrder := fun _ _ => inferInstanceAs (Decidable True)

/-- The address and the decimal of a row. -/
def decodeCredit (r : CreditBalanceRow) : Except DbError (Address × String) :=
  (lib.decodeDecimal r.balance).elim (.error "error occurred while decoding column 1") fun balance =>
    .ok (r.address, balance)

/-- The page of credit balances and their number; no query is made for an empty list of addresses. -/
def fetchCredits (order : SqlOrder) (q : CreditBalancesQuery) : Db DbError (List (Address × String) × ℕ) :=
  if (q.addresses.map parseCsvParam) = some [] then pure ([], 0)
  else do
    let balances ← orDefault [] (fetchAll (decodeCredit lib) fun n =>
      sortedPage order inAnyOrder q.perPage q.offset (matchingCredits q n))
    let count ← orDefault 0 (query fun n => (matchingCredits q n).length)
    pure (balances, count)

/-- Get all credit balances. -/
def getCreditBalances (order : SqlOrder) (q : CreditBalancesQuery) : Db DbError (ListPage CreditBalanceItem) := do
  let (creditBalances, total) ← fetchCredits lib order q
  pure ⟨creditBalances.map fun b => ⟨b.1, (parseI64 b.2).getD 0⟩, total, q.pageOf, q.perPage⟩

/-! ## Aggregates -/

namespace ListAggregatesQuery

def pageOf (q : ListAggregatesQuery) : UInt32 := max (q.page.getD 1) 1

/-- `limit` goes before `pagination`. -/
def perPage (q : ListAggregatesQuery) : UInt32 := min ((q.limit.or q.pagination).getD 20) 500

def offset (q : ListAggregatesQuery) : UInt32 := offsetOf q.pageOf q.perPage

def ascending (q : ListAggregatesQuery) : Bool := q.sortOrder.any fun o => decide (o = 1)

end ListAggregatesQuery

/-- An aggregate with an element it was last revised by. -/
structure JoinedAggregate where
  a : AggregateRow
  ae : Option AggregateElement
  deriving DecidableEq

structure AggregateListItem where
  address : Address
  key : String
  content : Value
  created : String
  lastUpdated : String

/-- The aggregates that the filters select. -/
def matchingAggregates (q : ListAggregatesQuery) (n : Node) : List AggregateRow :=
  n.aggregates.rows.filter fun r => columnIn q.addresses (some r.address) && columnIn q.keys (some r.key)

/-- `LEFT JOIN aggregate_elements ae ON a.last_revision_hash = ae.item_hash`. -/
def joinAggregate (n : Node) (a : AggregateRow) : List JoinedAggregate :=
  let revisions := n.aggregateElements.filter fun e => decide (a.lastRevisionHash = some e.itemHash)
  if revisions.isEmpty then [⟨a, none⟩] else revisions.map fun e => ⟨a, some e⟩

/-- The rows of the query. -/
def joinedAggregates (q : ListAggregatesQuery) (n : Node) : List JoinedAggregate :=
  (matchingAggregates q n).flatMap (joinAggregate n)

/-- `COALESCE(ae.time, a.time)`. -/
def JoinedAggregate.lastUpdated (row : JoinedAggregate) : Timestamp :=
  (row.ae.map AggregateElement.time).getD row.a.time

/-- The column of `sortBy`. -/
def sortTime (q : ListAggregatesQuery) (row : JoinedAggregate) : Timestamp :=
  if q.sortBy = some "creation_time" then row.a.time else row.lastUpdated

/-- `ORDER BY sort_column order_dir`. -/
def byTime (q : ListAggregatesQuery) (r s : JoinedAggregate) : Prop :=
  if q.ascending then sortTime q r ≤ sortTime q s else sortTime q s ≤ sortTime q r

instance (q : ListAggregatesQuery) : DecidableRel (byTime q) := fun r s =>
  inferInstanceAs (Decidable (if q.ascending then sortTime q r ≤ sortTime q s else sortTime q s ≤ sortTime q r))

/-- The rows of the page. -/
def aggregatePage (order : SqlOrder) (q : ListAggregatesQuery) (n : Node) : List JoinedAggregate :=
  sortedPage order (byTime q) q.perPage q.offset (joinedAggregates q n)

def aggregateItem (row : JoinedAggregate) : AggregateListItem where
  address := row.a.address
  key := row.a.key
  content := row.a.content
  created := lib.toRfc3339 row.a.time
  lastUpdated := lib.toRfc3339 row.lastUpdated

/-- List aggregates; if there are dirty ones on the page, they are rebuilt and the page is fetched again. -/
def listAggregates (order refetch : SqlOrder) (q : ListAggregatesQuery) :
    Db HandlerError (ListPage AggregateListItem) := do
  let total ← db (orDefault 0 (query fun n => (matchingAggregates q n).length))
  let aggregates ← db (orDefault [] (query (aggregatePage order q)))
  let dirtyAggs := dirtyOf (aggregates.map JoinedAggregate.a)
  if dirtyAggs.isEmpty then pure ⟨aggregates.map (aggregateItem lib), total, q.pageOf, q.perPage⟩
  else do
    refreshAll dirtyAggs
    let refreshed ← db (orDefault [] (query (aggregatePage refetch q)))
    pure ⟨refreshed.map (aggregateItem lib), total, q.pageOf, q.perPage⟩

/-! ## Statistics of addresses -/

structure AddressStatsV1Query where
  pagination : Option UInt32
  page : Option UInt32
  sortOrder : Option Int
  addressContains : Option String
  sortBy : Option String

namespace AddressStatsV1Query

def pageOf (q : AddressStatsV1Query) : UInt32 := max (q.page.getD 1) 1

def perPage (q : AddressStatsV1Query) : UInt32 := min (q.pagination.getD 20) 1000

def offset (q : AddressStatsV1Query) : UInt32 := offsetOf q.pageOf q.perPage

def ascending (q : AddressStatsV1Query) : Bool := q.sortOrder.any fun o => decide (o = 1)

/-- The message type whose messages `sortBy` counts; all messages count for any other value. -/
def sortType (q : AddressStatsV1Query) : Option MessageType :=
  q.sortBy.bind fun s =>
    if s = "post" then some .post
    else if s = "aggregate" then some .aggregate
    else if s = "store" then some .store
    else if s = "program" then some .program
    else if s = "instance" then some .instance
    else if s = "forget" then some .forget
    else none

/-- The pattern of the search for addresses, if there is a search; it panics inside a character. -/
def search (q : AddressStatsV1Query) : Except (Panic ⊕ DbError) (Option Text) :=
  q.addressContains.elim (.ok none) fun s => (addressSearch s).elim (.error (.inl ⟨⟩)) fun pattern => .ok (some pattern)

end AddressStatsV1Query

structure AddressStatsItem where
  messages : ℕ
  aggregate : ℕ
  forget : ℕ
  «instance» : ℕ
  post : ℕ
  program : ℕ
  store : ℕ

namespace AddressStatsItem

/-- Before the counts by type are filled in. -/
def ofTotal (total : ℕ) : AddressStatsItem := ⟨total, 0, 0, 0, 0, 0, 0⟩

/-- Fill in the count of a type. -/
def fill (entry : AddressStatsItem) (count : ℕ) : MessageType → AddressStatsItem
  | .aggregate => { entry with aggregate := count }
  | .forget => { entry with forget := count }
  | .instance => { entry with «instance» := count }
  | .post => { entry with post := count }
  | .program => { entry with program := count }
  | .store => { entry with store := count }

end AddressStatsItem

/-- `WHERE sender ILIKE $1`. -/
def statsMessages (pattern : Option Text) (n : Node) : List MessageRow :=
  n.messages.rows.filter fun m => pattern.all (lib.ilike m.sender)

/-- `COUNT(DISTINCT sender)` counts these. -/
def statsSenders (pattern : Option Text) (n : Node) : List Address :=
  ((statsMessages lib pattern n).map MessageRow.sender).dedup

/-- The messages of a sender, or those of one type. -/
def countOf (messages : List MessageRow) (type : Option MessageType) (sender : Address) : ℕ :=
  messages.countP fun m => decide (m.sender = sender) && type.all fun t => decide (m.messageType = t)

/-- `GROUP BY sender`: a sender, all its messages, and those that are sorted by. -/
structure StatsRow where
  sender : Address
  totalMessages : ℕ
  sortCount : ℕ
  deriving DecidableEq

def statsRow (q : AddressStatsV1Query) (messages : List MessageRow) (sender : Address) : StatsRow where
  sender
  totalMessages := countOf messages none sender
  sortCount := countOf messages q.sortType sender

/-- The rows of the query. -/
def statsRows (q : AddressStatsV1Query) (pattern : Option Text) (n : Node) : List StatsRow :=
  (statsSenders lib pattern n).map (statsRow q (statsMessages lib pattern n))

/-- `ORDER BY sort_column order_clause`. -/
def byCount (q : AddressStatsV1Query) (r s : StatsRow) : Prop :=
  if q.ascending then r.sortCount ≤ s.sortCount else s.sortCount ≤ r.sortCount

instance (q : AddressStatsV1Query) : DecidableRel (byCount q) := fun r s =>
  inferInstanceAs (Decidable (if q.ascending then r.sortCount ≤ s.sortCount else s.sortCount ≤ r.sortCount))

/-- `WHERE sender = ANY($1) GROUP BY sender, message_type`. -/
def countsByType (senders : List Address) (n : Node) : List (Address × MessageType × ℕ) :=
  let messages := n.messages.rows.filter fun m => senders.contains m.sender
  (messages.map fun m => (m.sender, m.messageType)).dedup.map fun g => (g.1, g.2, countOf messages (some g.2) g.1)

/-- The entry of a sender. -/
def statsEntry (stats : List (Address × MessageType × ℕ)) (row : StatsRow) : Address × AddressStatsItem :=
  (row.sender, (stats.filter fun s => decide (s.1 = row.sender)).foldl (fun entry s => entry.fill s.2.2 s.2.1)
    (.ofTotal row.totalMessages))

/-- Get paginated address statistics. -/
def getAddressesStatsV1 (order : SqlOrder) (q : AddressStatsV1Query) :
    Db (Panic ⊕ DbError) (ListPage (Address × AddressStatsItem)) := do
  let pattern ← fromExcept q.search
  let total ← mapErr .inr (orDefault 0 (query fun n => (statsSenders lib pattern n).length))
  let addresses ← mapErr .inr (orDefault [] (query fun n =>
    sortedPage order (byCount q) q.perPage q.offset (statsRows lib q pattern n)))
  if addresses.isEmpty then pure ⟨[], total, q.pageOf, q.perPage⟩
  else do
    let stats ← mapErr .inr (orDefault [] (query (countsByType (addresses.map StatsRow.sender))))
    pure ⟨addresses.map (statsEntry stats), total, q.pageOf, q.perPage⟩

end AlephCore.Web
