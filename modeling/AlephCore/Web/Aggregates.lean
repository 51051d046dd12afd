import AlephCore.Handlers.Aggregate
import AlephCore.Web.Posts

/-!
# Aggregates — the readers of aggregates

Mirrors the lazy refresh of `get_aggregates` and `list_aggregates` of `web/handlers.rs`: the dirty aggregates among
those a request asks for are rebuilt, one after another, before the rows are fetched again.
-/

namespace AlephCore.Web

open ProgE AggregateHandler

/-- Query parameters for the aggregates of an address. -/
structure AggregateQuery where
  keys : Option String
  limit : Option UInt32

/-- Query parameters for the list of aggregates. -/
structure ListAggregatesQuery where
  addresses : Option String
  keys : Option String
  limit : Option UInt32
  pagination : Option UInt32
  page : Option UInt32
  sortOrder : Option Int
  sortBy : Option String

/-- The keys of the dirty rows. -/
def dirtyOf (rows : List AggregateRow) : List (Address × String) :=
  (rows.filter AggregateRow.dirty).map fun r => (r.address, r.key)

/-- The dirty aggregates among those of `get_aggregates`. -/
def dirtyKeys (order : SqlOrder) (address : Address) (q : AggregateQuery) (n : Node) : List (Address × String) :=
  dirtyOf (((order.scan n.aggregates.rows).filter fun r => r.address = address ∧ columnIn q.keys (some r.key)).take
    (q.limit.getD 1000).toNat)

/-- `a.time`, or that of the element the row was last revised by. -/
def listedTime (q : ListAggregatesQuery) (n : Node) (r : AggregateRow) : Timestamp :=
  if q.sortBy = some "creation_time" then r.time
  else ((n.aggregateElements.find? fun e => decide (r.lastRevisionHash = some e.itemHash)).map
    AggregateElement.time).getD r.time

/-- The dirty aggregates on the page of `list_aggregates`. -/
def dirtyListed (order : SqlOrder) (q : ListAggregatesQuery) (n : Node) : List (Address × String) :=
  let perPage := min ((q.limit.or q.pagination).getD 20) 500
  let page := max (q.page.getD 1) 1
  let selected := (order.scan n.aggregates.rows).filter fun r =>
    columnIn q.addresses (some r.address) ∧ columnIn q.keys (some r.key)
  let sorted := selected.insertionSort fun r s =>
    if q.sortOrder = some 1 then listedTime q n r ≤ listedTime q n s else listedTime q n s ≤ listedTime q n r
  dirtyOf ((sorted.drop ((page - 1) * perPage).toNat).take perPage.toNat)

/-- Rebuild these aggregates; a failure is only logged. -/
def refreshAll : List (Address × String) → Db HandlerError Unit :=
  forEach fun p => ignore (rebuildAggregateFromElements p.1 p.2)

/-- Read which aggregates are dirty, and rebuild them. -/
def lazyRefresh (dirty : Node → List (Address × String)) : Db HandlerError Unit := do
  let keys ← db (orDefault [] (query dirty))
  refreshAll keys

/-- The lazy refresh of `get_aggregates`. -/
def getAggregatesRefresh (order : SqlOrder) (address : Address) (q : AggregateQuery) : Db HandlerError Unit :=
  lazyRefresh (dirtyKeys order address q)

/-- The lazy refresh of `list_aggregates`. -/
def listAggregatesRefresh (order : SqlOrder) (q : ListAggregatesQuery) : Db HandlerError Unit :=
  lazyRefresh (dirtyListed order q)

/-- A request that reads aggregates. -/
inductive AggregateReader where
  | get (address : Address) (q : AggregateQuery)
  | list (q : ListAggregatesQuery)

namespace AggregateReader

/-- The dirty aggregates that it comes across. -/
def dirty (order : SqlOrder) : AggregateReader → Node → List (Address × String)
  | get address q => dirtyKeys order address q
  | list q => dirtyListed order q

/-- Its lazy refresh. -/
def refresh (order : SqlOrder) : AggregateReader → Db HandlerError Unit
  | get address q => getAggregatesRefresh order address q
  | list q => listAggregatesRefresh order q

theorem refresh_eq (order : SqlOrder) (r : AggregateReader) : r.refresh order = lazyRefresh (r.dirty order) := by
  cases r with
  | get address q => rfl
  | list q => rfl

end AggregateReader

end AlephCore.Web
