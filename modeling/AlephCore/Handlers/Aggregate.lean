import AlephCore.Handlers.Context

/-!
# Aggregate — the aggregate message handler

Mirrors `handlers/aggregate.rs`.  Every element is stored; the aggregate itself is merged
incrementally, rebuilt from the elements, or marked dirty and left to a later reader.
-/

namespace AlephCore.AggregateHandler

open ProgE

/-! ## The statements -/

/-- The elements of an aggregate, in the order they were stored. -/
def elementsOf (address : Address) (key : String) (n : Node) : List AggregateElement :=
  n.aggregateElements.filter fun e => e.address = address ∧ e.key = key

/-- `ORDER BY time ASC, item_hash ASC`. -/
def Chronological (a b : AggregateElement) : Prop :=
  a.time < b.time ∨ a.time = b.time ∧ a.itemHash ≤ b.itemHash

instance : DecidableRel Chronological := fun a b =>
  inferInstanceAs (Decidable (a.time < b.time ∨ a.time = b.time ∧ a.itemHash ≤ b.itemHash))

/-- The elements of an aggregate in chronological order. -/
def chronologicalElements (address : Address) (key : String) (n : Node) : List AggregateElement :=
  (elementsOf address key n).insertionSort Chronological

/-- Store an element, unless one with its hash is stored. -/
def storeElement (e : AggregateElement) (n : Node) : Node :=
  if ∃ e' ∈ n.aggregateElements, e'.itemHash = e.itemHash then n
  else { n with aggregateElements := n.aggregateElements ++ [e] }

/-- Overwrite content, time and last revision; the row is clean afterwards. -/
def writeAggregate (address : Address) (key : String) (s : Value × ItemHash × Timestamp) (n : Node) :
    Node :=
  { n with
    aggregates := n.aggregates.update (fun r => (r.address, r.key) = (address, key)) fun r =>
      { r with content := s.1, time := s.2.2, lastRevisionHash := some s.2.1, dirty := false } }

/-- Mark a row dirty. -/
def setDirty (address : Address) (key : String) (n : Node) : Node :=
  { n with
    aggregates := n.aggregates.update (fun r => (r.address, r.key) = (address, key)) fun r =>
      { r with dirty := true } }

def insertElement (e : AggregateElement) : Db DbError Unit := execute (storeElement e)

/-- `INSERT … ON CONFLICT (address, key) DO NOTHING`, with the number of rows inserted. -/
def insertAggregate (r : AggregateRow) : Db DbError Nat :=
  sql fun n =>
    (.ok (if (n.aggregates.find? (r.address, r.key)).isSome then 0 else 1),
      { n with aggregates := n.aggregates.insertNew r })

def selectAggregate (address : Address) (key : String) : Db DbError (Option AggregateRow) :=
  query fun n => n.aggregates.find? (address, key)

def updateAggregate (address : Address) (key : String) (s : Value × ItemHash × Timestamp) :
    Db DbError Unit :=
  execute (writeAggregate address key s)

def markDirty (address : Address) (key : String) : Db DbError Unit := execute (setDirty address key)

def countElements (address : Address) (key : String) : Db DbError Nat :=
  query fun n => (elementsOf address key n).length

/-! ## Rebuilding -/

/-- One element on top of what has been merged so far. -/
def mergeElement (s : Value × ItemHash × Timestamp) (e : AggregateElement) :
    Value × ItemHash × Timestamp :=
  (s.1.deepMerge e.content, e.itemHash, e.time)

/-- Merge the elements in the given order; the last one gives the revision and the time. -/
def mergeElements (elements : List AggregateElement) : Value × ItemHash × Timestamp :=
  elements.foldl mergeElement (Value.emptyObject, "", 0)

/-- Rebuild an aggregate from all stored elements in chronological order. -/
def rebuildAggregateFromElements (address : Address) (key : String) : Db HandlerError Unit := do
  let elements ← db (query (chronologicalElements address key))
  if elements.isEmpty then pure ()
  else db (updateAggregate address key (mergeElements elements))

/-! ## The handler -/

def validate : HandlerStep := fun message ctx => do
  let content ← fromExcept (parseContent ctx.env AggregateContent.decode
    (fun e => s!"Invalid aggregate content: {e}") message)
  if content.key = "" then throw (.invalidContent "Aggregate key cannot be empty")
  else pure ()

/-- More elements than this are not rebuilt at once. -/
def dirtyThreshold : Nat := 1000

/-- The element a message stores. -/
def elementOf (message : Message) (content : AggregateContent) : AggregateElement :=
  { address := content.address, key := content.key, itemHash := message.itemHash,
    content := content.content, time := content.time }

/-- The row of an aggregate whose first element is `e`. -/
def firstRow (e : AggregateElement) : AggregateRow :=
  { address := e.address, key := e.key, content := e.content, time := e.time, dirty := false,
    lastRevisionHash := some e.itemHash }

/-- The element merged on top of an existing row. -/
def mergedInto (existing : AggregateRow) (e : AggregateElement) : Value × ItemHash × Timestamp :=
  (existing.content.deepMerge e.content, e.itemHash, e.time)

/-- Skip a dirty aggregate; merge a newer element on top; rebuild for an older one, or mark dirty. -/
def mergeExisting (e : AggregateElement) (existing : AggregateRow) : Db HandlerError Unit :=
  if existing.dirty then pure ()
  else if existing.time ≤ e.time then
    db (updateAggregate e.address e.key (mergedInto existing e))
  else do
    let count ← db (countElements e.address e.key)
    if dirtyThreshold < count then db (markDirty e.address e.key)
    else rebuildAggregateFromElements e.address e.key

/-- The aggregate exists: fetch its row and merge. -/
def updateExisting (e : AggregateElement) : Db HandlerError Unit := do
  match ← db (selectAggregate e.address e.key) with
  | none => pure ()
  | some existing => mergeExisting e existing

/-- What `process` does with the element of the message. -/
def processElement (e : AggregateElement) : Db HandlerError Unit := do
  db (insertElement e)
  let rowsAffected ← db (insertAggregate (firstRow e))
  if rowsAffected = 0 then updateExisting e else pure ()

def process : HandlerStep := fun message ctx => do
  let content ← fromExcept (parseContent ctx.env AggregateContent.decode (fun e => e) message)
  processElement (elementOf message content)

def handler : MessageHandler := ⟨validate, checkPermissions, checkNoBalance, process⟩

end AlephCore.AggregateHandler
