import AlephCore.Lib.Placeholders
import AlephCore.Services.Storage

/-!
# QueryBuilder — SQL queries with numbered parameters

Mirrors `db/query_builder.rs`: every method appends a clause to the text of the query, and the values the clause
refers to to the arguments.  A method that panics builds nothing.
-/

namespace AlephCore

/-- What the source takes from the Unicode tables. -/
structure Unicode where
  toUppercase : String → String
  isAlphanumeric : Char → Bool

/-- A bound argument. -/
inductive Argument (τ : Type) where
  /-- A value of the caller's type. -/
  | value (v : τ)
  | float8 (x : Timestamp)
  | text (s : String)
  | int8 (n : Int64)

structure QueryBuilder (τ : Type) where
  query : String
  countQuery : String
  args : List (Argument τ)
  paramIndex : Int32

namespace QueryBuilder

variable {τ : Type} (u : Unicode)

/-- The position, in bytes, at which the pattern is found first. -/
def find (pattern : List Char) : List Char → Option Nat
  | [] => if pattern = [] then some 0 else none
  | c :: cs => if pattern <+: c :: cs then some 0 else (find pattern cs).map (· + c.utf8Size)

/-- Convert a SELECT query to a COUNT query; the position in the uppercase text is used in the query itself. -/
def toCountQuery (query : String) : Option String :=
  match find " FROM ".toList (u.toUppercase query).toList with
  | none => some query
  | some fromPos => (Storage.splitAt fromPos query.toList).map fun s => "SELECT COUNT(*)" ++ String.ofList s.2

/-- Create a new query builder with a base query. -/
def new (baseQuery : String) : Option (QueryBuilder τ) :=
  (toCountQuery u baseQuery).map fun countQuery => { query := baseQuery, countQuery, args := [], paramIndex := 1 }

/-- `${}` of an index. -/
def placeholder (i : Int32) : String := "$" ++ toString i.toInt

/-- The placeholders of a list of values, with commas. -/
def placeholderList (b : QueryBuilder τ) (n : Nat) : String :=
  ", ".intercalate ((List.range n).map fun i => placeholder (b.paramIndex + Int32.ofNat i))

/-- Append a clause to both texts. -/
def push (b : QueryBuilder τ) (clause : String) : QueryBuilder τ :=
  { b with query := b.query ++ clause, countQuery := b.countQuery ++ clause }

/-- Append a clause to the query alone. -/
def pushQuery (b : QueryBuilder τ) (clause : String) : QueryBuilder τ := { b with query := b.query ++ clause }

/-- `args.add(value)`, and the next index. -/
def add (b : QueryBuilder τ) (a : Argument τ) : QueryBuilder τ :=
  { b with args := b.args ++ [a], paramIndex := b.paramIndex + 1 }

/-- Add the values of a list one after another. -/
def addAll (b : QueryBuilder τ) (as : List (Argument τ)) : QueryBuilder τ := as.foldl add b

/-! ## Conditions -/

/-- An AND condition that compares a column with one value. -/
def andCompare (op column : String) (a : Argument τ) (b : QueryBuilder τ) : QueryBuilder τ :=
  (b.push (" AND " ++ column ++ " " ++ op ++ " " ++ placeholder b.paramIndex)).add a

def andEq (column : String) (value : τ) : QueryBuilder τ → QueryBuilder τ := andCompare "=" column (.value value)

def andIlike (column pattern : String) : QueryBuilder τ → QueryBuilder τ := andCompare "ILIKE" column (.text pattern)

def andGte (column : String) (value : τ) : QueryBuilder τ → QueryBuilder τ := andCompare ">=" column (.value value)

def andLte (column : String) (value : τ) : QueryBuilder τ → QueryBuilder τ := andCompare "<=" column (.value value)

def andLt (column : String) (value : τ) : QueryBuilder τ → QueryBuilder τ := andCompare "<" column (.value value)

/-- Add an AND IN condition for multiple values. -/
def andIn (column : String) (values : List τ) (b : QueryBuilder τ) : QueryBuilder τ :=
  if values = [] then b
  else (b.push (" AND " ++ column ++ " IN (" ++ b.placeholderList values.length ++ ")")).addAll (values.map .value)

/-- The keyset condition of a cursor; the query for the count is left as it is. -/
def andCursorKeyset (colA : String) (valA : Timestamp) (colB valB : String) (ascending : Bool)
    (b : QueryBuilder τ) : QueryBuilder τ :=
  (((b.pushQuery (" AND (" ++ colA ++ " " ++ (if ascending then ">" else "<") ++ " " ++ placeholder b.paramIndex ++
    " OR (" ++ colA ++ " = " ++ placeholder (b.paramIndex + 1) ++ " AND " ++ colB ++ " > " ++
      placeholder (b.paramIndex + 2) ++ "))")).add (.float8 valA)).add (.float8 valA)).add (.text valB)

/-! ## Conditions on JSON fields -/

/-- A name that may stand in a clause. -/
def isName (s : String) : Prop := ∀ c ∈ s.toList, u.isAlphanumeric c = true ∨ c = '_' ∨ c = '.'

instance (s : String) : Decidable (isName u s) := List.decidableBAll _ _

/-- `json_path.split('.')`, joined by commas. -/
def pathArray (jsonPath : String) : String :=
  String.ofList (jsonPath.toList.map fun c => if c = '.' then ',' else c)

/-- A field of a column: by its path if it is nested, else by its name. -/
def jsonbField (nested simple column jsonPath : String) : String :=
  if '.' ∈ jsonPath.toList then
    " AND (" ++ column ++ "::jsonb " ++ nested ++ " '\x7b" ++ pathArray jsonPath ++ "\x7d')"
  else " AND (" ++ column ++ "::jsonb" ++ simple ++ "'" ++ jsonPath ++ "')"

/-- Does the JSONB array contain any of the values? -/
def andJsonbHasAny (column jsonPath : String) (values : List String) (b : QueryBuilder τ) : Option (QueryBuilder τ) :=
  if values = [] then some b
  else if isName u column ∧ isName u jsonPath then
    some ((b.push (jsonbField "#>" "->" column jsonPath ++ " ?| ARRAY[" ++ b.placeholderList values.length ++
      "]")).addAll (values.map .text))
  else none

/-- JSONB text field equality; a nested path is not taken apart. -/
def andJsonbTextEq (column jsonPath value : String) (b : QueryBuilder τ) : Option (QueryBuilder τ) :=
  if isName u column ∧ isName u jsonPath then
    some ((b.push (" AND (" ++ column ++ "::jsonb->>'" ++ jsonPath ++ "') = " ++ placeholder b.paramIndex)).add
      (.text value))
  else none

/-- JSONB text field in a list. -/
def andJsonbTextIn (column jsonPath : String) (values : List String) (b : QueryBuilder τ) : Option (QueryBuilder τ) :=
  if values = [] then some b
  else if isName u column ∧ isName u jsonPath then
    some ((b.push (jsonbField "#>>" "->>" column jsonPath ++ " IN (" ++ b.placeholderList values.length ++
      ")")).addAll (values.map .text))
  else none

/-- Does the JSONB array contain the value? -/
def andJsonbArrayContains (column jsonPath value : String) (b : QueryBuilder τ) : Option (QueryBuilder τ) :=
  if isName u column ∧ isName u jsonPath then
    some ((b.push (jsonbField "#>" "->" column jsonPath ++ " ? " ++ placeholder b.paramIndex)).add (.text value))
  else none

/-! ## Raw clauses, order and limits -/

def andRaw (clause : String) (b : QueryBuilder τ) : QueryBuilder τ := b.push (" AND " ++ clause)

def orderBy (column : String) (ascending : Bool) (b : QueryBuilder τ) : Option (QueryBuilder τ) :=
  if isName u column then
    some (b.pushQuery (" ORDER BY " ++ column ++ " " ++ if ascending then "ASC" else "DESC"))
  else none

def orderByRaw (clause : String) (b : QueryBuilder τ) : QueryBuilder τ := b.pushQuery (" ORDER BY " ++ clause)

def limit (n : Int64) (b : QueryBuilder τ) : QueryBuilder τ :=
  (b.pushQuery (" LIMIT " ++ placeholder b.paramIndex)).add (.int8 n)

def offset (n : Int64) (b : QueryBuilder τ) : QueryBuilder τ :=
  (b.pushQuery (" OFFSET " ++ placeholder b.paramIndex)).add (.int8 n)

end QueryBuilder

/-! ## Sequences of calls -/

/-- A call of a method. -/
inductive Call (τ : Type) where
  | andEq (column : String) (value : τ)
  | andIn (column : String) (values : List τ)
  | andIlike (column pattern : String)
  | andGte (column : String) (value : τ)
  | andLte (column : String) (value : τ)
  | andLt (column : String) (value : τ)
  | andCursorKeyset (colA : String) (valA : Timestamp) (colB valB : String) (ascending : Bool)
  | andJsonbHasAny (column jsonPath : String) (values : List String)
  | andJsonbTextEq (column jsonPath value : String)
  | andJsonbTextIn (column jsonPath : String) (values : List String)
  | andJsonbArrayContains (column jsonPath value : String)
  | andRaw (clause : String)
  | orderBy (column : String) (ascending : Bool)
  | orderByRaw (clause : String)
  | limit (n : Int64)
  | offset (n : Int64)

namespace QueryBuilder

variable {τ : Type} (u : Unicode)

def call (b : QueryBuilder τ) : Call τ → Option (QueryBuilder τ)
  | .andEq column value => some (b.andEq column value)
  | .andIn column values => some (b.andIn column values)
  | .andIlike column pattern => some (b.andIlike column pattern)
  | .andGte column value => some (b.andGte column value)
  | .andLte column value => some (b.andLte column value)
  | .andLt column value => some (b.andLt column value)
  | .andCursorKeyset colA valA colB valB ascending => some (b.andCursorKeyset colA valA colB valB ascending)
  | .andJsonbHasAny column jsonPath values => b.andJsonbHasAny u column jsonPath values
  | .andJsonbTextEq column jsonPath value => b.andJsonbTextEq u column jsonPath value
  | .andJsonbTextIn column jsonPath values => b.andJsonbTextIn u column jsonPath values
  | .andJsonbArrayContains column jsonPath value => b.andJsonbArrayContains u column jsonPath value
  | .andRaw clause => some (b.andRaw clause)
  | .orderBy column ascending => b.orderBy u column ascending
  | .orderByRaw clause => some (b.orderByRaw clause)
  | .limit n => some (b.limit n)
  | .offset n => some (b.offset n)

def callAll (b : QueryBuilder τ) (calls : List (Call τ)) : Option (QueryBuilder τ) := calls.foldlM (call u) b

/-- A new builder after a sequence of calls. -/
def built (baseQuery : String) (calls : List (Call τ)) : Option (QueryBuilder τ) :=
  (new u baseQuery).bind fun b => b.callAll u calls

end QueryBuilder

end AlephCore
