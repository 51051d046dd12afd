import AlephCore.Types.Message
import Mathlib.Data.Finset.Card
import Mathlib.Data.Finset.Sort
import Mathlib.Algebra.Order.Ring.Rat
import Mathlib.Algebra.Order.Ring.Nat

/-!
# WebSocket — subscriptions and the history query

Mirrors `web/websocket.rs`: the filter a client installs, the requests that change it, and the text of the
query that reads its history.
-/

namespace AlephCore.WebSocket

/-- WebSocket query parameters. -/
structure WsQuery where
  addresses : Option String
  channels : Option String
  messageTypes : Option String
  hashes : Option String
  /-- Request message history (last N messages). -/
  history : Option Nat

/-- A finite `f64`, by the digits it is displayed with. -/
structure Decimal where
  negative : Bool
  whole : Nat
  fraction : List (Fin 10)

/-- The number that the digits denote. -/
def Decimal.value (d : Decimal) : ℚ :=
  (if d.negative then -1 else 1) * ((d.whole : ℚ) + d.fraction.foldr (fun i x => ((i.val : ℚ) + x) / 10) 0)

def Decimal.toString (d : Decimal) : String :=
  (if d.negative then "-" else "") ++ Nat.repr d.whole ++
    (if d.fraction = [] then "" else "." ++ String.ofList (d.fraction.map fun i : Fin 10 => Nat.digitChar i.val))

/-- Subscription request from client. -/
inductive SubscriptionRequest where
  | subscribe (addresses channels messageTypes hashes : List String)
  | update (addAddresses removeAddresses addChannels removeChannels : List String)
  | unsubscribe
  | ping (nonce : Nat)
  | history (limit : Nat) (before : Option Decimal)

/-- Subscription response to client. -/
inductive SubscriptionResponse where
  | subscribed (subscriptionId : String) (filterCount : Nat)
  | updated (filterCount : Nat)
  | unsubscribed
  | pong (nonce : Nat)
  | history (messages : List Message) (hasMore : Bool)
  | error (code : Nat) (message : String)

/-! ## The filter -/

/-- Subscription filter. -/
@[ext] structure SubscriptionFilter where
  addresses : Finset String
  channels : Finset String
  messageTypes : Finset String
  hashes : Finset String
  deriving DecidableEq

namespace SubscriptionFilter

def new : SubscriptionFilter := ⟨∅, ∅, ∅, ∅⟩

/-- `char::is_whitespace`. -/
def isWhitespace (c : Char) : Bool :=
  (9 ≤ c.toNat && c.toNat ≤ 13) || c.toNat == 0x20 || c.toNat == 0x85 || c.toNat == 0xA0 || c.toNat == 0x1680 ||
    (0x2000 ≤ c.toNat && c.toNat ≤ 0x200A) || c.toNat == 0x2028 || c.toNat == 0x2029 || c.toNat == 0x202F ||
    c.toNat == 0x205F || c.toNat == 0x3000

/-- `str::trim`. -/
def trim (cs : List Char) : List Char :=
  ((cs.dropWhile isWhitespace).reverse.dropWhile isWhitespace).reverse

/-- The trimmed parts between the commas. -/
def parts (s : String) : List String := (s.toList.splitOn ',').map fun cs => String.ofList (trim cs)

def insertAll (s : Finset String) (xs : List String) : Finset String := xs.foldl (fun s x => insert x s) s

def removeAll (s : Finset String) (xs : List String) : Finset String := xs.foldl (fun s x => s.erase x) s

/-- The filter of the query parameters; message types are compared in upper case. -/
def fromQuery (toUppercase : String → String) (query : WsQuery) : SubscriptionFilter where
  addresses := query.addresses.elim ∅ fun s => insertAll ∅ (parts s)
  channels := query.channels.elim ∅ fun s => insertAll ∅ (parts s)
  messageTypes := query.messageTypes.elim ∅ fun s => insertAll ∅ ((parts s).map toUppercase)
  hashes := query.hashes.elim ∅ fun s => insertAll ∅ (parts s)

variable (filter : SubscriptionFilter)

def filterCount : Nat :=
  filter.addresses.card + filter.channels.card + filter.messageTypes.card + filter.hashes.card

def isEmpty : Bool :=
  filter.addresses = ∅ ∧ filter.channels = ∅ ∧ filter.messageTypes = ∅ ∧ filter.hashes = ∅

/-- Whether a message goes to the subscriber. -/
def «matches» (message : Message) : Bool :=
  if filter.isEmpty then true
  else if filter.hashes ≠ ∅ ∧ message.itemHash ∈ filter.hashes then true
  else if filter.addresses ≠ ∅ ∧ message.sender ∉ filter.addresses then false
  else if filter.channels ≠ ∅ ∧ ¬ message.channel.any (· ∈ filter.channels) then false
  else if filter.messageTypes ≠ ∅ ∧ message.messageType.toString ∉ filter.messageTypes then false
  else true

def update (addAddresses removeAddresses addChannels removeChannels : List String) : SubscriptionFilter :=
  { filter with
    addresses := removeAll (insertAll filter.addresses addAddresses) removeAddresses
    channels := removeAll (insertAll filter.channels addChannels) removeChannels }

end SubscriptionFilter

/-! ## The history query -/

/-- The order in which a hash set is iterated. -/
structure HashOrder where
  iter : Finset String → List String
  nodup : ∀ s, (iter s).Nodup
  mem_iter : ∀ {s : Finset String} {x : String}, x ∈ iter s ↔ x ∈ s

/-- One of the orders. -/
def HashOrder.sorted : HashOrder where
  iter s := s.sort (· ≤ ·)
  nodup s := s.sort_nodup (· ≤ ·)
  mem_iter := Finset.mem_sort _

/-- `AND column IN (…)`, with every value between quotes; nothing for no values. -/
def inClause (column : String) (values : List String) : String :=
  if values = [] then ""
  else " AND " ++ column ++ " IN (" ++ ",".intercalate (values.map fun v => "'" ++ v ++ "'") ++ ")"

def beforeClause : Option Decimal → String
  | some t => " AND time < " ++ t.toString
  | none => ""

/-- The text that `get_message_history` executes. -/
def historyQuery (order : HashOrder) (filter : SubscriptionFilter) (limit : Nat) (before : Option Decimal) : String :=
  "SELECT * FROM messages WHERE 1=1" ++
    inClause "sender" (order.iter filter.addresses) ++
    inClause "channel" (order.iter filter.channels) ++
    inClause "message_type" (order.iter filter.messageTypes) ++
    inClause "item_hash" (order.iter filter.hashes) ++
    beforeClause before ++
    (" ORDER BY time DESC LIMIT " ++ Nat.repr limit)

/-! ## A session -/

/-- What the handler of a connection holds on to. -/
structure Session where
  filter : SubscriptionFilter
  subscribed : Bool

/-- What a session works with: a database answers the text of a query with messages. -/
structure SessionContext where
  toUppercase : String → String
  order : HashOrder
  subscriptionId : String
  db : Option (String → Except String (List Message))

variable (ctx : SessionContext)

/-- Get message history from database. -/
def getMessageHistory (run : String → Except String (List Message)) (filter : SubscriptionFilter) (limit : Nat)
    (before : Option Decimal) : Except String (List Message) :=
  run (historyQuery ctx.order filter limit before)

/-- Handle a subscription request. -/
def handleRequest (request : SubscriptionRequest) (session : Session) : SubscriptionResponse × Session :=
  match request with
  | .subscribe addresses channels messageTypes hashes =>
    let filter : SubscriptionFilter := ⟨addresses.toFinset, channels.toFinset,
      (messageTypes.map ctx.toUppercase).toFinset, hashes.toFinset⟩
    (.subscribed ctx.subscriptionId filter.filterCount, ⟨filter, true⟩)
  | .update addAddresses removeAddresses addChannels removeChannels =>
    let filter := session.filter.update addAddresses removeAddresses addChannels removeChannels
    (.updated filter.filterCount, { session with filter })
  | .unsubscribe => (.unsubscribed, ⟨.new, false⟩)
  | .ping nonce => (.pong nonce, session)
  | .history limit before =>
    match ctx.db with
    | some run =>
      match getMessageHistory ctx run session.filter (min limit 1000) before with
      | .ok messages => (.history messages (limit ≤ messages.length), session)
      | .error e => (.error 2 ("History query failed: " ++ e), session)
    | none => (.error 3 "Database not available", session)

/-- The start of a connection: the filter comes from the query parameters. -/
def connect (query : WsQuery) : List SubscriptionResponse × Session :=
  let filter := SubscriptionFilter.fromQuery ctx.toUppercase query
  let subscribed := !filter.isEmpty
  let history : List SubscriptionResponse :=
    match query.history, ctx.db with
    | some limit, some run =>
      match getMessageHistory ctx run filter limit none with
      | .ok messages => [.history messages false]
      | .error _ => []
    | _, _ => []
  (if subscribed then .subscribed ctx.subscriptionId filter.filterCount :: history else [], ⟨filter, subscribed⟩)

end AlephCore.WebSocket
