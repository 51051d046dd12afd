import AlephCore.Jobs.ChainSync
import AlephCore.Lib.Faults
import AlephCore.Lib.LruCache

/-!
# P2pConsumer — the job that takes messages from the network

Mirrors the message stream of `jobs/p2p_consumer.rs`.  A delivery that can be read as a message is queued
unless its key is in a cache of the last keys.  The key has the sender, the hash and the signature of the
message; the queue has one place for each hash.
-/

namespace AlephCore.P2pConsumer

open ProgE Prog

/-- Dedup cache capacity. -/
def dedupCacheSize : Nat := 200000

theorem dedupCacheSize_pos : 0 < dedupCacheSize := by decide

/-- Sender, hash and signature. -/
abbrev DedupKey := Address × ItemHash × String

abbrev DedupCache := LruCache DedupKey

structure P2pConsumerContext where
  env : Env
  /-- `urlencoding::decode`. -/
  urlDecode : String → Except String String

/-- What the broker delivers, the clock then, and the error the insertion fails with, if it does. -/
structure Delivery where
  data : ByteArray
  now : Timestamp
  failure : Option DbError

def dedupKey (message : Message) : DedupKey := (message.sender, message.itemHash, message.signature)

/-- The message in a delivery, as URL-encoded JSON or as plain JSON. -/
def parseDelivery (ctx : P2pConsumerContext) (data : ByteArray) : Option Message :=
  match String.fromUTF8? data with
  | none => none
  | some raw =>
    let decoded := match ctx.urlDecode raw with
      | .ok s => s
      | .error _ => raw
    (ctx.env.fromStr Message.decode decoded).toOption

/-- Queue the message, unless its key is in the cache; the cache afterwards and what the database is told. -/
def queueMessage (now : Timestamp) (message : Message) (cache : DedupCache) : DedupCache × Db DbError Unit :=
  if dedupKey message ∈ cache then (cache.get (dedupKey message), pure ())
  else (cache.put (dedupKey message), ChainSync.insertPendingMessage now message.itemHash message.toJson)

/-- Handle one delivery; it is acknowledged whatever happens. -/
def processDelivery (ctx : P2pConsumerContext) (d : Delivery) (cache : DedupCache) : DedupCache × Db DbError Unit :=
  match parseDelivery ctx d.data with
  | none => (cache, pure ())
  | some message => queueMessage d.now message cache

/-- The cache and the node after a delivery. -/
def deliver (ctx : P2pConsumerContext) (d : Delivery) (cache : DedupCache) (n : Node) : DedupCache × Node :=
  let (cache', p) := processDelivery ctx d cache
  (cache', (p.run.runWith [d.failure] n).2)

/-! ## What a delivery does to the queue -/

/-- The row a message is queued as. -/
def rowOf (now : Timestamp) (message : Message) : PendingMessageDb :=
  { itemHash := message.itemHash, message := message.toJson, receptionTime := now, fetched := false,
    checkMessage := true, retries := 0, nextAttempt := now, trustedSource := false }

/-- The delivery leaves the database as it is: it is no message, its key is in the cache, a row of its hash is
pending, or the insertion fails. -/
def Inert (ctx : P2pConsumerContext) (d : Delivery) (cache : DedupCache) (n : Node) : Prop :=
  d.failure = none → ∀ message, parseDelivery ctx d.data = some message →
    dedupKey message ∈ cache ∨ ∃ p ∈ n.pendingMessages, p.itemHash = message.itemHash

variable {ctx : P2pConsumerContext} {d : Delivery} {cache : DedupCache} {n : Node}

/-- A message under a pending hash changes nothing. -/
theorem insertNew_of_pending {t : Table PendingMessageDb PendingMessageDb.itemHash} {r : PendingMessageDb}
    (h : ∃ p ∈ t, p.itemHash = r.itemHash) : t.insertNew r = t := by
  have hclash : t.Clash r := h
  rw [Table.insertNew, dif_pos hclash]

theorem deliver_of_parse {message : Message} (h : parseDelivery ctx d.data = some message) :
    deliver ctx d cache n = ((queueMessage d.now message cache).1,
      ((queueMessage d.now message cache).2.run.runWith [d.failure] n).2) := by
  unfold deliver processDelivery
  rw [h]

/-- The insertion of a message whose key is new. -/
theorem deliver_new {message : Message} (h : parseDelivery ctx d.data = some message) (hfailure : d.failure = none)
    (hkey : dedupKey message ∉ cache) :
    deliver ctx d cache n = (cache.put (dedupKey message),
      { n with pendingMessages := n.pendingMessages.insertNew (rowOf d.now message) }) := by
  rw [deliver_of_parse h, queueMessage, if_neg hkey, hfailure]
  rfl

theorem deliver_inert (h : Inert ctx d cache n) : (deliver ctx d cache n).2 = n := by
  cases hparse : parseDelivery ctx d.data with
  | none =>
    unfold deliver processDelivery
    rw [hparse]
    rfl
  | some message =>
    by_cases hkey : dedupKey message ∈ cache
    · rw [deliver_of_parse hparse, queueMessage, if_pos hkey]
      rfl
    · cases hfailure : d.failure with
      | some e =>
        rw [deliver_of_parse hparse, queueMessage, if_neg hkey, hfailure]
        rfl
      | none =>
        rw [deliver_new hparse hfailure hkey]
        have hpending := (h hfailure message hparse).resolve_left hkey
        simp only [insertNew_of_pending (r := rowOf d.now message) hpending]

/-- **A delivery that is not inert** puts its message into the queue, under a hash that was not there. -/
theorem deliver_queued (h : ¬ Inert ctx d cache n) :
    ∃ message, parseDelivery ctx d.data = some message ∧ (∀ p ∈ n.pendingMessages, p.itemHash ≠ message.itemHash) ∧
      deliver ctx d cache n = (cache.put (dedupKey message),
        { n with pendingMessages := n.pendingMessages.insertNew (rowOf d.now message) }) := by
  unfold Inert at h
  push Not at h
  obtain ⟨hfailure, message, hparse, hkey, hpending⟩ := h
  exact ⟨message, hparse, hpending, deliver_new hparse hfailure hkey⟩

end AlephCore.P2pConsumer
