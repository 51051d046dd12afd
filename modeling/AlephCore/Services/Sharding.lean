import AlephCore.Lib.Prog
import AlephCore.Lib.Table
import Mathlib.Algebra.Order.Ring.Nat
import Mathlib.Algebra.Order.Ring.Rat
import Mathlib.Data.List.Sort

/-!
# Sharding — which nodes are responsible for a content

Mirrors `services/sharding.rs` and `TieredStorage::store`: a ring of hash positions, each with the node that
put it there, and the tier a content is stored in.  A `BTreeMap` or `HashMap` is a table here; where its order
matters the rows are sorted first.
-/

namespace AlephCore

/-! ## SipHash -/

/-- The hasher of the standard library is SipHash-1-3 with key 0. -/
structure SipState where
  v0 : UInt64
  v1 : UInt64
  v2 : UInt64
  v3 : UInt64

namespace SipState

def init : SipState := ⟨0x736f6d6570736575, 0x646f72616e646f6d, 0x6c7967656e657261, 0x7465646279746573⟩

def rotl (x n : UInt64) : UInt64 := x <<< n ||| x >>> (64 - n)

def round (s : SipState) : SipState :=
  let v0 := s.v0 + s.v1
  let v1 := rotl s.v1 13 ^^^ v0
  let v2 := s.v2 + s.v3
  let v3 := rotl s.v3 16 ^^^ v2
  let w0 := rotl v0 32 + v3
  let w2 := v2 + v1
  ⟨w0, rotl v1 17 ^^^ w2, rotl w2 32, rotl v3 21 ^^^ w0⟩

/-- Bytes as a little-endian word. -/
def word (bytes : List UInt8) : UInt64 := bytes.foldr (fun b w => w <<< 8 ||| b.toUInt64) 0

def absorb (s : SipState) (m : UInt64) : SipState :=
  let t := { s with v3 := s.v3 ^^^ m }.round
  { t with v0 := t.v0 ^^^ m }

/-- Eight bytes at a time; the last word holds what is left, and the length. -/
def absorbAll (length : Nat) : SipState → List UInt8 → SipState
  | s, b0 :: b1 :: b2 :: b3 :: b4 :: b5 :: b6 :: b7 :: rest =>
    absorbAll length (s.absorb (word [b0, b1, b2, b3, b4, b5, b6, b7])) rest
  | s, rest => s.absorb (length.toUInt64 <<< 56 ||| word rest)

def finish (s : SipState) : UInt64 :=
  let t := { s with v2 := s.v2 ^^^ 0xff }.round.round.round
  t.v0 ^^^ t.v1 ^^^ t.v2 ^^^ t.v3

end SipState

/-- `input.hash(&mut hasher)`: the bytes of the string and a byte that no string contains. -/
def sipHash64 (input : String) : UInt64 :=
  let bytes := input.toList.flatMap String.utf8EncodeChar ++ [0xff]
  (SipState.init.absorbAll bytes.length bytes).finish

example : sipHash64 "abc" = 17224545590736200989 := by decide +kernel

/-! ## The ring -/

/-- A node in the network with its HTTP address. -/
structure PeerNode where
  nodeId : String
  httpAddress : String
  deriving DecidableEq

/-- Consistent hash ring for content routing. -/
structure ContentRing where
  /-- Ring positions, and the node of each. -/
  ring : Table (UInt64 × String) Prod.fst
  nodes : Table PeerNode PeerNode.nodeId
  vnodesPerNode : Nat
  replicationFactor : Nat

namespace ContentRing

def new (replicationFactor vnodesPerNode : Nat) : ContentRing := ⟨.empty, .empty, vnodesPerNode, replicationFactor⟩

/-- Add a node to the ring; it takes over the positions it shares with others. -/
def addNode (r : ContentRing) (nodeId httpAddress : String) : ContentRing :=
  { r with
    nodes := r.nodes.upsert ⟨nodeId, httpAddress⟩ fun p => { p with httpAddress }
    ring := (List.range r.vnodesPerNode).foldl (fun ring i =>
      ring.upsert (sipHash64 s!"{nodeId}:{i}", nodeId) fun entry => (entry.1, nodeId)) r.ring }

/-- Remove a node from the ring. -/
def removeNode (r : ContentRing) (nodeId : String) : ContentRing :=
  { r with
    nodes := r.nodes.delete fun p => p.nodeId = nodeId
    ring := (List.range r.vnodesPerNode).foldl (fun ring i =>
      ring.delete fun entry => entry.1 = sipHash64 s!"{nodeId}:{i}") r.ring }

/-- The nodes of the positions from `position` on, and then of those before it. -/
def clockwise (r : ContentRing) (position : UInt64) : List String :=
  let entries := r.ring.rows.insertionSort fun a b => a.1 ≤ b.1
  ((entries.filter fun e => position ≤ e.1) ++ entries.filter fun e => e.1 < position).map Prod.snd

/-- Collect distinct nodes until there are enough. -/
def collect (r : ContentRing) : List String → List PeerNode → List String → List PeerNode
  | _, result, [] => result
  | seen, result, nodeId :: rest =>
    let result := if nodeId ∈ seen then result else result ++ (r.nodes.find? nodeId).toList
    if r.replicationFactor ≤ result.length then result else r.collect (nodeId :: seen) result rest

/-- Get the responsible nodes for a content hash. -/
def getResponsibleNodes (r : ContentRing) (contentHash : String) : List PeerNode :=
  if r.ring.rows = [] then [] else r.collect [] [] (r.clockwise (sipHash64 contentHash))

/-- Check if a given node is responsible for a content hash. -/
def isResponsible (r : ContentRing) (nodeId contentHash : String) : Bool :=
  (r.getResponsibleNodes contentHash).any fun p => p.nodeId = nodeId

/-- The node is on the ring. -/
def Has (r : ContentRing) (nodeId : String) : Prop := ∃ p ∈ r.nodes, p.nodeId = nodeId

variable {r : ContentRing} {nodeId : String}

theorem has_new {replicationFactor vnodesPerNode : Nat} : ¬ (new replicationFactor vnodesPerNode).Has nodeId := by
  rintro ⟨p, hp, -⟩
  exact List.not_mem_nil hp

theorem has_addNode {newId httpAddress : String} :
    (r.addNode newId httpAddress).Has nodeId ↔ r.Has nodeId ∨ newId = nodeId := by
  constructor
  · rintro ⟨p, hp, rfl⟩
    rcases Table.mem_upsert.1 hp with ⟨hp, -⟩ | ⟨q, hq, -, rfl⟩ | ⟨rfl, -⟩
    · exact .inl ⟨p, hp, rfl⟩
    · exact .inl ⟨q, hq, rfl⟩
    · exact .inr rfl
  · rintro (⟨p, hp, rfl⟩ | rfl)
    · by_cases hkey : p.nodeId = newId
      · exact ⟨_, Table.mem_upsert.2 (.inr (.inl ⟨p, hp, hkey, rfl⟩)), rfl⟩
      · exact ⟨p, Table.mem_upsert.2 (.inl ⟨hp, hkey⟩), rfl⟩
    · by_cases hold : ∃ p ∈ r.nodes, p.nodeId = newId
      · obtain ⟨p, hp, hkey⟩ := hold
        exact ⟨_, Table.mem_upsert.2 (.inr (.inl ⟨p, hp, hkey, rfl⟩)), hkey⟩
      · exact ⟨_, Table.mem_upsert.2 (.inr (.inr ⟨rfl, fun p hp hkey => hold ⟨p, hp, hkey⟩⟩)), rfl⟩

/-- Only nodes on the ring are collected. -/
theorem mem_collect {seen ids : List String} {result : List PeerNode} {p : PeerNode}
    (h : p ∈ r.collect seen result ids) : p ∈ result ∨ p ∈ r.nodes := by
  induction ids generalizing seen result with
  | nil => exact .inl h
  | cons id ids ih =>
    have hstep : ∀ q ∈ (if id ∈ seen then result else result ++ (r.nodes.find? id).toList),
        q ∈ result ∨ q ∈ r.nodes := by
      intro q hq
      split_ifs at hq
      · exact .inl hq
      · rcases List.mem_append.1 hq with hq | hq
        · exact .inl hq
        · exact .inr (Table.find?_eq_some.1 (Option.mem_toList.1 hq)).1
    unfold collect at h
    dsimp only at h
    by_cases henough : r.replicationFactor ≤
        (if id ∈ seen then result else result ++ (r.nodes.find? id).toList).length
    · rw [if_pos henough] at h
      exact hstep p h
    · rw [if_neg henough] at h
      rcases ih h with h | h
      · exact hstep p h
      · exact .inr h

/-- A responsible node is on the ring. -/
theorem mem_getResponsibleNodes {contentHash : String} {p : PeerNode} (h : p ∈ r.getResponsibleNodes contentHash) :
    p ∈ r.nodes := by
  unfold getResponsibleNodes at h
  split_ifs at h
  · exact absurd h List.not_mem_nil
  · exact (mem_collect h).resolve_left List.not_mem_nil

end ContentRing

/-! ## The service -/

/-- Result of a content routing decision. -/
inductive ContentDecision where
  | owned (replicas : List PeerNode)
  | notOwned (responsible : List PeerNode)
  deriving DecidableEq

structure ShardingService where
  ring : ContentRing
  ourNodeId : String

namespace ShardingService

def new (ourNodeId : String) (replicationFactor vnodesPerNode : Nat) : ShardingService :=
  ⟨.new replicationFactor vnodesPerNode, ourNodeId⟩

/-- Rebuild the hash ring from the current set of peers, from scratch. -/
def rebuildFromPeers (svc : ShardingService) (peers : List PeerNode) : ShardingService :=
  let fresh := ContentRing.new svc.ring.replicationFactor svc.ring.vnodesPerNode
  { svc with ring := peers.foldl (fun r p => r.addNode p.nodeId p.httpAddress) fresh }

/-- Get the routing decision for a content hash. -/
def getRoutingDecision (svc : ShardingService) (contentHash : String) : ContentDecision :=
  let responsible := svc.ring.getResponsibleNodes contentHash
  if responsible.any fun p => p.nodeId = svc.ourNodeId then
    .owned (responsible.filter fun p => p.nodeId ≠ svc.ourNodeId)
  else .notOwned responsible

/-- `ContentDecision::Owned`. -/
def Owns (svc : ShardingService) (contentHash : String) : Prop :=
  ∃ replicas, svc.getRoutingDecision contentHash = .owned replicas

variable {svc : ShardingService} {contentHash : String}

theorem owns_iff :
    svc.Owns contentHash ↔ ∃ p ∈ svc.ring.getResponsibleNodes contentHash, p.nodeId = svc.ourNodeId := by
  unfold Owns getRoutingDecision
  dsimp only
  split_ifs with h
  · exact iff_of_true ⟨_, rfl⟩ (by simpa using h)
  · refine iff_of_false (fun ⟨_, he⟩ => nomatch he) fun hmem => h ?_
    simpa using hmem

instance : Decidable (svc.Owns contentHash) := decidable_of_iff' _ owns_iff

/-- What a node owns it owns as a node of the ring. -/
theorem Owns.has (h : svc.Owns contentHash) : svc.ring.Has svc.ourNodeId := by
  obtain ⟨p, hp, hid⟩ := owns_iff.1 h
  exact ⟨p, ContentRing.mem_getResponsibleNodes hp, hid⟩

/-- **After a rebuild the ring has exactly the peers.** -/
theorem has_rebuildFromPeers {peers : List PeerNode} {nodeId : String} :
    (svc.rebuildFromPeers peers).ring.Has nodeId ↔ ∃ p ∈ peers, p.nodeId = nodeId := by
  have hfold : ∀ (ps : List PeerNode) (r : ContentRing),
      (ps.foldl (fun r p => r.addNode p.nodeId p.httpAddress) r).Has nodeId ↔
        r.Has nodeId ∨ ∃ p ∈ ps, p.nodeId = nodeId := by
    intro ps
    induction ps with
    | nil => simp
    | cons p ps ih =>
      intro r
      rw [List.foldl_cons, ih, ContentRing.has_addNode]
      simp only [List.exists_mem_cons_iff, or_assoc]
  exact (hfold peers _).trans (or_iff_right ContentRing.has_new)

end ShardingService

/-! ## The tier of a content -/

structure WarmEntry where
  hash : String
  content : ByteArray
  insertedAt : Nat

/-- What the tiers hold, and what is pinned. -/
structure Tiers where
  owned : List (String × ByteArray)
  warm : List WarmEntry
  pinned : List String

namespace TieredStorage

open ProgE Prog

/-- Drop entries until enough bytes are free. -/
def evict (target : Nat) : Nat → List WarmEntry → List WarmEntry
  | _, [] => []
  | freed, e :: rest => if target ≤ freed then e :: rest else evict target (freed + e.content.size) rest

/-- Ensure we have capacity for the bytes by evicting the oldest entries. -/
def ensureCapacity (maxBytes neededBytes : Nat) (warm : List WarmEntry) : List WarmEntry :=
  let currentSize := (warm.map fun e => e.content.size).sum
  if currentSize + neededBytes ≤ maxBytes then warm
  else evict (neededBytes - (maxBytes - currentSize)) 0 (warm.insertionSort fun a b => a.insertedAt ≤ b.insertedAt)

/-- `LocalStorage::put` in the directory of owned content. -/
def putOwned (hash : String) (content : ByteArray) : ProgE Tiers String String Unit :=
  execute fun t => { t with owned := (hash, content) :: t.owned.filter fun e => e.1 ≠ hash }

def pin (hash : String) : ProgE Tiers String String Unit :=
  ignore (execute fun t => { t with pinned := t.pinned ++ [hash] } : ProgE Tiers String String Unit)

/-- `WarmCache::put`. -/
def putWarm (maxBytes now : Nat) (hash : String) (content : ByteArray) : ProgE Tiers String String Unit := do
  execute fun t => { t with warm := ensureCapacity maxBytes content.size t.warm }
  execute fun t => { t with warm := ⟨hash, content, now⟩ :: t.warm.filter fun e => e.hash ≠ hash }

def storeOwned (hasIpfs : Bool) (hash : String) (content : ByteArray) : ProgE Tiers String String Unit := do
  putOwned hash content
  if 1024 * 1024 < content.size ∧ hasIpfs then pin hash else pure ()

/-- No sharding, or the service says so. -/
def IsOwned (sharding : Option ShardingService) (hash : String) : Prop := ∀ svc ∈ sharding, svc.Owns hash

instance (sharding : Option ShardingService) (hash : String) : Decidable (IsOwned sharding hash) := by
  unfold IsOwned
  cases sharding with
  | none => exact isTrue fun _ h => nomatch h
  | some svc => exact decidable_of_iff (svc.Owns hash) (by simp)

/-- Store content with sharding-aware placement. -/
def store (sharding : Option ShardingService) (hasIpfs : Bool) (maxBytes now : Nat) (hash : String)
    (content : ByteArray) : ProgE Tiers String String Unit :=
  if IsOwned sharding hash then storeOwned hasIpfs hash content else putWarm maxBytes now hash content

/-- The warm cache is as it was. -/
def SameWarm (t t' : Tiers) : Prop := t'.warm = t.warm

instance : IsPreorder Tiers SameWarm where
  refl _ := rfl
  trans _ _ _ h h' := h'.trans h

/-- Owned content does not go to the warm cache. -/
theorem moves_store {sharding : Option ShardingService} {hash : String} (h : IsOwned sharding hash) (hasIpfs : Bool)
    (maxBytes now : Nat) (content : ByteArray) :
    Moves SameWarm (store sharding hasIpfs maxBytes now hash content).run := by
  unfold store
  rw [if_pos h]
  refine moves_bind (moves_execute fun _ => rfl) fun _ => ?_
  split_ifs
  · exact moves_ignore (moves_execute fun _ => rfl)
  · exact moves_pure ()

end TieredStorage

end AlephCore
