import AlephCore.Db.Schema
import AlephCore.Lib.Faults
import AlephCore.Services.Sharding

/-!
# Peers — discovering the nodes of the ring

Mirrors the peer discovery of `services/peers.rs`: a cycle asks the discovery servers one after another for the
list of nodes, writes the usable ones to the table of peers, and rebuilds the ring from those it has written.  A
cycle without a list rebuilds it from nothing, and a node that cannot be written is left out.
-/

namespace AlephCore.Peers

open ProgE Prog

/-! ## Discovery -/

/-- A single CCN node entry from the aggregate. -/
structure CoreChannelNode where
  name : String
  multiaddress : String
  status : String

/-- The corechannel aggregate contains a list of nodes. -/
structure CoreChannelAggregate where
  nodes : List CoreChannelNode

/-- The data field contains keyed aggregates. -/
structure AggregateData where
  corechannel : Option CoreChannelAggregate

/-- Top-level aggregate API response. -/
structure AggregateResponse where
  data : Option AggregateData

/-- What asking a server comes to. -/
inductive Fetched where
  | unreachable (e : String)
  | status (code : Nat)
  | unparsable (e : String)
  | aggregate (response : AggregateResponse)

/-- A row of `peers`. -/
structure PeerDb where
  peerId : String
  peerType : String
  address : String
  source : String
  lastSeen : Timestamp

abbrev PeerTable := Table PeerDb fun p => (p.peerId, p.peerType)

/-- Programs that use the table of peers. -/
abbrev PeerIo (ε α : Type) := ProgE PeerTable DbError ε α

def corechannelOwner : String := "0xa1B3bb7d2332383D96b7796B908fB7f7F3c2Be10"

def discoveryApiServers : List String :=
  ["https://api2.aleph.im", "https://api1.aleph.im", "https://official.aleph.cloud"]

def defaultCcnHttpPort : Nat := 4024

/-- Insert a peer, or update when it was last seen. -/
def upsert (now : Timestamp) (peerId peerType address source : String) : PeerIo DbError Unit :=
  execute fun t => t.upsert ⟨peerId, peerType, address, source, now⟩ fun p =>
    { p with address, source, lastSeen := now }

/-- The parts of a multiaddress. -/
def parts (multiaddr : String) : List (List Char) := multiaddr.toList.splitOn '/'

/-- What follows `key` the first time it is `valid`. -/
def valueOf (key : List Char) (valid : List Char → Bool) : List (List Char) → Option (List Char)
  | part :: value :: rest =>
    if part = key ∧ valid value then some value else valueOf key valid (value :: rest)
  | _ => none

/-- Extract the IPv4 address from a multiaddress: dots and digits, at least one dot. -/
def extractIpFromMultiaddr (multiaddr : String) : Option String :=
  (valueOf "ip4".toList (fun ip => ip.contains '.' && ip.all fun c => c.isDigit || c = '.')
    (parts multiaddr)).map String.ofList

/-- Extract the p2p peer ID from a multiaddress. -/
def extractPeerIdFromMultiaddr (multiaddr : String) : Option String :=
  (valueOf "p2p".toList (fun peerId => !peerId.isEmpty) (parts multiaddr)).map String.ofList

/-- The peer of an active node with an IPv4 address. -/
def candidate (node : CoreChannelNode) : Option PeerNode :=
  if node.multiaddress = "" then none
  else if node.status ≠ "active" then none
  else (extractIpFromMultiaddr node.multiaddress).map fun ip =>
    let httpUrl := s!"http://{ip}:{defaultCcnHttpPort}"
    ⟨(extractPeerIdFromMultiaddr node.multiaddress).getD httpUrl, httpUrl⟩

/-- The list of a server that has answered with one. -/
def listOf : Fetched → Option (List CoreChannelNode)
  | .aggregate response =>
    ((response.data.bind AggregateData.corechannel).map CoreChannelAggregate.nodes).filter fun nodes => !nodes.isEmpty
  | _ => none

/-- Try each discovery server until one works. -/
def fetchNodes (fetch : String → Fetched) : Option (List CoreChannelNode) :=
  discoveryApiServers.findSome? fun server =>
    listOf (fetch s!"{server}/api/v0/aggregates/{corechannelOwner}.json?keys=corechannel")

/-- Write the usable nodes; one that cannot be written is logged and left out. -/
def seedNodes (now : Timestamp) : Nat × List PeerNode → List CoreChannelNode → PeerIo DbError (Nat × List PeerNode)
  | seeded, [] => pure seeded
  | (discovered, peerNodes), node :: nodes =>
    match candidate node with
    | none => seedNodes now (discovered, peerNodes) nodes
    | some peer => do
      let written ← attempt (upsert now peer.nodeId "HTTP" peer.httpAddress "CORECHANNEL")
      seedNodes now
        (if written.toOption.isSome then (discovered + 1, peerNodes ++ [peer]) else (discovered, peerNodes)) nodes

/-- Discover peers by fetching the corechannel aggregate from the Aleph network. -/
def discoverPeersFromAggregate (fetch : String → Fetched) (now : Timestamp) :
    PeerIo DbError (Nat × List PeerNode) :=
  match fetchNodes fetch with
  | none => pure (0, [])
  | some nodes => seedNodes now (0, []) nodes

/-! ## A cycle -/

/-- What the node meets in a cycle: the answers of the servers, the clock, and which statements are refused. -/
structure Cycle where
  fetch : String → Fetched
  now : Timestamp
  faults : List (Option DbError)

/-- The list that is returned, if any. -/
def Cycle.returned (c : Cycle) : Option (List CoreChannelNode) := fetchNodes c.fetch

structure Discovery where
  peers : PeerTable
  sharding : ShardingService

/-- One turn of `peer_discovery_job`: discover peers and rebuild the ring with them. -/
def Discovery.cycle (d : Discovery) (c : Cycle) : Discovery :=
  let (result, peers) := (discoverPeersFromAggregate c.fetch c.now).run.runWith c.faults d.peers
  ⟨peers, match result with
    | .ok (_, peerNodes) => d.sharding.rebuildFromPeers peerNodes
    | .error _ => d.sharding⟩

/-! ## What a cycle leaves -/

/-- The peers of a list. -/
def candidates (nodes : List CoreChannelNode) : List PeerNode := nodes.filterMap candidate

/-- Those that are written. -/
def written : List (Option DbError) → List PeerNode → List PeerNode
  | _, [] => []
  | faults, peer :: peers =>
    if Refused faults 0 then written faults.tail peers else peer :: written faults.tail peers

/-- A cycle without a list leaves the ring as it was; after one with a list every peer of it is on the ring. -/
structure KeepsRing (c : Cycle) (d : Discovery) : Prop where
  unreachable : c.returned = none → (d.cycle c).sharding.ring = d.sharding.ring
  listed : ∀ nodes, c.returned = some nodes →
    ∀ peer ∈ candidates nodes, (d.cycle c).sharding.ring.Has peer.nodeId

/-- What the node owned, and owns by the list if one is returned, it still owns, and stores as such. -/
def KeepsOwned (c : Cycle) (d : Discovery) : Prop :=
  ∀ hash, d.sharding.Owns hash →
    (∀ nodes, c.returned = some nodes → (d.sharding.rebuildFromPeers (candidates nodes)).Owns hash) →
    (d.cycle c).sharding.Owns hash ∧ ∀ hasIpfs maxBytes now content, Moves TieredStorage.SameWarm
      (TieredStorage.store (some (d.cycle c).sharding) hasIpfs maxBytes now hash content).run

/-- Without a list there is no node on the ring yet; with one, each of its peers is written, under its own entry or
under another with its id. -/
structure Served (c : Cycle) (d : Discovery) : Prop where
  unreachable : c.returned = none →
    d.sharding.ring = .new d.sharding.ring.replicationFactor d.sharding.ring.vnodesPerNode
  listed : ∀ nodes, c.returned = some nodes → ∀ peer ∈ candidates nodes,
    ∃ (i : Nat) (other : PeerNode), (candidates nodes)[i]? = some other ∧ other.nodeId = peer.nodeId ∧
      ¬ Refused c.faults i

/-- Without a list there is no node on the ring yet; with one, no statement about its peers is refused. -/
structure Undisturbed (c : Cycle) (d : Discovery) : Prop where
  unreachable : c.returned = none →
    d.sharding.ring = .new d.sharding.ring.replicationFactor d.sharding.ring.vnodesPerNode
  listed : ∀ nodes, c.returned = some nodes → ∀ i < (candidates nodes).length, ¬ Refused c.faults i

/-- Each cycle of the run, in the state it starts in. -/
def EachCycle (P : Cycle → Discovery → Prop) : List Cycle → Discovery → Prop
  | [], _ => True
  | c :: cycles, d => P c d ∧ EachCycle P cycles (d.cycle c)

theorem EachCycle.imp {P Q : Cycle → Discovery → Prop} (h : ∀ c d, P c d → Q c d) {cycles : List Cycle}
    {d : Discovery} (hall : EachCycle P cycles d) : EachCycle Q cycles d := by
  induction cycles generalizing d with
  | nil => trivial
  | cons c cycles ih => exact ⟨h c d hall.1, ih hall.2⟩

variable {faults : List (Option DbError)} {peers : List PeerNode} {nodes : List CoreChannelNode}
  {c : Cycle} {d : Discovery}

theorem mem_written {peer : PeerNode} :
    peer ∈ written faults peers ↔ ∃ i : Nat, peers[i]? = some peer ∧ ¬ Refused faults i := by
  induction peers generalizing faults with
  | nil => simp [written]
  | cons first peers ih =>
    have htail : peer ∈ written faults.tail peers ↔
        ∃ i : Nat, (first :: peers)[i + 1]? = some peer ∧ ¬ Refused faults (i + 1) := by
      rw [ih]
      refine exists_congr fun i => ?_
      rw [List.getElem?_cons_succ, refused_tail]
    have hsplit : (∃ i : Nat, (first :: peers)[i]? = some peer ∧ ¬ Refused faults i) ↔
        (first = peer ∧ ¬ Refused faults 0) ∨
          ∃ i : Nat, (first :: peers)[i + 1]? = some peer ∧ ¬ Refused faults (i + 1) := by
      constructor
      · rintro ⟨_ | i, hi, hgranted⟩
        · exact .inl ⟨Option.some.inj hi, hgranted⟩
        · exact .inr ⟨i, hi, hgranted⟩
      · rintro (⟨rfl, hgranted⟩ | ⟨i, hi, hgranted⟩)
        · exact ⟨0, rfl, hgranted⟩
        · exact ⟨i + 1, hi, hgranted⟩
    rw [hsplit, ← htail, written]
    split_ifs with hrefused
    · exact (or_iff_right fun h => h.2 hrefused).symm
    · rw [List.mem_cons, eq_comm, and_iff_left hrefused]

/-- Nothing is left out if nothing is refused. -/
theorem written_eq (h : ∀ i < peers.length, ¬ Refused faults i) : written faults peers = peers := by
  induction peers generalizing faults with
  | nil => rfl
  | cons peer peers ih =>
    have htail : ∀ i < peers.length, ¬ Refused faults.tail i := fun i hi => by
      rw [refused_tail]
      exact h (i + 1) (Nat.succ_lt_succ hi)
    rw [written, if_neg (h 0 (Nat.zero_lt_succ _)), ih htail]

/-- The loop returns the peers it has written. -/
theorem runWith_seedNodes (now : Timestamp) (discovered : Nat) (peerNodes : List PeerNode) (s : PeerTable) :
    ((seedNodes now (discovered, peerNodes) nodes).run.runWith faults s).1 =
      .ok (discovered + (written faults (candidates nodes)).length,
        peerNodes ++ written faults (candidates nodes)) := by
  induction nodes generalizing faults discovered peerNodes s with
  | nil => simp [seedNodes, candidates, written, Prog.runWith]
  | cons node nodes ih =>
    unfold seedNodes
    cases hcandidate : candidate node with
    | none => simpa only [candidates, List.filterMap_cons_none hcandidate] using ih discovered peerNodes s
    | some peer =>
      have hlist : candidates (node :: nodes) = peer :: candidates nodes := List.filterMap_cons_some hcandidate
      rw [hlist, written]
      by_cases hrefused : Refused faults 0
      · obtain ⟨e, he⟩ := runWith_attempt_refused hrefused
        rw [if_pos hrefused]
        exact (congrArg Prod.fst he).trans (ih discovered peerNodes s)
      · rw [if_neg hrefused]
        refine (congrArg Prod.fst (runWith_attempt_granted hrefused)).trans ?_
        refine (ih (discovered + 1) (peerNodes ++ [peer]) _).trans ?_
        rw [List.length_cons, List.append_assoc, List.singleton_append, Nat.add_right_comm, Nat.add_assoc]

/-- **The ring after a cycle**: nothing without a list, and with one what has been written of it. -/
theorem cycle_sharding :
    (d.cycle c).sharding =
      d.sharding.rebuildFromPeers (c.returned.elim [] fun nodes => written c.faults (candidates nodes)) := by
  unfold Discovery.cycle discoverPeersFromAggregate Cycle.returned
  cases fetchNodes c.fetch with
  | none => rfl
  | some nodes =>
    have hrun : ((seedNodes c.now (0, []) nodes).run.runWith c.faults d.peers).1 = _ :=
      runWith_seedNodes c.now 0 [] d.peers
    dsimp only
    rw [hrun]
    rfl

/-- A cycle keeps the ring exactly if it is served. -/
theorem keepsRing_iff_served : KeepsRing c d ↔ Served c d := by
  have hnone : c.returned = none → ((d.cycle c).sharding.ring = d.sharding.ring ↔
      d.sharding.ring = .new d.sharding.ring.replicationFactor d.sharding.ring.vnodesPerNode) := by
    intro h
    rw [cycle_sharding, h]
    exact eq_comm
  have hsome : ∀ nodes, c.returned = some nodes → ∀ peer : PeerNode,
      (d.cycle c).sharding.ring.Has peer.nodeId ↔
        ∃ (i : Nat) (other : PeerNode), (candidates nodes)[i]? = some other ∧ other.nodeId = peer.nodeId ∧
          ¬ Refused c.faults i := by
    intro nodes h peer
    rw [cycle_sharding, h, ShardingService.has_rebuildFromPeers]
    constructor
    · rintro ⟨other, hother, hid⟩
      obtain ⟨i, hi, hgranted⟩ := mem_written.1 hother
      exact ⟨i, other, hi, hid, hgranted⟩
    · rintro ⟨i, other, hi, hid, hgranted⟩
      exact ⟨other, mem_written.2 ⟨i, hi, hgranted⟩, hid⟩
  constructor
  · intro h
    refine ⟨fun hreturned => (hnone hreturned).1 (h.unreachable hreturned), fun nodes hreturned peer hpeer => ?_⟩
    exact (hsome nodes hreturned peer).1 (h.listed nodes hreturned peer hpeer)
  · intro h
    refine ⟨fun hreturned => (hnone hreturned).2 (h.unreachable hreturned), fun nodes hreturned peer hpeer => ?_⟩
    exact (hsome nodes hreturned peer).2 (h.listed nodes hreturned peer hpeer)

theorem Undisturbed.served (h : Undisturbed c d) : Served c d := by
  refine ⟨h.unreachable, fun nodes hreturned peer hpeer => ?_⟩
  obtain ⟨i, hi, hget⟩ := List.mem_iff_getElem.1 hpeer
  exact ⟨i, peer, List.getElem?_eq_some_iff.2 ⟨hi, hget⟩, rfl, h.listed nodes hreturned i hi⟩

/-- An undisturbed cycle takes the ring of the list. -/
theorem Undisturbed.keepsOwned (h : Undisturbed c d) : KeepsOwned c d := by
  intro hash howns hlisted
  have howned : (d.cycle c).sharding.Owns hash := by
    cases hreturned : c.returned with
    | none =>
      -- a node that owns something is on the ring
      obtain ⟨p, hp, hid⟩ := howns.has
      rw [h.unreachable hreturned] at hp
      exact absurd hp List.not_mem_nil
    | some nodes =>
      rw [cycle_sharding, hreturned, Option.elim_some, written_eq (h.listed nodes hreturned)]
      exact hlisted nodes hreturned
  refine ⟨howned, fun hasIpfs maxBytes now content => TieredStorage.moves_store ?_ hasIpfs maxBytes now content⟩
  rintro svc ⟨⟩
  exact howned

/-- **Discovery keeps the ring in every cycle of a run exactly if** each of them is served; and if none of them is
disturbed, no content is demoted because discovery or the database was out of reach. -/
theorem keepsRing_iff (cycles : List Cycle) (d : Discovery) :
    (EachCycle KeepsRing cycles d ↔ EachCycle Served cycles d) ∧
      (EachCycle Undisturbed cycles d →
        EachCycle (fun c d => KeepsRing c d ∧ KeepsOwned c d) cycles d) := by
  refine ⟨⟨EachCycle.imp fun _ _ => keepsRing_iff_served.1, EachCycle.imp fun _ _ => keepsRing_iff_served.2⟩, ?_⟩
  exact EachCycle.imp fun _ _ h => ⟨keepsRing_iff_served.2 h.served, h.keepsOwned⟩

/-! ### A node that is listed, and an outage -/

section Outage

def ourNode : CoreChannelNode := ⟨"ours", "/ip4/10.0.0.1/tcp/4025/p2p/QmOurNode", "active"⟩

example : candidate ourNode = some ⟨"QmOurNode", "http://10.0.0.1:4024"⟩ := by decide +kernel

/-- The first server returns the node. -/
def listing : Cycle := ⟨fun _ => .aggregate ⟨some ⟨some ⟨[ourNode]⟩⟩⟩, 1700000000, []⟩

/-- No server is reachable. -/
def outage : Cycle := ⟨fun _ => .unreachable "operation timed out", 1700000300, []⟩

/-- The first server returns the node, but the database is out of reach. -/
def refusal : Cycle := { listing with now := 1700000300, faults := [some "pool timed out"] }

/-- The node when it starts. -/
def started : Discovery := ⟨.empty, .new "QmOurNode" 3 64⟩

theorem listing_returned : listing.returned = some [ourNode] := rfl

theorem owns_listing : (started.cycle listing).sharding.Owns "file" := by decide +kernel

/-- Two cycles that return the node keep it on the ring. -/
theorem listing_keepsRing :
    EachCycle Undisturbed [listing, listing] started ∧
      EachCycle (fun c d => KeepsRing c d ∧ KeepsOwned c d) [listing, listing] started := by
  have hundisturbed : ∀ d, Undisturbed listing d := by
    intro d
    refine ⟨fun h => ?_, fun nodes _ i _ => ?_⟩
    · rw [listing_returned] at h
      cases h
    · show ¬ Refused [] i
      simp [Refused]
  have hall : EachCycle Undisturbed [listing, listing] started := ⟨hundisturbed _, hundisturbed _, trivial⟩
  exact ⟨hall, (keepsRing_iff [listing, listing] started).2 hall⟩

/-- When no server is reachable, or the row of the node cannot be written, the ring loses the node: what it owned
goes to the warm cache. -/
theorem outage_not_keepsRing :
    (started.cycle listing).sharding.Owns "file" ∧
      ¬ EachCycle KeepsRing [listing, outage] started ∧ ¬ EachCycle KeepsRing [listing, refusal] started ∧
      outage.returned = none ∧ ((started.cycle listing).cycle outage).sharding.ring = .new 3 64 ∧
      ∀ c ∈ [outage, refusal], ¬ ((started.cycle listing).cycle c).sharding.Owns "file" ∧
        ((TieredStorage.store (some ((started.cycle listing).cycle c).sharding) true 1000 0 "file" .empty).run.run
          ⟨[], [], []⟩).2.warm.map WarmEntry.hash = ["file"] := by
  have hring : ((started.cycle listing).cycle outage).sharding.ring = .new 3 64 := rfl
  have hdropped : ¬ ((started.cycle listing).cycle refusal).sharding.ring.Has "QmOurNode" := by
    rintro ⟨p, hp, -⟩
    have hnone : ((started.cycle listing).cycle refusal).sharding.ring.nodes.rows = [] := rfl
    rw [Table.mem_def, hnone] at hp
    exact absurd hp List.not_mem_nil
  have hhad : (started.cycle listing).sharding.ring.Has "QmOurNode" := owns_listing.has
  refine ⟨owns_listing, fun h => ?_, fun h => ?_, rfl, hring, ?_⟩
  · have hsame := h.2.1.unreachable rfl
    rw [hring] at hsame
    rw [← hsame] at hhad
    exact ContentRing.has_new hhad
  · exact hdropped (h.2.1.listed [ourNode] rfl ⟨"QmOurNode", "http://10.0.0.1:4024"⟩ (by decide +kernel))
  · intro c hc
    have hnowhere : ((started.cycle listing).cycle c).sharding.ring = .new 3 64 := by
      simp only [List.mem_cons, List.not_mem_nil, or_false] at hc
      rcases hc with rfl | rfl
      · rfl
      · rfl
    have hnot : ¬ ((started.cycle listing).cycle c).sharding.Owns "file" := by
      intro howns
      have hhas := howns.has
      rw [hnowhere] at hhas
      exact ContentRing.has_new hhas
    refine ⟨hnot, ?_⟩
    have hwarm : ¬ TieredStorage.IsOwned (some ((started.cycle listing).cycle c).sharding) "file" :=
      fun h => hnot (h _ rfl)
    rw [TieredStorage.store, if_neg hwarm]
    rfl

end Outage

end AlephCore.Peers
