import AlephCore.Services.ResponsibleSet

/-!
# RingChanges — what a change of the membership does to the placement

Two nodes agree on the placement of a content if their rings were built from the same peers, whatever came before:
the entries around the ring depend only on which keys are on it.  A node that joins puts its own entries between those
that are there, and one that leaves takes its own away, so the walks before and after differ in one owner.
-/

namespace AlephCore

namespace ContentRing

open RingWalk

variable {r r' : ContentRing} {vnodes : Nat} {known : String → Option String}

/-! ## The search, by what the ring holds -/

/-- Nothing is met on an empty ring. -/
theorem getResponsibleNodes_eq (contentHash : String) :
    r.getResponsibleNodes contentHash = r.collect [] [] ((r.around (sipHash64 contentHash)).map Prod.snd) := by
  unfold getResponsibleNodes
  split_ifs with hempty
  · rw [around, hempty, List.insertionSort_nil, List.filter_nil, List.filter_nil, List.append_nil, List.map_nil, collect]
  · rfl

/-- The search asks the ring for the addresses of nodes and for how many it should find. -/
theorem collect_congr (hnodes : ∀ id, r.nodes.find? id = r'.nodes.find? id)
    (hfactor : r.replicationFactor = r'.replicationFactor) (seen : List String) (result : List PeerNode)
    (ids : List String) : r.collect seen result ids = r'.collect seen result ids := by
  induction ids generalizing seen result with
  | nil => rw [collect, collect]
  | cons id ids ih =>
    unfold collect
    dsimp only
    rw [hnodes, hfactor, ih]

/-! ## Rings that agree -/

/-- The same position map, and the same responsible nodes for every content. -/
structure Agree (r r' : ContentRing) : Prop where
  positions : ∀ position, r.ring.find? position = r'.ring.find? position
  responsible : ∀ contentHash, r.getResponsibleNodes contentHash = r'.getResponsibleNodes contentHash

theorem agree_of_mem (hring : ∀ e, e ∈ r.ring ↔ e ∈ r'.ring) (hnodes : ∀ p, p ∈ r.nodes ↔ p ∈ r'.nodes)
    (hfactor : r.replicationFactor = r'.replicationFactor) : Agree r r' := by
  refine ⟨fun position => ?_, fun contentHash => ?_⟩
  · exact Table.find?_congr hring position
  · have haround : r.around (sipHash64 contentHash) = r'.around (sipHash64 contentHash) := by
      refine eq_of_mem_iff (pairwise_around _) (pairwise_around _) fun e => ?_
      rw [mem_around_ring, mem_around_ring, hring]
    rw [getResponsibleNodes_eq, getResponsibleNodes_eq, haround]
    exact collect_congr (Table.find?_congr hnodes) hfactor _ _ _

/-- **Rings of one registry agree.** -/
theorem Reflects.agree (h : Reflects r vnodes known) (h' : Reflects r' vnodes known)
    (hfactor : r.replicationFactor = r'.replicationFactor) : Agree r r' := by
  refine agree_of_mem (fun e => ?_) (fun p => ?_) hfactor
  · rw [h.ring, h'.ring]
  · rw [h.nodes, h'.nodes]

/-! ## Histories that end with the same nodes -/

theorem vnodeKey_injective {id id' : String} {i j : Nat} (h : vnodeKey id i = vnodeKey id' j) : id = id' ∧ i = j := by
  obtain rfl := nodeId_of_vnodeKey h
  have hkey : ∀ n : Nat, (vnodeKey id n).toList = (id ++ ":").toList ++ Nat.toDigits 10 n := by
    intro n
    have hs : vnodeKey id n = id ++ ":" ++ Nat.repr n := rfl
    rw [hs, String.toList_append, Nat.toList_repr]
  have hdigits : Nat.toDigits 10 i = Nat.toDigits 10 j := by
    have hprefix : (id ++ ":").toList ++ Nat.toDigits 10 i = (id ++ ":").toList ++ Nat.toDigits 10 j := by
      rw [← hkey, ← hkey, h]
    exact List.append_cancel_left hprefix
  refine ⟨rfl, ?_⟩
  rw [← Nat.ofDigitChars_ten_toDigits (n := i), hdigits, Nat.ofDigitChars_ten_toDigits]

/-- The calls a rebuild makes. -/
def additions (peers : List PeerNode) : List RingOp := peers.map fun p => .addNode p.nodeId p.httpAddress

theorem rebuildFromPeers_eq_after {svc : ShardingService} {peers : List PeerNode} :
    (svc.rebuildFromPeers peers).ring =
      after svc.ring.replicationFactor svc.ring.vnodesPerNode (additions peers) := by
  rw [additions, after, List.foldl_map]
  rfl

theorem nodeId_additions {peers : List PeerNode} :
    (additions peers).map RingOp.nodeId = peers.map PeerNode.nodeId := by
  rw [additions, List.map_map]
  rfl

/-- The last peer of a name is the one on record. -/
theorem registry_additions {peers : List PeerNode} {id address : String}
    (h : registry (additions peers) id = some address) : ⟨id, address⟩ ∈ peers := by
  induction peers using List.reverseRecOn with
  | nil => cases h
  | append_singleton peers p ih =>
    have hsnoc : additions (peers ++ [p]) = additions peers ++ [.addNode p.nodeId p.httpAddress] := by
      rw [additions, List.map_append]
      rfl
    rw [hsnoc, registry_snoc] at h
    by_cases hid : id = p.nodeId
    · subst hid
      rw [RingOp.record, Function.update_self] at h
      obtain rfl := Option.some.inj h
      exact List.mem_append_right _ (List.mem_singleton_self p)
    · rw [record_of_ne hid] at h
      exact List.mem_append_left _ (ih h)

theorem isSome_registry_additions {peers : List PeerNode} {p : PeerNode} (hp : p ∈ peers) :
    (registry (additions peers) p.nodeId).isSome := by
  induction peers using List.reverseRecOn with
  | nil => exact absurd hp List.not_mem_nil
  | append_singleton peers q ih =>
    have hsnoc : additions (peers ++ [q]) = additions peers ++ [.addNode q.nodeId q.httpAddress] := by
      rw [additions, List.map_append]
      rfl
    rw [hsnoc, registry_snoc]
    by_cases hid : p.nodeId = q.nodeId
    · rw [hid, RingOp.record, Function.update_self]
      rfl
    · rw [record_of_ne hid]
      rcases List.mem_append.1 hp with hp | hp
      · exact ih hp
      · exact absurd (List.mem_singleton.1 hp ▸ rfl) hid

/-- Peers that are the nodes of a registry, in any order and with repetitions, lead to that registry. -/
theorem registry_additions_eq {peers : List PeerNode} {known : String → Option String}
    (hpeers : ∀ p, p ∈ peers ↔ known p.nodeId = some p.httpAddress) : registry (additions peers) = known := by
  funext id
  cases hrec : registry (additions peers) id with
  | some address => exact ((hpeers _).1 (registry_additions hrec)).symm
  | none =>
    cases hknown : known id with
    | none => rfl
    | some address =>
      have hp : (⟨id, address⟩ : PeerNode) ∈ peers := (hpeers _).2 hknown
      have hsome := isSome_registry_additions hp
      rw [hrec] at hsome
      cases hsome

/-- **The history of a ring does not matter.**  Calls that end with the same nodes and addresses lead to rings that
agree, and so does a rebuild from these nodes; keys of different nodes or with different indices are different. -/
theorem history_independent (replicationFactor vnodes : Nat) (ops ops' : List RingOp)
    (hsame : registry ops = registry ops') (hapart : KeysApart vnodes ((ops ++ ops').map RingOp.nodeId)) :
    Agree (after replicationFactor vnodes ops) (after replicationFactor vnodes ops') ∧
      (∀ (svc : ShardingService) (peers : List PeerNode), svc.ring.replicationFactor = replicationFactor →
        svc.ring.vnodesPerNode = vnodes → (∀ p, p ∈ peers ↔ registry ops p.nodeId = some p.httpAddress) →
        Agree (after replicationFactor vnodes ops) (svc.rebuildFromPeers peers).ring) ∧
      ∀ (id id' : String) (i j : Nat), vnodeKey id i = vnodeKey id' j → id = id' ∧ i = j := by
  have hsub : ∀ ids : List String, ids ⊆ (ops ++ ops').map RingOp.nodeId → KeysApart vnodes ids :=
    fun ids hids id hid id' hid' => hapart id (hids hid) id' (hids hid')
  have hops := hsub (ops.map RingOp.nodeId) (by rw [List.map_append]; exact List.subset_append_left _ _)
  have hops' := hsub (ops'.map RingOp.nodeId) (by rw [List.map_append]; exact List.subset_append_right _ _)
  have hreflects : Reflects (after replicationFactor vnodes ops) vnodes (registry ops) := reflects_after hops
  refine ⟨?_, ?_, fun id id' i j => vnodeKey_injective⟩
  · have hreflects' : Reflects (after replicationFactor vnodes ops') vnodes (registry ops) := by
      rw [hsame]
      exact reflects_after hops'
    exact hreflects.agree hreflects' (by rw [replicationFactor_after, replicationFactor_after])
  · intro svc peers hfactor hvnodes hpeers
    have hnames : (additions peers).map RingOp.nodeId ⊆ (ops ++ ops').map RingOp.nodeId := by
      intro id hid
      rw [nodeId_additions] at hid
      obtain ⟨p, hp, rfl⟩ := List.mem_map.1 hid
      have hknown := (hpeers p).1 hp
      have hmem : p.nodeId ∈ ops.map RingOp.nodeId := mem_of_registry (by rw [hknown]; rfl)
      rw [List.map_append]
      exact List.mem_append_left _ hmem
    have hrebuilt : Reflects (after replicationFactor vnodes (additions peers)) vnodes (registry ops) := by
      rw [← registry_additions_eq hpeers]
      exact reflects_after (hsub _ hnames)
    rw [rebuildFromPeers_eq_after, hfactor, hvnodes]
    exact hreflects.agree hrebuilt (by rw [replicationFactor_after, replicationFactor_after])

/-- A node that came and went leaves no trace, whether or not the ring is built afresh. -/
theorem departed_forgotten :
    Agree (after 2 2 [.addNode "alpha" "http://10.0.0.1", .addNode "beta" "http://10.0.0.2", .removeNode "beta"])
        (after 2 2 [.addNode "alpha" "http://10.0.0.1"]) ∧
      Agree (after 2 2 [.addNode "alpha" "http://10.0.0.1", .addNode "beta" "http://10.0.0.2", .removeNode "beta"])
        ((ShardingService.new "alpha" 2 2).rebuildFromPeers
          [⟨"alpha", "http://10.0.0.1"⟩, ⟨"alpha", "http://10.0.0.1"⟩]).ring := by
  let ops : List RingOp :=
    [.addNode "alpha" "http://10.0.0.1", .addNode "beta" "http://10.0.0.2", .removeNode "beta"]
  have hknown : ∀ id, registry ops id = if id = "alpha" then some "http://10.0.0.1" else none := by
    intro id
    simp only [ops, registry, List.foldl_cons, List.foldl_nil, RingOp.record, Function.update_apply]
    split_ifs with hbeta halpha
    · rw [hbeta] at halpha
      exact absurd halpha (by decide)
    · rfl
    · rfl
    · rfl
  have hsame : registry ops = registry [.addNode "alpha" "http://10.0.0.1"] := by
    funext id
    rw [hknown]
    simp only [registry, List.foldl_cons, List.foldl_nil, RingOp.record, Function.update_apply]
  obtain ⟨hagree, hrebuild, -⟩ :=
    history_independent 2 2 ops [.addNode "alpha" "http://10.0.0.1"] hsame (by decide +kernel)
  refine ⟨hagree, hrebuild _ _ rfl rfl fun p => ?_⟩
  obtain ⟨id, address⟩ := p
  rw [hknown]
  by_cases hid : id = "alpha" <;> simp [hid, eq_comm]

/-! ## A node joins -/

/-- Every position belongs to the node whose key has it, and every node has the positions of its keys. -/
def CollisionFree (r : ContentRing) : Prop :=
  ∀ e, e ∈ r.ring ↔ ∃ id, r.Has id ∧ ∃ i < r.vnodesPerNode, e = vnode id i

theorem Reflects.collisionFree (h : Reflects r vnodes known) : CollisionFree r := by
  intro e
  rw [h.ring, h.vnodesPerNode]
  simp only [h.has]

/-- **The rings that calls lead to are collision-free.** -/
theorem collisionFree_after {replicationFactor : Nat} {ops : List RingOp}
    (hapart : KeysApart vnodes (ops.map RingOp.nodeId)) : CollisionFree (after replicationFactor vnodes ops) :=
  (reflects_after hapart).collisionFree

theorem collisionFree_addNode_after {replicationFactor : Nat} {ops : List RingOp} {id address : String}
    (hapart : KeysApart vnodes ((ops ++ [RingOp.addNode id address]).map RingOp.nodeId)) :
    CollisionFree ((after replicationFactor vnodes ops).addNode id address) := by
  have hafter : after replicationFactor vnodes (ops ++ [RingOp.addNode id address]) =
      (after replicationFactor vnodes ops).addNode id address := by
    rw [after, List.foldl_append]
    rfl
  rw [← hafter]
  exact collisionFree_after hapart

/-- The owners met from a content on, each at its nearest position. -/
def owners (r : ContentRing) (contentHash : String) : List String :=
  ((r.around (sipHash64 contentHash)).map Prod.snd).eraseDups

/-- The node of an identifier on the ring. -/
def peerOf (r : ContentRing) (id : String) : PeerNode := (r.nodes.find? id).getD ⟨id, ""⟩

variable {newNode : PeerNode} {nodeId contentHash : String}

theorem peerOf_of_mem {p : PeerNode} (hp : p ∈ r.nodes) : r.peerOf p.nodeId = p := by
  have hfind : r.nodes.find? p.nodeId = some p := Table.find?_eq_some.2 ⟨hp, rfl⟩
  rw [peerOf, hfind, Option.getD_some]

theorem nodeId_peerOf {id : String} : (r.peerOf id).nodeId = id := by
  unfold peerOf
  cases hfind : r.nodes.find? id with
  | none => rfl
  | some p => exact (Table.find?_eq_some.1 hfind).2

theorem CollisionFree.has_of_mem (hfree : CollisionFree r) {e : UInt64 × String} (he : e ∈ r.ring) : r.Has e.2 := by
  obtain ⟨id, hid, -, -, rfl⟩ := (hfree e).1 he
  exact hid

theorem mem_owners {id : String} : id ∈ r.owners contentHash ↔ ∃ e ∈ r.ring, e.2 = id := by
  rw [owners, List.mem_eraseDups, List.mem_map]
  simp only [mem_around_ring]

theorem nodup_owners : (r.owners contentHash).Nodup := nodup_eraseDups _

theorem nodeId_mem_owners (hfree : CollisionFree r) {id : String} (hid : id ∈ r.owners contentHash) : r.Has id := by
  obtain ⟨e, he, rfl⟩ := mem_owners.1 hid
  exact hfree.has_of_mem he

/-- **The responsible nodes are the first owners.** -/
theorem CollisionFree.getResponsibleNodes_eq_take (hfree : CollisionFree r)
    (hstops : 0 < r.replicationFactor ∨ r.vnodesPerNode = 0) (contentHash : String) :
    r.getResponsibleNodes contentHash = ((r.owners contentHash).map r.peerOf).take r.replicationFactor := by
  rcases hstops with hfactor | hvnodes
  · have hids := map_getResponsibleNodes_of_has (fun e he => hfree.has_of_mem he) hfactor contentHash
    have hpeers : ((r.getResponsibleNodes contentHash).map PeerNode.nodeId).map r.peerOf =
        r.getResponsibleNodes contentHash := by
      rw [List.map_map]
      refine (List.map_congr_left fun p hp => ?_).trans (List.map_id _)
      exact peerOf_of_mem (mem_getResponsibleNodes hp)
    rw [← hpeers, hids, List.map_take]
    rfl
  · have hnone : r.around (sipHash64 contentHash) = [] := by
      refine List.eq_nil_iff_forall_not_mem.2 fun e he => ?_
      obtain ⟨-, -, i, hi, -⟩ := (hfree e).1 (mem_around_ring.1 he)
      omega
    rw [getResponsibleNodes_eq, owners, hnone, List.map_nil, collect, List.eraseDups_nil, List.map_nil, List.take_nil]

theorem CollisionFree.getResponsibleNodes_ne_nil (hfree : CollisionFree r) (hfactor : r.replicationFactor = 0)
    {e : UInt64 × String} (he : e ∈ r.ring) : r.getResponsibleNodes contentHash ≠ [] := by
  rw [getResponsibleNodes_eq]
  cases hwalk : r.around (sipHash64 contentHash) with
  | nil =>
    have hmem : e ∈ r.around (sipHash64 contentHash) := mem_around_ring.2 he
    rw [hwalk] at hmem
    exact absurd hmem List.not_mem_nil
  | cons first rest =>
    have hfirst : first ∈ r.around (sipHash64 contentHash) := by
      rw [hwalk]
      exact List.mem_cons_self
    obtain ⟨p, hp, hid⟩ := hfree.has_of_mem (mem_around_ring.1 hfirst)
    have hfind : r.nodes.find? first.2 = some p := Table.find?_eq_some.2 ⟨hp, hid⟩
    rw [List.map_cons, collect, hfactor, if_neg List.not_mem_nil, if_pos (Nat.zero_le _), hfind]
    exact List.cons_ne_nil _ _

/-- The walk of one ring is that of another without the entries of a node. -/
theorem filter_owners (hring : ∀ e, e ∈ r.ring ↔ e ∈ r'.ring ∧ e.2 ≠ nodeId) :
    r.owners contentHash = (r'.owners contentHash).filter fun id => id ≠ nodeId := by
  have haround : r.around (sipHash64 contentHash) =
      (r'.around (sipHash64 contentHash)).filter fun e => e.2 ≠ nodeId := by
    refine eq_of_mem_iff (pairwise_around _) ((pairwise_around _).filter _) fun e => ?_
    rw [mem_around_ring, hring, List.mem_filter, mem_around_ring, decide_eq_true_eq]
  rw [owners, haround, owners, ← eraseDups_filter_ne, List.filter_map]
  rfl

/-- So the owners of the one ring are those of the other, and the node at most once. -/
theorem inserted_owners (hring : ∀ e, e ∈ r.ring ↔ e ∈ r'.ring ∧ e.2 ≠ nodeId)
    (hpeers : ∀ id ∈ r.owners contentHash, r'.peerOf id = r.peerOf id) :
    Inserted (r'.peerOf nodeId) ((r.owners contentHash).map r.peerOf) ((r'.owners contentHash).map r'.peerOf) := by
  have hids : Inserted nodeId (r.owners contentHash) (r'.owners contentHash) := by
    rw [filter_owners hring]
    exact inserted_of_nodup nodup_owners
  rw [← List.map_congr_left hpeers]
  exact hids.map

theorem nodup_map_peerOf : ((r.owners contentHash).map r.peerOf).Nodup :=
  nodup_owners.map (Function.LeftInverse.injective (g := PeerNode.nodeId) fun _ => nodeId_peerOf)

/-! ## Before and after -/

theorem CollisionFree.mem_ring_of_addNode (hfree : CollisionFree r) (hnew : ¬ r.Has newNode.nodeId)
    (hfree' : CollisionFree (r.addNode newNode.nodeId newNode.httpAddress)) (e : UInt64 × String) :
    e ∈ r.ring ↔ e ∈ (r.addNode newNode.nodeId newNode.httpAddress).ring ∧ e.2 ≠ newNode.nodeId := by
  rw [hfree, hfree']
  constructor
  · rintro ⟨id, hid, i, hi, rfl⟩
    refine ⟨⟨id, has_addNode.2 (.inl hid), i, hi, rfl⟩, ?_⟩
    rintro rfl
    exact hnew hid
  · rintro ⟨⟨id, hid, i, hi, rfl⟩, hne⟩
    exact ⟨id, (has_addNode.1 hid).resolve_right fun h => hne h.symm, i, hi, rfl⟩

theorem CollisionFree.mem_ring_removeNode (hfree : CollisionFree r) (hold : r.Has nodeId) (e : UInt64 × String) :
    e ∈ (r.removeNode nodeId).ring ↔ e ∈ r.ring ∧ e.2 ≠ nodeId := by
  rw [ContentRing.mem_ring_removeNode]
  refine and_congr_right fun he => ⟨fun hother => ?_, fun hne i hi hposition => ?_⟩
  · obtain ⟨id, -, i, hi, rfl⟩ := (hfree e).1 he
    rintro rfl
    exact hother i hi rfl
  · have hvnode : vnode nodeId i ∈ r.ring := (hfree _).2 ⟨nodeId, hold, i, hi, rfl⟩
    exact hne (congrArg Prod.snd (Table.eq_of_key he hvnode hposition))

theorem has_removeNode {id : String} : (r.removeNode nodeId).Has id ↔ r.Has id ∧ id ≠ nodeId := by
  constructor
  · rintro ⟨p, hp, rfl⟩
    obtain ⟨hp, hne⟩ := Table.mem_delete.1 hp
    exact ⟨⟨p, hp, rfl⟩, hne⟩
  · rintro ⟨⟨p, hp, rfl⟩, hne⟩
    exact ⟨p, Table.mem_delete.2 ⟨hp, hne⟩, rfl⟩

theorem CollisionFree.removeNode (hfree : CollisionFree r) (hold : r.Has nodeId) :
    CollisionFree (r.removeNode nodeId) := by
  intro e
  rw [hfree.mem_ring_removeNode hold, hfree]
  constructor
  · rintro ⟨⟨id, hid, i, hi, rfl⟩, hne⟩
    exact ⟨id, has_removeNode.2 ⟨hid, hne⟩, i, hi, rfl⟩
  · rintro ⟨id, hid, i, hi, rfl⟩
    exact ⟨⟨id, (has_removeNode.1 hid).1, i, hi, rfl⟩, (has_removeNode.1 hid).2⟩

/-- The content is no longer the one node's and has become the other's. -/
def Moved (r r' : ContentRing) (contentHash : String) (a b : PeerNode) : Prop :=
  (a ∈ r.getResponsibleNodes contentHash ∧ a ∉ r'.getResponsibleNodes contentHash) ∧
    b ∉ r.getResponsibleNodes contentHash ∧ b ∈ r'.getResponsibleNodes contentHash

/-- Content does not move between two nodes that are there before and after. -/
def NoneMoved (r r' : ContentRing) (contentHash : String) : Prop :=
  ∀ a b : PeerNode, r.Has a.nodeId → r'.Has a.nodeId → r.Has b.nodeId → r'.Has b.nodeId → ¬ Moved r r' contentHash a b

/-- What consistent hashing promises of one content when a node joins, and when any of the others leaves. -/
structure MinimalDisruption (r : ContentRing) (newNode : PeerNode) (contentHash : String) : Prop where
  /-- The new node is put in at one position or not at all, and the list is cut. -/
  added : ∃ more, Inserted newNode (r.getResponsibleNodes contentHash) more ∧
    (r.addNode newNode.nodeId newNode.httpAddress).getResponsibleNodes contentHash = more.take r.replicationFactor
  /-- The leaving node is deleted, and at most one other follows. -/
  removed : ∀ nodeId, r.Has nodeId → ∃ extra : List PeerNode, extra.length ≤ 1 ∧
    (∀ p ∈ extra, p.nodeId ≠ nodeId ∧ p ∉ r.getResponsibleNodes contentHash) ∧
    (r.removeNode nodeId).getResponsibleNodes contentHash =
      ((r.getResponsibleNodes contentHash).filter fun p => p.nodeId ≠ nodeId) ++ extra
  unmoved_add : NoneMoved r (r.addNode newNode.nodeId newNode.httpAddress) contentHash
  unmoved_remove : ∀ nodeId, r.Has nodeId → NoneMoved r (r.removeNode nodeId) contentHash

section Joined

variable (hfree : CollisionFree r) (hnew : ¬ r.Has newNode.nodeId)
  (hfree' : CollisionFree (r.addNode newNode.nodeId newNode.httpAddress))

include hfree hnew hfree'

theorem inserted_addNode (hstops : 0 < r.replicationFactor ∨ r.vnodesPerNode = 0) (contentHash : String) :
    ∃ more, Inserted newNode (r.getResponsibleNodes contentHash) more ∧
      (r.addNode newNode.nodeId newNode.httpAddress).getResponsibleNodes contentHash =
        more.take r.replicationFactor := by
  have hnewNode : newNode ∈ (r.addNode newNode.nodeId newNode.httpAddress).nodes := mem_nodes_addNode.2 (.inl rfl)
  have hold : ∀ id ∈ r.owners contentHash,
      (r.addNode newNode.nodeId newNode.httpAddress).peerOf id = r.peerOf id := by
    intro id hid
    obtain ⟨p, hp, rfl⟩ := nodeId_mem_owners hfree hid
    have hne : p.nodeId ≠ newNode.nodeId := fun h => hnew ⟨p, hp, h⟩
    rw [peerOf_of_mem hp, peerOf_of_mem (mem_nodes_addNode.2 (.inr ⟨hp, hne⟩))]
  have hinserted := inserted_owners (hfree.mem_ring_of_addNode hnew hfree') hold
  rw [peerOf_of_mem hnewNode] at hinserted
  rw [hfree.getResponsibleNodes_eq_take hstops, hfree'.getResponsibleNodes_eq_take hstops]
  exact hinserted.take r.replicationFactor

theorem noneMoved_addNode (hstops : 0 < r.replicationFactor ∨ r.vnodesPerNode = 0) (contentHash : String) :
    NoneMoved r (r.addNode newNode.nodeId newNode.httpAddress) contentHash := by
  rintro a b - - hb - ⟨-, hbefore, hafter⟩
  obtain ⟨more, hinserted, htake⟩ := inserted_addNode hfree hnew hfree' hstops contentHash
  rw [htake] at hafter
  have hmore := List.take_subset _ _ hafter
  rcases hinserted with rfl | ⟨left, right, hsplit, rfl⟩
  · exact hbefore hmore
  · rw [hsplit] at hbefore
    rcases List.mem_append.1 hmore with hleft | hright
    · exact hbefore (List.mem_append_left _ hleft)
    · rcases List.mem_cons.1 hright with rfl | hright
      · exact hnew hb
      · exact hbefore (List.mem_append_right _ hright)

end Joined

/-- With nothing to find, the search still takes the first node it meets. -/
theorem CollisionFree.not_inserted_addNode {httpAddress : String} (hfree : CollisionFree (r.addNode nodeId httpAddress))
    (hfactor : r.replicationFactor = 0) (hvnodes : 0 < r.vnodesPerNode) (more : List PeerNode) :
    (r.addNode nodeId httpAddress).getResponsibleNodes contentHash ≠ more.take r.replicationFactor := by
  rw [hfactor, List.take_zero]
  exact hfree.getResponsibleNodes_ne_nil hfactor
    ((hfree _).2 ⟨nodeId, has_addNode.2 (.inr rfl), 0, hvnodes, rfl⟩)

theorem CollisionFree.appended_removeNode (hfree : CollisionFree r)
    (hstops : 0 < r.replicationFactor ∨ r.vnodesPerNode = 0) (hold : r.Has nodeId) (contentHash : String) :
    ∃ extra : List PeerNode, extra.length ≤ 1 ∧
      (∀ p ∈ extra, p.nodeId ≠ nodeId ∧ p ∉ r.getResponsibleNodes contentHash) ∧
      (r.removeNode nodeId).getResponsibleNodes contentHash =
        ((r.getResponsibleNodes contentHash).filter fun p => p.nodeId ≠ nodeId) ++ extra := by
  have hfree' := hfree.removeNode hold
  have hkept : ∀ id ∈ (r.removeNode nodeId).owners contentHash, r.peerOf id = (r.removeNode nodeId).peerOf id := by
    intro id hid
    obtain ⟨p, hp, rfl⟩ := nodeId_mem_owners hfree' hid
    rw [peerOf_of_mem hp, peerOf_of_mem (Table.mem_delete.1 hp).1]
  have hothers : ∀ p ∈ ((r.removeNode nodeId).owners contentHash).map (r.removeNode nodeId).peerOf,
      p.nodeId ≠ nodeId := by
    intro p hp
    obtain ⟨id, hid, rfl⟩ := List.mem_map.1 hp
    rw [nodeId_peerOf]
    exact (has_removeNode.1 (nodeId_mem_owners hfree' hid)).2
  have hgone : decide ((r.peerOf nodeId).nodeId ≠ nodeId) = false := by
    rw [nodeId_peerOf]
    exact decide_eq_false fun h => h rfl
  have hinserted := inserted_owners (hfree.mem_ring_removeNode hold) hkept
  obtain ⟨extra, hlength, hextra, htake⟩ := hinserted.take_of_filter hgone (fun p hp => decide_eq_true (hothers p hp))
    nodup_map_peerOf r.replicationFactor
  rw [hfree.getResponsibleNodes_eq_take hstops, hfree'.getResponsibleNodes_eq_take hstops]
  exact ⟨extra, hlength, fun p hp => ⟨hothers p (hextra p hp).1, (hextra p hp).2⟩, htake⟩

theorem CollisionFree.noneMoved_removeNode (hfree : CollisionFree r)
    (hstops : 0 < r.replicationFactor ∨ r.vnodesPerNode = 0) (hold : r.Has nodeId) (contentHash : String) :
    NoneMoved r (r.removeNode nodeId) contentHash := by
  rintro a b - ha - - ⟨⟨hbefore, hafter⟩, -⟩
  obtain ⟨extra, -, -, heq⟩ := hfree.appended_removeNode hstops hold contentHash
  rw [heq] at hafter
  exact hafter (List.mem_append_left _ (List.mem_filter.2 ⟨hbefore, decide_eq_true (has_removeNode.1 ha).2⟩))

/-- **A change of one node disturbs the placement by that node only**, unless the ring looks for no nodes at all and
has some. -/
theorem minimalDisruption_iff (hfree : CollisionFree r) (hnew : ¬ r.Has newNode.nodeId)
    (hfree' : CollisionFree (r.addNode newNode.nodeId newNode.httpAddress)) (contentHash : String) :
    MinimalDisruption r newNode contentHash ↔ 0 < r.replicationFactor ∨ r.vnodesPerNode = 0 := by
  constructor
  · intro h
    obtain ⟨more, -, htake⟩ := h.added
    by_contra hstops
    exact hfree'.not_inserted_addNode (by omega) (by omega) more htake
  · intro hstops
    exact ⟨inserted_addNode hfree hnew hfree' hstops contentHash,
      fun nodeId hold => hfree.appended_removeNode hstops hold contentHash, noneMoved_addNode hfree hnew hfree' hstops contentHash,
      fun nodeId hold => hfree.noneMoved_removeNode hstops hold contentHash⟩

/-- Where two copies are kept, a second node becomes the second copy. -/
theorem minimalDisruption_second : MinimalDisruption (after 2 2 [.addNode "alpha" "http://10.0.0.1"])
    ⟨"beta", "http://10.0.0.2"⟩ "file" := by
  have hapart : KeysApart 2 ["alpha"] := by decide +kernel
  have hapart' : KeysApart 2 ["alpha", "beta"] := by decide +kernel
  have hreflects : Reflects (after 2 2 [.addNode "alpha" "http://10.0.0.1"]) 2
      (registry [.addNode "alpha" "http://10.0.0.1"]) := reflects_after hapart
  have hnew : ¬ (after 2 2 [.addNode "alpha" "http://10.0.0.1"]).Has "beta" := by
    intro h
    have hknown := mem_of_registry (hreflects.has.1 h)
    rw [List.map_singleton, List.mem_singleton] at hknown
    exact absurd hknown (by decide)
  refine (minimalDisruption_iff (collisionFree_after hapart) hnew (collisionFree_addNode_after hapart') "file").2 (.inl ?_)
  rw [replicationFactor_after]
  exact Nat.two_pos

/-- Where no copies are kept, a node that joins becomes responsible all the same. -/
theorem disrupted_unreplicated :
    CollisionFree (after 0 1 []) ∧ ¬ (after 0 1 []).Has "alpha" ∧
      CollisionFree ((after 0 1 []).addNode "alpha" "http://10.0.0.1") ∧
      ¬ MinimalDisruption (after 0 1 []) ⟨"alpha", "http://10.0.0.1"⟩ "file" := by
  have hnone : KeysApart 1 [] := by decide
  have halpha : KeysApart 1 ["alpha"] := by decide +kernel
  have hfree : CollisionFree (after 0 1 []) := collisionFree_after hnone
  have hfree' : CollisionFree ((after 0 1 []).addNode "alpha" "http://10.0.0.1") := collisionFree_addNode_after halpha
  refine ⟨hfree, has_new, hfree', fun h => ?_⟩
  obtain ⟨more, -, htake⟩ := h.added
  exact hfree'.not_inserted_addNode rfl Nat.one_pos more htake

end ContentRing

end AlephCore
