import AlephCore.Lib.RingWalk
import AlephCore.Services.Sharding
import Mathlib.Data.Finset.Filter

/-!
# ResponsibleSet — which nodes a content hash belongs to

A ring that has come about by additions and removals has, for each registered node, exactly the positions of that
node's keys, as long as no two of the keys share a position.  The search from a hash then meets the nodes in the
order of their clockwise distance, and its early exit and its set of nodes already seen pick the first distinct ones.
-/

namespace AlephCore

namespace ContentRing

open RingWalk

/-! ## Histories of a ring -/

/-- A call that changes the ring. -/
inductive RingOp where
  | addNode (nodeId httpAddress : String)
  | removeNode (nodeId : String)

namespace RingOp

def nodeId : RingOp → String
  | addNode nodeId _ => nodeId
  | removeNode nodeId => nodeId

def apply (r : ContentRing) : RingOp → ContentRing
  | addNode nodeId httpAddress => r.addNode nodeId httpAddress
  | removeNode nodeId => r.removeNode nodeId

/-- What the call says about each node: its address, or that it is gone. -/
def record (known : String → Option String) : RingOp → String → Option String
  | addNode nodeId httpAddress => Function.update known nodeId (some httpAddress)
  | removeNode nodeId => Function.update known nodeId none

end RingOp

/-- The ring after the calls. -/
def after (replicationFactor vnodesPerNode : Nat) (ops : List RingOp) : ContentRing :=
  ops.foldl RingOp.apply (new replicationFactor vnodesPerNode)

/-- The latest address of each registered node. -/
def registry (ops : List RingOp) : String → Option String := ops.foldl RingOp.record fun _ => none

def registered (ops : List RingOp) : Finset String :=
  (ops.map RingOp.nodeId).toFinset.filter fun id => (registry ops id).isSome

def vnodeKey (nodeId : String) (i : Nat) : String := s!"{nodeId}:{i}"

/-- A virtual node: its position and its owner. -/
def vnode (nodeId : String) (i : Nat) : UInt64 × String := (sipHash64 (vnodeKey nodeId i), nodeId)

/-- No two keys of the nodes share a position. -/
def KeysApart (vnodesPerNode : Nat) (ids : List String) : Prop :=
  ∀ id ∈ ids, ∀ id' ∈ ids, ∀ i < vnodesPerNode, ∀ j < vnodesPerNode,
    sipHash64 (vnodeKey id i) = sipHash64 (vnodeKey id' j) → vnodeKey id i = vnodeKey id' j

instance (vnodesPerNode : Nat) (ids : List String) : Decidable (KeysApart vnodesPerNode ids) :=
  inferInstanceAs (Decidable (∀ id ∈ ids, ∀ id' ∈ ids, ∀ i < vnodesPerNode, ∀ j < vnodesPerNode,
    sipHash64 (vnodeKey id i) = sipHash64 (vnodeKey id' j) → vnodeKey id i = vnodeKey id' j))

/-- The clockwise walk: all positions of registered nodes, by increasing distance from where it starts. -/
structure IsWalk (vnodesPerNode : Nat) (nodes : Finset String) (start : UInt64) (walk : List (UInt64 × String)) :
    Prop where
  positions : ∀ e, e ∈ walk ↔ ∃ id ∈ nodes, ∃ i < vnodesPerNode, e = vnode id i
  clockwise : walk.Pairwise fun a b => a.1 - start < b.1 - start

/-! ## Keys -/

theorem colon_not_mem_repr (i : Nat) : ':' ∉ (Nat.repr i).toList := by
  intro h
  rw [Nat.toList_repr] at h
  have hdigit := Nat.isDigit_of_mem_toDigits (by omega) (by omega) h
  exact absurd hdigit (by decide)

/-- The last colon of a key ends the identifier. -/
theorem nodeId_of_vnodeKey {id id' : String} {i j : Nat} (h : vnodeKey id i = vnodeKey id' j) : id = id' := by
  have hlist : id.toList ++ ':' :: (Nat.repr i).toList = id'.toList ++ ':' :: (Nat.repr j).toList := by
    have hkey : ∀ (s : String) (n : Nat), (vnodeKey s n).toList = s.toList ++ ':' :: (Nat.repr n).toList := by
      intro s n
      have hs : vnodeKey s n = s ++ ":" ++ Nat.repr n := rfl
      rw [hs, String.toList_append, String.toList_append, List.append_assoc]
      rfl
    rw [← hkey, ← hkey, h]
  rcases List.append_eq_append_iff.1 hlist with ⟨rest, hid, hrest⟩ | ⟨rest, hid, hrest⟩
  · cases rest with
    | nil => exact String.toList_injective (by simpa using hid.symm)
    | cons c rest =>
      obtain ⟨-, hrest⟩ := List.cons.inj hrest
      exact absurd (hrest ▸ List.mem_append_right _ List.mem_cons_self) (colon_not_mem_repr i)
  · cases rest with
    | nil => exact String.toList_injective (by simpa using hid)
    | cons c rest =>
      obtain ⟨-, hrest⟩ := List.cons.inj hrest
      exact absurd (hrest ▸ List.mem_append_right _ List.mem_cons_self) (colon_not_mem_repr j)

/-! ## What the ring holds -/

/-- The ring has the registered nodes under their addresses, and the positions of their keys. -/
structure Reflects (r : ContentRing) (vnodes : Nat) (known : String → Option String) : Prop where
  vnodesPerNode : r.vnodesPerNode = vnodes
  nodes : ∀ p, p ∈ r.nodes ↔ known p.nodeId = some p.httpAddress
  ring : ∀ e, e ∈ r.ring ↔ ∃ id, (known id).isSome ∧ ∃ i < vnodes, e = vnode id i

variable {r : ContentRing} {vnodes : Nat} {known : String → Option String} {nodeId httpAddress : String}

theorem reflects_new {replicationFactor : Nat} : Reflects (new replicationFactor vnodes) vnodes fun _ => none := by
  refine ⟨rfl, fun p => ?_, fun e => ?_⟩
  · exact iff_of_false List.not_mem_nil (by simp)
  · exact iff_of_false List.not_mem_nil (by simp)

theorem mem_nodes_addNode {p : PeerNode} :
    p ∈ (r.addNode nodeId httpAddress).nodes ↔ p = ⟨nodeId, httpAddress⟩ ∨ p ∈ r.nodes ∧ p.nodeId ≠ nodeId := by
  refine Table.mem_upsert_replace ?_
  rintro ⟨id, address⟩ rfl
  rfl

theorem mem_ring_addNode {e : UInt64 × String} :
    e ∈ (r.addNode nodeId httpAddress).ring ↔
      (∃ i < r.vnodesPerNode, e = vnode nodeId i) ∨
        e ∈ r.ring ∧ ∀ i < r.vnodesPerNode, e.1 ≠ sipHash64 (vnodeKey nodeId i) := by
  have hput : ∀ i (s : UInt64 × String), s.1 = (vnode nodeId i).1 → (s.1, nodeId) = vnode nodeId i := by
    intro i s hs
    rw [hs]
    rfl
  have hagree : ∀ i ∈ List.range r.vnodesPerNode, ∀ j ∈ List.range r.vnodesPerNode,
      (vnode nodeId i).1 = (vnode nodeId j).1 → vnode nodeId i = vnode nodeId j :=
    fun _ _ _ _ h => Prod.ext h rfl
  refine Iff.trans (Table.mem_foldl_replace hput hagree) ?_
  simp only [List.mem_range]
  exact Iff.rfl

theorem mem_ring_removeNode {e : UInt64 × String} :
    e ∈ (r.removeNode nodeId).ring ↔ e ∈ r.ring ∧ ∀ i < r.vnodesPerNode, e.1 ≠ sipHash64 (vnodeKey nodeId i) := by
  refine Iff.trans Table.mem_foldl_delete ?_
  simp only [List.mem_range]
  exact Iff.rfl

/-- Of the known nodes, only this one has a position among its keys. -/
theorem owner_of_position (hapart : ∀ id, (known id).isSome → KeysApart vnodes [id, nodeId]) {id : String} {i j : Nat}
    (hknown : (known id).isSome) (hi : i < vnodes) (hj : j < vnodes)
    (h : (vnode id i).1 = sipHash64 (vnodeKey nodeId j)) : id = nodeId :=
  nodeId_of_vnodeKey (hapart id hknown id List.mem_cons_self nodeId (List.mem_cons_of_mem _ List.mem_cons_self)
    i hi j hj h)

theorem Reflects.addNode (h : Reflects r vnodes known)
    (hapart : ∀ id, (known id).isSome → KeysApart vnodes [id, nodeId]) :
    Reflects (r.addNode nodeId httpAddress) vnodes (Function.update known nodeId (some httpAddress)) := by
  refine ⟨h.vnodesPerNode, fun p => ?_, fun e => ?_⟩
  · rw [mem_nodes_addNode, h.nodes, Function.update_apply]
    split_ifs with hid
    · subst hid
      rw [Option.some.injEq]
      constructor
      · rintro (hp | ⟨-, hne⟩)
        · rw [hp]
        · exact absurd rfl hne
      · rintro rfl
        exact .inl rfl
    · refine ⟨fun hp => ?_, fun hp => .inr ⟨hp, hid⟩⟩
      rcases hp with rfl | ⟨hp, -⟩
      · exact absurd rfl hid
      · exact hp
  · rw [mem_ring_addNode, h.ring, h.vnodesPerNode]
    constructor
    · rintro (⟨i, hi, rfl⟩ | ⟨⟨id, hknown, i, hi, rfl⟩, hother⟩)
      · exact ⟨nodeId, by rw [Function.update_self]; rfl, i, hi, rfl⟩
      · have hne : id ≠ nodeId := by
          rintro rfl
          exact hother i hi rfl
        exact ⟨id, by rwa [Function.update_of_ne hne], i, hi, rfl⟩
    · rintro ⟨id, hknown, i, hi, rfl⟩
      by_cases hid : id = nodeId
      · subst hid
        exact .inl ⟨i, hi, rfl⟩
      · rw [Function.update_of_ne hid] at hknown
        exact .inr ⟨⟨id, hknown, i, hi, rfl⟩, fun j hj he => hid (owner_of_position hapart hknown hi hj he)⟩

theorem Reflects.removeNode (h : Reflects r vnodes known)
    (hapart : ∀ id, (known id).isSome → KeysApart vnodes [id, nodeId]) :
    Reflects (r.removeNode nodeId) vnodes (Function.update known nodeId none) := by
  refine ⟨h.vnodesPerNode, fun p => ?_, fun e => ?_⟩
  · rw [ContentRing.removeNode, Table.mem_delete, h.nodes, Function.update_apply]
    split_ifs with hid
    · exact iff_of_false (fun hp => hp.2 hid) (by simp)
    · exact and_iff_left hid
  · rw [mem_ring_removeNode, h.ring, h.vnodesPerNode]
    constructor
    · rintro ⟨⟨id, hknown, i, hi, rfl⟩, hother⟩
      have hne : id ≠ nodeId := by
        rintro rfl
        exact hother i hi rfl
      exact ⟨id, by rwa [Function.update_of_ne hne], i, hi, rfl⟩
    · rintro ⟨id, hknown, i, hi, rfl⟩
      have hne : id ≠ nodeId := by
        rintro rfl
        rw [Function.update_self] at hknown
        cases hknown
      rw [Function.update_of_ne hne] at hknown
      exact ⟨⟨id, hknown, i, hi, rfl⟩, fun j hj he => hne (owner_of_position hapart hknown hi hj he)⟩

theorem record_of_ne {op : RingOp} {id : String} (h : id ≠ op.nodeId) : op.record known id = known id := by
  cases op with
  | addNode nodeId httpAddress => exact Function.update_of_ne h _ _
  | removeNode nodeId => exact Function.update_of_ne h _ _

theorem registry_snoc {ops : List RingOp} {op : RingOp} : registry (ops ++ [op]) = op.record (registry ops) := by
  rw [registry, List.foldl_append]
  rfl

/-- Only nodes that a call has named are known. -/
theorem mem_of_registry {ops : List RingOp} {id : String} (h : (registry ops id).isSome) : id ∈ ops.map RingOp.nodeId := by
  induction ops using List.reverseRecOn with
  | nil => cases h
  | append_singleton ops op ih =>
    rw [List.map_append, List.mem_append]
    by_cases hid : id = op.nodeId
    · exact .inr (List.mem_singleton.2 hid)
    · rw [registry_snoc, record_of_ne hid] at h
      exact .inl (ih h)

theorem KeysApart.pair {ids : List String} (h : KeysApart vnodes ids) {id id' : String} (hid : id ∈ ids)
    (hid' : id' ∈ ids) : KeysApart vnodes [id, id'] := by
  have hsub : ∀ x ∈ [id, id'], x ∈ ids := by
    intro x hx
    rcases List.mem_cons.1 hx with rfl | hx
    · exact hid
    · exact List.mem_singleton.1 hx ▸ hid'
  exact fun a ha b hb => h a (hsub a ha) b (hsub b hb)

/-- **After any calls the ring reflects the registry.** -/
theorem reflects_after {replicationFactor : Nat} {ops : List RingOp}
    (hapart : KeysApart vnodes (ops.map RingOp.nodeId)) :
    Reflects (after replicationFactor vnodes ops) vnodes (registry ops) := by
  induction ops using List.reverseRecOn with
  | nil => exact reflects_new
  | append_singleton ops op ih =>
    have hmem : ∀ id ∈ ops.map RingOp.nodeId, id ∈ (ops ++ [op]).map RingOp.nodeId := by
      intro id hid
      rw [List.map_append]
      exact List.mem_append_left _ hid
    have hlast : op.nodeId ∈ (ops ++ [op]).map RingOp.nodeId := by
      rw [List.map_append]
      exact List.mem_append_right _ (List.mem_singleton_self _)
    have hprefix := ih fun id hid id' hid' => hapart id (hmem id hid) id' (hmem id' hid')
    have hpair : ∀ id, (registry ops id).isSome → KeysApart vnodes [id, op.nodeId] :=
      fun id hknown => hapart.pair (hmem id (mem_of_registry hknown)) hlast
    rw [registry_snoc, after, List.foldl_append]
    cases op with
    | addNode nodeId httpAddress => exact hprefix.addNode hpair
    | removeNode nodeId => exact hprefix.removeNode hpair

/-! ## The search -/

theorem Reflects.has (h : Reflects r vnodes known) : r.Has nodeId ↔ (known nodeId).isSome := by
  rw [Option.isSome_iff_exists]
  constructor
  · rintro ⟨p, hp, rfl⟩
    exact ⟨p.httpAddress, (h.nodes p).1 hp⟩
  · rintro ⟨httpAddress, hknown⟩
    exact ⟨⟨nodeId, httpAddress⟩, (h.nodes _).2 hknown, rfl⟩

/-- **The search takes the first distinct owners.**  What it has collected are the nodes it has seen, fewer than
enough; then the owners to come that are not among them follow, until there are enough. -/
theorem map_collect {ids seen : List String} {result : List PeerNode} (hhas : ∀ id ∈ ids, r.Has id)
    (hseen : ∀ id, id ∈ seen ↔ id ∈ result.map PeerNode.nodeId) (hroom : result.length < r.replicationFactor) :
    (r.collect seen result ids).map PeerNode.nodeId =
      (result.map PeerNode.nodeId ++ (ids.filter fun id => id ∉ seen).eraseDups).take r.replicationFactor := by
  induction ids generalizing seen result with
  | nil =>
    rw [collect, List.filter_nil, List.eraseDups_nil, List.append_nil]
    exact (List.take_of_length_le (by rw [List.length_map]; omega)).symm
  | cons id ids ih =>
    have hhas' : ∀ id' ∈ ids, r.Has id' := fun id' hid' => hhas id' (List.mem_cons_of_mem _ hid')
    unfold collect
    by_cases hid : id ∈ seen
    · have hfilter : (ids.filter fun x => x ∉ id :: seen) = ids.filter fun x => x ∉ seen := by
        refine List.filter_congr fun x _ => ?_
        have hiff : x ∈ id :: seen ↔ x ∈ seen := by
          rw [List.mem_cons]
          exact or_iff_right_of_imp fun hx => hx ▸ hid
        simp only [hiff]
      have hseen' : ∀ x, x ∈ id :: seen ↔ x ∈ result.map PeerNode.nodeId := by
        intro x
        rw [← hseen, List.mem_cons]
        exact or_iff_right_of_imp fun hx => hx ▸ hid
      dsimp only
      rw [if_pos hid, if_neg (by omega), ih hhas' hseen' hroom, hfilter, List.filter_cons_of_neg (by simpa using hid)]
    · obtain ⟨p, hp, rfl⟩ := hhas id List.mem_cons_self
      have hfind : r.nodes.find? p.nodeId = some p := Table.find?_eq_some.2 ⟨hp, rfl⟩
      have hfilter : (ids.filter fun x => x ∉ p.nodeId :: seen) =
          (ids.filter fun x => x ∉ seen).filter fun x => !x == p.nodeId := by
        rw [List.filter_filter]
        refine List.filter_congr fun x _ => ?_
        by_cases hx : x = p.nodeId <;> simp [hx]
      have hrest : ((p.nodeId :: ids).filter fun x => x ∉ seen).eraseDups =
          p.nodeId :: (ids.filter fun x => x ∉ p.nodeId :: seen).eraseDups := by
        rw [List.filter_cons_of_pos (by simpa using hid), List.eraseDups_cons, hfilter]
      dsimp only
      rw [if_neg hid, hfind, Option.toList_some, hrest]
      split_ifs with henough
      · rw [List.length_append, List.length_singleton] at henough
        have hlast : r.replicationFactor = (result.map PeerNode.nodeId).length + 1 := by
          rw [List.length_map]
          omega
        rw [hlast, List.map_append, List.take_length_add_append]
        rfl
      · have hseen' : ∀ x, x ∈ p.nodeId :: seen ↔ x ∈ (result ++ [p]).map PeerNode.nodeId := by
          intro x
          rw [List.mem_cons, hseen, List.map_append, List.mem_append, or_comm]
          exact or_congr_right List.mem_singleton.symm
        rw [ih hhas' hseen' (by omega), List.map_append, List.append_assoc]
        rfl

/-! ## The responsible set -/

/-- What the documentation of the ring says of the responsible nodes: enough distinct registered nodes, each with its
latest address, namely the first owners met clockwise. -/
structure ResponsibleSet (replicationFactor vnodes : Nat) (ops : List RingOp) (contentHash : String)
    (nodes : List PeerNode) : Prop where
  count : nodes.length = min replicationFactor (registered ops).card
  distinct : (nodes.map PeerNode.nodeId).Nodup
  latest : ∀ p ∈ nodes, registry ops p.nodeId = some p.httpAddress
  nearest : ∃ walk, IsWalk vnodes (registered ops) (sipHash64 contentHash) walk ∧
    nodes.map PeerNode.nodeId = (walk.map Prod.snd).eraseDups.take replicationFactor

theorem mem_registered {ops : List RingOp} {id : String} : id ∈ registered ops ↔ (registry ops id).isSome := by
  rw [registered, Finset.mem_filter, List.mem_toFinset]
  exact and_iff_right_of_imp mem_of_registry

/-- The entries around the ring, as the search reads them. -/
def around (r : ContentRing) (start : UInt64) : List (UInt64 × String) :=
  let entries := r.ring.rows.insertionSort fun a b => a.1 ≤ b.1
  (entries.filter fun e => start ≤ e.1) ++ entries.filter fun e => e.1 < start

theorem mem_around_ring {start : UInt64} {e : UInt64 × String} : e ∈ r.around start ↔ e ∈ r.ring := by
  rw [around, mem_around, List.mem_insertionSort, Table.mem_def]

theorem pairwise_around (start : UInt64) : (r.around start).Pairwise fun a b => a.1 - start < b.1 - start :=
  pairwise_distance (pairwise_sorted r.ring.nodup) start

theorem isWalk_around {ops : List RingOp} (h : Reflects r vnodes (registry ops)) (start : UInt64) :
    IsWalk vnodes (registered ops) start (r.around start) := by
  refine ⟨fun e => ?_, pairwise_around start⟩
  rw [mem_around_ring, h.ring]
  simp only [mem_registered]

/-- Each registered node is met, having a position. -/
theorem IsWalk.mem_owners {nodes : Finset String} {start : UInt64} {walk : List (UInt64 × String)}
    (h : IsWalk vnodes nodes start walk) (hvnodes : 0 < vnodes) {id : String} :
    id ∈ walk.map Prod.snd ↔ id ∈ nodes := by
  constructor
  · intro hid
    obtain ⟨e, he, rfl⟩ := List.mem_map.1 hid
    obtain ⟨owner, howner, i, -, rfl⟩ := (h.positions e).1 he
    exact howner
  · intro hid
    exact List.mem_map.2 ⟨vnode id 0, (h.positions _).2 ⟨id, hid, 0, hvnodes, rfl⟩, rfl⟩

/-- If every position has a node on the ring, the search names the first owners around. -/
theorem map_getResponsibleNodes_of_has (howner : ∀ e ∈ r.ring, r.Has e.2) (hfactor : 0 < r.replicationFactor)
    (contentHash : String) :
    (r.getResponsibleNodes contentHash).map PeerNode.nodeId =
      ((r.around (sipHash64 contentHash)).map Prod.snd).eraseDups.take r.replicationFactor := by
  unfold getResponsibleNodes
  split_ifs with hempty
  · rw [around, hempty, List.insertionSort_nil, List.filter_nil, List.filter_nil, List.append_nil, List.map_nil,
      List.map_nil, List.eraseDups_nil, List.take_nil]
  · have hhas : ∀ id ∈ r.clockwise (sipHash64 contentHash), r.Has id := by
      intro id hid
      obtain ⟨e, he, rfl⟩ := List.mem_map.1 hid
      exact howner e (mem_around_ring.1 he)
    have hnone : ∀ id : String, id ∈ ([] : List String) ↔ id ∈ ([] : List PeerNode).map PeerNode.nodeId := by
      intro id
      rw [List.map_nil]
    have hall : ((r.clockwise (sipHash64 contentHash)).filter fun id => id ∉ ([] : List String)) =
        r.clockwise (sipHash64 contentHash) := by
      refine List.filter_eq_self.2 fun id _ => ?_
      exact decide_eq_true List.not_mem_nil
    rw [map_collect hhas hnone hfactor, List.map_nil, List.nil_append, hall]
    rfl

theorem map_getResponsibleNodes (h : Reflects r vnodes known) (hfactor : 0 < r.replicationFactor)
    (contentHash : String) :
    (r.getResponsibleNodes contentHash).map PeerNode.nodeId =
      ((r.around (sipHash64 contentHash)).map Prod.snd).eraseDups.take r.replicationFactor := by
  refine map_getResponsibleNodes_of_has (fun e he => ?_) hfactor contentHash
  obtain ⟨id, hid, -, -, rfl⟩ := (h.ring e).1 he
  exact h.has.2 hid

theorem replicationFactor_after {replicationFactor : Nat} {ops : List RingOp} :
    (after replicationFactor vnodes ops).replicationFactor = replicationFactor := by
  induction ops using List.reverseRecOn with
  | nil => rfl
  | append_singleton ops op ih =>
    rw [after, List.foldl_append]
    cases op with
    | addNode nodeId httpAddress => exact ih
    | removeNode nodeId => exact ih

/-- **The responsible set of a content hash**, on every ring that calls have led to. -/
theorem responsibleSet_after {replicationFactor : Nat} (hfactor : 0 < replicationFactor) (hvnodes : 0 < vnodes)
    (ops : List RingOp) (hapart : KeysApart vnodes (ops.map RingOp.nodeId)) (contentHash : String) :
    ResponsibleSet replicationFactor vnodes ops contentHash
      ((after replicationFactor vnodes ops).getResponsibleNodes contentHash) := by
  have hreflects : Reflects (after replicationFactor vnodes ops) vnodes (registry ops) := reflects_after hapart
  have hwalk := isWalk_around hreflects (sipHash64 contentHash)
  have hids := map_getResponsibleNodes hreflects (by rwa [replicationFactor_after]) contentHash
  rw [replicationFactor_after] at hids
  refine ⟨?_, ?_, ?_, _, hwalk, hids⟩
  · rw [← List.length_map PeerNode.nodeId, hids, List.length_take,
      card_of_mem_eraseDups fun _ => hwalk.mem_owners hvnodes]
  · rw [hids]
    exact (nodup_eraseDups _).sublist (List.take_sublist _ _)
  · exact fun p hp => (hreflects.nodes p).1 (mem_getResponsibleNodes hp)

/-- Two nodes, one of them removed and added again at another address. -/
theorem responsibleSet_readded : ResponsibleSet 2 2
    [.addNode "alpha" "http://10.0.0.1", .addNode "beta" "http://10.0.0.2", .removeNode "alpha",
      .addNode "alpha" "http://10.0.0.3"] "file"
    ((after 2 2 [.addNode "alpha" "http://10.0.0.1", .addNode "beta" "http://10.0.0.2", .removeNode "alpha",
      .addNode "alpha" "http://10.0.0.3"]).getResponsibleNodes "file") :=
  responsibleSet_after (by omega) (by omega) _ (by decide +kernel) "file"

end ContentRing

end AlephCore
