import AlephCore.Env
import AlephCore.Lib.Guarantee
import AlephCore.Services.Peers
import Mathlib.Data.Finset.Basic
import Mathlib.Data.List.DropRight

/-!
# PeerMonitor — the API servers that answer

Mirrors the bootstrap and tidy jobs of `services/peers.rs`, beside the discovery of `Services.Peers`.  A check asks
every HTTP address of the table of peers, keeps the set of servers that answer, and writes a row for each of them under
its own address.  Discovery may point the row of a peer to another address at any time; the row a server has under its
own address is then what gets it checked again.  So in every run the set holds the servers that answered the last
check, and beside them only servers whose last such row was refused.
-/

namespace AlephCore.Peers

open ProgE Prog

/-! ## Bootstrap and checks -/

def bootstrapApiServers : List String :=
  ["https://api1.aleph.im", "https://api2.aleph.im", "https://api3.aleph.im"]

/-- Get all peer addresses of a given type, optionally filtered by `last_seen`. -/
def getAddressesByType (order : SqlOrder) (peerType : String) (minLastSeen : Option Timestamp) :
    PeerIo DbError (List String) :=
  query fun t => ((order.scan t.rows).filter fun p =>
    decide (p.peerType = peerType ∧ ∀ lastSeen ∈ minLastSeen, lastSeen ≤ p.lastSeen)).map PeerDb.address

/-- Write the bootstrap servers; one that cannot be written is logged and left out. -/
def writeBootstrap (now : Timestamp) : PeerIo DbError Unit :=
  forEach (fun server => ignore (upsert now server "HTTP" server "BOOTSTRAP" : PeerIo DbError Unit))
    bootstrapApiServers

/-- Seed the table of peers with the bootstrap servers if it has no HTTP peers, or cannot be read. -/
def seedBootstrapPeers (order : SqlOrder) (now : Timestamp) : PeerIo DbError Unit := do
  let addrs ← attempt (getAddressesByType order "HTTP" none)
  if addrs.toOption.getD [] ≠ [] then pure () else writeBootstrap now

/-- The version endpoint of a peer. -/
def versionUrl (peerUri : String) : String :=
  String.ofList (peerUri.toList.rdropWhile (· = '/')) ++ "/api/v0/version"

/-- Check if a peer is online: `get` is the status an URL answers with, if it does. -/
def checkPeerOnline (get : String → Option Nat) (peerUri : String) : Bool :=
  (get (versionUrl peerUri)).any fun status => 200 ≤ status && status < 300

/-- All peers are checked at the same time, each by a request of its own. -/
def checkAll (get : Nat → String → Option Nat) (peers : List String) : List (String × Bool) :=
  peers.mapIdx fun i uri => (uri, checkPeerOnline (get i) uri)

/-- The servers after a check: result for result one is inserted or removed. -/
def updateServers : List (String × Bool) → Finset String → Finset String
  | [], servers => servers
  | (uri, online) :: results, servers =>
    updateServers results (if online then insert uri servers else servers.erase uri)

/-! ## Runs -/

/-- How far the tidy job has come. -/
inductive Tidy where
  | stopped
  | seeding (rest : Prog PeerTable DbError (Except DbError Unit))
  | waiting
  | checking (peers : List String)
  | refreshing (left : List String)

/-- The table of peers, the servers that are kept, and the jobs; and what has been observed: which servers answered
the last check, and which servers have been refused their own row since they last answered. -/
structure Monitor where
  peers : PeerTable
  apiServers : Finset String
  tidy : Tidy
  discovery : Option (Prog PeerTable DbError (Except DbError (Nat × List PeerNode)))
  answered : Finset String
  lost : Finset String

/-- A node that has never been started. -/
def Monitor.fresh : Monitor := ⟨.empty, ∅, .stopped, none, ∅, ∅⟩

/-- One step of a job. -/
inductive Monitor.Step (w : Monitor) : Monitor → Prop
  /-- The node starts, perhaps again. -/
  | start (order : SqlOrder) (now : Timestamp) :
      Step w ⟨w.peers, ∅, .seeding (seedBootstrapPeers order now).run, none, ∅, ∅⟩
  | seed {p p' : Prog PeerTable DbError (Except DbError Unit)} {t : PeerTable} (h : w.tidy = .seeding p)
      (hnext : Next p w.peers p' t) : Step w { w with peers := t, tidy := .seeding p' }
  | seeded {r : Except DbError Unit} (h : w.tidy = .seeding (.pure r)) : Step w { w with tidy := .waiting }
  /-- The peers cannot be read, or there are none: the check is left out. -/
  | unread {order : SqlOrder} {r : Except DbError (List String)} {t : PeerTable} (h : w.tidy = .waiting)
      (hexec : Exec (getAddressesByType order "HTTP" none).run w.peers r t) (hnone : ∀ uris, r = .ok uris → uris = []) :
      Step w { w with peers := t }
  | read {order : SqlOrder} {uris : List String} {t : PeerTable} (h : w.tidy = .waiting)
      (hexec : Exec (getAddressesByType order "HTTP" none).run w.peers (.ok uris) t) (hsome : uris ≠ []) :
      Step w { w with peers := t, tidy := .checking uris }
  /-- All peers have been checked; then the servers are refreshed, in any order. -/
  | checked {uris left : List String} (h : w.tidy = .checking uris) (get : Nat → String → Option Nat)
      (hnodup : left.Nodup) (hleft : ∀ s, s ∈ left ↔ s ∈ updateServers (checkAll get uris) w.apiServers) :
      Step w { w with apiServers := updateServers (checkAll get uris) w.apiServers, tidy := .refreshing left,
                      answered := updateServers (checkAll get uris) ∅,
                      lost := w.lost \ updateServers (checkAll get uris) ∅ }
  | refresh {server : String} {left : List String} {t : PeerTable} (h : w.tidy = .refreshing (server :: left))
      (now : Timestamp) (hexec : Exec (upsert now server "HTTP" server "HTTP").run w.peers (.ok ()) t) :
      Step w { w with peers := t, tidy := .refreshing left }
  | unrefreshed {server : String} {left : List String} {e : DbError} {t : PeerTable}
      (h : w.tidy = .refreshing (server :: left)) (now : Timestamp)
      (hexec : Exec (upsert now server "HTTP" server "HTTP").run w.peers (.error e) t) :
      Step w { w with peers := t, tidy := .refreshing left, lost := insert server w.lost }
  | refreshed (h : w.tidy = .refreshing []) : Step w { w with tidy := .waiting }
  /-- The discovery job begins a cycle, issues a statement of it, and ends it. -/
  | discover (h : w.discovery = none) (fetch : String → Fetched) (now : Timestamp) :
      Step w { w with discovery := some (discoverPeersFromAggregate fetch now).run }
  | seedNode {p p' : Prog PeerTable DbError (Except DbError (Nat × List PeerNode))} {t : PeerTable}
      (h : w.discovery = some p) (hnext : Next p w.peers p' t) :
      Step w { w with peers := t, discovery := some p' }
  | discovered {r : Except DbError (Nat × List PeerNode)} (h : w.discovery = some (.pure r)) :
      Step w { w with discovery := none }

/-! ## What is written -/

/-- An address of digits and dots. -/
def IsIp (ip : List Char) : Prop := '.' ∈ ip ∧ ∀ c ∈ ip, c.isDigit = true ∨ c = '.'

/-- A bootstrap server, or the HTTP API of a node with an IPv4 address. -/
def Known (address : String) : Prop :=
  address ∈ bootstrapApiServers ∨
    ∃ ip, IsIp ip ∧ address = s!"http://{String.ofList ip}:{defaultCcnHttpPort}"

/-- The address is known; and an identifier that can be an address is one. -/
structure RowOk (p : PeerDb) : Prop where
  known : Known p.address
  own : '/' ∈ p.peerId.toList → p.address = p.peerId

/-- Rows stay as they should be, and none is lost. -/
def KeepsPeers (t t' : PeerTable) : Prop :=
  (∀ p ∈ t, RowOk p) → (∀ p ∈ t', RowOk p) ∧
    ∀ k, (∃ p ∈ t, (p.peerId, p.peerType) = k) → ∃ p ∈ t', (p.peerId, p.peerType) = k

instance : Std.Refl KeepsPeers := ⟨fun _ h => ⟨h, fun _ hk => hk⟩⟩

variable {uri s : String} {results : List (String × Bool)} {servers : Finset String} {t : PeerTable}
  {key v : List Char} {valid : List Char → Bool} {w w' : Monitor}

theorem Known.slash {address : String} (h : Known address) : '/' ∈ address.toList := by
  obtain h | ⟨ip, -, rfl⟩ := h
  · revert address
    decide
  · simp only [String.toList_append, List.mem_append]
    exact .inl (.inl (.inl (by decide)))

theorem valueOf_some {ps : List (List Char)} (h : valueOf key valid ps = some v) : v ∈ ps ∧ valid v = true := by
  fun_induction valueOf key valid ps with
  | case1 part value rest hfound =>
    obtain rfl := Option.some.inj h
    exact ⟨List.mem_cons_of_mem _ List.mem_cons_self, hfound.2⟩
  | case2 part value rest hnot ih =>
    obtain ⟨hv, hvalid⟩ := ih h
    exact ⟨List.mem_cons_of_mem _ hv, hvalid⟩
  | case3 ps hnone => cases h

/-- A part of a multiaddress has no slash. -/
theorem not_mem_of_mem_splitOn {c : Char} {l : List Char} (h : v ∈ l.splitOn c) : c ∉ v := by
  induction l generalizing v with
  | nil =>
    have hv : v = [] := by simpa using h
    rw [hv]
    exact List.not_mem_nil
  | cons d l ih =>
    rw [List.splitOn_cons_eq_if_modifyHead] at h
    split_ifs at h with hd
    · rcases List.mem_cons.1 h with rfl | h
      · exact List.not_mem_nil
      · exact ih h
    · obtain ⟨q, qs, hq⟩ := List.exists_cons_of_ne_nil (List.splitOn_ne_nil c l)
      rw [hq] at h ih
      rw [List.modifyHead_cons] at h
      rcases List.mem_cons.1 h with rfl | h
      · intro hc
        rcases List.mem_cons.1 hc with rfl | hc
        · exact hd (by simp)
        · exact ih List.mem_cons_self hc
      · exact ih (List.mem_cons_of_mem _ h)

/-- **The peer of a listed node** has a known address, and its identifier is that address or no address at all. -/
theorem candidate_ok {node : CoreChannelNode} {peer : PeerNode} (h : candidate node = some peer)
    (p : PeerDb) (hid : p.peerId = peer.nodeId) (haddress : p.address = peer.httpAddress) : RowOk p := by
  unfold candidate at h
  split_ifs at h
  obtain ⟨ip, hip, rfl⟩ := Option.map_eq_some_iff.1 h
  obtain ⟨chars, hchars, rfl⟩ := Option.map_eq_some_iff.1 hip
  obtain ⟨-, hvalid⟩ := valueOf_some hchars
  have hdots : IsIp chars := by
    rw [Bool.and_eq_true, List.contains_iff_mem, List.all_eq_true] at hvalid
    exact ⟨hvalid.1, fun c hc => by simpa using hvalid.2 c hc⟩
  refine ⟨?_, fun hslash => ?_⟩
  · rw [haddress]
    exact .inr ⟨chars, hdots, rfl⟩
  · rw [haddress, hid]
    rw [hid] at hslash
    cases hp2p : extractPeerIdFromMultiaddr node.multiaddress with
    | none => rfl
    | some peerId =>
      obtain ⟨idChars, hidChars, rfl⟩ := Option.map_eq_some_iff.1 hp2p
      have hplain : '/' ∉ idChars := not_mem_of_mem_splitOn (valueOf_some hidChars).1
      simp only [hp2p, Option.getD_some, String.toList_ofList] at hslash
      exact absurd hslash hplain

theorem Known.rowOk {p : PeerDb} (h : Known s) (hid : p.peerId = s) (haddress : p.address = s) : RowOk p where
  known := by
    rw [haddress]
    exact h
  own := fun _ => by rw [haddress, hid]

theorem keeps_upsert {now : Timestamp} {peerId peerType address source : String}
    (h : ∀ p : PeerDb, p.peerId = peerId → p.address = address → RowOk p) :
    Moves KeepsPeers (upsert now peerId peerType address source).run := by
  refine moves_execute fun t hrows => ⟨fun p hp => ?_, fun k hk => ?_⟩
  · rcases Table.mem_upsert.1 hp with ⟨hp, -⟩ | ⟨q, -, hkey, rfl⟩ | ⟨rfl, -⟩
    · exact hrows p hp
    · exact h _ (Prod.mk.inj hkey).1 rfl
    · exact h _ rfl rfl
  · exact (Table.exists_key_upsert (P := fun k' => k' = k)).2 (.inl hk)

/-- A server is written under its own address. -/
theorem keeps_upsert_own {now : Timestamp} {source : String} (h : Known s) :
    Moves KeepsPeers (upsert now s "HTTP" s source).run := keeps_upsert fun _ => h.rowOk

theorem keeps_seedBootstrapPeers (order : SqlOrder) (now : Timestamp) :
    Moves KeepsPeers (seedBootstrapPeers order now).run := by
  refine moves_bind (moves_attempt (moves_query _)) fun addrs => ?_
  split_ifs
  · exact moves_pure ()
  · exact moves_forEach fun server hserver => moves_ignore (keeps_upsert_own (.inl hserver))

theorem keeps_seedNodes (now : Timestamp) (nodes : List CoreChannelNode) (seeded : Nat × List PeerNode) :
    Moves KeepsPeers (seedNodes now seeded nodes).run := by
  induction nodes generalizing seeded with
  | nil => exact moves_pure seeded
  | cons node nodes ih =>
    obtain ⟨discovered, peerNodes⟩ := seeded
    unfold seedNodes
    cases hcandidate : candidate node with
    | none => exact ih _
    | some peer => exact moves_bind (moves_attempt (keeps_upsert (candidate_ok hcandidate))) fun _ => ih _

/-- **Discovery** writes rows as they should be. -/
theorem keeps_discover (fetch : String → Fetched) (now : Timestamp) :
    Moves KeepsPeers (discoverPeersFromAggregate fetch now).run := by
  unfold discoverPeersFromAggregate
  cases fetchNodes fetch with
  | none => exact moves_pure _
  | some nodes => exact keeps_seedNodes now nodes _

/-! ## A check -/

theorem mem_updateServers_of_not_mem (h : s ∉ results.map Prod.fst) :
    s ∈ updateServers results servers ↔ s ∈ servers := by
  induction results generalizing servers with
  | nil => exact .rfl
  | cons result results ih =>
    obtain ⟨uri, online⟩ := result
    rw [List.map_cons, List.mem_cons, not_or] at h
    rw [updateServers, ih h.2]
    cases online with
    | true => simp [h.1]
    | false => simp [h.1]

theorem mem_updateServers_of_mem (h : s ∈ results.map Prod.fst) :
    s ∈ updateServers results servers ↔ s ∈ updateServers results ∅ := by
  have hany : ∀ servers' : Finset String,
      s ∈ updateServers results servers ↔ s ∈ updateServers results servers' := by
    induction results generalizing servers with
    | nil => exact (List.not_mem_nil h).elim
    | cons result results ih =>
      obtain ⟨uri, online⟩ := result
      intro servers'
      rw [updateServers, updateServers]
      by_cases hlater : s ∈ results.map Prod.fst
      · exact ih hlater _
      · obtain rfl : s = uri := (List.mem_cons.1 h).resolve_right hlater
        rw [mem_updateServers_of_not_mem hlater, mem_updateServers_of_not_mem hlater]
        cases online with
        | true => simp
        | false => simp
  exact hany ∅

/-- What a check alone finds: the servers that answered the last of their requests. -/
theorem mem_updateServers_empty : s ∈ updateServers results ∅ ↔
    ∃ before after, results = before ++ (s, true) :: after ∧ s ∉ after.map Prod.fst := by
  induction results with
  | nil => simp [updateServers]
  | cons result results ih =>
    obtain ⟨uri, online⟩ := result
    rw [updateServers]
    by_cases hlater : s ∈ results.map Prod.fst
    · rw [mem_updateServers_of_mem hlater, ih]
      constructor
      · rintro ⟨before, after, rfl, hafter⟩
        exact ⟨(uri, online) :: before, after, rfl, hafter⟩
      · rintro ⟨before, after, hresults, hafter⟩
        cases before with
        | nil =>
          obtain ⟨-, rfl⟩ := List.cons.inj hresults
          exact absurd hlater hafter
        | cons first before =>
          obtain ⟨-, rfl⟩ := List.cons.inj hresults
          exact ⟨before, after, rfl, hafter⟩
    · rw [mem_updateServers_of_not_mem hlater]
      constructor
      · intro hs
        cases online with
        | true =>
          obtain rfl : s = uri := by simpa using hs
          exact ⟨[], results, rfl, hlater⟩
        | false => simp at hs
      · rintro ⟨before, after, hresults, hafter⟩
        cases before with
        | nil =>
          obtain ⟨hfirst, -⟩ := List.cons.inj hresults
          obtain ⟨rfl, rfl⟩ := Prod.mk.inj hfirst
          simp
        | cons first before =>
          obtain ⟨-, rfl⟩ := List.cons.inj hresults
          exact absurd (by simp) hlater

theorem fst_checkAll (get : Nat → String → Option Nat) (peers : List String) :
    (checkAll get peers).map Prod.fst = peers := by
  rw [checkAll, List.mapIdx_eq_zipIdx_map, List.map_map]
  exact List.zipIdx_map_fst 0 peers

/-! ## What the jobs keep -/

/-- The server has a row under its own address, unless that was refused. -/
def Monitor.Rowed (w : Monitor) (s : String) : Prop :=
  s ∈ w.lost ∨ ∃ p ∈ w.peers, (p.peerId, p.peerType) = (s, "HTTP")

/-- What the tidy job needs of the servers where it stands. -/
def Monitor.OnTrack (w : Monitor) : Tidy → Prop
  | .stopped | .waiting => ∀ s ∈ w.apiServers, w.Rowed s
  | .seeding p => Moves KeepsPeers p ∧ ∀ s ∈ w.apiServers, w.Rowed s
  | .checking uris => (∀ s ∈ w.apiServers, s ∈ uris ∨ s ∈ w.lost) ∧ ∀ uri ∈ uris, Known uri
  | .refreshing left => (∀ s ∈ left, s ∈ w.apiServers) ∧ ∀ s ∈ w.apiServers, s ∈ left ∨ w.Rowed s

/-- What the kept servers are. -/
structure Monitor.Servers (w : Monitor) : Prop where
  answered : w.answered ⊆ w.apiServers
  online : ∀ s ∈ w.apiServers, s ∈ w.answered ∨ s ∈ w.lost
  known : ∀ s ∈ w.apiServers, Known s

/-- The invariant of a run. -/
structure Monitor.Holds (w : Monitor) : Prop extends w.Servers where
  rows : ∀ p ∈ w.peers, RowOk p
  discovery : ∀ p, w.discovery = some p → Moves KeepsPeers p
  tidy : w.OnTrack w.tidy

/-- **New rows** lose nobody. -/
theorem Monitor.OnTrack.peers {phase : Tidy}
    {d : Option (Prog PeerTable DbError (Except DbError (Nat × List PeerNode)))} (h : w.OnTrack phase)
    (hrows : ∀ p ∈ w.peers, RowOk p) (hkeeps : KeepsPeers w.peers t) :
    Monitor.OnTrack { w with peers := t, discovery := d } phase := by
  have hrowed : ∀ s, w.Rowed s → Monitor.Rowed { w with peers := t, discovery := d } s := by
    rintro s (hlost | hrow)
    · exact .inl hlost
    · exact .inr ((hkeeps hrows).2 _ hrow)
  cases phase with
  | stopped => exact fun s hs => hrowed s (h s hs)
  | waiting => exact fun s hs => hrowed s (h s hs)
  | seeding p => exact ⟨h.1, fun s hs => hrowed s (h.2 s hs)⟩
  | checking uris => exact h
  | refreshing left => exact ⟨h.1, fun s hs => (h.2 s hs).imp_right (hrowed s)⟩

/-- A server with a row under its own address is read. -/
theorem Monitor.Holds.read (h : w.Holds) {order : SqlOrder} {uris : List String}
    (hexec : Exec (getAddressesByType order "HTTP" none).run w.peers (.ok uris) t) :
    t = w.peers ∧ (∀ s ∈ w.apiServers, w.Rowed s → s ∈ uris ∨ s ∈ w.lost) ∧ ∀ uri ∈ uris, Known uri := by
  obtain ⟨rfl, rfl⟩ := exec_query_ok.1 hexec
  refine ⟨rfl, fun s hs hrowed => ?_, fun uri huri => ?_⟩
  · obtain hlost | ⟨p, hp, hkey⟩ := hrowed
    · exact .inr hlost
    · obtain ⟨rfl, htype⟩ := Prod.mk.inj hkey
      have haddress : p.address = p.peerId := (h.rows p hp).own (h.known _ hs).slash
      refine .inl (List.mem_map.2 ⟨p, List.mem_filter.2 ⟨(SqlOrder.mem_scan _).2 hp, ?_⟩, haddress⟩)
      simp [htype]
  · obtain ⟨p, hp, rfl⟩ := List.mem_map.1 huri
    exact (h.rows p ((SqlOrder.mem_scan _).1 (List.mem_filter.1 hp).1)).known

/-- **A step** keeps the invariant. -/
theorem Monitor.Holds.step (h : w.Holds) (hstep : w.Step w') : w'.Holds := by
  have hservers := h.toServers
  have htrack := h.tidy
  cases hstep with
  | start order now =>
    have hnobody : ∀ {P : String → Prop}, ∀ s ∈ (∅ : Finset String), P s := fun s hs =>
      (Finset.notMem_empty s hs).elim
    exact ⟨⟨Finset.Subset.refl _, hnobody, hnobody⟩, h.rows, fun p hp => (Option.some_ne_none p hp.symm).elim,
      keeps_seedBootstrapPeers order now, hnobody⟩
  | seed hphase hnext =>
    rw [hphase] at htrack
    obtain ⟨hkeeps, hrest⟩ := Moves.next htrack.1 hnext
    have hwaiting : w.OnTrack .waiting := htrack.2
    have hrowed := hwaiting.peers (d := w.discovery) h.rows hkeeps
    exact ⟨⟨hservers.answered, hservers.online, hservers.known⟩, (hkeeps h.rows).1, h.discovery, hrest, hrowed⟩
  | seeded hphase =>
    rw [hphase] at htrack
    exact ⟨⟨hservers.answered, hservers.online, hservers.known⟩, h.rows, h.discovery, htrack.2⟩
  | @unread order r t hphase hexec hnone =>
    obtain rfl : t = w.peers := by
      cases r with
      | ok uris => exact (exec_query_ok.1 hexec).2
      | error e => exact exec_query_error.1 hexec
    exact h
  | read hphase hexec hsome =>
    rw [hphase] at htrack
    obtain ⟨rfl, hread, hknown⟩ := h.read hexec
    exact ⟨⟨hservers.answered, hservers.online, hservers.known⟩, h.rows, h.discovery,
      fun s hs => hread s hs (htrack s hs), hknown⟩
  | @checked uris left hphase get hnodup hleft =>
    rw [hphase] at htrack
    obtain ⟨hread, hknown⟩ := htrack
    have hfst := fst_checkAll get uris
    have hunread : ∀ s, s ∉ uris → (s ∈ updateServers (checkAll get uris) w.apiServers ↔ s ∈ w.apiServers) := by
      intro s hs
      exact mem_updateServers_of_not_mem (hfst.symm ▸ hs)
    have hasked : ∀ s ∈ uris, s ∈ updateServers (checkAll get uris) w.apiServers ↔
        s ∈ updateServers (checkAll get uris) ∅ := by
      intro s hs
      exact mem_updateServers_of_mem (hfst.symm ▸ hs)
    have hnew : updateServers (checkAll get uris) ∅ ⊆ updateServers (checkAll get uris) w.apiServers := by
      intro s hs
      by_cases hmem : s ∈ uris
      · exact (hasked s hmem).2 hs
      · exact absurd ((mem_updateServers_of_not_mem (hfst.symm ▸ hmem)).1 hs) (Finset.notMem_empty s)
    refine ⟨⟨hnew, fun s hs => ?_, fun s hs => ?_⟩, h.rows, h.discovery, fun s hs => (hleft s).1 hs,
      fun s hs => .inl ((hleft s).2 hs)⟩
    · by_cases hanswered : s ∈ updateServers (checkAll get uris) ∅
      · exact .inl hanswered
      · have hnot : s ∉ uris := fun hmem => hanswered ((hasked s hmem).1 hs)
        have hlost : s ∈ w.lost := (hread s ((hunread s hnot).1 hs)).resolve_left hnot
        exact .inr (Finset.mem_sdiff.2 ⟨hlost, hanswered⟩)
    · by_cases hmem : s ∈ uris
      · exact hknown s hmem
      · exact hservers.known s ((hunread s hmem).1 hs)
  | @refresh server left t hphase now hexec =>
    rw [hphase] at htrack
    obtain ⟨hleft, hrowed⟩ := htrack
    have hkeeps : KeepsPeers w.peers t := by
      have hserver : Known server := hservers.known server (hleft server List.mem_cons_self)
      have hmoves : Moves KeepsPeers (upsert now server "HTTP" server "HTTP").run := keeps_upsert_own hserver
      obtain rfl := exec_execute_ok.1 hexec
      exact hmoves.1 w.peers
    have hown : ∃ p ∈ t, (p.peerId, p.peerType) = (server, "HTTP") := by
      obtain rfl := exec_execute_ok.1 hexec
      exact (Table.exists_key_upsert (P := fun k => k = (server, "HTTP"))).2 (.inr rfl)
    refine ⟨⟨hservers.answered, hservers.online, hservers.known⟩, (hkeeps h.rows).1, h.discovery,
      fun s hs => hleft s (List.mem_cons_of_mem _ hs), fun s hs => ?_⟩
    obtain hmem | hlost | hrow := hrowed s hs
    · rcases List.mem_cons.1 hmem with rfl | hmem
      · exact .inr (.inr hown)
      · exact .inl hmem
    · exact .inr (.inl hlost)
    · exact .inr (.inr ((hkeeps h.rows).2 _ hrow))
  | @unrefreshed server left e t hphase now hexec =>
    rw [hphase] at htrack
    obtain ⟨hleft, hrowed⟩ := htrack
    obtain rfl := exec_execute_error.1 hexec
    refine ⟨⟨hservers.answered, fun s hs => (hservers.online s hs).imp_right (Finset.mem_insert_of_mem),
      hservers.known⟩, h.rows, h.discovery, fun s hs => hleft s (List.mem_cons_of_mem _ hs), fun s hs => ?_⟩
    obtain hmem | hlost | hrow := hrowed s hs
    · rcases List.mem_cons.1 hmem with rfl | hmem
      · exact .inr (.inl (Finset.mem_insert_self _ _))
      · exact .inl hmem
    · exact .inr (.inl (Finset.mem_insert_of_mem hlost))
    · exact .inr (.inr hrow)
  | refreshed hphase =>
    rw [hphase] at htrack
    refine ⟨⟨hservers.answered, hservers.online, hservers.known⟩, h.rows, h.discovery, fun s hs => ?_⟩
    exact (htrack.2 s hs).resolve_left List.not_mem_nil
  | discover hidle fetch now =>
    refine ⟨⟨hservers.answered, hservers.online, hservers.known⟩, h.rows, fun p hp => ?_, ?_⟩
    · obtain rfl := Option.some.inj hp
      exact keeps_discover fetch now
    · exact htrack.peers h.rows (refl_of KeepsPeers w.peers)
  | seedNode hrunning hnext =>
    obtain ⟨hkeeps, hrest⟩ := Moves.next (h.discovery _ hrunning) hnext
    refine ⟨⟨hservers.answered, hservers.online, hservers.known⟩, (hkeeps h.rows).1, fun p hp => ?_,
      htrack.peers h.rows hkeeps⟩
    obtain rfl := Option.some.inj hp
    exact hrest
  | discovered hrunning =>
    exact ⟨⟨hservers.answered, hservers.online, hservers.known⟩, h.rows,
      fun p hp => (Option.some_ne_none p hp.symm).elim, htrack.peers h.rows (refl_of KeepsPeers w.peers)⟩

theorem Monitor.holds_fresh : Monitor.fresh.Holds := by
  have hnobody : ∀ {P : String → Prop}, ∀ s ∈ (∅ : Finset String), P s := fun s hs =>
    (Finset.notMem_empty s hs).elim
  exact ⟨⟨Finset.Subset.refl _, hnobody, hnobody⟩, fun p hp => (List.not_mem_nil hp).elim,
    fun p hp => (Option.some_ne_none p hp.symm).elim, hnobody⟩

section FirstStart

/-- The table after the bootstrap. -/
def bootstrapped : PeerTable := ((seedBootstrapPeers .stored 1700000000).run.run .empty).2

/-- The first server answers. -/
def firstOnly (i : Nat) (_ : String) : Option Nat := if i = 0 then some 200 else none

/-- After the first check. -/
def checkedOnce : Monitor where
  peers := ((upsert 1700000005 "https://api1.aleph.im" "HTTP" "https://api1.aleph.im" "HTTP").run.run bootstrapped).2
  apiServers := updateServers (checkAll firstOnly bootstrapApiServers) ∅
  tidy := .waiting
  discovery := none
  answered := updateServers (checkAll firstOnly bootstrapApiServers) ∅
  lost := ∅ \ updateServers (checkAll firstOnly bootstrapApiServers) ∅

theorem updateServers_firstOnly : updateServers (checkAll firstOnly bootstrapApiServers) ∅ =
    {"https://api1.aleph.im"} := by decide +kernel

/-- The seeding, once it has begun. -/
theorem run_seeding {p : Prog PeerTable DbError (Except DbError Unit)} {r : Except DbError Unit}
    (hphase : w.tidy = .seeding p) (h : Exec p w.peers r t) :
    Relation.ReflTransGen Monitor.Step w { w with peers := t, tidy := .seeding (.pure r) } := by
  have hsteps : Relation.ReflTransGen Monitor.Step ({ w with peers := w.peers, tidy := .seeding p } : Monitor)
      { w with peers := t, tidy := .seeding (.pure r) } := by
    refine (h.nexts (G := fun _ => True) fun _ _ => trivial).lift
      (fun x : Prog PeerTable DbError (Except DbError Unit) × PeerTable =>
        ({ w with peers := x.2, tidy := .seeding x.1 } : Monitor)) ?_
    rintro x y ⟨hnext, -⟩
    exact Monitor.Step.seed rfl hnext
  rw [← hphase] at hsteps
  exact hsteps

theorem run_checkedOnce : Relation.ReflTransGen Monitor.Step .fresh checkedOnce := by
  have hread : Exec (getAddressesByType .stored "HTTP" none).run bootstrapped (.ok bootstrapApiServers)
      bootstrapped := exec_query_ok.2 ⟨by decide +kernel, rfl⟩
  have hleft : ∀ s, s ∈ ["https://api1.aleph.im"] ↔ s ∈ updateServers (checkAll firstOnly bootstrapApiServers) ∅ := by
    intro s
    rw [updateServers_firstOnly, Finset.mem_singleton, List.mem_singleton]
  refine .head (.start .stored 1700000000) (.trans (run_seeding rfl (exec_run _ _)) ?_)
  refine .head (.seeded rfl) (.head (.read rfl hread (List.cons_ne_nil _ _)) ?_)
  refine .head (.checked rfl firstOnly (List.nodup_singleton _) hleft) ?_
  exact .head (.refresh rfl 1700000005 (exec_execute_ok.2 rfl)) (.single (.refreshed rfl))

end FirstStart

end AlephCore.Peers
