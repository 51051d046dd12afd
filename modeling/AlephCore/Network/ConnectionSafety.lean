import AlephCore.Network.Connections

/-!
# ConnectionSafety — careful reconnections keep the two maps in step

What the state says about one peer is its `Link`.  Every action changes the link of one peer at most, and
in one of a few ways.  A link is `Fine` if it is at one of three points of a connection being made, or has
one connection of which all read loops, events and entries tell; careful actions keep every link fine.
-/

namespace AlephCore.Network

/-! ## One peer -/

/-- The map from which the handling of a disconnection removes next. -/
inductive Stage where
  | peer
  | connection
  deriving DecidableEq

/-- What the state says about one peer. -/
structure Link where
  peer : Option Nat
  connection : Option Nat
  readers : List Reader
  tasks : List Task
  gone : List Nat
  handled : Option (Stage × Nat)

/-- The event loop's handling of a disconnection of the peer. -/
def EventLoop.handled (peer : PeerId) : EventLoop → Option (Stage × Nat)
  | .removingPeer p newer => if p = peer then some (.peer, newer) else none
  | .removingConnection p newer => if p = peer then some (.connection, newer) else none
  | _ => none

/-- The link of a peer. -/
def World.link (w : World) (peer : PeerId) : Link where
  peer := (w.peers peer).map PeerInfo.connection
  connection := w.connections peer
  readers := w.readers peer
  tasks := tasksOf peer w.calls
  gone := disconnections peer w.queue
  handled := w.loop.handled peer

/-- The read loops and the queued disconnections are those of connection `g`, and there are some. -/
structure Tracks (g : Nat) (readers : List Reader) (gone : List Nat) : Prop where
  readers : ∀ r ∈ readers, r.connection = g
  gone : ∀ b ∈ gone, g < b

/-- A link without a connection being made: everything in it is about connection `g`. -/
structure Settled (g : Nat) (l : Link) : Prop where
  peer : ∀ x, l.peer = some x → x = g ∧ l.connection = some g
  connection : ∀ x, l.connection = some x → x = g
  tracks : Tracks g l.readers l.gone
  handled : ∀ s b, l.handled = some (s, b) → g < b
  tasks : ∀ t ∈ l.tasks, t.isConnect = false
  half : l.connection ≠ none → l.peer = none →
    .removingConnection ∈ l.tasks ∨ ∃ b, l.handled = some (.connection, b)
  tracked : l.connection ≠ none → l.readers ≠ [] ∨ l.gone ≠ [] ∨ l.handled ≠ none ∨ l.tasks ≠ []
  removing : .removingConnection ∈ l.tasks → l.peer = none
  removed : .announcingGone ∈ l.tasks → l.connection = none
  removingHandled : ∀ b, l.handled = some (.connection, b) → l.peer = none

/-- The links that careful actions lead to, before connection number `fresh` is made. -/
inductive Fine (fresh : Nat) : Link → Prop
  | connecting {address : String} : Fine fresh ⟨none, none, [], [.connecting address], [], none⟩
  | insertingPeer {g : Nat} {address : String} (hg : g < fresh) :
      Fine fresh ⟨none, none, [], [.insertingPeer g address], [], none⟩
  | insertingConnection {g : Nat} {readers : List Reader} {gone : List Nat} (hg : g < fresh)
      (h : Tracks g readers gone) (hne : readers ≠ [] ∨ gone ≠ []) :
      Fine fresh ⟨some g, none, readers, [.insertingConnection g], gone, none⟩
  | announcing {g : Nat} {readers : List Reader} {gone : List Nat} (hg : g < fresh)
      (h : Tracks g readers gone) (hne : readers ≠ [] ∨ gone ≠ []) :
      Fine fresh ⟨some g, some g, readers, [.announcing], gone, none⟩
  | settled {g : Nat} {l : Link} (hg : g < fresh) (h : Settled g l) : Fine fresh l

namespace Fine

variable {fresh : Nat} {l : Link}

theorem mono (h : Fine fresh l) : Fine (fresh + 1) l := by
  cases h with
  | connecting => exact .connecting
  | insertingPeer hg => exact .insertingPeer (by omega)
  | insertingConnection hg h hne => exact .insertingConnection (by omega) h hne
  | announcing hg h hne => exact .announcing (by omega) h hne
  | settled hg h => exact .settled (by omega) h

/-- Nothing is known of the peer. -/
theorem empty (hfresh : 0 < fresh) : Fine fresh ⟨none, none, [], [], [], none⟩ := by
  refine .settled hfresh ?_
  constructor <;> simp
  constructor <;> simp

/-- Where no connection is being made, the link is settled. -/
theorem settled_of (h : Fine fresh l) (ht : ∀ t ∈ l.tasks, t.isConnect = false) : ∃ g < fresh, Settled g l := by
  cases h with
  | settled hg h => exact ⟨_, hg, h⟩
  | connecting => exact absurd (ht _ (List.mem_singleton_self _)) (by simp [Task.isConnect])
  | insertingPeer hg => exact absurd (ht _ (List.mem_singleton_self _)) (by simp [Task.isConnect])
  | insertingConnection hg h hne => exact absurd (ht _ (List.mem_singleton_self _)) (by simp [Task.isConnect])
  | announcing hg h hne => exact absurd (ht _ (List.mem_singleton_self _)) (by simp [Task.isConnect])

/-- A connection being made is the only call about the peer. -/
theorem alone {l₁ l₂ : List Task} {t : Task} (h : Fine fresh l) (hl : l.tasks = l₁ ++ t :: l₂)
    (ht : t.isConnect = true) : l₁ = [] ∧ l₂ = [] ∧ l.handled = none := by
  have hone : ∀ t' : Task, [t'] = l₁ ++ t :: l₂ → l₁ = [] ∧ l₂ = [] := by
    intro t' heq
    cases l₁ with
    | nil => exact ⟨rfl, (List.cons.inj heq).2.symm⟩
    | cons a l₁ => simp at heq
  cases h with
  | settled hg h =>
    have hfalse := h.tasks t (by rw [hl]; simp)
    rw [ht] at hfalse
    exact absurd hfalse.symm Bool.false_ne_true
  | connecting => exact ⟨(hone _ hl).1, (hone _ hl).2, rfl⟩
  | insertingPeer hg => exact ⟨(hone _ hl).1, (hone _ hl).2, rfl⟩
  | insertingConnection hg h hne => exact ⟨(hone _ hl).1, (hone _ hl).2, rfl⟩
  | announcing hg h hne => exact ⟨(hone _ hl).1, (hone _ hl).2, rfl⟩

/-! ### Making a connection -/

section Making

variable {l₁ l₂ : List Task} {address : String} {g : Nat}

/-- If all earlier connections are over, nothing is left of them. -/
theorem beginConnect (h : Fine fresh l) (htasks : l.tasks = []) (hhandled : l.handled = none)
    (hreaders : l.readers = []) (hgone : l.gone = []) :
    Fine fresh { l with tasks := l.tasks ++ [.connecting address] } := by
  obtain ⟨g, -, hs⟩ := h.settled_of (by rw [htasks]; simp)
  have hconnection : l.connection = none := by
    by_contra hne
    rcases hs.tracked hne with h | h | h | h
    · exact h hreaders
    · exact h hgone
    · exact h hhandled
    · exact h htasks
  have hpeer : l.peer = none := by
    by_contra hne
    obtain ⟨x, hx⟩ := Option.ne_none_iff_exists'.1 hne
    have hsome := (hs.peer x hx).2
    rw [hconnection] at hsome
    exact Option.some_ne_none g hsome.symm
  obtain ⟨peer, connection, readers, tasks, gone, handled⟩ := l
  dsimp only at htasks hhandled hreaders hgone hconnection hpeer
  subst htasks hhandled hreaders hgone hconnection hpeer
  exact .connecting

theorem unreached (h : Fine fresh l) (hl : l.tasks = l₁ ++ .connecting address :: l₂) (hfresh : 0 < fresh) :
    Fine fresh { l with tasks := l₁ ++ l₂ } := by
  obtain ⟨rfl, rfl, -⟩ := h.alone hl rfl
  cases h with
  | connecting => exact .empty hfresh
  | insertingPeer hg => simp at hl
  | insertingConnection hg h hne => simp at hl
  | announcing hg h hne => simp at hl
  | settled hg h => exact absurd (h.tasks (.connecting address) (by rw [hl]; simp)) (by simp [Task.isConnect])

theorem reached (h : Fine fresh l) (hl : l.tasks = l₁ ++ .connecting address :: l₂) :
    Fine (fresh + 1) { l with tasks := l₁ ++ .insertingPeer fresh address :: l₂ } := by
  obtain ⟨rfl, rfl, -⟩ := h.alone hl rfl
  cases h with
  | connecting => exact .insertingPeer (by omega)
  | insertingPeer hg => simp at hl
  | insertingConnection hg h hne => simp at hl
  | announcing hg h hne => simp at hl
  | settled hg h => exact absurd (h.tasks (.connecting address) (by rw [hl]; simp)) (by simp [Task.isConnect])

theorem insertPeer (h : Fine fresh l) (hl : l.tasks = l₁ ++ .insertingPeer g address :: l₂) :
    Fine fresh { l with
      peer := some g, readers := l.readers ++ [⟨g, true⟩], tasks := l₁ ++ .insertingConnection g :: l₂ } := by
  obtain ⟨rfl, rfl, -⟩ := h.alone hl rfl
  cases h with
  | insertingPeer hg =>
    obtain ⟨rfl, rfl⟩ : _ ∧ _ := by simpa using hl
    exact .insertingConnection hg ⟨by simp, by simp⟩ (.inl (by simp))
  | connecting => simp at hl
  | insertingConnection hg h hne => simp at hl
  | announcing hg h hne => simp at hl
  | settled hg h =>
    exact absurd (h.tasks (.insertingPeer g address) (by rw [hl]; simp)) (by simp [Task.isConnect])

theorem insertConnection (h : Fine fresh l) (hl : l.tasks = l₁ ++ .insertingConnection g :: l₂) :
    Fine fresh { l with connection := some g, tasks := l₁ ++ .announcing :: l₂ } := by
  obtain ⟨rfl, rfl, -⟩ := h.alone hl rfl
  cases h with
  | insertingConnection hg h hne =>
    obtain rfl : _ = g := by simpa using hl
    exact .announcing hg h hne
  | connecting => simp at hl
  | insertingPeer hg => simp at hl
  | announcing hg h hne => simp at hl
  | settled hg h =>
    exact absurd (h.tasks (.insertingConnection g) (by rw [hl]; simp)) (by simp [Task.isConnect])

theorem announced (h : Fine fresh l) (hl : l.tasks = l₁ ++ .announcing :: l₂) :
    Fine fresh { l with tasks := l₁ ++ l₂ } := by
  obtain ⟨rfl, rfl, -⟩ := h.alone hl rfl
  cases h with
  | @announcing g readers gone hg h hne =>
    refine .settled hg ⟨?_, ?_, h, ?_, ?_, ?_, ?_, ?_, ?_, ?_⟩
    · rintro x ⟨⟩
      exact ⟨rfl, rfl⟩
    · rintro x ⟨⟩
      rfl
    · rintro s b ⟨⟩
    · exact fun t ht => absurd ht List.not_mem_nil
    · exact fun _ hnone => absurd hnone (Option.some_ne_none g)
    · exact fun _ => hne.imp_right .inl
    · exact fun ht => absurd ht List.not_mem_nil
    · exact fun ht => absurd ht List.not_mem_nil
    · rintro b ⟨⟩
  | connecting => simp at hl
  | insertingPeer hg => simp at hl
  | insertingConnection hg h hne => simp at hl
  | settled hg h => exact absurd (h.tasks .announcing (by rw [hl]; simp)) (by simp [Task.isConnect])

end Making

/-! ### Removing it -/

section Removing

variable {l₁ l₂ : List Task} {b : Nat}

theorem beginDisconnect (h : Fine fresh l) (ht : ∀ t ∈ l.tasks, t.isConnect = false) :
    Fine fresh { l with tasks := l.tasks ++ [.removingPeer] } := by
  obtain ⟨g, hg, hs⟩ := h.settled_of ht
  refine .settled hg ⟨hs.peer, hs.connection, hs.tracks, hs.handled, ?_, ?_, ?_, ?_, ?_, hs.removingHandled⟩
  · intro t ht'
    rcases List.mem_append.1 ht' with ht' | ht'
    · exact ht t ht'
    · rw [List.mem_singleton.1 ht']
      rfl
  · exact fun hc hp => (hs.half hc hp).imp_left (List.mem_append_left _)
  · exact fun hc => .inr (.inr (.inr (by simp)))
  · intro ht'
    refine hs.removing ?_
    simpa using ht'
  · intro ht'
    refine hs.removed ?_
    simpa using ht'

/-- A removal in progress is one of a settled link. -/
theorem settled_of_removal (h : Fine fresh l) {t : Task} (hl : l.tasks = l₁ ++ t :: l₂) (ht : t.isConnect = false) :
    ∃ g < fresh, Settled g l := by
  refine h.settled_of fun t' ht' => ?_
  by_contra hconnect
  obtain ⟨a, b, hab⟩ := List.append_of_mem ht'
  obtain ⟨rfl, rfl, -⟩ := h.alone hab (by simpa using hconnect)
  rw [hl] at hab
  have hlen := congrArg List.length hab
  simp only [List.length_append, List.length_cons, List.length_nil] at hlen
  obtain rfl : l₁ = [] := List.length_eq_zero_iff.1 (by omega)
  obtain ⟨rfl, -⟩ := List.cons.inj hab
  exact hconnect ht

theorem removePeer (h : Fine fresh l) (hl : l.tasks = l₁ ++ .removingPeer :: l₂) :
    Fine fresh { l with peer := none, tasks := l₁ ++ .removingConnection :: l₂ } := by
  obtain ⟨g, hg, hs⟩ := h.settled_of_removal hl rfl
  have hold : ∀ t ∈ l₁ ++ l₂, t ∈ l.tasks := by
    intro t ht
    rw [hl]
    simp only [List.mem_append, List.mem_cons] at ht ⊢
    exact ht.imp_right .inr
  refine .settled hg ⟨?_, hs.connection, hs.tracks, hs.handled, ?_, ?_, ?_, ?_, ?_, ?_⟩
  · rintro x ⟨⟩
  · intro t ht
    rcases List.mem_append.1 ht with ht | ht
    · exact hs.tasks t (hold t (List.mem_append_left _ ht))
    · rcases List.mem_cons.1 ht with rfl | ht
      · rfl
      · exact hs.tasks t (hold t (List.mem_append_right _ ht))
  · exact fun _ _ => .inl (by simp)
  · exact fun _ => .inr (.inr (.inr (by simp)))
  · exact fun _ => rfl
  · intro ht
    refine hs.removed (hold _ ?_)
    simpa using ht
  · exact fun _ _ => rfl

theorem removeConnection (h : Fine fresh l) (hl : l.tasks = l₁ ++ .removingConnection :: l₂) :
    Fine fresh { l with connection := none, tasks := l₁ ++ .announcingGone :: l₂ } := by
  obtain ⟨g, hg, hs⟩ := h.settled_of_removal hl rfl
  have hpeer : l.peer = none := hs.removing (by rw [hl]; simp)
  refine .settled hg ⟨?_, ?_, hs.tracks, hs.handled, ?_, ?_, ?_, ?_, ?_, ?_⟩
  · intro x hx
    exact absurd (hpeer.symm.trans hx) (Option.some_ne_none x).symm
  · rintro x ⟨⟩
  · intro t ht
    rcases List.mem_append.1 ht with ht | ht
    · exact hs.tasks t (by rw [hl]; exact List.mem_append_left _ ht)
    · rcases List.mem_cons.1 ht with rfl | ht
      · rfl
      · exact hs.tasks t (by rw [hl]; exact List.mem_append_right _ (List.mem_cons_of_mem _ ht))
  · exact fun hc => absurd rfl hc
  · exact fun hc => absurd rfl hc
  · exact fun _ => hpeer
  · exact fun _ => rfl
  · exact fun _ _ => hpeer

theorem announcedGone (h : Fine fresh l) (hl : l.tasks = l₁ ++ .announcingGone :: l₂) :
    Fine fresh { l with gone := l.gone ++ [fresh], tasks := l₁ ++ l₂ } := by
  obtain ⟨g, hg, hs⟩ := h.settled_of_removal hl rfl
  have hconnection : l.connection = none := hs.removed (by rw [hl]; simp)
  have hold : ∀ t ∈ l₁ ++ l₂, t ∈ l.tasks := by
    intro t ht
    rw [hl]
    simp only [List.mem_append, List.mem_cons] at ht ⊢
    exact ht.imp_right .inr
  refine .settled hg ⟨hs.peer, hs.connection, ⟨hs.tracks.readers, ?_⟩, hs.handled, fun t ht => hs.tasks t (hold t ht),
    ?_, ?_, fun ht => hs.removing (hold _ ht), fun ht => hs.removed (hold _ ht), hs.removingHandled⟩
  · intro b hb
    rcases List.mem_append.1 hb with hb | hb
    · exact hs.tracks.gone b hb
    · rw [List.mem_singleton.1 hb]
      exact hg
  · exact fun hc => absurd hconnection hc
  · exact fun hc => absurd hconnection hc

/-- The event loop takes up a disconnection, no call being in progress. -/
theorem pop {gone : List Nat} (h : Fine fresh l) (htasks : l.tasks = []) (hhandled : l.handled = none)
    (hgone : l.gone = b :: gone) : Fine fresh { l with gone := gone, handled := some (.peer, b) } := by
  obtain ⟨g, hg, hs⟩ := h.settled_of (by rw [htasks]; simp)
  refine .settled hg ⟨hs.peer, hs.connection, ⟨hs.tracks.readers, ?_⟩, ?_, hs.tasks, ?_, ?_, hs.removing, hs.removed,
    ?_⟩
  · intro b' hb'
    refine hs.tracks.gone b' ?_
    rw [hgone]
    exact List.mem_cons_of_mem _ hb'
  · rintro s b' ⟨⟩
    refine hs.tracks.gone b ?_
    rw [hgone]
    exact List.mem_cons_self
  · intro hc hp
    rcases hs.half hc hp with ht | ⟨b', hb'⟩
    · exact .inl ht
    · rw [hhandled] at hb'
      exact absurd hb'.symm (Option.some_ne_none _)
  · exact fun _ => .inr (.inr (.inl (Option.some_ne_none _)))
  · rintro b' ⟨⟩

/-- A link whose disconnection is handled is settled. -/
theorem settled_of_handled {s : Stage} (h : Fine fresh l) (hhandled : l.handled = some (s, b)) :
    ∃ g < fresh, Settled g l := by
  refine h.settled_of fun t ht => ?_
  by_contra hconnect
  obtain ⟨l₁, l₂, hl⟩ := List.append_of_mem ht
  obtain ⟨-, -, hnone⟩ := h.alone hl (by simpa using hconnect)
  rw [hnone] at hhandled
  exact Option.some_ne_none _ hhandled.symm

theorem handlePeer (h : Fine fresh l) (hhandled : l.handled = some (.peer, b)) :
    Fine fresh { l with peer := none, handled := some (.connection, b) } := by
  obtain ⟨g, hg, hs⟩ := h.settled_of_handled hhandled
  refine .settled hg ⟨?_, hs.connection, hs.tracks, ?_, hs.tasks, ?_, ?_, fun _ => rfl, hs.removed, fun _ _ => rfl⟩
  · rintro x ⟨⟩
  · rintro s b' ⟨⟩
    exact hs.handled _ b hhandled
  · exact fun _ _ => .inr ⟨b, rfl⟩
  · exact fun _ => .inr (.inr (.inl (Option.some_ne_none _)))

theorem handleConnection (h : Fine fresh l) (hhandled : l.handled = some (.connection, b)) :
    Fine fresh { l with connection := none, handled := none } := by
  obtain ⟨g, hg, hs⟩ := h.settled_of_handled hhandled
  have hpeer : l.peer = none := hs.removingHandled b hhandled
  refine .settled hg ⟨?_, ?_, hs.tracks, ?_, hs.tasks, ?_, ?_, fun _ => hpeer, fun _ => rfl, fun _ _ => hpeer⟩
  · intro x hx
    exact absurd (hpeer.symm.trans hx) (Option.some_ne_none x).symm
  · rintro x ⟨⟩
  · rintro s b' ⟨⟩
  · exact fun hc => absurd rfl hc
  · exact fun hc => absurd rfl hc

end Removing

/-! ### Its read loop -/

section Reading

/-- The read loops and the queued disconnections change, but are still those of the connection. -/
theorem retrack (h : Fine fresh l) {readers : List Reader} {gone : List Nat}
    (htracks : ∀ g, Tracks g l.readers l.gone → Tracks g readers gone)
    (hne : l.readers ≠ [] ∨ l.gone ≠ [] ↔ readers ≠ [] ∨ gone ≠ []) :
    Fine fresh { l with readers := readers, gone := gone } := by
  have hempty : l.readers = [] → l.gone = [] → readers = [] ∧ gone = [] := by
    intro hr hg
    by_contra hnot
    have hsome : readers ≠ [] ∨ gone ≠ [] := by
      by_contra hnone
      push Not at hnone
      exact hnot hnone
    rcases hne.2 hsome with h | h
    · exact h hr
    · exact h hg
  cases h with
  | connecting =>
    obtain ⟨rfl, rfl⟩ := hempty rfl rfl
    exact .connecting
  | insertingPeer hg =>
    obtain ⟨rfl, rfl⟩ := hempty rfl rfl
    exact .insertingPeer hg
  | insertingConnection hg h hsome => exact .insertingConnection hg (htracks _ h) (hne.1 hsome)
  | announcing hg h hsome => exact .announcing hg (htracks _ h) (hne.1 hsome)
  | settled hg hs =>
    refine .settled hg ⟨hs.peer, hs.connection, htracks _ hs.tracks, hs.handled, hs.tasks, hs.half, ?_, hs.removing,
      hs.removed, hs.removingHandled⟩
    intro hc
    rcases hs.tracked hc with h | h | h
    · exact (or_assoc.1 (.inl (hne.1 (.inl h))))
    · exact (or_assoc.1 (.inl (hne.1 (.inr h))))
    · exact .inr (.inr h)

theorem close (h : Fine fresh l) (c : Nat) :
    Fine fresh { l with readers := l.readers.map fun r => if r.connection = c then ⟨c, false⟩ else r } := by
  refine h.retrack (fun g htracks => ⟨fun r hr => ?_, htracks.gone⟩) ?_
  · obtain ⟨r', hr', rfl⟩ := List.mem_map.1 hr
    have hg := htracks.readers r' hr'
    split_ifs with hc
    · exact hc.symm.trans hg
    · exact hg
  · simp only [ne_eq, List.map_eq_nil_iff]

theorem report (h : Fine fresh l) {r : Reader} (hr : r ∈ l.readers) :
    Fine fresh { l with readers := l.readers.erase r, gone := l.gone ++ [r.connection + 1] } := by
  refine h.retrack (fun g htracks => ⟨fun r' hr' => htracks.readers r' (List.mem_of_mem_erase hr'), fun b hb => ?_⟩) ?_
  · rcases List.mem_append.1 hb with hb | hb
    · exact htracks.gone b hb
    · rw [List.mem_singleton.1 hb, htracks.readers r hr]
      omega
  · constructor
    · exact fun _ => .inr (by simp)
    · exact fun _ => .inl (List.ne_nil_of_mem hr)

end Reading

end Fine

/-! ## All peers -/

theorem tasksOf_append (peer : PeerId) (c₁ c₂ : List (PeerId × Task)) :
    tasksOf peer (c₁ ++ c₂) = tasksOf peer c₁ ++ tasksOf peer c₂ := List.filterMap_append

theorem tasksOf_cons_self (peer : PeerId) (task : Task) (c : List (PeerId × Task)) :
    tasksOf peer ((peer, task) :: c) = task :: tasksOf peer c :=
  List.filterMap_cons_some (if_pos rfl)

theorem tasksOf_cons_of_ne {peer peer' : PeerId} (h : peer' ≠ peer) (task : Task) (c : List (PeerId × Task)) :
    tasksOf peer ((peer', task) :: c) = tasksOf peer c :=
  List.filterMap_cons_none (if_neg h)

theorem disconnections_append (peer : PeerId) (q₁ q₂ : List Queued) :
    disconnections peer (q₁ ++ q₂) = disconnections peer q₁ ++ disconnections peer q₂ := List.filterMap_append

/-- What the connections of the service come to under careful actions. -/
structure Inv (w : World) : Prop where
  fine : ∀ peer, Fine w.fresh (w.link peer)
  fresh_pos : 0 < w.fresh
  waiting : w.loop = .waiting → w.calls = []
  notDropped : w.droppedNewer = false

theorem Inv.init : Inv .init where
  fine _ := .empty Nat.one_pos
  fresh_pos := Nat.one_pos
  waiting _ := rfl
  notDropped := rfl

section Steps

variable {w w' : World}

/-- The parts a link is made of. -/
theorem link_congr {peer : PeerId} (hpeers : w'.peers peer = w.peers peer)
    (hconnections : w'.connections peer = w.connections peer) (hreaders : w'.readers peer = w.readers peer)
    (htasks : tasksOf peer w'.calls = tasksOf peer w.calls)
    (hgone : disconnections peer w'.queue = disconnections peer w.queue)
    (hhandled : w'.loop.handled peer = w.loop.handled peer) : w'.link peer = w.link peer := by
  unfold World.link
  rw [hpeers, hconnections, hreaders, htasks, hgone, hhandled]

/-- The calls before and behind the `k`-th one. -/
theorem calls_of_getElem? {k : Nat} {call : PeerId × Task} (h : w.calls[k]? = some call) :
    ∃ c₁ c₂, w.calls = c₁ ++ call :: c₂ ∧ (∀ call', w.calls.set k call' = c₁ ++ call' :: c₂) ∧
      w.calls.eraseIdx k = c₁ ++ c₂ := by
  obtain ⟨hk, hget⟩ := List.getElem?_eq_some_iff.1 h
  refine ⟨w.calls.take k, w.calls.drop (k + 1), ?_, fun call' => List.set_eq_take_append_cons_drop .. |>.trans
    (if_pos hk), List.eraseIdx_eq_take_drop_succ ..⟩
  rw [← hget, ← List.drop_eq_getElem_cons hk, List.take_append_drop]

/-- An action is about one peer. -/
theorem Inv.fine_update (h : Inv w) (peer : PeerId) (hfresh : w'.fresh = w.fresh ∨ w'.fresh = w.fresh + 1)
    (hself : Fine w'.fresh (w'.link peer)) (hother : ∀ p, peer ≠ p → w'.link p = w.link p) (p : PeerId) :
    Fine w'.fresh (w'.link p) := by
  by_cases hp : peer = p
  · exact hp ▸ hself
  · rw [hother p hp]
    rcases hfresh with hfresh | hfresh
    · exact hfresh ▸ h.fine p
    · exact hfresh ▸ (h.fine p).mono

theorem Inv.begin (h : Inv w) {peer : PeerId} {task : Task} (hs : w.begin peer task = some w')
    (hfine : Fine w.fresh { w.link peer with tasks := tasksOf peer w.calls ++ [task] }) : Inv w' := by
  unfold World.begin at hs
  split_ifs at hs with hloop
  obtain rfl := Option.some.inj hs
  refine ⟨h.fine_update peer (.inl rfl) ?_ fun p hp => ?_, h.fresh_pos, fun hwaiting => absurd hwaiting hloop,
    h.notDropped⟩
  · unfold World.link
    dsimp only
    rw [tasksOf_append, tasksOf_cons_self]
    exact hfine
  · refine link_congr rfl rfl rfl ?_ rfl rfl
    rw [tasksOf_append, tasksOf_cons_of_ne hp]
    exact List.append_nil _

/-- A call goes on at another point, and changes what belongs to its peer. -/
theorem Inv.setTask (h : Inv w) {k : Nat} {peer : PeerId} {task task' : Task}
    (hk : w.calls[k]? = some (peer, task)) (hw' : w'.calls = w.calls.set k (peer, task'))
    (hqueue : w'.queue = w.queue) (hloop : w'.loop = w.loop) (hdropped : w'.droppedNewer = w.droppedNewer)
    (hfresh : w'.fresh = w.fresh ∨ w'.fresh = w.fresh + 1)
    (hother : ∀ p, peer ≠ p → w'.peers p = w.peers p ∧ w'.connections p = w.connections p ∧
      w'.readers p = w.readers p)
    (hself : ∀ l₁ l₂, (w.link peer).tasks = l₁ ++ task :: l₂ → Fine w'.fresh
      ⟨(w'.peers peer).map PeerInfo.connection, w'.connections peer, w'.readers peer, l₁ ++ task' :: l₂,
        (w.link peer).gone, (w.link peer).handled⟩) : Inv w' := by
  obtain ⟨c₁, c₂, hcalls, hset, -⟩ := calls_of_getElem? hk
  refine ⟨h.fine_update peer hfresh ?_ fun p hp => ?_, ?_, fun hwaiting => ?_, hdropped.trans h.notDropped⟩
  · have htasks : tasksOf peer w.calls = tasksOf peer c₁ ++ task :: tasksOf peer c₂ := by
      rw [hcalls, tasksOf_append, tasksOf_cons_self]
    have hfine := hself _ _ htasks
    unfold World.link
    rw [hw', hset, tasksOf_append, tasksOf_cons_self, hqueue, hloop]
    exact hfine
  · obtain ⟨hpeers, hconnections, hreaders⟩ := hother p hp
    refine link_congr hpeers hconnections hreaders ?_ (by rw [hqueue]) (by rw [hloop])
    rw [hw', hset, hcalls, tasksOf_append, tasksOf_append, tasksOf_cons_of_ne hp, tasksOf_cons_of_ne hp]
  · have hpos := h.fresh_pos
    omega
  · rw [hloop] at hwaiting
    rw [h.waiting hwaiting] at hk
    exact absurd hk.symm (Option.some_ne_none _)

/-- A call returns, having queued an event about its peer or none. -/
theorem Inv.finish (h : Inv w) (events : List Queued) {k : Nat} {peer : PeerId} {task : Task}
    (hk : w.calls[k]? = some (peer, task))
    (hevents : ∀ p, peer ≠ p → disconnections p events = [])
    (hself : ∀ l₁ l₂, (w.link peer).tasks = l₁ ++ task :: l₂ → Fine w.fresh
      { w.link peer with tasks := l₁ ++ l₂, gone := (w.link peer).gone ++ disconnections peer events }) :
    Inv { w with calls := w.calls.eraseIdx k, queue := w.queue ++ events } := by
  obtain ⟨c₁, c₂, hcalls, -, herase⟩ := calls_of_getElem? hk
  refine ⟨h.fine_update peer (.inl rfl) ?_ fun p hp => ?_, h.fresh_pos, fun hwaiting => ?_, h.notDropped⟩
  · have htasks : tasksOf peer w.calls = tasksOf peer c₁ ++ task :: tasksOf peer c₂ := by
      rw [hcalls, tasksOf_append, tasksOf_cons_self]
    have hfine := hself _ _ htasks
    unfold World.link
    dsimp only
    rw [herase, tasksOf_append, disconnections_append]
    exact hfine
  · refine link_congr rfl rfl rfl ?_ ?_ rfl
    · rw [herase, hcalls, tasksOf_append, tasksOf_append, tasksOf_cons_of_ne hp]
    · rw [disconnections_append, hevents p hp, List.append_nil]
  · rw [h.waiting hwaiting] at hk
    exact absurd hk.symm (Option.some_ne_none _)

/-! ### The actions -/

theorem send_eq {event : NetworkEvent} {newer : Nat} (h : w.send event newer = some w') :
    w' = { w with queue := w.queue ++ [Queued.mk event newer] } := by
  unfold World.send at h
  split_ifs at h
  exact (Option.some.inj h).symm

theorem disconnections_self (peer : PeerId) (newer : Nat) :
    disconnections peer [Queued.mk (.peerDisconnected peer) newer] = [newer] :=
  List.filterMap_cons_some (if_pos rfl)

theorem disconnections_of_ne {p peer : PeerId} (h : peer ≠ p) (newer : Nat) :
    disconnections p [Queued.mk (.peerDisconnected peer) newer] = [] :=
  List.filterMap_cons_none (if_neg h)

theorem handled_eq_none {loop : EventLoop} {peer : PeerId} (h : loop.disconnects peer = false) :
    loop.handled peer = none := by
  cases loop with
  | idle => rfl
  | waiting => rfl
  | removingPeer p newer => exact if_neg (of_decide_eq_false h)
  | removingConnection p newer => exact if_neg (of_decide_eq_false h)
  | countingMessage p => rfl

/-- Both maps and the read loops of the other peers are untouched. -/
theorem update_other {α : Type} {p peer : PeerId} (h : peer ≠ p) (f : PeerId → α) (x : α) :
    Function.update f peer x p = f p := Function.update_of_ne (Ne.symm h) x f

theorem Inv.advance (h : Inv w) {k : Nat} {peer : PeerId} {task : Task} {reached : Bool}
    (hk : w.calls[k]? = some (peer, task)) (hs : w.advance k peer reached task = some w') : Inv w' := by
  cases task with
  | connecting address =>
    obtain rfl := Option.some.inj hs
    by_cases hreached : reached = true
    · rw [if_pos hreached]
      exact h.setTask hk rfl rfl rfl rfl (.inr rfl) (fun _ _ => ⟨rfl, rfl, rfl⟩) fun _ _ hl => (h.fine peer).reached hl
    · rw [if_neg hreached]
      have hfinished := h.finish [] hk (fun _ _ => rfl) fun l₁ l₂ hl => by
        rw [show disconnections peer [] = [] from rfl, List.append_nil]
        exact (h.fine peer).unreached hl h.fresh_pos
      rw [List.append_nil] at hfinished
      exact hfinished
  | insertingPeer connection address =>
    obtain rfl := Option.some.inj hs
    refine h.setTask hk rfl rfl rfl rfl (.inl rfl)
      (fun p hp => ⟨update_other hp _ _, rfl, update_other hp _ _⟩) fun l₁ l₂ hl => ?_
    have hfine := (h.fine peer).insertPeer hl
    simp only [World.setTask, Function.update_self]
    exact hfine
  | insertingConnection connection =>
    obtain rfl := Option.some.inj hs
    refine h.setTask hk rfl rfl rfl rfl (.inl rfl) (fun p hp => ⟨rfl, update_other hp _ _, rfl⟩) fun l₁ l₂ hl => ?_
    have hfine := (h.fine peer).insertConnection hl
    simp only [World.setTask, Function.update_self]
    exact hfine
  | announcing =>
    obtain ⟨w₁, hsent, rfl⟩ := Option.map_eq_some_iff.1 hs
    rw [send_eq hsent]
    refine h.finish [Queued.mk (.peerConnected peer) w.fresh] hk (fun _ _ => rfl) fun l₁ l₂ hl => ?_
    rw [show disconnections peer [Queued.mk (.peerConnected peer) w.fresh] = [] from rfl, List.append_nil]
    exact (h.fine peer).announced hl
  | removingPeer =>
    obtain rfl := Option.some.inj hs
    refine h.setTask hk rfl rfl rfl rfl (.inl rfl) (fun p hp => ⟨update_other hp _ _, rfl, rfl⟩) fun l₁ l₂ hl => ?_
    have hfine := (h.fine peer).removePeer hl
    simp only [World.setTask, Function.update_self]
    exact hfine
  | removingConnection =>
    obtain rfl := Option.some.inj hs
    refine h.setTask hk rfl rfl rfl rfl (.inl rfl) (fun p hp => ⟨rfl, update_other hp _ _, rfl⟩) fun l₁ l₂ hl => ?_
    have hfine := (h.fine peer).removeConnection hl
    simp only [World.setTask, Function.update_self]
    exact hfine
  | announcingGone =>
    obtain ⟨w₁, hsent, rfl⟩ := Option.map_eq_some_iff.1 hs
    rw [send_eq hsent]
    refine h.finish [Queued.mk (.peerDisconnected peer) w.fresh] hk (fun _ hp => disconnections_of_ne hp _)
      fun l₁ l₂ hl => ?_
    rw [disconnections_self]
    exact (h.fine peer).announcedGone hl

theorem Inv.close (h : Inv w) (peer : PeerId) (connection : Nat) (hs : w.step (.close peer connection) = some w') :
    Inv w' := by
  simp only [World.step] at hs
  split_ifs at hs with hopen
  obtain rfl := Option.some.inj hs
  refine ⟨h.fine_update peer (.inl rfl) ?_ fun p hp => ?_, h.fresh_pos, h.waiting, h.notDropped⟩
  · have hfine := (h.fine peer).close connection
    unfold World.link
    simp only [Function.update_self]
    exact hfine
  · exact link_congr rfl rfl (update_other hp _ _) rfl rfl rfl

theorem Inv.report (h : Inv w) (peer : PeerId) (connection : Nat) (hs : w.step (.report peer connection) = some w') :
    Inv w' := by
  simp only [World.step] at hs
  split_ifs at hs with hclosed
  rw [send_eq hs]
  refine ⟨h.fine_update peer (.inl rfl) ?_ fun p hp => ?_, h.fresh_pos, h.waiting, h.notDropped⟩
  · have hfine := (h.fine peer).report hclosed
    unfold World.link
    simp only [Function.update_self, disconnections_append, disconnections_self]
    exact hfine
  · refine link_congr rfl rfl (update_other hp _ _) rfl ?_ rfl
    dsimp only
    rw [disconnections_append, disconnections_of_ne hp, List.append_nil]

theorem Inv.receive (h : Inv w) (peer : PeerId) (connection : Nat) (message : Message)
    (hs : w.step (.receive peer connection message) = some w') : Inv w' := by
  simp only [World.step] at hs
  split_ifs at hs with hopen
  rw [send_eq hs]
  have hlink : ∀ p, World.link { w with
      queue := w.queue ++ [Queued.mk (.messageReceived peer message) (connection + 1)] } p = w.link p := fun p => by
    refine link_congr rfl rfl rfl rfl ?_ rfl
    dsimp only
    rw [disconnections_append, show disconnections p [Queued.mk (.messageReceived peer message) _] = [] from rfl,
      List.append_nil]
  exact ⟨fun p => (hlink p).symm ▸ h.fine p, h.fresh_pos, h.waiting, h.notDropped⟩

/-! ### The event loop -/

theorem newerAndOpen_eq_false {peer : PeerId} {newer : Nat} {connection : Option Nat}
    (h : ∀ c, connection = some c → c < newer) : w.newerAndOpen peer newer connection = false := by
  cases connection with
  | none => rfl
  | some c =>
    have hc := h c rfl
    simp only [World.newerAndOpen, Option.any_some, Bool.and_eq_false_imp, decide_eq_true_eq]
    omega

theorem Inv.lock (h : Inv w) (hs : w.step .lock = some w') : Inv w' := by
  simp only [World.step] at hs
  split_ifs at hs with hfree
  obtain rfl := Option.some.inj hs
  have hlink : ∀ p, World.link { w with loop := .waiting } p = w.link p := fun p =>
    link_congr rfl rfl rfl rfl rfl (by rw [hfree.1]; rfl)
  exact ⟨fun p => (hlink p).symm ▸ h.fine p, h.fresh_pos, fun _ => hfree.2, h.notDropped⟩

/-- The event loop takes up an event that is no disconnection of the peer. -/
theorem link_take {e : Queued} {queue : List Queued} {peer : PeerId} (hloop : w.loop = .waiting)
    (hqueue : w.queue = e :: queue) (hevent : disconnections peer [e] = [])
    (hhandled : (World.handling e.newer e.event).handled peer = none) :
    World.link { w with queue, loop := World.handling e.newer e.event } peer = w.link peer := by
  refine link_congr rfl rfl rfl rfl ?_ ?_
  · rw [hqueue]
    calc
      disconnections peer queue = disconnections peer [e] ++ disconnections peer queue := by rw [hevent, List.nil_append]
      _ = disconnections peer (e :: queue) := (disconnections_append peer [e] queue).symm
  · rw [hhandled, hloop]
    rfl

theorem Inv.take (h : Inv w) {e : Queued} {queue : List Queued} (hloop : w.loop = .waiting)
    (hqueue : w.queue = e :: queue) : Inv { w with queue, loop := World.handling e.newer e.event } := by
  have hcalls : w.calls = [] := h.waiting hloop
  obtain ⟨event, newer⟩ := e
  refine ⟨?_, h.fresh_pos, fun _ => hcalls, h.notDropped⟩
  cases event with
  | peerDisconnected peer =>
    refine h.fine_update peer (.inl rfl) ?_ fun p hp => ?_
    · have htasks : (w.link peer).tasks = [] := by
        unfold World.link
        rw [hcalls]
        rfl
      have hhandled : (w.link peer).handled = none := by
        unfold World.link
        rw [hloop]
        rfl
      have hgone : (w.link peer).gone = newer :: disconnections peer queue := by
        unfold World.link
        dsimp only
        rw [hqueue]
        exact List.filterMap_cons_some (if_pos rfl)
      have hfine := (h.fine peer).pop htasks hhandled hgone
      unfold World.link
      rw [show (World.handling newer (.peerDisconnected peer)).handled peer = some (.peer, newer) from if_pos rfl]
      exact hfine
    · exact link_take hloop hqueue (disconnections_of_ne hp newer) (if_neg hp)
  | peerConnected p => exact fun p => (link_take hloop hqueue rfl rfl).symm ▸ h.fine p
  | messageReceived p m => exact fun p => (link_take hloop hqueue rfl rfl).symm ▸ h.fine p
  | syncRequest p hashes => exact fun p => (link_take hloop hqueue rfl rfl).symm ▸ h.fine p

/-- The handling of a disconnection removes the peer's information, which is not newer. -/
theorem Inv.dropPeer (h : Inv w) {peer : PeerId} {newer : Nat} (hloop : w.loop = .removingPeer peer newer)
    (hs : w.eventLoop = some w') : Inv w' := by
  unfold World.eventLoop at hs
  rw [hloop] at hs
  obtain rfl := Option.some.inj hs
  have hhandled : (w.link peer).handled = some (.peer, newer) := by
    unfold World.link
    rw [hloop]
    exact if_pos rfl
  refine ⟨h.fine_update peer (.inl rfl) ?_ fun p hp => ?_, h.fresh_pos, fun hwaiting => ?_, ?_⟩
  · have hfine := (h.fine peer).handlePeer hhandled
    unfold World.link
    rw [show (EventLoop.removingConnection peer newer).handled peer = some (.connection, newer) from if_pos rfl]
    simp only [Function.update_self]
    exact hfine
  · refine link_congr (update_other hp _ _) rfl rfl rfl rfl ?_
    rw [hloop]
    exact (if_neg hp).trans (if_neg hp).symm
  · exact absurd hwaiting (by simp)
  · obtain ⟨g, -, hs⟩ := (h.fine peer).settled_of_handled hhandled
    dsimp only
    rw [h.notDropped, newerAndOpen_eq_false fun c hc => ?_]
    · rfl
    · rw [(hs.peer c hc).1]
      exact hs.handled _ _ hhandled

/-- It removes the writer, which is not newer. -/
theorem Inv.dropConnection (h : Inv w) {peer : PeerId} {newer : Nat} (hloop : w.loop = .removingConnection peer newer)
    (hs : w.eventLoop = some w') : Inv w' := by
  unfold World.eventLoop at hs
  rw [hloop] at hs
  obtain rfl := Option.some.inj hs
  have hhandled : (w.link peer).handled = some (.connection, newer) := by
    unfold World.link
    rw [hloop]
    exact if_pos rfl
  refine ⟨h.fine_update peer (.inl rfl) ?_ fun p hp => ?_, h.fresh_pos, fun hwaiting => ?_, ?_⟩
  · have hfine := (h.fine peer).handleConnection hhandled
    unfold World.link
    simp only [Function.update_self]
    exact hfine
  · refine link_congr rfl (update_other hp _ _) rfl rfl rfl ?_
    rw [hloop]
    exact (if_neg hp).symm
  · exact absurd hwaiting (by simp)
  · obtain ⟨g, -, hs⟩ := (h.fine peer).settled_of_handled hhandled
    dsimp only
    rw [h.notDropped, newerAndOpen_eq_false fun c hc => ?_]
    · rfl
    · rw [hs.connection c hc]
      exact hs.handled _ _ hhandled

/-- Counting a message keeps which connection the information was stored for. -/
theorem Inv.countMessage (h : Inv w) {peer : PeerId} (hloop : w.loop = .countingMessage peer)
    (hs : w.eventLoop = some w') : Inv w' := by
  unfold World.eventLoop at hs
  rw [hloop] at hs
  obtain rfl := Option.some.inj hs
  refine ⟨h.fine_update peer (.inl rfl) ?_ fun p hp => ?_, h.fresh_pos, fun hwaiting => ?_, h.notDropped⟩
  · have hfine := h.fine peer
    unfold World.link at hfine ⊢
    rw [hloop] at hfine
    simp only [Function.update_self, Option.map_map]
    exact hfine
  · refine link_congr (update_other hp _ _) rfl rfl rfl rfl ?_
    rw [hloop]
    rfl
  · exact absurd hwaiting (by simp)

theorem Inv.next (h : Inv w) (hs : w.eventLoop = some w') : Inv w' := by
  cases hloop : w.loop with
  | idle =>
    unfold World.eventLoop at hs
    rw [hloop] at hs
    exact absurd hs.symm (Option.some_ne_none _)
  | waiting =>
    unfold World.eventLoop at hs
    rw [hloop] at hs
    cases hqueue : w.queue with
    | nil =>
      rw [hqueue] at hs
      exact absurd hs.symm (Option.some_ne_none _)
    | cons e queue =>
      rw [hqueue] at hs
      obtain rfl := Option.some.inj hs
      exact h.take hloop hqueue
  | removingPeer peer newer => exact h.dropPeer hloop hs
  | removingConnection peer newer => exact h.dropConnection hloop hs
  | countingMessage peer => exact h.countMessage hloop hs

/-- **Careful actions keep every link fine.** -/
theorem Inv.step (h : Inv w) {a : Action} (ha : Careful w a) (hs : w.step a = some w') : Inv w' := by
  cases a with
  | beginConnect address =>
    obtain ⟨htasks, hloop, hreaders, hgone⟩ := ha
    exact h.begin hs ((h.fine _).beginConnect htasks (handled_eq_none hloop) hreaders hgone)
  | beginDisconnect peer => exact h.begin hs ((h.fine peer).beginDisconnect ha)
  | advance k reached =>
    obtain ⟨call, hcall, hs⟩ := Option.bind_eq_some_iff.1 hs
    exact h.advance hcall hs
  | close peer connection => exact h.close peer connection hs
  | report peer connection => exact h.report peer connection hs
  | receive peer connection message => exact h.receive peer connection message hs
  | lock => exact h.lock hs
  | next => exact h.next hs

end Steps

/-! ## All runs -/

/-- A fine state without a call or a handling in progress has both entries of a peer or neither. -/
theorem Inv.kept {w : World} (h : Inv w) : Kept w := by
  refine ⟨h.notDropped, fun hcalls hbusy peer => ?_⟩
  have htasks : (w.link peer).tasks = [] := by
    unfold World.link
    rw [hcalls]
    rfl
  have hhandled : (w.link peer).handled = none := by
    unfold World.link
    cases hloop : w.loop with
    | idle => rfl
    | waiting => rfl
    | removingPeer p newer => rw [hloop] at hbusy; exact absurd hbusy.symm Bool.false_ne_true
    | removingConnection p newer => rw [hloop] at hbusy; exact absurd hbusy.symm Bool.false_ne_true
    | countingMessage p => rfl
  obtain ⟨g, -, hs⟩ := (h.fine peer).settled_of (by rw [htasks]; simp)
  have hpeer : (w.link peer).peer.isSome = (w.peers peer).isSome := Option.isSome_map
  rw [← hpeer]
  change _ = (w.link peer).connection.isSome
  cases hentry : (w.link peer).peer with
  | some x => rw [(hs.peer x hentry).2]; rfl
  | none =>
    by_contra hne
    have hsome : (w.link peer).connection ≠ none := fun hnone => hne (by rw [hnone])
    rcases hs.half hsome hentry with ht | ⟨b, hb⟩
    · rw [htasks] at ht
      exact List.not_mem_nil ht
    · rw [hhandled] at hb
      exact Option.some_ne_none _ hb.symm

theorem CarefulRun.inv {w : World} (h : CarefulRun w) : Inv w := by
  induction h with
  | init => exact .init
  | step _ ha hs ih => exact ih.step ha hs

/-- **In every run of careful actions, no stale disconnection drops a newer open connection, and the maps have the same
keys whenever no call is in progress.** -/
theorem kept_of_careful {w : World} (h : CarefulRun w) : Kept w := h.inv.kept

/-! ### Reconnecting in time -/

instance (w : World) : DecidablePred (Careful w)
  | .beginConnect _ => inferInstanceAs (Decidable (_ ∧ _ ∧ _ ∧ _))
  | .beginDisconnect peer => inferInstanceAs (Decidable (∀ task ∈ tasksOf peer w.calls, task.isConnect = false))
  | .advance _ _ => .isTrue trivial
  | .close _ _ => .isTrue trivial
  | .report _ _ => .isTrue trivial
  | .receive _ _ _ => .isTrue trivial
  | .lock => .isTrue trivial
  | .next => .isTrue trivial

/-- The state after a list of actions that are all careful. -/
def World.runCarefully : World → List Action → Option World
  | w, [] => some w
  | w, a :: actions => if Careful w a then (w.step a).bind fun w' => w'.runCarefully actions else none

theorem CarefulRun.runCarefully {actions : List Action} :
    ∀ {w w' : World}, CarefulRun w → w.runCarefully actions = some w' → CarefulRun w' := by
  induction actions with
  | nil =>
    intro w w' h hw'
    exact Option.some.inj hw' ▸ h
  | cons a actions ih =>
    intro w w' h hw'
    unfold World.runCarefully at hw'
    split_ifs at hw' with ha
    obtain ⟨w₁, hs, hrest⟩ := Option.bind_eq_some_iff.1 hw'
    exact ih (h.step ha hs) hrest

/-- The events of the first connection are handled before the second one is begun. -/
def slowReconnection : List Action :=
  [.beginConnect "10.0.0.1:4025", .advance 0 true, .advance 0 true, .advance 0 true, .advance 0 true,
    .close "peer_10.0.0.1_4025" 1, .report "peer_10.0.0.1_4025" 1,
    .lock, .next, .lock, .next, .next, .next,
    .beginConnect "10.0.0.1:4025", .advance 0 true, .advance 0 true, .advance 0 true, .advance 0 true]

theorem slow_reconnection_kept : ∃ w, World.init.runCarefully slowReconnection = some w ∧
    w.connections "peer_10.0.0.1_4025" = some 2 ∧ Kept w := by
  have hrun : (World.init.runCarefully slowReconnection).map (fun w => w.connections "peer_10.0.0.1_4025") =
      some (some 2) := by decide +kernel
  obtain ⟨w, hw, hconnection⟩ := Option.map_eq_some_iff.1 hrun
  exact ⟨w, hw, hconnection, kept_of_careful (CarefulRun.init.runCarefully hw)⟩

end AlephCore.Network
