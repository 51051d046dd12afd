import AlephCore.Network.Framing

/-!
# Connections — connecting, disconnecting and the event loop

Mirrors `connect_peer`, `disconnect_peer`, the end of `read_loop` and the event loop of `network/mod.rs`.
A `World` holds the two maps, the read loops, the calls in progress and the queued events; an action takes
one of them to its next point of suspension.  A call holds the read lock of the service from its beginning
to its return; the event loop holds the write lock while it waits for an event, and the read lock while it
handles one.

Connections are numbered in the order they are made.  The number is kept in both maps, with each read loop
and with each queued event, but nothing the code does depends on it.
-/

namespace AlephCore.Network

/-! ## The state -/

/-- The key of an address: the same for every connection to it. -/
def peerIdOf (address : String) : PeerId :=
  "peer_" ++ String.ofList (address.toList.map fun c => if c = ':' ∨ c = '/' then '_' else c)

/-- Information about a connected peer. -/
structure PeerInfo where
  id : PeerId
  address : String
  messagesReceived : Nat
  messagesSent : Nat
  /-- The connection it was stored for. -/
  connection : Nat

/-- A read loop; it is open until its connection ends. -/
structure Reader where
  connection : Nat
  isOpen : Bool
  deriving DecidableEq

/-- An event in the channel; connections numbered from `newer` on were made after what caused it. -/
structure Queued where
  event : NetworkEvent
  newer : Nat

/-- Where a call stands: what it does when it goes on. -/
inductive Task where
  | connecting (address : String)
  | insertingPeer (connection : Nat) (address : String)
  | insertingConnection (connection : Nat)
  | announcing
  | removingPeer
  | removingConnection
  | announcingGone
  deriving DecidableEq

/-- Where the event loop stands. -/
inductive EventLoop where
  | idle
  /-- It holds the write lock and waits for an event. -/
  | waiting
  | removingPeer (peer : PeerId) (newer : Nat)
  | removingConnection (peer : PeerId) (newer : Nat)
  | countingMessage (peer : PeerId)
  deriving DecidableEq

structure World where
  peers : PeerId → Option PeerInfo
  /-- The open writers, by the number of their connection. -/
  connections : PeerId → Option Nat
  readers : PeerId → List Reader
  calls : List (PeerId × Task)
  queue : List Queued
  loop : EventLoop
  /-- The number of the next connection. -/
  fresh : Nat
  /-- An event has removed an entry of a connection that is newer than its cause and still open. -/
  droppedNewer : Bool

/-- The service before its first call. -/
def World.init : World where
  peers _ := none
  connections _ := none
  readers _ := []
  calls := []
  queue := []
  loop := .idle
  fresh := 1
  droppedNewer := false

/-! ## The actions -/

/-- The capacity of the channel. -/
def channelCapacity : Nat := 1000

inductive Action where
  | beginConnect (address : String)
  | beginDisconnect (peer : PeerId)
  /-- The `k`-th call goes on; a TCP connection it was waiting for is made if `reached`. -/
  | advance (k : Nat) (reached : Bool)
  /-- The connection of a read loop ends. -/
  | close (peer : PeerId) (connection : Nat)
  /-- A read loop whose connection has ended reports it and returns. -/
  | report (peer : PeerId) (connection : Nat)
  | receive (peer : PeerId) (connection : Nat) (message : Message)
  /-- The event loop takes the write lock. -/
  | lock
  /-- The event loop goes on. -/
  | next

namespace World

variable (w : World)

/-- Put an event into the channel, if there is room. -/
def send (event : NetworkEvent) (newer : Nat) : Option World :=
  if w.queue.length < channelCapacity then some { w with queue := w.queue ++ [Queued.mk event newer] } else none

def begin (peer : PeerId) (task : Task) : Option World :=
  if w.loop = .waiting then none else some { w with calls := w.calls ++ [(peer, task)] }

/-- The `k`-th call is at another point. -/
def setTask (k : Nat) (peer : PeerId) (task : Task) : World := { w with calls := w.calls.set k (peer, task) }

/-- The `k`-th call returns. -/
def finish (k : Nat) : World := { w with calls := w.calls.eraseIdx k }

/-- The entry of this connection is newer than what caused the event, and its read loop is open. -/
def newerAndOpen (peer : PeerId) (newer : Nat) (connection : Option Nat) : Bool :=
  connection.any fun c => decide (newer ≤ c) && decide (Reader.mk c true ∈ w.readers peer)

/-- The `k`-th call takes its next action. -/
def advance (k : Nat) (peer : PeerId) (reached : Bool) : Task → Option World
  | .connecting address =>
    some (if reached then { w with fresh := w.fresh + 1 }.setTask k peer (.insertingPeer w.fresh address)
      else w.finish k)
  | .insertingPeer connection address =>
    some ({ w with
      peers := Function.update w.peers peer
        (some { id := peer, address, messagesReceived := 0, messagesSent := 0, connection })
      readers := Function.update w.readers peer (w.readers peer ++ [Reader.mk connection true]) }.setTask k peer
        (.insertingConnection connection))
  | .insertingConnection connection =>
    some ({ w with connections := Function.update w.connections peer (some connection) }.setTask k peer .announcing)
  | .announcing => (w.send (.peerConnected peer) w.fresh).map fun w => w.finish k
  | .removingPeer => some ({ w with peers := Function.update w.peers peer none }.setTask k peer .removingConnection)
  | .removingConnection =>
    some ({ w with connections := Function.update w.connections peer none }.setTask k peer .announcingGone)
  | .announcingGone => (w.send (.peerDisconnected peer) w.fresh).map fun w => w.finish k

/-- What the event loop does with an event. -/
def handling (newer : Nat) : NetworkEvent → EventLoop
  | .peerDisconnected peer => .removingPeer peer newer
  | .messageReceived peer _ => .countingMessage peer
  | .peerConnected _ => .idle
  | .syncRequest _ _ => .idle

/-- The event loop takes its next action. -/
def eventLoop : Option World :=
  match w.loop with
  | .idle => none
  | .waiting =>
    match w.queue with
    | [] => none
    | e :: queue => some { w with queue, loop := handling e.newer e.event }
  | .removingPeer peer newer =>
    some { w with
      peers := Function.update w.peers peer none
      loop := .removingConnection peer newer
      droppedNewer := w.droppedNewer || w.newerAndOpen peer newer ((w.peers peer).map PeerInfo.connection) }
  | .removingConnection peer newer =>
    some { w with
      connections := Function.update w.connections peer none
      loop := .idle
      droppedNewer := w.droppedNewer || w.newerAndOpen peer newer (w.connections peer) }
  | .countingMessage peer =>
    some { w with
      peers := Function.update w.peers peer
        ((w.peers peer).map fun p => { p with messagesReceived := p.messagesReceived + 1 })
      loop := .idle }

/-- One action, if it is possible. -/
def step : Action → Option World
  | .beginConnect address => w.begin (peerIdOf address) (.connecting address)
  | .beginDisconnect peer => w.begin peer .removingPeer
  | .advance k reached => w.calls[k]?.bind fun call => w.advance k call.1 reached call.2
  | .close peer connection =>
    if ⟨connection, true⟩ ∈ w.readers peer then
      some { w with
        readers := Function.update w.readers peer
          ((w.readers peer).map fun r => if r.connection = connection then ⟨connection, false⟩ else r) }
    else none
  | .report peer connection =>
    if ⟨connection, false⟩ ∈ w.readers peer then
      { w with readers := Function.update w.readers peer ((w.readers peer).erase ⟨connection, false⟩) }.send
        (.peerDisconnected peer) (connection + 1)
    else none
  | .receive peer connection message =>
    if ⟨connection, true⟩ ∈ w.readers peer then w.send (.messageReceived peer message) (connection + 1) else none
  | .lock => if w.loop = .idle ∧ w.calls = [] then some { w with loop := .waiting } else none
  | .next => w.eventLoop

end World

/-! ## The property, and when it holds -/

/-- The events of a disconnection of the peer that are queued: what is newer than their causes. -/
def disconnections (peer : PeerId) (queue : List Queued) : List Nat :=
  queue.filterMap fun e =>
    match e.event with
    | .peerDisconnected p => if p = peer then some e.newer else none
    | _ => none

/-- The calls in progress that are about the peer. -/
def tasksOf (peer : PeerId) (calls : List (PeerId × Task)) : List Task :=
  calls.filterMap fun call => if call.1 = peer then some call.2 else none

/-- The event loop handles a disconnection of the peer. -/
def EventLoop.disconnects (peer : PeerId) : EventLoop → Bool
  | .removingPeer p _ => decide (p = peer)
  | .removingConnection p _ => decide (p = peer)
  | _ => false

/-- The event loop is in the middle of handling an event. -/
def EventLoop.busy : EventLoop → Bool
  | .idle => false
  | .waiting => false
  | _ => true

def Task.isConnect : Task → Bool
  | .connecting _ => true
  | .insertingPeer _ _ => true
  | .insertingConnection _ => true
  | .announcing => true
  | _ => false

/-- **No stale disconnection has dropped a newer open connection, and the maps have the same keys whenever no call is
in progress.** -/
structure Kept (w : World) : Prop where
  notDropped : w.droppedNewer = false
  sameKeys : w.calls = [] → w.loop.busy = false → ∀ peer, (w.peers peer).isSome = (w.connections peer).isSome

/-- A connection is begun only when every earlier one to the peer is over: no call and no handling of an event about the
peer is in progress, none of its read loops is left and no disconnection of it is queued.  While it is being made, no
disconnection of the peer is begun. -/
def Careful (w : World) : Action → Prop
  | .beginConnect address =>
    tasksOf (peerIdOf address) w.calls = [] ∧ w.loop.disconnects (peerIdOf address) = false ∧
      w.readers (peerIdOf address) = [] ∧ disconnections (peerIdOf address) w.queue = []
  | .beginDisconnect peer => ∀ task ∈ tasksOf peer w.calls, task.isConnect = false
  | _ => True

/-- The states that runs of careful actions lead to. -/
inductive CarefulRun : World → Prop
  | init : CarefulRun .init
  | step {w w' : World} {a : Action} (h : CarefulRun w) (ha : Careful w a) (hs : w.step a = some w') : CarefulRun w'

/-- The state after a list of actions. -/
def World.run : World → List Action → Option World
  | w, [] => some w
  | w, a :: actions => (w.step a).bind fun w' => w'.run actions

/-! ### Reconnecting too early -/

/-- A peer connects, its connection ends, and it is connected again before the event loop handles the end. -/
def hastyReconnection : List Action :=
  [.beginConnect "10.0.0.1:4025", .advance 0 true, .advance 0 true, .advance 0 true, .advance 0 true,
    .close "peer_10.0.0.1_4025" 1, .report "peer_10.0.0.1_4025" 1,
    .beginConnect "10.0.0.1:4025", .advance 0 true, .advance 0 true, .advance 0 true, .advance 0 true,
    .lock, .next, .lock, .next, .next, .next]

/-- **The queued disconnection of the first connection removes the second one, which is open.** -/
theorem hasty_reconnection_dropped :
    ∃ w, World.init.run hastyReconnection = some w ∧
      w.readers "peer_10.0.0.1_4025" = [⟨2, true⟩] ∧ w.connections "peer_10.0.0.1_4025" = none ∧ ¬ Kept w := by
  have hrun : (World.init.run hastyReconnection).map (fun w =>
      (w.droppedNewer, w.readers "peer_10.0.0.1_4025", w.connections "peer_10.0.0.1_4025")) =
        some (true, [⟨2, true⟩], none) := by decide +kernel
  obtain ⟨w, hw, hseen⟩ := Option.map_eq_some_iff.1 hrun
  obtain ⟨hdropped, hrest⟩ := Prod.mk.inj hseen
  obtain ⟨hreaders, hconnection⟩ := Prod.mk.inj hrest
  refine ⟨w, hw, hreaders, hconnection, fun h => ?_⟩
  rw [h.notDropped] at hdropped
  exact Bool.false_ne_true hdropped

end AlephCore.Network
