import AlephCore.Lib.Broadcast
import AlephCore.Web.LiveFilter
import Mathlib.Logic.Relation

/-!
# LiveStream — live subscriptions, lock by lock

Mirrors `handle_socket` of `web/websocket.rs` for all clients at once.  Of each connection two tasks share a filter
and a flag, each behind a lock of its own: one carries out the requests of the client, the other receives what is
broadcast and forwards what the filter matches.  The other clients and the broadcasts come in between in any order,
and every send may fail.
-/

namespace AlephCore.WebSocket

open Broadcast

/-! ## A connection -/

/-- What a client is sent. -/
inductive Outgoing where
  | reply (response : SubscriptionResponse)
  | live (message : Message)
  | pong (data : List UInt8)

def Outgoing.live? : Outgoing → Option Message
  | .live m => some m
  | _ => none

/-- How far the forwarding task has come with a message. -/
inductive Forward where
  | notSpawned
  | receiving
  | received (message : Message)
  /-- The flag was set; the filter is not read yet. -/
  | subscribed (message : Message)
  /-- The filter matches and stays locked; it was that of the session after `k` requests. -/
  | sending (message : Message) (k : Nat)
  | stopped

/-- How far the connection has come with its client. -/
inductive Handler where
  | accepted (query : WsQuery)
  | opening (replies : List SubscriptionResponse)
  | waiting
  /-- The new filter is written and stays locked; the flag is not set yet. -/
  | subscribing (addresses channels messageTypes hashes : List String)
  /-- The flag is cleared; the filter is not reset yet. -/
  | unsubscribing
  | replying (response : SubscriptionResponse)
  | closing
  | leaving
  | closed

/-- What has become of a message that was received, when the session after `k` requests decided about it. -/
inductive Outcome where
  | ignored (k : Nat)
  | unmatched (k : Nat)
  | forwarded (k : Nat)
  /-- The connection ended. -/
  | dropped

def Outcome.isForwarded : Outcome → Bool
  | .forwarded _ => true
  | _ => false

/-- The number of requests by which a message was judged. -/
def Outcome.stamp? : Option Outcome → Option Nat
  | some (.ignored k) => some k
  | some (.unmatched k) => some k
  | some (.forwarded k) => some k
  | _ => none

/-- A connection.  `start`, `initial`, `handled` and `outcomes` are a record of what has happened. -/
structure Connection where
  ctx : SessionContext
  initial : Session
  session : Session
  forward : Forward
  handler : Handler
  start : Nat
  next : Nat
  handled : List SubscriptionRequest
  outcomes : List (Option Outcome)
  wire : List Outgoing

/-- The buffer is asked for 10000 messages; the channel rounds up to a power of two. -/
def messageCapacity : Nat := 16384

/-- The forwarding task holds the lock of the filter. -/
def Forward.Reading : Forward → Prop
  | .sending _ _ => True
  | _ => False

/-- The handler holds the lock of the filter. -/
def Handler.Writing : Handler → Prop
  | .subscribing _ _ _ _ => True
  | _ => False

/-- The message that the forwarding task has received and not settled. -/
def Forward.held : Forward → Option Message
  | .received m => some m
  | .subscribed m => some m
  | .sending m _ => some m
  | _ => none

/-- The request whose first lock is released and whose second is not. -/
def Handler.current : Handler → Option SubscriptionRequest
  | .subscribing addresses channels messageTypes hashes => some (.subscribe addresses channels messageTypes hashes)
  | .unsubscribing => some .unsubscribe
  | _ => none

/-- How many requests the flag is ahead of the filter. -/
def Handler.ahead : Handler → Nat
  | .unsubscribing => 1
  | _ => 0

def SubscriptionRequest.isUnsubscribe : SubscriptionRequest → Bool
  | .unsubscribe => true
  | _ => false

/-- The session after these requests, one after another. -/
def Session.after (ctx : SessionContext) (session : Session) (requests : List SubscriptionRequest) : Session :=
  requests.foldl (fun s r => (handleRequest ctx r s).2) session

namespace Connection

variable (c : Connection)

/-- `subscribe` of a new client; nothing else has happened yet. -/
def accept (ctx : SessionContext) (query : WsQuery) (start : Nat) : Connection where
  ctx := ctx
  initial := (connect ctx query).2
  session := (connect ctx query).2
  forward := .notSpawned
  handler := .accepted query
  start := start
  next := start
  handled := []
  outcomes := []
  wire := []

/-- The requests that have begun. -/
def requests : List SubscriptionRequest := c.handled ++ c.handler.current.toList

/-- How many requests the flag shows. -/
def flagShows : Nat := c.handled.length + c.handler.ahead

/-- The live messages that the client was sent. -/
def live : List Message := c.wire.filterMap Outgoing.live?

/-- What the handler does. -/
inductive HandlerStep : Connection → Connection → Prop
  | greet {c : Connection} {r : SubscriptionResponse} {rs : List SubscriptionResponse}
      (h : c.handler = .opening (r :: rs)) :
      HandlerStep c { c with handler := .opening rs, wire := c.wire ++ [.reply r] }
  | greetFailed {c : Connection} {r : SubscriptionResponse} {rs : List SubscriptionResponse}
      (h : c.handler = .opening (r :: rs)) : HandlerStep c { c with handler := .opening rs }
  | spawn {c : Connection} (h : c.handler = .opening []) :
      HandlerStep c { c with handler := .waiting, forward := .receiving }
  /-- The filter is locked and written. -/
  | subscribe {c : Connection} (addresses channels messageTypes hashes : List String) (h : c.handler = .waiting)
      (hfree : ¬ c.forward.Reading) :
      HandlerStep c { c with
        handler := .subscribing addresses channels messageTypes hashes
        session := { c.session with filter := ⟨addresses.toFinset, channels.toFinset,
          (messageTypes.map c.ctx.toUppercase).toFinset, hashes.toFinset⟩ } }
  /-- The flag is set, and the filter released. -/
  | subscribed {c : Connection} {addresses channels messageTypes hashes : List String}
      (h : c.handler = .subscribing addresses channels messageTypes hashes) :
      HandlerStep c { c with
        handler := .replying (.subscribed c.ctx.subscriptionId c.session.filter.filterCount)
        session := { c.session with subscribed := true }
        handled := c.handled ++ [.subscribe addresses channels messageTypes hashes] }
  | update {c : Connection} (addAddresses removeAddresses addChannels removeChannels : List String)
      (h : c.handler = .waiting) (hfree : ¬ c.forward.Reading) :
      HandlerStep c { c with
        handler := .replying (.updated
          (c.session.filter.update addAddresses removeAddresses addChannels removeChannels).filterCount)
        session := { c.session with
          filter := c.session.filter.update addAddresses removeAddresses addChannels removeChannels }
        handled := c.handled ++ [.update addAddresses removeAddresses addChannels removeChannels] }
  /-- The flag is cleared. -/
  | unsubscribe {c : Connection} (h : c.handler = .waiting) :
      HandlerStep c { c with handler := .unsubscribing, session := { c.session with subscribed := false } }
  /-- The filter is reset. -/
  | unsubscribed {c : Connection} (h : c.handler = .unsubscribing) (hfree : ¬ c.forward.Reading) :
      HandlerStep c { c with
        handler := .replying .unsubscribed
        session := { c.session with filter := .new }
        handled := c.handled ++ [.unsubscribe] }
  | ping {c : Connection} (nonce : Nat) (h : c.handler = .waiting) :
      HandlerStep c { c with handler := .replying (.pong nonce), handled := c.handled ++ [.ping nonce] }
  /-- The history is read under a read lock of the filter, in the database as it is then. -/
  | history {c : Connection} (db : Option (String → Except String (List Message))) (limit : Nat)
      (before : Option Decimal) (h : c.handler = .waiting) :
      HandlerStep c { c with
        handler := .replying (handleRequest { c.ctx with db } (.history limit before) c.session).1
        handled := c.handled ++ [.history limit before] }
  | invalid {c : Connection} (e : String) (h : c.handler = .waiting) :
      HandlerStep c { c with handler := .replying (.error 1 ("Invalid request: " ++ e)) }
  | reply {c : Connection} {r : SubscriptionResponse} (h : c.handler = .replying r) :
      HandlerStep c { c with handler := .waiting, wire := c.wire ++ [.reply r] }
  | replyFailed {c : Connection} {r : SubscriptionResponse} (h : c.handler = .replying r) :
      HandlerStep c { c with handler := .waiting }
  | pong {c : Connection} (data : List UInt8) (h : c.handler = .waiting) :
      HandlerStep c { c with wire := c.wire ++ [.pong data] }
  | close {c : Connection} (h : c.handler = .waiting) : HandlerStep c { c with handler := .closing }
  /-- The forwarding task is aborted, and with it the message that it holds. -/
  | abort {c : Connection} (h : c.handler = .closing) :
      HandlerStep c { c with
        handler := .leaving
        forward := .stopped
        outcomes := c.outcomes ++ c.forward.held.toList.map fun _ => some .dropped }

/-- What the forwarding task does. -/
inductive ForwardStep (sent : List Message) : Connection → Connection → Prop
  | receive {c : Connection} {m : Message} {next : Nat} (h : c.forward = .receiving)
      (hrecv : recv messageCapacity sent c.next = some (.message m, next)) :
      ForwardStep sent c { c with forward := .received m, next }
  | lag {c : Connection} {missed next : Nat} (h : c.forward = .receiving)
      (hrecv : recv messageCapacity sent c.next = some (.lagged missed, next)) :
      ForwardStep sent c { c with outcomes := c.outcomes ++ List.replicate missed none, next }
  | flagSet {c : Connection} {m : Message} (h : c.forward = .received m) (hflag : c.session.subscribed = true) :
      ForwardStep sent c { c with forward := .subscribed m }
  | flagClear {c : Connection} {m : Message} (h : c.forward = .received m) (hflag : c.session.subscribed = false) :
      ForwardStep sent c { c with
        forward := .receiving, outcomes := c.outcomes ++ [some (.ignored c.flagShows)] }
  | matched {c : Connection} {m : Message} (h : c.forward = .subscribed m) (hfree : ¬ c.handler.Writing)
      (hmatch : c.session.filter.«matches» m = true) :
      ForwardStep sent c { c with forward := .sending m c.handled.length }
  | unmatched {c : Connection} {m : Message} (h : c.forward = .subscribed m) (hfree : ¬ c.handler.Writing)
      (hmatch : c.session.filter.«matches» m = false) :
      ForwardStep sent c { c with
        forward := .receiving, outcomes := c.outcomes ++ [some (.unmatched c.handled.length)] }
  | send {c : Connection} {m : Message} {k : Nat} (h : c.forward = .sending m k) :
      ForwardStep sent c { c with
        forward := .receiving, outcomes := c.outcomes ++ [some (.forwarded k)], wire := c.wire ++ [.live m] }
  | sendFailed {c : Connection} {m : Message} {k : Nat} (h : c.forward = .sending m k) :
      ForwardStep sent c { c with forward := .stopped, outcomes := c.outcomes ++ [some .dropped] }

/-- One step of either task. -/
def Step (sent : List Message) (c c' : Connection) : Prop := c.HandlerStep c' ∨ c.ForwardStep sent c'

end Connection

/-! ## All connections -/

/-- The state of all subscriptions: what has been broadcast, and the connections. -/
structure WsState where
  sent : List Message
  clients : List Connection
  clientCount : Nat

namespace WsState

def new : WsState := ⟨[], [], 0⟩

/-- A message from RabbitMQ is broadcast if it can be parsed. -/
def relay (s : WsState) (content : Json) : WsState :=
  match Message.decode content with
  | .ok m => { s with sent := s.sent ++ [m] }
  | .error _ => s

/-- One step of all tasks. -/
inductive Step : WsState → WsState → Prop
  | relay (s : WsState) (content : Json) : Step s (s.relay content)
  | accept (s : WsState) (ctx : SessionContext) (query : WsQuery) :
      Step s { s with clients := s.clients ++ [.accept ctx query s.sent.length] }
  | connected {sent : List Message} {cs ds : List Connection} {c : Connection} {n : Nat} {query : WsQuery}
      (db : Option (String → Except String (List Message))) (h : c.handler = .accepted query) :
      Step ⟨sent, cs ++ c :: ds, n⟩
        ⟨sent, cs ++ { c with handler := .opening (connect { c.ctx with db } query).1 } :: ds, n + 1⟩
  | client {sent : List Message} {cs ds : List Connection} {c c' : Connection} {n : Nat} (h : c.Step sent c') :
      Step ⟨sent, cs ++ c :: ds, n⟩ ⟨sent, cs ++ c' :: ds, n⟩
  | disconnected {sent : List Message} {cs ds : List Connection} {c : Connection} {n : Nat}
      (h : c.handler = .leaving) :
      Step ⟨sent, cs ++ c :: ds, n⟩ ⟨sent, cs ++ { c with handler := .closed } :: ds, n - 1⟩

end WsState

/-! ## The session that the locks show -/

section Session

variable {ctx : SessionContext} {session : Session} {requests : List SubscriptionRequest}

theorem after_append (r : SubscriptionRequest) :
    session.after ctx (requests ++ [r]) = (handleRequest ctx r (session.after ctx requests)).2 := by
  unfold Session.after
  rw [List.foldl_append]
  rfl

/-- A history query leaves the session alone. -/
theorem handleRequest_history (limit : Nat) (before : Option Decimal) :
    (handleRequest ctx (.history limit before) session).2 = session := by
  unfold handleRequest
  cases ctx.db with
  | none => rfl
  | some run =>
    dsimp only
    cases getMessageHistory ctx run session.filter (min limit 1000) before <;> rfl

end Session

namespace Connection

variable {c c' : Connection} {sent : List Message}

/-- The session after the requests that have been carried out. -/
def base (c : Connection) : Session := c.initial.after c.ctx c.handled

/-- The session after the first `k` requests. -/
def sessionAfter (c : Connection) (k : Nat) : Session := c.initial.after c.ctx (c.requests.take k)

/-- What the filter and the flag are, in the middle of a request and between two of them. -/
def SessionFits (c : Connection) : Prop :=
  match c.handler with
  | .subscribing addresses channels messageTypes hashes =>
    c.session = { (handleRequest c.ctx (.subscribe addresses channels messageTypes hashes) c.base).2 with
      subscribed := c.base.subscribed }
  | .unsubscribing => c.session = { c.base with subscribed := false }
  | _ => c.session = c.base

theorem sessionAfter_handled : c.sessionAfter c.handled.length = c.base := by
  unfold sessionAfter requests base
  rw [List.take_left]

/-- The flag is that of the session after the requests that it shows. -/
theorem SessionFits.flag (h : c.SessionFits) : c.session.subscribed = (c.sessionAfter c.flagShows).subscribed := by
  unfold SessionFits at h
  unfold flagShows Handler.ahead
  cases hhandler : c.handler with
  | unsubscribing =>
    rw [hhandler] at h
    have hrequests : c.requests.take (c.handled.length + 1) = c.handled ++ [.unsubscribe] := by
      unfold requests
      rw [hhandler]
      exact List.take_of_length_le (by rw [List.length_append]; rfl)
    dsimp only at h ⊢
    rw [h, sessionAfter, hrequests, after_append]
    rfl
  | _ =>
    rw [hhandler] at h
    dsimp only at h ⊢
    rw [h, Nat.add_zero, sessionAfter_handled]

/-- A filter that is not locked is that of the session after the requests that have been carried out. -/
theorem SessionFits.filter (h : c.SessionFits) (hfree : ¬ c.handler.Writing) :
    c.session.filter = (c.sessionAfter c.handled.length).filter := by
  rw [sessionAfter_handled]
  unfold SessionFits at h
  cases hhandler : c.handler with
  | subscribing addresses channels messageTypes hashes =>
    rw [hhandler] at hfree
    exact absurd trivial hfree
  | _ =>
    rw [hhandler] at h
    dsimp only at h
    rw [h]

/-- A session that has ended shows no flag. -/
theorem SessionFits.ended (h : c.SessionFits) (hended : (c.sessionAfter c.handled.length).subscribed = false) :
    c.session.subscribed = false := by
  rw [sessionAfter_handled] at hended
  unfold SessionFits at h
  cases hhandler : c.handler with
  | unsubscribing =>
    rw [hhandler] at h
    dsimp only at h
    rw [h]
  | _ =>
    rw [hhandler] at h
    dsimp only at h
    rw [h]
    exact hended

/-- **The handler** carries the requests out as `handleRequest` does. -/
theorem SessionFits.handler (h : c.SessionFits) (hstep : c.HandlerStep c') : c'.SessionFits := by
  unfold SessionFits at h
  cases hstep with
  | greet hopening | greetFailed hopening | spawn hopening =>
    rw [hopening] at h
    exact h
  | subscribe addresses channels messageTypes hashes hwaiting =>
    rw [hwaiting] at h
    dsimp only at h
    unfold SessionFits
    dsimp only
    rw [h]
    rfl
  | subscribed hsubscribing =>
    rw [hsubscribing] at h
    dsimp only at h
    unfold SessionFits base
    dsimp only
    rw [after_append, h]
    rfl
  | update addAddresses removeAddresses addChannels removeChannels hwaiting =>
    rw [hwaiting] at h
    dsimp only at h
    unfold SessionFits base
    dsimp only
    rw [after_append, h]
    rfl
  | unsubscribe hwaiting =>
    rw [hwaiting] at h
    dsimp only at h
    unfold SessionFits
    dsimp only
    rw [h]
    rfl
  | unsubscribed hunsubscribing =>
    rw [hunsubscribing] at h
    dsimp only at h
    unfold SessionFits base
    dsimp only
    rw [after_append, h]
    rfl
  | ping nonce hwaiting =>
    rw [hwaiting] at h
    dsimp only at h
    unfold SessionFits base
    dsimp only
    rw [after_append, h]
    rfl
  | history db limit before hwaiting =>
    rw [hwaiting] at h
    dsimp only at h
    unfold SessionFits base
    dsimp only
    rw [after_append, handleRequest_history, h]
    rfl
  | invalid e hwaiting | close hwaiting =>
    rw [hwaiting] at h
    exact h
  | pong data hwaiting =>
    unfold SessionFits
    exact h
  | reply hreplying | replyFailed hreplying =>
    rw [hreplying] at h
    exact h
  | abort hclosing =>
    rw [hclosing] at h
    exact h

/-- **The forwarding task** leaves the session alone. -/
theorem SessionFits.forward (h : c.SessionFits) (hstep : c.ForwardStep sent c') : c'.SessionFits := by
  cases hstep <;> exact h

/-! ## What a step of the handler does to the stream -/

/-- The forwarding task is only spawned after the opening. -/
def Spawned (c : Connection) : Prop :=
  match c.handler with
  | .accepted _ => c.forward = .notSpawned
  | .opening _ => c.forward = .notSpawned
  | _ => True

/-- What the handler keeps, and how it extends what has been requested. -/
structure Extends (c c' : Connection) : Prop where
  ctx : c'.ctx = c.ctx
  initial : c'.initial = c.initial
  start : c'.start = c.start
  next : c'.next = c.next
  live : c'.live = c.live
  requests : ∃ more, c'.requests = c.requests ++ more
  handled : c.handled.length ≤ c'.handled.length
  flagShows : c.flagShows ≤ c'.flagShows
  /-- The filter is only written while the forwarding task does not hold its lock. -/
  filter : c.forward.Reading → c'.session.filter = c.session.filter
  /-- The flag is only cleared by an unsubscription. -/
  cleared : c'.session.subscribed = true ∨ c'.session.subscribed = c.session.subscribed ∨
    c'.requests = c.requests ++ [.unsubscribe]

theorem requests_eq {done more : List SubscriptionRequest} {o o' : Option SubscriptionRequest}
    (hhandled : c'.handled = c.handled ++ done) (ho : c.handler.current = o) (ho' : c'.handler.current = o')
    (hmore : done ++ o'.toList = o.toList ++ more) : c'.requests = c.requests ++ more := by
  unfold requests
  rw [hhandled, ho, ho', List.append_assoc, hmore, List.append_assoc]

theorem live_append (o : Outgoing) : (c.wire ++ [o]).filterMap Outgoing.live? = c.live ++ o.live?.toList := by
  rw [List.filterMap_append]
  cases o <;> rfl

theorem live_reply (r : SubscriptionResponse) :
    (c.wire ++ [Outgoing.reply r]).filterMap Outgoing.live? = c.live :=
  (live_append (.reply r)).trans (List.append_nil _)

theorem live_pong (data : List UInt8) : (c.wire ++ [Outgoing.pong data]).filterMap Outgoing.live? = c.live :=
  (live_append (.pong data)).trans (List.append_nil _)

/-- The handler goes on, between two requests. -/
theorem Extends.quiet {handler : Handler} (hold : c.handler.current = none) (hnew : handler.current = none) :
    c.Extends { c with handler } := by
  have hahead : c.handler.ahead = 0 := by
    cases hhandler : c.handler with
    | unsubscribing =>
      rw [hhandler] at hold
      cases hold
    | _ => rfl
  refine ⟨rfl, rfl, rfl, rfl, rfl, ⟨[], requests_eq (List.append_nil _).symm hold hnew rfl⟩, le_refl _, ?_,
    fun _ => rfl, .inr (.inl rfl)⟩
  unfold Connection.flagShows
  rw [hahead]
  exact Nat.le_add_right _ _

/-- **A step of the handler** extends the requests. -/
theorem HandlerStep.extends (hstep : c.HandlerStep c') : c.Extends c' := by
  have hsame : c.handled = c.handled ++ [] := (List.append_nil _).symm
  cases hstep with
  | @greet r rs h =>
    exact ⟨rfl, rfl, rfl, rfl, live_reply r, ⟨[], requests_eq hsame (congrArg _ h) rfl rfl⟩,
      le_refl _, by simp [flagShows, Handler.ahead, h], fun _ => rfl, .inr (.inl rfl)⟩
  | greetFailed h | replyFailed h | close h | invalid _ h | spawn h | abort h =>
    exact ⟨rfl, rfl, rfl, rfl, rfl, ⟨[], requests_eq hsame (congrArg _ h) rfl rfl⟩,
      le_refl _, by simp [flagShows, Handler.ahead, h], fun _ => rfl, .inr (.inl rfl)⟩
  | subscribe addresses channels messageTypes hashes h hfree =>
    exact ⟨rfl, rfl, rfl, rfl, rfl, ⟨[.subscribe addresses channels messageTypes hashes],
      requests_eq hsame (congrArg _ h) rfl rfl⟩, le_refl _, by simp [flagShows, Handler.ahead, h],
      fun hreading => absurd hreading hfree, .inr (.inl rfl)⟩
  | @subscribed addresses channels messageTypes hashes h =>
    exact ⟨rfl, rfl, rfl, rfl, rfl, ⟨[], requests_eq rfl (congrArg _ h) rfl rfl⟩,
      by simp, by simp [flagShows, Handler.ahead, h], fun _ => rfl, .inl rfl⟩
  | update addAddresses removeAddresses addChannels removeChannels h hfree =>
    exact ⟨rfl, rfl, rfl, rfl, rfl, ⟨[.update addAddresses removeAddresses addChannels removeChannels],
      requests_eq rfl (congrArg _ h) rfl rfl⟩, by simp, by simp [flagShows, Handler.ahead, h],
      fun hreading => absurd hreading hfree, .inr (.inl rfl)⟩
  | unsubscribe h =>
    have hrequests : ({ c with
        handler := .unsubscribing, session := { c.session with subscribed := false } } : Connection).requests =
          c.requests ++ [.unsubscribe] := requests_eq hsame (congrArg _ h) rfl rfl
    exact ⟨rfl, rfl, rfl, rfl, rfl, ⟨[.unsubscribe], hrequests⟩, le_refl _, by simp [flagShows, Handler.ahead, h],
      fun _ => rfl, .inr (.inr hrequests)⟩
  | unsubscribed h hfree =>
    exact ⟨rfl, rfl, rfl, rfl, rfl, ⟨[], requests_eq rfl (congrArg _ h) rfl rfl⟩,
      by simp, by simp [flagShows, Handler.ahead, h], fun hreading => absurd hreading hfree, .inr (.inl rfl)⟩
  | ping nonce h =>
    exact ⟨rfl, rfl, rfl, rfl, rfl, ⟨[.ping nonce], requests_eq rfl (congrArg _ h) rfl rfl⟩,
      by simp, by simp [flagShows, Handler.ahead, h], fun _ => rfl, .inr (.inl rfl)⟩
  | history db limit before h =>
    exact ⟨rfl, rfl, rfl, rfl, rfl, ⟨[.history limit before], requests_eq rfl (congrArg _ h) rfl rfl⟩,
      by simp, by simp [flagShows, Handler.ahead, h], fun _ => rfl, .inr (.inl rfl)⟩
  | @reply r h =>
    exact ⟨rfl, rfl, rfl, rfl, live_reply r, ⟨[], requests_eq hsame (congrArg _ h) rfl rfl⟩,
      le_refl _, by simp [flagShows, Handler.ahead, h], fun _ => rfl, .inr (.inl rfl)⟩
  | pong data h =>
    exact ⟨rfl, rfl, rfl, rfl, live_pong data, ⟨[], requests_eq hsame (congrArg _ h) (congrArg _ h) rfl⟩,
      le_refl _, le_refl _, fun _ => rfl, .inr (.inl rfl)⟩

end Connection

end AlephCore.WebSocket
