import AlephCore.Web.LiveStream

/-!
# LiveDelivery — what the clients are sent

Over whole runs of all clients: what was broadcast since a client was there is forwarded in order and at most once,
or missed, ignored, not matched or dropped, and every message that was looked at is judged by the session that some
number of requests left behind.  Two locks instead of one cost as much as one message for each unsubscription.
-/

namespace AlephCore.WebSocket

open Broadcast

namespace Connection

variable {c c' : Connection} {sent : List Message}

/-! ## The stream of a connection -/

/-- What the outcome says of the message. -/
def Fits (c : Connection) (m : Message) : Outcome → Prop
  | .ignored k => (c.sessionAfter k).subscribed = false
  | .unmatched k => (c.sessionAfter k).filter.«matches» m = false
  | .forwarded k => (c.sessionAfter k).filter.«matches» m = true
  | .dropped => True

/-- The message was forwarded by a session that had ended. -/
def isLate (c : Connection) : Option Outcome → Bool
  | some (.forwarded k) => !(c.sessionAfter k).subscribed
  | _ => false

/-- How many messages were forwarded late. -/
def late (c : Connection) : Nat := c.outcomes.countP c.isLate

/-- The numbers of requests by which the messages were judged. -/
def stamps (c : Connection) : List Nat := c.outcomes.filterMap Outcome.stamp?

/-- The number of requests by which the next message is judged at least. -/
def seen (c : Connection) : Nat :=
  match c.forward with
  | .subscribed _ => c.handled.length
  | .sending _ k => k
  | _ => c.flagShows

/-- The message that is held is forwarded late, if it is. -/
def mayBeLate (c : Connection) : Nat :=
  match c.forward with
  | .subscribed _ => if c.session.subscribed then 0 else 1
  | .sending _ k => if (c.sessionAfter k).subscribed then 0 else 1
  | _ => 0

/-- What holds of the stream of a connection: each message that was broadcast since it was there is missed, ignored,
not matched, forwarded or dropped, and judged by the session after some requests. -/
structure Stream (sent : List Message) (c : Connection) : Prop where
  follows : Follows messageCapacity sent c.start c.outcomes c.forward.held c.next
  live : c.live = picked Outcome.isForwarded (sent.drop c.start) c.outcomes
  fits : ∀ i o m, c.outcomes[i]? = some (some o) → sent[c.start + i]? = some m → c.Fits m o
  ordered : (c.stamps ++ [c.seen]).Pairwise (· ≤ ·)
  /-- The filter in force matches the message that is being sent. -/
  sending : ∀ m k, c.forward = .sending m k → k ≤ c.handled.length ∧ c.session.filter.«matches» m = true ∧
    (c.sessionAfter k).filter.«matches» m = true
  late : c.late + c.mayBeLate ≤ c.requests.countP SubscriptionRequest.isUnsubscribe

theorem handled_le : c.handled.length ≤ c.flagShows := Nat.le_add_right _ _

theorem flagShows_le : c.flagShows ≤ c.requests.length := by
  unfold flagShows requests
  rw [List.length_append]
  refine Nat.add_le_add_left ?_ _
  cases c.handler <;> first | exact Nat.zero_le _ | exact le_refl _

theorem Stream.seen_le (h : c.Stream sent) : c.seen ≤ c.flagShows := by
  unfold seen
  cases hforward : c.forward with
  | subscribed m => exact handled_le
  | sending m k => exact (h.sending m k hforward).1.trans handled_le
  | _ => exact le_refl _

/-- A message was judged by no more requests than the next one is. -/
theorem Stream.stamp_le (h : c.Stream sent) {o : Option Outcome} (ho : o ∈ c.outcomes) {k : Nat}
    (hk : Outcome.stamp? o = some k) : k ≤ c.seen := by
  have hmem : k ∈ c.stamps := List.mem_filterMap.2 ⟨o, ho, hk⟩
  exact (List.pairwise_append.1 h.ordered).2.2 k hmem c.seen (List.mem_singleton_self _)

/-- The requests that follow do not change what the earlier ones left behind. -/
theorem Extends.sessionAfter (h : c.Extends c') {k : Nat} (hk : k ≤ c.requests.length) :
    c'.sessionAfter k = c.sessionAfter k := by
  obtain ⟨more, hmore⟩ := h.requests
  unfold Connection.sessionAfter
  rw [h.ctx, h.initial, hmore, List.take_append_of_le_length hk]

theorem Extends.fits (h : c.Extends c') {m : Message} {o : Outcome}
    (ho : ∀ k, Outcome.stamp? (some o) = some k → k ≤ c.requests.length) (hfits : c.Fits m o) : c'.Fits m o := by
  cases o with
  | dropped => trivial
  | ignored k | unmatched k | forwarded k =>
    unfold Fits at hfits ⊢
    dsimp only at hfits ⊢
    rw [h.sessionAfter (ho k rfl)]
    exact hfits

theorem Extends.isLate (h : c.Extends c') {o : Option Outcome}
    (ho : ∀ k, Outcome.stamp? o = some k → k ≤ c.requests.length) : c'.isLate o = c.isLate o := by
  cases o with
  | none => rfl
  | some o =>
    cases o with
    | forwarded k =>
      unfold Connection.isLate
      dsimp only
      rw [h.sessionAfter (ho k rfl)]
    | _ => rfl

/-! ### The stream goes on -/

section Ordered

variable {l : List Nat} {a b : Nat}

theorem pairwise_raise (h : (l ++ [a]).Pairwise (· ≤ ·)) (hab : a ≤ b) : (l ++ [b]).Pairwise (· ≤ ·) := by
  obtain ⟨hl, -, hle⟩ := List.pairwise_append.1 h
  refine List.pairwise_append.2 ⟨hl, List.pairwise_singleton _ _, fun x hx y hy => ?_⟩
  obtain rfl := List.mem_singleton.1 hy
  exact (hle x hx a (List.mem_singleton_self _)).trans hab

theorem pairwise_grow (h : (l ++ [a]).Pairwise (· ≤ ·)) (hab : a ≤ b) : (l ++ [a] ++ [b]).Pairwise (· ≤ ·) := by
  refine List.pairwise_append.2 ⟨h, List.pairwise_singleton _ _, fun x hx y hy => ?_⟩
  obtain rfl := List.mem_singleton.1 hy
  rcases List.mem_append.1 hx with hx | hx
  · exact ((List.pairwise_append.1 h).2.2 x hx a (List.mem_singleton_self _)).trans hab
  · exact (List.mem_singleton.1 hx).trans_le hab

end Ordered

/-- Another message is broadcast. -/
theorem Stream.send (h : c.Stream sent) (m : Message) : c.Stream (sent ++ [m]) where
  follows := h.follows.send m
  live := by
    have hlength := h.follows.length_le
    rw [List.drop_append_of_le_length (by omega), picked_send (by rw [List.length_drop]; omega)]
    exact h.live
  fits i o n hi hn := by
    have hlength := h.follows.length_le
    obtain ⟨hlt, -⟩ := List.getElem?_eq_some_iff.1 hi
    rw [List.getElem?_append_left (by omega)] at hn
    exact h.fits i o n hi hn
  ordered := h.ordered
  sending := h.sending
  late := h.late

/-- **The message that is held is settled.** -/
theorem Stream.settle {f : Forward} {o : Outcome} {wire : List Outgoing} {m : Message} (h : c.Stream sent)
    (hheld : c.forward.held = some m) (hf : f = .receiving ∨ f = .stopped)
    (hlive : wire.filterMap Outgoing.live? = c.live ++ if o.isForwarded then [m] else []) (hfits : c.Fits m o)
    (hstamp : ∀ k, Outcome.stamp? (some o) = some k → c.seen ≤ k ∧ k ≤ c.flagShows)
    (hlate : (if c.isLate (some o) then 1 else 0) ≤ c.mayBeLate) :
    Stream sent { c with forward := f, outcomes := c.outcomes ++ [some o], wire } := by
  have hfollows := h.follows
  rw [hheld] at hfollows
  have hfound : sent[c.start + c.outcomes.length]? = some m := hfollows.holds m rfl
  have hnone : f.held = none := by
    rcases hf with rfl | rfl <;> rfl
  exact {
    follows := by
      rw [show ({ c with forward := f, outcomes := c.outcomes ++ [some o], wire } : Connection).forward.held = none
        from hnone]
      exact hfollows.settle o
    live := by
      have hdrop : (sent.drop c.start)[c.outcomes.length]? = some m := by
        rw [List.getElem?_drop]
        exact hfound
      have hpicked := picked_settle (p := Outcome.isForwarded) hdrop o
      exact hlive.trans ((congrArg (· ++ if o.isForwarded then [m] else []) h.live).trans hpicked.symm)
    fits := by
      intro i o' m' hi hm'
      rcases Nat.lt_trichotomy i c.outcomes.length with hlt | rfl | hgt
      · rw [List.getElem?_append_left hlt] at hi
        exact h.fits i o' m' hi hm'
      · rw [List.getElem?_concat_length] at hi
        obtain rfl := Option.some.inj (Option.some.inj hi)
        obtain rfl := Option.some.inj (hfound.symm.trans hm')
        exact hfits
      · rw [List.getElem?_eq_none (by rw [List.length_append]; exact hgt)] at hi
        cases hi
    ordered := by
      have hseen : ({ c with forward := f, outcomes := c.outcomes ++ [some o], wire } : Connection).seen =
          c.flagShows := by
        rcases hf with rfl | rfl <;> rfl
      have hstamps : ({ c with forward := f, outcomes := c.outcomes ++ [some o], wire } : Connection).stamps =
          c.stamps ++ (Outcome.stamp? (some o)).toList := by
        unfold stamps
        dsimp only
        rw [List.filterMap_append]
        cases o <;> rfl
      rw [hseen, hstamps]
      cases hk : Outcome.stamp? (some o) with
      | none =>
        rw [Option.toList_none, List.append_nil]
        exact pairwise_raise h.ordered h.seen_le
      | some k =>
        obtain ⟨hle, hge⟩ := hstamp k hk
        exact pairwise_grow (pairwise_raise h.ordered hle) hge
    sending := by
      rcases hf with rfl | rfl <;> rintro _ _ ⟨⟩
    late := by
      have hnow : ({ c with forward := f, outcomes := c.outcomes ++ [some o], wire } : Connection).mayBeLate = 0 := by
        rcases hf with rfl | rfl <;> rfl
      have hcount : ({ c with forward := f, outcomes := c.outcomes ++ [some o], wire } : Connection).late =
          c.late + if c.isLate (some o) then 1 else 0 := by
        unfold Connection.late
        dsimp only
        rw [List.countP_append, List.countP_singleton]
        rfl
      rw [hnow, hcount]
      exact (Nat.add_le_add_left hlate _).trans h.late }

/-- **A step of the forwarding task.** -/
theorem Stream.forward (h : c.Stream sent) (hsession : c.SessionFits) (hstep : c.ForwardStep sent c') :
    c'.Stream sent := by
  cases hstep with
  | @receive m next hforward hrecv =>
    have hfollows := h.follows
    have hordered := h.ordered
    have hlate := h.late
    unfold seen at hordered
    unfold mayBeLate at hlate
    rw [hforward] at hfollows hordered hlate
    exact ⟨hfollows.receive hrecv, h.live, h.fits, hordered, by rintro _ _ ⟨⟩, hlate⟩
  | @lag missed next hforward hrecv =>
    have hfollows := h.follows
    rw [hforward] at hfollows
    have hnone : ∀ {γ : Type} (f : Option Outcome → Option γ), f none = none →
        (List.replicate missed none).filterMap f = [] := by
      intro γ f hf
      rw [List.filterMap_eq_nil_iff]
      intro o ho
      rw [List.eq_of_mem_replicate ho, hf]
    exact {
      follows := by
        have hlag := hfollows.lag hrecv
        rw [← show c.forward.held = none from congrArg Forward.held hforward] at hlag
        exact hlag
      live := h.live.trans (picked_missed missed).symm
      fits := by
        intro i o m hi hm
        by_cases hlt : i < c.outcomes.length
        · rw [List.getElem?_append_left hlt] at hi
          exact h.fits i o m hi hm
        · rw [List.getElem?_append_right (Nat.le_of_not_lt hlt)] at hi
          exact absurd (List.eq_of_mem_replicate (List.mem_of_getElem? hi)) (by simp)
      ordered := by
        have hstamps : ({ c with outcomes := c.outcomes ++ List.replicate missed none, next } : Connection).stamps =
            c.stamps := by
          unfold stamps
          dsimp only
          rw [List.filterMap_append, hnone _ rfl, List.append_nil]
        rw [hstamps]
        exact h.ordered
      sending := h.sending
      late := by
        have hcount : ({ c with outcomes := c.outcomes ++ List.replicate missed none, next } : Connection).late =
            c.late := by
          unfold Connection.late
          dsimp only
          rw [List.countP_append, List.countP_replicate]
          rfl
        rw [hcount]
        exact h.late }
  | @flagSet m hforward hflag =>
    have hfollows := h.follows
    have hordered := h.ordered
    have hlate := h.late
    have hahead : c.flagShows = c.handled.length := by
      unfold SessionFits at hsession
      unfold flagShows
      cases hhandler : c.handler with
      | unsubscribing =>
        rw [hhandler] at hsession
        dsimp only at hsession
        rw [hsession] at hflag
        cases hflag
      | _ => rfl
    unfold seen at hordered
    unfold mayBeLate at hlate
    rw [hforward] at hfollows hordered hlate
    dsimp only at hordered
    rw [hahead] at hordered
    refine ⟨hfollows, h.live, h.fits, hordered, by rintro _ _ ⟨⟩, ?_⟩
    unfold mayBeLate
    dsimp only
    rw [if_pos hflag]
    exact hlate
  | @flagClear m hforward hflag =>
    have hseen : c.seen = c.flagShows := by
      unfold seen
      rw [hforward]
    refine h.settle (m := m) (congrArg Forward.held hforward) (.inl rfl) (List.append_nil _).symm
      (hsession.flag.symm.trans hflag) ?_ (Nat.zero_le _)
    rintro k ⟨⟩
    exact ⟨hseen.le, le_refl _⟩
  | @matched m hforward hfree hmatch =>
    have hfollows := h.follows
    have hordered := h.ordered
    have hlate := h.late
    unfold seen at hordered
    unfold mayBeLate at hlate
    rw [hforward] at hfollows hordered hlate
    refine ⟨hfollows, h.live, h.fits, hordered, ?_, ?_⟩
    · rintro _ _ ⟨⟩
      have hfilter := hsession.filter hfree
      exact ⟨le_refl _, hmatch, (congrArg (fun f => SubscriptionFilter.«matches» f m) hfilter).symm.trans hmatch⟩
    · refine (Nat.add_le_add_left ?_ c.late).trans hlate
      show (if (c.sessionAfter c.handled.length).subscribed then 0 else 1) ≤ if c.session.subscribed then 0 else 1
      by_cases hended : (c.sessionAfter c.handled.length).subscribed = true
      · rw [if_pos hended]
        exact Nat.zero_le _
      · rw [if_neg hended, hsession.ended (Bool.eq_false_iff.2 hended)]
        exact le_refl _
  | @unmatched m hforward hfree hmatch =>
    have hseen : c.seen = c.handled.length := by
      unfold seen
      rw [hforward]
    have hfilter := hsession.filter hfree
    refine h.settle (m := m) (congrArg Forward.held hforward) (.inl rfl) (List.append_nil _).symm
      ((congrArg (fun f => SubscriptionFilter.«matches» f m) hfilter).symm.trans hmatch) ?_ (Nat.zero_le _)
    rintro k ⟨⟩
    exact ⟨hseen.le, handled_le⟩
  | @send m k hforward =>
    obtain ⟨hle, -, hmatch⟩ := h.sending m k hforward
    have hseen : c.seen = k := by
      unfold seen
      rw [hforward]
    refine h.settle (m := m) (congrArg Forward.held hforward) (.inl rfl) (live_append (.live m)) hmatch ?_ ?_
    · rintro _ ⟨⟩
      exact ⟨hseen.le, hle.trans handled_le⟩
    · unfold mayBeLate isLate
      rw [hforward]
      dsimp only
      by_cases hended : (c.sessionAfter k).subscribed = true
      · simp [hended]
      · simp [hended]
  | @sendFailed m k hforward =>
    refine h.settle (m := m) (congrArg Forward.held hforward) (.inr rfl) (List.append_nil _).symm trivial ?_
      (Nat.zero_le _)
    rintro _ ⟨⟩

/-- The held message is dropped, if there is one. -/
theorem Stream.abort (h : c.Stream sent) : Stream sent { c with
    forward := .stopped, outcomes := c.outcomes ++ c.forward.held.toList.map fun _ => some .dropped } := by
  cases hheld : c.forward.held with
  | some m =>
    refine h.settle hheld (.inr rfl) (List.append_nil _).symm trivial ?_ (Nat.zero_le _)
    rintro _ ⟨⟩
  | none =>
    have hfollows := h.follows
    rw [hheld] at hfollows
    rw [show c.outcomes ++ (none : Option Message).toList.map (fun _ => some .dropped) = c.outcomes from
      List.append_nil _]
    exact ⟨hfollows, h.live, h.fits, pairwise_raise h.ordered h.seen_le, by rintro _ _ ⟨⟩,
      (Nat.le_add_right c.late c.mayBeLate).trans h.late⟩

/-- **Steps that extend the requests**, while the forwarding task goes on. -/
theorem Stream.extends (h : c.Stream sent) (hext : c.Extends c') (hforward : c'.forward = c.forward)
    (houtcomes : c'.outcomes = c.outcomes) : c'.Stream sent := by
  have hstamps : ∀ o ∈ c.outcomes, ∀ k, Outcome.stamp? o = some k → k ≤ c.requests.length := fun o ho k hk =>
    ((h.stamp_le ho hk).trans h.seen_le).trans flagShows_le
  exact {
    follows := by
      rw [hext.start, houtcomes, hforward, hext.next]
      exact h.follows
    live := by
      rw [hext.live, hext.start, houtcomes]
      exact h.live
    fits := by
      intro i o m hi hm
      rw [houtcomes] at hi
      rw [hext.start] at hm
      exact hext.fits (fun k hk => hstamps _ (List.mem_of_getElem? hi) k hk) (h.fits i o m hi hm)
    ordered := by
      have hseen : c.seen ≤ c'.seen := by
        unfold seen
        rw [hforward]
        cases c.forward with
        | subscribed m => exact hext.handled
        | sending m k => exact le_refl _
        | _ => exact hext.flagShows
      have hsame : c'.stamps = c.stamps := congrArg (List.filterMap Outcome.stamp?) houtcomes
      rw [hsame]
      exact pairwise_raise h.ordered hseen
    sending := by
      intro m k hsending
      rw [hforward] at hsending
      obtain ⟨hle, hmatch, hjudged⟩ := h.sending m k hsending
      have hreading : c.forward.Reading := by
        rw [hsending]
        trivial
      rw [hext.filter hreading, hext.sessionAfter ((hle.trans handled_le).trans flagShows_le)]
      exact ⟨hle.trans hext.handled, hmatch, hjudged⟩
    late := by
      have hcount : c'.late = c.late := by
        unfold Connection.late
        rw [houtcomes]
        exact List.countP_congr fun o ho => by rw [hext.isLate (hstamps o ho)]
      obtain ⟨more, hmore⟩ := hext.requests
      have hmono : c.requests.countP SubscriptionRequest.isUnsubscribe ≤
          c'.requests.countP SubscriptionRequest.isUnsubscribe := by
        rw [hmore, List.countP_append]
        exact Nat.le_add_right _ _
      rw [hcount]
      cases hheld : c.forward with
      | subscribed m =>
        have hlate := h.late
        unfold mayBeLate at hlate ⊢
        rw [hheld] at hlate
        rw [hforward, hheld]
        dsimp only at hlate ⊢
        rcases hext.cleared with hset | hsame | hended
        · rw [if_pos hset]
          omega
        · rw [hsame]
          exact hlate.trans hmono
        · rw [hended, List.countP_append]
          have hone : [SubscriptionRequest.unsubscribe].countP SubscriptionRequest.isUnsubscribe = 1 := rfl
          split_ifs <;> omega
      | sending m k =>
        have hlate := h.late
        have hle := (h.sending m k hheld).1
        unfold mayBeLate at hlate ⊢
        rw [hheld] at hlate
        rw [hforward, hheld]
        dsimp only at hlate ⊢
        rw [hext.sessionAfter ((hle.trans handled_le).trans flagShows_le)]
        exact hlate.trans hmono
      | _ =>
        have hnone : c'.mayBeLate = 0 := by
          unfold mayBeLate
          rw [hforward, hheld]
        rw [hnone]
        exact ((Nat.le_add_right c.late c.mayBeLate).trans h.late).trans hmono }

/-- The forwarding task is spawned. -/
theorem Stream.spawn (h : c.Stream sent) (hforward : c.forward = .notSpawned) :
    Stream sent { c with forward := .receiving } := by
  have hfollows := h.follows
  have hordered := h.ordered
  have hlate := h.late
  unfold seen at hordered
  unfold mayBeLate at hlate
  rw [hforward] at hfollows hordered hlate
  exact ⟨hfollows, h.live, h.fits, hordered, by rintro _ _ ⟨⟩, hlate⟩

/-- **A step of the handler.** -/
theorem Stream.handler (h : c.Stream sent) (hspawned : c.Spawned) (hstep : c.HandlerStep c') : c'.Stream sent := by
  have hext := hstep.extends
  cases hstep with
  | spawn hopening =>
    have hforward : c.forward = .notSpawned := by
      unfold Spawned at hspawned
      rw [hopening] at hspawned
      exact hspawned
    have hquiet : c.Extends { c with handler := .waiting } := .quiet (congrArg _ hopening) rfl
    exact (h.extends hquiet rfl rfl).spawn hforward
  | abort hclosing =>
    have hquiet : c.Extends { c with handler := .leaving } := .quiet (congrArg _ hclosing) rfl
    exact (h.extends hquiet rfl rfl).abort
  | _ => exact h.extends hext rfl rfl

/-! ## The invariant of a connection -/

/-- What holds of a connection in every state. -/
structure Holds (sent : List Message) (c : Connection) : Prop where
  stream : c.Stream sent
  session : c.SessionFits
  spawned : c.Spawned

theorem Holds.accept (ctx : SessionContext) (query : WsQuery) (sent : List Message) :
    (accept ctx query sent.length).Holds sent where
  stream := {
    follows := .subscribe messageCapacity sent
    live := by
      unfold Connection.accept
      dsimp only
      rw [List.drop_length]
      rfl
    fits := by rintro _ _ _ ⟨⟩
    ordered := List.pairwise_singleton _ _
    sending := by rintro _ _ ⟨⟩
    late := le_refl _ }
  session := rfl
  spawned := rfl

theorem Spawned.step (h : c.Spawned) (hstep : c.Step sent c') : c'.Spawned := by
  unfold Spawned at h ⊢
  rcases hstep with hstep | hstep
  · cases hstep with
    | greet hopening | greetFailed hopening =>
      rw [hopening] at h
      exact h
    | pong data hwaiting =>
      dsimp only
      rw [hwaiting]
      trivial
    | _ => trivial
  · cases hstep with
    | lag hforward =>
      exact h
    | receive hforward | flagSet hforward | flagClear hforward | matched hforward | unmatched hforward
      | send hforward | sendFailed hforward =>
      dsimp only
      rw [hforward] at h
      cases hhandler : c.handler with
      | accepted query | opening replies =>
        rw [hhandler] at h
        cases h
      | _ => trivial

/-- **One step of a connection.** -/
theorem Holds.step (h : c.Holds sent) (hstep : c.Step sent c') : c'.Holds sent where
  stream := hstep.elim (h.stream.handler h.spawned) (h.stream.forward h.session)
  session := hstep.elim h.session.handler h.session.forward
  spawned := h.spawned.step hstep

end Connection

/-! ## All connections -/

namespace WsState

variable {s s' : WsState}

/-- The client has been counted and is not discounted yet. -/
def Counts (c : Connection) : Bool :=
  match c.handler with
  | .accepted _ => false
  | .closed => false
  | _ => true

/-- What holds in every state: of each connection, and of the count. -/
structure Holds (s : WsState) : Prop where
  clients : ∀ c ∈ s.clients, c.Holds s.sent
  count : s.clientCount = s.clients.countP Counts

theorem counts_step {c c' : Connection} {sent : List Message} (hstep : c.Step sent c') : Counts c' = Counts c := by
  unfold Counts
  rcases hstep with hstep | hstep
  · cases hstep with
    | pong data h => rfl
    | greet h | greetFailed h | spawn h | subscribe _ _ _ _ h _ | subscribed h | update _ _ _ _ h _ | unsubscribe h
      | unsubscribed h _ | ping _ h | history _ _ _ h | invalid _ h | reply h | replyFailed h | close h | abort h =>
      rw [h]
  · cases hstep <;> rfl

/-- One connection goes on, and the others stay. -/
theorem Holds.replace {sent : List Message} {cs ds : List Connection} {c c' : Connection} {n n' : Nat}
    (h : Holds ⟨sent, cs ++ c :: ds, n⟩) (hc : c.Holds sent → c'.Holds sent)
    (hn : n = (cs ++ c :: ds).countP Counts → n' = (cs ++ c' :: ds).countP Counts) :
    Holds ⟨sent, cs ++ c' :: ds, n'⟩ where
  clients := by
    intro d hd
    rcases List.mem_append.1 hd with hd | hd
    · exact h.clients d (List.mem_append_left _ hd)
    · rcases List.mem_cons.1 hd with rfl | hd
      · exact hc (h.clients c (List.mem_append_right _ List.mem_cons_self))
      · exact h.clients d (List.mem_append_right _ (List.mem_cons_of_mem _ hd))
  count := hn h.count

/-- **One step of all tasks.** -/
theorem Holds.step (h : s.Holds) (hstep : Step s s') : s'.Holds := by
  cases hstep with
  | relay _ content =>
    unfold relay
    cases Message.decode content with
    | error e => exact h
    | ok m =>
      refine ⟨fun c hc => ?_, h.count⟩
      obtain ⟨hstream, hsession, hspawned⟩ := h.clients c hc
      exact ⟨hstream.send m, hsession, hspawned⟩
  | accept _ ctx query =>
    refine ⟨fun c hc => ?_, ?_⟩
    · rcases List.mem_append.1 hc with hc | hc
      · exact h.clients c hc
      · obtain rfl := List.mem_singleton.1 hc
        exact .accept ctx query s.sent
    · dsimp only
      rw [h.count, List.countP_append]
      rfl
  | @connected sent cs ds c n query db haccepted =>
    refine h.replace (fun hc => ⟨?_, ?_, ?_⟩) fun hn => ?_
    · exact hc.stream.extends (.quiet (congrArg _ haccepted) rfl) rfl rfl
    · have hsession := hc.session
      unfold Connection.SessionFits at hsession ⊢
      rw [haccepted] at hsession
      exact hsession
    · have hspawned := hc.spawned
      unfold Connection.Spawned at hspawned ⊢
      rw [haccepted] at hspawned
      exact hspawned
    · have hold : Counts c = false := by
        unfold Counts
        rw [haccepted]
      rw [hn, List.countP_append, List.countP_append, List.countP_cons_of_neg (by rw [hold]; exact Bool.false_ne_true),
        List.countP_cons_of_pos rfl]
      rfl
  | @client sent cs ds c c' n hclient =>
    refine h.replace (fun hc => hc.step hclient) fun hn => ?_
    rw [hn, List.countP_append, List.countP_append, List.countP_cons, List.countP_cons, counts_step hclient]
  | @disconnected sent cs ds c n hleaving =>
    refine h.replace (fun hc => ⟨?_, ?_, trivial⟩) fun hn => ?_
    · exact hc.stream.extends (.quiet (congrArg _ hleaving) rfl) rfl rfl
    · have hsession := hc.session
      unfold Connection.SessionFits at hsession ⊢
      rw [hleaving] at hsession
      exact hsession
    · have hold : Counts c = true := by
        unfold Counts
        rw [hleaving]
      rw [hn, List.countP_append, List.countP_append, List.countP_cons_of_pos hold,
        List.countP_cons_of_neg Bool.false_ne_true]
      rfl

theorem holds_of_run (hrun : Relation.ReflTransGen Step new s) : s.Holds := by
  induction hrun with
  | refl => exact ⟨fun _ hc => absurd hc List.not_mem_nil, rfl⟩
  | tail _ hstep ih => exact ih.step hstep

/-- **The streams of all clients**: whatever is broadcast, requested, refused and closed in between, a client is sent,
once and in order, the messages that its outcomes say were forwarded; only what is further back than the buffer
is missed; the session of some number of requests judged each message, later messages by later sessions; and there
are no more messages that a session forwarded after its end than unsubscriptions. -/
theorem stream_of_run (hrun : Relation.ReflTransGen Step new s) {c : Connection} (hc : c ∈ s.clients) :
    c.Stream s.sent := ((holds_of_run hrun).clients c hc).stream

/-- What a client is sent was broadcast after it came, in this order and each message at most once. -/
theorem live_sublist (hrun : Relation.ReflTransGen Step new s) {c : Connection} (hc : c ∈ s.clients) :
    c.live.Sublist (s.sent.drop c.start) := by
  rw [((holds_of_run hrun).clients c hc).stream.live]
  exact picked_sublist

/-- **The count of clients** is that of the connections that have been counted and not discounted. -/
theorem clientCount_of_run (hrun : Relation.ReflTransGen Step new s) : s.clientCount = s.clients.countP Counts :=
  (holds_of_run hrun).count

/-- **A client that stays subscribed** is sent what its filter matches: all of it and nothing else, if it requests
nothing, falls never behind the buffer and has nothing left to read. -/
theorem live_of_subscribed (hrun : Relation.ReflTransGen Step new s) {c : Connection} (hc : c ∈ s.clients)
    (hrequests : c.requests = []) (hsubscribed : c.initial.subscribed = true)
    (hkept : ∀ o ∈ c.outcomes, o ≠ none ∧ o ≠ some .dropped) (hidle : c.forward = .receiving)
    (hread : c.next = s.sent.length) : c.live = (s.sent.drop c.start).filter fun m => c.initial.filter.«matches» m := by
  obtain ⟨hfollows, hlive, hfits, -⟩ := stream_of_run hrun hc
  have hposition := hfollows.position
  rw [hidle, hread] at hposition
  have hnone : Forward.receiving.held.toList.length = 0 := rfl
  have hinitial : ∀ k, c.sessionAfter k = c.initial := by
    intro k
    unfold Connection.sessionAfter
    rw [hrequests, List.take_nil]
    rfl
  rw [hlive]
  have hlength : c.outcomes.length = (s.sent.drop c.start).length := by
    rw [List.length_drop]
    have hknown := hfollows.length_le
    omega
  refine picked_eq_filter hlength fun i o m ho hm => ?_
  rw [List.getElem?_drop] at hm
  obtain ⟨hnot, hdropped⟩ := hkept o (List.mem_of_getElem? ho)
  obtain ⟨r, rfl⟩ := Option.ne_none_iff_exists'.1 hnot
  refine ⟨r, rfl, ?_⟩
  have hjudged := hfits i r m ho hm
  unfold Connection.Fits at hjudged
  cases r with
  | ignored k =>
    dsimp only at hjudged
    rw [hinitial, hsubscribed] at hjudged
    cases hjudged
  | unmatched k | forwarded k =>
    dsimp only at hjudged
    rw [hinitial] at hjudged
    exact hjudged.symm
  | dropped => exact absurd rfl hdropped

/-! ### A message after the end of a subscription -/

section Race

def raceCtx : SessionContext := ⟨id, .sorted, "5d2a", none⟩

def noQuery : WsQuery := ⟨none, none, none, none, none⟩

/-- A subscription to another address. -/
def elsewhere : SubscriptionRequest := .subscribe ["0x1234"] [] [] []

/-- The client has been told that it is unsubscribed, and then sent a message that it never subscribed to. -/
def raced : Connection where
  ctx := raceCtx
  initial := ⟨.new, false⟩
  session := ⟨.new, false⟩
  forward := .receiving
  handler := .waiting
  start := 0
  next := 1
  handled := [elsewhere, .unsubscribe]
  outcomes := [some (.forwarded 2)]
  wire := [.reply (.subscribed "5d2a" 1), .reply .unsubscribed, .live unlisted]

theorem relay_toJson (s : WsState) (m : Message) : s.relay m.toJson = { s with sent := s.sent ++ [m] } := by
  unfold relay
  rw [Message.decode_toJson]

theorem recv_first (m : Message) : recv messageCapacity [m] 0 = some (.message m, 1) := by
  have hkept : ¬ 0 + messageCapacity < [m].length := by
    unfold messageCapacity
    simp
  unfold recv
  rw [if_neg hkept]
  rfl

/-- A step of the only client. -/
theorem step_alone {sent : List Message} {c c' : Connection} {n : Nat} (h : c.Step sent c') :
    Step ⟨sent, [c], n⟩ ⟨sent, [c'], n⟩ := @Step.client sent [] [] c c' n h

/-- The client connects and subscribes, and a message that it did not subscribe to is received. -/
theorem run_subscribed : Relation.ReflTransGen Step new ⟨[unlisted], [{ raced with
    session := ⟨⟨{"0x1234"}, ∅, ∅, ∅⟩, true⟩
    forward := .subscribed unlisted
    handled := [elsewhere]
    outcomes := []
    wire := [.reply (.subscribed "5d2a" 1)] }], 1⟩ := by
  refine .head (.accept new raceCtx noQuery) ?_
  refine .head (@Step.connected [] [] [] (.accept raceCtx noQuery 0) 0 noQuery none rfl) ?_
  refine .head (step_alone (.inl (.spawn rfl))) ?_
  refine .head (step_alone (.inl (.subscribe ["0x1234"] [] [] [] rfl id))) ?_
  refine .head (step_alone (.inl (.subscribed rfl))) ?_
  refine .head (step_alone (.inl (.reply rfl))) ?_
  refine .head (.relay _ unlisted.toJson) ?_
  rw [relay_toJson]
  refine .head (step_alone (.inr (.receive rfl (recv_first unlisted)))) ?_
  refine .head (step_alone (.inr (.flagSet rfl rfl))) ?_
  exact .refl

theorem run_raced : Relation.ReflTransGen Step new ⟨[unlisted], [raced], 1⟩ := by
  refine run_subscribed.trans ?_
  refine .head (step_alone (.inl (.unsubscribe rfl))) ?_
  refine .head (step_alone (.inl (.unsubscribed rfl id))) ?_
  refine .head (step_alone (.inl (.reply rfl))) ?_
  refine .head (step_alone (.inr (.matched rfl id (by decide +kernel)))) ?_
  refine .head (step_alone (.inr (.send rfl))) ?_
  exact .refl

/-- The stream of the client that was raced. -/
theorem raced_stream : raced.Stream [unlisted] := stream_of_run run_raced (List.mem_singleton_self _)

/-- One message was late, and the filter of the client did not match it. -/
theorem raced_late : raced.late = 1 ∧ (raced.sessionAfter 1).filter.«matches» unlisted = false := by
  decide +kernel

end Race

section Watched

/-- A subscription to the address that sends the message. -/
def watcher : WsQuery := ⟨some "0x8fa7De588b149EFa9F1FdBe307921842F27B37C7", none, none, none, none⟩

/-- The client is sent the message. -/
def watched : Connection :=
  { Connection.accept raceCtx watcher 0 with
    forward := .receiving
    handler := .waiting
    next := 1
    outcomes := [some (.forwarded 0)]
    wire := [.reply (.subscribed "5d2a" 1), .live unlisted] }

theorem run_watched : Relation.ReflTransGen Step new ⟨[unlisted], [watched], 1⟩ := by
  have hsubscribed : (connect raceCtx watcher).2.subscribed = true := by decide +kernel
  have hopening : (connect { raceCtx with db := none } watcher).1 = [.subscribed "5d2a" 1] := by
    have hcount : (connect raceCtx watcher).2.filter.filterCount = 1 := by decide +kernel
    have hreplies : (connect { raceCtx with db := none } watcher).1 =
        if (connect raceCtx watcher).2.subscribed then
          [.subscribed "5d2a" (connect raceCtx watcher).2.filter.filterCount] else [] := rfl
    rw [hreplies, if_pos hsubscribed, hcount]
  refine .head (.accept new raceCtx watcher) ?_
  refine .head (@Step.connected [] [] [] (.accept raceCtx watcher 0) 0 watcher none rfl) ?_
  refine .head (step_alone (.inl (.greet (congrArg Handler.opening hopening)))) ?_
  refine .head (step_alone (.inl (.spawn rfl))) ?_
  refine .head (.relay _ unlisted.toJson) ?_
  rw [relay_toJson]
  refine .head (step_alone (.inr (.receive rfl (recv_first unlisted)))) ?_
  refine .head (step_alone (.inr (.flagSet rfl hsubscribed))) ?_
  refine .head (step_alone (.inr (.matched rfl id (by decide +kernel)))) ?_
  refine .head (step_alone (.inr (.send rfl))) ?_
  exact .refl

theorem watched_live : watched.live = [unlisted].filter fun m => watched.initial.filter.«matches» m := by
  have hkept : ∀ o ∈ watched.outcomes, o ≠ none ∧ o ≠ some .dropped := by
    intro o ho
    obtain rfl := List.mem_singleton.1 ho
    exact ⟨nofun, nofun⟩
  exact live_of_subscribed run_watched (List.mem_singleton_self _) rfl (by decide +kernel) hkept rfl rfl

end Watched

end WsState

end AlephCore.WebSocket
