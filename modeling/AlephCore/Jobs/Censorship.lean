import AlephCore.Jobs.OneStatus
import AlephCore.Jobs.P2pConsumer
import Mathlib.Data.List.Induction

/-!
# Censorship — the same run with and without the deliveries of others

Two runs of a node in lockstep: the processor makes the same moves in both, and the second one also gets
deliveries that carry the hash of a message `m` but another sender or an invalid signature.  They do not matter
as long as they leave the queue alone.  One that enters it takes the only place for the hash of `m`.
-/

namespace AlephCore.P2pConsumer

open ProgE Prog MessageProcessor ForgetHandler

/-! ## Runs -/

/-- The node with its processor, and the cache of the consumer. -/
structure State where
  world : World
  cache : DedupCache

/-- A way for the processor to go on from wherever it stands: any number of its steps, with everything decided
that the schedule, the services and the database leave open. -/
structure Move where
  next : World → World
  legal : ∀ w, Relation.ReflTransGen (Step fun _ _ => False) w (next w)

inductive Event where
  | delivery (d : Delivery)
  | processor (move : Move)

def State.receive (ctx : P2pConsumerContext) (d : Delivery) (s : State) : State :=
  let (cache, node) := deliver ctx d s.cache s.world.node
  ⟨{ s.world with node }, cache⟩

def Event.apply (ctx : P2pConsumerContext) : Event → State → State
  | .delivery d, s => s.receive ctx d
  | .processor move, s => { s with world := move.next s.world }

/-- An event of both runs, or a delivery that only the second run gets. -/
inductive Happening where
  | shared (e : Event)
  | extra (d : Delivery)

/-- What the first run makes of it. -/
def Happening.without (ctx : P2pConsumerContext) (s : State) : Happening → State
  | .shared e => e.apply ctx s
  | .extra _ => s

/-- What the second run makes of it. -/
def Happening.within (ctx : P2pConsumerContext) (s : State) : Happening → State
  | .shared e => e.apply ctx s
  | .extra d => s.receive ctx d

section Runs

variable (ctx : P2pConsumerContext) (s : State)

/-- The run without the extra deliveries. -/
def alone (hs : List Happening) : State := hs.foldl (Happening.without ctx) s

/-- The run with them. -/
def together (hs : List Happening) : State := hs.foldl (Happening.within ctx) s

/-- The message of this sender, with this signature, is stored as processed. -/
def StoredAs (m : Message) (n : Node) : Prop :=
  ∃ r ∈ n.messages, r.itemHash = m.itemHash ∧ r.sender = m.sender ∧ r.signature = m.signature ∧ r.status = "processed"

/-- At some time in the run. -/
def EverStored (m : Message) (run : List Happening → State) (hs : List Happening) : Prop :=
  ∃ p, p <+: hs ∧ StoredAs m (run p).world.node

/-- The extra deliveries do not keep the message from being processed, and its hash is not rejected because of them
while it has never been processed. -/
def Uncensored (m : Message) (hs : List Happening) : Prop :=
  (EverStored m (alone ctx s) hs → EverStored m (together ctx s) hs) ∧
    ∀ p, p <+: hs → Rejected (together ctx s p).world.node m.itemHash →
      EverStored m (together ctx s) p ∨ Rejected (alone ctx s p).world.node m.itemHash

/-- A delivery with the hash of the message but another sender or an invalid signature. -/
def Impostor (m : Message) (d : Delivery) : Prop :=
  ∃ x, parseDelivery ctx d.data = some x ∧ x.itemHash = m.itemHash ∧
    (x.sender ≠ m.sender ∨ x.verifySignature ctx.env ≠ .ok true)

/-- An extra delivery finds the queue closed to it, and any other one is inert in both runs or in neither. -/
def Harmless (s t : State) : Happening → Prop
  | .shared (.delivery d) => Inert ctx d s.cache s.world.node ↔ Inert ctx d t.cache t.world.node
  | .shared (.processor _) => True
  | .extra d => Inert ctx d t.cache t.world.node

/-- Whatever happens before the message is processed is harmless. -/
def HarmlessBefore (m : Message) (hs : List Happening) : Prop :=
  ∀ p x, p ++ [x] <+: hs → EverStored m (together ctx s) p ∨ Harmless ctx (alone ctx s p) (together ctx s p) x

end Runs

variable {ctx : P2pConsumerContext} {s : State} {m : Message} {hs : List Happening}

theorem alone_concat (p : List Happening) (x : Happening) :
    alone ctx s (p ++ [x]) = x.without ctx (alone ctx s p) :=
  List.foldl_append

theorem together_concat (p : List Happening) (x : Happening) :
    together ctx s (p ++ [x]) = x.within ctx (together ctx s p) :=
  List.foldl_append

theorem alone_cons (x : Happening) (p : List Happening) : alone ctx s (x :: p) = alone ctx (x.without ctx s) p := rfl

theorem together_cons (x : Happening) (p : List Happening) :
    together ctx s (x :: p) = together ctx (x.within ctx s) p := rfl

theorem together_nil : together ctx s [] = s := rfl

theorem within_delivery (d : Delivery) : (Happening.shared (.delivery d)).within ctx s = s.receive ctx d := rfl

theorem within_processor (move : Move) :
    ((Happening.shared (.processor move)).within ctx s).world = move.next s.world := rfl

theorem within_extra (d : Delivery) : (Happening.extra d).within ctx s = s.receive ctx d := rfl

/-- The prefixes of a longer list. -/
theorem forall_prefix_cons {α : Type*} {P : List α → Prop} {y : α} {l : List α} :
    (∀ p, p <+: y :: l → P p) ↔ P [] ∧ ∀ p, p <+: l → P (y :: p) := by
  constructor
  · intro h
    exact ⟨h [] List.nil_prefix, fun p hp => h (y :: p) (List.cons_prefix_cons.2 ⟨rfl, hp⟩)⟩
  · rintro ⟨hnil, hcons⟩ p hp
    rcases List.prefix_cons_iff.1 hp with rfl | ⟨q, rfl, hq⟩
    · exact hnil
    · exact hcons q hq

/-- The prefixes of a longer list, and what comes after them. -/
theorem forall_step_cons {α : Type*} {P : List α → α → Prop} {y : α} {l : List α} :
    (∀ p x, p ++ [x] <+: y :: l → P p x) ↔ P [] y ∧ ∀ p x, p ++ [x] <+: l → P (y :: p) x := by
  constructor
  · intro h
    refine ⟨h [] y (List.cons_prefix_cons.2 ⟨rfl, List.nil_prefix⟩), fun p x hp => ?_⟩
    exact h (y :: p) x (List.cons_prefix_cons.2 ⟨rfl, hp⟩)
  · rintro ⟨hnil, hcons⟩ p x hp
    cases p with
    | nil =>
      rw [(List.cons_prefix_cons.1 hp).1]
      exact hnil
    | cons z p =>
      obtain ⟨rfl, hrest⟩ := List.cons_prefix_cons.1 hp
      exact hcons p x hrest

/-! ## Lockstep -/

theorem EverStored.mono {run : List Happening → State} {p : List Happening} (h : EverStored m run p) (hp : p <+: hs) :
    EverStored m run hs := by
  obtain ⟨q, hq, hstored⟩ := h
  exact ⟨q, hq.trans hp, hstored⟩

theorem State.receive_world (ctx : P2pConsumerContext) (d : Delivery) (t : State) :
    (t.receive ctx d).world = { t.world with node := (deliver ctx d t.cache t.world.node).2 } := rfl

theorem receive_inert {d : Delivery} {t : State} (h : Inert ctx d t.cache t.world.node) :
    (t.receive ctx d).world = t.world := by
  rw [State.receive_world, deliver_inert h]

theorem receive_queued {d : Delivery} {t : State} (h : ¬ Inert ctx d t.cache t.world.node) :
    ∃ message, parseDelivery ctx d.data = some message ∧
      (∀ p ∈ t.world.node.pendingMessages, p.itemHash ≠ message.itemHash) ∧
      (t.receive ctx d).world = { t.world with node := { t.world.node with
        pendingMessages := t.world.node.pendingMessages.insertNew (rowOf d.now message) } } ∧
      (t.receive ctx d).cache = t.cache.put (dedupKey message) := by
  obtain ⟨message, hparse, hpending, heq⟩ := deliver_queued h
  refine ⟨message, hparse, hpending, ?_, ?_⟩
  · rw [State.receive_world, heq]
  · show (deliver ctx d t.cache t.world.node).1 = _
    rw [heq]

/-- **A harmless happening** leaves the two nodes equal. -/
theorem Harmless.world_eq {p : List Happening} {x : Happening}
    (h : Harmless ctx (alone ctx s p) (together ctx s p) x)
    (heq : (alone ctx s p).world = (together ctx s p).world) :
    (alone ctx s (p ++ [x])).world = (together ctx s (p ++ [x])).world := by
  rw [alone_concat, together_concat]
  cases x with
  | extra d =>
    show (alone ctx s p).world = ((together ctx s p).receive ctx d).world
    rw [receive_inert h, heq]
  | shared e =>
    cases e with
    | processor move => exact congrArg move.next heq
    | delivery d =>
      show ((alone ctx s p).receive ctx d).world = ((together ctx s p).receive ctx d).world
      have hiff : Inert ctx d (alone ctx s p).cache (alone ctx s p).world.node ↔
          Inert ctx d (together ctx s p).cache (together ctx s p).world.node := h
      by_cases hinert : Inert ctx d (alone ctx s p).cache (alone ctx s p).world.node
      · rw [receive_inert hinert, receive_inert (hiff.1 hinert), heq]
      · obtain ⟨message, hparse, -, hworld, -⟩ := receive_queued hinert
        obtain ⟨message', hparse', -, hworld', -⟩ := receive_queued (mt hiff.2 hinert)
        obtain rfl := Option.some.inj (hparse.symm.trans hparse')
        rw [hworld, hworld', heq]

/-- Until the message is stored the nodes are equal. -/
theorem lockstep (h : HarmlessBefore ctx s m hs) {p : List Happening} (hp : p <+: hs) :
    EverStored m (together ctx s) p ∨ (alone ctx s p).world = (together ctx s p).world := by
  induction p using List.reverseRecOn with
  | nil => exact .inr rfl
  | append_singleton p x ih =>
    have hpre : p <+: p ++ [x] := List.prefix_append p [x]
    rcases ih (hpre.trans hp) with hstored | heq
    · exact .inl (hstored.mono hpre)
    · rcases h p x hp with hstored | hharmless
      · exact .inl (hstored.mono hpre)
      · exact .inr (hharmless.world_eq heq)

/-- An impostor that enters the queue takes the place of the message: deliveries of the message leave the node as it
is, and from then on they are taken for duplicates. -/
theorem impostor_takes_place {d : Delivery} {t : State} (hd : Impostor ctx m d)
    (h : ¬ Inert ctx d t.cache t.world.node) :
    (∃ x, parseDelivery ctx d.data = some x ∧ (t.receive ctx d).world.node.pendingMessages.find? m.itemHash =
      some (rowOf d.now x)) ∧
    ∀ d', parseDelivery ctx d'.data = some m →
      ((t.receive ctx d).receive ctx d').world = (t.receive ctx d).world ∧
        dedupKey m ∈ ((t.receive ctx d).receive ctx d').cache := by
  obtain ⟨y, hy, hhash, -⟩ := hd
  obtain ⟨x, hx, hnone, hworld, -⟩ := receive_queued h
  obtain rfl := Option.some.inj (hy.symm.trans hx)
  have hmem : rowOf d.now y ∈ (t.receive ctx d).world.node.pendingMessages := by
    rw [hworld]
    exact Table.mem_insertNew.2 (.inr ⟨rfl, hnone⟩)
  refine ⟨⟨y, hx, Table.find?_eq_some.2 ⟨hmem, hhash⟩⟩, fun d' hd' => ⟨?_, ?_⟩⟩
  · refine receive_inert fun _ message hmessage => .inr ⟨_, hmem, ?_⟩
    rw [Option.some.inj (hmessage.symm.trans hd')]
    exact hhash
  · show dedupKey m ∈ (deliver ctx d' (t.receive ctx d).cache (t.receive ctx d).world.node).1
    rw [deliver_of_parse hd', queueMessage]
    split_ifs with hkey
    · exact LruCache.mem_get.2 hkey
    · exact LruCache.mem_put_self _ _

/-- **Nobody censors the message in a run in which all is harmless until it is processed**; an impostor that is not
inert takes its place in the queue. -/
theorem uncensored_of_run (ctx : P2pConsumerContext) (m : Message) (s : State) (hs : List Happening)
    (h : HarmlessBefore ctx s m hs) :
    Uncensored ctx s m hs ∧
    ∀ (d : Delivery) (t : State), Impostor ctx m d → ¬ Inert ctx d t.cache t.world.node →
      (∃ x, parseDelivery ctx d.data = some x ∧ (t.receive ctx d).world.node.pendingMessages.find? m.itemHash =
        some (rowOf d.now x)) ∧
      ∀ d', parseDelivery ctx d'.data = some m →
        ((t.receive ctx d).receive ctx d').world = (t.receive ctx d).world ∧
          dedupKey m ∈ ((t.receive ctx d).receive ctx d').cache := by
  refine ⟨⟨?_, ?_⟩, fun d t hd hinert => impostor_takes_place hd hinert⟩
  · rintro ⟨p, hp, hstored⟩
    rcases lockstep h hp with hever | heq
    · exact hever.mono hp
    · rw [heq] at hstored
      exact ⟨p, hp, hstored⟩
  · intro p hp hrejected
    rcases lockstep h hp with hever | heq
    · exact .inl hever
    · rw [← heq] at hrejected
      exact .inr hrejected

/-! ### A message that arrives after a forged copy -/

section Forged

/-- The STORE message with a signature that is none. -/
def forgedStore : Message := { firstStore with signature := "0x00" }

/-- The message as it is delivered. -/
def deliveredText (signature : String) : String :=
  "\x7b\"type\":\"STORE\",\"chain\":\"ETH\",\"sender\":\"" ++ fileOwner ++ "\",\"signature\":\"" ++ signature ++
    "\",\"item_type\":\"storage\",\"item_hash\":\"" ++ firstHash ++
    "\",\"item_content\":\"\x7b\\\"address\\\":\\\"" ++ fileOwner ++
    "\\\",\\\"item_type\\\":\\\"ipfs\\\",\\\"item_hash\\\":\\\"" ++ file ++
    "\\\",\\\"time\\\":1700000000\x7d\",\"channel\":null,\"time\":1700000000\x7d"

def deliveredJson (signature : String) : Json :=
  .obj [("type", .str "STORE"), ("chain", .str "ETH"), ("sender", .str fileOwner), ("signature", .str signature),
    ("item_type", .str "storage"), ("item_hash", .str firstHash), ("item_content", .str (storeText "1700000000")),
    ("channel", .null), ("time", .num (.int 1700000000))]

def consumerCtx : P2pConsumerContext where
  env := .ofTables
    [(deliveredText "0x00", deliveredJson "0x00"),
      (deliveredText firstStore.signature, deliveredJson firstStore.signature)] []
    [("ETH\n" ++ fileOwner ++ "\nSTORE\n" ++ firstHash, firstStore.signature, fileOwner)]
  urlDecode := .ok

def deliveryOf (signature : String) : Delivery := ⟨(deliveredText signature).toUTF8, 1700000150, none⟩

example : forgedStore.verifySignature networkCtx.env = .ok false := by decide +kernel

theorem parseDelivery_text {text : String} {message : Message}
    (h : consumerCtx.env.fromStr Message.decode text = .ok message) :
    parseDelivery consumerCtx text.toUTF8 = some message := by
  have hutf8 : String.fromUTF8? text.toUTF8 = some text := by
    unfold String.fromUTF8?
    exact dif_pos (show text.toUTF8.IsValidUTF8 from text.isValidUTF8)
  unfold parseDelivery
  rw [hutf8]
  show (consumerCtx.env.fromStr Message.decode text).toOption = some message
  rw [h]
  rfl

theorem parse_forged : parseDelivery consumerCtx (deliveryOf "0x00").data = some forgedStore :=
  parseDelivery_text (by decide +kernel)

theorem parse_first : parseDelivery consumerCtx (deliveryOf firstStore.signature).data = some firstStore :=
  parseDelivery_text (by decide +kernel)

theorem impostor_forged : Impostor consumerCtx firstStore (deliveryOf "0x00") := by
  refine ⟨forgedStore, parse_forged, rfl, .inr ?_⟩
  decide +kernel

/-- The start of both runs. -/
def consumerStart : State := ⟨⟨.empty, .idle⟩, .empty dedupCacheSize dedupCacheSize_pos⟩

def arrivedForged : Node := { Node.empty with pendingMessages := Table.empty.insertNew (arrived forgedStore) }

def signatureFailed : ProcessResult := .rejected .invalidSignature "Signature verification failed"

def refusedForged : Node :=
  ((settle networkCtx (batchOf networkCtx arrivedForged) [(arrived forgedStore, .ok signatureFailed)]).run.run
    arrivedForged).2

theorem run_arrivedForged {other : Node → Node → Prop} :
    Relation.ReflTransGen (Guarded other fun _ _ => True) ⟨arrivedForged, .idle⟩ ⟨refusedForged, .idle⟩ := by
  have hexec : Exec (processSingleMessage networkCtx (arrived forgedStore)).run arrivedForged (.ok signatureFailed)
      arrivedForged := exec_processSingleMessage_refused (actsOn_arrived rfl) (by decide +kernel)
  have hwork : WorkedOff networkCtx [arrived forgedStore] arrivedForged [(arrived forgedStore, .ok signatureFailed)]
      arrivedForged := ⟨_, _, [], hexec, ⟨rfl, rfl⟩, rfl⟩
  exact run_batchOf (by decide +kernel) (by decide +kernel) hwork (fun _ _ => trivial) (fun _ => trivial)
    fun _ => trivial

example : refusedForged.pendingMessages.rows = [] := by decide +kernel

theorem arrived_ne : arrivedForged ≠ arrivedFirst := by
  intro h
  have hrows : arrivedForged.pendingMessages.rows = arrivedFirst.pendingMessages.rows := by rw [h]
  exact absurd hrows (by decide +kernel)

open Classical in
/-- The batch that takes the pending message. -/
noncomputable def batchMove : Move where
  next w :=
    if w = ⟨arrivedFirst, .idle⟩ then ⟨processedFirst, .idle⟩
    else if w = ⟨arrivedForged, .idle⟩ then ⟨refusedForged, .idle⟩
    else w
  legal w := by
    split_ifs with hfirst hforged
    · rw [hfirst]
      exact Relation.ReflTransGen.mono (fun _ _ hs => hs.1) _ _
        (run_arrivedFirst (fun _ _ => trivial) (fun _ => trivial) fun _ => trivial :
          Relation.ReflTransGen (Guarded (fun _ _ => False) fun _ _ => True) _ _)
    · rw [hforged]
      exact Relation.ReflTransGen.mono (fun _ _ hs => hs.1) _ _ run_arrivedForged
    · exact .refl

theorem batchMove_first : batchMove.next ⟨arrivedFirst, .idle⟩ = ⟨processedFirst, .idle⟩ := if_pos rfl

theorem batchMove_forged : batchMove.next ⟨arrivedForged, .idle⟩ = ⟨refusedForged, .idle⟩ := by
  have hne : (⟨arrivedForged, .idle⟩ : World) ≠ ⟨arrivedFirst, .idle⟩ := fun h => arrived_ne (congrArg World.node h)
  exact (if_neg hne).trans (if_pos rfl)

/-- The message arrives first, then the forged copy. -/
noncomputable def lateForged : List Happening :=
  [.shared (.delivery (deliveryOf firstStore.signature)), .extra (deliveryOf "0x00"), .shared (.processor batchMove)]

/-- The forged copy arrives first. -/
noncomputable def earlyForged : List Happening :=
  [.extra (deliveryOf "0x00"), .shared (.delivery (deliveryOf firstStore.signature)), .shared (.processor batchMove)]

theorem receive_first :
    (consumerStart.receive consumerCtx (deliveryOf firstStore.signature)).world = ⟨arrivedFirst, .idle⟩ := by
  have hnew : dedupKey firstStore ∉ consumerStart.cache := List.not_mem_nil
  rw [State.receive_world, deliver_new parse_first rfl hnew]
  rfl

theorem receive_forged :
    (consumerStart.receive consumerCtx (deliveryOf "0x00")).world = ⟨arrivedForged, .idle⟩ := by
  have hnew : dedupKey forgedStore ∉ consumerStart.cache := List.not_mem_nil
  rw [State.receive_world, deliver_new parse_forged rfl hnew]
  rfl

/-- A delivery of the other copy changes nothing any more. -/
theorem inert_of_pending {message : Message} {d : Delivery} {w : State}
    (hparse : parseDelivery consumerCtx d.data = some message)
    (h : ∃ p ∈ w.world.node.pendingMessages, p.itemHash = message.itemHash) :
    Inert consumerCtx d w.cache w.world.node := by
  intro _ message' hmessage
  rw [Option.some.inj (hmessage.symm.trans hparse)]
  exact .inr h

theorem processedFirst_stored : StoredAs firstStore processedFirst := by
  have h : ∃ r ∈ processedFirst.messages.rows, r.itemHash = firstStore.itemHash ∧ r.sender = firstStore.sender ∧
      r.signature = firstStore.signature ∧ r.status = "processed" := by decide +kernel
  exact h

theorem pending_arrivedFirst {m : Message} (h : m.itemHash = firstHash) :
    ∃ p ∈ arrivedFirst.pendingMessages, p.itemHash = m.itemHash :=
  ⟨arrived firstStore, List.mem_singleton_self _, h.symm⟩

theorem pending_arrivedForged {m : Message} (h : m.itemHash = firstHash) :
    ∃ p ∈ arrivedForged.pendingMessages, p.itemHash = m.itemHash :=
  ⟨arrived forgedStore, List.mem_singleton_self _, h.symm⟩

theorem inert_forged {w : State} (h : w.world = ⟨arrivedFirst, .idle⟩) :
    Inert consumerCtx (deliveryOf "0x00") w.cache w.world.node := by
  refine inert_of_pending parse_forged ?_
  rw [h]
  exact pending_arrivedFirst rfl

theorem inert_first {w : State} (h : w.world = ⟨arrivedForged, .idle⟩) :
    Inert consumerCtx (deliveryOf firstStore.signature) w.cache w.world.node := by
  refine inert_of_pending parse_first ?_
  rw [h]
  exact pending_arrivedForged rfl

/-- Without the forged copy the message is stored, whenever that would come. -/
theorem alone_stored {hs : List Happening} (h : hs = lateForged ∨ hs = earlyForged) :
    EverStored firstStore (alone consumerCtx consumerStart) hs := by
  refine ⟨hs, List.prefix_rfl, ?_⟩
  have hworld : (alone consumerCtx consumerStart hs).world =
      batchMove.next (consumerStart.receive consumerCtx (deliveryOf firstStore.signature)).world := by
    rcases h with rfl | rfl <;> rfl
  rw [hworld, receive_first, batchMove_first]
  exact processedFirst_stored

/-- A forged copy that comes while the message is pending does not matter. -/
theorem lateForged_stored : EverStored firstStore (together consumerCtx consumerStart) lateForged := by
  refine (uncensored_of_run consumerCtx firstStore consumerStart lateForged ?_).1.1 (alone_stored (.inl rfl))
  refine forall_step_cons.2 ⟨Or.inr Iff.rfl, forall_step_cons.2 ⟨Or.inr ?_, forall_step_cons.2 ⟨Or.inr trivial, ?_⟩⟩⟩
  · rw [Harmless, together_cons, together_nil, within_delivery]
    exact inert_forged receive_first
  · intro p x hp
    simp at hp

/-- The node that gets the forged copy first, delivery by delivery and after the batch. -/
theorem receive_both : ((consumerStart.receive consumerCtx (deliveryOf "0x00")).receive consumerCtx
    (deliveryOf firstStore.signature)).world = ⟨arrivedForged, .idle⟩ := by
  rw [receive_inert (inert_first receive_forged)]
  exact receive_forged

theorem together_earlyForged : (together consumerCtx consumerStart earlyForged).world = ⟨refusedForged, .idle⟩ := by
  rw [earlyForged, together_cons, together_cons, together_cons, together_nil, within_processor, within_delivery,
    within_extra, receive_both]
  exact batchMove_forged

theorem earlyForged_worlds : ∀ p, p <+: earlyForged → (together consumerCtx consumerStart p).world ∈
    [⟨.empty, .idle⟩, (⟨arrivedForged, .idle⟩ : World), ⟨refusedForged, .idle⟩] := by
  refine forall_prefix_cons.2 ⟨?_, forall_prefix_cons.2 ⟨?_, forall_prefix_cons.2 ⟨?_, fun p hp => ?_⟩⟩⟩
  · exact List.mem_cons_self
  · rw [together_cons, together_nil, within_extra, receive_forged]
    exact List.mem_cons_of_mem _ List.mem_cons_self
  · rw [together_cons, together_cons, together_nil, within_delivery, within_extra, receive_both]
    exact List.mem_cons_of_mem _ List.mem_cons_self
  · obtain rfl := List.prefix_nil.1 hp
    exact List.mem_cons_of_mem _ (List.mem_cons_of_mem _ (List.mem_singleton.2 together_earlyForged))

/-- **A forged copy that comes first** keeps a validly signed message from being processed. -/
theorem forged_censors : firstStore.verifySignature consumerCtx.env = .ok true ∧
    Impostor consumerCtx firstStore (deliveryOf "0x00") ∧
    EverStored firstStore (alone consumerCtx consumerStart) earlyForged ∧
    Rejected (together consumerCtx consumerStart earlyForged).world.node firstStore.itemHash ∧
    ¬ Uncensored consumerCtx consumerStart firstStore earlyForged := by
  have hrefused : refusedForged.messages.rows = [] := by decide +kernel
  have hnever : ¬ EverStored firstStore (together consumerCtx consumerStart) earlyForged := by
    rintro ⟨p, hp, r, hr, -⟩
    have hworld := earlyForged_worlds p hp
    generalize (together consumerCtx consumerStart p).world = w at hr hworld
    simp only [List.mem_cons, List.not_mem_nil, or_false] at hworld
    rcases hworld with rfl | rfl | rfl
    · exact absurd hr List.not_mem_nil
    · exact absurd hr List.not_mem_nil
    · rw [Table.mem_def, hrefused] at hr
      exact absurd hr List.not_mem_nil
  have hrejected : ∃ r ∈ refusedForged.rejectedMessages.rows, r.itemHash = firstStore.itemHash := by decide +kernel
  refine ⟨by decide +kernel, impostor_forged, alone_stored (.inr rfl), ?_, ?_⟩
  · rw [together_earlyForged]
    exact hrejected
  · intro h
    exact hnever (h.1 (alone_stored (.inr rfl)))

end Forged

end AlephCore.P2pConsumer
