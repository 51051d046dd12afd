import AlephCore.Jobs.Censorship

/-!
# Redelivery — which deliveries the cache hides

The consumer puts the key of a message into its cache before it queues the message, and acknowledges the delivery
whether or not that worked.  Deliveries, insertions that fail and whatever the rest of the node does come in any
order.  What the cache hides has been queued as long as no delivery is lost: its insertion fails, and the hash was
never pending.
-/

namespace AlephCore.P2pConsumer

open ProgE Prog MessageProcessor

/-! ## Histories -/

/-- The cache and the database of the consumer. -/
structure Consumer where
  cache : DedupCache
  node : Node

inductive ConsumerEvent where
  | delivery (d : Delivery)
  /-- The rest of the node leaves the database like this. -/
  | others (node : Node)

def Consumer.step (ctx : P2pConsumerContext) (c : Consumer) : ConsumerEvent → Consumer
  | .delivery d => ⟨(deliver ctx d c.cache c.node).1, (deliver ctx d c.cache c.node).2⟩
  | .others node => { c with node }

section Histories

variable (ctx : P2pConsumerContext) (n : Node)

/-- The consumer after these events, from a start with an empty cache. -/
def consumer (es : List ConsumerEvent) : Consumer :=
  es.foldl (Consumer.step ctx) ⟨.empty dedupCacheSize dedupCacheSize_pos, n⟩

def Pending (n : Node) (itemHash : ItemHash) : Prop := ∃ p ∈ n.pendingMessages, p.itemHash = itemHash

/-- The hash has been in the queue, by one of these events or from the start. -/
def EverPending (es : List ConsumerEvent) (itemHash : ItemHash) : Prop :=
  ∃ p, p <+: es ∧ Pending (consumer ctx n p).node itemHash

/-- A message that is skipped as a duplicate has been in the queue. -/
def HidesOnlyQueued (es : List ConsumerEvent) : Prop :=
  ∀ p d m, p ++ [.delivery d] <+: es → parseDelivery ctx d.data = some m →
    dedupKey m ∈ (consumer ctx n p).cache → EverPending ctx n p m.itemHash

/-- A message has been in the queue after a delivery whose insertion does not fail. -/
def QueuesRedelivered (es : List ConsumerEvent) : Prop :=
  ∀ p d m, p ++ [.delivery d] <+: es → parseDelivery ctx d.data = some m → d.failure = none →
    EverPending ctx n (p ++ [.delivery d]) m.itemHash

/-- The message in the delivery is new to the cache and to the queue, and its insertion fails. -/
def Loses (es : List ConsumerEvent) (d : Delivery) : Prop :=
  ∃ m, parseDelivery ctx d.data = some m ∧ dedupKey m ∉ (consumer ctx n es).cache ∧ d.failure ≠ none ∧
    ¬ EverPending ctx n es m.itemHash

def NoneLost (es : List ConsumerEvent) : Prop := ∀ p d, p ++ [.delivery d] <+: es → ¬ Loses ctx n p d

end Histories

variable {ctx : P2pConsumerContext} {n : Node} {es : List ConsumerEvent} {d : Delivery} {m : Message}
  {itemHash : ItemHash}

theorem consumer_concat (es : List ConsumerEvent) (e : ConsumerEvent) :
    consumer ctx n (es ++ [e]) = (consumer ctx n es).step ctx e :=
  List.foldl_append

theorem EverPending.mono {es' : List ConsumerEvent} (h : EverPending ctx n es itemHash) (hes : es <+: es') :
    EverPending ctx n es' itemHash := by
  obtain ⟨p, hp, hpending⟩ := h
  exact ⟨p, hp.trans hes, hpending⟩

theorem everPending_now (h : Pending (consumer ctx n es).node itemHash) : EverPending ctx n es itemHash :=
  ⟨es, List.prefix_rfl, h⟩

theorem everPending_concat {e : ConsumerEvent} :
    EverPending ctx n (es ++ [e]) itemHash ↔
      EverPending ctx n es itemHash ∨ Pending (consumer ctx n (es ++ [e])).node itemHash := by
  constructor
  · rintro ⟨p, hp, hpending⟩
    rcases List.prefix_concat_iff.1 hp with rfl | hp
    · exact .inr hpending
    · exact .inl ⟨p, hp, hpending⟩
  · rintro (h | h)
    · exact h.mono (List.prefix_append es [e])
    · exact everPending_now h

theorem NoneLost.mono {es' : List ConsumerEvent} (h : NoneLost ctx n es') (hes : es <+: es') : NoneLost ctx n es :=
  fun p d hp => h p d (hp.trans hes)

/-! ## What a delivery does to the cache -/

section Deliver

variable {c : DedupCache} {w : Node}

/-- The only key that a delivery adds is that of its message. -/
theorem mem_deliver_cache {k : DedupKey} (h : k ∈ (deliver ctx d c w).1) :
    k ∈ c ∨ ∃ m, parseDelivery ctx d.data = some m ∧ k = dedupKey m := by
  cases hparse : parseDelivery ctx d.data with
  | none =>
    unfold deliver processDelivery at h
    rw [hparse] at h
    exact .inl h
  | some m =>
    rw [deliver_of_parse hparse, queueMessage] at h
    split_ifs at h with hkey
    · exact .inl (LruCache.mem_get.1 h)
    · rcases LruCache.mem_of_mem_put h with rfl | h
      · exact .inr ⟨m, rfl, rfl⟩
      · exact .inl h

/-- Afterwards the key of its message is there, whatever came of the insertion. -/
theorem dedupKey_mem_deliver (h : parseDelivery ctx d.data = some m) : dedupKey m ∈ (deliver ctx d c w).1 := by
  rw [deliver_of_parse h, queueMessage]
  split_ifs with hkey
  · exact LruCache.mem_get.2 hkey
  · exact LruCache.mem_put_self _ _

/-- An insertion that does not fail leaves a row of the hash, the new one or the one that was there. -/
theorem pending_deliver (h : parseDelivery ctx d.data = some m) (hkey : dedupKey m ∉ c) (hfailure : d.failure = none) :
    Pending (deliver ctx d c w).2 m.itemHash := by
  rw [deliver_new h hfailure hkey]
  by_cases hthere : ∃ p ∈ w.pendingMessages, p.itemHash = m.itemHash
  · obtain ⟨p, hp, hhash⟩ := hthere
    exact ⟨p, Table.mem_insertNew.2 (.inl hp), hhash⟩
  · push Not at hthere
    exact ⟨rowOf d.now m, Table.mem_insertNew.2 (.inr ⟨rfl, hthere⟩), rfl⟩

end Deliver

/-- A delivery whose insertion fails leaves the database as it is. -/
theorem consumer_failure (h : d.failure ≠ none) :
    (consumer ctx n (es ++ [.delivery d])).node = (consumer ctx n es).node := by
  rw [consumer_concat]
  exact deliver_inert fun hnone => absurd hnone h

/-- And so does one that is taken for a duplicate. -/
theorem consumer_duplicate (h : parseDelivery ctx d.data = some m) (hkey : dedupKey m ∈ (consumer ctx n es).cache) :
    (consumer ctx n (es ++ [.delivery d])).node = (consumer ctx n es).node := by
  rw [consumer_concat]
  refine deliver_inert fun _ x hx => .inl ?_
  rw [Option.some.inj (hx.symm.trans h)]
  exact hkey

theorem dedupKey_mem_consumer (h : parseDelivery ctx d.data = some m) :
    dedupKey m ∈ (consumer ctx n (es ++ [.delivery d])).cache := by
  rw [consumer_concat]
  exact dedupKey_mem_deliver (w := (consumer ctx n es).node) h

/-! ## The cache and the queue -/

/-- **What the cache hides has been in the queue**, as long as no delivery is lost. -/
theorem NoneLost.everPending (h : NoneLost ctx n es) (hkey : dedupKey m ∈ (consumer ctx n es).cache) :
    EverPending ctx n es m.itemHash := by
  induction es using List.reverseRecOn with
  | nil => exact absurd hkey List.not_mem_nil
  | append_singleton es e ih =>
    have hpre : es <+: es ++ [e] := List.prefix_append es [e]
    rw [consumer_concat] at hkey
    cases e with
    | others node => exact (ih (h.mono hpre) hkey).mono hpre
    | delivery d =>
      by_cases hold : dedupKey m ∈ (consumer ctx n es).cache
      · exact (ih (h.mono hpre) hold).mono hpre
      · -- a new key: the insertion puts a row there, or the hash has been pending before
        have hnew := (mem_deliver_cache (w := (consumer ctx n es).node) hkey).resolve_left hold
        obtain ⟨x, hparse, heq⟩ := hnew
        have hhash : m.itemHash = x.itemHash := congrArg (·.2.1) heq
        rw [heq] at hold
        rw [hhash]
        by_cases hfailure : d.failure = none
        · refine everPending_now ?_
          rw [consumer_concat]
          exact pending_deliver hparse hold hfailure
        · by_contra hnever
          exact h es d List.prefix_rfl ⟨x, hparse, hold, hfailure, fun hpending => hnever (hpending.mono hpre)⟩

theorem NoneLost.hidesOnlyQueued (h : NoneLost ctx n es) : HidesOnlyQueued ctx n es := by
  intro p d m hp _ hkey
  exact (h.mono ((List.prefix_append p _).trans hp)).everPending hkey

theorem NoneLost.queuesRedelivered (h : NoneLost ctx n es) : QueuesRedelivered ctx n es := by
  intro p d m hp hparse hfailure
  have hpre : p <+: p ++ [.delivery d] := List.prefix_append p _
  by_cases hkey : dedupKey m ∈ (consumer ctx n p).cache
  · exact ((h.mono (hpre.trans hp)).everPending hkey).mono hpre
  · refine everPending_now ?_
    rw [consumer_concat]
    exact pending_deliver hparse hkey hfailure

/-- A lost message is taken for a duplicate when it is delivered again. -/
theorem Loses.hides (h : Loses ctx n es d) (d' : Delivery) (hdata : d'.data = d.data) :
    ¬ HidesOnlyQueued ctx n (es ++ [.delivery d, .delivery d']) := by
  obtain ⟨m, hparse, -, hfailure, hnever⟩ := h
  intro hall
  have hever : EverPending ctx n (es ++ [.delivery d]) m.itemHash := by
    refine hall (es ++ [.delivery d]) d' m ?_ (hdata ▸ hparse) (dedupKey_mem_consumer hparse)
    rw [List.append_assoc]
    exact List.prefix_rfl
  rcases everPending_concat.1 hever with hbefore | hnow
  · exact hnever hbefore
  · rw [consumer_failure hfailure] at hnow
    exact hnever (everPending_now hnow)

theorem noneLost_concat (h : NoneLost ctx n es) (hd : ¬ Loses ctx n es d) :
    NoneLost ctx n (es ++ [.delivery d]) := by
  intro p d' hp
  rcases List.prefix_concat_iff.1 hp with heq | hp
  · obtain ⟨rfl, hlast⟩ := List.append_inj' heq rfl
    obtain rfl : d' = d := by simpa using hlast
    exact hd
  · exact h p d' hp

/-- **The cache hides only what has been queued, and a message that is delivered again is queued**, in every history
without a lost delivery; and a delivery can come next without harm exactly if it is not lost. -/
theorem hidesOnlyQueued_iff (ctx : P2pConsumerContext) (n : Node) (es : List ConsumerEvent) (h : NoneLost ctx n es) :
    HidesOnlyQueued ctx n es ∧ QueuesRedelivered ctx n es ∧
    ∀ d, (∀ d', HidesOnlyQueued ctx n (es ++ [.delivery d, .delivery d'])) ↔ ¬ Loses ctx n es d := by
  refine ⟨h.hidesOnlyQueued, h.queuesRedelivered, fun d => ⟨fun hall hloses => hloses.hides d rfl (hall d), ?_⟩⟩
  intro hd d' p x m hp _ hkey
  have hlost : NoneLost ctx n (es ++ [.delivery d]) := noneLost_concat h hd
  have hpre : p <+: es ++ [.delivery d] := by
    have happ : es ++ [.delivery d, .delivery d'] = (es ++ [.delivery d]) ++ [.delivery d'] := by
      rw [List.append_assoc]
      rfl
    rw [happ] at hp
    rcases List.prefix_concat_iff.1 hp with heq | hp
    · obtain ⟨rfl, -⟩ := List.append_inj' heq rfl
      exact List.prefix_rfl
    · exact (List.prefix_append p _).trans hp
  exact (hlost.mono hpre).everPending hkey

/-! ### A message whose insertion fails once -/

section FailedOnce

/-- The delivery during which the database is away. -/
def failedDelivery : Delivery := { deliveryOf firstStore.signature with failure := some "pool timed out" }

/-- A single delivery with the insertion working. -/
theorem queued_forged : EverPending consumerCtx .empty [.delivery (deliveryOf "0x00")] forgedStore.itemHash := by
  refine (hidesOnlyQueued_iff consumerCtx .empty [.delivery (deliveryOf "0x00")] ?_).2.1 [] _ forgedStore
    List.prefix_rfl parse_forged rfl
  intro p d hp
  obtain ⟨rfl, rfl⟩ : p = [] ∧ d = deliveryOf "0x00" := by
    rcases List.prefix_concat_iff.1 (by simpa using hp : p ++ [.delivery d] <+: [] ++ [_]) with heq | hp
    · obtain ⟨rfl, hlast⟩ := List.append_inj' heq rfl
      exact ⟨rfl, by simpa using hlast⟩
    · simp at hp
  rintro ⟨m, -, -, hfailure, -⟩
  exact hfailure rfl

/-- **A message whose insertion failed** is skipped when it is delivered again, and has never been queued. -/
theorem failed_once_hidden :
    parseDelivery consumerCtx failedDelivery.data = some firstStore ∧
    dedupKey firstStore ∈ (consumer consumerCtx .empty [.delivery failedDelivery]).cache ∧
    ¬ EverPending consumerCtx .empty ([.delivery failedDelivery] ++ [.delivery (deliveryOf firstStore.signature)])
      firstStore.itemHash ∧
    ¬ HidesOnlyQueued consumerCtx .empty
      [.delivery failedDelivery, .delivery (deliveryOf firstStore.signature)] := by
  have hparse : parseDelivery consumerCtx failedDelivery.data = some firstStore := parse_first
  have hfailure : failedDelivery.failure ≠ none := by simp [failedDelivery]
  have hkey : dedupKey firstStore ∈ (consumer consumerCtx .empty ([] ++ [.delivery failedDelivery])).cache :=
    dedupKey_mem_consumer hparse
  have hnode : (consumer consumerCtx .empty ([] ++ [.delivery failedDelivery])).node = .empty :=
    consumer_failure hfailure
  rw [List.nil_append] at hkey hnode
  have hnothing : ¬ Pending .empty firstStore.itemHash := by
    rintro ⟨p, hp, -⟩
    exact absurd hp List.not_mem_nil
  have hstart : ¬ EverPending consumerCtx .empty [] firstStore.itemHash := by
    rintro ⟨p, hp, hpending⟩
    rw [List.prefix_nil.1 hp] at hpending
    exact hnothing hpending
  have hfailed : ¬ EverPending consumerCtx .empty [.delivery failedDelivery] firstStore.itemHash := by
    intro hever
    have hsplit : EverPending consumerCtx .empty ([] ++ [.delivery failedDelivery]) firstStore.itemHash := hever
    rcases everPending_concat.1 hsplit with h | h
    · exact hstart h
    · rw [List.nil_append, hnode] at h
      exact hnothing h
  have hloses : Loses consumerCtx .empty [] failedDelivery :=
    ⟨firstStore, hparse, List.not_mem_nil, hfailure, hstart⟩
  refine ⟨hparse, hkey, ?_, hloses.hides (deliveryOf firstStore.signature) rfl⟩
  intro h
  rcases everPending_concat.1 h with h | h
  · exact hfailed h
  · rw [consumer_duplicate parse_first hkey] at h
    rw [hnode] at h
    exact hnothing h

end FailedOnce

end AlephCore.P2pConsumer
