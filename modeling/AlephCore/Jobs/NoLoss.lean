import AlephCore.Jobs.LatestAmends
import AlephCore.Jobs.Tracking
import AlephCore.Lib.Faults

/-!
# NoLoss — a pending message is stored, rejected or forgotten before it is deleted

A message goes from the pending messages to the stored, the rejected or the forgotten ones in statements of
their own.  Whatever fails, its pending row is deleted last, if the batch does not take it for a duplicate:
derived data of its hash need not mean that it is stored.
-/

namespace AlephCore

open ProgE Prog ForgetHandler

namespace MessageProcessor

/-! ## Where a message stands -/

/-- The hash is stored, rejected or forgotten. -/
def Elsewhere (n : Node) (h : ItemHash) : Prop :=
  (∃ r ∈ n.messages, r.itemHash = h) ∨ (∃ r ∈ n.rejectedMessages, r.itemHash = h) ∨ Forgotten n h

/-- A message of the hash is pending whose sender is not blacklisted. -/
def Waiting (n : Node) (h : ItemHash) : Prop :=
  ∃ p ∈ n.pendingMessages, p.itemHash = h ∧ isBlacklisted p = false

/-- The message is not lost. -/
def Accounted (n : Node) (h : ItemHash) : Prop := Waiting n h ∨ Elsewhere n h

/-- Of the due messages only those that are stored, rejected or forgotten have derived data. -/
def DuplicatesAccounted (ctx : ProcessorContext) (n : Node) : Prop :=
  ∀ p ∈ n.pendingMessages, Due ctx p → isBlacklisted p = false → p.itemHash ∈ derivedHashes n →
    Elsewhere n p.itemHash

/-- Whenever a batch is taken. -/
def duplicatesGuard : Stage → Node → Prop
  | .taking ctx, n => DuplicatesAccounted ctx n
  | .working, _ => True
  | .settling _, _ => True

variable {h : ItemHash} {n n' : Node} {ctx : ProcessorContext}

/-! ## What a statement keeps -/

/-- The message does not go back. -/
structure Keeps (h : ItemHash) (n n' : Node) : Prop where
  forgotten : ∀ x, Forgotten n x → Forgotten n' x
  elsewhere : Elsewhere n h → Elsewhere n' h
  accounted : Accounted n h → Accounted n' h
  named : (∀ p ∈ n.pendingMessages, p.Named) → ∀ p ∈ n'.pendingMessages, p.Named

theorem Keeps.refl (n : Node) : Keeps h n n := ⟨fun _ hx => hx, fun hs => hs, fun ha => ha, fun hp => hp⟩

theorem Keeps.trans {n₁ n₂ n₃ : Node} (h₁ : Keeps h n₁ n₂) (h₂ : Keeps h n₂ n₃) : Keeps h n₁ n₃ where
  forgotten x hx := h₂.forgotten x (h₁.forgotten x hx)
  elsewhere hs := h₂.elsewhere (h₁.elsewhere hs)
  accounted ha := h₂.accounted (h₁.accounted ha)
  named hp := h₂.named (h₁.named hp)

/-- Pending messages stay, and nothing stops being stored, rejected or forgotten. -/
theorem Keeps.of_grows (hpending : Waiting n h → Waiting n' h)
    (hmessages : (∃ r ∈ n.messages, r.itemHash = h) → Elsewhere n' h)
    (hrejected : (∃ r ∈ n.rejectedMessages, r.itemHash = h) → Elsewhere n' h)
    (hforgotten : ∀ x, Forgotten n x → Forgotten n' x)
    (hnamed : (∀ p ∈ n.pendingMessages, p.Named) → ∀ p ∈ n'.pendingMessages, p.Named) : Keeps h n n' := by
  have helsewhere : Elsewhere n h → Elsewhere n' h := by
    rintro (hr | hr | hf)
    · exact hmessages hr
    · exact hrejected hr
    · exact .inr (.inr (hforgotten h hf))
  exact ⟨hforgotten, helsewhere, Or.imp hpending helsewhere, hnamed⟩

theorem SameBooks.keeps (hsame : SameBooks n n') : Keeps h n n' := by
  obtain ⟨hpending, hrejected, hmessages, hforgotten⟩ := hsame
  refine Keeps.of_grows ?_ ?_ ?_ ?_ ?_
  · rw [Waiting, Waiting, hpending]
    exact fun hw => hw
  · rw [← hmessages]
    exact .inl
  · rw [← hrejected]
    exact fun hr => .inr (.inl hr)
  · intro x hx
    rwa [Forgotten, hforgotten]
  · rw [hpending]
    exact fun hp => hp

theorem keeps_markForgotten (r : ForgottenRow) :
    Keeps h n { n with forgottenMessages := n.forgottenMessages.insertNew r } :=
  .of_grows (fun hw => hw) .inl (fun hr => .inr (.inl hr)) (fun _ hx => forgotten_insertNew.2 (.inl hx)) fun hp => hp

/-- Only forgotten messages are deleted. -/
theorem keeps_deleteMessage {x : ItemHash} (hx : Forgotten n x) :
    Keeps h n { n with messages := n.messages.delete (·.itemHash = x) } := by
  refine .of_grows (fun hw => hw) ?_ (fun hr => .inr (.inl hr)) (fun _ hf => hf) fun hp => hp
  rintro ⟨r, hr, rfl⟩
  by_cases he : r.itemHash = x
  · rw [he]
    exact .inr (.inr hx)
  · exact .inl ⟨r, Table.mem_delete.2 ⟨hr, he⟩, rfl⟩

/-- Storing or updating a message deletes none. -/
theorem keeps_messages {t : Table MessageRow MessageRow.itemHash}
    (ht : (∃ r ∈ n.messages, r.itemHash = h) → ∃ r ∈ t, r.itemHash = h) : Keeps h n { n with messages := t } :=
  .of_grows (fun hw => hw) (fun hr => .inl (ht hr)) (fun hr => .inr (.inl hr)) (fun _ hf => hf) fun hp => hp

/-- Another time of the next attempt. -/
theorem keeps_update {x : ItemHash} {f : PendingMessageDb → PendingMessageDb} (hf : ∀ p, (f p).itemHash = p.itemHash)
    (hmessage : ∀ p, (f p).message = p.message) :
    Keeps h n { n with pendingMessages := n.pendingMessages.update (·.itemHash = x) f hf } := by
  have hmem : ∀ q, q ∈ n.pendingMessages.update (·.itemHash = x) f hf ↔
      (q ∈ n.pendingMessages ∧ ¬ q.itemHash = x) ∨ ∃ p ∈ n.pendingMessages, p.itemHash = x ∧ q = f p :=
    fun q => @Table.mem_update _ _ _ n.pendingMessages (·.itemHash = x) _ f hf q
  refine .of_grows ?_ .inl (fun hr => .inr (.inl hr)) (fun _ hx => hx) ?_
  · rintro ⟨p, hp, he, hsender⟩
    by_cases hpx : p.itemHash = x
    · refine ⟨f p, (hmem _).2 (.inr ⟨p, hp, hpx, rfl⟩), (hf p).trans he, ?_⟩
      rwa [isBlacklisted, hmessage]
    · exact ⟨p, (hmem _).2 (.inl ⟨hp, hpx⟩), he, hsender⟩
  · intro hnamed p hp m hdecode
    rcases (hmem p).1 hp with ⟨hp, -⟩ | ⟨q, hq, -, rfl⟩
    · exact hnamed p hp m hdecode
    · rw [hmessage] at hdecode
      exact (hnamed q hq m hdecode).trans (hf q).symm

/-- A message of its own hash is queued. -/
theorem keeps_insertPending {p : PendingMessageDb} (hp : p.Named) :
    Keeps h n { n with pendingMessages := n.pendingMessages.insertNew p } := by
  refine .of_grows ?_ .inl (fun hr => .inr (.inl hr)) (fun _ hx => hx) ?_
  · rintro ⟨q, hq, hw⟩
    exact ⟨q, Table.mem_insertNew.2 (.inl hq), hw⟩
  · intro hnamed q hq
    rcases Table.mem_insertNew.1 hq with hq | ⟨rfl, -⟩
    · exact hnamed q hq
    · exact hp

theorem keeps_reject {r : RejectedRow} {f : RejectedRow → RejectedRow} (hf : ∀ r, (f r).itemHash = r.itemHash) :
    Keeps h n { n with rejectedMessages := n.rejectedMessages.upsert r f hf } := by
  refine .of_grows (fun hw => hw) .inl (fun hr => .inr (.inl ?_)) (fun _ hx => hx) fun hp => hp
  exact (Table.exists_key_upsert (P := fun k => k = h)).2 (.inl hr)

/-- Pending messages are deleted once they are elsewhere. -/
theorem keeps_delete {d : PendingMessageDb → Prop} [DecidablePred d]
    (hd : ∀ p, d p → p.itemHash = h → Elsewhere n h) :
    Keeps h n { n with pendingMessages := n.pendingMessages.delete d } := by
  refine ⟨fun _ hx => hx, fun hs => hs, ?_, fun hnamed p hp => hnamed p (Table.mem_delete.1 hp).1⟩
  rintro (⟨p, hp, rfl, hsender⟩ | hs)
  · by_cases hdp : d p
    · exact .inr (hd p hdp rfl)
    · exact .inl ⟨p, Table.mem_delete.2 ⟨hp, hdp⟩, rfl, hsender⟩
  · exact .inr hs

/-! ## The other jobs -/

theorem named_received {json : Json} {message : Message} (hdecode : Message.decode json = .ok message)
    (p : PendingMessageDb) (hmessage : p.message = json) (hhash : p.itemHash = message.itemHash) : p.Named := by
  intro m hm
  rw [hmessage, hdecode] at hm
  rw [← Except.ok.inj hm, hhash]

theorem keeps_queue (sync : ChainSync.ChainSyncContext) (messages : List Message) :
    Keeps h n { n with
      pendingMessages := messages.foldl (fun t m => t.insertNew (ChainSync.queued sync m)) n.pendingMessages } ∧
      ∀ p ∈ n.pendingMessages, p ∈
        messages.foldl (fun t m => t.insertNew (ChainSync.queued sync m)) n.pendingMessages := by
  induction messages generalizing n with
  | nil => exact ⟨.refl n, fun p hp => hp⟩
  | cons m messages ih =>
    have hone := keeps_insertPending (h := h) (n := n) (named_received (Message.decode_toJson m)
      (ChainSync.queued sync m) rfl rfl)
    obtain ⟨hrest, hstays⟩ := @ih { n with
      pendingMessages := n.pendingMessages.insertNew (ChainSync.queued sync m) }
    exact ⟨hone.trans hrest, fun p hp => hstays p (Table.mem_insertNew.2 (.inl hp))⟩

/-- **The other jobs** lose no message, and leave the pending ones as they are. -/
theorem keeps_insertion (hins : Insertion n n') : Keeps h n n' ∧ ∀ p ∈ n.pendingMessages, p ∈ n'.pendingMessages := by
  rcases hins with hqueued | ⟨chunk, hsynced⟩
  · cases hqueued with
    | received now json message hdecode hexec =>
      obtain rfl := exec_execute_ok.1 hexec
      exact ⟨keeps_insertPending (named_received hdecode _ rfl rfl), fun p hp => Table.mem_insertNew.2 (.inl hp)⟩
    | synced sync messages hexec =>
      unfold ChainSync.queueMessagesForProcessing at hexec
      split_ifs at hexec
      · obtain ⟨-, rfl⟩ := exec_pure_ok.1 hexec
        exact ⟨.refl _, fun p hp => hp⟩
      · obtain rfl := exec_execute_ok.1 hexec
        exact keeps_queue sync messages
  · rw [hsynced.eq]
    exact ⟨keeps_messages exists_insertMessages, fun p hp => hp⟩

/-! ## Taking a batch -/

/-- A batch is taken: pending rows stay as they are in the meantime. -/
def takingContract (h : ItemHash) (ctx : ProcessorContext) : Contract Node where
  given n := (Accounted n h ∧ ∀ p ∈ n.pendingMessages, p.Named) ∧ DuplicatesAccounted ctx n
  rely n n' := Keeps h n n' ∧ ∀ p ∈ n.pendingMessages, p ∈ n'.pendingMessages
  guar := Keeps h
  rely_refl n := ⟨.refl n, fun _ hp => hp⟩
  rely_trans h₁ h₂ := ⟨h₁.1.trans h₂.1, fun p hp => h₂.2 p (h₁.2 p hp)⟩
  guar_refl := .refl

/-- The batch deletes no message at once that is not elsewhere. -/
def TakenSafely (h : ItemHash) (b : Batch) (n : Node) : Prop :=
  (h ∈ b.toDelete → Elsewhere n h) ∧ ∀ p ∈ b.messages, p.Named

/-- A due message, which a batch works on or is elsewhere. -/
structure Seen (h : ItemHash) (ctx : ProcessorContext) (p : PendingMessageDb) (n : Node) : Prop where
  pending : p ∈ n.pendingMessages
  due : Due ctx p
  named : p.Named
  blacklisted : isBlacklisted p = true → p.itemHash = h → Elsewhere n h

theorem OnlyChainTxs.sameBooks (hst : OnlyChainTxs n n') : SameBooks n n' := by
  obtain ⟨txs, rfl⟩ := hst
  exact ⟨rfl, rfl, rfl, rfl⟩

/-- What is found out of a due message of the hash: with derived data, or forgotten, it is elsewhere. -/
def elsewhereFindings (h : ItemHash) (ctx : ProcessorContext) : Findings ctx (takingContract h ctx) where
  seen p n := Seen h ctx p n
  derived found p n := found = true → p.itemHash = h → Elsewhere n h
  forgotten found p n := found = true → p.itemHash = h → Elsewhere n h
  stable_seen _ _ hrely hs := ⟨hrely.2 _ hs.pending, hs.due, hs.named,
    fun hb he => hrely.1.elsewhere (hs.blacklisted hb he)⟩
  stable_derived _ _ hrely hs hfound he := hrely.1.elsewhere (hs hfound he)
  stable_forgotten _ _ hrely hs hfound he := hrely.1.elsewhere (hs hfound he)
  sees {p n} hgiven hp := by
    obtain ⟨⟨haccounted, hnamed⟩, -⟩ := hgiven
    obtain ⟨hpending, hdue⟩ := mem_duePending hp
    refine ⟨hpending, hdue, hnamed p hpending, fun hblacklisted he => haccounted.resolve_left ?_⟩
    -- of a blacklisted sender no other message of the hash is pending
    rintro ⟨q, hq, hqe, hsender⟩
    obtain rfl := Table.eq_of_key hpending hq (he.trans hqe.symm)
    rw [hblacklisted] at hsender
    cases hsender
  findsDerived {p n} hgiven hs hfound he := by
    by_cases hblacklisted : isBlacklisted p = true
    · exact hs.blacklisted hblacklisted he
    · rw [← he]
      exact hgiven.2 p hs.pending hs.due (Bool.not_eq_true _ ▸ hblacklisted) (of_decide_eq_true hfound)
  findsForgotten {p n} _ _ hfound he := by
    obtain ⟨r, hr, hrhash⟩ := List.mem_map.1 (of_decide_eq_true hfound)
    exact .inr (.inr ⟨r, hr, hrhash.trans he⟩)
  records {n n'} hst := by
    have hsame := OnlyChainTxs.sameBooks hst
    exact ⟨SameBooks.keeps hsame, SameBooks.keeps hsame, fun p hp => hsame.pendingMessages ▸ hp⟩

/-- **A batch is taken safely.** -/
theorem assures_takeBatch : Assures (takingContract h ctx) (IfOk (TakenSafely h)) (takeBatch ctx).run n := by
  refine (elsewhereFindings h ctx).assures_takeBatch.mono fun r t hr b hb => ?_
  obtain ⟨ps, dup, forgotten, rfl, hdup, hforgotten, hall⟩ := hr b hb
  refine ⟨fun hmem => ?_, fun p hp => (hall p (mem_messages_classify hp).1).1.named⟩
  rcases mem_toDelete_classify hmem with hmem | hmem | ⟨p, hp, hblacklisted, he⟩
  · obtain ⟨p, hp, he⟩ := List.mem_map.1 (hdup h hmem)
    exact (hall p hp).2.1 (decide_eq_true (he ▸ hmem)) he
  · obtain ⟨p, hp, he⟩ := List.mem_map.1 (hforgotten h hmem)
    exact (hall p hp).2.2 (decide_eq_true (he ▸ hmem)) he
  · exact (hall p hp).1.blacklisted hblacklisted he

/-! ## Working on a message -/

/-- Beside other tasks, and while results are settled. -/
def keepingContract (h : ItemHash) : Contract Node where
  given _ := True
  rely := Keeps h
  guar := Keeps h
  rely_refl := .refl
  rely_trans := .trans
  guar_refl := .refl

theorem keepsBooks_keeping : KeepsBooks (keepingContract h) where
  same hsame := SameBooks.keeps hsame
  marks _ r := keeps_markForgotten r
  drops hx := keeps_deleteMessage hx
  others x _ _ hst hx := hst.forgotten x hx
  own hguar hx := hguar.forgotten _ hx

/-- What the statements of a task and of settling do to one message. -/
theorem tracksTask_keeping : TracksTask (keepingContract h) h fun n => Elsewhere n h where
  books := keepsBooks_keeping
  stable _ _ hst hs := hst.elsewhere hs
  stores n env message receptionTime := by
    refine ⟨keeps_messages fun hr => ?_, fun he => .inl ?_⟩
    · exact (Table.exists_key_upsert (P := fun k => k = h)).2 (.inl hr)
    · exact (Table.exists_key_upsert (P := fun k => k = h)).2 (.inr he)
  postpones _ _ _ hf hmessage _ := keeps_update hf hmessage

theorem tracksSettling_keeping :
    TracksSettling (keepingContract h) h (fun n => Elsewhere n h) fun n => Elsewhere n h where
  stable _ _ hst hs := hst.elsewhere hs
  own hguar hs := hguar.elsewhere hs
  postpones _ _ _ hf hmessage _ := keeps_update hf hmessage
  rejects _ _ _ hf :=
    ⟨keeps_reject hf, fun he => .inr (.inl ((Table.exists_key_upsert (P := fun k => k = h)).2 (.inr he)))⟩
  deletes _ _ _ hd := keeps_delete hd
  may_of_done _ _ hs := hs

/-! ## Runs -/

/-- What the stages of a batch keep of one message. -/
def keepsMessage (h : ItemHash) : Discipline Insertion duplicatesGuard where
  inv n := Accounted n h ∧ ∀ p ∈ n.pendingMessages, p.Named
  contract
    | .taking ctx => takingContract h ctx
    | .working => keepingContract h
    | .settling _ => keepingContract h
  taken := TakenSafely h
  ended := EndsDone h fun n => Elsewhere n h
  given {s n} hinv hguard := by
    cases s with
    | taking ctx => exact ⟨hinv, hguard⟩
    | working => trivial
    | settling results => trivial
  kept {s n n'} hinv hguar := by
    have hkeeps : Keeps h n n' := by cases s <;> exact hguar
    exact ⟨hkeeps.accounted hinv.1, hkeeps.named hinv.2⟩
  undisturbed {n n'} hinv hother := by
    obtain ⟨hkeeps, hpending⟩ := keeps_insertion hother
    refine ⟨⟨hkeeps.accounted hinv.1, hkeeps.named hinv.2⟩, fun s => ?_⟩
    cases s with
    | taking ctx => exact ⟨hkeeps, hpending⟩
    | working => exact hkeeps
    | settling results => exact hkeeps
  shared hguar := hguar
  stable _ _ hst ht := ⟨fun hmem => hst.elsewhere (ht.1 hmem), ht.2⟩
  take _ := assures_takeBatch
  work ht p hp := tracksTask_keeping.assures_processSingleMessage (ht.2 p hp)
  timeout := endsDone_ne nofun
  settle ht hr := tracksSettling_keeping.assures_settle (J := fun n => h ∈ _ → Elsewhere n h)
    (fun _ _ hst hs hmem => hst.elsewhere (hs hmem)) (fun _ _ hguar hs hmem => hguar.elsewhere (hs hmem))
    (fun _ _ hs => hs) ht.1 fun r hmem => (hr r hmem).2

/-- **No message is lost**: in a run whose batches only ever find derived data of due messages that are stored,
rejected or forgotten, what was pending is pending, stored, rejected or forgotten, whatever is refused and whatever
times out. -/
theorem recorded_of_run {n₀ : Node} {w : World} {p : PendingMessageDb}
    (hnamed : ∀ q ∈ n₀.pendingMessages, q.Named) (hp : p ∈ n₀.pendingMessages) (hsender : isBlacklisted p = false)
    (hrun : Relation.ReflTransGen (Guarded Insertion duplicatesGuard) ⟨n₀, .idle⟩ w) :
    (∃ q ∈ w.node.pendingMessages, q.itemHash = p.itemHash) ∨ Elsewhere w.node p.itemHash := by
  have hinv := (keepsMessage p.itemHash).inv_of_run (n := n₀) ⟨.inl ⟨p, hp, rfl, hsender⟩, hnamed⟩ hrun
  refine hinv.1.imp_left ?_
  rintro ⟨q, hq, he, -⟩
  exact ⟨q, hq, he⟩

/-! ### A note that is posted and not stored -/

section Refused

open PostHandler

/-- The note, synced from a chain and not processed yet. -/
def noteQueued : PendingMessageDb := ⟨noteHash, note.toJson, 1700000010, true, true, 0, 1700000010, true⟩

def queuedNode : Node := { Node.empty with pendingMessages := Table.empty.insertNew noteQueued }

/-- The note is posted, and the statement that stores the message is refused. -/
def refusal : Except ProcessorError ProcessResult × Node :=
  (processSingleMessage revisionCtx noteQueued).run.runWith [none, some "connection closed"] queuedNode

/-- The batch postpones it. -/
def postponed : Node :=
  ((settle revisionCtx (batchOf revisionCtx queuedNode) [(noteQueued, refusal.1)]).run.run refusal.2).2

/-- A batch two minutes later. -/
def laterCtx : ProcessorContext := { revisionCtx with now := 1700000420 }

def settledLater : Node := ((settle laterCtx (batchOf laterCtx postponed) []).run.run postponed).2

example : postponed.pendingMessages.rows.map PendingMessageDb.retries = [1] := by decide +kernel

theorem run_refused {guard : Stage → Node → Prop}
    (hG₁ : ∀ t, Reach (takeBatch revisionCtx).run queuedNode t → guard (.taking revisionCtx) t)
    (hG₂ : ∀ t, guard .working t) (hG₃ : ∀ results t, guard (.settling results) t) :
    Relation.ReflTransGen (Guarded Insertion guard) ⟨queuedNode, .idle⟩ ⟨postponed, .idle⟩ := by
  have hone : (batchOf revisionCtx queuedNode).messages = [noteQueued] := by decide +kernel
  have htake : Exec (takeBatch revisionCtx).run queuedNode (.ok (batchOf revisionCtx queuedNode)) queuedNode :=
    exec_takeBatch (by decide +kernel)
  have hwork : WorkedOff revisionCtx (batchOf revisionCtx queuedNode).messages queuedNode [(noteQueued, refusal.1)]
      refusal.2 := by
    rw [hone]
    exact ⟨refusal.1, refusal.2, [], exec_runWith _ _ _, ⟨rfl, rfl⟩, rfl⟩
  exact run_batch htake hwork (exec_run _ _) hG₁ hG₂ fun t _ => hG₃ _ t

/-- In the first batch the note is not lost. -/
theorem note_recorded :
    (∃ q ∈ postponed.pendingMessages, q.itemHash = noteHash) ∨ Elsewhere postponed noteHash := by
  have hnamed : ∀ q ∈ queuedNode.pendingMessages, q.Named := by
    intro q hq
    obtain rfl := List.mem_singleton.1 hq
    exact named_received (Message.decode_toJson note) _ rfl rfl
  have hsender : isBlacklisted noteQueued = false := by decide +kernel
  have hrun : Relation.ReflTransGen (Guarded Insertion duplicatesGuard) ⟨queuedNode, .idle⟩ ⟨postponed, .idle⟩ := by
    refine run_refused (fun t ht p _ _ _ hderived => ?_) (fun _ => trivial) fun _ _ => trivial
    obtain ⟨txs, rfl⟩ := reach_takeBatch ht
    exact absurd hderived List.not_mem_nil
  exact recorded_of_run hnamed (List.mem_singleton_self noteQueued) hsender hrun

/-- The next batch takes it for a duplicate and deletes it: it is lost. -/
theorem note_lost :
    (∃ q ∈ queuedNode.pendingMessages, q.itemHash = noteHash ∧ isBlacklisted q = false) ∧
      Relation.ReflTransGen (Step Insertion) ⟨queuedNode, .idle⟩ ⟨settledLater, .idle⟩ ∧
        (∀ q ∈ settledLater.pendingMessages, q.itemHash ≠ noteHash) ∧ ¬ Elsewhere settledLater noteHash := by
  have hnone : (batchOf laterCtx postponed).messages = [] := by decide +kernel
  have htake : Exec (takeBatch laterCtx).run postponed (.ok (batchOf laterCtx postponed)) postponed :=
    exec_takeBatch (by decide +kernel)
  have hwork : WorkedOff laterCtx (batchOf laterCtx postponed).messages postponed [] postponed := by
    rw [hnone]
    exact ⟨rfl, rfl⟩
  have hfirst : Relation.ReflTransGen (Guarded Insertion fun _ _ => True) ⟨queuedNode, .idle⟩ ⟨postponed, .idle⟩ :=
    run_refused (fun _ _ => trivial) (fun _ => trivial) fun _ _ => trivial
  have hlater : Relation.ReflTransGen (Guarded Insertion fun _ _ => True) ⟨postponed, .idle⟩ ⟨settledLater, .idle⟩ :=
    run_batch htake hwork (exec_run _ _) (fun _ _ => trivial) (fun _ => trivial) fun _ _ => trivial
  refine ⟨⟨noteQueued, List.mem_singleton_self _, rfl, by decide +kernel⟩,
    Relation.ReflTransGen.mono (fun _ _ hs => hs.1) _ _ (hfirst.trans hlater), ?_, ?_⟩
  · show ∀ q ∈ settledLater.pendingMessages.rows, q.itemHash ≠ noteHash
    decide +kernel
  · have hmessages : settledLater.messages.rows = [] := by decide +kernel
    have hrejected : settledLater.rejectedMessages.rows = [] := by decide +kernel
    have hforgotten : settledLater.forgottenMessages.rows = [] := by decide +kernel
    rintro (⟨r, hr, -⟩ | ⟨r, hr, -⟩ | ⟨r, hr, -⟩)
    · rw [Table.mem_def, hmessages] at hr
      cases hr
    · rw [Table.mem_def, hrejected] at hr
      cases hr
    · rw [Table.mem_def, hforgotten] at hr
      cases hr

end Refused

end MessageProcessor

end AlephCore
