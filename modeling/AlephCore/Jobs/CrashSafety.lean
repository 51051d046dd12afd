import AlephCore.Jobs.ChainSync
import AlephCore.Jobs.PinTracking
import AlephCore.Lib.Faults
import Mathlib.Data.List.Flatten

/-!
# CrashSafety — a chain-sync insertion that is cut off

`batch_insert_messages_and_queue` stores a chunk of messages by one statement and queues it by a second one.
An insertion that fails, or a node that stops, leaves some of its chunks done and perhaps one of them between
the two.  `filter_new_messages` then takes the messages of that chunk for handled, so no later cycle queues
them: `crash_recovery` says which messages of an insertion later cycles still bring to the queue.
-/

namespace AlephCore.ChainSync

open ProgE Prog

variable {ctx : ChainSyncContext} {n n' : Node} {chunk : List Message} {chunks : List (List Message)}
  {m : Message} {h : ItemHash}

/-! ## The states of an insertion -/

/-- A message of the hash is stored. -/
def Stored (n : Node) (h : ItemHash) : Prop := ∃ r ∈ n.messages, r.itemHash = h

/-- A message of the hash is queued. -/
def IsPending (n : Node) (h : ItemHash) : Prop := ∃ p ∈ n.pendingMessages, p.itemHash = h

instance (n : Node) (h : ItemHash) : Decidable (Stored n h) :=
  inferInstanceAs (Decidable (∃ r ∈ n.messages.rows, _))

instance (n : Node) (h : ItemHash) : Decidable (IsPending n h) :=
  inferInstanceAs (Decidable (∃ p ∈ n.pendingMessages.rows, _))

/-- The messages that an insertion affects. -/
def affectedOf (n : Node) (messages : List Message) : List Message := messages.filter fun m => decide (Affected n m)

/-- A chunk is stored, and not queued. -/
def inserted (n : Node) (chunk : List Message) : Node :=
  { n with messages := chunk.foldl insertMessage n.messages }

/-- Messages are queued. -/
def enqueued (ctx : ChainSyncContext) (n : Node) (messages : List Message) : Node :=
  { n with pendingMessages := messages.foldl (fun t m => t.insertNew (queued ctx m)) n.pendingMessages }

/-- A chunk is stored, and what this affected is queued. -/
def chunkDone (ctx : ChainSyncContext) (n : Node) (chunk : List Message) : Node :=
  enqueued ctx (inserted n chunk) (affectedOf n chunk)

/-- How far an insertion has come: so many chunks are done, and perhaps the next one is between its statements. -/
structure Cut where
  done : Nat
  between : Bool
deriving DecidableEq

/-- The state an insertion is in. -/
def cutState (ctx : ChainSyncContext) (n : Node) (chunks : List (List Message)) (cut : Cut) : Node :=
  let n' := (chunks.take cut.done).foldl (chunkDone ctx) n
  if cut.between then inserted n' (chunks[cut.done]?.getD []) else n'

/-- One message for each hash: a chunk can be inserted by one statement. -/
def OneEach (messages : List Message) : Prop := (messages.map Message.itemHash).Nodup

theorem OneEach.sublist {messages messages' : List Message} (h : OneEach messages)
    (hsub : messages'.Sublist messages) : OneEach messages' :=
  List.Nodup.sublist (hsub.map _) h

theorem OneEach.eq {messages : List Message} (h : OneEach messages) {m m' : Message} (hm : m ∈ messages)
    (hm' : m' ∈ messages) (he : m.itemHash = m'.itemHash) : m = m' :=
  List.inj_on_of_nodup_map h hm hm' he

/-! ### Its statements -/

theorem exec_insertChunk_ok (hnodup : OneEach chunk) {affected : List Message} :
    Exec (insertChunk chunk).run n (.ok affected) n' ↔ affected = affectedOf n chunk ∧ n' = inserted n chunk := by
  have haffected : ((affectedOf n chunk).map Message.itemHash).Nodup := hnodup.sublist List.filter_sublist
  rw [insertChunk, exec_sql_ok]
  simp only [affectedOf, inserted] at haffected ⊢
  rw [if_pos haffected, Prod.mk.injEq, Except.ok.injEq, eq_comm, eq_comm (a := n')]

theorem reach_insertChunk (hnodup : OneEach chunk) :
    Reach (insertChunk chunk).run n n' ↔ n' = n ∨ n' = inserted n chunk := by
  have haffected : ((affectedOf n chunk).map Message.itemHash).Nodup := hnodup.sublist List.filter_sublist
  rw [insertChunk, reach_sql]
  simp only [affectedOf, inserted] at haffected ⊢
  rw [if_pos haffected]

theorem exec_queue_ok {messages : List Message} {u : Unit} :
    Exec (queueMessagesForProcessing ctx messages).run n (.ok u) n' ↔ n' = enqueued ctx n messages := by
  unfold queueMessagesForProcessing
  cases messages with
  | nil => simp [enqueued]
  | cons m messages => exact exec_execute_ok

theorem reach_queue {messages : List Message} :
    Reach (queueMessagesForProcessing ctx messages).run n n' ↔ n' = n ∨ n' = enqueued ctx n messages := by
  unfold queueMessagesForProcessing
  cases messages with
  | nil =>
    refine reach_pure.trans ⟨.inl, ?_⟩
    rintro (rfl | rfl) <;> rfl
  | cons m messages => exact reach_sql

theorem exec_insertAndQueue_ok (hnodup : OneEach chunk) {k : Nat} :
    Exec (insertAndQueue ctx chunk).run n (.ok k) n' ↔
      k = (affectedOf n chunk).length ∧ n' = chunkDone ctx n chunk := by
  unfold insertAndQueue
  rw [exec_bind_ok]
  constructor
  · rintro ⟨affected, t, hinsert, hrest⟩
    obtain ⟨rfl, rfl⟩ := (exec_insertChunk_ok hnodup).1 hinsert
    obtain ⟨u, t, hqueue, hpure⟩ := exec_bind_ok.1 hrest
    obtain ⟨rfl, rfl⟩ := exec_pure_ok.1 hpure
    exact ⟨rfl, exec_queue_ok.1 hqueue⟩
  · rintro ⟨rfl, rfl⟩
    refine ⟨_, _, (exec_insertChunk_ok hnodup).2 ⟨rfl, rfl⟩, exec_bind_ok.2 ⟨(), _, exec_queue_ok.2 rfl, ?_⟩⟩
    exact exec_pure_ok.2 ⟨rfl, rfl⟩

/-- One chunk can be cut off before, between and after its statements. -/
theorem reach_insertAndQueue (hnodup : OneEach chunk) :
    Reach (insertAndQueue ctx chunk).run n n' ↔
      n' = n ∨ n' = inserted n chunk ∨ n' = chunkDone ctx n chunk := by
  unfold insertAndQueue
  rw [reach_bind, reach_insertChunk hnodup]
  constructor
  · rintro ((hn | hn) | ⟨affected, t, hinsert, hrest⟩)
    · exact .inl hn
    · exact .inr (.inl hn)
    · obtain ⟨rfl, rfl⟩ := (exec_insertChunk_ok hnodup).1 hinsert
      rcases reach_bind.1 hrest with hqueue | ⟨u, t, hqueue, hpure⟩
      · exact .inr (reach_queue.1 hqueue)
      · rw [reach_pure.1 hpure]
        exact .inr (.inr (exec_queue_ok.1 hqueue))
  · rintro (hn | hn | rfl)
    · exact .inl (.inl hn)
    · exact .inl (.inr hn)
    · refine .inr ⟨_, _, (exec_insertChunk_ok hnodup).2 ⟨rfl, rfl⟩, reach_bind.2 (.inl ?_)⟩
      exact reach_queue.2 (.inr rfl)

/-- **An insertion can be cut off between its chunks, and between the statements of each.** -/
theorem reach_insertChunks {total : Nat} (hnodup : ∀ chunk ∈ chunks, OneEach chunk) :
    Reach (insertChunks ctx total chunks).run n n' ↔ ∃ cut, n' = cutState ctx n chunks cut := by
  induction chunks generalizing total n with
  | nil =>
    refine reach_pure.trans ⟨fun h => ⟨⟨0, false⟩, h⟩, ?_⟩
    rintro ⟨⟨done, between⟩, rfl⟩
    cases between <;> simp [cutState, inserted]
  | cons chunk chunks ih =>
    obtain ⟨hchunk, hchunks⟩ := List.forall_mem_cons.1 hnodup
    unfold insertChunks
    rw [reach_bind, reach_insertAndQueue hchunk]
    constructor
    · rintro ((rfl | rfl | rfl) | ⟨k, t, hdone, hrest⟩)
      · exact ⟨⟨0, false⟩, rfl⟩
      · exact ⟨⟨0, true⟩, rfl⟩
      · exact ⟨⟨1, false⟩, rfl⟩
      · obtain ⟨-, rfl⟩ := (exec_insertAndQueue_ok hchunk).1 hdone
        obtain ⟨⟨done, between⟩, rfl⟩ := (ih hchunks).1 hrest
        exact ⟨⟨done + 1, between⟩, rfl⟩
    · rintro ⟨⟨_ | done, between⟩, rfl⟩
      · cases between
        · exact .inl (.inl rfl)
        · exact .inl (.inr (.inl rfl))
      · refine .inr ⟨_, _, (exec_insertAndQueue_ok hchunk).2 ⟨rfl, rfl⟩, (ih hchunks).2 ?_⟩
        exact ⟨⟨done, between⟩, rfl⟩

/-! ### What they store and queue -/

theorem stored_inserted : Stored (inserted n chunk) h ↔ Stored n h ∨ ∃ m ∈ chunk, m.itemHash = h := by
  show (∃ r ∈ chunk.foldl insertMessage n.messages, _) ↔ (∃ r ∈ n.messages, _) ∨ _
  generalize n.messages = t
  induction chunk generalizing t with
  | nil => simp
  | cons m chunk ih =>
    rw [List.foldl_cons, ih, insertMessage, Table.exists_key_upsert (P := (· = h)), List.exists_mem_cons_iff, or_assoc]
    rfl

theorem isPending_enqueued {messages : List Message} :
    IsPending (enqueued ctx n messages) h ↔ IsPending n h ∨ ∃ m ∈ messages, m.itemHash = h := by
  show (∃ p ∈ messages.foldl _ n.pendingMessages, _) ↔ (∃ p ∈ n.pendingMessages, _) ∨ _
  generalize n.pendingMessages = t
  induction messages generalizing t with
  | nil => simp
  | cons m messages ih =>
    rw [List.foldl_cons, ih, Table.exists_key_insertNew (P := (· = h)), List.exists_mem_cons_iff, or_assoc]
    rfl

theorem stored_chunkDone : Stored (chunkDone ctx n chunk) h ↔ Stored n h ∨ ∃ m ∈ chunk, m.itemHash = h :=
  stored_inserted

theorem isPending_chunkDone :
    IsPending (chunkDone ctx n chunk) h ↔ IsPending n h ∨ ∃ m ∈ chunk, m.itemHash = h ∧ Affected n m := by
  refine isPending_enqueued.trans (or_congr Iff.rfl (exists_congr fun m => ?_))
  rw [affectedOf, List.mem_filter, decide_eq_true_eq]
  exact ⟨fun hm => ⟨hm.1.1, hm.2, hm.1.2⟩, fun hm => ⟨⟨hm.1, hm.2.2⟩, hm.2.1⟩⟩

/-- A row of another hash than those of the chunk is not touched. -/
theorem mem_inserted_of_ne (hne : ∀ m ∈ chunk, m.itemHash ≠ h) {r : MessageRow} (hr : r.itemHash = h) :
    r ∈ (inserted n chunk).messages ↔ r ∈ n.messages := by
  show r ∈ chunk.foldl insertMessage n.messages ↔ r ∈ n.messages
  generalize n.messages = t
  induction chunk generalizing t with
  | nil => rfl
  | cons m chunk ih =>
    obtain ⟨hm, hchunk⟩ := List.forall_mem_cons.1 hne
    rw [List.foldl_cons, ih hchunk, insertMessage, Table.mem_upsert]
    constructor
    · rintro (⟨hmem, -⟩ | ⟨s, -, hs, rfl⟩ | ⟨rfl, -⟩)
      · exact hmem
      · exact absurd (hs.symm.trans hr) hm
      · exact absurd hr hm
    · intro hmem
      exact .inl ⟨hmem, fun he => hm (he.symm.trans hr)⟩

theorem affected_chunkDone (hne : ∀ m' ∈ chunk, m'.itemHash ≠ m.itemHash) :
    Affected (chunkDone ctx n chunk) m ↔ Affected n m := by
  refine forall_congr' fun r => ⟨fun h hr he => ?_, fun h hr he => ?_⟩
  · exact h ((mem_inserted_of_ne hne he).2 hr) he
  · exact h ((mem_inserted_of_ne hne he).1 hr) he

/-- **Chunks that are done one after another are done as one.** -/
theorem foldl_chunkDone (ctx : ChainSyncContext) (chunks : List (List Message)) (hnodup : OneEach chunks.flatten) :
    (Stored (chunks.foldl (chunkDone ctx) n) h ↔ Stored n h ∨ ∃ m ∈ chunks.flatten, m.itemHash = h) ∧
      (IsPending (chunks.foldl (chunkDone ctx) n) h ↔
        IsPending n h ∨ ∃ m ∈ chunks.flatten, m.itemHash = h ∧ Affected n m) ∧
      ∀ m, (∀ m' ∈ chunks.flatten, m'.itemHash ≠ m.itemHash) →
        (Affected (chunks.foldl (chunkDone ctx) n) m ↔ Affected n m) := by
  induction chunks generalizing n with
  | nil => simp
  | cons chunk chunks ih =>
    rw [List.flatten_cons] at hnodup ⊢
    have hdisjoint : ∀ m ∈ chunks.flatten, ∀ m' ∈ chunk, m'.itemHash ≠ m.itemHash := by
      intro m hm m' hm'
      rw [OneEach, List.map_append] at hnodup
      exact (List.nodup_append.1 hnodup).2.2 _ (List.mem_map_of_mem hm') _ (List.mem_map_of_mem hm)
    obtain ⟨hstored, hpending, haffected⟩ :=
      ih (n := chunkDone ctx n chunk) (hnodup.sublist (List.sublist_append_right _ _))
    simp only [List.foldl_cons, List.mem_append, or_and_right, exists_or]
    refine ⟨?_, ?_, fun m hm => ?_⟩
    · rw [hstored, stored_chunkDone, or_assoc]
    · rw [hpending, isPending_chunkDone, or_assoc]
      refine or_congr Iff.rfl (or_congr Iff.rfl (exists_congr fun m => and_congr_right fun hm => ?_))
      rw [affected_chunkDone (hdisjoint m hm)]
    · rw [haffected m fun m' hm' => hm m' (.inr hm'), affected_chunkDone fun m' hm' => hm m' (.inl hm')]

/-! ## Later cycles -/

theorem toChunks_flatten (size : Nat) (messages : List Message) : (messages.toChunks size).flatten = messages := by
  have hgo : ∀ (rest : List Message) (current : Array Message) (full : Array (List Message)),
      (List.toChunks.go size rest current full).flatten = full.toList.flatten ++ current.toList ++ rest := by
    intro rest
    induction rest with
    | nil => intro current full; simp [List.toChunks.go]
    | cons m rest ih =>
      intro current full
      unfold List.toChunks.go
      split_ifs
      · rw [ih]; simp
      · rw [ih]; simp
  cases messages with
  | nil => rfl
  | cons m messages =>
    cases size with
    | zero => simp [List.toChunks]
    | succ size => exact (hgo messages _ _).trans (by simp)

theorem oneEach_toChunks {messages : List Message} (hnodup : OneEach messages) (size : Nat) :
    ∀ chunk ∈ messages.toChunks size, OneEach chunk := by
  intro chunk hchunk
  rw [← toChunks_flatten size messages] at hnodup
  exact hnodup.sublist (List.sublist_flatten_of_mem hchunk)

/-- Without a failure every chunk is done. -/
theorem run_insertChunks {total : Nat} (hnodup : ∀ chunk ∈ chunks, OneEach chunk) :
    ∃ k, (insertChunks ctx total chunks).run.run n = (.ok k, chunks.foldl (chunkDone ctx) n) := by
  induction chunks generalizing total n with
  | nil => exact ⟨total, rfl⟩
  | cons chunk chunks ih =>
    obtain ⟨hchunk, hchunks⟩ := List.forall_mem_cons.1 hnodup
    have hinsert : (insertChunk chunk).run.run n = (.ok (affectedOf n chunk), inserted n chunk) :=
      exec_sql_ok.1 ((exec_insertChunk_ok hchunk).2 ⟨rfl, rfl⟩)
    have hqueue : ∀ n messages,
        (queueMessagesForProcessing ctx messages).run.run n = (.ok (), enqueued ctx n messages) := by
      intro n messages
      cases messages <;> rfl
    have hchunkDone : (insertAndQueue ctx chunk).run.run n =
        (.ok (affectedOf n chunk).length, chunkDone ctx n chunk) := by
      unfold insertAndQueue
      rw [run_bind_ok hinsert, run_bind_ok (hqueue _ _)]
      rfl
    unfold insertChunks
    rw [run_bind_ok hchunkDone]
    exact ih hchunks

theorem run_batchInsert (ctx : ChainSyncContext) {messages : List Message} (hnodup : OneEach messages) :
    ∃ k, (batchInsertMessagesAndQueueOrdered ctx messages).run.run n =
      (.ok k, (messages.toChunks dbBatchSize).foldl (chunkDone ctx) n) :=
  run_insertChunks (oneEach_toChunks hnodup dbBatchSize)

theorem run_existingHashes (chunks : List (List Message)) :
    ∃ found, (existingHashes chunks).run.run n = (.ok found, n) ∧
      ∀ h, h ∈ found ↔ Stored n h ∧ ∃ m ∈ chunks.flatten, m.itemHash = h := by
  induction chunks with
  | nil => exact ⟨[], rfl, by simp⟩
  | cons chunk chunks ih =>
    obtain ⟨rest, hrest, hmem⟩ := ih
    refine ⟨((n.messages.rows.map MessageRow.itemHash).filter fun h =>
      decide (h ∈ chunk.map Message.itemHash)) ++ rest, ?_, fun h => ?_⟩
    · unfold existingHashes
      rw [run_bind_ok (run_query _ _), run_bind_ok hrest]
      rfl
    · rw [List.mem_append, hmem, List.mem_filter, decide_eq_true_eq, List.flatten_cons, List.mem_map, List.mem_map]
      simp only [List.mem_append, or_and_right, exists_or, and_or_left]
      rfl

/-- Without a failure the messages that are stored are left out. -/
theorem run_filterNewMessages {messages : List Message} : (filterNewMessages messages).run.run n =
    (.ok (messages.filter fun m => decide (¬ Stored n m.itemHash)), n) := by
  obtain ⟨found, hrun, hmem⟩ := run_existingHashes (n := n) (messages.toChunks filterChunk)
  rw [toChunks_flatten] at hmem
  unfold filterNewMessages
  rw [run_bind_ok ((run_attempt _ _).trans (by rw [hrun]))]
  refine congrArg (fun ms => (Except.ok ms, n)) (List.filter_congr fun m hm => ?_)
  rw [decide_eq_decide, hmem]
  exact not_congr (and_iff_left ⟨m, hm, rfl⟩)

theorem oneEach_dedupMessages (messages : List Message) : OneEach (dedupMessages messages) := by
  unfold dedupMessages
  induction messages with
  | nil => exact List.nodup_nil
  | cons m messages ih =>
    rw [List.foldr_cons]
    split_ifs with hseen
    · exact ih
    · refine List.nodup_cons.2 ⟨fun hmem => ?_, ih⟩
      obtain ⟨m', hm', he⟩ := List.mem_map.1 hmem
      exact hseen ⟨m', hm', he⟩

theorem oneEach_candidates (messages : List Message) : OneEach (candidates ctx messages) := by
  have hscan : OneEach (ctx.order.scan (dedupMessages messages)) :=
    ((ctx.order.perm _).map _).nodup_iff.2 (oneEach_dedupMessages messages)
  exact hscan.sublist List.filter_sublist

/-- A cycle over the messages of a batch file, without a failure. -/
def cycle (n : Node) (c : ChainSyncContext × List Message) : Node := ((syncMessages c.1 c.2).run.run n).2

/-- **A cycle stores the candidates and queues those that were not stored.** -/
theorem cycle_effect (c : ChainSyncContext × List Message) :
    (Stored (cycle n c) h ↔ Stored n h ∨ ∃ m ∈ candidates c.1 c.2, m.itemHash = h) ∧
      (IsPending (cycle n c) h ↔ IsPending n h ∨ (∃ m ∈ candidates c.1 c.2, m.itemHash = h) ∧ ¬ Stored n h) := by
  obtain ⟨ctx, messages⟩ := c
  set new := (candidates ctx messages).filter fun m => decide (¬ Stored n m.itemHash) with hnew
  set contents := new.filter fun m => m.itemContent.isSome
  set shells := new.filter fun m => m.itemContent.isNone
  have hperm : (contents ++ shells).Perm new := by
    have hshells : shells = new.filter fun m => !m.itemContent.isSome := by simp [shells]
    rw [hshells]
    exact List.filter_append_perm _ _
  have hnodup : OneEach (contents ++ shells) :=
    (hperm.map _).nodup_iff.2 ((oneEach_candidates messages).sublist List.filter_sublist)
  have hcycle : cycle n (ctx, messages) =
      (contents.toChunks dbBatchSize ++ shells.toChunks dbBatchSize).foldl (chunkDone ctx) n := by
    obtain ⟨k, hcontents⟩ := run_batchInsert (n := n) ctx
      (hnodup.sublist (List.sublist_append_left contents shells))
    obtain ⟨k', hshells⟩ := run_batchInsert
      (n := (contents.toChunks dbBatchSize).foldl (chunkDone ctx) n) ctx
      (hnodup.sublist (List.sublist_append_right contents shells))
    unfold cycle syncMessages
    rw [run_bind_ok run_filterNewMessages, run_bind_ok hcontents, run_bind_ok hshells, List.foldl_append]
    rfl
  have hflatten : (contents.toChunks dbBatchSize ++ shells.toChunks dbBatchSize).flatten = contents ++ shells := by
    rw [List.flatten_append, toChunks_flatten, toChunks_flatten]
  obtain ⟨hstored, hpending, -⟩ := foldl_chunkDone (n := n) (h := h) ctx
    (contents.toChunks dbBatchSize ++ shells.toChunks dbBatchSize) (by rwa [hflatten])
  have hmem : ∀ m, m ∈ contents ++ shells ↔ m ∈ candidates ctx messages ∧ ¬ Stored n m.itemHash := by
    intro m
    rw [hperm.mem_iff, hnew, List.mem_filter, decide_eq_true_eq]
  simp only [hcycle, hstored, hpending, hflatten, hmem]
  constructor
  · by_cases hn : Stored n h
    · exact iff_of_true (.inl hn) (.inl hn)
    · refine or_congr Iff.rfl (exists_congr fun m => ⟨fun hm => ⟨hm.1.1, hm.2⟩, fun hm => ⟨⟨hm.1, ?_⟩, hm.2⟩⟩)
      exact fun hm' => hn (hm.2 ▸ hm')
  · refine or_congr Iff.rfl ⟨?_, ?_⟩
    · rintro ⟨m, ⟨hm, hn⟩, rfl, -⟩
      exact ⟨⟨m, hm, rfl⟩, hn⟩
    · rintro ⟨⟨m, hm, rfl⟩, hn⟩
      exact ⟨m, ⟨hm, hn⟩, rfl, fun r hr he => absurd ⟨r, hr, he⟩ hn⟩

/-- The cycles that follow a restart. -/
def resume (n : Node) (cycles : List (ChainSyncContext × List Message)) : Node := cycles.foldl cycle n

/-- One of the cycles sees the events that a message of the hash is in. -/
def Covers (cycles : List (ChainSyncContext × List Message)) (h : ItemHash) : Prop :=
  ∃ c ∈ cycles, ∃ m ∈ candidates c.1 c.2, m.itemHash = h

/-- Later cycles over the same events bring the message into the pending messages. -/
def Recovers (n : Node) (h : ItemHash) : Prop := ∀ cycles, Covers cycles h → IsPending (resume n cycles) h

/-- The message is stored, and no cycle queues it ever. -/
def Stranded (n : Node) (h : ItemHash) : Prop :=
  ∀ cycles, Stored (resume n cycles) h ∧ ¬ IsPending (resume n cycles) h

theorem stored_resume {cycles : List (ChainSyncContext × List Message)} (hn : Stored n h) :
    Stored (resume n cycles) h ∧ (IsPending (resume n cycles) h ↔ IsPending n h) := by
  induction cycles generalizing n with
  | nil => exact ⟨hn, Iff.rfl⟩
  | cons c cycles ih =>
    obtain ⟨hstored, hpending⟩ := ih ((cycle_effect c).1.2 (.inl hn))
    refine ⟨hstored, hpending.trans ((cycle_effect c).2.trans (or_iff_left fun hnew => hnew.2 hn))⟩

theorem isPending_resume {cycles : List (ChainSyncContext × List Message)} (hn : IsPending n h) :
    IsPending (resume n cycles) h := by
  induction cycles generalizing n with
  | nil => exact hn
  | cons c cycles ih => exact ih ((cycle_effect c).2.2 (.inl hn))

theorem recovers (hn : IsPending n h ∨ ¬ Stored n h) : Recovers n h := by
  intro cycles
  induction cycles generalizing n with
  | nil =>
    rintro ⟨c, hc, -⟩
    cases hc
  | cons c cycles ih =>
    intro hcovers
    by_cases hc : ∃ m ∈ candidates c.1 c.2, m.itemHash = h
    · show IsPending (resume (cycle n c) cycles) h
      refine isPending_resume ((cycle_effect c).2.2 ?_)
      exact hn.imp_right fun hn => ⟨hc, hn⟩
    · refine ih ?_ ?_
      · rw [(cycle_effect c).1, (cycle_effect c).2]
        simpa only [hc, false_and, or_false] using hn
      · obtain ⟨c', hc', hm⟩ := hcovers
        rcases List.mem_cons.1 hc' with rfl | hc'
        · exact absurd hm hc
        · exact ⟨c', hc', hm⟩

theorem stranded (hstored : Stored n h) (hpending : ¬ IsPending n h) : Stranded n h := fun _ =>
  ⟨(stored_resume hstored).1, fun hp => hpending ((stored_resume hstored).2.1 hp)⟩

/-- **A message is recovered exactly if it is queued, or not stored yet.** -/
theorem recovers_iff (ctx : ChainSyncContext) (hsender : m.sender ∉ blacklistedSenders) :
    Recovers n m.itemHash ↔ IsPending n m.itemHash ∨ ¬ Stored n m.itemHash := by
  refine ⟨fun hrecovers => ?_, recovers⟩
  by_contra hn
  obtain ⟨hpending, hstored⟩ := not_or.1 hn
  have hmem : m ∈ candidates ctx [m] := by
    rw [candidates, List.mem_filter, SqlOrder.mem_scan, decide_eq_true_eq]
    exact ⟨List.mem_singleton_self m, hsender⟩
  have hcovers : Covers [(ctx, [m])] m.itemHash := ⟨_, List.mem_singleton_self _, m, hmem, rfl⟩
  exact (stranded (not_not.1 hstored) hpending _).2 (hrecovers _ hcovers)

/-! ## Crash safety -/

/-- What a cycle hands over for insertion: one message for each hash, and none of a blacklisted sender. -/
structure SyncBatch where
  messages : List Message
  oneEach : OneEach messages
  allowed : ∀ m ∈ messages, m.sender ∉ blacklistedSenders

/-- The chunks of a batch. -/
def SyncBatch.inChunks (batch : SyncBatch) : List (List Message) := batch.messages.toChunks dbBatchSize

/-- The number of chunks that are stored, be they queued or not. -/
def Cut.begun (cut : Cut) : Nat := if cut.between then cut.done + 1 else cut.done

/-- The message is queued before; or its chunk is done, and the insertion affected it; or its chunk is not begun,
and no message of its hash is stored before. -/
def SafeAt (n : Node) (batch : SyncBatch) (cut : Cut) (m : Message) : Prop :=
  IsPending n m.itemHash ∨ (m ∈ (batch.inChunks.take cut.done).flatten ∧ Affected n m) ∨
    (m ∈ (batch.inChunks.drop cut.begun).flatten ∧ ¬ Stored n m.itemHash)

theorem cutState_effect (ctx : ChainSyncContext) (cut : Cut) (hnodup : OneEach chunks.flatten) :
    (Stored (cutState ctx n chunks cut) h ↔
        Stored n h ∨ ∃ m ∈ (chunks.take cut.begun).flatten, m.itemHash = h) ∧
      (IsPending (cutState ctx n chunks cut) h ↔
        IsPending n h ∨ ∃ m ∈ (chunks.take cut.done).flatten, m.itemHash = h ∧ Affected n m) := by
  have htake : OneEach (chunks.take cut.done).flatten :=
    hnodup.sublist (List.take_sublist _ _).flatten
  obtain ⟨hstored, hpending, -⟩ := foldl_chunkDone (n := n) (h := h) ctx _ htake
  unfold cutState Cut.begun
  cases cut.between with
  | false => exact ⟨hstored, hpending⟩
  | true =>
    refine ⟨?_, hpending⟩
    have hbegun : chunks.take (cut.done + 1) = chunks.take cut.done ++ chunks[cut.done]?.toList := List.take_add_one
    rw [if_pos rfl, if_pos rfl, stored_inserted, hstored, hbegun, List.flatten_append, or_assoc]
    refine or_congr Iff.rfl ?_
    simp only [List.mem_append, or_and_right, exists_or]
    cases chunks[cut.done]? <;> simp

theorem derivedHashes_cutState {cut : Cut} :
    MessageProcessor.derivedHashes (cutState ctx n chunks cut) = MessageProcessor.derivedHashes n := by
  have hdone : ∀ chunks n, MessageProcessor.derivedHashes (List.foldl (chunkDone ctx) n chunks) =
      MessageProcessor.derivedHashes n := by
    intro chunks
    induction chunks with
    | nil => intro n; rfl
    | cons chunk chunks ih => intro n; exact ih _
  unfold cutState
  split_ifs <;> exact hdone _ _

/-- Where a cut leaves a message of the batch. -/
theorem safeAt_iff (ctx : ChainSyncContext) {batch : SyncBatch} {cut : Cut} (hm : m ∈ batch.messages) :
    SafeAt n batch cut m ↔ IsPending (cutState ctx n batch.inChunks cut) m.itemHash ∨
      ¬ Stored (cutState ctx n batch.inChunks cut) m.itemHash := by
  have hflatten : batch.inChunks.flatten = batch.messages := toChunks_flatten _ _
  have hnodup : OneEach batch.inChunks.flatten := hflatten ▸ batch.oneEach
  obtain ⟨hstored, hpending⟩ := cutState_effect (n := n) (h := m.itemHash) ctx cut hnodup
  -- another message of the batch has another hash
  have hself : ∀ k, ∀ m' ∈ (batch.inChunks.take k).flatten, m'.itemHash = m.itemHash → m' = m := fun k m' hm' he =>
    batch.oneEach.eq (hflatten ▸ (List.take_sublist _ _).flatten.subset hm') hm he
  have hbegun : (∃ m' ∈ (batch.inChunks.take cut.begun).flatten, m'.itemHash = m.itemHash) ↔
      m ∉ (batch.inChunks.drop cut.begun).flatten := by
    rw [← List.take_append_drop cut.begun batch.inChunks, List.flatten_append] at hnodup hflatten
    constructor
    · rintro ⟨m', hm', he⟩ hdrop
      rw [OneEach, List.map_append] at hnodup
      exact (List.nodup_append.1 hnodup).2.2 _ (List.mem_map_of_mem hm') _ (List.mem_map_of_mem hdrop) he
    · intro hdrop
      exact ⟨m, (List.mem_append.1 (hflatten ▸ hm)).resolve_right hdrop, rfl⟩
  have hdone : (∃ m' ∈ (batch.inChunks.take cut.done).flatten, m'.itemHash = m.itemHash ∧ Affected n m') ↔
      m ∈ (batch.inChunks.take cut.done).flatten ∧ Affected n m := by
    constructor
    · rintro ⟨m', hm', he, haffected⟩
      obtain rfl := hself _ m' hm' he
      exact ⟨hm', haffected⟩
    · rintro ⟨hmem, haffected⟩
      exact ⟨m, hmem, rfl, haffected⟩
  rw [SafeAt, hpending, hstored, hbegun, hdone, not_or, not_not, or_assoc, and_comm (a := ¬ _)]

/-- **Later cycles bring all messages of an insertion to the queue exactly if the messages without derived data are
where they are safe**; a message that is not is stored and never queued. -/
theorem crash_recovery (ctx : ChainSyncContext) (n : Node) (batch : SyncBatch) :
    (∀ n', Reach (batchInsertMessagesAndQueueOrdered ctx batch.messages).run n n' ↔
      ∃ cut, n' = cutState ctx n batch.inChunks cut) ∧
    ∀ cut,
      ((∀ m ∈ batch.messages, m.itemHash ∉ MessageProcessor.derivedHashes (cutState ctx n batch.inChunks cut) →
          Recovers (cutState ctx n batch.inChunks cut) m.itemHash) ↔
        ∀ m ∈ batch.messages, m.itemHash ∉ MessageProcessor.derivedHashes n → SafeAt n batch cut m) ∧
      ∀ m ∈ batch.messages, ¬ SafeAt n batch cut m → Stranded (cutState ctx n batch.inChunks cut) m.itemHash := by
  refine ⟨fun n' => reach_insertChunks (oneEach_toChunks batch.oneEach dbBatchSize), fun cut => ⟨?_, ?_⟩⟩
  · rw [derivedHashes_cutState]
    refine forall_congr' fun m => forall_congr' fun hm => imp_congr Iff.rfl ?_
    exact (recovers_iff ctx (batch.allowed m hm)).trans (safeAt_iff ctx hm).symm
  · intro m hm hunsafe
    rw [safeAt_iff ctx hm, not_or, not_not] at hunsafe
    exact stranded hunsafe.2 hunsafe.1

/-- A chain delivers an upload. -/
def storeBatch : SyncBatch where
  messages := [MessageProcessor.firstStore]
  oneEach := List.nodup_singleton _
  allowed := by decide

def syncCtx : ChainSyncContext := ⟨.stored, 1700000010, fun _ => none⟩

/-- **A node that stops between the two statements loses the upload**: it is stored, no data are derived from it, and
no later cycle queues it. -/
theorem store_stranded : ∃ n', Reach (batchInsertMessagesAndQueueOrdered syncCtx storeBatch.messages).run .empty n' ∧
    ∃ m ∈ storeBatch.messages, m.itemHash ∉ MessageProcessor.derivedHashes n' ∧ ¬ Recovers n' m.itemHash ∧
      Stranded n' m.itemHash := by
  have hmem : MessageProcessor.firstStore ∈ storeBatch.messages := List.mem_singleton_self _
  have hstored : Stored (cutState syncCtx .empty storeBatch.inChunks ⟨0, true⟩) MessageProcessor.firstHash := by
    decide +kernel
  have hpending : ¬ IsPending (cutState syncCtx .empty storeBatch.inChunks ⟨0, true⟩) MessageProcessor.firstHash := by
    decide +kernel
  refine ⟨cutState syncCtx .empty storeBatch.inChunks ⟨0, true⟩, ?_, _, hmem, by decide +kernel, fun h => ?_,
    stranded hstored hpending⟩
  · exact (reach_insertChunks (oneEach_toChunks storeBatch.oneEach dbBatchSize)).2 ⟨_, rfl⟩
  · rcases (recovers_iff syncCtx (storeBatch.allowed _ hmem)).1 h with hqueued | hnew
    · exact hpending hqueued
    · exact hnew hstored

end AlephCore.ChainSync
