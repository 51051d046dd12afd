import AlephCore.Jobs.SyncConfirmations
import AlephCore.Lib.Watch

/-!
# CursorSafety — what a cursor passes has been handled

A loop moves its cursor only after the insertion of what it has fetched has returned without an error.  Whatever
statements are refused and whatever the other jobs do to the tables in between, each message of the batches that were
read has been stored at a moment of that cycle; and it has been pending, unless it was stored when the cycle began or
another job has stored it.
-/

namespace AlephCore.ChainSync

open Prog ProgE SyncFormat

/-! ## What is observed of a cycle -/

/-- A fact about the tables. -/
inductive Fact where
  | stored (h : ItemHash)
  | pending (h : ItemHash)

/-- The facts that hold. -/
def facts (n : Node) : Set Fact
  | .stored h => Stored n h
  | .pending h => IsPending n h

/-- Events and their batches come in, and a cycle begins. -/
def Label.fetches : Label → Bool
  | .rpcFetched _ _ _ => true
  | .indexerFetched _ _ => true
  | _ => false

/-- A world, the facts with which its cycle has begun and those that have held at a moment of it. -/
structure Observed where
  world : SyncWorld
  start : Set Fact
  seen : Set Fact

def Observed.begin (w : SyncWorld) : Observed := ⟨w, facts w.node, facts w.node⟩

def Observed.next (o : Observed) (label : Label) (w : SyncWorld) : Observed :=
  if label.fetches then .begin w else ⟨w, o.start, o.seen ∪ facts w.node⟩

/-- The messages that the other jobs store are among the foreign ones, or they have been stored in this cycle. -/
def Beside (foreign : Set ItemHash) (o : Observed) : Label → Prop
  | .other node => ∀ h, Stored node h → h ∈ foreign ∨ .stored h ∈ o.seen
  | _ => True

/-- Runs that are observed. -/
inductive ObservedRun (env : Env) (foreign : Set ItemHash) (o : Observed) : Observed → Prop
  | refl : ObservedRun env foreign o o
  | step {o' : Observed} {label : Label} {w : SyncWorld} (run : ObservedRun env foreign o o')
      (hbeside : Beside foreign o' label) (h : Step env label o'.world w) :
      ObservedRun env foreign o (o'.next label w)

/-- **The message has been handled**: it has been stored, and it has been pending unless it was stored before or by
another job. -/
def Handled (foreign : Set ItemHash) (start seen : Set Fact) (h : ItemHash) : Prop :=
  .stored h ∈ seen ∧ (h ∈ foreign ∨ .stored h ∈ start ∨ .pending h ∈ seen)

/-- A message of the hash is of a sender whose messages are skipped. -/
def Skipped (batches : List ReadBatch) (h : ItemHash) : Prop :=
  ∃ m ∈ batches.flatMap ReadBatch.messages, m.itemHash = h ∧ m.sender ∈ blacklistedSenders

/-- The batches that the cursor passes when it moves. -/
def Call.batches : Call → List ReadBatch
  | .rpcConfirming fetch _ => fetch.batches
  | .indexerAdvancing page => page.batches
  | _ => []

/-! ## The insertion -/

section Insertion

/-- Beside an insertion others may store the foreign messages, and do to the rows what they like. -/
def insertingContract (foreign : Set ItemHash) : Contract (Watched Node Fact) where
  given v := facts v.store ⊆ v.seen
  rely v v' := v.seen ⊆ v'.seen ∧ ∀ h, .stored h ∈ v'.seen → h ∈ foreign ∨ .stored h ∈ v.seen
  guar v v' := v.seen ⊆ v'.seen
  rely_refl _ := ⟨subset_rfl, fun _ hs => .inr hs⟩
  rely_trans h h' := ⟨h.1.trans h'.1, fun x hx => (h'.2 x hx).elim .inl (h.2 x)⟩
  guar_refl _ := subset_rfl

variable {foreign : Set ItemHash} {start : Set Fact} {done later : Set ItemHash} {ctx : ChainSyncContext}
  {v v' : Watched Node Fact} {messages chunk : List Message}

/-- These have been handled, and those have not been stored by the cycle. -/
structure Progress (foreign : Set ItemHash) (start : Set Fact) (done later : Set ItemHash) (v : Watched Node Fact) :
    Prop where
  handled : ∀ h ∈ done, Handled foreign start v.seen h
  fresh : ∀ h ∈ later, .stored h ∈ v.seen → h ∈ foreign ∨ .stored h ∈ start

theorem Handled.mono {seen seen' : Set Fact} {h : ItemHash} (hh : Handled foreign start seen h)
    (hsub : seen ⊆ seen') : Handled foreign start seen' h :=
  ⟨hsub hh.1, hh.2.imp_right (Or.imp_right fun hp => hsub hp)⟩

theorem Progress.rely (h : Progress foreign start done later v) (hrely : (insertingContract foreign).rely v v') :
    Progress foreign start done later v' where
  handled x hx := (h.handled x hx).mono hrely.1
  fresh x hx hstored := by
    rcases hrely.2 x hstored with hforeign | hold
    · exact .inl hforeign
    · exact h.fresh x hx hold

theorem stable_progress : (insertingContract foreign).Stable (Progress foreign start done later) :=
  fun _ _ hrely h => h.rely hrely

theorem reads_existingHashes (chunks : List (List Message)) :
    Moves (fun n n' : Node => n = n') (existingHashes chunks).run := by
  induction chunks with
  | nil => exact moves_pure []
  | cons chunk chunks ih =>
    exact moves_bind (moves_sql fun _ => rfl) fun _ => moves_bind ih fun _ => moves_pure _

/-- What is looked up has been stored. -/
theorem seen_existingHashes (chunks : List (List Message)) :
    AssuresSeen (insertingContract foreign) facts (IfOk fun existing v => ∀ h ∈ existing, Fact.stored h ∈ v.seen)
      (existingHashes chunks).run v := by
  have hstable : ∀ existing : List ItemHash,
      (insertingContract foreign).Stable fun v => ∀ h ∈ existing, Fact.stored h ∈ v.seen :=
    fun _ _ _ hrely h x hx => hrely.1 (h x hx)
  induction chunks generalizing v with
  | nil => exact seen_pure (hstable []) fun h hh => absurd hh List.not_mem_nil
  | cons chunk chunks ih =>
    unfold existingHashes
    refine seen_bind (P := fun found v => ∀ h ∈ found, Fact.stored h ∈ v.seen) ?_ fun found v hfound => ?_
    · refine seen_sql hstable fun u hrely hgiven => ⟨Set.subset_union_left, ifOk_ok.2 fun h hh => ?_⟩
      obtain ⟨r, hr, rfl⟩ := List.mem_map.1 (List.mem_of_mem_filter hh)
      exact .inr ⟨r, hr, rfl⟩
    · have hrest : AssuresSeen (insertingContract foreign) facts
          (fun r v => IfOk (fun rest v => ∀ h ∈ rest, Fact.stored h ∈ v.seen) r v ∧ ∀ h ∈ found, Fact.stored h ∈ v.seen)
          (existingHashes chunks).run v :=
        ih.and (AssuresSeen.reads (reads_existingHashes chunks) (fun _ hgiven => hgiven) (hstable found) hfound)
      refine seen_bind (P := fun rest v => (∀ h ∈ rest, Fact.stored h ∈ v.seen) ∧ ∀ h ∈ found, Fact.stored h ∈ v.seen)
        (hrest.mono fun r v hr rest hrest => ⟨hr.1 rest hrest, hr.2⟩) fun rest v hrest => ?_
      refine seen_pure (hstable _) fun h hh => ?_
      rcases List.mem_append.1 hh with hh | hh
      · exact hrest.2 h hh
      · exact hrest.1 h hh

/-- The hashes of messages. -/
def hashes (messages : List Message) : Set ItemHash := {h | ∃ m ∈ messages, m.itemHash = h}

/-- **What is filtered out** has been stored, and not by the cycle. -/
theorem seen_filterNewMessages (h : Progress foreign start ∅ (hashes messages) v) :
    AssuresSeen (insertingContract foreign) facts
      (IfOk fun new v => new.Sublist messages ∧
        Progress foreign start (hashes messages \ hashes new) (hashes new) v)
      (filterNewMessages messages).run v := by
  have hstable : ∀ new : List Message, (insertingContract foreign).Stable fun v => new.Sublist messages ∧
      Progress foreign start (hashes messages \ hashes new) (hashes new) v :=
    fun new _ _ hrely hv => ⟨hv.1, hv.2.rely hrely⟩
  have hlooked : ∀ r : Except DbError (List ItemHash), (insertingContract foreign).Stable fun v =>
      IfOk (fun existing v => ∀ h ∈ existing, Fact.stored h ∈ v.seen) r v ∧
        Progress foreign start ∅ (hashes messages) v :=
    fun _ _ _ hrely hv => ⟨fun existing he x hx => hrely.1 (hv.1 existing he x hx), hv.2.rely hrely⟩
  unfold filterNewMessages
  refine seen_bind (seen_attempt hlooked ((seen_existingHashes _).and
    (AssuresSeen.reads (reads_existingHashes _) (fun _ hgiven => hgiven) stable_progress h))) fun found u hfound => ?_
  obtain ⟨hexisting, hprogress⟩ := hfound
  cases found with
  | error e =>
    refine seen_pure (hstable _) ⟨.refl _, fun x hx => absurd hx.1 hx.2, hprogress.fresh⟩
  | ok existing =>
    refine seen_pure (hstable _) ⟨List.filter_sublist, fun x hx => ?_, fun x hx => ?_⟩
    · obtain ⟨⟨m, hm, rfl⟩, hfiltered⟩ := hx
      have hknown : m.itemHash ∈ existing := by
        by_contra hnew
        exact hfiltered ⟨m, List.mem_filter.2 ⟨hm, decide_eq_true hnew⟩, rfl⟩
      have hstored := ifOk_ok.1 hexisting _ hknown
      have hearlier := hprogress.fresh _ ⟨m, hm, rfl⟩ hstored
      exact ⟨hstored, hearlier.imp_right .inl⟩
    · obtain ⟨m, hm, rfl⟩ := hx
      exact hprogress.fresh _ ⟨m, List.mem_of_mem_filter hm, rfl⟩

/-- The statement has stored the chunk: what it has not affected was stored before. -/
structure ChunkStored (foreign : Set ItemHash) (start : Set Fact) (done later : Set ItemHash)
    (chunk affected : List Message) (v : Watched Node Fact) : Prop extends Progress foreign start done later v where
  stored : ∀ m ∈ chunk, .stored m.itemHash ∈ v.seen
  unaffected : ∀ m ∈ chunk, m ∈ affected ∨ m.itemHash ∈ foreign ∨ .stored m.itemHash ∈ start

theorem stable_chunkStored (affected : List Message) :
    (insertingContract foreign).Stable (ChunkStored foreign start done later chunk affected) :=
  fun _ _ hrely h => ⟨h.toProgress.rely hrely, fun m hm => hrely.1 (h.stored m hm), h.unaffected⟩

theorem seen_insertChunk (h : Progress foreign start done (hashes chunk ∪ later) v)
    (hdisjoint : ∀ x ∈ later, x ∉ hashes chunk) :
    AssuresSeen (insertingContract foreign) facts (IfOk (ChunkStored foreign start done later chunk))
      (insertChunk chunk).run v := by
  refine seen_sql stable_chunkStored fun u hrely hgiven => ⟨Set.subset_union_left, fun affected haffected => ?_⟩
  have hprogress := h.rely hrely
  simp only [noting] at haffected ⊢
  split_ifs at haffected with hnodup
  · obtain rfl := Except.ok.inj haffected
    rw [if_pos hnodup]
    show ChunkStored _ _ _ _ _ _ ⟨inserted u.store chunk, u.seen ∪ facts (inserted u.store chunk)⟩
    refine ⟨⟨fun x hx => (hprogress.handled x hx).mono Set.subset_union_left, fun x hx hstored => ?_⟩,
      fun m hm => .inr (stored_inserted.2 (.inr ⟨m, hm, rfl⟩)), fun m hm => ?_⟩
    · refine hprogress.fresh x (.inr hx) ?_
      rcases hstored with hstored | hstored
      · exact hstored
      · rcases stored_inserted.1 hstored with hold | hchunk
        · exact hgiven hold
        · exact absurd hchunk (hdisjoint x hx)
    · by_cases ha : Affected u.store m
      · exact .inl (List.mem_filter.2 ⟨hm, decide_eq_true ha⟩)
      · have hrow : Stored u.store m.itemHash := by
          unfold Affected at ha
          push Not at ha
          obtain ⟨r, hr, hhash, -⟩ := ha
          exact ⟨r, hr, hhash⟩
        exact .inr (hprogress.fresh _ (.inl ⟨m, hm, rfl⟩) (hgiven hrow))

theorem seen_queue {affected : List Message} (h : ChunkStored foreign start done later chunk affected v) :
    AssuresSeen (insertingContract foreign) facts (IfOk fun _ => Progress foreign start (done ∪ hashes chunk) later)
      (queueMessagesForProcessing ctx affected).run v := by
  unfold queueMessagesForProcessing
  split_ifs with hempty
  · rw [List.isEmpty_iff] at hempty
    refine seen_pure stable_progress ⟨fun x hx => ?_, h.fresh⟩
    rcases hx with hx | ⟨m, hm, rfl⟩
    · exact h.handled x hx
    · refine ⟨h.stored m hm, (h.unaffected m hm).elim (fun hmem => ?_) (Or.imp_right .inl)⟩
      rw [hempty] at hmem
      exact absurd hmem List.not_mem_nil
  · refine seen_sql (fun _ => stable_progress) fun u hrely hgiven => ⟨Set.subset_union_left, ifOk_ok.2 ?_⟩
    have hstored := stable_chunkStored affected _ _ hrely h
    show Progress _ _ _ _ ⟨enqueued ctx u.store affected, u.seen ∪ facts (enqueued ctx u.store affected)⟩
    refine ⟨fun x hx => ?_, fun x hx hmem => ?_⟩
    · rcases hx with hx | ⟨m, hm, rfl⟩
      · exact (hstored.handled x hx).mono Set.subset_union_left
      · refine ⟨.inl (hstored.stored m hm), (hstored.unaffected m hm).elim (fun ha => ?_) (Or.imp_right .inl)⟩
        exact .inr (.inr (.inr (isPending_enqueued.2 (.inr ⟨m, ha, rfl⟩))))
    · refine hstored.fresh x hx ?_
      rcases hmem with hmem | hmem
      · exact hmem
      · exact hgiven (show Stored u.store x from hmem)

theorem seen_insertAndQueue (h : Progress foreign start done (hashes chunk ∪ later) v)
    (hdisjoint : ∀ x ∈ later, x ∉ hashes chunk) :
    AssuresSeen (insertingContract foreign) facts (IfOk fun _ => Progress foreign start (done ∪ hashes chunk) later)
      (insertAndQueue ctx chunk).run v := by
  unfold insertAndQueue
  refine seen_bind (seen_insertChunk h hdisjoint) fun affected u hu => ?_
  exact seen_bind (seen_queue hu) fun _ u hu => seen_pure stable_progress hu

theorem hashes_append (messages messages' : List Message) :
    hashes (messages ++ messages') = hashes messages ∪ hashes messages' := by
  ext x
  simp [hashes, or_and_right, exists_or]

/-- **An insertion that returns** has handled its messages. -/
theorem seen_insertChunks (ctx : ChainSyncContext) {chunks : List (List Message)} (total : Nat)
    (hnodup : OneEach chunks.flatten)
    (h : Progress foreign start done (hashes chunks.flatten ∪ later) v)
    (hdisjoint : ∀ x ∈ later, x ∉ hashes chunks.flatten) :
    AssuresSeen (insertingContract foreign) facts
      (IfOk fun _ => Progress foreign start (done ∪ hashes chunks.flatten) later)
      (insertChunks ctx total chunks).run v := by
  induction chunks generalizing done total v with
  | nil =>
    refine seen_pure stable_progress ⟨fun x hx => ?_, fun x hx => h.fresh x (.inr hx)⟩
    rcases hx with hx | ⟨m, hm, -⟩
    · exact h.handled x hx
    · exact absurd hm List.not_mem_nil
  | cons chunk chunks ih =>
    rw [List.flatten_cons, hashes_append] at h hdisjoint ⊢
    rw [List.flatten_cons, OneEach, List.map_append] at hnodup
    obtain ⟨-, hchunks, happart⟩ := List.nodup_append.1 hnodup
    unfold insertChunks
    have hlater : ∀ x ∈ hashes chunks.flatten ∪ later, x ∉ hashes chunk := by
      rintro x (⟨m, hm, rfl⟩ | hx) hchunk
      · obtain ⟨m', hm', he⟩ := hchunk
        exact happart _ (List.mem_map_of_mem hm') _ (List.mem_map_of_mem hm) he
      · exact hdisjoint x hx (.inl hchunk)
    rw [Set.union_assoc] at h
    refine seen_bind (seen_insertAndQueue h hlater) fun _ u hu => ?_
    · rw [← Set.union_assoc]
      exact ih _ hchunks hu fun x hx hrest => hdisjoint x hx (.inr hrest)

theorem seen_batchInsert {messages : List Message} (hnodup : OneEach messages)
    (h : Progress foreign start done (hashes messages ∪ later) v) (hdisjoint : ∀ x ∈ later, x ∉ hashes messages) :
    AssuresSeen (insertingContract foreign) facts (IfOk fun _ => Progress foreign start (done ∪ hashes messages) later)
      (batchInsertMessagesAndQueueOrdered ctx messages).run v := by
  have hflatten := toChunks_flatten dbBatchSize messages
  have hprogress : Progress foreign start done (hashes (messages.toChunks dbBatchSize).flatten ∪ later) v := by
    rw [hflatten]
    exact h
  have happart : ∀ x ∈ later, x ∉ hashes (messages.toChunks dbBatchSize).flatten := by
    rw [hflatten]
    exact hdisjoint
  have hinsert := seen_insertChunks ctx 0 (hflatten.symm ▸ hnodup) hprogress happart
  rw [hflatten] at hinsert
  exact hinsert

/-- The messages with a content and those without one are the messages. -/
theorem hashes_parts (messages : List Message) :
    hashes (messages.filter fun m => m.itemContent.isSome) ∪ hashes (messages.filter fun m => m.itemContent.isNone) =
      hashes messages := by
  ext x
  constructor
  · rintro (⟨m, hm, rfl⟩ | ⟨m, hm, rfl⟩)
    · exact ⟨m, List.mem_of_mem_filter hm, rfl⟩
    · exact ⟨m, List.mem_of_mem_filter hm, rfl⟩
  · rintro ⟨m, hm, rfl⟩
    cases hc : m.itemContent with
    | none => exact .inr ⟨m, List.mem_filter.2 ⟨hm, by rw [hc]; rfl⟩, rfl⟩
    | some c => exact .inl ⟨m, List.mem_filter.2 ⟨hm, by rw [hc]; rfl⟩, rfl⟩

/-- The two insertions of a cycle: of the messages with a content, and of the shells. -/
theorem seen_insertBoth {new : List Message} (hnodup : OneEach new)
    (h : Progress foreign start done (hashes new) v) :
    AssuresSeen (insertingContract foreign) facts (IfOk fun _ => Progress foreign start (done ∪ hashes new) ∅)
      (do
        let inserted ← batchInsertMessagesAndQueueOrdered ctx (new.filter fun m => m.itemContent.isSome)
        let shells ← batchInsertMessagesAndQueueOrdered ctx (new.filter fun m => m.itemContent.isNone)
        pure (inserted + shells) : Db DbError Nat).run v := by
  have happart : ∀ x ∈ hashes (new.filter fun m => m.itemContent.isNone),
      x ∉ hashes (new.filter fun m => m.itemContent.isSome) := by
    rintro x ⟨m, hm, rfl⟩ ⟨m', hm', he⟩
    obtain ⟨hm, hnone⟩ := List.mem_filter.1 hm
    obtain ⟨hm', hsome⟩ := List.mem_filter.1 hm'
    obtain rfl := hnodup.eq hm' hm he
    rw [Option.isNone_iff_eq_none] at hnone
    rw [hnone] at hsome
    cases hsome
  rw [← hashes_parts new] at h ⊢
  refine seen_bind (seen_batchInsert (hnodup.sublist List.filter_sublist) h happart) fun _ u hu => ?_
  rw [← Set.union_empty (hashes (new.filter fun m => m.itemContent.isNone))] at hu
  rw [← Set.union_assoc]
  refine seen_bind (seen_batchInsert (hnodup.sublist List.filter_sublist) hu fun x hx => absurd hx id) fun _ u hu => ?_
  exact seen_pure stable_progress hu

/-- What is taken from the messages of a cycle has been handled when the insertion returns. -/
def Secured (foreign : Set ItemHash) (start : Set Fact) (ctx : ChainSyncContext) (messages : List Message)
    (v : Watched Node Fact) : Prop :=
  ∀ h ∈ hashes (candidates ctx messages), Handled foreign start v.seen h

theorem Progress.secured {new : List Message} {later : Set ItemHash}
    (h : Progress foreign start (hashes (candidates ctx messages) \ hashes new ∪ hashes new) later v) :
    Secured foreign start ctx messages v := by
  intro x hx
  by_cases hnew : x ∈ hashes new
  · exact h.handled x (.inr hnew)
  · exact h.handled x (.inl ⟨hx, hnew⟩)

theorem hashes_sortByBlock (new : List Message) : hashes (sortByBlock ctx new) = hashes new := by
  ext x
  exact exists_congr fun m => and_congr_left fun _ => (List.perm_insertionSort _ new).mem_iff

/-- **The insertion of the RPC sync**, beside whatever the other jobs do. -/
theorem seen_rpcSyncMessages (h : start = v.seen) :
    AssuresSeen (insertingContract foreign) facts (IfOk fun _ => Secured foreign start ctx messages)
      (rpcSyncMessages ctx messages).run v := by
  have hstart : Progress foreign start ∅ (hashes (candidates ctx messages)) v :=
    ⟨fun x hx => absurd hx id, fun x _ hx => .inr (h ▸ hx)⟩
  unfold rpcSyncMessages
  refine seen_bind (seen_filterNewMessages hstart) fun new u hu => ?_
  have hnodup : OneEach (sortByBlock ctx new) :=
    ((List.perm_insertionSort _ new).map _).nodup_iff.2 ((oneEach_candidates messages).sublist hu.1)
  rw [← hashes_sortByBlock new] at hu
  exact (seen_insertBoth hnodup hu.2).mono fun r u hr a ha => (hr a ha).secured

/-- **The insertion of the indexer sync.** -/
theorem seen_syncMessages (h : start = v.seen) :
    AssuresSeen (insertingContract foreign) facts (IfOk fun _ => Secured foreign start ctx messages)
      (syncMessages ctx messages).run v := by
  have hstart : Progress foreign start ∅ (hashes (candidates ctx messages)) v :=
    ⟨fun x hx => absurd hx id, fun x _ hx => .inr (h ▸ hx)⟩
  unfold syncMessages
  refine seen_bind (seen_filterNewMessages hstart) fun new u hu => ?_
  exact (seen_insertBoth ((oneEach_candidates messages).sublist hu.1) hu.2).mono fun r u hr a ha => (hr a ha).secured

end Insertion

/-! ## Runs -/

section Runs

variable {env : Env} {foreign : Set ItemHash} {start seen seen' : Set Fact} {o o' : Observed} {batches : List ReadBatch}

/-- The messages of the batches have been handled, or are skipped. -/
def AllHandled (foreign : Set ItemHash) (start seen : Set Fact) (batches : List ReadBatch) : Prop :=
  ∀ batch ∈ batches, ∀ m ∈ batch.messages, Handled foreign start seen m.itemHash ∨ Skipped batches m.itemHash

/-- What is left of a call secures its batches; when the insertion has returned they have been handled. -/
def Call.Secures (foreign : Set ItemHash) (start : Set Fact) (v : Watched Node Fact) : Call → Prop
  | .rpcInserting fetch rest => AssuresSeen (insertingContract foreign) facts
      (IfOk fun _ v => AllHandled foreign start v.seen fetch.batches) rest v
  | .rpcConfirming fetch _ => AllHandled foreign start v.seen fetch.batches
  | .indexerInserting page rest => AssuresSeen (insertingContract foreign) facts
      (IfOk fun _ v => AllHandled foreign start v.seen page.batches) rest v
  | .indexerAdvancing page => AllHandled foreign start v.seen page.batches
  | _ => True

/-- The invariant of a run. -/
structure Observed.Fine (foreign : Set ItemHash) (o : Observed) : Prop where
  seen : facts o.world.node ⊆ o.seen
  secures : o.world.call.Secures foreign o.start ⟨o.world.node, o.seen⟩

theorem AllHandled.mono (h : AllHandled foreign start seen batches) (hsub : seen ⊆ seen') :
    AllHandled foreign start seen' batches :=
  fun batch hbatch m hm => (h batch hbatch m hm).imp_left fun hh => hh.mono hsub

/-- Of each hash one message stays. -/
theorem exists_dedupMessages {messages : List Message} {m : Message} (hm : m ∈ messages) :
    ∃ m' ∈ dedupMessages messages, m'.itemHash = m.itemHash ∧ m' ∈ messages := by
  have hsub : ∀ (messages : List Message), ∀ m ∈ dedupMessages messages, m ∈ messages := by
    intro messages
    induction messages with
    | nil => exact fun m hm => hm
    | cons a messages ih =>
      intro m hm
      unfold dedupMessages at hm
      rw [List.foldr_cons] at hm
      split_ifs at hm with hseen
      · exact List.mem_cons_of_mem _ (ih m hm)
      · rcases List.mem_cons.1 hm with rfl | hm
        · exact List.mem_cons_self
        · exact List.mem_cons_of_mem _ (ih m hm)
  suffices h : ∃ m' ∈ dedupMessages messages, m'.itemHash = m.itemHash by
    obtain ⟨m', hm', he⟩ := h
    exact ⟨m', hm', he, hsub messages m' hm'⟩
  induction messages with
  | nil => exact absurd hm List.not_mem_nil
  | cons a messages ih =>
    unfold dedupMessages
    rw [List.foldr_cons]
    split_ifs with hseen
    · rcases List.mem_cons.1 hm with rfl | hm
      · exact hseen
      · exact ih hm
    · rcases List.mem_cons.1 hm with rfl | hm
      · exact ⟨m, List.mem_cons_self, rfl⟩
      · obtain ⟨m', hm', he⟩ := ih hm
        exact ⟨m', List.mem_cons_of_mem _ hm', he⟩

/-- What has been secured of the messages of the batches. -/
theorem Secured.allHandled {ctx : ChainSyncContext} {v : Watched Node Fact}
    (h : Secured foreign start ctx (batches.flatMap ReadBatch.messages) v) :
    AllHandled foreign start v.seen batches := by
  intro batch hbatch m hm
  obtain ⟨m', hm', he, hmem⟩ := exists_dedupMessages (List.mem_flatMap.2 ⟨batch, hbatch, hm⟩)
  by_cases hsender : m'.sender ∈ blacklistedSenders
  · exact .inr ⟨m', hmem, he, hsender⟩
  · refine .inl (he ▸ h m'.itemHash ⟨m', ?_, rfl⟩)
    exact List.mem_filter.2 ⟨ctx.order.mem_scan.2 hm', decide_eq_true hsender⟩

theorem secures_rpcSyncCycle {order : SqlOrder} {now : Timestamp} {events : List DecodedAlephSyncEvent} {endBlock : Nat}
    {fetched : List (Option String)} (n : Node) :
    (rpcSyncCycle env order now events endBlock fetched).Secures foreign (facts n) ⟨n, facts n⟩ := by
  unfold rpcSyncCycle
  dsimp only
  split_ifs
  · trivial
  · exact fun batch hbatch => absurd hbatch List.not_mem_nil
  · exact (seen_rpcSyncMessages rfl).mono fun r v hr k hk => (hr k hk).allHandled

theorem secures_indexerPage {order : SqlOrder} {now : Timestamp} {nowMs : Nat} {events : List IndexerSyncEvent}
    {fetched : List (Option String)} (n : Node) :
    (indexerPage env order now nowMs events fetched).Secures foreign (facts n) ⟨n, facts n⟩ := by
  unfold indexerPage
  dsimp only
  split_ifs
  · trivial
  · exact (seen_syncMessages rfl).mono fun r v hr k hk => (hr k hk).allHandled

theorem Observed.Fine.begin (w : SyncWorld) (h : w.call.Secures foreign (facts w.node) ⟨w.node, facts w.node⟩) :
    (Observed.begin w).Fine foreign :=
  ⟨subset_rfl, h⟩

/-- The others leave what is left of a call its purpose. -/
theorem Call.Secures.rely {call : Call} {v v' : Watched Node Fact} (h : call.Secures foreign start v)
    (hrely : (insertingContract foreign).rely v v') : call.Secures foreign start v' := by
  cases call with
  | rpcInserting fetch rest => exact Assures.rely h hrely
  | rpcConfirming fetch rest => exact AllHandled.mono h hrely.1
  | indexerInserting page rest => exact Assures.rely h hrely
  | indexerAdvancing page => exact AllHandled.mono h hrely.1
  | _ => trivial

/-- The call that goes on secures its batches on the new state. -/
theorem Observed.Fine.next {label : Label} {w : SyncWorld} (hfetches : label.fetches = false)
    (h : w.call.Secures foreign o.start ⟨w.node, o.seen ∪ facts w.node⟩) : (o.next label w).Fine foreign := by
  unfold Observed.next
  rw [hfetches]
  exact ⟨Set.subset_union_right, h⟩

/-- **A step keeps the invariant.** -/
theorem Observed.Fine.step {label : Label} {w : SyncWorld} (h : o.Fine foreign) (hbeside : Beside foreign o label)
    (hstep : Step env label o.world w) : (o.next label w).Fine foreign := by
  obtain ⟨v, start, seen⟩ := o
  obtain ⟨hseen, hsecures⟩ := h
  dsimp only at hseen hsecures hstep
  cases hstep with
  | rpcFetched order now hidle => exact .begin _ (secures_rpcSyncCycle _)
  | indexerFetched order now hcall => exact .begin _ (secures_indexerPage _)
  | rpcInsert hcall hnext =>
    rw [hcall] at hsecures
    exact .next rfl (AssuresSeen.next hsecures hseen hseen hnext)
  | indexerInsert hcall hnext =>
    rw [hcall] at hsecures
    exact .next rfl (AssuresSeen.next hsecures hseen hseen hnext)
  | @rpcInserted _ fetch count hcall =>
    rw [hcall] at hsecures
    have hdone : AllHandled foreign start seen fetch.batches := Assures.result (δ := DbError) hsecures count rfl
    exact .next rfl (hdone.mono Set.subset_union_left)
  | @indexerInserted _ page count hcall =>
    rw [hcall] at hsecures
    have hdone : AllHandled foreign start seen page.batches := Assures.result (δ := DbError) hsecures count rfl
    exact .next rfl (hdone.mono Set.subset_union_left)
  | insertChainTx hcall =>
    rw [hcall] at hsecures
    exact .next rfl (AllHandled.mono hsecures Set.subset_union_left)
  | chainTxRefused hcall =>
    rw [hcall] at hsecures
    exact .next rfl (AllHandled.mono hsecures Set.subset_union_left)
  | @updateLastSyncTimestamp _ page last nextTs hcall hlast hnext =>
    refine .next rfl ?_
    unfold SyncWorld.updateLastSyncTimestamp
    dsimp only
    split_ifs
    · trivial
    · trivial
  | other node =>
    refine .next rfl (hsecures.rely ⟨Set.subset_union_left, fun x hx => ?_⟩)
    rcases hx with hx | hx
    · exact .inr hx
    · exact hbeside x hx
  | updateLastRpcBlock hcall => exact .next rfl trivial
  | rpcBlockRefused hcall => exact .next rfl trivial
  | indexerBegin hidle => exact .next rfl trivial
  | timestampRefused hcall => exact .next rfl trivial
  | indexed now hidle hrange => exact .next rfl trivial
  | updateLastBlock hcall => exact .next rfl trivial
  | lastBlockRefused hcall => exact .next rfl trivial
  | insertSyncHash hcall => exact .next rfl trivial
  | syncHashRefused hcall => exact .next rfl trivial
  | ended => exact .next rfl trivial

theorem Observed.Fine.of_run (run : ObservedRun env foreign o o') (h : o.Fine foreign) : o'.Fine foreign := by
  induction run with
  | refl => exact h
  | step run hbeside hstep ih => exact ih.step hbeside hstep

/-- The messages of an event whose batch was read are those of a batch. -/
theorem exists_batch {message txHash : String} {height : Nat} {e : BatchEvent}
    (he : e ∈ batchEvents env batches message txHash height) :
    ∃ batch ∈ batches, e.itemHashes = batch.messages.map Message.itemHash := by
  obtain ⟨batch, hbatch, rfl⟩ := List.mem_map.1 he
  exact ⟨batch, List.mem_of_mem_filter hbatch, rfl⟩

theorem AllHandled.event (h : AllHandled foreign start seen batches) {message txHash : String} {height : Nat}
    {e : BatchEvent} (he : e ∈ batchEvents env batches message txHash height) :
    ∀ itemHash ∈ e.itemHashes, Handled foreign start seen itemHash ∨ Skipped batches itemHash := by
  obtain ⟨batch, hbatch, hhashes⟩ := exists_batch he
  intro itemHash hmem
  rw [hhashes] at hmem
  obtain ⟨m, hm, rfl⟩ := List.mem_map.1 hmem
  exact h batch hbatch m hm

/-- The step is one of the loops. -/
def Label.Own : Label → Prop
  | .other _ => False
  | _ => True

/-- A run of the loops alone is observed. -/
theorem exists_observed {w w' : SyncWorld} (run : Run env (fun label _ _ => label.Own) w w') :
    ∃ o, ObservedRun env foreign (.begin w) o ∧ o.world = w' := by
  induction run with
  | refl => exact ⟨_, .refl, rfl⟩
  | @step _ _ label run hguard hstep ih =>
    obtain ⟨o, hrun, rfl⟩ := ih
    have hbeside : Beside foreign o label := by
      cases label with
      | other node => exact absurd hguard id
      | _ => trivial
    refine ⟨_, hrun.step hbeside hstep, ?_⟩
    unfold Observed.next
    split_ifs <;> rfl

end Runs

end AlephCore.ChainSync
