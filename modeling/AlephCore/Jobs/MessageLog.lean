import AlephCore.Jobs.BackfillSpec
import AlephCore.Jobs.Impersonation
import AlephCore.Lib.Growing

/-!
# MessageLog — stored messages are never rewritten

Who stores the row of a message first has said once and for all whose message it is: no job changes its sender, type,
chain, signature, channel or time.  Its content and its owner are filled in once, and the columns taken from the content
stay after that.  A row only goes away after its hash has been marked as forgotten, and the mark stays.  This holds
between any two states of a run, whatever is refused and whatever the jobs beside the batches do.
-/

namespace AlephCore

open ProgE Prog Table ForgetHandler

/-! ## Rows that are completed -/

/-- A column that has a value keeps it. -/
def Fills {α : Type} (x y : Option α) : Prop := ∀ a, x = some a → y = some a

theorem Fills.refl {α : Type} (x : Option α) : Fills x x := fun _ h => h

theorem Fills.trans {α : Type} {x y z : Option α} (h : Fills x y) (h' : Fills y z) : Fills x z :=
  fun a ha => h' a (h a ha)

/-- `COALESCE`. -/
theorem fills_or {α : Type} (x y : Option α) : Fills x (x.or y) := by
  rintro a rfl
  rfl

theorem fills_of_none {α : Type} {x y : Option α} (h : x = none) : Fills x y := by
  rintro a rfl
  cases h

/-- The columns taken from the content keep their values. -/
structure FillsColumns (r s : MessageRow) : Prop where
  contentType : Fills r.contentType s.contentType
  contentRef : Fills r.contentRef s.contentRef
  contentKey : Fills r.contentKey s.contentKey
  contentItemHash : Fills r.contentItemHash s.contentItemHash
  paymentType : Fills r.paymentType s.paymentType

theorem FillsColumns.refl (r : MessageRow) : FillsColumns r r := ⟨.refl _, .refl _, .refl _, .refl _, .refl _⟩

theorem FillsColumns.trans {r s t : MessageRow} (h : FillsColumns r s) (h' : FillsColumns s t) : FillsColumns r t :=
  ⟨h.contentType.trans h'.contentType, h.contentRef.trans h'.contentRef, h.contentKey.trans h'.contentKey,
    h.contentItemHash.trans h'.contentItemHash, h.paymentType.trans h'.paymentType⟩

/-- The columns that say whose message it is. -/
structure SameMessage (r s : MessageRow) : Prop where
  itemHash : s.itemHash = r.itemHash
  messageType : s.messageType = r.messageType
  chain : s.chain = r.chain
  sender : s.sender = r.sender
  signature : s.signature = r.signature
  itemType : s.itemType = r.itemType
  channel : s.channel = r.channel
  time : s.time = r.time

theorem SameMessage.refl (r : MessageRow) : SameMessage r r := ⟨rfl, rfl, rfl, rfl, rfl, rfl, rfl, rfl⟩

theorem SameMessage.trans {r s t : MessageRow} (h : SameMessage r s) (h' : SameMessage s t) : SameMessage r t :=
  ⟨h'.itemHash.trans h.itemHash, h'.messageType.trans h.messageType, h'.chain.trans h.chain,
    h'.sender.trans h.sender, h'.signature.trans h.signature, h'.itemType.trans h.itemType,
    h'.channel.trans h.channel, h'.time.trans h.time⟩

/-- The row is the same message, with columns filled in. -/
structure Completes (r s : MessageRow) : Prop extends SameMessage r s where
  itemContent : Fills r.itemContent s.itemContent
  receptionTime : Fills r.receptionTime s.receptionTime
  processed : r.status = "processed" → s.status = "processed"
  owner : Fills r.owner s.owner
  /-- The backfill takes the columns again from the content of a row without an owner. -/
  columns : r.owner ≠ none → FillsColumns r s

theorem Completes.refl (r : MessageRow) : Completes r r :=
  ⟨.refl r, .refl _, .refl _, fun h => h, .refl _, fun _ => .refl r⟩

theorem Completes.trans {r s t : MessageRow} (h : Completes r s) (h' : Completes s t) : Completes r t where
  toSameMessage := h.toSameMessage.trans h'.toSameMessage
  itemContent := h.itemContent.trans h'.itemContent
  receptionTime := h.receptionTime.trans h'.receptionTime
  processed hr := h'.processed (h.processed hr)
  owner := h.owner.trans h'.owner
  columns hr := by
    obtain ⟨a, ha⟩ := Option.ne_none_iff_exists'.1 hr
    have hs : s.owner ≠ none := by
      rw [h.owner a ha]
      exact Option.some_ne_none a
    exact (h.columns hr).trans (h'.columns hs)

instance : IsPreorder MessageRow Completes where
  refl := .refl
  trans _ _ _ h h' := h.trans h'

/-! ## The log -/

/-- The marks stay, and so does every message that is not marked. -/
structure KeepsLog (n n' : Node) : Prop where
  marks : ∀ f ∈ n.forgottenMessages, f ∈ n'.forgottenMessages
  messages : Grows Completes (Forgotten n') n.messages n'.messages

theorem KeepsLog.forgotten {n n' : Node} (h : KeepsLog n n') {x : ItemHash} (hx : Forgotten n x) : Forgotten n' x := by
  obtain ⟨f, hf, hhash⟩ := hx
  exact ⟨f, h.marks f hf, hhash⟩

theorem KeepsLog.refl (n : Node) : KeepsLog n n := ⟨fun _ hf => hf, .refl _⟩

theorem KeepsLog.trans {n₁ n₂ n₃ : Node} (h : KeepsLog n₁ n₂) (h' : KeepsLog n₂ n₃) : KeepsLog n₁ n₃ where
  marks f hf := h'.marks f (h.marks f hf)
  messages := h.messages.trans (fun _ _ hrs => hrs.itemHash) (fun _ hx => h'.forgotten hx) h'.messages

instance : IsPreorder Node KeepsLog where
  refl := .refl
  trans _ _ _ h h' := h.trans h'

variable {n n' : Node}

/-- Neither table changes. -/
theorem KeepsLog.of_eq (hmessages : n'.messages = n.messages)
    (hforgotten : n'.forgottenMessages = n.forgottenMessages) : KeepsLog n n' := by
  refine ⟨fun f hf => hforgotten ▸ hf, ?_⟩
  rw [hmessages]
  exact .refl _

/-- Messages are stored or completed. -/
theorem keepsLog_messages {t : Table MessageRow MessageRow.itemHash}
    (h : Grows Completes (Forgotten n) n.messages t) : KeepsLog n { n with messages := t } :=
  ⟨fun _ hf => hf, h⟩

/-- What a handler promises and relies on. -/
def logContract : Contract Node where
  given _ := True
  rely := KeepsLog
  guar := KeepsLog
  rely_refl := .refl
  rely_trans := .trans
  guar_refl := .refl

theorem assures_keepsLog {α : Type} {p : Prog Node DbError α} (h : Moves KeepsLog p) :
    Assures logContract (fun _ _ => True) p n :=
  h.assures (J := fun _ => True) (fun _ _ _ _ => trivial) (fun _ _ _ _ hkeeps => ⟨hkeeps, trivial⟩) trivial

/-- **A FORGET** marks a hash before it deletes the message. -/
theorem keepsBooks_log : KeepsBooks logContract where
  same hsame := .of_eq hsame.messages hsame.forgottenMessages
  marks n r := ⟨fun f hf => Table.mem_insertNew.2 (.inl hf), .refl _⟩
  drops {n x} hx := keepsLog_messages (grows_delete fun r _ hr => by rwa [show r.itemHash = x from hr])
  others x _ _ hst hx := hst.forgotten hx
  own hguar hx := hguar.forgotten hx

/-! ## The other jobs -/

theorem synced_one (m : Message) :
    MessageProcessor.Synced [m] n { n with messages := ChainSync.insertMessage n.messages m } := by
  refine ⟨[m].filter fun m => decide (ChainSync.Affected n m), exec_sql_ok.2 ?_⟩
  have hnodup : (([m].filter fun m => decide (ChainSync.Affected n m)).map Message.itemHash).Nodup :=
    (List.nodup_singleton m.itemHash).sublist (List.filter_sublist.map _)
  show (if _ then _ else _) = _
  rw [if_pos hnodup]
  rfl

theorem completes_content {r : MessageRow} {content : Option String} (h : Fills r.itemContent content) :
    Completes r { r with itemContent := content } :=
  { Completes.refl r with itemContent := h, columns := fun _ => { FillsColumns.refl r with } }

theorem keepsLog_setContent (x : ItemHash) (content : String) : KeepsLog n (ContentFetch.setContent x content n) :=
  keepsLog_messages (grows_update fun _ _ hr => completes_content (fills_of_none hr.2))

/-- **Insertion and fetching** give a message its content once. -/
theorem keepsLog_disturbance {T : Timestamp} (hd : MessageProcessor.Disturbance T n n') : KeepsLog n n' := by
  cases hd with
  | received now json message hnow hexec =>
    obtain rfl := exec_execute_ok.1 hexec
    exact .of_eq rfl rfl
  | synced chunk hsynced =>
    rw [hsynced.eq]
    refine keepsLog_messages (grows_foldl (fun _ _ h => h.itemHash) (fun t m => ?_) chunk _)
    exact grows_upsert fun r _ _ => completes_content (fills_or r.itemContent m.itemContent)
  | queued sync messages hclock hexec =>
    obtain rfl := ChainSync.exec_queue_ok.1 hexec
    exact .of_eq rfl rfl
  | indexed q hretries hnext => exact .of_eq rfl rfl
  | expires gc hexec =>
    obtain rfl := exec_execute_ok.1 hexec
    exact .of_eq rfl rfl
  | stores x content => exact keepsLog_setContent x content
  | requeues now x hnow =>
    unfold ContentFetch.requeue
    cases n.messages.find? x with
    | none => exact .refl n
    | some r => exact .of_eq rfl rfl
  | rebuilds now x hnow =>
    unfold StrandedContent.rebuilt ChainSync.rebuildPending
    rw [run_sql]
    cases n.messages.find? x with
    | none => exact .refl n
    | some r => exact .of_eq rfl rfl

/-! ## The backfill -/

namespace Backfill

variable {ctx : BackfillContext} {t : Table MessageRow MessageRow.itemHash} {r : MessageRow}

/-- A row keeps everything but its owner and the columns of its content. -/
structure Rewrites (r s : MessageRow) : Prop extends SameMessage r s where
  itemContent : s.itemContent = r.itemContent
  receptionTime : s.receptionTime = r.receptionTime
  processed : r.status = "processed" → s.status = "processed"

theorem Rewrites.completes {s : MessageRow} (h : Rewrites r s) (howner : r.owner = none) : Completes r s where
  toSameMessage := h.toSameMessage
  itemContent := h.itemContent ▸ .refl _
  receptionTime := h.receptionTime ▸ .refl _
  processed := h.processed
  owner := fills_of_none howner
  columns hr := absurd howner hr

theorem rewrites_denormRow (env : Env) (jb : Json) (r : MessageRow) : Rewrites r (denormRow env jb r) where
  toSameMessage := { SameMessage.refl r with }
  itemContent := rfl
  receptionTime := rfl
  processed _ := rfl

/-- The columns of several rows are taken from their contents; the other rows stay. -/
theorem mem_foldl_denormRow (env : Env) (jbs : List (ItemHash × Json)) (hr : r ∈ t) :
    ∃ s ∈ jbs.foldl (fun t x => t.update (·.itemHash = x.1) (denormRow env x.2)) t, Rewrites r s ∧
      (r.itemHash ∉ jbs.map Prod.fst → s = r) := by
  induction jbs generalizing t r with
  | nil => exact ⟨r, hr, ⟨.refl r, rfl, rfl, fun h => h⟩, fun _ => rfl⟩
  | cons x jbs ih =>
    by_cases hx : r.itemHash = x.1
    · obtain ⟨s, hs, hrewrites, -⟩ := ih (t := t.update (·.itemHash = x.1) (denormRow env x.2))
        (Table.mem_update.2 (.inr ⟨r, hr, hx, rfl⟩))
      have hfirst := rewrites_denormRow env x.2 r
      refine ⟨s, hs, ⟨hfirst.toSameMessage.trans hrewrites.toSameMessage, hrewrites.itemContent,
        hrewrites.receptionTime, fun _ => hrewrites.processed rfl⟩, fun hnone => ?_⟩
      exact absurd (hx ▸ List.mem_cons_self) hnone
    · obtain ⟨s, hs, hrewrites, heq⟩ := ih (t := t.update (·.itemHash = x.1) (denormRow env x.2))
        (Table.mem_update.2 (.inl ⟨hr, hx⟩))
      exact ⟨s, hs, hrewrites, fun hnone => heq fun hmem => hnone (List.mem_cons_of_mem _ hmem)⟩

theorem mem_denormBatch {lastTime : Timestamp} (h : r ∈ denormBatch ctx lastTime n) :
    r ∈ n.messages ∧ r.owner = none := by
  have hsorted := (List.perm_insertionSort _ _).mem_iff.1 (List.mem_of_mem_take h)
  obtain ⟨hscan, hrow⟩ := List.mem_filter.1 hsorted
  exact ⟨ctx.order.mem_scan.1 hscan, (of_decide_eq_true hrow).1⟩

/-- **A batch** takes the columns of rows without an owner only. -/
theorem keepsLog_denormStep (lastTime : Timestamp) : Moves KeepsLog (denormStep ctx lastTime).run := by
  refine moves_sql fun n => ?_
  dsimp only
  cases hjbs : (denormBatch ctx lastTime n).mapM fun r => (contentJsonb ctx.env r).map fun jb => (r.itemHash, jb) with
  | error e => exact .refl n
  | ok jbs =>
    refine keepsLog_messages fun r hr => .inr ?_
    obtain ⟨s, hs, hrewrites, hother⟩ := mem_foldl_denormRow ctx.env jbs hr
    refine ⟨s, hs, ?_⟩
    by_cases hmem : r.itemHash ∈ jbs.map Prod.fst
    · refine hrewrites.completes ?_
      obtain ⟨x, hx, hhash⟩ := List.mem_map.1 hmem
      obtain ⟨q, hq, hjb⟩ := ((Serde.mem_of_mapM hjbs).2 x).1 hx
      obtain ⟨hq, howner⟩ := mem_denormBatch hq
      cases hcast : contentJsonb ctx.env q with
      | error e =>
        rw [hcast] at hjb
        cases hjb
      | ok jb =>
        rw [hcast] at hjb
        obtain rfl := Except.ok.inj hjb
        obtain rfl := Table.eq_of_key hr hq hhash.symm
        exact howner
    · rw [hother hmem]
      exact .refl r

theorem keepsLog_updateStatus : Moves KeepsLog updateStatus.run := by
  refine moves_execute fun n => keepsLog_messages (grows_update fun r _ hr => ?_)
  exact { Completes.refl r with processed := fun _ => rfl, columns := fun _ => { FillsColumns.refl r with } }

theorem keepsLog_insertRows {ρ : Type} {rows : Node → Cast (List ρ)} {insert : ρ → Node → Node}
    (h : ∀ r n, KeepsLog n (insert r n)) : Moves KeepsLog (insertRows rows insert).run := by
  refine moves_insertRows fun n rs hrows => ?_
  clear hrows
  induction rs generalizing n with
  | nil => exact .refl n
  | cons r rs ih => exact (h r n).trans (ih (insert r n))

theorem keepsLog_storeElement (e : AggregateElement) (n : Node) : KeepsLog n (AggregateHandler.storeElement e n) := by
  unfold AggregateHandler.storeElement
  split_ifs
  · exact .refl n
  · exact .of_eq rfl rfl

/-- **The backfill** completes messages and derives rows from them. -/
theorem keepsLog_runStartupBackfill : Moves KeepsLog (runStartupBackfill ctx).run :=
  moves_runStartupBackfill (fun _ => keepsLog_insertRows fun _ _ => .of_eq rfl rfl)
    (moves_execute fun _ => .of_eq rfl rfl) (fun _ => keepsLog_insertRows keepsLog_storeElement)
    (moves_execute fun _ => .of_eq rfl rfl) (keepsLog_insertRows fun _ _ => .of_eq rfl rfl)
    (keepsLog_insertRows fun _ _ => .of_eq rfl rfl) keepsLog_denormStep keepsLog_updateStatus

end Backfill

namespace MessageProcessor

variable {ctx : ProcessorContext} {p : PendingMessageDb}

/-! ## The processor -/

theorem keepsLog_stored (env : Env) (message : Message) (receptionTime : Timestamp) :
    KeepsLog n (stored env message receptionTime n) := by
  refine keepsLog_messages (grows_upsert fun r _ _ => ?_)
  exact { Completes.refl r with
    receptionTime := fills_or _ _
    processed := fun _ => rfl
    owner := fills_or _ _
    columns := fun _ => ⟨fills_or _ _, fills_or _ _, fills_or _ _, fills_or _ _, fills_or _ _⟩ }

/-- **A task** stores its message, or completes it, or forgets others. -/
theorem assures_taskKeepsLog : Assures logContract (fun _ _ => True) (processSingleMessage ctx p).run n := by
  unfold processSingleMessage
  cases Message.decode p.message with
  | error e => exact fun _ _ => trivial
  | ok received =>
    refine assures_pure_bind ?_
    cases obtainContent ctx received with
    | error e =>
      exact assures_keepsLog (moves_bind (moves_mapErr (moves_execute fun _ => .of_eq rfl rfl)) fun _ => moves_pure _)
    | ok message =>
      show Assures _ _ (processWithContent ctx p message).run n
      unfold processWithContent
      cases rejection ctx p.trustedSource message with
      | some r => exact fun _ _ => trivial
      | none =>
        refine assures_bind (assures_ofProg (fun _ _ _ _ _ => trivial) keepsBooks_log.assures_processMessage)
          (fun status t _ => ?_) fun _ _ _ _ _ => trivial
        cases status with
        | rejected code text => exact fun _ _ => trivial
        | processed =>
          exact assures_keepsLog (moves_bind (moves_mapErr (moves_execute fun n => keepsLog_stored _ _ _)) fun _ =>
            moves_pure _)

theorem keepsLog_takeBatch : Moves KeepsLog (takeBatch ctx).run := by
  refine moves_takeBatch.mono ?_
  rintro n _ ⟨txs, rfl⟩
  exact .of_eq rfl rfl

theorem keepsLog_settle {batch : Batch} {results : List TaskResult} :
    Moves KeepsLog (settle ctx batch results).run := by
  refine moves_settle.mono ?_
  rintro n _ ⟨pending, rejected, rfl⟩
  exact .of_eq rfl rfl

/-! ## Runs -/

/-- What happens beside the batches. -/
inductive Aside (n : Node) : Node → Prop
  /-- Messages are queued, stored and fetched, files are collected and uploaded. -/
  | stands {n' : Node} (h : Bystander n n') : Aside n n'
  /-- The startup backfill issues a statement. -/
  | backfills (ctx : Backfill.BackfillContext) {n' : Node} (h : Issues (Backfill.runStartupBackfill ctx).run n n') :
      Aside n n'
  /-- Any other job or request: none of them writes to these two tables. -/
  | elsewhere {n' : Node} (hmessages : n'.messages = n.messages)
      (hforgotten : n'.forgottenMessages = n.forgottenMessages) : Aside n n'

theorem keepsLog_aside (h : Aside n n') : KeepsLog n n' := by
  cases h with
  | stands hn =>
    cases hn with
    | disturbs T hd => exact keepsLog_disturbance hd
    | collects gc hissues =>
      have hcollects := GarbageCollector.collects_runGcCycle.issues hissues
      exact .of_eq hcollects.messages hcollects.forgottenMessages
    | uploads pin howner => exact .of_eq rfl rfl
  | backfills ctx hissues => exact Backfill.keepsLog_runStartupBackfill.issues hissues
  | elsewhere hmessages hforgotten => exact .of_eq hmessages hforgotten

/-- The stages of a batch keep the log of an earlier state. -/
def keepsLogOf (n₀ : Node) : Supervision Aside fun _ _ => True where
  inv := KeepsLog n₀
  contract _ := logContract
  taken _ _ := True
  ended _ _ := True
  given _ _ := trivial
  kept hinv hguar := hinv.trans hguar
  undisturbed hinv hother := ⟨hinv.trans (keepsLog_aside hother), fun _ => keepsLog_aside hother⟩
  shared hguar := hguar
  stable _ _ _ _ := trivial
  take _ := (assures_keepsLog keepsLog_takeBatch).mono fun _ _ _ _ _ => trivial
  work _ _ _ := assures_taskKeepsLog
  timeout := trivial
  settle _ _ := assures_keepsLog keepsLog_settle

theorem holds_keepsLogOf {n₀ : Node} {w w' : World} (h : (keepsLogOf n₀).Holds w)
    (hrun : Relation.ReflTransGen (Step Aside) w w') : (keepsLogOf n₀).Holds w' := by
  induction hrun with
  | refl => exact h
  | tail _ hstep ih => exact ih.step ⟨hstep, fun _ _ => trivial⟩

/-- **Stored messages are never rewritten**: between any two states of a run, whatever is refused and beside the other
jobs, every stored message stays as it is, with columns filled in, unless it is marked as forgotten, and every mark
stays. -/
theorem log_of_run {n₀ : Node} {w w' : World} (hrun : Relation.ReflTransGen (Step Aside) ⟨n₀, .idle⟩ w)
    (hlater : Relation.ReflTransGen (Step Aside) w w') :
    (∀ f ∈ w.node.forgottenMessages, f ∈ w'.node.forgottenMessages) ∧
      ∀ r ∈ w.node.messages, Forgotten w'.node r.itemHash ∨ ∃ s ∈ w'.node.messages, Completes r s := by
  have hidle : (keepsLogOf n₀).Holds ⟨n₀, .idle⟩ := Supervision.holds_idle (KeepsLog.refl n₀)
  have hreached := holds_keepsLogOf hidle hrun
  -- what is left of the phase is on track whatever state the log is compared with
  have hhere : (keepsLogOf w.node).Holds w := ⟨.refl w.node, hreached.2⟩
  have hlog : KeepsLog w.node w'.node := (holds_keepsLogOf hhere hlater).1
  exact ⟨hlog.marks, hlog.messages⟩

section Hijack

open PostHandler

/-- The note, synced from a chain without its content. -/
def noteShell : Message := { noteMessage with itemContent := none }

def shellNode : Node := { Node.empty with messages := ChainSync.insertMessage .empty noteShell }

/-- A delegate's message of the same hash brings the content. -/
def hijackedNode : Node := { shellNode with messages := ChainSync.insertMessage shellNode.messages forgedNote }

theorem run_synced {n : Node} (m : Message) :
    Step Aside ⟨n, .idle⟩ ⟨{ n with messages := ChainSync.insertMessage n.messages m }, .idle⟩ :=
  .other (.stands (.disturbs 0 (.synced [m] (synced_one m))))

/-- The note is still its owner's. -/
theorem hijacked_completes :
    ∃ s ∈ hijackedNode.messages, Completes (ChainSync.syncedRow noteShell) s := by
  have hrun : Relation.ReflTransGen (Step Aside) ⟨Node.empty, .idle⟩ ⟨shellNode, .idle⟩ :=
    .single (run_synced noteShell)
  have hlater : Relation.ReflTransGen (Step Aside) ⟨shellNode, .idle⟩ ⟨hijackedNode, .idle⟩ :=
    .single (run_synced forgedNote)
  refine ((log_of_run hrun hlater).2 _ (List.mem_singleton_self _)).resolve_left ?_
  rintro ⟨f, hf, -⟩
  exact List.not_mem_nil hf

/-- It has the content that the delegate's message brought. -/
example : hijackedNode.messages.rows.map (fun r => (r.sender, r.itemContent)) = [(noteOwner, some noteText)] := by
  decide +kernel

end Hijack

end MessageProcessor

end AlephCore
