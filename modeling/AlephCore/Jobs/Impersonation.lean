import AlephCore.Handlers.OnBehalf
import AlephCore.Jobs.Retries

/-!
# Impersonation — an address that sends nothing gets nothing

While an address sends no message, whoever writes it into a content is not authorized, and no handler comes to store
anything under it.  In every run over messages of others, with any statements refused and beside the jobs that queue
messages, collect files and take uploads, no derived row is ever of that address, and nobody is authorized to act for
it.  Contents that are not checked must not name it: those of trusted sources, and arrays.
-/

namespace AlephCore

open ProgE Prog

/-! ## The garbage collector -/

namespace GarbageCollector

variable {gc : GcContext}

/-- Pins and tags are deleted, and what stands outside of messages and derived rows changes. -/
structure Collects (n n' : Node) : Prop where
  messages : n'.messages = n.messages
  forgottenMessages : n'.forgottenMessages = n.forgottenMessages
  aggregates : n'.aggregates = n.aggregates
  aggregateElements : n'.aggregateElements = n.aggregateElements
  posts : n'.posts = n.posts
  programs : n'.programs = n.programs
  instances : n'.instances = n.instances
  vmVersions : n'.vmVersions = n.vmVersions
  accountCosts : n'.accountCosts = n.accountCosts
  pins : ∀ p ∈ n'.filePins, p ∈ n.filePins
  tags : ∀ t ∈ n'.fileTagsV2, t ∈ n.fileTagsV2

theorem Collects.refl (n : Node) : Collects n n :=
  ⟨rfl, rfl, rfl, rfl, rfl, rfl, rfl, rfl, rfl, fun _ hp => hp, fun _ ht => ht⟩

instance : Std.Refl Collects := ⟨Collects.refl⟩

theorem collects_unpin (hash : ItemHash) : Moves Collects (unpin hash).run :=
  moves_ignore (moves_execute fun n => { Collects.refl n with })

theorem collects_deletePins (hash : ItemHash) : Moves Collects (deletePins hash).run :=
  moves_execute fun n => { Collects.refl n with pins := fun _ hp => (Table.mem_delete.1 hp).1 }

theorem collects_removeFile (hash : ItemHash) : Moves Collects (removeFile gc hash).run := by
  refine moves_bind (moves_sql fun n => ?_) fun orphaned => ?_
  · split_ifs
    · exact Collects.refl n
    · exact Collects.refl n
    · exact Collects.refl n
  · split_ifs
    · exact moves_bind (collects_unpin hash) fun _ => moves_bind (collects_deletePins hash) fun _ =>
        moves_bind (moves_execute fun n => { Collects.refl n with }) fun _ => moves_pure _
    · exact moves_pure _

theorem collects_removeFiles (files : List (ItemHash × Int)) (stats : GcStats) :
    Moves Collects (removeFiles gc stats files).run := by
  induction files generalizing stats with
  | nil => exact moves_pure stats
  | cons file files ih => exact moves_bind (moves_attempt (collects_removeFile file.1)) fun removed => ih _

theorem collects_cleanPins (hashes : List ItemHash) (cleaned : Nat) :
    Moves Collects (cleanPins cleaned hashes).run := by
  induction hashes generalizing cleaned with
  | nil => exact moves_pure cleaned
  | cons hash hashes ih =>
    exact moves_bind (collects_unpin hash) fun _ => moves_bind (moves_attempt (collects_deletePins hash)) fun _ => ih _

theorem collects_cleanGracePin (hash : ItemHash) (owner : Address) : Moves Collects (cleanGracePin hash owner).run := by
  refine moves_bind (moves_query _) fun active => ?_
  split_ifs
  · refine moves_bind (moves_execute fun n => ?_) fun _ => moves_pure _
    exact { Collects.refl n with pins := fun _ hp => (Table.mem_delete.1 hp).1 }
  · have hcollect : Moves Collects (collectFile hash).run :=
      moves_bind (collects_unpin hash) fun _ => moves_bind (collects_deletePins hash) fun _ =>
        moves_bind (moves_execute fun n => { Collects.refl n with }) fun _ =>
          moves_execute fun n => { Collects.refl n with tags := fun _ ht => (Table.mem_delete.1 ht).1 }
    exact moves_bind hcollect fun _ => moves_pure _

theorem collects_cleanGracePins (pins : List (ItemHash × Address)) (cleaned : Nat) :
    Moves Collects (cleanGracePins cleaned pins).run := by
  induction pins generalizing cleaned with
  | nil => exact moves_pure cleaned
  | cons pin pins ih => exact moves_bind (collects_cleanGracePin pin.1 pin.2) fun collected => ih _

/-- **The garbage collector** only collects. -/
theorem collects_runGcCycle : Moves Collects (runGcCycle gc).run := by
  have hselect : Moves Collects (selectOrphanedFiles gc).run := by
    refine moves_sql fun n => ?_
    split_ifs
    · exact Collects.refl n
    · exact Collects.refl n
  have hfinish : ∀ stats, Moves Collects (finishCycle gc stats).run := fun stats =>
    moves_bind (moves_execute fun n => { Collects.refl n with }) fun _ =>
      moves_bind (moves_execute fun n => { Collects.refl n with }) fun _ =>
        moves_bind (moves_bind (moves_query _) fun expired => collects_cleanGracePins expired 0) fun _ => moves_pure _
  exact moves_bind (moves_bind hselect fun files => collects_removeFiles files _) fun stats =>
    moves_bind (moves_bind (moves_query _) fun orphaned => collects_cleanPins orphaned 0) fun orphaned => hfinish _

/-- Nobody gets a row. -/
theorem Collects.absent {env : Env} {b : Address} {n n' : Node} (hc : Collects n n') (h : Absent env b n) :
    Absent env b n' where
  aggregates := hc.aggregates ▸ h.aggregates
  elements := hc.aggregateElements ▸ h.elements
  posts := hc.posts ▸ h.posts
  pins p hp := h.pins p (hc.pins p hp)
  tags t ht := h.tags t (hc.tags t ht)
  programs := hc.programs ▸ h.programs
  instances := hc.instances ▸ h.instances
  versions := hc.vmVersions ▸ h.versions
  costs := hc.accountCosts ▸ h.costs

end GarbageCollector

namespace MessageProcessor

open ChainSync (enqueued)
open ContentFetch (setContent requeue)
open StrandedContent (rebuilt)
open Permissions (checkDelegatedAuthorization)

variable {env : Env} {b : Address} {T : Timestamp} {n n' : Node} {ctx : ProcessorContext} {p : PendingMessageDb}

/-! ## The other jobs -/

/-- What the other jobs do. -/
inductive Bystander (n : Node) : Node → Prop
  /-- Messages are queued, stored and cleaned up. -/
  | disturbs (T : Timestamp) {n' : Node} (h : Disturbance T n n') : Bystander n n'
  /-- The garbage collector issues a statement of a cycle. -/
  | collects (gc : GarbageCollector.GcContext) {n' : Node} (h : Issues (GarbageCollector.runGcCycle gc).run n n') :
      Bystander n n'
  /-- A file is uploaded over the web API. -/
  | uploads (pin : FilePinRecord) (howner : pin.owner = "anonymous") :
      Bystander n { n with filePins := n.filePins.insertNew pin }

/-- **Queueing** derives nothing. -/
theorem absent_disturbance (h : Absent env b n) (hd : Disturbance T n n') : Absent env b n' := by
  cases hd with
  | received now json message hnow hexec =>
    obtain rfl := exec_execute_ok.1 hexec
    exact { h with }
  | synced chunk hsynced =>
    rw [hsynced.eq]
    exact { h with }
  | queued sync messages hclock hexec =>
    obtain rfl := ChainSync.exec_queue_ok.1 hexec
    clear hclock hexec
    unfold enqueued
    induction messages generalizing n with
    | nil => exact h
    | cons m messages ih =>
      have hone : Absent env b { n with pendingMessages := n.pendingMessages.insertNew (ChainSync.queued sync m) } :=
        { h with }
      exact ih hone
  | indexed q hretries hnext => exact { h with }
  | expires gc hexec =>
    obtain rfl := exec_execute_ok.1 hexec
    exact { h with }
  | stores x content => exact { h with }
  | requeues now x hnow =>
    unfold requeue
    cases n.messages.find? x with
    | none => exact h
    | some r => exact { h with }
  | rebuilds now x hnow =>
    unfold rebuilt ChainSync.rebuildPending
    rw [run_sql]
    cases n.messages.find? x with
    | none => exact h
    | some r => exact { h with }

/-- **The other jobs** give no row to whoever is not anonymous. -/
theorem absent_bystander (h : Absent env b n) (hanonymous : ¬ env.SameAddress "anonymous" b)
    (hn : Bystander n n') : Absent env b n' := by
  cases hn with
  | disturbs T hd => exact absent_disturbance h hd
  | collects gc hissues => exact (GarbageCollector.collects_runGcCycle.issues hissues).absent h
  | uploads pin howner =>
    have hpin : ¬ env.SameAddress pin.owner b := by
      rw [howner]
      exact hanonymous
    exact { h with pins := h.pins.insertNew hpin }

/-! ## The processor -/

theorem keeps_takeBatch : Moves (KeepsAbsent env b) (takeBatch ctx).run := by
  refine moves_takeBatch.mono ?_
  rintro n _ ⟨txs, rfl⟩ h
  exact { h with }

/-- Pending and rejected rows change. -/
def OnlyQueues (n n' : Node) : Prop :=
  ∃ pending rejected, n' = { n with pendingMessages := pending, rejectedMessages := rejected }

theorem moves_settle {batch : Batch} {results : List TaskResult} : Moves OnlyQueues (settle ctx batch results).run := by
  have hreject : ∀ (p : PendingMessageDb) code text, Moves OnlyQueues (moveToRejected ctx p code text).run :=
    fun p code text => moves_bind (moves_execute fun _ => ⟨_, _, rfl⟩) fun _ => moves_execute fun _ => ⟨_, _, rfl⟩
  have hretry : ∀ (p : PendingMessageDb) reason, Moves OnlyQueues (updateRetry ctx p reason).run := by
    intro p reason
    unfold updateRetry
    simp only
    split_ifs
    · exact hreject p _ _
    · exact moves_execute fun _ => ⟨_, _, rfl⟩
  refine moves_bind (moves_forEach fun r _ => ?_) fun _ => moves_mapErr ?_
  · obtain ⟨p, result⟩ := r
    cases result with
    | error e => exact moves_ignore (hretry p e.toString)
    | ok outcome =>
      cases outcome with
      | processed => exact moves_pure ()
      | rejected code text => exact moves_ignore (hreject p code text)
      | retry reason => exact moves_ignore (hretry p reason)
      | deferred => exact moves_pure ()
  · unfold batchDeletePending
    split_ifs
    · exact moves_pure ()
    · exact moves_execute fun _ => ⟨_, _, rfl⟩

theorem keeps_settle {batch : Batch} {results : List TaskResult} :
    Moves (KeepsAbsent env b) (settle ctx batch results).run := by
  refine moves_settle.mono ?_
  rintro n _ ⟨pending, rejected, rfl⟩ h
  exact { h with }

/-- **A task** on a message of others gives the address no row. -/
theorem assures_taskOfOthers (hcost : OwnCosts ctx.cost)
    (h : ∀ received message, ActsOn ctx p received message → Outside ctx.env b p.trustedSource message) :
    Assures (absence ctx.env b) (fun _ _ => True) (processSingleMessage ctx p).run n := by
  unfold processSingleMessage
  cases hdecode : Message.decode p.message with
  | error e => exact fun _ _ => trivial
  | ok received =>
    refine assures_pure_bind ?_
    cases hcontent : obtainContent ctx received with
    | error e =>
      exact assures_keepsAbsent (moves_bind (moves_mapErr (moves_execute fun _ hn => { hn with })) fun _ =>
        moves_pure _)
    | ok message =>
      have houtside : Outside (createHandlerContext ctx p.trustedSource).env b
          (createHandlerContext ctx p.trustedSource).trustedSource message := h received message ⟨hdecode, hcontent⟩
      show Assures _ _ (processWithContent ctx p message).run n
      unfold processWithContent
      cases rejection ctx p.trustedSource message with
      | some r => exact fun _ _ => trivial
      | none =>
        refine assures_bind (assures_ofProg (fun _ _ _ _ _ => trivial) (assures_outside houtside hcost))
          (fun status t _ => ?_) fun _ _ _ _ _ => trivial
        cases status with
        | rejected code text => exact fun _ _ => trivial
        | processed =>
          exact assures_keepsAbsent (moves_bind (moves_mapErr (moves_execute fun _ hn => { hn with })) fun _ =>
            moves_pure _)

/-! ## Runs -/

/-- No message of the batch is of the address, or names it where that is not checked. -/
structure OfOthers (e : Env) (b : Address) (ctx : ProcessorContext) (batch : Batch) : Prop where
  env : ctx.env = e
  cost : OwnCosts ctx.cost
  outside : ∀ p ∈ batch.messages, ∀ received message, ActsOn ctx p received message →
    Outside e b p.trustedSource message

/-- The batches are of others. -/
def Duty.OfOthers (env : Env) (b : Address) : Duty → Prop
  | .taking _ => True
  | .working ctx batch => MessageProcessor.OfOthers env b ctx batch
  | .settling _ _ _ => True

/-- What the stages of a batch of others keep. -/
def keepsAbsent (env : Env) (b : Address) (hanonymous : ¬ env.SameAddress "anonymous" b) :
    Supervision Bystander fun d _ => d.OfOthers env b where
  inv := Absent env b
  contract d := (absence env b).provided (d.OfOthers env b)
  taken _ _ := True
  ended _ _ := True
  given hinv hguard := ⟨hinv, hguard⟩
  kept hinv hguar := hguar hinv
  undisturbed hinv hother :=
    ⟨absent_bystander hinv hanonymous hother, fun _ hn => absent_bystander hn hanonymous hother⟩
  shared hguar := hguar
  stable _ _ _ _ := trivial
  take _ := (assures_provided fun _ => assures_keepsAbsent keeps_takeBatch).mono fun _ _ _ _ _ => trivial
  work _ p hp := by
    refine assures_provided fun hothers => ?_
    obtain ⟨rfl, hcost, houtside⟩ := hothers
    exact assures_taskOfOthers hcost (houtside p hp)
  timeout := trivial
  settle _ _ := assures_provided fun _ => assures_keepsAbsent keeps_settle

/-- **Nobody can act for an address that never sends**: in every run over messages of others, whatever is refused and
beside the other jobs, no derived row is of the address, and the permission check authorizes nobody else for it. -/
theorem nobody_acts_for {n₀ : Node} {w : World} (habsent : Absent env b n₀)
    (hanonymous : ¬ env.SameAddress "anonymous" b)
    (hrun : Relation.ReflTransGen (Watched Bystander fun d _ => d.OfOthers env b) ⟨n₀, .idle⟩ w) :
    Absent env b w.node ∧ ∀ sender owner message, ¬ env.SameAddress sender b → env.SameAddress owner b →
      ¬ Permissions.Answers env w.node sender owner message true := by
  have hinv : Absent env b w.node := (keepsAbsent env b hanonymous).inv_of_run (n := n₀) habsent hrun
  refine ⟨hinv, fun sender owner message hsender howner hanswer => ?_⟩
  obtain ⟨n', hexec⟩ := hanswer
  obtain ⟨-, hsame | hauthorized⟩ := Permissions.exec_checkDelegatedAuthorization.1 hexec
  · exact hsender (Env.SameAddress.trans hsame howner)
  · obtain ⟨row, hrow, hkey, -⟩ := hauthorized
    refine hinv.aggregates row hrow ?_
    rw [(Prod.mk.inj hkey).1]
    exact howner

/-- An array that names the owner is not checked: the delegate comes to store a post of the owner. -/
example : ((processMessage Permissions.secretMessage Permissions.secretCtx).run Node.empty).2.posts.rows.map
    PostRecord.address = [PostHandler.noteOwner] := by decide +kernel

section Forged

open PostHandler

/-- A note under the owner's address that the delegate has signed. -/
def forgedNote : Message := { noteMessage with sender := noteDelegate, signature := "0x5819e9575c60dd05" }

def forgedQueued : PendingMessageDb := ⟨noteHash, forgedNote.toJson, 1700000010, false, true, 0, 1700000010, false⟩

def forgedNode : Node := { Node.empty with pendingMessages := Table.empty.insertNew forgedQueued }

def forgedCtx : ProcessorContext where
  env := .ofTables [(noteText, .obj noteFields)] [(noteText, noteHash)]
    [("ETH\n" ++ noteDelegate ++ "\nPOST\n" ++ noteHash, forgedNote.signature, noteDelegate)]
  order := .stored
  now := 1700000300
  cost := none
  ipfsGet := fun _ => .error "not found"

/-- The task on the note, and the batch. -/
def forgedResult : Except ProcessorError ProcessResult × Node :=
  (processSingleMessage forgedCtx forgedQueued).run.run forgedNode

def forgedSettled : Node :=
  ((settle forgedCtx (batchOf forgedCtx forgedNode) [(forgedQueued, forgedResult.1)]).run.run forgedResult.2).2

theorem forged_batch : (batchOf forgedCtx forgedNode).messages = [forgedQueued] := by decide +kernel

theorem forged_ofOthers : OfOthers forgedCtx.env noteOwner forgedCtx (batchOf forgedCtx forgedNode) where
  env := rfl
  cost := fun _ hservice => by cases hservice
  outside p hp received message hacts := by
    rw [forged_batch] at hp
    obtain rfl := List.mem_singleton.1 hp
    have hnote : ActsOn forgedCtx forgedQueued forgedNote forgedNote := ⟨Message.decode_toJson _, rfl⟩
    obtain ⟨-, rfl⟩ := hacts.unique hnote
    refine ⟨by decide +kernel, fun hunchecked => ?_⟩
    obtain htrusted | ⟨⟨s, xs, hs, harray⟩, -⟩ := hunchecked
    · cases htrusted
    · obtain rfl := Option.some.inj hs
      have hobject : forgedCtx.env.parseJson noteText = .ok (.obj noteFields) := by decide +kernel
      cases hobject.symm.trans harray

/-- The permission check refuses the note. -/
example : rejection forgedCtx false forgedNote = none ∧ forgedResult.1 = .ok (.rejected .permissionDenied
    ("Permission denied: Sender " ++ noteDelegate ++ " is not authorized to post on behalf of " ++ noteOwner)) := by
  decide +kernel

theorem run_forged : Relation.ReflTransGen (Watched Bystander fun d _ => d.OfOthers forgedCtx.env noteOwner)
    ⟨forgedNode, .idle⟩ ⟨forgedSettled, .idle⟩ := by
  refine watched_batchOf (by decide +kernel) forged_batch ?_ (fun _ _ => trivial) (fun _ => forged_ofOthers)
    fun _ => trivial
  exact ⟨forgedResult.1, forgedResult.2, [], exec_run _ _, ⟨rfl, rfl⟩, rfl⟩

theorem forged_stores_nothing : Absent forgedCtx.env noteOwner forgedSettled ∧
    ∀ sender owner message, ¬ forgedCtx.env.SameAddress sender noteOwner →
      forgedCtx.env.SameAddress owner noteOwner →
        ¬ Permissions.Answers forgedCtx.env forgedSettled sender owner message true := by
  have hnone : Absent forgedCtx.env noteOwner forgedNode := by
    constructor <;> exact fun _ hr => (List.not_mem_nil hr).elim
  exact nobody_acts_for hnone (by decide +kernel) run_forged

end Forged

end MessageProcessor

end AlephCore
