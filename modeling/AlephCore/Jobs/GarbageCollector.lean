import AlephCore.Db.PgDatabase
import Mathlib.Data.Fintype.Defs

/-!
# GarbageCollector — the job that removes files nobody references

Mirrors `jobs/garbage_collector.rs`: files without references, pins without a message, expired pending
and old rejected messages, and expired grace period pins, in this order.
-/

namespace AlephCore.GarbageCollector

open ProgE

/-- What a cycle needs to know. -/
structure GcContext where
  env : Env
  order : SqlOrder
  /-- The clock. -/
  now : Timestamp
  gracePeriodSecs : Timestamp

/-- What a cycle has done. -/
structure GcStats where
  filesChecked : Nat
  filesRemoved : Nat
  orphanedPins : Nat
  bytesFreed : Nat
  errors : Nat

/-- The limit of every selection. -/
def selectLimit : Nat := 100

/-- Ask IPFS to unpin a file; an error is only logged. -/
def unpin (hash : ItemHash) : Db DbError Unit :=
  ignore (execute fun n => { n with unpinned := n.unpinned ++ [hash] } : Db DbError Unit)

def deletePins (hash : ItemHash) : Db DbError Unit :=
  execute fun n => { n with filePins := n.filePins.delete (·.itemHash = hash) }

/-! ## Files without references -/

/-- A STORE message whose content the selection casts. -/
def Castable (r : MessageRow) : Prop :=
  r.messageType = .store ∧ ∃ s ∈ r.itemContent, s ≠ "" ∧ s.toList.head? = some '\x7b'

instance (r : MessageRow) : Decidable (Castable r) := by
  unfold Castable
  cases r.itemContent <;> infer_instance

/-- The file the selection finds in the content of a message. -/
def castItemHash (env : Env) (r : MessageRow) : Except String (Option ItemHash) :=
  match r.itemContent with
  | none => .ok none
  | some s => (env.jsonb s).map fun x => env.jsonbGetText x "item_hash"

/-- Some content cannot be cast. -/
def CastFails (env : Env) (n : Node) : Prop :=
  ∃ r ∈ n.messages.rows, Castable r ∧ (castItemHash env r).toOption = none

/-- Some STORE message references the file. -/
def StoreReferenced (env : Env) (n : Node) (hash : ItemHash) : Prop :=
  ∃ r ∈ n.messages.rows, Castable r ∧ (castItemHash env r).toOption = some (some hash)

/-- Some program or instance uses the file. -/
def VmReferenced (n : Node) (hash : ItemHash) : Prop :=
  (∃ p ∈ n.programs.rows, p.codeRef = hash ∨ p.runtimeRef = hash) ∨ ∃ i ∈ n.instances.rows, i.rootfsRef = hash

/-- The file is tagged for retention. -/
def KeepTagged (n : Node) (hash : ItemHash) : Prop :=
  ∃ t ∈ n.fileTags.rows, t.itemHash = hash ∧ t.tag = "keep"

instance (env : Env) (n : Node) : Decidable (CastFails env n) := inferInstanceAs (Decidable (∃ _ ∈ _, _))

instance (env : Env) (n : Node) (h : ItemHash) : Decidable (StoreReferenced env n h) :=
  inferInstanceAs (Decidable (∃ _ ∈ _, _))

instance (n : Node) (h : ItemHash) : Decidable (VmReferenced n h) := inferInstanceAs (Decidable (_ ∨ _))

instance (n : Node) (h : ItemHash) : Decidable (KeepTagged n h) := inferInstanceAs (Decidable (∃ _ ∈ _, _))

/-- Nothing references the file of the pin, and the pin is old enough. -/
def Orphaned (ctx : GcContext) (n : Node) (p : FilePinRecord) : Prop :=
  ¬ StoreReferenced ctx.env n p.itemHash ∧ ¬ VmReferenced n p.itemHash ∧ ¬ KeepTagged n p.itemHash ∧
    p.createdAt < ctx.now - ctx.gracePeriodSecs

instance (ctx : GcContext) (n : Node) (p : FilePinRecord) : Decidable (Orphaned ctx n p) :=
  inferInstanceAs (Decidable (_ ∧ _))

/-- PostgreSQL's answer to text that is no JSON. -/
def invalidJson : DbError := "invalid input syntax for type json"

/-- The orphaned pins, before the limit. -/
def orphanedPins (ctx : GcContext) (n : Node) : List FilePinRecord :=
  (ctx.order.scan n.filePins.rows).filter fun p => Orphaned ctx n p

/-- To find a pin orphaned every content has to be cast. -/
def selectOrphanedFiles (ctx : GcContext) : Db DbError (List (ItemHash × Int)) :=
  sql fun n =>
    if orphanedPins ctx n ≠ [] ∧ CastFails ctx.env n then (.error invalidJson, n)
    else (.ok (((orphanedPins ctx n).take selectLimit).map fun p => (p.itemHash, p.size)), n)

/-- Is the file still without a STORE message? -/
def stillOrphaned (ctx : GcContext) (hash : ItemHash) : Db DbError Bool :=
  sql fun n =>
    if StoreReferenced ctx.env n hash then (.ok false, n)
    else if CastFails ctx.env n then (.error invalidJson, n)
    else (.ok true, n)

def deleteFileTags (hash : ItemHash) : Db DbError Unit :=
  execute fun n => { n with fileTags := n.fileTags.delete (·.itemHash = hash) }

/-- Unpin a file and delete what is stored about it. -/
def dropFile (hash : ItemHash) : Db DbError Bool := do
  unpin hash
  deletePins hash
  deleteFileTags hash
  pure true

/-- Remove a file from storage and database. -/
def removeFile (ctx : GcContext) (hash : ItemHash) : Db DbError Bool := do
  let orphaned ← stillOrphaned ctx hash
  if ¬ orphaned then pure false else dropFile hash

/-- Count the outcome of `removeFile`. -/
def GcStats.count (stats : GcStats) (size : Int) : Except DbError Bool → GcStats
  | .ok true => { stats with filesRemoved := stats.filesRemoved + 1, bytesFreed := stats.bytesFreed + asU64 size }
  | .ok false => stats
  | .error _ => { stats with errors := stats.errors + 1 }

/-- Remove the files one after another; an error is counted. -/
def removeFiles (ctx : GcContext) : GcStats → List (ItemHash × Int) → Db DbError GcStats
  | stats, [] => pure stats
  | stats, (hash, size) :: rest => do
    let removed ← attempt (removeFile ctx hash)
    removeFiles ctx (stats.count size removed) rest

/-! ## Pins without a message -/

/-- The pins whose file hash is not the hash of a message. -/
def pinsWithoutMessage (ctx : GcContext) (n : Node) : List ItemHash :=
  ((ctx.order.scan n.filePins.rows).filter fun p =>
    decide (∀ m ∈ n.messages.rows, m.itemHash ≠ p.itemHash)).map FilePinRecord.itemHash

/-- Unpin the files and delete their pins; an error is ignored and not counted. -/
def cleanPins : Nat → List ItemHash → Db DbError Nat
  | cleaned, [] => pure cleaned
  | cleaned, hash :: rest => do
    unpin hash
    let deleted ← attempt (deletePins hash)
    cleanPins (if deleted.toOption.isSome then cleaned + 1 else cleaned) rest

/-- Clean up orphaned IPFS pins. -/
def cleanOrphanedPins (ctx : GcContext) : Db DbError Nat := do
  let orphaned ← query fun n => (pinsWithoutMessage ctx n).take selectLimit
  cleanPins 0 orphaned

/-! ## Pending and rejected messages -/

/-- Messages that have been retried often enough. -/
def Expired (cutoff : Timestamp) (p : PendingMessageDb) : Prop := p.nextAttempt < cutoff ∧ 10 ≤ p.retries

instance (cutoff : Timestamp) (p : PendingMessageDb) : Decidable (Expired cutoff p) :=
  inferInstanceAs (Decidable (_ ∧ _))

/-- The cutoff, in whole seconds. -/
def cutoffTimestamp (ctx : GcContext) : Timestamp := (ctx.now - ctx.gracePeriodSecs).floor

/-- Clean up expired pending messages. -/
def cleanExpiredPending (ctx : GcContext) : Db DbError Unit :=
  execute fun n => { n with
    pendingMessages := n.pendingMessages.delete (Expired (cutoffTimestamp ctx))
    rejectedMessages := (n.pendingMessages.rows.filter fun p =>
        decide (Expired (cutoffTimestamp ctx) p)).foldl
      (fun t p => t.insertNew ⟨p.itemHash, p.message, -1, "Max retries exceeded", ctx.now⟩)
      n.rejectedMessages }

/-- Clean up old rejected messages. -/
def cleanOldRejected (ctx : GcContext) : Db DbError Unit :=
  execute fun n => { n with
    rejectedMessages := n.rejectedMessages.delete (·.rejectedAt < ctx.now - 7 * 24 * 3600) }

/-! ## Grace period pins -/

/-- A grace period pin whose time is over. -/
def GraceExpired (ctx : GcContext) (p : FilePinRecord) : Prop :=
  p.pinType = .gracePeriod ∧ ∃ t ∈ p.deleteBy, t < ctx.now

instance (ctx : GcContext) (p : FilePinRecord) : Decidable (GraceExpired ctx p) := by
  unfold GraceExpired
  cases p.deleteBy <;> infer_instance

def expiredGracePins (ctx : GcContext) (n : Node) : List (ItemHash × Address) :=
  ((ctx.order.scan n.filePins.rows).filter fun p => decide (GraceExpired ctx p)).map fun p =>
    (p.itemHash, p.owner)

def deleteGracePin (hash : ItemHash) (owner : Address) : Db DbError Unit :=
  execute fun n => { n with
    filePins := n.filePins.delete fun p => p.itemHash = hash ∧ p.owner = owner ∧ p.pinType = .gracePeriod }

def deleteFile (hash : ItemHash) : Db DbError Unit :=
  execute fun n => { n with files := n.files.delete (·.hash = hash) }

def deleteFileTagsV2 (hash : ItemHash) : Db DbError Unit :=
  execute fun n => { n with fileTagsV2 := n.fileTagsV2.delete (·.fileHash = hash) }

/-- Nobody pins the file any more. -/
def collectFile (hash : ItemHash) : Db DbError Unit := do
  unpin hash
  deletePins hash
  deleteFile hash
  deleteFileTagsV2 hash

/-- Drop the pin if the file has been pinned again, else the file. -/
def cleanGracePin (hash : ItemHash) (owner : Address) : Db DbError Nat := do
  let activeCount ← PgDatabase.countActivePins hash
  if 0 < activeCount then do
    deleteGracePin hash owner
    pure 0
  else do
    collectFile hash
    pure 1

/-- One pin after another; the first error ends the pass. -/
def cleanGracePins : Nat → List (ItemHash × Address) → Db DbError Nat
  | cleaned, [] => pure cleaned
  | cleaned, (hash, owner) :: rest => do
    let collected ← cleanGracePin hash owner
    cleanGracePins (cleaned + collected) rest

/-- Process expired grace period pins. -/
def cleanExpiredGracePins (ctx : GcContext) : Db DbError Nat := do
  let expired ← query fun n => (expiredGracePins ctx n).take selectLimit
  cleanGracePins 0 expired

/-! ## A cycle -/

/-- The first pass. -/
def removeOrphanedFiles (ctx : GcContext) : Db DbError GcStats := do
  let orphanedFiles ← selectOrphanedFiles ctx
  removeFiles ctx ⟨orphanedFiles.length, 0, 0, 0, 0⟩ orphanedFiles

/-- The passes after the first two. -/
def finishCycle (ctx : GcContext) (stats : GcStats) : Db DbError GcStats := do
  cleanExpiredPending ctx
  cleanOldRejected ctx
  let graceCleaned ← cleanExpiredGracePins ctx
  pure { stats with filesRemoved := stats.filesRemoved + graceCleaned }

/-- Run a single GC cycle. -/
def runGcCycle (ctx : GcContext) : Db DbError GcStats := do
  let stats ← removeOrphanedFiles ctx
  let orphaned ← cleanOrphanedPins ctx
  finishCycle ctx { stats with orphanedPins := orphaned }

end AlephCore.GarbageCollector
