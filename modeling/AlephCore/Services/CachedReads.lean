import AlephCore.Lib.Torn
import AlephCore.Services.Storage
import Mathlib.Data.UInt
import Mathlib.Logic.Function.Basic

/-!
# CachedReads — requests for contents, side by side

Mirrors `get` of `services/storage.rs` operation by operation, for any number of requests at once, with the cleanup of
the cache in `jobs/cleanup.rs`.  The files of the cache are read and written in pieces, and whoever has one open goes
on with it when its name has been removed.  The main storage may have anything; what is read there is compared with
the hash.  A request for a text that is not a single file name is left out: it writes nothing, as no digest is one.
-/

namespace AlephCore

open UnixPath

/-- A text that names one file of a directory, as every digest does. -/
structure FileName where
  text : Text
  ordinary : text ≠ [] ∧ text ≠ ['.'] ∧ text ≠ ['.', '.']
  whole : '/' ∉ text ∧ '\x00' ∉ text
  deriving DecidableEq

theorem FileName.resolve_join (h : FileName) (cwd : Location) (dir : Text) :
    resolve cwd (join dir h.text) = resolve cwd dir ++ [h.text] := by
  obtain ⟨hempty, hdot, hdots⟩ := h.ordinary
  have hrelative : isAbsolute h.text = false := by
    unfold isAbsolute
    rw [decide_eq_false_iff_not]
    exact fun hhead => h.whole.1 (List.mem_of_mem_head? hhead)
  rw [UnixPath.resolve_join cwd hrelative, segments_of_plain h.whole.1, walk_cons, walk_nil,
    enter_plain hempty hdot hdots]

/-- Different names are different places of the cache directory. -/
theorem FileName.place_injective (cwd : Location) (dir : Text) :
    Function.Injective fun h : FileName => resolve cwd (join dir h.text) := by
  intro h h' heq
  simp only [resolve_join] at heq
  obtain ⟨-, htext⟩ := List.append_inj' heq rfl
  cases h
  cases h'
  cases htext
  rfl

namespace StorageService

/-! ## Requests and files -/

/-- How far a request has come. -/
inductive Progress where
  | asked
  /-- Something stands in the cache under the hash. -/
  | cached
  /-- It has opened a file of the cache and read so much of it. -/
  | reading (file : Nat) (bytes : List UInt8)
  | uncached
  /-- The content is read from the main storage and has the hash. -/
  | verified (content : List UInt8)
  /-- It has opened a file of the cache and written so many bytes. -/
  | writing (file : Nat) (content : List UInt8) (offset : Nat)

/-- It has a file of the cache open. -/
def Progress.isOpen : Progress → Bool
  | .reading .. => true
  | .writing .. => true
  | _ => false

structure Request where
  hash : FileName
  progress : Progress

/-- The cache and the requests under way.  The files created under a name are numbered, and stay when the name is
removed.  `verified` and `answers` are a record of what has happened. -/
structure Traffic where
  /-- What stands in the directory. -/
  names : FileName → Option Nat
  files : FileName → Nat → Option (List UInt8)
  requests : Nat → Option Request
  /-- The contents that had the hash they were asked for under. -/
  verified : List (List UInt8)
  answers : List (FileName × Except StorageError (List UInt8))

namespace Traffic

/-- An empty cache. -/
def new : Traffic := ⟨fun _ => none, fun _ _ => none, fun _ => none, [], []⟩

def advance (s : Traffic) (task : Nat) (hash : FileName) (progress : Progress) : Traffic :=
  { s with requests := Function.update s.requests task (some ⟨hash, progress⟩) }

def answer (s : Traffic) (task : Nat) (hash : FileName) (a : Except StorageError (List UInt8)) : Traffic :=
  { s with requests := Function.update s.requests task none, answers := s.answers ++ [(hash, a)] }

def verify (s : Traffic) (content : List UInt8) : Traffic := { s with verified := content :: s.verified }

def setFile (s : Traffic) (hash : FileName) (file : Nat) (bytes : List UInt8) : Traffic :=
  { s with files := Function.update s.files hash (Function.update (s.files hash) file (some bytes)) }

/-- `File::create`: an empty file stands under the name. -/
def create (s : Traffic) (hash : FileName) (file : Nat) : Traffic :=
  { s with names := Function.update s.names hash (some file) }.setFile hash file []

section

variable (s : Traffic) (task : Nat) (hash : FileName) (progress : Progress) (a : Except StorageError (List UInt8))
  (file : Nat) (bytes : List UInt8)

@[simp] theorem advance_self : (s.advance task hash progress).requests task = some ⟨hash, progress⟩ :=
  Function.update_self ..

@[simp] theorem advance_of_ne {task' : Nat} (h : task' ≠ task) :
    (s.advance task hash progress).requests task' = s.requests task' :=
  Function.update_of_ne h ..

@[simp] theorem answer_self : (s.answer task hash a).requests task = none := Function.update_self ..

@[simp] theorem answer_of_ne {task' : Nat} (h : task' ≠ task) :
    (s.answer task hash a).requests task' = s.requests task' :=
  Function.update_of_ne h ..

@[simp] theorem setFile_self : (s.setFile hash file bytes).files hash file = some bytes := by
  simp [setFile]

theorem setFile_of_ne {file' : Nat} (h : file' ≠ file) :
    (s.setFile hash file bytes).files hash file' = s.files hash file' := by
  simp [setFile, h]

theorem setFile_other {hash' : FileName} (h : hash' ≠ hash) :
    (s.setFile hash file bytes).files hash' = s.files hash' :=
  Function.update_of_ne h ..

end

end Traffic

/-! ## Steps -/

/-- The hash of a content. -/
def digest (env : Env) (content : List UInt8) : Text := hashContent env ⟨content.toArray⟩

variable (env : Env) (service : StorageService)

/-- The next operation of a request. -/
inductive Turn (s : Traffic) (task : Nat) (hash : FileName) : Progress → Traffic → Prop
  | hit (h : (s.names hash).isSome) : Turn s task hash .asked (s.advance task hash .cached)
  /-- Nothing stands there, or looking there fails. -/
  | miss : Turn s task hash .asked (s.advance task hash .uncached)
  | opened {file : Nat} (h : s.names hash = some file) :
      Turn s task hash .cached (s.advance task hash (.reading file []))
  | unopened (e : IoError) : Turn s task hash .cached (s.answer task hash (.error (.io e)))
  | read {file : Nat} {bytes found : List UInt8} (count : Nat) (hfile : s.files hash file = some found) :
      Turn s task hash (.reading file bytes)
        (s.advance task hash (.reading file (bytes ++ (found.drop bytes.length).take count)))
  | readAll {file : Nat} {bytes found : List UInt8} (hfile : s.files hash file = some found)
      (hend : found.length ≤ bytes.length) :
      Turn s task hash (.reading file bytes) (s.answer task hash (.ok bytes))
  | unread {file : Nat} {bytes : List UInt8} (e : IoError) :
      Turn s task hash (.reading file bytes) (s.answer task hash (.error (.io e)))
  | absent : Turn s task hash .uncached (s.answer task hash (.error (.notFound hash.text)))
  | unloaded (e : IoError) : Turn s task hash .uncached (s.answer task hash (.error (.io e)))
  | mismatch (content : List UInt8) (h : digest env content ≠ hash.text) :
      Turn s task hash .uncached (s.answer task hash (.error .invalidHash))
  | loaded {content : List UInt8} (h : digest env content = hash.text) (hcache : service.enableCache = true) :
      Turn s task hash .uncached ((s.verify content).advance task hash (.verified content))
  | served {content : List UInt8} (h : digest env content = hash.text) (hcache : service.enableCache = false) :
      Turn s task hash .uncached ((s.verify content).answer task hash (.ok content))
  /-- The file under the name is truncated, or a new one made. -/
  | created {content : List UInt8} {file : Nat}
      (hfile : s.names hash = some file ∨ s.names hash = none ∧ s.files hash file = none) :
      Turn s task hash (.verified content) ((s.create hash file).advance task hash (.writing file content 0))
  | uncreated {content : List UInt8} : Turn s task hash (.verified content) (s.answer task hash (.ok content))
  | written {file offset : Nat} {content found : List UInt8} (count : Nat) (hfile : s.files hash file = some found)
      (hcount : offset + count ≤ content.length) :
      Turn s task hash (.writing file content offset)
        ((s.setFile hash file (Torn.splice 0 found offset ((content.drop offset).take count))).advance task hash
          (.writing file content (offset + count)))
  /-- All is written, or writing fails, which is ignored. -/
  | closed {file offset : Nat} {content : List UInt8} :
      Turn s task hash (.writing file content offset) (s.answer task hash (.ok content))

/-- Something happens. -/
inductive Step (s : Traffic) : Traffic → Prop
  | request (task : Nat) (hash : FileName) (h : s.requests task = none) :
      Step s (s.advance task hash (if service.enableCache then .asked else .uncached))
  | turn {s' : Traffic} {task : Nat} {hash : FileName} {progress : Progress}
      (hrequest : s.requests task = some ⟨hash, progress⟩) (h : Turn env service s task hash progress s') : Step s s'
  /-- The client is gone, or slicing its text panics.  A write goes on without it. -/
  | gone {task : Nat} {r : Request} (hrequest : s.requests task = some r)
      (h : ∀ file content offset, r.progress ≠ .writing file content offset) :
      Step s { s with requests := Function.update s.requests task none }
  /-- `cleanup_cache` removes a file. -/
  | removed (hash : FileName) : Step s { s with names := Function.update s.names hash none }
  /-- The node stops and starts again. -/
  | restarted : Step s { s with requests := fun _ => none }

end StorageService

end AlephCore
