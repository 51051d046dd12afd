import AlephCore.Lib.TableSum
import AlephCore.Services.Storage

/-!
# WarmCache — content that a node keeps for others

Mirrors the warm cache of `storage/tiered.rs`: files in a directory of their own, and an index of them in memory behind
a lock.  `put` holds the lock while it makes room and again while it enters the content; between these it writes the
file.  `remove` and `evict_expired` hold it while they drop entries and files.  The state has the calls of `put` that
are under way; what the system decides (the order of entries with one time, a removal that fails) comes with the event.
-/

namespace AlephCore

open UnixPath

deriving instance DecidableEq for CacheEntry

/-- The index: hash, size and time of insertion. -/
abbrev CacheIndex := Table (Text × CacheEntry) Prod.fst

/-- How far a call of `put` has come. -/
inductive Stage where
  /-- It has made room. -/
  | roomy
  /-- It has opened the file and written so many bytes; `linked` says whether the file still has its name. -/
  | writing (offset : Nat) (linked : Bool)
  deriving DecidableEq

/-- A call of `put` that has not returned. -/
structure PutCall where
  task : Nat
  hash : Text
  content : List UInt8
  stage : Stage
  deriving DecidableEq

/-- The file has lost its name. -/
def PutCall.unlinked (p : PutCall) : PutCall :=
  match p.stage with
  | .roomy => p
  | .writing offset _ => { p with stage := .writing offset false }

theorem PutCall.task_unlinked (p : PutCall) : p.unlinked.task = p.task := by
  unfold unlinked
  cases p.stage <;> rfl

structure CacheState where
  index : CacheIndex
  files : Location → Option (List UInt8)
  puts : Table PutCall PutCall.task
  now : Nat

/-- What `WarmCache::new` is given, and the directory of the process. -/
structure CacheSetup where
  storage : LocalStorage
  cwd : Location
  maxBytes : Nat
  ttl : Nat

namespace CacheSetup

/-- The place of the file for a hash, unless building its path panics. -/
def place (c : CacheSetup) (hash : Text) : Option Location := (c.storage.pathFor hash).map (resolve c.cwd)

def fileOf (c : CacheSetup) (s : CacheState) (hash : Text) : Option (List UInt8) := (c.place hash).bind s.files

/-! ## Reading -/

def Expired (c : CacheSetup) (s : CacheState) (entry : CacheEntry) : Prop := c.ttl < s.now - entry.insertedAt

instance (c : CacheSetup) (s : CacheState) (entry : CacheEntry) : Decidable (c.Expired s entry) :=
  inferInstanceAs (Decidable (c.ttl < s.now - entry.insertedAt))

/-- Check if content exists in the warm cache (and is not expired). -/
def «exists» (c : CacheSetup) (s : CacheState) (hash : Text) : Bool :=
  match s.index.find? hash with
  | some entry => ¬ c.Expired s entry.2
  | none => false

/-- Get content from the warm cache (nothing if expired or missing). -/
def get (c : CacheSetup) (s : CacheState) (hash : Text) : Option (List UInt8) :=
  match s.index.find? hash with
  | some entry => if c.Expired s entry.2 then none else c.fileOf s hash
  | none => none

/-! ## Dropping entries -/

/-- `LocalStorage::remove`: whoever has the file open writes on without its name. -/
def unlink (c : CacheSetup) (s : CacheState) (hash : Text) : CacheState :=
  match c.place hash with
  | none => s
  | some l =>
    { s with
      files := Function.update s.files l none
      puts := s.puts.update (fun p => c.place p.hash = some l) PutCall.unlinked PutCall.task_unlinked }

local instance lawfulText : LawfulBEq Text := inferInstance

/-- Drop entries and their files; the files of stuck hashes cannot be removed. -/
def drop (c : CacheSetup) (stuck : List Text) (s : CacheState) (hashes : List Text) : CacheState :=
  (hashes.filter fun hash => hash ∉ stuck).foldl c.unlink { s with index := s.index.delete fun e => e.1 ∈ hashes }

/-- The hashes of the oldest entries, until enough bytes are freed. -/
def oldest (target : Nat) : Nat → List (Text × CacheEntry) → List Text
  | _, [] => []
  | freed, e :: rest => if target ≤ freed then [] else e.1 :: oldest target (freed + e.2.size) rest

/-- What is evicted for the capacity, with the entries in an order by time. -/
def toEvict (c : CacheSetup) (index : CacheIndex) (neededBytes : Nat) (order : List (Text × CacheEntry)) : List Text :=
  let currentSize := index.total fun e => e.2.size
  if currentSize + neededBytes ≤ c.maxBytes then []
  else oldest (neededBytes - (c.maxBytes - currentSize)) 0 order

/-- Ensure we have capacity for `neededBytes` by evicting oldest entries. -/
def ensureCapacity (c : CacheSetup) (stuck : List Text) (s : CacheState) (neededBytes : Nat)
    (order : List (Text × CacheEntry)) : CacheState :=
  c.drop stuck s (c.toEvict s.index neededBytes order)

/-- Evict all expired entries. -/
def evictExpired (c : CacheSetup) (stuck : List Text) (s : CacheState) : CacheState :=
  c.drop stuck s ((s.index.rows.filter fun e => c.Expired s e.2).map Prod.fst)

/-- Remove content from the warm cache. -/
def remove (c : CacheSetup) (stuck : List Text) (s : CacheState) (hash : Text) : CacheState := c.drop stuck s [hash]

/-! ## Steps -/

/-- Bytes written at an offset of a file. -/
def overwrite (old : List UInt8) (offset : Nat) (chunk : List UInt8) : List UInt8 :=
  old.take offset ++ List.replicate (offset - old.length) 0 ++ chunk ++ old.drop (offset + chunk.length)

/-- Something that happens while calls are under way. -/
inductive Event where
  /-- `put` begins and makes room. -/
  | put (task : Nat) (hash : Text) (content : List UInt8) (order : List (Text × CacheEntry)) (stuck : List Text)
  /-- It creates the file, or truncates the one that is there. -/
  | create (task : Nat)
  /-- It writes more bytes. -/
  | write (task bytes : Nat)
  /-- It enters the content in the index and returns. -/
  | insert (task : Nat)
  /-- It returns an error of the storage, or is given up. -/
  | abort (task : Nat)
  | remove (hash : Text) (stuck : List Text)
  | evictExpired (stuck : List Text)
  /-- Time passes. -/
  | elapse (duration : Nat)

/-- The order `sort_by_key` leads to: all entries, the oldest first. -/
def OldestFirst (index : CacheIndex) (order : List (Text × CacheEntry)) : Prop :=
  order.Perm index.rows ∧ order.Pairwise fun a b => a.2.insertedAt ≤ b.2.insertedAt

instance (index : CacheIndex) (order : List (Text × CacheEntry)) : Decidable (OldestFirst index order) :=
  inferInstanceAs (Decidable (order.Perm index.rows ∧ order.Pairwise fun a b => a.2.insertedAt ≤ b.2.insertedAt))

def setStage (s : CacheState) (task : Nat) (stage : Stage) : Table PutCall PutCall.task :=
  s.puts.update (fun p => p.task = task) fun p => { p with stage }

/-- What the put with the file open writes next. -/
def writeMore (c : CacheSetup) (s : CacheState) (p : PutCall) (offset bytes : Nat) (linked : Bool) : CacheState :=
  { s with
    files :=
      match linked, c.place p.hash with
      | true, some l => Function.update s.files l ((s.files l).map fun old =>
          overwrite old offset ((p.content.drop offset).take bytes))
      | _, _ => s.files
    puts := setStage s p.task (.writing (offset + bytes) linked) }

/-- One step, if it can happen. -/
def step (c : CacheSetup) (s : CacheState) : Event → Option CacheState
  | .put task hash content order stuck =>
    if s.puts.find? task = none ∧ OldestFirst s.index order then
      let roomy := c.ensureCapacity stuck s content.length order
      some { roomy with puts := roomy.puts.insertNew ⟨task, hash, content, .roomy⟩ }
    else none
  | .create task => do
    let p ← s.puts.find? task
    let l ← c.place p.hash
    if p.stage = .roomy then
      some { s with files := Function.update s.files l (some []), puts := setStage s task (.writing 0 true) }
    else none
  | .write task bytes => do
    let p ← s.puts.find? task
    match p.stage with
    | .roomy => none
    | .writing offset linked =>
      if offset + bytes ≤ p.content.length then some (c.writeMore s p offset bytes linked) else none
  | .insert task => do
    let p ← s.puts.find? task
    match p.stage with
    | .roomy => none
    | .writing offset _ =>
      if offset = p.content.length then
        some { s with
          index := (s.index.delete fun e => e.1 = p.hash).insertNew (p.hash, ⟨p.content.length, s.now⟩)
          puts := s.puts.delete fun q => q.task = task }
      else none
  | .abort task => some { s with puts := s.puts.delete fun q => q.task = task }
  | .remove hash stuck => some (c.remove stuck s hash)
  | .evictExpired stuck => some (c.evictExpired stuck s)
  | .elapse duration => some { s with now := s.now + duration }

def run (c : CacheSetup) : CacheState → List Event → Option CacheState
  | s, [] => some s
  | s, event :: events => do
    let t ← c.step s event
    c.run t events

/-- A cache that has just been made, over whatever files are there. -/
def new (files : Location → Option (List UInt8)) (now : Nat) : CacheState := ⟨.empty, files, .empty, now⟩

end CacheSetup

end AlephCore
