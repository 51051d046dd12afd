import AlephCore.Env
import AlephCore.Lib.Disk

/-!
# Storage — contents on disk, found by their hash

Mirrors the read paths of `storage/mod.rs`, `storage/tiered.rs` and `services/storage.rs`.  Three functions
build a path from the text they are asked for: `path_for` of `LocalStorage`, `hash_to_path` of
`StorageService`, and the path of its cache.  The text comes from the path of `GET /storage/{hash}` and is
passed on as it is.
-/

namespace AlephCore

open UnixPath ProgE

/-- Slicing a string inside a character ends the request. -/
structure Panic where

/-- Programs that use the file system and may panic. -/
abbrev FileIo (α : Type) := ProgE Disk IoError Panic α

namespace Storage

/-- `str::len`. -/
def byteLen (s : Text) : Nat := (s.map fun c => c.utf8Size).sum

/-- `str::split_at`: nothing if the position is beyond the end or inside a character. -/
def splitAt : Nat → Text → Option (Text × Text)
  | 0, s => some ([], s)
  | _ + 1, [] => none
  | n + 1, c :: s =>
    if c.utf8Size ≤ n + 1 then (splitAt (n + 1 - c.utf8Size) s).map fun (a, b) => (c :: a, b) else none

/-- `&s[i..j]`: nothing if it panics. -/
def slice (s : Text) (i j : Nat) : Option Text := do
  let (_, rest) ← splitAt i s
  let (part, _) ← splitAt (j - i) rest
  some part

/-- Go on with a value, if computing it has not panicked. -/
def orPanic {α : Type} (o : Option α) : FileIo α := fromExcept (o.elim (.error ⟨⟩) .ok)

end Storage

open Storage

/-! ## Local storage -/

/-- Local file storage for content caching: files live in the directory `storage` of a data directory. -/
structure LocalStorage where
  baseDir : Text
  built : ∃ dataDir : Text, baseDir = join dataDir "storage".toList

namespace LocalStorage

def new (dataDir : Text) : LocalStorage := ⟨join dataDir "storage".toList, dataDir, rfl⟩

/-- File path for a given content hash, with two levels of directories: `ab/cd/abcdef...`. -/
def pathFor (storage : LocalStorage) (hash : Text) : Option Text := do
  if 4 ≤ byteLen hash then
    let a ← slice hash 0 2
    let b ← slice hash 2 4
    some (join (join (join storage.baseDir a) b) hash)
  else some (join storage.baseDir hash)

/-- Get content by hash from local storage. -/
def get (storage : LocalStorage) (hash : Text) : FileIo (Option ByteArray) := do
  let path ← orPanic (storage.pathFor hash)
  let r ← Disk.read path
  pure r.toOption

end LocalStorage

/-! ## Tiered storage -/

structure CacheEntry where
  size : Nat
  insertedAt : Nat

/-- Warm cache for non-owned content with TTL-based eviction. -/
structure WarmCache where
  storage : LocalStorage
  ttl : Nat
  index : Text → Option CacheEntry

namespace WarmCache

/-- Get content from the warm cache (nothing if expired or missing). -/
def get (cache : WarmCache) (now : Nat) (hash : Text) : FileIo (Option ByteArray) :=
  match cache.index hash with
  | none => pure none
  | some entry => if now - entry.insertedAt > cache.ttl then pure none else cache.storage.get hash

end WarmCache

/-- Tiered storage combining owned storage, warm cache and IPFS. -/
structure TieredStorage where
  ownedStorage : LocalStorage
  warmCache : WarmCache
  /-- `IpfsService::get`: it asks over HTTP. -/
  ipfs : Option (Text → Except String ByteArray)

namespace TieredStorage

/-- Get content, trying owned storage first, then warm cache, then IPFS. -/
def get (tiered : TieredStorage) (now : Nat) (hash : Text) : FileIo (Option ByteArray) := do
  match ← tiered.ownedStorage.get hash with
  | some content => pure (some content)
  | none =>
    match ← tiered.warmCache.get now hash with
    | some content => pure (some content)
    | none => pure (tiered.ipfs.bind fun ipfs => (ipfs hash).toOption)

end TieredStorage

/-! ## The storage service -/

inductive StorageError where
  | io (e : IoError)
  | notFound (hash : Text)
  | invalidHash

/-- Storage service for file operations. -/
structure StorageService where
  filesDir : Text
  cacheDir : Text
  enableCache : Bool

namespace StorageService

/-- SHA-256 of content, in hexadecimal. -/
def hashContent (env : Env) (content : ByteArray) : Text := (env.sha256Hex content).toList

/-- Convert hash to file path (using directory sharding). -/
def hashToPath (service : StorageService) (hash : Text) : Option Text := do
  let shard ← slice hash 0 (min 2 (byteLen hash))
  some (join (join service.filesDir shard) hash)

/-- What stands in the cache under the hash, if the cache is used and has it. -/
def getCached (service : StorageService) (hash : Text) :
    FileIo (Option (Except StorageError ByteArray)) := do
  if service.enableCache then
    let cachePath := join service.cacheDir hash
    if ← Disk.exists cachePath then
      let content ← Disk.read cachePath
      pure (some (content.mapError .io))
    else pure none
  else pure none

/-- Write content to the cache; a failure is ignored. -/
def updateCache (service : StorageService) (hash : Text) (content : ByteArray) : FileIo Unit := do
  if service.enableCache then
    let _ ← Disk.write (join service.cacheDir hash) content
    pure ()
  else pure ()

/-- The content in the main storage, checked against the hash. -/
def getStored (env : Env) (service : StorageService) (hash : Text) : FileIo (Except StorageError ByteArray) := do
  let filePath ← orPanic (service.hashToPath hash)
  if ← Disk.exists filePath then
    match ← Disk.read filePath with
    | .error e => pure (.error (.io e))
    | .ok content =>
      if hashContent env content ≠ hash then pure (.error .invalidHash)
      else
        service.updateCache hash content
        pure (.ok content)
  else pure (.error (.notFound hash))

/-- Retrieve content by hash. -/
def get (env : Env) (service : StorageService) (hash : Text) : FileIo (Except StorageError ByteArray) := do
  match ← service.getCached hash with
  | some r => pure r
  | none => getStored env service hash

end StorageService

end AlephCore
