import AlephCore.Services.Storage

/-!
# StorageSafety — what a request for a content can read

Whatever text is asked for, each getter opens only the paths it builds from that text.  Whether these lie in
the store is decided by the pieces of the text that are joined: `Contained` lists the conditions, one for each
place where a path is built.  They fail for `/etc/passwd` and for `..foo`.  What comes from the cache is
believed; what comes from the main storage is compared with the hash.
-/

namespace AlephCore

open UnixPath ProgE Prog Disk Storage

/-! ## The pieces that are joined -/

theorem Storage.splitAt_eq {n : Nat} {s a b : Text} (h : splitAt n s = some (a, b)) : s = a ++ b := by
  induction s generalizing n a with
  | nil =>
    cases n with
    | zero =>
      rw [splitAt, Option.some.injEq, Prod.mk.injEq] at h
      rw [← h.1, ← h.2]
      rfl
    | succ n => cases h
  | cons c s ih =>
    cases n with
    | zero =>
      rw [splitAt, Option.some.injEq, Prod.mk.injEq] at h
      rw [← h.1, ← h.2]
      rfl
    | succ n =>
      rw [splitAt] at h
      split_ifs at h
      rw [Option.map_eq_some_iff] at h
      obtain ⟨⟨a', b'⟩, hrest, heq⟩ := h
      obtain ⟨rfl, rfl⟩ := Prod.mk.inj heq
      rw [ih hrest]
      rfl

theorem Storage.mem_of_mem_slice {s a : Text} {i j : Nat} (h : slice s i j = some a) {c : Char} (hc : c ∈ a) :
    c ∈ s := by
  simp only [slice, Option.bind_eq_bind, Option.bind_eq_some_iff] at h
  obtain ⟨⟨front, rest⟩, h1, ⟨part, back⟩, h2, h3⟩ := h
  have hrest : rest = part ++ back := splitAt_eq h2
  have hpart : part = a := Option.some.inj h3
  rw [splitAt_eq h1, hrest, hpart]
  simp [hc]

/-- What local storage appends to its directory. -/
def LocalStorage.pieces (hash : Text) : Option (List Text) := do
  if 4 ≤ byteLen hash then
    let a ← slice hash 0 2
    let b ← slice hash 2 4
    some [a, b, hash]
  else some [hash]

/-- What the storage service appends to its files directory. -/
def StorageService.pieces (hash : Text) : Option (List Text) := do
  let shard ← slice hash 0 (min 2 (byteLen hash))
  some [shard, hash]

theorem LocalStorage.pathFor_eq (storage : LocalStorage) (hash : Text) :
    storage.pathFor hash = (pieces hash).map (joinAll storage.baseDir) := by
  unfold pathFor pieces
  split_ifs
  · cases slice hash 0 2 with
    | none => rfl
    | some a => cases slice hash 2 4 <;> rfl
  · rfl

theorem StorageService.hashToPath_eq (service : StorageService) (hash : Text) :
    service.hashToPath hash = (pieces hash).map (joinAll service.filesDir) := by
  unfold hashToPath pieces
  cases slice hash 0 (min 2 (byteLen hash)) <;> rfl

/-- The hash is the last piece, and the pieces contain no other characters. -/
structure PiecesOf (hash : Text) (ps : List Text) : Prop where
  last : ∃ front, ps = front ++ [hash]
  mem : ∀ p ∈ ps, ∀ c ∈ p, c ∈ hash

theorem LocalStorage.piecesOf {hash : Text} {ps : List Text} (h : pieces hash = some ps) :
    PiecesOf hash ps := by
  unfold pieces at h
  split_ifs at h
  · simp only [Option.bind_eq_bind, Option.bind_eq_some_iff] at h
    obtain ⟨a, ha, b, hb, h⟩ := h
    obtain rfl := Option.some.inj h
    refine ⟨⟨[a, b], rfl⟩, fun p hp c hc => ?_⟩
    simp only [List.mem_cons, List.not_mem_nil, or_false] at hp
    rcases hp with rfl | rfl | rfl
    · exact mem_of_mem_slice ha hc
    · exact mem_of_mem_slice hb hc
    · exact hc
  · obtain rfl := Option.some.inj h
    exact ⟨⟨[], rfl⟩, by simp⟩

theorem StorageService.piecesOf {hash : Text} {ps : List Text} (h : pieces hash = some ps) :
    PiecesOf hash ps := by
  simp only [pieces, Option.bind_eq_bind, Option.bind_eq_some_iff] at h
  obtain ⟨a, ha, h⟩ := h
  obtain rfl := Option.some.inj h
  refine ⟨⟨[a], rfl⟩, fun p hp c hc => ?_⟩
  simp only [List.mem_cons, List.not_mem_nil, or_false] at hp
  rcases hp with rfl | rfl
  · exact mem_of_mem_slice ha hc
  · exact hc

theorem PiecesOf.single (hash : Text) : PiecesOf hash [hash] := ⟨⟨[], rfl⟩, by simp⟩

/-- A zero byte in the hash makes every path built from it unusable. -/
theorem PiecesOf.nul_mem {hash : Text} {ps : List Text} (h : PiecesOf hash ps) (hnul : '\x00' ∈ hash)
    (base : Text) : '\x00' ∈ joinAll base ps := by
  obtain ⟨front, rfl⟩ := h.last
  rw [joinAll_concat]
  exact mem_join hnul

/-- Below a base without zero bytes, a hash without them gives a usable path. -/
theorem PiecesOf.usable {hash : Text} {ps : List Text} (h : PiecesOf hash ps) (hnul : '\x00' ∉ hash) {base : Text}
    (hne : base ≠ []) (hbase : '\x00' ∉ base) : joinAll base ps ≠ [] ∧ '\x00' ∉ joinAll base ps := by
  refine ⟨joinAll_ne_nil hne ps, fun hmem => ?_⟩
  rcases mem_of_mem_joinAll hmem with hmem | hmem | ⟨p, hp, hc⟩
  · exact hbase hmem
  · cases hmem
  · exact hnul (h.mem p hp _ hc)

/-! ## What the getters open -/

theorem moves_orPanic {R : Disk → Disk → Prop} {α β : Type} {o : Option α} {q : α → FileIo β}
    (hq : ∀ a, o = some a → Moves R (q a).run) : Moves R (orPanic o >>= q).run := by
  cases o with
  | none => exact trivial
  | some a => exact hq a rfl

theorem LocalStorage.moves_get (storage : LocalStorage) (hash : Text) {ps : List Text}
    (hps : ∀ p, storage.pathFor hash = some p → p ∈ ps) : Moves (OnlyOpens ps) (storage.get hash).run := by
  refine moves_orPanic fun p hp => ?_
  refine moves_bind (moves_read (hps p hp)) fun r => ?_
  exact moves_pure _

theorem WarmCache.moves_get (cache : WarmCache) (now : Nat) (hash : Text) {ps : List Text}
    (hps : ∀ p, cache.storage.pathFor hash = some p → p ∈ ps) :
    Moves (OnlyOpens ps) (cache.get now hash).run := by
  unfold get
  cases cache.index hash with
  | none => exact moves_pure none
  | some entry =>
    simp only
    split_ifs
    · exact moves_pure none
    · exact cache.storage.moves_get hash hps

theorem TieredStorage.moves_get (tiered : TieredStorage) (now : Nat) (hash : Text) {ps : List Text}
    (howned : ∀ p, tiered.ownedStorage.pathFor hash = some p → p ∈ ps)
    (hwarm : ∀ p, tiered.warmCache.storage.pathFor hash = some p → p ∈ ps) :
    Moves (OnlyOpens ps) (tiered.get now hash).run := by
  refine moves_bind (tiered.ownedStorage.moves_get hash howned) fun r => ?_
  cases r with
  | some content => exact moves_pure _
  | none =>
    refine moves_bind (tiered.warmCache.moves_get now hash hwarm) fun r => ?_
    cases r with
    | some content => exact moves_pure _
    | none => exact moves_pure _

namespace StorageService

variable (env : Env) (service : StorageService) (hash : Text) {ps : List Text}

theorem moves_getCached (hcache : join service.cacheDir hash ∈ ps) :
    Moves (OnlyOpens ps) (service.getCached hash).run := by
  unfold getCached
  cases service.enableCache with
  | false => exact moves_pure none
  | true =>
    refine moves_bind (moves_exists _) fun found => ?_
    cases found with
    | false => exact moves_pure none
    | true =>
      refine moves_bind (moves_read hcache) fun content => ?_
      exact moves_pure _

theorem moves_updateCache (content : ByteArray) (hcache : join service.cacheDir hash ∈ ps) :
    Moves (OnlyOpens ps) (service.updateCache hash content).run := by
  unfold updateCache
  cases service.enableCache with
  | false => exact moves_pure ()
  | true => exact moves_bind (moves_write hcache content) fun _ => moves_pure ()

theorem moves_getStored (hcache : join service.cacheDir hash ∈ ps)
    (hfiles : ∀ p, service.hashToPath hash = some p → p ∈ ps) :
    Moves (OnlyOpens ps) (getStored env service hash).run := by
  refine moves_orPanic fun p hp => ?_
  refine moves_bind (moves_exists p) fun found => ?_
  cases found with
  | false => exact moves_pure _
  | true =>
    refine moves_bind (moves_read (hfiles p hp)) fun r => ?_
    cases r with
    | error e => exact moves_pure _
    | ok content =>
      simp only
      split_ifs
      · exact moves_pure _
      · exact moves_bind (service.moves_updateCache hash content hcache) fun _ => moves_pure _

theorem moves_get (hcache : join service.cacheDir hash ∈ ps)
    (hfiles : ∀ p, service.hashToPath hash = some p → p ∈ ps) :
    Moves (OnlyOpens ps) (get env service hash).run := by
  refine moves_bind (service.moves_getCached hash hcache) fun r => ?_
  cases r with
  | some r => exact moves_pure r
  | none => exact moves_getStored env service hash hcache hfiles

end StorageService

/-! ## Staying inside -/

/-- Every place a program opens lies under one of the directories. -/
def OpensUnder {α : Type} (dirs : List Text) (p : FileIo α) : Prop :=
  ∀ d d' : Disk, Reach p.run d d' → ∀ l ∈ d'.opened, l ∈ d.opened ∨ ∃ dir ∈ dirs, resolve d.cwd dir <+: l

theorem OpensUnder.of_moves {α : Type} {ps dirs : List Text} {p : FileIo α} (h : Moves (OnlyOpens ps) p.run)
    (hps : ∀ path ∈ ps, '\x00' ∉ path → ∃ dir ∈ dirs, ∀ cwd, resolve cwd dir <+: resolve cwd path) :
    OpensUnder dirs p := by
  intro d d' hreach l hl
  rcases (h.reach hreach).2 l hl with hl | ⟨path, hpath, hnul, rfl⟩
  · exact .inl hl
  · obtain ⟨dir, hdir, hunder⟩ := hps path hpath hnul
    exact .inr ⟨dir, hdir, hunder d.cwd⟩

/-- A program that opens a path when every place is a directory opens it under one of its directories. -/
theorem OpensUnder.full {α : Type} {dirs : List Text} {p : FileIo α} (h : OpensUnder dirs p) {path : Text}
    {r : Except Panic α}
    (hrun : p.run.run (Disk.full []) = (r, { Disk.full [] with opened := [resolve [] path] })) :
    ∃ dir ∈ dirs, resolve [] dir <+: resolve [] path := by
  have hexec := exec_run p.run (Disk.full [])
  rw [hrun] at hexec
  rcases h _ _ hexec.reach (resolve [] path) (by simp) with hmem | hunder
  · simp [Disk.full] at hmem
  · exact hunder

def LocalStorage.StaysInside (hash : Text) : Prop :=
  ∀ storage : LocalStorage, OpensUnder [storage.baseDir] (storage.get hash)

def TieredStorage.StaysInside (hash : Text) : Prop :=
  ∀ (tiered : TieredStorage) (now : Nat),
    OpensUnder [tiered.ownedStorage.baseDir, tiered.warmCache.storage.baseDir] (tiered.get now hash)

def StorageService.StaysInside (hash : Text) : Prop :=
  ∀ (env : Env) (service : StorageService),
    OpensUnder [service.filesDir, service.cacheDir] (get env service hash)

/-- None of the three ways of building a path leads out of its directory. -/
structure Contained (hash : Text) : Prop where
  storage : ∀ ps ∈ LocalStorage.pieces hash, Stays ["storage".toList] ps
  files : ∀ ps ∈ StorageService.pieces hash, Stays [] ps
  cache : Stays [] [hash]

instance (hash : Text) : Decidable (Contained hash) :=
  decidable_of_iff ((∀ ps ∈ LocalStorage.pieces hash, Stays ["storage".toList] ps) ∧
      (∀ ps ∈ StorageService.pieces hash, Stays [] ps) ∧ Stays [] [hash])
    ⟨fun h => ⟨h.1, h.2.1, h.2.2⟩, fun h => ⟨h.storage, h.files, h.cache⟩⟩

theorem resolve_join_storage (cwd : Location) (dataDir : Text) :
    resolve cwd (join dataDir "storage".toList) = resolve cwd dataDir ++ ["storage".toList] := by
  rw [resolve_join cwd (by decide), segments_of_plain (by decide), walk_cons, walk_nil,
    enter_plain (by decide) (by decide) (by decide)]

section Contained

variable {hash : Text}

/-- A path of local storage lies under its directory. -/
theorem Contained.pathFor_under (h : '\x00' ∈ hash ∨ Contained hash) {storage : LocalStorage} {path : Text}
    (hpath : storage.pathFor hash = some path) (hnul : '\x00' ∉ path) (cwd : Location) :
    resolve cwd storage.baseDir <+: resolve cwd path := by
  rw [LocalStorage.pathFor_eq, Option.map_eq_some_iff] at hpath
  obtain ⟨ps, hps, rfl⟩ := hpath
  rcases h with h | h
  · exact absurd ((LocalStorage.piecesOf hps).nul_mem h _) hnul
  · obtain ⟨dataDir, hdir⟩ := storage.built
    rw [hdir]
    exact (h.storage ps hps).under (resolve_join_storage cwd dataDir)

theorem Contained.localStorage (h : '\x00' ∈ hash ∨ Contained hash) : LocalStorage.StaysInside hash := by
  intro storage
  have hmoves : Moves (OnlyOpens (storage.pathFor hash).toList) (storage.get hash).run :=
    storage.moves_get hash fun p hp => by simp [hp]
  refine .of_moves hmoves ?_
  intro path hpath hnul
  exact ⟨_, List.mem_singleton_self _, pathFor_under h (by simpa using hpath) hnul⟩

theorem Contained.tieredStorage (h : '\x00' ∈ hash ∨ Contained hash) : TieredStorage.StaysInside hash := by
  intro tiered now
  have hmoves : Moves
      (OnlyOpens ((tiered.ownedStorage.pathFor hash).toList ++ (tiered.warmCache.storage.pathFor hash).toList))
      (tiered.get now hash).run :=
    tiered.moves_get now hash (fun p hp => by simp [hp]) fun p hp => by simp [hp]
  refine .of_moves hmoves ?_
  intro path hpath hnul
  rcases List.mem_append.1 hpath with hpath | hpath
  · exact ⟨tiered.ownedStorage.baseDir, by simp, pathFor_under h (Option.mem_toList.1 hpath) hnul⟩
  · exact ⟨tiered.warmCache.storage.baseDir, by simp, pathFor_under h (Option.mem_toList.1 hpath) hnul⟩

theorem Contained.storageService (h : '\x00' ∈ hash ∨ Contained hash) : StorageService.StaysInside hash := by
  intro env service
  have hmoves : Moves (OnlyOpens (join service.cacheDir hash :: (service.hashToPath hash).toList))
      (StorageService.get env service hash).run :=
    StorageService.moves_get env service hash (by simp) fun p hp => by simp [hp]
  refine .of_moves hmoves ?_
  intro path hpath hnul
  rcases List.mem_cons.1 hpath with rfl | hpath
  · refine ⟨service.cacheDir, by simp, fun cwd => ?_⟩
    rcases h with h | h
    · exact absurd (mem_join h) hnul
    · exact h.cache.under (List.append_nil _).symm
  · refine ⟨service.filesDir, by simp, fun cwd => ?_⟩
    rw [StorageService.hashToPath_eq, Option.mem_toList, Option.map_eq_some_iff] at hpath
    obtain ⟨ps, hps, rfl⟩ := hpath
    rcases h with h | h
    · exact absurd ((StorageService.piecesOf hps).nul_mem h _) hnul
    · exact (h.files ps hps).under (List.append_nil _).symm

end Contained

/-! ## Where the paths lead out -/

section Escapes

variable {hash : Text} {ps : List Text}

theorem freshBase_usable (h : PiecesOf hash ps) (hnul : '\x00' ∉ hash) :
    joinAll (freshBase ps) ps ≠ [] ∧ '\x00' ∉ joinAll (freshBase ps) ps := by
  refine h.usable hnul (List.cons_ne_nil _ _) fun hmem => ?_
  rcases List.mem_cons.1 hmem with hmem | hmem
  · exact absurd hmem (by decide)
  · exact fresh_plain ps _ (by decide) hmem

theorem read_full {path : Text} (h : path ≠ [] ∧ '\x00' ∉ path) :
    (Disk.read path : FileIo _).run.run (Disk.full []) =
      (.ok (.error .isADirectory), { Disk.full [] with opened := [resolve [] path] }) := by
  rw [Disk.read, run_attempt, run_sql, readFile_full [] h.1 h.2]

theorem exists_full {path : Text} (h : path ≠ [] ∧ '\x00' ∉ path) :
    (Disk.exists path : FileIo Bool).run.run (Disk.full []) = (.ok true, Disk.full []) := by
  have hquery : (attempt (query fun d => (d.lookup path).isSome) : FileIo (Except IoError Bool)).run.run
      (Disk.full []) = (.ok (.ok true), Disk.full []) := by
    rw [run_attempt, run_query, lookup_full [] h.1 h.2]
    rfl
  rw [Disk.exists, run_bind_ok hquery]
  rfl

theorem LocalStorage.get_full {storage : LocalStorage} {path : Text} (hpath : storage.pathFor hash = some path)
    (h : path ≠ [] ∧ '\x00' ∉ path) :
    (storage.get hash).run.run (Disk.full []) =
      (.ok none, { Disk.full [] with opened := [resolve [] path] }) := by
  rw [LocalStorage.get, hpath, run_bind_ok (t := Disk.full []) (a := path) rfl, run_bind_ok (read_full h)]
  rfl

/-- Local storage below a directory whose name the pieces do not know. -/
theorem LocalStorage.stays_of_opensUnder (hps : pieces hash = some ps) (hnul : '\x00' ∉ hash)
    (h : OpensUnder [join (freshBase ps) "storage".toList] ((new (freshBase ps)).get hash)) :
    Stays ["storage".toList] ps := by
  have hbase : resolve [] (join (freshBase ps) "storage".toList) = fresh ps :: ["storage".toList] := by
    rw [resolve_join_storage, resolve_freshBase]
    rfl
  have hpath : (new (freshBase ps)).pathFor hash = some (joinAll (join (freshBase ps) "storage".toList) ps) := by
    rw [pathFor_eq, hps]
    rfl
  have husable : joinAll (join (freshBase ps) "storage".toList) ps ≠ [] ∧
      '\x00' ∉ joinAll (join (freshBase ps) "storage".toList) ps := by
    refine (piecesOf hps).usable hnul (join_ne_nil (List.cons_ne_nil _ _) _) fun hmem => ?_
    rcases mem_of_mem_join hmem with hmem | hmem | hmem
    · rcases List.mem_cons.1 hmem with hmem | hmem
      · exact absurd hmem (by decide)
      · exact fresh_plain ps _ (by decide) hmem
    · exact absurd hmem (by decide)
    · exact absurd hmem (by decide)
  obtain ⟨dir, hdir, hunder⟩ := h.full (get_full hpath husable)
  rw [List.mem_singleton.1 hdir] at hunder
  exact .of_under hbase hunder

/-- The storage service, with the cache off, below a directory whose name the pieces do not know. -/
theorem StorageService.stays_files (hps : pieces hash = some ps) (hnul : '\x00' ∉ hash)
    (h : StorageService.StaysInside hash) (env : Env) : Stays [] ps := by
  have hservice := h env ⟨freshBase ps, freshBase ps, false⟩
  have husable := freshBase_usable (piecesOf hps) hnul
  have hpath : hashToPath ⟨freshBase ps, freshBase ps, false⟩ hash = some (joinAll (freshBase ps) ps) := by
    rw [hashToPath_eq, hps]
    rfl
  have hrun : (get env ⟨freshBase ps, freshBase ps, false⟩ hash).run.run (Disk.full []) =
      (.ok (.error (.io .isADirectory)), { Disk.full [] with opened := [resolve [] (joinAll (freshBase ps) ps)] }) := by
    rw [get, run_bind_ok (t := Disk.full []) (a := none) rfl]
    simp only [getStored]
    rw [hpath, run_bind_ok (t := Disk.full []) (a := joinAll (freshBase ps) ps) rfl,
      run_bind_ok (exists_full husable), if_pos rfl, run_bind_ok (read_full husable)]
    rfl
  obtain ⟨dir, hdir, hunder⟩ := hservice.full hrun
  have hdir : dir = freshBase ps := by simpa using hdir
  rw [hdir] at hunder
  exact .of_under (resolve_freshBase [] ps) hunder

/-- The cache below a directory whose name the hash does not know. -/
theorem StorageService.stays_cache (hnul : '\x00' ∉ hash) (h : StorageService.StaysInside hash) (env : Env) :
    Stays [] [hash] := by
  have hservice := h env ⟨freshBase [hash], freshBase [hash], true⟩
  have husable : join (freshBase [hash]) hash ≠ [] ∧ '\x00' ∉ join (freshBase [hash]) hash :=
    freshBase_usable (.single hash) hnul
  have hcached : (getCached ⟨freshBase [hash], freshBase [hash], true⟩ hash).run.run (Disk.full []) =
      (.ok (some (.error (.io .isADirectory))),
        { Disk.full [] with opened := [resolve [] (join (freshBase [hash]) hash)] }) := by
    rw [getCached, if_pos rfl]
    simp only
    rw [run_bind_ok (exists_full husable), if_pos rfl, run_bind_ok (read_full husable)]
    rfl
  have hrun : (get env ⟨freshBase [hash], freshBase [hash], true⟩ hash).run.run (Disk.full []) =
      (.ok (.error (.io .isADirectory)),
        { Disk.full [] with opened := [resolve [] (join (freshBase [hash]) hash)] }) := by
    rw [get, run_bind_ok hcached]
    rfl
  obtain ⟨dir, hdir, hunder⟩ := hservice.full hrun
  have hdir : dir = freshBase [hash] := by simpa using hdir
  rw [hdir] at hunder
  exact .of_under (resolve_freshBase [] [hash]) hunder

end Escapes

/-! ## Contents and their hashes -/

namespace StorageService

variable (env : Env) (service : StorageService) (hash : Text) (d : Disk)

/-- Whatever content the service returns has the hash it was asked for. -/
def ContentAddressed : Prop :=
  ∀ (content : ByteArray) (d' : Disk), Exec (get env service hash).run d (.ok (.ok content)) d' →
    hashContent env content = hash

/-- What stands in the cache under the hash, if the cache is used and has it, has that hash. -/
def CacheHonest : Prop :=
  service.enableCache = true →
    ∀ content, d.contentAt (join service.cacheDir hash) = some content → hashContent env content = hash

variable {env service hash d}

theorem exists_store {p : Text} {b : Bool} {d' : Disk}
    (h : Exec (Disk.exists p : FileIo Bool).run d (.ok b) d') : d' = d := by
  obtain ⟨r, t, hr, h⟩ := exec_bind_ok.1 h
  have ht : t = d := by
    cases r with
    | ok b' => exact (exec_query_ok.1 (exec_attempt_ok.1 hr)).2
    | error e => exact exec_query_error.1 (exec_attempt_ok.1 hr)
  cases r with
  | ok b' => exact (exec_pure_ok.1 h).2.trans ht
  | error e => exact (exec_pure_ok.1 h).2.trans ht

theorem read_content {p : Text} {content : ByteArray} {d' : Disk}
    (h : Exec (Disk.read p : FileIo _).run d (.ok (.ok content)) d') : d.contentAt p = some content := by
  have hread := exec_sql_ok.1 (exec_attempt_ok.1 h)
  unfold readFile at hread
  cases hl : d.lookup p with
  | none => simp [hl] at hread
  | some l =>
    rw [hl] at hread
    cases hc : d.contentAt p with
    | none => simp [hc] at hread
    | some c =>
      rw [hc] at hread
      have heq : (Except.ok c : Except IoError ByteArray) = .ok content := (Prod.mk.inj hread).1
      rw [Except.ok.inj heq]

/-- The main storage hands out only what it has checked. -/
theorem getStored_addressed {content : ByteArray} {d' : Disk}
    (h : Exec (getStored env service hash).run d (.ok (.ok content)) d') : hashContent env content = hash := by
  obtain ⟨path, t, -, h⟩ := exec_bind_ok.1 h
  obtain ⟨found, t', -, h⟩ := exec_bind_ok.1 h
  cases found with
  | false => cases (exec_pure_ok.1 h).1
  | true =>
    obtain ⟨r, t'', -, h⟩ := exec_bind_ok.1 h
    cases r with
    | error e => cases (exec_pure_ok.1 h).1
    | ok c =>
      simp only at h
      split_ifs at h with hhash
      · cases (exec_pure_ok.1 h).1
      · obtain ⟨_, t₃, -, h⟩ := exec_bind_ok.1 h
        cases (exec_pure_ok.1 h).1
        exact not_not.1 hhash

/-- What comes from the cache is what stands there. -/
theorem getCached_content {content : ByteArray} {d' : Disk}
    (h : Exec (service.getCached hash).run d (.ok (some (.ok content))) d') :
    service.enableCache = true ∧ d.contentAt (join service.cacheDir hash) = some content := by
  unfold getCached at h
  split_ifs at h with hcache
  · refine ⟨hcache, ?_⟩
    obtain ⟨found, t, hfound, h⟩ := exec_bind_ok.1 h
    obtain rfl := exists_store hfound
    cases found with
    | false => cases (exec_pure_ok.1 h).1
    | true =>
      obtain ⟨r, t', hr, h⟩ := exec_bind_ok.1 h
      have hr' := (exec_pure_ok.1 h).1
      cases r with
      | error e => cases hr'
      | ok c =>
        cases hr'
        exact read_content hr
  · cases (exec_pure_ok.1 h).1

/-- A file in the cache is handed out as it is. -/
theorem get_of_cached {content : ByteArray} (hcache : service.enableCache = true)
    (h : d.contentAt (join service.cacheDir hash) = some content) :
    ∃ d', Exec (get env service hash).run d (.ok (.ok content)) d' := by
  obtain ⟨l, hl⟩ : ∃ l, d.lookup (join service.cacheDir hash) = some l := by
    cases hl : d.lookup (join service.cacheDir hash) with
    | none => simp [contentAt, hl] at h
    | some l => exact ⟨l, rfl⟩
  have hread : d.readFile (join service.cacheDir hash) = (.ok content, { d with opened := l :: d.opened }) := by
    rw [readFile, hl, h]
    rfl
  refine ⟨{ d with opened := l :: d.opened }, exec_bind_ok.2 ⟨some (.ok content), _, ?_, exec_pure_ok.2 ⟨rfl, rfl⟩⟩⟩
  rw [getCached, if_pos hcache]
  refine exec_bind_ok.2 ⟨true, d, ?_, ?_⟩
  · refine exec_bind_ok.2 ⟨.ok true, d, exec_attempt_ok.2 (exec_query_ok.2 ⟨?_, rfl⟩), exec_pure_ok.2 ⟨rfl, rfl⟩⟩
    rw [hl]
    rfl
  · exact exec_bind_ok.2 ⟨.ok content, _, exec_attempt_ok.2 (exec_sql_ok.2 hread), exec_pure_ok.2 ⟨rfl, rfl⟩⟩

theorem contentAddressed_iff : ContentAddressed env service hash d ↔ CacheHonest env service hash d := by
  constructor
  · intro h hcache content hcontent
    obtain ⟨d', hexec⟩ : ∃ d', Exec (get env service hash).run d (.ok (.ok content)) d' :=
      get_of_cached hcache hcontent
    exact h content d' hexec
  · intro h content d' hexec
    obtain ⟨r, t, hcached, hexec⟩ := exec_bind_ok.1 hexec
    cases r with
    | some r =>
      obtain ⟨hr, -⟩ := exec_pure_ok.1 hexec
      rw [← hr] at hcached
      obtain ⟨hcache, hcontent⟩ := getCached_content hcached
      exact h hcache content hcontent
    | none => exact getStored_addressed hexec

end StorageService

/-! ## All reads -/

/-- **Reads stay inside exactly when the hash is contained, and are content-addressed exactly when the cache
is honest**: the hash alone decides whether the getters stay in their directories, on every disk and below
all directories. -/
theorem content_reads (hash : Text) :
    ((LocalStorage.StaysInside hash ∧ TieredStorage.StaysInside hash ∧ StorageService.StaysInside hash) ↔
      '\x00' ∈ hash ∨ Contained hash) ∧
    ∀ (env : Env) (service : StorageService) (d : Disk),
      StorageService.ContentAddressed env service hash d ↔ StorageService.CacheHonest env service hash d := by
  refine ⟨⟨?_, ?_⟩, fun env service d => StorageService.contentAddressed_iff⟩
  · rintro ⟨hlocal, -, hservice⟩
    by_cases hnul : '\x00' ∈ hash
    · exact .inl hnul
    · have env : Env := .ofTables [] [] []
      refine .inr ⟨fun ps hps => ?_, fun ps hps => ?_, ?_⟩
      · exact LocalStorage.stays_of_opensUnder hps hnul (hlocal _)
      · exact StorageService.stays_files hps hnul hservice env
      · exact StorageService.stays_cache hnul hservice env
  · intro h
    exact ⟨Contained.localStorage h, Contained.tieredStorage h, Contained.storageService h⟩

example : Contained "abcdef1234".toList ∧ ¬ Contained "..foo".toList ∧ ¬ Contained "ab/cdef".toList := by decide

/-! ## A request for `/etc/passwd` -/

/-- A machine with a node whose directories are in `/data`. -/
def passwdDisk : Disk where
  cwd := []
  entries l :=
    if l = ["etc".toList, "passwd".toList] then some (.file "root".toUTF8)
    else if l ∈ [[], ["etc".toList], ["data".toList]] then some .directory
    else none
  opened := []

def passwdEnv : Env :=
  .ofTables [] [("root", "4813494d137e1631bba301d5acab6e7bb7aa74ce1185d456565ef51d737677b2")] []

def passwdService : StorageService := ⟨"/data/files".toList, "/data/cache".toList, true⟩

theorem passwd_get : (StorageService.get passwdEnv passwdService "/etc/passwd".toList).run.run passwdDisk =
    (.ok (.ok "root".toUTF8), { passwdDisk with opened := [["etc".toList, "passwd".toList]] }) := rfl

/-- The file is read from outside and handed out under its path. -/
theorem passwd_read : ¬ StorageService.StaysInside "/etc/passwd".toList ∧
    ¬ StorageService.ContentAddressed passwdEnv passwdService "/etc/passwd".toList passwdDisk := by
  have hexec := exec_run (StorageService.get passwdEnv passwdService "/etc/passwd".toList).run passwdDisk
  rw [passwd_get] at hexec
  constructor
  · intro h
    rcases h passwdEnv passwdService _ _ hexec.reach ["etc".toList, "passwd".toList] (by simp) with hmem | hunder
    · exact absurd hmem (by decide)
    · exact absurd hunder (by decide)
  · intro h
    have hhash := h _ _ hexec
    rw [StorageService.hashContent, passwdEnv, Env.ofTables_sha256Hex] at hhash
    exact absurd hhash (by decide)

end AlephCore
