import AlephCore.Lib.Faults
import AlephCore.Lib.UnixPath

/-!
# Disk — programs that open files

A `Disk` is a tree of files as one process sees it, with a journal of the places it has opened.  The
statements of a program name files by path texts; the system follows the text segment by segment and
needs a directory wherever it passes.  Any statement may also be refused, as any input or output may.
`OnlyOpens` bounds what a program can open by the texts it uses.
-/

open UnixPath

section Entry

local instance (priority := high) decidableEqFile : DecidableEq ByteArray := ByteArray.instDecidableEq

/-- What stands at a place of the tree. -/
inductive Entry where
  | directory
  | file (bytes : ByteArray)
  deriving DecidableEq

end Entry

inductive IoError where
  | notFound
  | isADirectory
  | other (message : String)
  deriving DecidableEq

structure Disk where
  /-- The working directory of the process. -/
  cwd : Location
  entries : Location → Option Entry
  /-- Every place opened so far. -/
  opened : List Location

namespace Disk

open ProgE Prog

variable {ε : Type}

/-- Follow one segment: it starts in a directory and leads to something that exists. -/
def follow (d : Disk) (l : Location) (s : Name) : Option Location :=
  if d.entries l = some .directory ∧ (d.entries (enter l s)).isSome then some (enter l s) else none

/-- Where following segments from the start of a path leads. -/
def followAll (d : Disk) (p : Text) (ss : List Name) : Option Location :=
  ss.foldlM d.follow (if isAbsolute p then [] else d.cwd)

/-- The place of what exists under a path.  The empty text and texts with a zero byte name nothing. -/
def lookup (d : Disk) (p : Text) : Option Location :=
  if p = [] ∨ '\x00' ∈ p then none else d.followAll p (segments p)

/-- The bytes of the file under a path. -/
def contentAt (d : Disk) (p : Text) : Option ByteArray :=
  match (d.lookup p).bind d.entries with
  | some (.file bytes) => some bytes
  | _ => none

/-- The place where a file may be created or overwritten under a path. -/
def target (d : Disk) (p : Text) : Option Location :=
  if p = [] ∨ '\x00' ∈ p then none
  else
    match d.followAll p (segments p).dropLast, (segments p).getLast? with
    | some dir, some s =>
      if d.entries dir = some .directory ∧ s ∉ [[], ['.'], ['.', '.']] ∧ d.entries (enter dir s) ≠ some .directory
      then some (enter dir s) else none
    | _, _ => none

/-- Open what stands under a path and read it to its end. -/
def readFile (d : Disk) (p : Text) : Except IoError ByteArray × Disk :=
  match d.lookup p with
  | none => (.error .notFound, d)
  | some l => ((d.contentAt p).elim (.error .isADirectory) .ok, { d with opened := l :: d.opened })

/-- Open or create the file under a path and replace its content. -/
def writeFile (d : Disk) (p : Text) (bytes : ByteArray) : Except IoError Unit × Disk :=
  match d.target p with
  | none => (.error .notFound, d)
  | some l =>
    (.ok (), { d with
      entries := fun k => if k = l then some (.file bytes) else d.entries k
      opened := l :: d.opened })

/-! ## Statements -/

/-- Does something exist under the path?  An error counts as no. -/
def «exists» (p : Text) : ProgE Disk IoError ε Bool := do
  match ← attempt (query fun d => (d.lookup p).isSome) with
  | .ok b => pure b
  | .error _ => pure false

def read (p : Text) : ProgE Disk IoError ε (Except IoError ByteArray) :=
  attempt (sql fun d => d.readFile p)

def write (p : Text) (bytes : ByteArray) : ProgE Disk IoError ε (Except IoError Unit) :=
  attempt (sql fun d => d.writeFile p bytes)

/-! ## Where a path leads -/

theorem follow_eq {d : Disk} {l l' : Location} {s : Name} (h : d.follow l s = some l') : l' = enter l s := by
  unfold follow at h
  split_ifs at h
  exact (Option.some.inj h).symm

theorem foldlM_follow_eq {d : Disk} {l l' : Location} {ss : List Name} (h : ss.foldlM d.follow l = some l') :
    l' = walk l ss := by
  induction ss generalizing l with
  | nil => exact (Option.some.inj h).symm
  | cons s ss ih =>
    rw [List.foldlM_cons, Option.bind_eq_bind, Option.bind_eq_some_iff] at h
    obtain ⟨m, hm, h⟩ := h
    rw [walk_cons, ← follow_eq hm]
    exact ih h

/-- What exists under a path is at the place the path names. -/
theorem lookup_eq {d : Disk} {p : Text} {l : Location} (h : d.lookup p = some l) :
    '\x00' ∉ p ∧ l = resolve d.cwd p := by
  unfold lookup at h
  split_ifs at h with hbad
  exact ⟨fun hnul => hbad (.inr hnul), foldlM_follow_eq h⟩

/-- A file is created at the place the path names. -/
theorem target_eq {d : Disk} {p : Text} {l : Location} (h : d.target p = some l) :
    '\x00' ∉ p ∧ l = resolve d.cwd p := by
  unfold target at h
  split_ifs at h with hbad
  cases hdir : d.followAll p (segments p).dropLast with
  | none => simp [hdir] at h
  | some dir =>
    cases hlast : (segments p).getLast? with
    | none => simp [hdir, hlast] at h
    | some s =>
      rw [hdir, hlast] at h
      simp only at h
      split_ifs at h
      have hsegs : segments p = (segments p).dropLast ++ [s] := (List.dropLast_append_getLast? s hlast).symm
      refine ⟨fun hnul => hbad (.inr hnul), ?_⟩
      rw [← Option.some.inj h, foldlM_follow_eq hdir, resolve, hsegs, walk_append, List.dropLast_concat]
      rfl

/-! ## What a program can open -/

/-- Every place opened meanwhile is named by one of the texts. -/
def OnlyOpens (ps : List Text) (d d' : Disk) : Prop :=
  d'.cwd = d.cwd ∧ ∀ l ∈ d'.opened, l ∈ d.opened ∨ ∃ p ∈ ps, '\x00' ∉ p ∧ l = resolve d.cwd p

section OnlyOpens

variable {ps : List Text}

instance : IsPreorder Disk (OnlyOpens ps) where
  refl d := ⟨rfl, fun l hl => .inl hl⟩
  trans d d' d'' h h' := by
    refine ⟨h'.1.trans h.1, fun l hl => ?_⟩
    rcases h'.2 l hl with hl | ⟨p, hp, hnul, rfl⟩
    · exact h.2 l hl
    · rw [h.1]
      exact .inr ⟨p, hp, hnul, rfl⟩

theorem OnlyOpens.cons {d : Disk} {l : Location} {p : Text} (hp : p ∈ ps)
    (h : '\x00' ∉ p ∧ l = resolve d.cwd p) (entries : Location → Option Entry) :
    OnlyOpens ps d { d with entries, opened := l :: d.opened } := by
  refine ⟨rfl, fun k hk => ?_⟩
  rcases List.mem_cons.1 hk with rfl | hk
  · exact .inr ⟨p, hp, h⟩
  · exact .inl hk

theorem moves_exists (p : Text) : Moves (OnlyOpens ps) («exists» p : ProgE Disk IoError ε Bool).run := by
  refine moves_bind (moves_attempt (moves_query _)) fun r => ?_
  cases r with
  | ok b => exact moves_pure b
  | error e => exact moves_pure false

theorem moves_read {p : Text} (hp : p ∈ ps) : Moves (OnlyOpens ps) (read p : ProgE Disk IoError ε _).run := by
  refine moves_attempt (moves_sql fun d => ?_)
  unfold readFile
  cases h : d.lookup p with
  | none => exact refl_of (OnlyOpens ps) d
  | some l => exact .cons hp (lookup_eq h) d.entries

theorem moves_write {p : Text} (hp : p ∈ ps) (bytes : ByteArray) :
    Moves (OnlyOpens ps) (write p bytes : ProgE Disk IoError ε _).run := by
  refine moves_attempt (moves_sql fun d => ?_)
  unfold writeFile
  cases h : d.target p with
  | none => exact refl_of (OnlyOpens ps) d
  | some l => exact .cons hp (target_eq h) _

end OnlyOpens

/-! ## A tree that has everything -/

/-- The tree in which every place is a directory. -/
def full (cwd : Location) : Disk where
  cwd := cwd
  entries _ := some .directory
  opened := []

theorem lookup_full (cwd : Location) {p : Text} (hp : p ≠ []) (hnul : '\x00' ∉ p) :
    (full cwd).lookup p = some (resolve cwd p) := by
  have hfollow : (full cwd).follow = fun l s => some (enter l s) := by
    funext l s
    simp [follow, full]
  rw [lookup, if_neg (by simp [hp, hnul]), followAll, hfollow]
  exact List.foldlM_pure

/-- Reading there opens the place the path names. -/
theorem readFile_full (cwd : Location) {p : Text} (hp : p ≠ []) (hnul : '\x00' ∉ p) :
    (full cwd).readFile p = (.error .isADirectory, { full cwd with opened := [resolve cwd p] }) := by
  have hlookup := lookup_full cwd hp hnul
  rw [readFile, contentAt, hlookup]
  rfl

end Disk
