import AlephCore.Services.WarmCache

/-!
# CacheAgreement — the index of the warm cache, its files and its limit

A `put` relies on three things it does not lock: that the room it has made is still there when it enters the content,
that nobody reads the index while its file is incomplete, and that the file keeps its name until the entry is made.
`Calm` says of each step that it leaves these alone, and along calm steps the index stays within the limit and agrees
with the files.
-/

namespace AlephCore

open UnixPath

namespace CacheSetup

variable {c : CacheSetup} {s t : CacheState} {stuck : List Text} {hash : Text}

/-! ## What is promised -/

/-- The representation invariant: the limit while no `put` is in progress, and a file for each entry. -/
structure Sound (c : CacheSetup) (s : CacheState) : Prop where
  bounded : s.puts.rows = [] → (s.index.total fun e => e.2.size) ≤ c.maxBytes
  stored : ∀ e ∈ s.index, ∃ bytes, c.fileOf s e.1 = some bytes ∧ bytes.length = e.2.size
  returned : ∀ hash, c.exists s hash = true → (c.get s hash).isSome

/-- The hash has an entry or is being put. -/
def InUse (s : CacheState) (hash : Text) : Prop := (∃ e ∈ s.index, e.1 = hash) ∨ ∃ p ∈ s.puts, p.hash = hash

/-- No other hash in use has its file at the same place. -/
def Apart (c : CacheSetup) (s : CacheState) (hash : Text) : Prop :=
  ∀ other, InUse s other → ∀ l, c.place other = some l → c.place hash = some l → other = hash

/-- No `put` of the hash has its file open. -/
def Closed (s : CacheState) (hash : Text) : Prop := ∀ p ∈ s.puts, p.hash = hash → p.stage = .roomy

/-- **A calm step.**  A content that is put fits, alone or along with all that is there and on its way; its file is
opened when the hash has no entry (or both are empty) and no other call has it open; no file is removed that a call has
open; and hashes with files at the same place are the same. -/
def Calm (c : CacheSetup) (s : CacheState) : Event → Prop
  | .put _ hash content _ _ => Apart c s hash ∧ (s.puts.rows = [] ∧ content.length ≤ c.maxBytes ∨
      (s.index.total fun e => e.2.size) + (s.puts.total fun p => p.content.length) + content.length ≤ c.maxBytes)
  | .create task => ∀ p ∈ s.puts, p.task = task → Closed s p.hash ∧
      ∀ e ∈ s.index, e.1 = p.hash → e.2.size = 0 ∧ p.content = []
  | .remove hash _ => Apart c s hash ∧ Closed s hash
  | .evictExpired _ => ∀ e ∈ s.index, c.Expired s e.2 → Closed s e.1
  | _ => True

/-- Runs of calm steps. -/
inductive CalmRun (c : CacheSetup) : CacheState → CacheState → Prop
  | refl (s : CacheState) : CalmRun c s s
  | step {s t u : CacheState} {event : Event} (run : CalmRun c s t) (calm : Calm c t event)
      (h : c.step t event = some u) : CalmRun c s u

/-! ## The invariant -/

structure Inv (c : CacheSetup) (s : CacheState) : Prop where
  /-- There is room for the entries and for what is on its way. -/
  room : (s.index.total fun e => e.2.size) + (s.puts.total fun p => p.content.length) ≤ c.maxBytes
  stored : ∀ e ∈ s.index, ∃ bytes, c.fileOf s e.1 = some bytes ∧ bytes.length = e.2.size
  written : ∀ p ∈ s.puts, ∀ offset linked, p.stage = .writing offset linked →
    linked = true ∧ ∃ bytes, c.fileOf s p.hash = some bytes ∧ bytes.length = offset
  apart : ∀ hash, InUse s hash → Apart c s hash
  /-- An open file is that of one call only. -/
  alone : ∀ p ∈ s.puts, ∀ q ∈ s.puts, p.hash = q.hash → p.stage ≠ .roomy → q.stage ≠ .roomy → p = q
  /-- There is no entry for it yet, or both are empty. -/
  fresh : ∀ p ∈ s.puts, p.stage ≠ .roomy → ∀ e ∈ s.index, e.1 = p.hash → p.content = []

theorem fileOf_eq {l : Location} (h : c.place hash = some l) : c.fileOf s hash = s.files l := by
  rw [fileOf, h, Option.bind_some]

theorem exists_place {bytes : List UInt8} (h : c.fileOf s hash = some bytes) :
    ∃ l, c.place hash = some l ∧ s.files l = some bytes := Option.bind_eq_some_iff.1 h

theorem Inv.sound (h : Inv c s) : Sound c s := by
  refine ⟨fun _ => ?_, h.stored, fun hash hexists => ?_⟩
  · have hroom := h.room
    omega
  · unfold «exists» at hexists
    unfold get
    cases hfind : s.index.find? hash with
    | none =>
      rw [hfind] at hexists
      cases hexists
    | some e =>
      obtain ⟨he, rfl⟩ := Table.find?_eq_some.1 hfind
      obtain ⟨bytes, hbytes, -⟩ := h.stored e he
      rw [hfind] at hexists
      dsimp only at hexists ⊢
      rw [if_neg (of_decide_eq_true hexists), hbytes]
      rfl

theorem inv_new {files : Location → Option (List UInt8)} {now : Nat} : Inv c (new files now) := by
  refine ⟨Nat.zero_le _, fun e he => ?_, fun p hp => ?_, fun hash hash' => ?_, fun p hp => ?_, fun p hp => ?_⟩
  · exact absurd he List.not_mem_nil
  · exact absurd hp List.not_mem_nil
  · rcases hash' with ⟨e, he, -⟩ | ⟨p, hp, -⟩
    · exact absurd he List.not_mem_nil
    · exact absurd hp List.not_mem_nil
  · exact absurd hp List.not_mem_nil
  · exact absurd hp List.not_mem_nil

/-! ## Dropping -/

/-- No call has a file open at the place of the hash. -/
def Quiet (c : CacheSetup) (s : CacheState) (hash : Text) : Prop :=
  ∀ p ∈ s.puts, ∀ l, c.place p.hash = some l → c.place hash = some l → p.stage = .roomy

theorem unlink_of_quiet (h : Quiet c s hash) :
    (c.unlink s hash).index = s.index ∧ (c.unlink s hash).puts = s.puts ∧ (c.unlink s hash).now = s.now ∧
      ∀ l, c.place hash ≠ some l → (c.unlink s hash).files l = s.files l := by
  unfold unlink
  cases hplace : c.place hash with
  | none => exact ⟨rfl, rfl, rfl, fun _ _ => rfl⟩
  | some l =>
    refine ⟨rfl, Table.update_eq_self PutCall.task_unlinked fun p hp hl => ?_, rfl, fun k hk => ?_⟩
    · unfold PutCall.unlinked
      rw [h p hp l hl hplace]
    · exact Function.update_of_ne (fun hkl => hk (congrArg some hkl.symm)) _ _

theorem foldl_unlink {hashes : List Text} (h : ∀ hash ∈ hashes, Quiet c s hash) :
    (hashes.foldl c.unlink s).index = s.index ∧ (hashes.foldl c.unlink s).puts = s.puts ∧
      (hashes.foldl c.unlink s).now = s.now ∧
      ∀ l, (∀ hash ∈ hashes, c.place hash ≠ some l) → (hashes.foldl c.unlink s).files l = s.files l := by
  induction hashes generalizing s with
  | nil => exact ⟨rfl, rfl, rfl, fun _ _ => rfl⟩
  | cons hash hashes ih =>
    obtain ⟨hindex, hputs, hnow, hfiles⟩ := unlink_of_quiet (h hash List.mem_cons_self)
    have hrest : ∀ other ∈ hashes, Quiet c (c.unlink s hash) other := by
      intro other hother p hp
      rw [hputs] at hp
      exact h other (List.mem_cons_of_mem _ hother) p hp
    obtain ⟨hindex', hputs', hnow', hfiles'⟩ := ih hrest
    refine ⟨hindex'.trans hindex, hputs'.trans hputs, hnow'.trans hnow, fun l hl => ?_⟩
    rw [List.foldl_cons, hfiles' l fun other hother => hl other (List.mem_cons_of_mem _ hother)]
    exact hfiles l (hl hash List.mem_cons_self)

/-- What dropping entries does if no call has their files open. -/
structure Dropped (c : CacheSetup) (s t : CacheState) (hashes : List Text) : Prop where
  index : t.index = s.index.delete fun e => e.1 ∈ hashes
  puts : t.puts = s.puts
  now : t.now = s.now
  files : ∀ l, (∀ hash ∈ hashes, c.place hash ≠ some l) → t.files l = s.files l

theorem dropped_of_quiet {hashes : List Text} (h : ∀ hash ∈ hashes, Quiet c s hash) :
    Dropped c s (c.drop stuck s hashes) hashes := by
  have hmem : ∀ hash ∈ hashes.filter (fun hash => hash ∉ stuck), hash ∈ hashes := fun hash hh => (List.mem_filter.1 hh).1
  obtain ⟨hindex, hputs, hnow, hfiles⟩ :=
    foldl_unlink (s := { s with index := s.index.delete fun e => e.1 ∈ hashes }) fun hash hh => h hash (hmem hash hh)
  exact ⟨hindex, hputs, hnow, fun l hl => hfiles l fun hash hh => hl hash (hmem hash hh)⟩

theorem Dropped.inUse {hashes : List Text} (hd : Dropped c s t hashes) (h : InUse t hash) : InUse s hash := by
  rcases h with ⟨e, he, rfl⟩ | ⟨p, hp, rfl⟩
  · rw [hd.index, Table.mem_delete] at he
    exact .inl ⟨e, he.1, rfl⟩
  · rw [hd.puts] at hp
    exact .inr ⟨p, hp, rfl⟩

theorem quiet_of_closed (hapart : Apart c s hash) (hclosed : Closed s hash) : Quiet c s hash :=
  fun p hp l hl hl' => hclosed p hp (hapart p.hash (.inr ⟨p, hp, rfl⟩) l hl hl')

/-- **Dropping entries keeps the invariant.** -/
theorem Inv.dropped {hashes : List Text} (h : Inv c s) (hd : Dropped c s t hashes)
    (hapart : ∀ hash ∈ hashes, Apart c s hash) (hclosed : ∀ hash ∈ hashes, Closed s hash) : Inv c t := by
  have hindex : ∀ e ∈ t.index, e ∈ s.index ∧ e.1 ∉ hashes := by
    intro e he
    rw [hd.index] at he
    exact Table.mem_delete.1 he
  have hfile : ∀ other, InUse s other → other ∉ hashes → c.fileOf t other = c.fileOf s other := by
    intro other huse hother
    unfold fileOf
    cases hplace : c.place other with
    | none => rfl
    | some l =>
      refine hd.files l fun hash hh hl => hother ?_
      rw [hapart hash hh other huse l hplace hl]
      exact hh
  refine ⟨?_, fun e he => ?_, fun p hp offset linked hstage => ?_, fun hash huse other huse' => ?_, fun p hp q hq => ?_,
    fun p hp hopen e he => ?_⟩
  · have hroom := h.room
    have hle := Table.total_delete_le (w := fun e => e.2.size) s.index fun e => e.1 ∈ hashes
    rw [hd.index, hd.puts]
    omega
  · obtain ⟨he, hnot⟩ := hindex e he
    rw [hfile e.1 (.inl ⟨e, he, rfl⟩) hnot]
    exact h.stored e he
  · rw [hd.puts] at hp
    have hnot : p.hash ∉ hashes := by
      intro hh
      rw [hclosed p.hash hh p hp rfl] at hstage
      cases hstage
    rw [hfile p.hash (.inr ⟨p, hp, rfl⟩) hnot]
    exact h.written p hp offset linked hstage
  · exact h.apart hash (hd.inUse huse) other (hd.inUse huse')
  · rw [hd.puts] at hp hq
    exact h.alone p hp q hq
  · rw [hd.puts] at hp
    exact h.fresh p hp hopen e (hindex e he).1

theorem Inv.drop {hashes : List Text} (h : Inv c s) (hapart : ∀ hash ∈ hashes, Apart c s hash)
    (hclosed : ∀ hash ∈ hashes, Closed s hash) (stuck : List Text) : Inv c (c.drop stuck s hashes) :=
  h.dropped (dropped_of_quiet fun hash hh => quiet_of_closed (hapart hash hh) (hclosed hash hh)) hapart hclosed

/-! ## Making room -/

/-- Either enough is freed or everything goes. -/
theorem oldest_spec (target freed : Nat) (order : List (Text × CacheEntry)) :
    target ≤ freed + ((order.filter fun e => e.1 ∈ oldest target freed order).map fun e => e.2.size).sum ∨
      ∀ e ∈ order, e.1 ∈ oldest target freed order := by
  induction order generalizing freed with
  | nil => exact .inr fun e he => absurd he List.not_mem_nil
  | cons e rest ih =>
    unfold oldest
    split_ifs with henough
    · exact .inl (Nat.le_add_right_of_le henough)
    · rcases ih (freed + e.2.size) with htarget | hall
      · have hsub : (rest.filter fun e' => e'.1 ∈ oldest target (freed + e.2.size) rest).Sublist
            (rest.filter fun e' => e'.1 ∈ e.1 :: oldest target (freed + e.2.size) rest) := by
          refine List.monotone_filter_right rest fun e' he' => ?_
          exact decide_eq_true (List.mem_cons_of_mem _ (of_decide_eq_true he'))
        have hle := (hsub.map fun e : Text × CacheEntry => e.2.size).sum_le_sum fun _ _ => Nat.zero_le _
        rw [List.filter_cons_of_pos (by simp), List.map_cons, List.sum_cons]
        exact .inl (by omega)
      · refine .inr fun e' he' => ?_
        rcases List.mem_cons.1 he' with rfl | he'
        · exact List.mem_cons_self
        · exact List.mem_cons_of_mem _ (hall e' he')

/-- **Eviction makes room** for what fits at all. -/
theorem total_toEvict {index : CacheIndex} {order : List (Text × CacheEntry)} {needed : Nat}
    (hperm : order.Perm index.rows) (hfits : needed ≤ c.maxBytes)
    (hbound : (index.total fun e => e.2.size) ≤ c.maxBytes) :
    ((index.delete fun e => e.1 ∈ c.toEvict index needed order).total fun e => e.2.size) + needed ≤ c.maxBytes := by
  by_cases hroom : (index.total fun e => e.2.size) + needed ≤ c.maxBytes
  · have hle := Table.total_delete_le (w := fun e => e.2.size) index fun e => e.1 ∈ c.toEvict index needed order
    omega
  · have hevict : c.toEvict index needed order =
        oldest (needed - (c.maxBytes - index.total fun e => e.2.size)) 0 order := by
      unfold toEvict
      dsimp only
      rw [if_neg hroom]
    rw [hevict]
    have hsplit := Table.total_delete (w := fun e => e.2.size) index fun e =>
      e.1 ∈ oldest (needed - (c.maxBytes - index.total fun e => e.2.size)) 0 order
    have hsum := ((hperm.filter fun e =>
      e.1 ∈ oldest (needed - (c.maxBytes - index.total fun e => e.2.size)) 0 order).map fun e => e.2.size).sum_eq
    rcases oldest_spec (needed - (c.maxBytes - index.total fun e => e.2.size)) 0 order with htarget | hall
    · omega
    · rw [List.filter_eq_self.2 fun e he => decide_eq_true (hall e he), Table.sum_of_perm hperm] at hsum
      omega

theorem mem_of_mem_oldest {target freed : Nat} {order : List (Text × CacheEntry)}
    (h : hash ∈ oldest target freed order) : ∃ e ∈ order, e.1 = hash := by
  induction order generalizing freed with
  | nil => exact absurd h List.not_mem_nil
  | cons e rest ih =>
    unfold oldest at h
    split_ifs at h
    · exact absurd h List.not_mem_nil
    · rcases List.mem_cons.1 h with rfl | h
      · exact ⟨e, List.mem_cons_self, rfl⟩
      · obtain ⟨e', he', rfl⟩ := ih h
        exact ⟨e', List.mem_cons_of_mem _ he', rfl⟩

/-- Only entries are evicted, and none if there is room. -/
theorem mem_toEvict {index : CacheIndex} {order : List (Text × CacheEntry)} {needed : Nat}
    (hperm : order.Perm index.rows) (h : hash ∈ c.toEvict index needed order) :
    (∃ e ∈ index, e.1 = hash) ∧ c.maxBytes < (index.total fun e => e.2.size) + needed := by
  unfold toEvict at h
  dsimp only at h
  split_ifs at h with hroom
  · exact absurd h List.not_mem_nil
  · obtain ⟨e, he, rfl⟩ := mem_of_mem_oldest h
    exact ⟨⟨e, hperm.mem_iff.1 he, rfl⟩, by omega⟩

theorem Inv.ensureCapacity {order : List (Text × CacheEntry)} {needed : Nat} (h : Inv c s)
    (hperm : order.Perm s.index.rows)
    (hcalm : s.puts.rows = [] ∧ needed ≤ c.maxBytes ∨
      (s.index.total fun e => e.2.size) + (s.puts.total fun p => p.content.length) + needed ≤ c.maxBytes)
    (stuck : List Text) :
    Inv c (c.ensureCapacity stuck s needed order) ∧
      Dropped c s (c.ensureCapacity stuck s needed order) (c.toEvict s.index needed order) ∧
      ((c.ensureCapacity stuck s needed order).index.total fun e => e.2.size) +
        ((c.ensureCapacity stuck s needed order).puts.total fun p => p.content.length) + needed ≤ c.maxBytes := by
  have hapart : ∀ hash ∈ c.toEvict s.index needed order, Apart c s hash :=
    fun hash hh => h.apart hash (.inl (mem_toEvict hperm hh).1)
  have hclosed : ∀ hash ∈ c.toEvict s.index needed order, Closed s hash := by
    intro hash hh p hp _
    have hover := (mem_toEvict hperm hh).2
    rcases hcalm with ⟨hnone, -⟩ | hfits
    · rw [Table.mem_def, hnone] at hp
      exact absurd hp List.not_mem_nil
    · omega
  have hd : Dropped c s (c.ensureCapacity stuck s needed order) (c.toEvict s.index needed order) :=
    dropped_of_quiet fun hash hh => quiet_of_closed (hapart hash hh) (hclosed hash hh)
  refine ⟨h.dropped hd hapart hclosed, hd, ?_⟩
  rw [hd.index, hd.puts]
  rcases hcalm with ⟨hnone, hfits⟩ | hfits
  · have hzero : (s.puts.total fun p => p.content.length) = 0 := by
      rw [Table.total, hnone]
      rfl
    have hroom := h.room
    have hevict := total_toEvict hperm hfits (by omega)
    omega
  · have hle := Table.total_delete_le (w := fun e => e.2.size) s.index fun e => e.1 ∈ c.toEvict s.index needed order
    omega

/-! ## One step -/

theorem mem_setStage {p q : PutCall} {stage : Stage} (hp : p ∈ s.puts) :
    q ∈ setStage s p.task stage ↔ q ∈ s.puts ∧ q.task ≠ p.task ∨ q = { p with stage } := by
  rw [setStage, Table.mem_update]
  refine or_congr_right ⟨?_, fun hq => ⟨p, hp, rfl, hq⟩⟩
  rintro ⟨r, hr, htask, rfl⟩
  rw [Table.eq_of_key hr hp htask]

theorem total_setStage {task : Nat} {stage : Stage} :
    ((setStage s task stage).total fun p => p.content.length) = s.puts.total fun p => p.content.length :=
  Table.total_update fun _ => rfl

/-- **Writing to a file that no one else has open and no entry speaks of** keeps the invariant. -/
theorem Inv.writes {p : PutCall} {l : Location} {bytes : List UInt8} (h : Inv c s) (hp : p ∈ s.puts)
    (hplace : c.place p.hash = some l) (hothers : ∀ q ∈ s.puts, q.hash = p.hash → q.task ≠ p.task → q.stage = .roomy)
    (hentries : ∀ e ∈ s.index, e.1 = p.hash → p.content = [] ∧ bytes.length = e.2.size) :
    Inv c { s with
      files := Function.update s.files l (some bytes)
      puts := setStage s p.task (.writing bytes.length true) } := by
  have huse : InUse s p.hash := .inr ⟨p, hp, rfl⟩
  have huse' : ∀ {hash}, InUse { s with
      files := Function.update s.files l (some bytes)
      puts := setStage s p.task (.writing bytes.length true) } hash → InUse s hash := by
    rintro hash (he | ⟨q, hq, rfl⟩)
    · exact .inl he
    · rcases (mem_setStage hp).1 hq with ⟨hq, -⟩ | rfl
      · exact .inr ⟨q, hq, rfl⟩
      · exact huse
  have hother : ∀ hash, InUse s hash → hash ≠ p.hash →
      (c.place hash).bind (Function.update s.files l (some bytes)) = c.fileOf s hash := by
    intro hash hhash hne
    unfold fileOf
    cases hk : c.place hash with
    | none => rfl
    | some k =>
      refine Function.update_of_ne (fun hkl => hne ?_) _ _
      exact h.apart p.hash huse hash hhash k hk (hkl ▸ hplace)
  have hself : (c.place p.hash).bind (Function.update s.files l (some bytes)) = some bytes := by
    rw [hplace, Option.bind_some, Function.update_self]
  refine ⟨?_, fun e he => ?_, fun q hq offset linked hstage => ?_, fun hash hhash other hother' => ?_,
    fun q hq r hr heq hopen hopen' => ?_, fun q hq hopen e he heq => ?_⟩
  · rw [total_setStage]
    exact h.room
  · by_cases heq : e.1 = p.hash
    · refine ⟨bytes, ?_, (hentries e he heq).2⟩
      rw [fileOf, heq]
      exact hself
    · rw [fileOf, hother e.1 (.inl ⟨e, he, rfl⟩) heq]
      exact h.stored e he
  · rcases (mem_setStage hp).1 hq with ⟨hq, htask⟩ | rfl
    · by_cases heq : q.hash = p.hash
      · rw [hothers q hq heq htask] at hstage
        cases hstage
      · rw [fileOf, hother q.hash (.inr ⟨q, hq, rfl⟩) heq]
        exact h.written q hq offset linked hstage
    · obtain ⟨rfl, rfl⟩ := Stage.writing.inj hstage
      exact ⟨rfl, bytes, hself, rfl⟩
  · exact h.apart hash (huse' hhash) other (huse' hother')
  · rcases (mem_setStage hp).1 hq with ⟨hq, hqtask⟩ | rfl <;> rcases (mem_setStage hp).1 hr with ⟨hr, hrtask⟩ | rfl
    · exact h.alone q hq r hr heq hopen hopen'
    · exact absurd (hothers q hq heq hqtask) hopen
    · exact absurd (hothers r hr heq.symm hrtask) hopen'
    · rfl
  · rcases (mem_setStage hp).1 hq with ⟨hq, htask⟩ | rfl
    · exact h.fresh q hq hopen e he heq
    · exact (hentries e he heq).1

theorem length_overwrite {old chunk : List UInt8} : (overwrite old old.length chunk).length = old.length + chunk.length := by
  rw [overwrite, Nat.sub_self, List.take_length, List.replicate_zero, List.append_nil, List.length_append,
    List.length_append, List.length_drop]
  omega

/-- A call returns, having entered its content or not. -/
theorem Inv.returns {task : Nat} (h : Inv c s) : Inv c { s with puts := s.puts.delete fun q => q.task = task } := by
  have hputs : ∀ {q}, q ∈ s.puts.delete (fun q => q.task = task) → q ∈ s.puts := fun hq => (Table.mem_delete.1 hq).1
  have huse : ∀ {hash}, InUse { s with puts := s.puts.delete fun q => q.task = task } hash → InUse s hash := by
    rintro hash (he | ⟨q, hq, rfl⟩)
    · exact .inl he
    · exact .inr ⟨q, hputs hq, rfl⟩
  refine ⟨?_, h.stored, fun q hq => h.written q (hputs hq), fun hash hhash other hother => ?_,
    fun q hq r hr => h.alone q (hputs hq) r (hputs hr), fun q hq => h.fresh q (hputs hq)⟩
  · have hroom := h.room
    have hle := Table.total_delete_le (w := fun p : PutCall => p.content.length) s.puts fun q => q.task = task
    show (s.index.total fun e => e.2.size) + ((s.puts.delete fun q => q.task = task).total fun p => p.content.length) ≤
      c.maxBytes
    omega
  · exact h.apart hash (huse hhash) other (huse hother)

theorem Inv.put {task : Nat} {content : List UInt8} {order : List (Text × CacheEntry)} (h : Inv c s)
    (hcalm : Calm c s (.put task hash content order stuck)) (hstep : c.step s (.put task hash content order stuck) = some t) :
    Inv c t := by
  unfold step at hstep
  dsimp only at hstep
  split_ifs at hstep with hguard
  obtain rfl := Option.some.inj hstep
  obtain ⟨hapart, hfits⟩ := hcalm
  obtain ⟨hroomy, hd, hroom⟩ := h.ensureCapacity hguard.2.1 hfits stuck
  generalize c.ensureCapacity stuck s content.length order = u at hroomy hd hroom ⊢
  have hputs : ∀ {p : PutCall}, p ∈ u.puts.insertNew ⟨task, hash, content, .roomy⟩ → p.stage ≠ .roomy → p ∈ u.puts := by
    intro p hp hopen
    rcases Table.mem_insertNew.1 hp with hp | ⟨rfl, -⟩
    · exact hp
    · exact absurd rfl hopen
  have huse : ∀ {other}, InUse { u with puts := u.puts.insertNew ⟨task, hash, content, .roomy⟩ } other →
      InUse u other ∨ other = hash := by
    rintro other (he | ⟨p, hp, rfl⟩)
    · exact .inl (.inl he)
    · rcases Table.mem_insertNew.1 hp with hp | ⟨rfl, -⟩
      · exact .inl (.inr ⟨p, hp, rfl⟩)
      · exact .inr rfl
  refine ⟨?_, hroomy.stored, fun p hp offset linked hstage => ?_, fun other hother other' hother' l hl hl' => ?_,
    fun p hp q hq heq hopen hopen' => ?_, fun p hp hopen => ?_⟩
  · have hle := Table.total_insertNew_le (t := u.puts) (r := ⟨task, hash, content, .roomy⟩)
      (w := fun p => p.content.length)
    show (u.index.total fun e => e.2.size) +
      ((u.puts.insertNew ⟨task, hash, content, .roomy⟩).total fun p => p.content.length) ≤ c.maxBytes
    dsimp only at hle
    omega
  · exact hroomy.written p (hputs hp (by rw [hstage]; exact Stage.noConfusion)) offset linked hstage
  · rcases huse hother with hold | rfl <;> rcases huse hother' with hold' | rfl
    · exact hroomy.apart other hold other' hold' l hl hl'
    · exact (hapart other (hd.inUse hold) l hl' hl).symm
    · exact hapart other' (hd.inUse hold') l hl hl'
    · rfl
  · exact hroomy.alone p (hputs hp hopen) q (hputs hq hopen') heq hopen hopen'
  · exact hroomy.fresh p (hputs hp hopen) hopen

theorem Inv.create {task : Nat} (h : Inv c s) (hcalm : Calm c s (.create task))
    (hstep : c.step s (.create task) = some t) : Inv c t := by
  unfold step at hstep
  dsimp only at hstep
  obtain ⟨p, hfind, hstep⟩ := Option.bind_eq_some_iff.1 hstep
  obtain ⟨l, hplace, hstep⟩ := Option.bind_eq_some_iff.1 hstep
  obtain ⟨hp, rfl⟩ := Table.find?_eq_some.1 hfind
  split_ifs at hstep
  obtain rfl := Option.some.inj hstep
  obtain ⟨hclosed, hentries⟩ := hcalm p hp rfl
  exact h.writes hp hplace (fun q hq heq _ => hclosed q hq heq)
    fun e he heq => ⟨(hentries e he heq).2, (hentries e he heq).1.symm⟩

theorem Inv.write {task bytes : Nat} (h : Inv c s) (hstep : c.step s (.write task bytes) = some t) : Inv c t := by
  unfold step at hstep
  dsimp only at hstep
  obtain ⟨p, hfind, hbody⟩ := Option.bind_eq_some_iff.1 hstep
  obtain ⟨hp, rfl⟩ := Table.find?_eq_some.1 hfind
  cases hstage : p.stage with
  | roomy =>
    rw [hstage] at hbody
    cases hbody
  | writing offset linked =>
    rw [hstage] at hbody
    dsimp only at hbody
    split_ifs at hbody with hlength
    obtain rfl := Option.some.inj hbody
    obtain ⟨rfl, old, hold, rfl⟩ := h.written p hp offset linked hstage
    obtain ⟨l, hplace, hfile⟩ := exists_place hold
    have hopen : p.stage ≠ .roomy := by
      rw [hstage]
      exact Stage.noConfusion
    have hchunk : (overwrite old old.length ((p.content.drop old.length).take bytes)).length = old.length + bytes := by
      rw [length_overwrite, List.length_take, List.length_drop]
      omega
    have hwrite : c.writeMore s p old.length bytes true =
        { s with
          files := Function.update s.files l (some (overwrite old old.length ((p.content.drop old.length).take bytes)))
          puts := setStage s p.task
            (.writing (overwrite old old.length ((p.content.drop old.length).take bytes)).length true) } := by
      unfold writeMore
      rw [hplace, hchunk]
      dsimp only
      rw [hfile, Option.map_some]
    rw [hwrite]
    refine h.writes hp hplace (fun q hq heq htask => ?_) fun e he heq => ?_
    · by_contra hqopen
      exact htask (congrArg PutCall.task (h.alone q hq p hp heq hqopen hopen))
    · have hempty := h.fresh p hp hopen e he heq
      obtain ⟨bytes', hbytes', hsize⟩ := h.stored e he
      rw [heq, hold] at hbytes'
      obtain rfl := Option.some.inj hbytes'
      rw [hempty, List.length_nil] at hlength
      refine ⟨hempty, ?_⟩
      rw [hchunk]
      omega

theorem Inv.insert {task : Nat} (h : Inv c s) (hstep : c.step s (.insert task) = some t) : Inv c t := by
  unfold step at hstep
  dsimp only at hstep
  obtain ⟨p, hfind, hbody⟩ := Option.bind_eq_some_iff.1 hstep
  obtain ⟨hp, rfl⟩ := Table.find?_eq_some.1 hfind
  cases hstage : p.stage with
  | roomy =>
    rw [hstage] at hbody
    cases hbody
  | writing offset linked =>
    rw [hstage] at hbody
    dsimp only at hbody
    split_ifs at hbody with hlength
    obtain rfl := Option.some.inj hbody
    have hopen : p.stage ≠ .roomy := by
      rw [hstage]
      exact Stage.noConfusion
    have hindex : ∀ {e}, e ∈ (s.index.delete fun e => e.1 = p.hash).insertNew (p.hash, ⟨p.content.length, s.now⟩) →
        e ∈ s.index ∨ e = (p.hash, ⟨p.content.length, s.now⟩) := by
      intro e he
      rcases Table.mem_insertNew.1 he with he | ⟨rfl, -⟩
      · exact .inl (Table.mem_delete.1 he).1
      · exact .inr rfl
    have hputs : ∀ {q}, q ∈ s.puts.delete (fun q => q.task = p.task) → q ∈ s.puts ∧ q.task ≠ p.task :=
      fun hq => Table.mem_delete.1 hq
    have huse : ∀ {hash}, InUse { s with
        index := (s.index.delete fun e => e.1 = p.hash).insertNew (p.hash, ⟨p.content.length, s.now⟩)
        puts := s.puts.delete fun q => q.task = p.task } hash → InUse s hash := by
      rintro hash (⟨e, he, rfl⟩ | ⟨q, hq, rfl⟩)
      · rcases hindex he with he | rfl
        · exact .inl ⟨e, he, rfl⟩
        · exact .inr ⟨p, hp, rfl⟩
      · exact .inr ⟨q, (hputs hq).1, rfl⟩
    refine ⟨?_, fun e he => ?_, fun q hq => h.written q (hputs hq).1, fun hash hhash other hother => ?_,
      fun q hq r hr => h.alone q (hputs hq).1 r (hputs hr).1, fun q hq hqopen e he heq => ?_⟩
    · have hroom := h.room
      have hnew := Table.total_insertNew_le (t := s.index.delete fun e => e.1 = p.hash)
        (r := (p.hash, ⟨p.content.length, s.now⟩)) (w := fun e => e.2.size)
      have hold := Table.total_delete_le (w := fun e => e.2.size) s.index fun e => e.1 = p.hash
      have hdone := Table.total_delete_add_le (w := fun p => p.content.length) (p := fun q => q.task = p.task) hp rfl
      show (((s.index.delete fun e => e.1 = p.hash).insertNew (p.hash, ⟨p.content.length, s.now⟩)).total
          fun e => e.2.size) + ((s.puts.delete fun q => q.task = p.task).total fun p => p.content.length) ≤ c.maxBytes
      dsimp only at hnew
      omega
    · rcases hindex he with he | rfl
      · exact h.stored e he
      · obtain ⟨-, bytes, hbytes, hbytesLength⟩ := h.written p hp offset linked hstage
        exact ⟨bytes, hbytes, hbytesLength.trans hlength⟩
    · exact h.apart hash (huse hhash) other (huse hother)
    · rcases hindex he with he | rfl
      · exact h.fresh q (hputs hq).1 hqopen e he heq
      · exact absurd (congrArg PutCall.task (h.alone q (hputs hq).1 p hp heq.symm hqopen hopen)) (hputs hq).2

/-- **A calm step keeps the invariant.** -/
theorem Inv.step {event : Event} (h : Inv c s) (hcalm : Calm c s event) (hstep : c.step s event = some t) : Inv c t := by
  cases event with
  | put task hash content order stuck => exact h.put hcalm hstep
  | create task => exact h.create hcalm hstep
  | write task bytes => exact h.write hstep
  | insert task => exact h.insert hstep
  | abort task =>
    obtain rfl := Option.some.inj hstep
    exact h.returns
  | remove hash stuck =>
    obtain rfl := Option.some.inj hstep
    refine h.drop (fun other hother => ?_) (fun other hother => ?_) stuck
    · exact List.mem_singleton.1 hother ▸ hcalm.1
    · exact List.mem_singleton.1 hother ▸ hcalm.2
  | evictExpired stuck =>
    obtain rfl := Option.some.inj hstep
    refine h.drop (fun hash hh => ?_) (fun hash hh => ?_) stuck
    · obtain ⟨e, he, rfl⟩ := List.mem_map.1 hh
      exact h.apart e.1 (.inl ⟨e, (List.mem_filter.1 he).1, rfl⟩)
    · obtain ⟨e, he, rfl⟩ := List.mem_map.1 hh
      exact hcalm e (List.mem_filter.1 he).1 (of_decide_eq_true (List.mem_filter.1 he).2)
  | elapse duration =>
    obtain rfl := Option.some.inj hstep
    exact ⟨h.room, h.stored, h.written, h.apart, h.alone, h.fresh⟩

/-- **Along calm steps the warm cache is sound**, whatever files a new cache finds. -/
theorem sound_of_calmRun {files : Location → Option (List UInt8)} {now : Nat} (hrun : CalmRun c (new files now) s) :
    Sound c s := by
  have hinv : Inv c s := by
    induction hrun with
    | refl => exact inv_new
    | step _ hcalm hstep ih => exact ih.step hcalm hstep
  exact hinv.sound

/-- A cache of four bytes. -/
def fourBytes : CacheSetup := ⟨.new ['c'], [], 4, 10⟩

theorem calm_put_new {task : Nat} {content : List UInt8} {order : List (Text × CacheEntry)}
    {files : Location → Option (List UInt8)} {now : Nat} (hfits : content.length ≤ c.maxBytes) :
    Calm c (new files now) (.put task hash content order stuck) := by
  refine ⟨fun other hother => ?_, .inl ⟨rfl, hfits⟩⟩
  rcases hother with ⟨e, he, -⟩ | ⟨p, hp, -⟩
  · exact absurd he List.not_mem_nil
  · exact absurd hp List.not_mem_nil

/-- Three bytes are put into a new cache and can be read. -/
theorem sound_three : ∃ s, CalmRun fourBytes (new (fun _ => none) 0) s ∧ fourBytes.exists s ['a'] = true ∧
    Sound fourBytes s := by
  have hput : Calm fourBytes (new (fun _ => none) 0) (.put 0 ['a'] [1, 2, 3] [] []) := calm_put_new (by decide)
  have hroomy := CalmRun.step (.refl _) hput rfl
  have hopen := @CalmRun.step fourBytes _ _ _ (.create 0) hroomy (by unfold Calm Closed; decide +kernel) rfl
  have hwritten := @CalmRun.step fourBytes _ _ _ (.write 0 3) hopen trivial rfl
  have hrun := @CalmRun.step fourBytes _ _ _ (.insert 0) hwritten trivial rfl
  exact ⟨_, hrun, by decide +kernel, sound_of_calmRun hrun⟩

/-- **Four ways to an unsound cache**: a content above the limit; two calls that count on the same room; a hash that is
put again while it has an entry; a removal before the entry is made. -/
theorem unsound_runs :
    (∃ s, fourBytes.run (new (fun _ => none) 0)
      [.put 0 ['a'] [1, 2, 3, 4, 5] [] [], .create 0, .write 0 5, .insert 0] = some s ∧ ¬ Sound fourBytes s) ∧
    (∃ s, fourBytes.run (new (fun _ => none) 0)
      [.put 0 ['a'] [1, 2, 3] [] [], .put 1 ['b'] [4, 5, 6] [] [], .create 0, .create 1, .write 0 3, .write 1 3,
        .insert 0, .insert 1] = some s ∧ ¬ Sound fourBytes s) ∧
    (∃ s, fourBytes.run (new (fun _ => none) 0)
      [.put 0 ['a'] [1, 2, 3] [] [], .create 0, .write 0 3, .insert 0, .put 1 ['a'] [4] [(['a'], ⟨3, 0⟩)] [],
        .create 1] = some s ∧ ¬ Sound fourBytes s) ∧
    ∃ s, fourBytes.run (new (fun _ => none) 0)
      [.put 0 ['a'] [1, 2, 3] [] [], .create 0, .write 0 3, .remove ['a'] [], .insert 0] = some s ∧
        ¬ Sound fourBytes s := by
  refine ⟨⟨_, rfl, fun h => ?_⟩, ⟨_, rfl, fun h => ?_⟩, ⟨_, rfl, fun h => ?_⟩, ⟨_, rfl, fun h => ?_⟩⟩
  · exact absurd (h.bounded (by decide +kernel)) (by decide +kernel)
  · exact absurd (h.bounded (by decide +kernel)) (by decide +kernel)
  · obtain ⟨bytes, hbytes, hsize⟩ := h.stored (['a'], ⟨3, 0⟩) (by decide +kernel)
    have hempty : bytes = [] := Option.some.inj (hbytes.symm.trans (by decide +kernel))
    rw [hempty] at hsize
    exact absurd hsize (by decide)
  · exact absurd (h.returned ['a'] (by decide +kernel)) (by decide +kernel)

end CacheSetup

end AlephCore
