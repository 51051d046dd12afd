import Mathlib.Data.List.Basic
import Mathlib.Data.List.Induction
import Mathlib.Tactic.Common

/-!
# UnixPath — path texts and where they lead

A path text is a list of characters.  `join` puts two texts together as a path library does: an absolute
second text replaces the first, and nothing is normalised.  `resolve` says which place in the tree the text
names, with `.` and `..` taken as the system takes them.  `Stays` decides, from the joined pieces alone,
whether the result lies below the base whatever the base is (`under_iff_stays`).
-/

namespace UnixPath

/-- The text of a path. -/
abbrev Text := List Char

/-- A name in a directory. -/
abbrev Name := List Char

/-- A place in the tree: the names from the root down. -/
abbrev Location := List Name

def isAbsolute (p : Text) : Bool := p.head? = some '/'

/-- What stands between the slashes. -/
def segments (p : Text) : List Name := p.splitOn '/'

/-- Follow one segment; the parent of the root is the root. -/
def enter (l : Location) (s : Name) : Location :=
  if s = [] ∨ s = ['.'] then l else if s = ['.', '.'] then l.dropLast else l ++ [s]

/-- Follow segments one after another. -/
def walk (l : Location) (ss : List Name) : Location := ss.foldl enter l

/-- The place a path names for a process that works in `cwd`. -/
def resolve (cwd : Location) (p : Text) : Location :=
  walk (if isAbsolute p then [] else cwd) (segments p)

/-- `p` appended to `base`; an absolute `p` replaces it. -/
def join (base p : Text) : Text :=
  if isAbsolute p then p
  else if base = [] ∨ base.getLast? = some '/' then base ++ p
  else base ++ '/' :: p

/-- Append several pieces. -/
def joinAll (base : Text) (pieces : List Text) : Text := pieces.foldl join base

/-! ## Segments -/

theorem segments_append_slash (a b : Text) : segments (a ++ '/' :: b) = segments a ++ segments b :=
  List.splitOn_append_cons_self a b

theorem length_le_of_mem_segments {p : Text} {s : Name} (h : s ∈ segments p) : s.length ≤ p.length := by
  induction p generalizing s with
  | nil =>
    have hs : s = [] := by simpa [segments] using h
    simp [hs]
  | cons c p ih =>
    unfold segments at h
    rw [List.splitOn_cons_eq_if_modifyHead] at h
    split at h
    · rcases List.mem_cons.1 h with rfl | h
      · simp
      · exact Nat.le_succ_of_le (ih h)
    · obtain ⟨q, qs, hq⟩ := List.exists_cons_of_ne_nil (List.splitOn_ne_nil '/' p)
      have hmem : ∀ t ∈ q :: qs, t ∈ segments p := by
        intro t ht
        rw [segments, hq]
        exact ht
      rw [hq, List.modifyHead_cons, List.mem_cons] at h
      rcases h with rfl | h
      · have := ih (hmem q List.mem_cons_self)
        simpa using this
      · exact Nat.le_succ_of_le (ih (hmem s (List.mem_cons_of_mem q h)))

theorem segments_of_plain {s : Name} (h : '/' ∉ s) : segments s = [s] :=
  List.splitOn_eq_singleton h

/-! ## Walking -/

@[simp] theorem enter_nil (l : Location) : enter l [] = l := by simp [enter]

@[simp] theorem walk_nil (l : Location) : walk l [] = l := rfl

@[simp] theorem walk_cons (l : Location) (s : Name) (ss : List Name) :
    walk l (s :: ss) = walk (enter l s) ss := rfl

theorem walk_append (l : Location) (ss ts : List Name) : walk l (ss ++ ts) = walk (walk l ss) ts :=
  List.foldl_append

theorem enter_plain {l : Location} {s : Name} (h0 : s ≠ []) (h1 : s ≠ ['.']) (h2 : s ≠ ['.', '.']) :
    enter l s = l ++ [s] := by
  simp [enter, h0, h1, h2]

theorem mem_walk {l : Location} {ss : List Name} {x : Name} (h : x ∈ walk l ss) : x ∈ l ∨ x ∈ ss := by
  induction ss generalizing l with
  | nil => exact .inl h
  | cons s ss ih =>
    rcases ih h with h | h
    · unfold enter at h
      split_ifs at h
      · exact .inl h
      · exact .inl ((List.dropLast_subset l h))
      · rcases List.mem_append.1 h with h | h
        · exact .inl h
        · exact .inr (List.mem_cons.2 (.inl (List.mem_singleton.1 h)))
    · exact .inr (List.mem_cons_of_mem s h)

/-! ## Joining -/

theorem join_of_absolute {base p : Text} (h : isAbsolute p = true) : join base p = p := by
  rw [join, if_pos h]

theorem isAbsolute_append {a b : Text} (h : a ≠ []) : isAbsolute (a ++ b) = isAbsolute a := by
  obtain ⟨c, a, rfl⟩ := List.exists_cons_of_ne_nil h
  rfl

/-- A relative piece is followed from where the base leads. -/
theorem resolve_join (cwd : Location) {base p : Text} (h : isAbsolute p = false) :
    resolve cwd (join base p) = walk (resolve cwd base) (segments p) := by
  rw [join, if_neg (by simp [h])]
  by_cases hbase : base = []
  · subst hbase
    have hempty : resolve cwd [] = cwd := by simp [resolve, segments, isAbsolute]
    rw [if_pos (.inl rfl), hempty, List.nil_append, resolve, if_neg (by simp [h])]
  · by_cases hlast : base.getLast? = some '/'
    · rw [if_pos (.inr hlast)]
      obtain ⟨a, rfl⟩ : ∃ a, base = a ++ ['/'] := ⟨base.dropLast, (List.dropLast_append_getLast? _ hlast).symm⟩
      have habs : isAbsolute (a ++ ['/'] ++ p) = isAbsolute (a ++ ['/']) := isAbsolute_append hbase
      have hslash : segments (a ++ ['/']) = segments a ++ [[]] := segments_append_slash a []
      have hall : segments (a ++ ['/'] ++ p) = segments a ++ segments p := by
        rw [List.append_assoc]
        exact segments_append_slash a p
      rw [resolve, resolve, habs, hslash, hall, walk_append, walk_append]
      rfl
    · rw [if_neg (by simp [hbase, hlast])]
      have habs : isAbsolute (base ++ '/' :: p) = isAbsolute base := isAbsolute_append hbase
      rw [resolve, resolve, habs, segments_append_slash, walk_append]

theorem joinAll_concat (base : Text) (pieces : List Text) (p : Text) :
    joinAll base (pieces ++ [p]) = join (joinAll base pieces) p := by
  simp [joinAll]

theorem mem_join {base p : Text} {c : Char} (h : c ∈ p) : c ∈ join base p := by
  unfold join
  split_ifs
  · exact h
  · exact List.mem_append_right _ h
  · exact List.mem_append_right _ (List.mem_cons_of_mem _ h)

theorem mem_of_mem_join {base p : Text} {c : Char} (h : c ∈ join base p) : c ∈ base ∨ c = '/' ∨ c ∈ p := by
  unfold join at h
  split_ifs at h
  · exact .inr (.inr h)
  · exact (List.mem_append.1 h).imp_right .inr
  · rcases List.mem_append.1 h with h | h
    · exact .inl h
    · exact .inr (List.mem_cons.1 h)

theorem join_ne_nil {base : Text} (h : base ≠ []) (p : Text) : join base p ≠ [] := by
  unfold join
  split_ifs with habs
  · rintro rfl
    cases habs
  · simp [h]
  · simp

theorem joinAll_ne_nil {base : Text} (h : base ≠ []) (pieces : List Text) : joinAll base pieces ≠ [] := by
  induction pieces using List.reverseRecOn with
  | nil => exact h
  | append_singleton pieces p ih =>
    rw [joinAll_concat]
    exact join_ne_nil ih p

theorem mem_of_mem_joinAll {base : Text} {pieces : List Text} {c : Char} (h : c ∈ joinAll base pieces) :
    c ∈ base ∨ c = '/' ∨ ∃ p ∈ pieces, c ∈ p := by
  induction pieces using List.reverseRecOn with
  | nil => exact .inl h
  | append_singleton pieces p ih =>
    rw [joinAll_concat] at h
    rcases mem_of_mem_join h with h | h | h
    · rcases ih h with h | h | ⟨q, hq, hc⟩
      · exact .inl h
      · exact .inr (.inl h)
      · exact .inr (.inr ⟨q, List.mem_append_left _ hq, hc⟩)
    · exact .inr (.inl h)
    · exact .inr (.inr ⟨p, by simp, h⟩)

/-- Relative pieces are followed one after another from the base. -/
theorem resolve_joinAll (cwd : Location) (base : Text) {pieces : List Text}
    (h : ∀ p ∈ pieces, isAbsolute p = false) :
    resolve cwd (joinAll base pieces) = walk (resolve cwd base) (pieces.flatMap segments) := by
  induction pieces using List.reverseRecOn with
  | nil => rfl
  | append_singleton pieces p ih =>
    have hp : isAbsolute p = false := h p (by simp)
    have hrest := ih fun q hq => h q (List.mem_append_left _ hq)
    rw [joinAll_concat, resolve_join cwd hp, hrest, ← walk_append, List.flatMap_append]
    simp

/-- An absolute piece makes the base irrelevant. -/
theorem resolve_joinAll_of_absolute (cwd : Location) (base : Text) {pieces : List Text} {p : Text}
    (hp : p ∈ pieces) (h : isAbsolute p = true) :
    ∃ ss : List Name, resolve cwd (joinAll base pieces) = walk [] ss ∧
      ∀ s ∈ ss, s ∈ pieces.flatMap segments := by
  induction pieces using List.reverseRecOn with
  | nil => simp at hp
  | append_singleton pieces q ih =>
    rw [joinAll_concat]
    by_cases hq : isAbsolute q = true
    · refine ⟨segments q, ?_, fun s hs => ?_⟩
      · rw [join_of_absolute hq, resolve, if_pos hq]
      · exact List.mem_flatMap.2 ⟨q, by simp, hs⟩
    · have hmem : p ∈ pieces := by
        rcases List.mem_append.1 hp with hp | hp
        · exact hp
        · rw [List.mem_singleton.1 hp] at h
          exact absurd h hq
      obtain ⟨ss, hss, hsub⟩ := ih hmem
      refine ⟨ss ++ segments q, ?_, fun s hs => ?_⟩
      · rw [resolve_join cwd (by simpa using hq), hss, walk_append]
      · rw [List.flatMap_append]
        rcases List.mem_append.1 hs with hs | hs
        · exact List.mem_append_left _ (hsub s hs)
        · exact List.mem_append_right _ (by simpa using hs)

/-! ## Staying below a base nobody knows -/

/-- Follow segments from `l` below an anonymous directory; `none` for a path that climbs above it. -/
def descend (l : Location) : List Name → Option Location
  | [] => some l
  | s :: ss => if s = ['.', '.'] ∧ l = [] then none else descend (enter l s) ss

/-- Pieces that lead from the directory `tail`, wherever that stands, to a place in `tail`. -/
def Stays (tail : Location) (pieces : List Text) : Prop :=
  (∀ p ∈ pieces, isAbsolute p = false) ∧ ∃ l, descend tail (pieces.flatMap segments) = some l ∧ tail <+: l

instance (tail : Location) (pieces : List Text) : Decidable (Stays tail pieces) :=
  inferInstanceAs (Decidable (_ ∧ ∃ l, _ = some l ∧ _))

theorem enter_append {a l : Location} {s : Name} (h : ¬ (s = ['.', '.'] ∧ l = [])) :
    enter (a ++ l) s = a ++ enter l s := by
  unfold enter
  split_ifs with h1 h2
  · rfl
  · have hl : l ≠ [] := fun hl => h ⟨h2, hl⟩
    exact List.dropLast_append_of_ne_nil hl
  · exact List.append_assoc a l [s]

theorem walk_of_descend {a l l' : Location} {ss : List Name} (h : descend l ss = some l') :
    walk (a ++ l) ss = a ++ l' := by
  induction ss generalizing l with
  | nil =>
    rw [descend, Option.some.injEq] at h
    rw [h, walk_nil]
  | cons s ss ih =>
    rw [descend] at h
    split_ifs at h with hclimb
    rw [walk_cons, enter_append hclimb]
    exact ih h

/-- What climbs above a directory directly below the root ends in a walk from the root. -/
theorem walk_of_climb {n : Name} {l : Location} {ss : List Name} (h : descend l ss = none) :
    ∃ ts : List Name, walk (n :: l) ss = walk [] ts ∧ ∀ t ∈ ts, t ∈ ss := by
  induction ss generalizing l with
  | nil => simp [descend] at h
  | cons s ss ih =>
    rw [descend] at h
    split_ifs at h with hclimb
    · obtain ⟨rfl, rfl⟩ := hclimb
      exact ⟨ss, rfl, fun t ht => List.mem_cons_of_mem _ ht⟩
    · obtain ⟨ts, hts, hsub⟩ := ih h
      refine ⟨ts, ?_, fun t ht => List.mem_cons_of_mem _ (hsub t ht)⟩
      rw [walk_cons, ← hts]
      exact congrArg (walk · ss) (enter_append (a := [n]) hclimb)

theorem walk_ne_of_fresh {n : Name} {l : Location} {ss : List Name} (h : n ∉ ss) : ¬ n :: l <+: walk [] ss := by
  intro hpre
  rcases mem_walk (hpre.subset List.mem_cons_self) with h' | h'
  · simp at h'
  · exact h h'

/-- A name no piece contains. -/
def fresh (pieces : List Text) : Name := List.replicate (pieces.flatten.length + 3) 'a'

theorem fresh_not_mem (pieces : List Text) : fresh pieces ∉ pieces.flatMap segments := by
  intro h
  obtain ⟨p, hp, hs⟩ := List.mem_flatMap.1 h
  have hle : (fresh pieces).length ≤ p.length := length_le_of_mem_segments hs
  have hsum : p.length ≤ pieces.flatten.length := (List.sublist_flatten_of_mem hp).length_le
  rw [fresh, List.length_replicate] at hle
  omega

theorem fresh_plain (pieces : List Text) (c : Char) (h : c ≠ 'a') : c ∉ fresh pieces := by
  intro hc
  exact h (List.eq_of_mem_replicate hc)

/-- The absolute path of a fresh directory below the root. -/
def freshBase (pieces : List Text) : Text := '/' :: fresh pieces

theorem resolve_freshBase (cwd : Location) (pieces : List Text) :
    resolve cwd (freshBase pieces) = [fresh pieces] := by
  have hsegs : segments (freshBase pieces) = [[], fresh pieces] := by
    have h := segments_append_slash [] (fresh pieces)
    rw [segments_of_plain (fresh_plain pieces '/' (by decide))] at h
    exact h
  have hlen : ∀ k < 3, (fresh pieces).length ≠ k := by
    intro k hk
    rw [fresh, List.length_replicate]
    omega
  rw [resolve, hsegs, show isAbsolute (freshBase pieces) = true from rfl, if_pos rfl, walk_cons, enter_nil,
    walk_cons, enter_plain, walk_nil, List.nil_append]
  · exact fun h => hlen 0 (by omega) (by rw [h]; rfl)
  · exact fun h => hlen 1 (by omega) (by rw [h]; rfl)
  · exact fun h => hlen 2 (by omega) (by rw [h]; rfl)

/-- Pieces that stay in `tail` lead below every base that ends in it. -/
theorem Stays.under {tail : Location} {pieces : List Text} (h : Stays tail pieces) {cwd a : Location}
    {base : Text} (hbase : resolve cwd base = a ++ tail) :
    resolve cwd base <+: resolve cwd (joinAll base pieces) := by
  obtain ⟨hrel, l, hl, hpre⟩ := h
  rw [resolve_joinAll cwd base hrel, hbase, walk_of_descend hl]
  exact (List.prefix_append_right_inj a).2 hpre

/-- Pieces that lead below one base whose name they do not know stay in `tail`. -/
theorem Stays.of_under {tail : Location} {pieces : List Text} {cwd : Location} {base : Text}
    (hbase : resolve cwd base = fresh pieces :: tail)
    (h : resolve cwd base <+: resolve cwd (joinAll base pieces)) : Stays tail pieces := by
  have hfresh := fresh_not_mem pieces
  have hrel : ∀ p ∈ pieces, isAbsolute p = false := by
    intro p hp
    by_contra habs
    obtain ⟨ss, hss, hsub⟩ := resolve_joinAll_of_absolute cwd base hp (by simpa using habs)
    rw [hbase, hss] at h
    exact walk_ne_of_fresh (fun hmem => hfresh (hsub _ hmem)) h
  refine ⟨hrel, ?_⟩
  rw [resolve_joinAll cwd base hrel, hbase] at h
  cases hd : descend tail (pieces.flatMap segments) with
  | none =>
    obtain ⟨ts, hts, hsub⟩ := walk_of_climb (n := fresh pieces) hd
    rw [hts] at h
    exact absurd h (walk_ne_of_fresh fun hmem => hfresh (hsub _ hmem))
  | some l =>
    have hwalk := walk_of_descend (a := [fresh pieces]) hd
    refine ⟨l, rfl, ?_⟩
    rw [show fresh pieces :: tail = [fresh pieces] ++ tail from rfl, hwalk] at h
    exact (List.prefix_append_right_inj _).1 h

/-- **Pieces lead below every base exactly when they stay.** -/
theorem under_iff_stays {pieces : List Text} :
    (∀ (cwd : Location) (base : Text), resolve cwd base <+: resolve cwd (joinAll base pieces)) ↔
      Stays [] pieces := by
  constructor
  · intro h
    exact Stays.of_under (resolve_freshBase [] pieces) (h [] (freshBase pieces))
  · intro h cwd base
    exact h.under (List.append_nil _).symm

example : Stays [] ["ab".toList, "ab/../c".toList] ∧ ¬ Stays [] ["..".toList, "..foo".toList] := by decide

end UnixPath
