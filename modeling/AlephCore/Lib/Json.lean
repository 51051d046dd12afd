import Mathlib.Data.Rat.Defs
import Mathlib.Order.Basic
import Mathlib.Data.String.Basic
import Mathlib.Tactic.Common
import Mathlib.Algebra.Order.Ring.Rat
import Mathlib.Algebra.Order.Ring.Nat

/-!
# Json — JSON trees, canonical values and the deep merge

A `Json` tree is what a parser reads: the fields of an object in the order of the text, a key
possibly more than once.  A `Value` is a tree in which every object has its keys in strictly
increasing order, as a map keeps them; `Json.toValue` keeps the last of several equal keys.
`deepMerge` overlays one value on another and is idempotent in its second argument.
-/

/-! ## Association lists in key order -/

namespace Assoc

variable {κ β : Type} [LinearOrder κ]

/-- The keys come in strictly increasing order. -/
def Sorted (l : List (κ × β)) : Prop :=
  l.Pairwise fun a b => a.1 < b.1

/-- The value under `k`. -/
def get? (k : κ) : List (κ × β) → Option β
  | [] => none
  | (k', v) :: l => if k = k' then some v else get? k l

/-- Put `f` of the present value (if any) under `k`. -/
def insertWith (k : κ) (f : Option β → β) : List (κ × β) → List (κ × β)
  | [] => [(k, f none)]
  | (k', v) :: l =>
    if k < k' then (k, f none) :: (k', v) :: l
    else if k = k' then (k, f (some v)) :: l
    else (k', v) :: insertWith k f l

@[simp] theorem get?_nil (k : κ) : get? k ([] : List (κ × β)) = none := rfl

theorem get?_eq_none_of_lt {k : κ} {l : List (κ × β)} (h : ∀ p ∈ l, k < p.1) : get? k l = none := by
  induction l with
  | nil => rfl
  | cons p l ih =>
    have hp : k < p.1 := h p (by simp)
    rw [get?, if_neg hp.ne]
    exact ih fun q hq => h q (by simp [hq])

theorem mem_of_get? {k : κ} {v : β} {l : List (κ × β)} (h : get? k l = some v) : (k, v) ∈ l := by
  induction l with
  | nil => simp at h
  | cons p l ih =>
    rw [get?] at h
    split_ifs at h with hk
    · obtain rfl := hk
      obtain rfl := Option.some.inj h
      simp
    · exact List.mem_cons_of_mem _ (ih h)

theorem get?_of_mem {k : κ} {v : β} {l : List (κ × β)} (hl : Sorted l) (h : (k, v) ∈ l) :
    get? k l = some v := by
  induction l with
  | nil => simp at h
  | cons p l ih =>
    obtain ⟨hp, hl'⟩ := List.pairwise_cons.1 hl
    rcases List.mem_cons.1 h with rfl | h
    · simp [get?]
    · have hne : k ≠ p.1 := (hp _ h).ne'
      rw [get?, if_neg hne]
      exact ih hl' h

theorem mem_insertWith {k : κ} {f : Option β → β} {l : List (κ × β)} {p : κ × β}
    (h : p ∈ insertWith k f l) : p ∈ l ∨ p.1 = k ∧ ∃ o, p.2 = f o ∧ ∀ v, o = some v → (k, v) ∈ l := by
  induction l with
  | nil =>
    obtain rfl := List.mem_singleton.1 h
    exact .inr ⟨rfl, none, rfl, by simp⟩
  | cons q l ih =>
    rw [insertWith] at h
    split_ifs at h with h1 h2
    · rcases List.mem_cons.1 h with rfl | h
      · exact .inr ⟨rfl, none, rfl, by simp⟩
      · exact .inl h
    · rcases List.mem_cons.1 h with rfl | h
      · refine .inr ⟨rfl, some q.2, rfl, ?_⟩
        rintro v ⟨⟩
        simp [h2]
      · exact .inl (List.mem_cons_of_mem _ h)
    · rcases List.mem_cons.1 h with rfl | h
      · exact .inl (by simp)
      · rcases ih h with h | ⟨h3, o, h4, h5⟩
        · exact .inl (List.mem_cons_of_mem _ h)
        · exact .inr ⟨h3, o, h4, fun v hv => List.mem_cons_of_mem _ (h5 v hv)⟩

theorem sorted_insertWith {k : κ} {f : Option β → β} {l : List (κ × β)} (hl : Sorted l) :
    Sorted (insertWith k f l) := by
  induction l with
  | nil => simp [Sorted, insertWith]
  | cons q l ih =>
    obtain ⟨hq, hl'⟩ := List.pairwise_cons.1 hl
    rw [insertWith]
    split_ifs with h1 h2
    · refine List.pairwise_cons.2 ⟨fun p hp => ?_, hl⟩
      rcases List.mem_cons.1 hp with rfl | hp
      · exact h1
      · exact h1.trans (hq p hp)
    · exact List.pairwise_cons.2 ⟨fun p hp => h2 ▸ hq p hp, hl'⟩
    · refine List.pairwise_cons.2 ⟨fun p hp => ?_, ih hl'⟩
      rcases mem_insertWith hp with hp | ⟨hp, -⟩
      · exact hq p hp
      · rw [hp]
        exact lt_of_le_of_ne (not_lt.1 h1) (Ne.symm h2)

theorem get?_insertWith_self {k : κ} {f : Option β → β} {l : List (κ × β)} (hl : Sorted l) :
    get? k (insertWith k f l) = some (f (get? k l)) := by
  induction l with
  | nil => simp [insertWith, get?]
  | cons q l ih =>
    obtain ⟨hq, hl'⟩ := List.pairwise_cons.1 hl
    rw [insertWith]
    split_ifs with h1 h2
    · have hnone : get? k (q :: l) = none := by
        refine get?_eq_none_of_lt fun p hp => ?_
        rcases List.mem_cons.1 hp with rfl | hp
        · exact h1
        · exact h1.trans (hq p hp)
      rw [hnone, get?, if_pos rfl]
    · simp [get?, h2]
    · rw [get?, if_neg h2, ih hl', get?, if_neg h2]

theorem get?_insertWith_ne {k k' : κ} {f : Option β → β} {l : List (κ × β)} (h : k' ≠ k) :
    get? k' (insertWith k f l) = get? k' l := by
  induction l with
  | nil => simp [insertWith, get?, h]
  | cons q l ih =>
    rw [insertWith]
    split_ifs with h1 h2
    · simp [get?, h]
    · have hq : k' ≠ q.1 := h2 ▸ h
      simp [get?, h, hq]
    · by_cases hq : k' = q.1
      · simp [get?, hq]
      · simp [get?, hq, ih]

theorem insertWith_eq_self {k : κ} {f : Option β → β} {l : List (κ × β)} {v : β} (hl : Sorted l)
    (hv : get? k l = some v) (hf : f (some v) = v) : insertWith k f l = l := by
  induction l with
  | nil => simp at hv
  | cons q l ih =>
    obtain ⟨hq, hl'⟩ := List.pairwise_cons.1 hl
    rw [get?] at hv
    by_cases hk : k = q.1
    · rw [if_pos hk] at hv
      obtain rfl := Option.some.inj hv
      rw [insertWith, if_neg (by rw [hk]; exact lt_irrefl _), if_pos hk, hf, hk]
    · rw [if_neg hk] at hv
      have hlt : q.1 < k := hq _ (mem_of_get? hv)
      rw [insertWith, if_neg hlt.not_gt, if_neg hk, ih hl' hv]

theorem insertWith_append {k : κ} {f : Option β → β} {l : List (κ × β)} (h : ∀ p ∈ l, p.1 < k) :
    insertWith k f l = l ++ [(k, f none)] := by
  induction l with
  | nil => rfl
  | cons q l ih =>
    have hq : q.1 < k := h q (by simp)
    rw [insertWith, if_neg hq.not_gt, if_neg hq.ne', ih fun p hp => h p (by simp [hp])]
    rfl

end Assoc

/-! ## Trees -/

/-- A JSON number: an integer literal, or one with a fraction or an exponent. -/
inductive Number where
  | int (n : ℤ)
  | frac (q : ℚ)
  deriving DecidableEq

/-- The number's magnitude. -/
def Number.toRat : Number → ℚ
  | .int n => n
  | .frac q => q

/-- A JSON tree. -/
inductive Json where
  | null
  | bool (b : Bool)
  | num (n : Number)
  | str (s : String)
  | arr (xs : List Json)
  | obj (fs : List (String × Json))

namespace Json

mutual

/-- Structural equality of trees. -/
def eqb : Json → Json → Bool
  | .null, .null => true
  | .bool a, .bool b => a == b
  | .num a, .num b => decide (a = b)
  | .str a, .str b => decide (a = b)
  | .arr a, .arr b => eqbList a b
  | .obj a, .obj b => eqbFields a b
  | _, _ => false

/-- `eqb` on the elements of two arrays. -/
def eqbList : List Json → List Json → Bool
  | [], [] => true
  | a :: as, b :: bs => eqb a b && eqbList as bs
  | _, _ => false

/-- `eqb` on the fields of two objects. -/
def eqbFields : List (String × Json) → List (String × Json) → Bool
  | [], [] => true
  | (k, a) :: as, (l, b) :: bs => decide (k = l) && eqb a b && eqbFields as bs
  | _, _ => false

end

mutual

theorem eqb_iff : (a b : Json) → (eqb a b = true ↔ a = b)
  | .null, b => by cases b <;> simp [eqb]
  | .bool x, b => by cases b <;> simp [eqb]
  | .num x, b => by cases b <;> simp [eqb]
  | .str x, b => by cases b <;> simp [eqb]
  | .arr x, b => by cases b <;> simp [eqb, eqbList_iff x]
  | .obj x, b => by cases b <;> simp [eqb, eqbFields_iff x]

theorem eqbList_iff : (a b : List Json) → (eqbList a b = true ↔ a = b)
  | [], b => by cases b <;> simp [eqbList]
  | x :: xs, b => by cases b <;> simp [eqbList, eqb_iff x, eqbList_iff xs]

theorem eqbFields_iff : (a b : List (String × Json)) → (eqbFields a b = true ↔ a = b)
  | [], b => by cases b <;> simp [eqbFields]
  | (k, x) :: xs, b => by
    rcases b with - | ⟨⟨l, y⟩, ys⟩
    · simp [eqbFields]
    · simp [eqbFields, eqb_iff x, eqbFields_iff xs]

end

instance : DecidableEq Json := fun a b => decidable_of_iff _ (eqb_iff a b)

mutual

/-- Every object in the tree has its keys in strictly increasing order. -/
def Canonical : Json → Prop
  | .arr xs => CanonicalList xs
  | .obj fs => Assoc.Sorted fs ∧ CanonicalFields fs
  | _ => True

/-- Every element is canonical. -/
def CanonicalList : List Json → Prop
  | [] => True
  | x :: xs => Canonical x ∧ CanonicalList xs

/-- Every field's value is canonical. -/
def CanonicalFields : List (String × Json) → Prop
  | [] => True
  | (_, x) :: fs => Canonical x ∧ CanonicalFields fs

end

theorem canonicalFields_iff {fs : List (String × Json)} :
    CanonicalFields fs ↔ ∀ p ∈ fs, Canonical p.2 := by
  induction fs with
  | nil => simp [CanonicalFields]
  | cons p fs ih => simp [CanonicalFields, ih]

theorem canonicalFields_insertWith {k : String} {f : Option Json → Json} {fs : List (String × Json)}
    (hfs : CanonicalFields fs) (hnone : Canonical (f none))
    (hsome : ∀ v, (k, v) ∈ fs → Canonical (f (some v))) :
    CanonicalFields (Assoc.insertWith k f fs) := by
  rw [canonicalFields_iff] at hfs ⊢
  intro p hp
  rcases Assoc.mem_insertWith hp with hp | ⟨-, o, h, ho⟩
  · exact hfs p hp
  · rw [h]
    cases o with
    | none => exact hnone
    | some v => exact hsome v (ho v rfl)

mutual

/-- Read every object as a map: the last of several equal keys counts. -/
def normalize : Json → Json
  | .arr xs => .arr (normalizeList xs)
  | .obj fs => .obj (normalizeFields fs [])
  | x => x

/-- `normalize` every element. -/
def normalizeList : List Json → List Json
  | [] => []
  | x :: xs => normalize x :: normalizeList xs

/-- Enter the fields into a map, in the order of the text. -/
def normalizeFields : List (String × Json) → List (String × Json) → List (String × Json)
  | [], m => m
  | (k, x) :: fs, m => normalizeFields fs (Assoc.insertWith k (fun _ => normalize x) m)

end

mutual

theorem canonical_normalize : (x : Json) → Canonical (normalize x)
  | .null | .bool _ | .num _ | .str _ => trivial
  | .arr xs => canonicalList_normalizeList xs
  | .obj fs => canonical_normalizeFields fs [] ⟨List.Pairwise.nil, trivial⟩

theorem canonicalList_normalizeList : (xs : List Json) → CanonicalList (normalizeList xs)
  | [] => trivial
  | x :: xs => ⟨canonical_normalize x, canonicalList_normalizeList xs⟩

theorem canonical_normalizeFields : (fs m : List (String × Json)) → Canonical (.obj m) →
    Canonical (.obj (normalizeFields fs m))
  | [], _, hm => hm
  | (_, x) :: fs, _, hm =>
    canonical_normalizeFields fs _ ⟨Assoc.sorted_insertWith hm.1,
      canonicalFields_insertWith hm.2 (canonical_normalize x) fun _ _ => canonical_normalize x⟩

end

/-! ## The deep merge -/

mutual

/-- Overlay `update` on `base`: field by field where both are objects, else `update` replaces `base`. -/
def deepMerge (base : Json) : Json → Json
  | .obj us =>
    match base with
    | .obj bs => .obj (mergeFields bs us)
    | _ => .obj us
  | update => update

/-- Overlay the fields one after another; a key that is not there yet starts as `null`. -/
def mergeFields (bs : List (String × Json)) : List (String × Json) → List (String × Json)
  | [] => bs
  | (k, v) :: us => mergeFields (Assoc.insertWith k (fun o => deepMerge (o.getD .null) v) bs) us

end

@[simp] theorem deepMerge_obj (bs us : List (String × Json)) :
    deepMerge (.obj bs) (.obj us) = .obj (mergeFields bs us) := by simp [deepMerge]

@[simp] theorem deepMerge_null (u : Json) : deepMerge .null u = u := by
  cases u <;> simp [deepMerge]

theorem deepMerge_of_not_obj {b u : Json} (h : ∀ us, u ≠ .obj us) : deepMerge b u = u := by
  cases u with
  | obj us => exact absurd rfl (h us)
  | _ => simp [deepMerge]

theorem deepMerge_base_not_obj {b u : Json} (h : ∀ bs, b ≠ .obj bs) : deepMerge b u = u := by
  cases u with
  | obj us => cases b with
    | obj bs => exact absurd rfl (h bs)
    | _ => simp [deepMerge]
  | _ => simp [deepMerge]

theorem mergeFields_cons (bs us : List (String × Json)) (k : String) (v : Json) :
    mergeFields bs ((k, v) :: us) =
      mergeFields (Assoc.insertWith k (fun o => deepMerge (o.getD .null) v) bs) us := by
  simp [mergeFields]

@[simp] theorem mergeFields_nil (bs : List (String × Json)) : mergeFields bs [] = bs := by
  simp [mergeFields]

theorem canonical_mergeFields {us : List (String × Json)}
    (ih : ∀ p ∈ us, ∀ b, Canonical b → Canonical (deepMerge b p.2)) :
    ∀ {bs : List (String × Json)}, Canonical (.obj bs) → Canonical (.obj (mergeFields bs us)) := by
  induction us with
  | nil => intro bs hbs; simpa using hbs
  | cons p us ihus =>
    intro bs hbs
    obtain ⟨k, v⟩ := p
    rw [mergeFields_cons]
    refine ihus (fun q hq => ih q (by simp [hq])) ⟨Assoc.sorted_insertWith hbs.1, ?_⟩
    have hv := ih (k, v) (by simp)
    refine canonicalFields_insertWith hbs.2 (hv .null trivial) fun w hw => ?_
    exact hv w (canonicalFields_iff.1 hbs.2 _ hw)

/-- A property of trees follows from: it passes from the values of an object to the object. -/
theorem objInduction {P : Json → Prop} (hobj : ∀ fs, (∀ p ∈ fs, P p.2) → P (.obj fs))
    (hother : ∀ x, (∀ fs, x ≠ .obj fs) → P x) : (x : Json) → P x
  | .obj fs => hobj fs fun p hp =>
      have : sizeOf p.2 < 1 + sizeOf fs := by
        have h1 := List.sizeOf_lt_of_mem hp
        have h2 : sizeOf p.2 < sizeOf p := by cases p; simp
        omega
      objInduction hobj hother p.2
  | .null => hother _ (by simp)
  | .bool _ => hother _ (by simp)
  | .num _ => hother _ (by simp)
  | .str _ => hother _ (by simp)
  | .arr _ => hother _ (by simp)

theorem canonical_deepMerge {b u : Json} (hb : Canonical b) (hu : Canonical u) :
    Canonical (deepMerge b u) := by
  induction u using objInduction generalizing b with
  | hobj us ih =>
    cases b with
    | obj bs =>
      rw [deepMerge_obj]
      exact canonical_mergeFields
        (fun p hp c hc => ih p hp hc (canonicalFields_iff.1 hu.2 p hp)) hb
    | _ => rw [deepMerge_base_not_obj (by simp)]; exact hu
  | hother x hx => rw [deepMerge_of_not_obj hx]; exact hu

theorem get?_mergeFields_of_not_mem {us : List (String × Json)} {k : String}
    (hk : ∀ p ∈ us, p.1 ≠ k) {bs : List (String × Json)} :
    Assoc.get? k (mergeFields bs us) = Assoc.get? k bs := by
  induction us generalizing bs with
  | nil => simp
  | cons p us ih =>
    obtain ⟨k', v⟩ := p
    rw [mergeFields_cons, ih fun q hq => hk q (by simp [hq])]
    exact Assoc.get?_insertWith_ne (hk (k', v) (by simp)).symm

theorem get?_mergeFields_of_mem {us : List (String × Json)} (hus : Assoc.Sorted us) {k : String}
    {v : Json} (hk : (k, v) ∈ us) {bs : List (String × Json)} (hbs : Assoc.Sorted bs) :
    Assoc.get? k (mergeFields bs us) = some (deepMerge ((Assoc.get? k bs).getD .null) v) := by
  induction us generalizing bs with
  | nil => simp at hk
  | cons p us ih =>
    obtain ⟨hp, hus'⟩ := List.pairwise_cons.1 hus
    obtain ⟨k', w⟩ := p
    rw [mergeFields_cons]
    rcases List.mem_cons.1 hk with h | hk'
    · obtain ⟨rfl, rfl⟩ := Prod.mk.inj h
      rw [get?_mergeFields_of_not_mem fun q hq => (hp q hq).ne', Assoc.get?_insertWith_self hbs]
    · rw [ih hus' hk' (Assoc.sorted_insertWith hbs), Assoc.get?_insertWith_ne (hp _ hk').ne']

theorem mergeFields_eq_self {us m : List (String × Json)} (hm : Assoc.Sorted m)
    (h : ∀ p ∈ us, ∃ x, Assoc.get? p.1 m = some x ∧ deepMerge x p.2 = x) : mergeFields m us = m := by
  induction us with
  | nil => simp
  | cons p us ih =>
    obtain ⟨k, v⟩ := p
    obtain ⟨x, hx, hv⟩ := h (k, v) (by simp)
    rw [mergeFields_cons, Assoc.insertWith_eq_self hm hx (by simpa using hv)]
    exact ih fun q hq => h q (by simp [hq])

theorem deepMerge_self {u : Json} (hu : Canonical u) : deepMerge u u = u := by
  induction u using objInduction with
  | hobj us ih =>
    rw [deepMerge_obj, mergeFields_eq_self hu.1]
    intro p hp
    exact ⟨p.2, Assoc.get?_of_mem hu.1 hp, ih p hp (canonicalFields_iff.1 hu.2 p hp)⟩
  | hother x hx => exact deepMerge_of_not_obj hx

/-- **Merging the same update twice is merging it once.** -/
theorem deepMerge_deepMerge {b u : Json} (hb : Canonical b) (hu : Canonical u) :
    deepMerge (deepMerge b u) u = deepMerge b u := by
  induction u using objInduction generalizing b with
  | hobj us ih =>
    by_cases hobj : ∃ bs, b = .obj bs
    · obtain ⟨bs, rfl⟩ := hobj
      rw [deepMerge_obj, deepMerge_obj]
      congr 1
      have hc := canonical_deepMerge hb hu
      rw [deepMerge_obj] at hc
      refine mergeFields_eq_self hc.1 fun p hp => ?_
      refine ⟨_, get?_mergeFields_of_mem hu.1 hp hb.1, ?_⟩
      refine ih p hp ?_ (canonicalFields_iff.1 hu.2 p hp)
      cases hg : Assoc.get? p.1 bs with
      | none => exact trivial
      | some x => exact canonicalFields_iff.1 hb.2 _ (Assoc.mem_of_get? hg)
    · have h : deepMerge b (.obj us) = .obj us := deepMerge_base_not_obj fun bs hbs => hobj ⟨bs, hbs⟩
      rw [h, deepMerge_self hu]
  | hother x hx => rw [deepMerge_of_not_obj hx, deepMerge_of_not_obj hx]

theorem mergeFields_append {us bs : List (String × Json)} (hus : Assoc.Sorted us)
    (h : ∀ p ∈ bs, ∀ q ∈ us, p.1 < q.1) : mergeFields bs us = bs ++ us := by
  induction us generalizing bs with
  | nil => simp
  | cons q us ih =>
    obtain ⟨k, v⟩ := q
    obtain ⟨hq, hus'⟩ := List.pairwise_cons.1 hus
    have hlt : ∀ p ∈ bs, p.1 < k := fun p hp => h p hp (k, v) (by simp)
    rw [mergeFields_cons, Assoc.insertWith_append hlt, ih hus']
    · simp
    · intro p hp r hr
      rcases List.mem_append.1 hp with hp | hp
      · exact h p hp r (by simp [hr])
      · obtain rfl := List.mem_singleton.1 hp
        exact hq r hr

/-- **Merging onto the empty object gives the update.** -/
theorem deepMerge_empty {u : Json} (hu : Canonical u) : deepMerge (.obj []) u = u := by
  cases u with
  | obj us => rw [deepMerge_obj, mergeFields_append hu.1 (by simp), List.nil_append]
  | _ => exact deepMerge_of_not_obj (by simp)

/-! ## Key paths -/

/-- The tree reached by following the keys of a path through objects. -/
def follow : List String → Json → Option Json
  | [], x => some x
  | k :: p, .obj fs => (Assoc.get? k fs).bind (follow p)
  | _ :: _, _ => none

/-- Following the path meets objects only, and one of them lacks the next key. -/
def lacks : List String → Json → Bool
  | k :: p, .obj fs => (Assoc.get? k fs).all (lacks p)
  | _, _ => false

@[simp] theorem follow_nil (x : Json) : follow [] x = some x := by
  cases x <;> rfl

@[simp] theorem follow_cons_obj (k : String) (p : List String) (fs : List (String × Json)) :
    follow (k :: p) (.obj fs) = (Assoc.get? k fs).bind (follow p) := rfl

theorem follow_cons_eq_some {k : String} {p : List String} {t y : Json}
    (h : follow (k :: p) t = some y) :
    ∃ fs x, t = .obj fs ∧ Assoc.get? k fs = some x ∧ follow p x = some y := by
  cases t with
  | obj fs =>
    obtain ⟨x, hx, hy⟩ := Option.bind_eq_some_iff.1 h
    exact ⟨fs, x, rfl, hx, hy⟩
  | _ => simp [follow] at h

theorem lacks_nil (t : Json) : lacks [] t = false := by
  cases t <;> rfl

theorem lacks_cons {k : String} {p : List String} {t : Json} (h : lacks (k :: p) t) :
    ∃ fs, t = .obj fs ∧ ∀ x, Assoc.get? k fs = some x → lacks p x := by
  cases t with
  | obj fs =>
    refine ⟨fs, rfl, fun x hx => ?_⟩
    rwa [lacks, hx, Option.all_some] at h
  | _ => simp [lacks] at h

theorem canonical_getD {fs : List (String × Json)} (h : Canonical (.obj fs)) (k : String) :
    Canonical ((Assoc.get? k fs).getD .null) := by
  cases hk : Assoc.get? k fs with
  | none => trivial
  | some x => exact canonicalFields_iff.1 h.2 _ (Assoc.mem_of_get? hk)

/-- **What the update sets at a path, other than an object, is there after the merge.** -/
theorem follow_deepMerge_of_update {p : List String} {b u x : Json} (hb : Canonical b)
    (hu : Canonical u) (h : follow p u = some x) (hx : ∀ fs, x ≠ .obj fs) :
    follow p (deepMerge b u) = some x := by
  induction p generalizing b u with
  | nil =>
    obtain rfl : u = x := by simpa using h
    rw [deepMerge_of_not_obj hx, follow_nil]
  | cons k p ih =>
    obtain ⟨us, w, rfl, hw, hx'⟩ := follow_cons_eq_some h
    by_cases hobj : ∃ bs, b = .obj bs
    · obtain ⟨bs, rfl⟩ := hobj
      have hmem := Assoc.mem_of_get? hw
      have hcw : Canonical w := canonicalFields_iff.1 hu.2 _ hmem
      rw [deepMerge_obj, follow_cons_obj, get?_mergeFields_of_mem hu.1 hmem hb.1]
      exact ih (canonical_getD hb k) hcw hx'
    · rw [deepMerge_base_not_obj fun bs hbs => hobj ⟨bs, hbs⟩]
      exact h

/-- **What the base has at a path that the update leaves out is there after the merge.** -/
theorem follow_deepMerge_of_base {p : List String} {b u y : Json} (hb : Canonical b)
    (hu : Canonical u) (h : follow p b = some y) (hl : lacks p u) :
    follow p (deepMerge b u) = some y := by
  induction p generalizing b u with
  | nil => simp [lacks_nil] at hl
  | cons k p ih =>
    obtain ⟨bs, v, rfl, hv, hy⟩ := follow_cons_eq_some h
    obtain ⟨us, rfl, hus⟩ := lacks_cons hl
    rw [deepMerge_obj, follow_cons_obj]
    cases hk : Assoc.get? k us with
    | none =>
      have hne : ∀ q ∈ us, q.1 ≠ k := by
        rintro q hq rfl
        rw [Assoc.get?_of_mem hu.1 hq] at hk
        exact Option.some_ne_none _ hk
      rw [get?_mergeFields_of_not_mem hne, hv]
      exact hy
    | some w =>
      have hmem := Assoc.mem_of_get? hk
      have hcw : Canonical w := canonicalFields_iff.1 hu.2 _ hmem
      have hcv : Canonical v := canonicalFields_iff.1 hb.2 _ (Assoc.mem_of_get? hv)
      rw [get?_mergeFields_of_mem hu.1 hmem hb.1, hv]
      exact ih hcv hcw hy (hus w hk)

end Json

/-! ## Values -/

/-- A JSON value: a tree whose objects are maps. -/
structure Value where
  /-- The tree. -/
  json : Json
  canonical : json.Canonical

namespace Value

@[ext] theorem ext {a b : Value} (h : a.json = b.json) : a = b := by
  cases a; cases b; cases h; rfl

instance : DecidableEq Value := fun _ _ => decidable_of_iff _ Value.ext_iff.symm

/-- The object without fields. -/
def emptyObject : Value := ⟨.obj [], List.Pairwise.nil, trivial⟩

/-- `Json.deepMerge` on values. -/
def deepMerge (base update : Value) : Value :=
  ⟨base.json.deepMerge update.json, Json.canonical_deepMerge base.canonical update.canonical⟩

theorem deepMerge_idem (b u : Value) : (b.deepMerge u).deepMerge u = b.deepMerge u :=
  Value.ext (Json.deepMerge_deepMerge b.canonical u.canonical)

@[simp] theorem emptyObject_deepMerge (u : Value) : emptyObject.deepMerge u = u :=
  Value.ext (Json.deepMerge_empty u.canonical)

end Value

/-- The value of a tree. -/
def Json.toValue (x : Json) : Value := ⟨x.normalize, x.canonical_normalize⟩
