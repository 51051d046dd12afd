import Mathlib.Data.List.Sort
import Mathlib.Tactic.Common

/-!
# ChronoFold — folding a collection in the order of a relation

`chronoFold r merge b l` merges the elements of `l` onto `b` in the order `r`.  It depends on the
elements only (`chronoFold_perm`), the newest one can be merged last (`chronoFold_append`), and with an
idempotent merge the newest one may be merged once more (`chronoFold_absorb`).  Two elements that are
equivalent under `r` must be equal for this; `Strict` says so for the elements of a list.
-/

variable {ε β : Type}

/-- Elements of `l` that precede each other are equal. -/
def Strict (r : ε → ε → Prop) (l : List ε) : Prop :=
  ∀ x ∈ l, ∀ y ∈ l, r x y → r y x → x = y

/-- Merge the elements of `l` onto `b` in the order `r`. -/
def chronoFold (r : ε → ε → Prop) [DecidableRel r] (merge : β → ε → β) (b : β) (l : List ε) : β :=
  (l.insertionSort r).foldl merge b

theorem Strict.of_subset {r : ε → ε → Prop} {l l' : List ε} (h : Strict r l)
    (hsub : ∀ x ∈ l', x ∈ l) : Strict r l' :=
  fun x hx y hy => h x (hsub x hx) y (hsub y hy)

@[simp] theorem chronoFold_singleton {r : ε → ε → Prop} [DecidableRel r] {merge : β → ε → β} {b : β}
    (e : ε) : chronoFold r merge b [e] = merge b e := by
  simp [chronoFold]

section

variable {r : ε → ε → Prop} [DecidableRel r] [Std.Total r] [IsTrans ε r] {merge : β → ε → β} {b : β}

theorem insertionSort_eq_of_perm {l l' : List ε} (hp : l.Perm l') (hs : Strict r l) :
    l.insertionSort r = l'.insertionSort r := by
  have h : (l.insertionSort r).Perm (l'.insertionSort r) :=
    ((List.perm_insertionSort r l).trans hp).trans (List.perm_insertionSort r l').symm
  refine h.eq_of_pairwise ?_ (List.pairwise_insertionSort r l) (List.pairwise_insertionSort r l')
  intro x y hx hy
  rw [List.mem_insertionSort] at hx hy
  exact hs x hx y (hp.mem_iff.2 hy)

/-- **The fold depends on the elements only, not on the order they are listed in.** -/
theorem chronoFold_perm {l l' : List ε} (hp : l.Perm l') (hs : Strict r l) :
    chronoFold r merge b l = chronoFold r merge b l' := by
  rw [chronoFold, chronoFold, insertionSort_eq_of_perm hp hs]

theorem insertionSort_append_newest {l : List ε} {e : ε} (hs : Strict r (l ++ [e]))
    (hnew : ∀ x ∈ l, r x e) : (l ++ [e]).insertionSort r = l.insertionSort r ++ [e] := by
  have hp : ((l ++ [e]).insertionSort r).Perm (l.insertionSort r ++ [e]) :=
    (List.perm_insertionSort r _).trans ((List.perm_insertionSort r l).symm.append_right [e])
  have hsorted : (l.insertionSort r ++ [e]).Pairwise r := by
    refine List.pairwise_append.2 ⟨List.pairwise_insertionSort r l, List.pairwise_singleton r e, ?_⟩
    intro x hx y hy
    rw [List.mem_singleton.1 hy]
    exact hnew x ((List.mem_insertionSort r).1 hx)
  refine hp.eq_of_pairwise ?_ (List.pairwise_insertionSort r _) hsorted
  intro x y hx hy
  rw [List.mem_insertionSort] at hx
  exact hs x hx y ((List.mem_insertionSort r).1 (hp.mem_iff.2 hy))

/-- **The newest element is merged last.** -/
theorem chronoFold_append {l : List ε} {e : ε} (hs : Strict r (l ++ [e])) (hnew : ∀ x ∈ l, r x e) :
    chronoFold r merge b (l ++ [e]) = merge (chronoFold r merge b l) e := by
  rw [chronoFold, insertionSort_append_newest hs hnew, List.foldl_append]
  rfl

variable (r merge b) in
/-- A collection that is not empty ends with its newest element. -/
theorem chronoFold_newest {l : List ε} (hl : l ≠ []) :
    ∃ e ∈ l, (∀ x ∈ l, x = e ∨ r x e) ∧ ∃ s, chronoFold r merge b l = merge s e := by
  have hne : l.insertionSort r ≠ [] := by
    intro h
    have := congrArg List.length h
    rw [List.length_insertionSort] at this
    exact hl (List.length_eq_zero_iff.1 this)
  obtain ⟨init, e, he⟩ : ∃ init e, l.insertionSort r = init ++ [e] :=
    ⟨_, _, (List.dropLast_append_getLast hne).symm⟩
  have hmem : ∀ x, x ∈ l ↔ x ∈ init ++ [e] := fun x => by rw [← he, List.mem_insertionSort]
  refine ⟨e, (hmem e).2 (by simp), fun x hx => ?_, init.foldl merge b, ?_⟩
  · rcases List.mem_append.1 ((hmem x).1 hx) with hx | hx
    · have hsorted := List.pairwise_insertionSort r l
      rw [he] at hsorted
      exact .inr ((List.pairwise_append.1 hsorted).2.2 x hx e (by simp))
    · exact .inl (List.mem_singleton.1 hx)
  · rw [chronoFold, he, List.foldl_append]
    rfl

/-- **Merging the newest element again changes nothing**, if merging twice is merging once. -/
theorem chronoFold_absorb (hidem : ∀ s e, merge (merge s e) e = merge s e) {l : List ε} {e : ε}
    (hs : Strict r l) (he : e ∈ l) (hnew : ∀ x ∈ l, r x e) :
    merge (chronoFold r merge b l) e = chronoFold r merge b l := by
  have hl : l ≠ [] := List.ne_nil_of_mem he
  obtain ⟨e', he', hmax, s, hfold⟩ := chronoFold_newest r merge b hl
  have heq : e = e' := by
    rcases hmax e he with h | h
    · exact h
    · exact hs e he e' he' h (hnew e' he')
  rw [hfold, heq, hidem]

end
