import Mathlib.Data.List.Sort

/-!
# Keyset — a sorted list, read from behind an element

`after l a` is what comes behind `a` in a list that a strict order sorts, whether `a` is in the list or not.  Behind the
last element of a page is what the page has left, and the elements of a list that are behind `a` can be selected before
the list is sorted.
-/

namespace Keyset

variable {α : Type} {lt le : α → α → Prop}

/-- The elements behind `a`. -/
def after (lt : α → α → Prop) [DecidableRel lt] (l : List α) (a : α) : List α := l.filter fun b => decide (lt a b)

variable [DecidableRel lt] {l : List α} {a b : α} {n : Nat}

theorem mem_after : b ∈ after lt l a ↔ b ∈ l ∧ lt a b := by
  simp [after]

theorem after_sublist (l : List α) (a : α) : (after lt l a).Sublist l := List.filter_sublist

theorem after_pairwise (hl : l.Pairwise lt) (a : α) : (after lt l a).Pairwise lt := hl.sublist (after_sublist l a)

/-- Behind an element of a sorted list are the elements that follow it. -/
theorem after_of_split {init rest : List α} (hirrefl : ∀ a, ¬ lt a a) (htrans : ∀ a b c, lt a b → lt b c → lt a c)
    (hl : (init ++ b :: rest).Pairwise lt) : after lt (init ++ b :: rest) b = rest := by
  obtain ⟨-, htail, hcross⟩ := List.pairwise_append.1 hl
  obtain ⟨hb, -⟩ := List.pairwise_cons.1 htail
  have hinit : init.filter (fun c => decide (lt b c)) = [] := by
    refine List.filter_eq_nil_iff.2 fun c hc => ?_
    rw [decide_eq_true_eq]
    exact fun h => hirrefl b (htrans b c b h (hcross c hc b List.mem_cons_self))
  have hrest : rest.filter (fun c => decide (lt b c)) = rest :=
    List.filter_eq_self.2 fun c hc => decide_eq_true (hb c hc)
  rw [after, List.filter_append, hinit, List.nil_append, List.filter_cons_of_neg (by simpa using hirrefl b), hrest]

/-- What is behind an element that is behind `a`. -/
theorem after_after (htrans : ∀ a b c, lt a b → lt b c → lt a c) (h : lt a b) :
    after lt (after lt l a) b = after lt l b := by
  rw [after, after, List.filter_filter]
  refine List.filter_congr fun c _ => ?_
  rw [Bool.and_eq_left_iff_imp]
  intro hbc
  exact decide_eq_true (htrans a b c h (of_decide_eq_true hbc))

/-- **Behind the last element of a page is what the page has left.** -/
theorem after_getElem (hirrefl : ∀ a, ¬ lt a a) (htrans : ∀ a b c, lt a b → lt b c → lt a c) (hl : l.Pairwise lt)
    (hn : 0 < n) (hb : (after lt l a)[n - 1]? = some b) : after lt l b = (after lt l a).drop n := by
  obtain ⟨hlength, hget⟩ := List.getElem?_eq_some_iff.1 hb
  have hsplit : after lt l a = (after lt l a).take (n - 1) ++ b :: (after lt l a).drop n := by
    conv_lhs => rw [← List.take_append_drop (n - 1) (after lt l a)]
    rw [List.drop_eq_getElem_cons hlength, hget, Nat.sub_add_cancel hn]
  have hbehind : lt a b := (mem_after.1 (List.mem_of_getElem? hb)).2
  have hsorted := after_pairwise hl a
  rw [← after_after (l := l) htrans hbehind]
  rw [hsplit] at hsorted
  conv_lhs => rw [hsplit]
  exact after_of_split hirrefl htrans hsorted

/-- **Selecting and sorting commute**, if no two elements of the list come before each other. -/
theorem insertionSort_filter [DecidableRel le] [Std.Total le] [IsTrans α le] (p : α → Bool)
    (hanti : ∀ a ∈ l, ∀ b ∈ l, le a b → le b a → a = b) :
    (l.filter p).insertionSort le = (l.insertionSort le).filter p := by
  have hperm : ((l.filter p).insertionSort le).Perm ((l.insertionSort le).filter p) :=
    (List.perm_insertionSort le _).trans ((List.perm_insertionSort le l).symm.filter p)
  refine hperm.eq_of_pairwise (fun a b ha hb => ?_) (List.pairwise_insertionSort le _)
    ((List.pairwise_insertionSort le l).sublist List.filter_sublist)
  have ha' : a ∈ l := List.mem_of_mem_filter ((List.mem_insertionSort le).1 ha)
  have hb' : b ∈ l := (List.mem_insertionSort le).1 (List.mem_of_mem_filter hb)
  exact hanti a ha' b hb'

end Keyset
