import Mathlib.Data.List.Sort
import Mathlib.Order.Basic

/-!
# Pages — a list sorted by time, read page by page

A page holds the first `n` elements of a sorted list, and the time of its last element is where the next page starts.
What a page holds, and how many elements are left behind it.
-/

namespace Pages

variable {α τ : Type} [LinearOrder τ] {time : α → τ} {l : List α} {n : Nat} {a x : α} {t : τ}

/-- If at most `n` elements come no later than `t`, the first `n` hold them all. -/
theorem mem_take_of_countP_le (hl : l.Pairwise fun a b => time a ≤ time b)
    (hcount : l.countP (fun a => decide (time a ≤ t)) ≤ n) (hx : x ∈ l) (hxt : time x ≤ t) : x ∈ l.take n := by
  induction l generalizing n with
  | nil => exact absurd hx List.not_mem_nil
  | cons b l ih =>
    obtain ⟨hb, hl⟩ := List.pairwise_cons.1 hl
    have hbt : time b ≤ t := by
      rcases List.mem_cons.1 hx with rfl | hx
      · exact hxt
      · exact (hb x hx).trans hxt
    have hcons : (b :: l).countP (fun a => decide (time a ≤ t)) = l.countP (fun a => decide (time a ≤ t)) + 1 :=
      List.countP_cons_of_pos (p := fun a => decide (time a ≤ t)) (decide_eq_true hbt)
    rw [hcons] at hcount
    cases n with
    | zero => omega
    | succ n =>
      rw [List.take_succ_cons]
      rcases List.mem_cons.1 hx with rfl | hx
      · exact List.mem_cons_self
      · exact List.mem_cons_of_mem b (ih hl (by omega) hx)

/-- A page that is not full holds everything. -/
theorem mem_take_of_length_lt (h : (l.take n).length < n) (hx : x ∈ l) : x ∈ l.take n := by
  rw [List.length_take] at h
  rwa [List.take_of_length_le (by omega)]

/-- Nothing on a page is later than its last element. -/
theorem le_getLast (hl : l.Pairwise fun a b => time a ≤ time b) (ha : (l.take n).getLast? = some a)
    (hx : x ∈ l.take n) : time x ≤ time a := by
  obtain ⟨init, hinit⟩ := List.getLast?_eq_some_iff.1 ha
  have hpage : (init ++ [a]).Pairwise fun a b => time a ≤ time b := hinit ▸ hl.sublist (List.take_sublist n l)
  rw [hinit] at hx
  rcases List.mem_append.1 hx with hx | hx
  · exact (List.pairwise_append.1 hpage).2.2 x hx a (List.mem_singleton_self a)
  · exact le_of_eq (congrArg time (List.mem_singleton.1 hx))

/-- Behind a full page at least `n` elements are left. -/
theorem countP_after_full (hl : l.Pairwise fun a b => time a ≤ time b) (ha : (l.take n).getLast? = some a)
    (hfull : n ≤ (l.take n).length) : l.countP (fun b => decide (time a < time b)) + n ≤ l.length := by
  have hpage : (l.take n).countP (fun b => decide (time a < time b)) = 0 := by
    refine List.countP_eq_zero.2 fun b hb => ?_
    rw [decide_eq_true_eq, not_lt]
    exact le_getLast hl ha hb
  have hsplit : l.countP (fun b => decide (time a < time b)) =
      (l.drop n).countP fun b => decide (time a < time b) := by
    conv_lhs => rw [← List.take_append_drop n l, List.countP_append, hpage, Nat.zero_add]
  have hdrop := List.countP_le_length (p := fun b => decide (time a < time b)) (l := l.drop n)
  rw [List.length_drop] at hdrop
  rw [List.length_take] at hfull
  omega

end Pages
