import AlephCore.Lib.Table
import Mathlib.Algebra.Order.BigOperators.Group.List
import Mathlib.Algebra.Order.Ring.Nat

/-!
# TableSum — what the rows of a table add up to

The sum of a number taken from each row, and what each way of writing does to it.
-/

namespace Table

variable {ρ κ : Type} {key : ρ → κ} {t : Table ρ key} {r : ρ} {w : ρ → Nat}

/-- `SELECT SUM(w) FROM t`. -/
def total (t : Table ρ key) (w : ρ → Nat) : Nat := (t.rows.map w).sum

@[simp] theorem total_empty : (empty : Table ρ key).total w = 0 := rfl

theorem sum_of_perm {rows : List ρ} (h : rows.Perm t.rows) : (rows.map w).sum = t.total w := (h.map w).sum_eq

theorem le_total (h : r ∈ t) : w r ≤ t.total w := List.le_sum_of_mem (List.mem_map_of_mem h)

/-- Without the rows that are deleted, the sum is that of the others. -/
theorem total_delete (t : Table ρ key) (p : ρ → Prop) [DecidablePred p] :
    (t.delete p).total w + ((t.rows.filter fun r => p r).map w).sum = t.total w := by
  unfold total delete
  dsimp only
  generalize t.rows = rows
  induction rows with
  | nil => rfl
  | cons r rows ih =>
    by_cases hp : p r
    · rw [List.filter_cons_of_neg (by simpa using hp), List.filter_cons_of_pos (by simpa using hp), List.map_cons,
        List.map_cons, List.sum_cons, List.sum_cons]
      omega
    · rw [List.filter_cons_of_pos (by simpa using hp), List.filter_cons_of_neg (by simpa using hp), List.map_cons,
        List.map_cons, List.sum_cons, List.sum_cons]
      omega

theorem total_delete_le (t : Table ρ key) (p : ρ → Prop) [DecidablePred p] : (t.delete p).total w ≤ t.total w := by
  have h := total_delete (w := w) t p
  omega

theorem total_delete_add_le {p : ρ → Prop} [DecidablePred p] (h : r ∈ t) (hp : p r) :
    (t.delete p).total w + w r ≤ t.total w := by
  have hsplit := total_delete (w := w) t p
  have hmem : r ∈ t.rows.filter fun r => p r := List.mem_filter.2 ⟨h, decide_eq_true hp⟩
  have hle : w r ≤ ((t.rows.filter fun r => p r).map w).sum := List.le_sum_of_mem (List.mem_map_of_mem hmem)
  omega

/-- Columns that the sum does not look at may change. -/
theorem total_update {p : ρ → Prop} [DecidablePred p] {f : ρ → ρ} {hf : ∀ r, key (f r) = key r}
    (hw : ∀ r, w (f r) = w r) : (t.update p f hf).total w = t.total w := by
  unfold total update
  dsimp only
  rw [List.map_map]
  refine congrArg List.sum (List.map_congr_left fun r _ => ?_)
  by_cases hp : p r <;> simp [hp, hw]

/-- An update that changes nothing. -/
theorem update_eq_self {p : ρ → Prop} [DecidablePred p] {f : ρ → ρ} (hf : ∀ r, key (f r) = key r)
    (h : ∀ r ∈ t, p r → f r = r) : t.update p f hf = t := by
  ext1
  unfold update
  refine (List.map_congr_left fun r hr => ?_).trans (List.map_id _)
  by_cases hp : p r
  · rw [if_pos hp]
    exact h r hr hp
  · rw [if_neg hp]
    rfl

theorem total_insertNew_le [DecidableEq κ] : (t.insertNew r).total w ≤ t.total w + w r := by
  rw [insertNew]
  split_ifs
  · omega
  · show ((t.rows ++ [r]).map w).sum ≤ (t.rows.map w).sum + w r
    rw [List.map_append, List.sum_append, List.map_singleton, List.sum_singleton]

end Table
