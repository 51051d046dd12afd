import Mathlib.Data.List.Basic
import Mathlib.Tactic.Common

/-!
# Torn — what stands in a file while several programs write one content to it

Each program truncates the file and then writes the content piece by piece, at an offset of its own.  Where a piece
begins behind the end of the file, the gap is filled.  A file is torn if every element is that of the content or
filled in, and no piece that is written tears it further than that.
-/

namespace Torn

variable {α : Type} {z : α} {content old : List α}

/-- A piece written at an offset; a gap before it is filled with `z`. -/
def splice (z : α) (old : List α) (offset : Nat) (piece : List α) : List α :=
  old.take offset ++ List.replicate (offset - old.length) z ++ piece ++ old.drop (offset + piece.length)

theorem getElem?_splice (offset i : Nat) (piece : List α) :
    (splice z old offset piece)[i]? =
      if i < offset then if i < old.length then old[i]? else some z
      else if i < offset + piece.length then piece[i - offset]? else old[i]? := by
  have hfront : (old.take offset ++ List.replicate (offset - old.length) z).length = offset := by
    rw [List.length_append, List.length_take, List.length_replicate]
    omega
  unfold splice
  rw [List.append_assoc, List.getElem?_append, hfront]
  by_cases hi : i < offset
  · rw [if_pos hi, if_pos hi, List.getElem?_append, List.length_take]
    by_cases hold : i < old.length
    · rw [if_pos (by omega), if_pos hold, List.getElem?_take_of_lt hi]
    · rw [if_neg (by omega), if_neg hold, List.getElem?_replicate, if_pos (by omega)]
  · rw [if_neg hi, if_neg hi, List.getElem?_append]
    by_cases hpiece : i < offset + piece.length
    · rw [if_pos (by omega), if_pos hpiece]
    · rw [if_neg (by omega), if_neg hpiece, List.getElem?_drop]
      congr 1
      omega

theorem length_splice (offset : Nat) (piece : List α) :
    (splice z old offset piece).length = max old.length (offset + piece.length) := by
  simp only [splice, List.length_append, List.length_take, List.length_replicate, List.length_drop]
  omega

/-- The next piece behind what is written. -/
theorem splice_take {offset : Nat} (h : offset ≤ content.length) (count : Nat) :
    splice z (content.take offset) offset ((content.drop offset).take count) = content.take (offset + count) := by
  have hlength : (content.take offset).length = offset := List.length_take_of_le h
  have hdrop : (content.take offset).drop (offset + ((content.drop offset).take count).length) = [] :=
    List.drop_eq_nil_of_le (by omega)
  rw [splice, hlength, Nat.sub_self, List.replicate_zero, List.append_nil, List.take_take, Nat.min_self, hdrop,
    List.append_nil, ← List.take_add]

end Torn

/-- Every element is that of the content at this place, or filled in, and there are no more than the content has. -/
structure Torn {α : Type} (z : α) (content bytes : List α) : Prop where
  length : bytes.length ≤ content.length
  element : ∀ (i : Nat) (x : α), bytes[i]? = some x → content[i]? = some x ∨ x = z

namespace Torn

variable {α : Type} {z : α} {content old bytes : List α}

theorem refl (z : α) (content : List α) : Torn z content content where
  length := Nat.le_refl _
  element _ _ h := .inl h

theorem nil (z : α) (content : List α) : Torn z content [] where
  length := Nat.zero_le _
  element i x h := by simp at h

/-- Writing a piece of the content at its place. -/
theorem spliced (h : Torn z content old) {offset : Nat} (hoffset : offset ≤ content.length) (count : Nat) :
    Torn z content (splice z old offset ((content.drop offset).take count)) := by
  have hlength := h.length
  have hpiece : ((content.drop offset).take count).length ≤ content.length - offset := by
    rw [List.length_take, List.length_drop]
    omega
  constructor
  · rw [length_splice]
    omega
  · intro i x hx
    rw [getElem?_splice] at hx
    split_ifs at hx with hbefore hold hwithin
    · exact h.element i x hx
    · exact .inr (Option.some.inj hx).symm
    · refine .inl ?_
      have hcount : i - offset < count := by
        rw [List.length_take] at hwithin
        omega
      rw [List.getElem?_take_of_lt hcount, List.getElem?_drop, Nat.add_sub_cancel' (Nat.le_of_not_lt hbefore)] at hx
      exact hx
    · exact h.element i x hx

/-- Reading on where an earlier piece ended, from the file as it is then. -/
theorem read (h : Torn z content bytes) (hold : Torn z content old) (count : Nat) :
    Torn z content (bytes ++ (old.drop bytes.length).take count) := by
  have hlength := h.length
  have hlength' := hold.length
  constructor
  · rw [List.length_append, List.length_take, List.length_drop]
    omega
  · intro i x hx
    rw [List.getElem?_append] at hx
    split_ifs at hx with hi
    · exact h.element i x hx
    · have hcount : i - bytes.length < count := by
        by_contra hcount
        rw [List.getElem?_take, if_neg hcount] at hx
        cases hx
      rw [List.getElem?_take_of_lt hcount, List.getElem?_drop, Nat.add_sub_cancel' (Nat.le_of_not_lt hi)] at hx
      exact hold.element i x hx

end Torn
