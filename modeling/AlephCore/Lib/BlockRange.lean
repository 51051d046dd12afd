import Mathlib.Algebra.Order.Ring.Nat
import Mathlib.Data.List.Range
import Mathlib.Tactic.Common

/-!
# BlockRange — numbered blocks, read range by range

`between f a b` is what the blocks from `a` to `b` hold, in order.  Ranges that follow each other are read one after the
other.  Block numbers are words of 64 bits: `add` is the sum, if it is one.
-/

namespace BlockRange

variable {α β : Type} {f : Nat → List α} {a b c : Nat}

/-- A sum that does not overflow. -/
def add (a b : Nat) : Option Nat := if a + b < 2 ^ 64 then some (a + b) else none

theorem add_eq_some : add a b = some c ↔ a + b < 2 ^ 64 ∧ a + b = c := by
  unfold add
  by_cases h : a + b < 2 ^ 64
  · rw [if_pos h, Option.some.injEq, and_iff_right h]
  · rw [if_neg h]
    exact iff_of_false (Option.some_ne_none c).symm fun hsum => h hsum.1

theorem add_eq_none : add a b = none ↔ 2 ^ 64 ≤ a + b := by
  unfold add
  by_cases h : a + b < 2 ^ 64
  · rw [if_pos h]
    exact iff_of_false (Option.some_ne_none _) (Nat.not_le.2 h)
  · rw [if_neg h]
    exact iff_of_true rfl (Nat.not_lt.1 h)

/-- What the blocks from `a` to `b` hold. -/
def between (f : Nat → List α) (a b : Nat) : List α := (List.range' a (b + 1 - a)).flatMap f

/-- What the blocks from `a` on and below `b` hold. -/
def before (f : Nat → List α) (a b : Nat) : List α := (List.range' a (b - a)).flatMap f

theorem before_self : before f a a = [] := by
  rw [before, Nat.sub_self]
  rfl

theorem before_append (hab : a ≤ b) (hbc : b ≤ c + 1) : before f a b ++ between f b c = before f a (c + 1) := by
  have hsplit : c + 1 - a = (b - a) + (c + 1 - b) := by omega
  have hstart : a + 1 * (b - a) = b := by omega
  rw [before, between, before, hsplit, ← List.range'_append, hstart, List.flatMap_append]

theorem between_of_lt (h : b < a) : between f a b = [] := by
  have hnone : b + 1 - a = 0 := by omega
  rw [between, hnone]
  rfl

theorem between_append (hab : a ≤ b + 1) (hbc : b ≤ c) : between f a b ++ between f (b + 1) c = between f a c := by
  have hsplit : c + 1 - a = (b + 1 - a) + (c + 1 - (b + 1)) := by omega
  have hstart : a + 1 * (b + 1 - a) = b + 1 := by omega
  rw [between, between, between, hsplit, ← List.range'_append, hstart, List.flatMap_append]

end BlockRange
