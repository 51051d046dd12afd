import Mathlib.Algebra.Order.Field.Rat
import Mathlib.Tactic.FieldSimp
import Mathlib.Tactic.LinearCombination
import Mathlib.Tactic.Ring

/-!
# FixedDecimal — decimals of 96 bits

A non-negative decimal is a mantissa of 96 bits and a scale of at most 28 decimals.  A product whose mantissa and
scale fit is exact, and so is a quotient that some decimal equals; what happens otherwise, rounding or an overflow,
is a parameter.
-/

structure FixedDecimal where
  mantissa : Nat
  scale : Nat
  mantissa_lt : mantissa < 2 ^ 96
  scale_le : scale ≤ 28

namespace FixedDecimal

def value (d : FixedDecimal) : ℚ := d.mantissa / 10 ^ d.scale

def zero : FixedDecimal := ⟨0, 0, by omega, by omega⟩

/-- An integer of 32 bits. -/
def ofU32 (n : UInt32) : FixedDecimal := ⟨n.toNat, 0, by have := n.toNat_lt; omega, by omega⟩

/-- Multiplication; zero has no decimals, and a product that does not fit is rounded, or overflows. -/
def mul (round : Nat → Nat → Option FixedDecimal) (a b : FixedDecimal) : Option FixedDecimal :=
  if a.mantissa = 0 ∨ b.mantissa = 0 then some zero
  else if h : a.mantissa * b.mantissa < 2 ^ 96 ∧ a.scale + b.scale ≤ 28 then
    some ⟨a.mantissa * b.mantissa, a.scale + b.scale, h.1, h.2⟩
  else round (a.mantissa * b.mantissa) (a.scale + b.scale)

variable {round : Nat → Nat → Option FixedDecimal} {a b : FixedDecimal}

theorem value_ofU32 (n : UInt32) : (ofU32 n).value = n.toNat := by
  show ((n.toNat : ℕ) : ℚ) / 10 ^ 0 = n.toNat
  rw [pow_zero, div_one]

/-- **A product that fits is exact.** -/
theorem mul_exact (hmantissa : a.mantissa * b.mantissa < 2 ^ 96) (hscale : a.scale + b.scale ≤ 28) :
    ∃ d, a.mul round b = some d ∧ d.value = a.value * b.value := by
  unfold mul
  by_cases hzero : a.mantissa = 0 ∨ b.mantissa = 0
  · refine ⟨zero, if_pos hzero, ?_⟩
    unfold value zero
    rcases hzero with h | h
    · simp [h]
    · simp [h]
  · refine ⟨⟨a.mantissa * b.mantissa, a.scale + b.scale, hmantissa, hscale⟩, ?_, ?_⟩
    · rw [if_neg hzero, dif_pos ⟨hmantissa, hscale⟩]
    · unfold value
      rw [Nat.cast_mul, pow_add, div_mul_div_comm]

/-- A small price times an integer of 32 bits fits. -/
theorem mul_ofU32 (hmantissa : a.mantissa < 2 ^ 64) (n : UInt32) :
    ∃ d, a.mul round (ofU32 n) = some d ∧ d.value = a.value * n.toNat := by
  have hn : n.toNat < 2 ^ 32 := n.toNat_lt
  have hfits : a.mantissa * (ofU32 n).mantissa < 2 ^ 96 := by
    have hlt : a.mantissa * n.toNat < 2 ^ 64 * 2 ^ 32 := Nat.mul_lt_mul'' hmantissa hn
    exact hlt
  have hscale : a.scale + (ofU32 n).scale ≤ 28 := a.scale_le
  obtain ⟨d, hd, hvalue⟩ : ∃ d, a.mul round (ofU32 n) = some d ∧ d.value = a.value * (ofU32 n).value :=
    mul_exact hfits hscale
  exact ⟨d, hd, by rw [hvalue, value_ofU32]⟩

/-! ## Digits and quotients -/

/-- Read the decimal digits of an integer; one of more than 96 bits is refused. -/
def ofDigits (digits : List Char) : Option FixedDecimal :=
  if h : Nat.ofDigitChars 10 digits 0 < 2 ^ 96 then some ⟨_, 0, h, by omega⟩ else none

/-- The numerator and the denominator of `a / b` with `s` decimals. -/
def numerator (a b : FixedDecimal) (s : Nat) : Nat := a.mantissa * 10 ^ (b.scale + s)

def denominator (a b : FixedDecimal) : Nat := b.mantissa * 10 ^ a.scale

/-- With `s` decimals the quotient is exact, and its mantissa fits. -/
def ExactAt (a b : FixedDecimal) (s : Nat) : Prop :=
  a.numerator b s % a.denominator b = 0 ∧ a.numerator b s / a.denominator b < 2 ^ 96

instance (a b : FixedDecimal) (s : Nat) : Decidable (ExactAt a b s) := inferInstanceAs (Decidable (_ ∧ _))

/-- Division; with the fewest decimals that make it exact, else rounded. -/
def div (round : FixedDecimal → FixedDecimal → Option FixedDecimal) (a b : FixedDecimal) : Option FixedDecimal :=
  if b.mantissa = 0 then none
  else match (List.finRange 29).find? fun s : Fin 29 => decide (ExactAt a b s.val) with
    | some s =>
      if h : a.numerator b s / a.denominator b < 2 ^ 96 then some ⟨_, s, h, by have := s.isLt; omega⟩ else none
    | none => round a b

theorem ofDigits_toDigits (n : Nat) :
    ofDigits (Nat.toDigits 10 n) = if h : n < 2 ^ 96 then some ⟨n, 0, h, by omega⟩ else none := by
  unfold ofDigits
  simp only [Nat.ofDigitChars_ten_toDigits]

/-- The quotient at a scale that makes it exact. -/
theorem value_exactAt {a b d : FixedDecimal} (hb : b.mantissa ≠ 0) (hexact : ExactAt a b d.scale)
    (hd : d.mantissa = a.numerator b d.scale / a.denominator b) : d.value = a.value / b.value := by
  have hmul : d.mantissa * (b.mantissa * 10 ^ a.scale) = a.mantissa * 10 ^ (b.scale + d.scale) := by
    rw [hd]
    exact Nat.div_mul_cancel (Nat.dvd_of_mod_eq_zero hexact.1)
  have hcast : (d.mantissa : ℚ) * (b.mantissa * 10 ^ a.scale) = a.mantissa * 10 ^ (b.scale + d.scale) := by
    exact_mod_cast hmul
  have hb' : (b.mantissa : ℚ) ≠ 0 := by exact_mod_cast hb
  unfold value
  rw [pow_add] at hcast
  field_simp
  linear_combination hcast

/-- **A quotient that a decimal equals is exact.** -/
theorem div_exact (round : FixedDecimal → FixedDecimal → Option FixedDecimal) {a b d : FixedDecimal}
    (hb : b.mantissa ≠ 0) (hd : d.value * b.value = a.value) :
    ∃ q, a.div round b = some q ∧ q.value = a.value / b.value := by
  have hb' : (b.mantissa : ℚ) ≠ 0 := by exact_mod_cast hb
  have hmul : d.mantissa * a.denominator b = a.numerator b d.scale := by
    unfold value at hd
    have hcast : (d.mantissa : ℚ) * (b.mantissa * 10 ^ a.scale) = a.mantissa * (10 ^ b.scale * 10 ^ d.scale) := by
      field_simp at hd
      linear_combination hd
    unfold denominator numerator
    rw [pow_add]
    exact_mod_cast hcast
  have hpos : 0 < a.denominator b := Nat.mul_pos (Nat.pos_of_ne_zero hb) (Nat.pow_pos (by omega))
  have hexact : ExactAt a b d.scale := by
    refine ⟨?_, ?_⟩
    · rw [← hmul, Nat.mul_mod_left]
    · rw [← hmul, Nat.mul_div_cancel _ hpos]
      exact d.mantissa_lt
  obtain ⟨s, hs⟩ : ∃ s, (List.finRange 29).find? (fun s : Fin 29 => decide (ExactAt a b s.val)) = some s := by
    refine Option.isSome_iff_exists.1 (List.find?_isSome.2 ?_)
    have hlt : d.scale < 29 := by have := d.scale_le; omega
    exact ⟨⟨d.scale, hlt⟩, List.mem_finRange _, by simpa using hexact⟩
  have hat : ExactAt a b s := by simpa using List.find?_some hs
  refine ⟨⟨_, s, hat.2, by have := s.isLt; omega⟩, ?_, value_exactAt hb hat rfl⟩
  rw [div, if_neg hb, hs]
  exact dif_pos hat.2

end FixedDecimal
