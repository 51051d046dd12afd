import Mathlib.Algebra.Order.Ring.Nat
import Mathlib.Data.List.Basic
import Mathlib.Tactic.Common

/-!
# Bytes — big-endian integers, and exact reads from a stream in chunks

A byte string is read as an integer, the most significant byte first, and an integer of 32 bits is
written as four bytes.  A stream comes as a list of chunks; reading an exact number of bytes from it
gives what reading from the chunks put together gives.
-/

namespace Bytes

/-! ## Integers -/

/-- The integer of which these are the bytes, the most significant first. -/
def bigEndian (bytes : List UInt8) : Nat := bytes.foldl (fun n b => 256 * n + b.toNat) 0

/-- The low 32 bits of an integer as four bytes, the most significant first. -/
def be32 (n : Nat) : List UInt8 :=
  [UInt8.ofNat (n / 2 ^ 24), UInt8.ofNat (n / 2 ^ 16), UInt8.ofNat (n / 2 ^ 8), UInt8.ofNat n]

@[simp] theorem length_be32 (n : Nat) : (be32 n).length = 4 := rfl

/-- **Four bytes keep the low 32 bits.** -/
theorem bigEndian_be32 (n : Nat) : bigEndian (be32 n) = n % 2 ^ 32 := by
  simp only [bigEndian, be32, List.foldl_cons, List.foldl_nil, UInt8.toNat_ofNat']
  omega

/-- A first byte that is not small makes the integer large. -/
theorem le_bigEndian_four {c : Nat} {bytes : List UInt8} (hlength : bytes.length = 4)
    (hc : ∀ b ∈ bytes, c ≤ b.toNat) : c * 2 ^ 24 ≤ bigEndian bytes := by
  match bytes, hlength with
  | [b0, b1, b2, b3], _ =>
    have h0 : c ≤ b0.toNat := hc b0 List.mem_cons_self
    simp only [bigEndian, List.foldl_cons, List.foldl_nil]
    omega

/-! ## Streams -/

section Streams

variable {α : Type} {n : Nat} {chunks rest : List (List α)} {b : List α}

/-- Read exactly `n` elements, and keep what is left; nothing if there are not enough. -/
def readExact (n : Nat) : List (List α) → Option (List α × List (List α))
  | [] => if n = 0 then some ([], []) else none
  | c :: cs =>
    if n ≤ c.length then some (c.take n, c.drop n :: cs)
    else (readExact (n - c.length) cs).map fun r => (c ++ r.1, r.2)

/-- **What is read and what is left are the stream, whatever the chunks.** -/
theorem readExact_eq_some (h : readExact n chunks = some (b, rest)) :
    b.length = n ∧ b ++ rest.flatten = chunks.flatten := by
  induction chunks generalizing n b with
  | nil =>
    rw [readExact] at h
    split_ifs at h with hn
    obtain ⟨rfl, rfl⟩ := Prod.mk.inj (Option.some.inj h)
    exact ⟨hn.symm, rfl⟩
  | cons c cs ih =>
    rw [readExact] at h
    split_ifs at h with hn
    · obtain ⟨rfl, rfl⟩ := Prod.mk.inj (Option.some.inj h)
      refine ⟨List.length_take_of_le hn, ?_⟩
      rw [List.flatten_cons, List.flatten_cons, ← List.append_assoc, List.take_append_drop]
    · obtain ⟨⟨b', rest'⟩, hr, heq⟩ := Option.map_eq_some_iff.1 h
      obtain ⟨rfl, rfl⟩ := Prod.mk.inj heq
      obtain ⟨hlen, hflat⟩ := ih hr
      refine ⟨?_, ?_⟩
      · rw [List.length_append, hlen]
        omega
      · rw [List.append_assoc, hflat, List.flatten_cons]

theorem readExact_eq_none : readExact n chunks = none ↔ chunks.flatten.length < n := by
  induction chunks generalizing n with
  | nil =>
    rw [readExact]
    split_ifs with hn
    · simp [hn]
    · simp only [List.flatten_nil, List.length_nil, true_iff]
      omega
  | cons c cs ih =>
    rw [readExact, List.flatten_cons, List.length_append]
    split_ifs with hn
    · simp only [false_iff]
      omega
    · rw [Option.map_eq_none_iff, ih]
      omega

/-- There is enough to read. -/
theorem exists_readExact (h : n ≤ chunks.flatten.length) :
    ∃ rest, readExact n chunks = some (chunks.flatten.take n, rest) ∧ rest.flatten = chunks.flatten.drop n := by
  cases hr : readExact n chunks with
  | none =>
    have hlt := readExact_eq_none.1 hr
    omega
  | some r =>
    obtain ⟨b, rest⟩ := r
    obtain ⟨hlen, hflat⟩ := readExact_eq_some hr
    refine ⟨rest, ?_, ?_⟩
    · rw [← hflat, ← hlen, List.take_left]
    · rw [← hflat, ← hlen, List.drop_left]

end Streams

end Bytes
