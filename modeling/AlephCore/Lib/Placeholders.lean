import Mathlib.Data.List.Basic
import Mathlib.Data.List.TakeWhile
import Mathlib.Tactic.Common

/-!
# Placeholders — the numbered parameters of an SQL text

A parameter is a dollar sign with digits behind it.  `Adds` says which parameters a piece of text adds, whatever
stands before it; pieces that add consecutive parameters add them together.
-/

namespace Placeholders

/-- The digits behind each dollar sign of a text. -/
def placeholders : List Char → List (List Char)
  | [] => []
  | c :: cs => if c = '$' then cs.takeWhile Char.isDigit :: placeholders cs else placeholders cs

/-- The text does not go on with a digit. -/
def Plain (cs : List Char) : Prop := ∀ c ∈ cs.head?, c.isDigit = false

theorem Plain.append {cs ds : List Char} (h : Plain cs) (h' : Plain ds) : Plain (cs ++ ds) := by
  cases cs with
  | nil => exact h'
  | cons c cs => exact h

theorem takeWhile_append_plain {cs ds : List Char} (h : Plain ds) :
    (cs ++ ds).takeWhile Char.isDigit = cs.takeWhile Char.isDigit := by
  induction cs with
  | nil =>
    cases ds with
    | nil => rfl
    | cons d ds =>
      have hd : d.isDigit = false := h d rfl
      rw [List.nil_append, List.takeWhile_cons, hd]
      rfl
  | cons c cs ih =>
    rw [List.cons_append, List.takeWhile_cons, List.takeWhile_cons, ih]

/-- No parameter goes on over a seam. -/
theorem placeholders_append {cs ds : List Char} (h : Plain ds) :
    placeholders (cs ++ ds) = placeholders cs ++ placeholders ds := by
  induction cs with
  | nil => rfl
  | cons c cs ih =>
    rw [List.cons_append, placeholders, placeholders, takeWhile_append_plain h, ih]
    by_cases hc : c = '$'
    · rw [if_pos hc, if_pos hc]
      rfl
    · rw [if_neg hc, if_neg hc]

theorem placeholders_eq_nil {cs : List Char} (h : '$' ∉ cs) : placeholders cs = [] := by
  induction cs with
  | nil => rfl
  | cons c cs ih =>
    obtain ⟨hc, hcs⟩ := not_or.1 (List.mem_cons.not.1 h)
    rw [placeholders, if_neg (Ne.symm hc), ih hcs]

/-! ## Pieces of text -/

/-- The piece adds the `k` parameters from number `m` on. -/
structure Adds (label : Nat → List Char) (cs : List Char) (m k : Nat) : Prop where
  plain : Plain cs
  placeholders : placeholders cs = (List.range' m k).map label

variable {label : Nat → List Char} {cs ds : List Char} {m k l : Nat}

theorem Adds.append (h : Adds label cs m k) (h' : Adds label ds (m + k) l) : Adds label (cs ++ ds) m (k + l) := by
  refine ⟨h.plain.append h'.plain, ?_⟩
  have hrange : List.range' m (k + l) = List.range' m k ++ List.range' (m + k) l := by
    rw [← List.range'_append, Nat.one_mul]
  rw [placeholders_append h'.plain, h.placeholders, h'.placeholders, hrange, List.map_append]

/-- A piece without a dollar sign adds none. -/
theorem Adds.code (hplain : Plain cs) (h : '$' ∉ cs) : Adds label cs m 0 := ⟨hplain, placeholders_eq_nil h⟩

theorem Adds.code_append (hplain : Plain cs) (h : '$' ∉ cs) (h' : Adds label ds m k) : Adds label (cs ++ ds) m k := by
  have happend := (Adds.code hplain h (m := m)).append h'
  rwa [Nat.zero_add] at happend

theorem Adds.append_code (h : Adds label cs m k) (hplain : Plain ds) (h' : '$' ∉ ds) : Adds label (cs ++ ds) m k :=
  h.append (.code hplain h')

/-- One parameter. -/
theorem Adds.one (hlabel : ds.takeWhile Char.isDigit = label m) (h : '$' ∉ ds) : Adds label ('$' :: ds) m 1 := by
  refine ⟨fun c hc => ?_, ?_⟩
  · obtain rfl := Option.some.inj hc
    decide
  · rw [Placeholders.placeholders, if_pos rfl, placeholders_eq_nil h, hlabel]
    rfl

/-- Parameters with a separator between them. -/
theorem Adds.intercalate {sep : List Char} (hplain : Plain sep) (hsep : '$' ∉ sep) {text : Nat → List Char}
    (h : ∀ i, Adds label (text i) i 1) : Adds label (sep.intercalate ((List.range' m k).map text)) m k := by
  induction k generalizing m with
  | zero => exact .code (fun c hc => absurd hc (Option.not_mem_none c)) List.not_mem_nil
  | succ k ih =>
    rw [List.range'_succ, List.map_cons]
    cases k with
    | zero =>
      have hone : sep.intercalate (text m :: (List.range' (m + 1) 0).map text) = text m := by
        simp [List.intercalate]
      rw [hone]
      exact h m
    | succ k =>
      have hrest := ih (m := m + 1)
      have hcons : sep.intercalate (text m :: (List.range' (m + 1) (k + 1)).map text) =
          text m ++ (sep ++ sep.intercalate ((List.range' (m + 1) (k + 1)).map text)) := by
        rw [List.range'_succ, List.map_cons]
        simp [List.intercalate]
      rw [hcons, Nat.add_comm (k + 1) 1]
      exact (h m).append (.code_append hplain hsep hrest)

end Placeholders
