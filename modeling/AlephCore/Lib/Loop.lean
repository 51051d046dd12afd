import Mathlib.Data.Prod.Lex
import Mathlib.Tactic.Common

/-!
# Loop — what holds of a loop that asks someone else

A turn of a loop goes on with a new state or ends with a result; it is told how many turns there were before it, so
that an answer from outside may depend on them.  `run` makes at most so many turns.  What every turn keeps holds where
the loop ends, a measure that goes down brings it to an end, and a loop that cannot leave a set of states has none.
-/

namespace Loop

variable {σ ρ : Type}

/-- How a turn ends. -/
inductive Next (σ ρ : Type) where
  | again (s : σ)
  | done (r : ρ)

/-- The result after at most so many turns, if there is one by then. -/
def run (turn : Nat → σ → Next σ ρ) : Nat → Nat → σ → Option ρ
  | 0, _, _ => none
  | fuel + 1, before, s =>
    match turn before s with
    | .again t => run turn fuel (before + 1) t
    | .done r => some r

variable {turn : Nat → σ → Next σ ρ}

/-- **Partial correctness**: from an invariant of the turns to the result. -/
theorem of_run (inv : σ → Prop) (post : ρ → Prop) (hagain : ∀ before s t, inv s → turn before s = .again t → inv t)
    (hdone : ∀ before s r, inv s → turn before s = .done r → post r) {fuel before : Nat} {s : σ} {r : ρ} (hs : inv s)
    (hrun : run turn fuel before s = some r) : post r := by
  induction fuel generalizing before s with
  | zero => cases hrun
  | succ fuel ih =>
    rw [run] at hrun
    cases hturn : turn before s with
    | again t =>
      rw [hturn] at hrun
      exact ih (hagain before s t hs hturn) hrun
    | done r' =>
      rw [hturn] at hrun
      obtain rfl := Option.some.inj hrun
      exact hdone before s r' hs hturn

/-- **Termination**: within an invariant, a pair of numbers goes down in the order of its first difference. -/
theorem exists_run (inv : σ → Prop) (measure : σ → Nat × Nat)
    (hagain : ∀ before s t, inv s → turn before s = .again t →
      inv t ∧ Prod.Lex (· < ·) (· < ·) (measure t) (measure s))
    (before : Nat) (s : σ) (hs : inv s) : ∃ fuel, (run turn fuel before s).isSome := by
  have hwf : WellFounded fun s t : σ => Prod.Lex (· < ·) (· < ·) (measure s) (measure t) :=
    InvImage.wf measure (WellFounded.prod_lex Nat.lt_wfRel.wf Nat.lt_wfRel.wf)
  induction s using hwf.induction generalizing before with
  | _ s ih =>
    cases hturn : turn before s with
    | again t =>
      obtain ⟨ht, hless⟩ := hagain before s t hs hturn
      obtain ⟨fuel, hfuel⟩ := ih t hless (before + 1) ht
      refine ⟨fuel + 1, ?_⟩
      rw [run, hturn]
      exact hfuel
    | done r =>
      refine ⟨1, ?_⟩
      rw [run, hturn]
      rfl

/-- **Divergence**: an invariant under which every turn goes on. -/
theorem run_eq_none (inv : σ → Prop) (hagain : ∀ before s, inv s → ∃ t, turn before s = .again t ∧ inv t) {s : σ}
    (hs : inv s) (fuel before : Nat) : run turn fuel before s = none := by
  induction fuel generalizing before s with
  | zero => rfl
  | succ fuel ih =>
    obtain ⟨t, hturn, ht⟩ := hagain before s hs
    rw [run, hturn]
    exact ih ht (before + 1)

end Loop
