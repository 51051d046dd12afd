import AlephCore.Lib.Prog

/-!
# Checks — programs that read and pass every error on

An execution is `Faulty` when a statement of it is refused.  `Checks` are the programs made of queries and pure
parts in which no part hides its error from the rest.  They leave the store alone, and a faulty execution of one
ends in an error.
-/

namespace Prog

variable {σ δ α β : Type}

/-- An execution in which at least one statement is refused. -/
inductive Faulty : Prog σ δ α → σ → α → σ → Prop
  | step {ρ : Type} {f : σ → Except δ ρ × σ} {k : Except δ ρ → Prog σ δ α} {s s' : σ} {a : α}
      (h : Faulty (k (f s).1) (f s).2 a s') : Faulty (.stmt f k) s a s'
  | refused {ρ : Type} {f : σ → Except δ ρ × σ} {k : Except δ ρ → Prog σ δ α} {s s' : σ} {a : α}
      (e : δ) (h : Exec (k (.error e)) s a s') : Faulty (.stmt f k) s a s'

theorem Faulty.exec {p : Prog σ δ α} {s s' : σ} {a : α} (h : Faulty p s a s') : Exec p s a s' := by
  induction h with
  | step _ ih => exact .step ih
  | refused e h => exact .refused e h

theorem not_faulty_pure {a b : α} {s s' : σ} : ¬ Faulty (.pure a : Prog σ δ α) s b s' := nofun

theorem faulty_stmt {ρ : Type} {f : σ → Except δ ρ × σ} {k : Except δ ρ → Prog σ δ α} {s s' : σ} {a : α} :
    Faulty (.stmt f k) s a s' ↔ Faulty (k (f s).1) (f s).2 a s' ∨ ∃ e, Exec (k (.error e)) s a s' := by
  constructor
  · intro h
    cases h with
    | step h => exact .inl h
    | refused e h => exact .inr ⟨e, h⟩
  · rintro (h | ⟨e, h⟩)
    · exact .step h
    · exact .refused e h

/-- An execution without a refused statement is the run. -/
theorem Exec.run_or_faulty {p : Prog σ δ α} {s s' : σ} {a : α} (h : Exec p s a s') :
    p.run s = (a, s') ∨ Faulty p s a s' := by
  induction h with
  | pure a s => exact .inl rfl
  | step _ ih => exact ih.imp_right .step
  | refused e h _ => exact .inr (.refused e h)

/-- The refused statement is in the first part or in the second. -/
theorem faulty_bind {p : Prog σ δ α} {q : α → Prog σ δ β} {s s' : σ} {b : β} :
    Faulty (p >>= q) s b s' ↔
      ∃ a t, Faulty p s a t ∧ Exec (q a) t b s' ∨ Exec p s a t ∧ Faulty (q a) t b s' := by
  induction p generalizing s with
  | pure a =>
    constructor
    · intro h
      exact ⟨a, s, .inr ⟨.pure a s, h⟩⟩
    · rintro ⟨a', t, ⟨h, -⟩ | ⟨h, hq⟩⟩
      · exact absurd h not_faulty_pure
      · obtain ⟨rfl, rfl⟩ := exec_pure.1 h
        exact hq
  | stmt f k ih =>
    rw [stmt_bind, faulty_stmt]
    constructor
    · rintro (h | ⟨e, h⟩)
      · obtain ⟨a, t, ⟨hp, hq⟩ | ⟨hp, hq⟩⟩ := (ih _).1 h
        · exact ⟨a, t, .inl ⟨.step hp, hq⟩⟩
        · exact ⟨a, t, .inr ⟨.step hp, hq⟩⟩
      · obtain ⟨a, t, hp, hq⟩ := exec_bind.1 h
        exact ⟨a, t, .inl ⟨.refused e hp, hq⟩⟩
    · rintro ⟨a, t, ⟨hp, hq⟩ | ⟨hp, hq⟩⟩
      · rcases faulty_stmt.1 hp with hp | ⟨e, hp⟩
        · exact .inl ((ih _).2 ⟨a, t, .inl ⟨hp, hq⟩⟩)
        · exact .inr ⟨e, exec_bind.2 ⟨a, t, hp, hq⟩⟩
      · rcases exec_stmt.1 hp with hp | ⟨e, hp⟩
        · exact .inl ((ih _).2 ⟨a, t, .inr ⟨hp, hq⟩⟩)
        · exact .inr ⟨e, exec_bind.2 ⟨a, t, hp, hq.exec⟩⟩

end Prog

namespace ProgE

open Prog

variable {σ δ ε ε' α β : Type}

/-- Queries and pure parts, one after another; the first error ends the whole. -/
inductive Checks : {ε α : Type} → ProgE σ δ ε α → Prop
  | fromExcept {ε α : Type} (r : Except ε α) : Checks (ProgE.fromExcept r)
  | query {α : Type} (f : σ → α) : Checks (ProgE.query f)
  | bind {ε α β : Type} {p : ProgE σ δ ε α} {q : α → ProgE σ δ ε β} (hp : Checks p) (hq : ∀ a, Checks (q a)) :
      Checks (p >>= q)
  | mapErr {ε ε' α : Type} {f : ε → ε'} {p : ProgE σ δ ε α} (hp : Checks p) : Checks (ProgE.mapErr f p)

section Rules

variable {p q : ProgE σ δ ε α}

theorem checks_pure (a : α) : Checks (pure a : ProgE σ δ ε α) := .fromExcept (.ok a)

theorem checks_throw (e : ε) : Checks (throw e : ProgE σ δ ε α) := .fromExcept (.error e)

theorem checks_ite {c : Prop} [Decidable c] (hp : Checks p) (hq : Checks q) : Checks (if c then p else q) := by
  split_ifs
  · exact hp
  · exact hq

theorem checks_forEach {ι : Type} {p : ι → ProgE σ δ ε Unit} {is : List ι} (hp : ∀ i, Checks (p i)) :
    Checks (forEach p is) := by
  induction is with
  | nil => exact checks_pure ()
  | cons i is ih => exact .bind (hp i) fun _ => ih

end Rules

/-- What follows a bind follows its second part, or the error of its first one. -/
theorem run_bind_bind {γ : Type} {p : ProgE σ δ ε α} {q : α → ProgE σ δ ε β} {k : Except ε β → Prog σ δ γ} :
    ((p >>= q).run >>= k) = p.run >>= fun
      | .ok a => (q a).run >>= k
      | .error e => k (.error e) := by
  rw [ExceptT.run_bind, Prog.bind_assoc]
  congr 1
  funext r
  cases r <;> rfl

/-- No statement changes the store. -/
theorem Checks.moves {p : ProgE σ δ ε α} (h : Checks p) : Moves (fun s s' : σ => s = s') p.run := by
  induction h with
  | fromExcept r => exact moves_fromExcept r
  | query f => exact moves_query f
  | bind _ _ hp hq => exact moves_bind hp hq
  | mapErr _ hp => exact moves_mapErr hp

theorem Checks.unchanged {p : ProgE σ δ ε α} (h : Checks p) {s s' : σ} {r : Except ε α} (hr : Exec p.run s r s') :
    s' = s :=
  (Moves.exec (R := fun s s' : σ => s = s') h.moves hr).symm

/-- A bind that is faulty: the first part ended in an error, or the refused statement is in the second. -/
theorem faulty_bind_cases {p : ProgE σ δ ε α} {q : α → ProgE σ δ ε β} {s s' : σ} {r : Except ε β}
    (h : Faulty (p >>= q).run s r s') :
    (∃ e, r = .error e ∧ Faulty p.run s (.error e) s') ∨
    (∃ a t, Faulty p.run s (.ok a) t ∧ Exec (q a).run t r s') ∨
    ∃ a t, Exec p.run s (.ok a) t ∧ Faulty (q a).run t r s' := by
  rw [ExceptT.run_bind] at h
  obtain ⟨x, t, ⟨hp, hq⟩ | ⟨hp, hq⟩⟩ := faulty_bind.1 h
  · cases x with
    | ok a => exact .inr (.inl ⟨a, t, hp, hq⟩)
    | error e =>
      obtain ⟨rfl, rfl⟩ := exec_pure.1 hq
      exact .inl ⟨e, rfl, hp⟩
  · cases x with
    | ok a => exact .inr (.inr ⟨a, t, hp, hq⟩)
    | error e => exact absurd hq not_faulty_pure

theorem faulty_bind_left {p : ProgE σ δ ε α} {q : α → ProgE σ δ ε β} {s s' t : σ} {r : Except ε β} {a : α}
    (hp : Faulty p.run s (.ok a) t) (hq : Exec (q a).run t r s') : Faulty (p >>= q).run s r s' := by
  rw [ExceptT.run_bind]
  exact faulty_bind.2 ⟨.ok a, t, .inl ⟨hp, hq⟩⟩

theorem faulty_bind_right {p : ProgE σ δ ε α} {q : α → ProgE σ δ ε β} {s s' t : σ} {r : Except ε β} {a : α}
    (hp : Exec p.run s (.ok a) t) (hq : Faulty (q a).run t r s') : Faulty (p >>= q).run s r s' := by
  rw [ExceptT.run_bind]
  exact faulty_bind.2 ⟨.ok a, t, .inr ⟨hp, hq⟩⟩

/-- A query whose failure is handed on as a value. -/
theorem faulty_attempt_query (f : σ → α) (e : δ) (s : σ) :
    Faulty (attempt (query f) : ProgE σ δ ε' (Except δ α)).run s (.ok (.error e)) s :=
  .refused e (.pure _ _)

theorem faulty_mapErr {f : ε → ε'} {p : ProgE σ δ ε α} {s s' : σ} {r : Except ε' α}
    (h : Faulty (mapErr f p).run s r s') : ∃ x, r = x.mapError f ∧ Faulty p.run s x s' := by
  unfold mapErr at h
  rw [ExceptT.run_mk] at h
  obtain ⟨x, t, ⟨hp, hq⟩ | ⟨-, hq⟩⟩ := faulty_bind.1 h
  · obtain ⟨rfl, rfl⟩ := exec_pure.1 hq
    exact ⟨x, rfl, hp⟩
  · exact absurd hq not_faulty_pure

/-- **A faulty execution of checks ends in an error.** -/
theorem Checks.fails {p : ProgE σ δ ε α} (h : Checks p) {s s' : σ} {r : Except ε α} (hr : Faulty p.run s r s') :
    ∃ e, r = .error e := by
  induction h generalizing s s' with
  | fromExcept r => exact absurd hr not_faulty_pure
  | query f =>
    rcases faulty_stmt.1 hr with hr | ⟨e, hr⟩
    · exact absurd hr not_faulty_pure
    · exact ⟨e, (exec_pure.1 hr).1⟩
  | bind _ _ hp hq =>
    rcases faulty_bind_cases hr with ⟨e, he, -⟩ | ⟨a, t, ha, -⟩ | ⟨a, t, -, hrest⟩
    · exact ⟨e, he⟩
    · obtain ⟨e, he⟩ := hp ha
      cases he
    · exact hq a hrest
  | mapErr _ hp =>
    obtain ⟨x, rfl, hx⟩ := faulty_mapErr hr
    obtain ⟨e, rfl⟩ := hp hx
    exact ⟨_, rfl⟩

/-- Checks that succeed have had all their reads answered. -/
theorem Checks.run_ok {p : ProgE σ δ ε α} (h : Checks p) {s s' : σ} {a : α} (hr : Exec p.run s (.ok a) s') :
    p.run.run s = (.ok a, s') := by
  refine hr.run_or_faulty.resolve_right fun hfaulty => ?_
  obtain ⟨e, he⟩ := h.fails hfaulty
  cases he

end ProgE
