import Mathlib.Order.Basic
import Mathlib.Tactic.Common

/-!
# Prog — programs as trees of atomic statements

A `Prog σ δ α` works on a shared store `σ`: it returns, or issues one atomic statement and goes on
with its answer.  A statement either takes effect as a whole or is refused with an error of type `δ`
and leaves the store alone.  `run` executes a program without refusals, `Exec` allows one at every
statement, `Reach` also allows the program to be cut off between two statements, and `Moves` says
that every statement a program can issue respects a relation on stores.  Nothing here depends on what the
store is.
-/

/-- A program over a store `σ`: a result, or one atomic statement and what follows its answer. -/
inductive Prog (σ δ α : Type) : Type 1 where
  | pure (a : α)
  | stmt {β : Type} (f : σ → Except δ β × σ) (k : Except δ β → Prog σ δ α)

namespace Prog

variable {σ δ α β γ : Type}

/-- Sequencing: graft `q` onto every result of the program. -/
protected def bind : Prog σ δ α → (α → Prog σ δ β) → Prog σ δ β
  | .pure a, q => q a
  | .stmt f k, q => .stmt f fun r => (k r).bind q

instance : Monad (Prog σ δ) where
  pure := .pure
  bind := Prog.bind

@[simp] theorem pure_eq (a : α) : (Pure.pure a : Prog σ δ α) = .pure a := rfl

@[simp] theorem pure_bind (a : α) (q : α → Prog σ δ β) : (Prog.pure a >>= q) = q a := rfl

@[simp] theorem stmt_bind {ρ : Type} (f : σ → Except δ ρ × σ) (k : Except δ ρ → Prog σ δ α)
    (q : α → Prog σ δ β) : (Prog.stmt f k >>= q) = .stmt f fun r => k r >>= q := rfl

theorem bind_assoc (p : Prog σ δ α) (q : α → Prog σ δ β) (r : β → Prog σ δ γ) :
    ((p >>= q) >>= r) = p >>= fun a => q a >>= r := by
  induction p with
  | pure a => rfl
  | stmt f k ih =>
    simp only [stmt_bind]
    exact congrArg _ (funext ih)

theorem bind_pure (p : Prog σ δ α) : (p >>= Prog.pure) = p := by
  induction p with
  | pure a => rfl
  | stmt f k ih =>
    simp only [stmt_bind]
    exact congrArg _ (funext ih)

/-! ## Execution -/

/-- Execute a program, no statement being refused from outside. -/
def run : Prog σ δ α → σ → α × σ
  | .pure a, s => (a, s)
  | .stmt f k, s => (k (f s).1).run (f s).2

/-- One possible execution: at every statement the store may also refuse it. -/
inductive Exec : Prog σ δ α → σ → α → σ → Prop
  | pure (a : α) (s : σ) : Exec (.pure a) s a s
  | step {ρ : Type} {f : σ → Except δ ρ × σ} {k : Except δ ρ → Prog σ δ α} {s s' : σ} {a : α}
      (h : Exec (k (f s).1) (f s).2 a s') : Exec (.stmt f k) s a s'
  | refused {ρ : Type} {f : σ → Except δ ρ × σ} {k : Except δ ρ → Prog σ δ α} {s s' : σ} {a : α}
      (e : δ) (h : Exec (k (.error e)) s a s') : Exec (.stmt f k) s a s'

theorem exec_run (p : Prog σ δ α) (s : σ) : Exec p s (p.run s).1 (p.run s).2 := by
  induction p generalizing s with
  | pure a => exact .pure a s
  | stmt f k ih => exact .step (ih _ _)

@[simp] theorem exec_pure {a b : α} {s s' : σ} :
    Exec (.pure a : Prog σ δ α) s b s' ↔ b = a ∧ s' = s := by
  constructor
  · rintro ⟨⟩
    exact ⟨rfl, rfl⟩
  · rintro ⟨rfl, rfl⟩
    exact .pure _ _

theorem exec_stmt {ρ : Type} {f : σ → Except δ ρ × σ} {k : Except δ ρ → Prog σ δ α} {s s' : σ}
    {a : α} : Exec (.stmt f k) s a s' ↔
      Exec (k (f s).1) (f s).2 a s' ∨ ∃ e, Exec (k (.error e)) s a s' := by
  constructor
  · intro h
    cases h with
    | step h => exact .inl h
    | refused e h => exact .inr ⟨e, h⟩
  · rintro (h | ⟨e, h⟩)
    · exact .step h
    · exact .refused e h

theorem exec_bind {p : Prog σ δ α} {q : α → Prog σ δ β} {s s' : σ} {b : β} :
    Exec (p >>= q) s b s' ↔ ∃ a t, Exec p s a t ∧ Exec (q a) t b s' := by
  induction p generalizing s with
  | pure a => simp
  | stmt f k ih =>
    simp only [stmt_bind, exec_stmt, ih]
    constructor
    · rintro (⟨a, t, h1, h2⟩ | ⟨e, a, t, h1, h2⟩)
      · exact ⟨a, t, .inl h1, h2⟩
      · exact ⟨a, t, .inr ⟨e, h1⟩, h2⟩
    · rintro ⟨a, t, h1 | ⟨e, h1⟩, h2⟩
      · exact .inl ⟨a, t, h1, h2⟩
      · exact .inr ⟨e, a, t, h1, h2⟩

/-- A store an execution passes through: the program may be cut off after any statement. -/
inductive Reach : Prog σ δ α → σ → σ → Prop
  | here (p : Prog σ δ α) (s : σ) : Reach p s s
  | step {ρ : Type} {f : σ → Except δ ρ × σ} {k : Except δ ρ → Prog σ δ α} {s s' : σ}
      (h : Reach (k (f s).1) (f s).2 s') : Reach (.stmt f k) s s'
  | refused {ρ : Type} {f : σ → Except δ ρ × σ} {k : Except δ ρ → Prog σ δ α} {s s' : σ}
      (e : δ) (h : Reach (k (.error e)) s s') : Reach (.stmt f k) s s'

theorem Exec.reach {p : Prog σ δ α} {s s' : σ} {a : α} (h : Exec p s a s') : Reach p s s' := by
  induction h with
  | pure a s => exact .here _ _
  | step _ ih => exact .step ih
  | refused e _ ih => exact .refused e ih

theorem reach_pure {a : α} {s s' : σ} : Reach (.pure a : Prog σ δ α) s s' ↔ s' = s := by
  constructor
  · rintro ⟨⟩
    rfl
  · rintro rfl
    exact .here _ _

theorem reach_stmt {ρ : Type} {f : σ → Except δ ρ × σ} {k : Except δ ρ → Prog σ δ α} {s s' : σ} :
    Reach (.stmt f k) s s' ↔
      s' = s ∨ Reach (k (f s).1) (f s).2 s' ∨ ∃ e, Reach (k (.error e)) s s' := by
  constructor
  · intro h
    cases h with
    | here => exact .inl rfl
    | step h => exact .inr (.inl h)
    | refused e h => exact .inr (.inr ⟨e, h⟩)
  · rintro (rfl | h | ⟨e, h⟩)
    · exact .here _ _
    · exact .step h
    · exact .refused e h

protected theorem reach_bind {p : Prog σ δ α} {q : α → Prog σ δ β} {s s' : σ} :
    Reach (p >>= q) s s' ↔ Reach p s s' ∨ ∃ a t, Exec p s a t ∧ Reach (q a) t s' := by
  induction p generalizing s with
  | pure a =>
    simp only [pure_bind, reach_pure, exec_pure]
    constructor
    · intro h
      exact .inr ⟨a, s, ⟨rfl, rfl⟩, h⟩
    · rintro (rfl | ⟨b, t, ⟨rfl, rfl⟩, h⟩)
      · exact .here _ _
      · exact h
  | stmt f k ih =>
    simp only [stmt_bind, reach_stmt, ih, exec_stmt]
    constructor
    · rintro (rfl | (h | ⟨a, t, h1, h2⟩) | ⟨e, h | ⟨a, t, h1, h2⟩⟩)
      · exact .inl (.inl rfl)
      · exact .inl (.inr (.inl h))
      · exact .inr ⟨a, t, .inl h1, h2⟩
      · exact .inl (.inr (.inr ⟨e, h⟩))
      · exact .inr ⟨a, t, .inr ⟨e, h1⟩, h2⟩
    · rintro ((rfl | h | ⟨e, h⟩) | ⟨a, t, h1 | ⟨e, h1⟩, h2⟩)
      · exact .inl rfl
      · exact .inr (.inl (.inl h))
      · exact .inr (.inr ⟨e, .inl h⟩)
      · exact .inr (.inl (.inr ⟨a, t, h1, h2⟩))
      · exact .inr (.inr ⟨e, .inr ⟨a, t, h1, h2⟩⟩)

/-! ## Relations every statement respects -/

/-- Every statement that `p` can come to issue moves the store along `R`, whatever store it meets. -/
def Moves (R : σ → σ → Prop) : Prog σ δ α → Prop
  | .pure _ => True
  | .stmt f k => (∀ s, R s (f s).2) ∧ ∀ r, Moves R (k r)

section Moves

variable {R : σ → σ → Prop}

theorem Moves.bind {p : Prog σ δ α} {q : α → Prog σ δ β} (hp : Moves R p)
    (hq : ∀ a, Moves R (q a)) : Moves R (p >>= q) := by
  induction p with
  | pure a => exact hq a
  | stmt f k ih => exact ⟨hp.1, fun r => ih r (hp.2 r)⟩

theorem Moves.mono {R' : σ → σ → Prop} {p : Prog σ δ α} (h : Moves R p)
    (hR : ∀ s s', R s s' → R' s s') : Moves R' p := by
  induction p with
  | pure a => exact trivial
  | stmt f k ih => exact ⟨fun s => hR _ _ (h.1 s), fun r => ih r (h.2 r)⟩

/-- **A program moves the store along a preorder**, wherever it is cut off. -/
theorem Moves.reach [IsPreorder σ R] {p : Prog σ δ α} (h : Moves R p) {s s' : σ}
    (hr : Reach p s s') : R s s' := by
  induction hr with
  | here p s => exact refl_of R s
  | step _ ih => exact trans_of R (h.1 _) (ih (h.2 _))
  | refused e _ ih => exact ih (h.2 _)

theorem Moves.exec [IsPreorder σ R] {p : Prog σ δ α} (h : Moves R p) {s s' : σ} {a : α}
    (he : Exec p s a s') : R s s' := h.reach he.reach

/-- **What every statement preserves holds wherever the program is cut off.** -/
theorem Moves.invariant {I : σ → Prop} {p : Prog σ δ α} (h : Moves (fun s s' => I s → I s') p)
    {s s' : σ} (hr : Reach p s s') (hs : I s) : I s' := by
  induction hr with
  | here p s => exact hs
  | step _ ih => exact ih (h.2 _) (h.1 _ hs)
  | refused e _ ih => exact ih (h.2 _) hs

end Moves

end Prog

/-! ## Fallible programs -/

/-- A program that may stop early with an error of type `ε` of its own. -/
abbrev ProgE (σ δ ε α : Type) := ExceptT ε (Prog σ δ) α

namespace ProgE

open Prog

variable {σ δ ε ε' α β : Type}

/-- One statement; a refusal ends the program. -/
def sql (f : σ → Except δ α × σ) : ProgE σ δ δ α :=
  ExceptT.mk (.stmt f .pure)

/-- A statement that reads. -/
def query (f : σ → α) : ProgE σ δ δ α :=
  sql fun s => (.ok (f s), s)

/-- A statement that writes and cannot violate a constraint. -/
def execute (f : σ → σ) : ProgE σ δ δ Unit :=
  sql fun s => (.ok (), f s)

/-- A computation that does not touch the store. -/
def fromExcept (r : Except ε α) : ProgE σ δ ε α :=
  ExceptT.mk (.pure r)

/-- A program that cannot stop early. -/
def ofProg (p : Prog σ δ α) : ProgE σ δ ε α :=
  ExceptT.mk (p >>= fun a => .pure (.ok a))

/-- Report the errors of `p` as errors of another type. -/
def mapErr (f : ε → ε') (p : ProgE σ δ ε α) : ProgE σ δ ε' α :=
  ExceptT.mk (p.run >>= fun r => .pure (r.mapError f))

/-- Run `p` and hand its success or its error on as a value. -/
def attempt (p : ProgE σ δ ε α) : ProgE σ δ ε' (Except ε α) :=
  ExceptT.mk (p.run >>= fun r => .pure (.ok r))

/-- Run `p` for its effect only. -/
def ignore (p : ProgE σ δ ε α) : ProgE σ δ ε' Unit :=
  ExceptT.mk (p.run >>= fun _ => .pure (.ok ()))

/-- Run `p` on the elements one after another; the first error ends the loop. -/
def forEach {ι : Type} (p : ι → ProgE σ δ ε Unit) : List ι → ProgE σ δ ε Unit
  | [] => pure ()
  | i :: is => do
    p i
    forEach p is

/-! ### What an execution that succeeds, or fails, went through -/

section Exec

variable {s s' : σ} {e : ε} {b : β}

@[simp] theorem exec_pure_ok {a c : α} :
    Exec (pure a : ProgE σ δ ε α).run s (.ok c) s' ↔ c = a ∧ s' = s := by
  simp [ExceptT.run_pure]

@[simp] theorem exec_pure_error {a : α} :
    ¬ Exec (pure a : ProgE σ δ ε α).run s (.error e) s' := by
  simp [ExceptT.run_pure]

@[simp] theorem exec_throw_ok {e' : ε} {a : α} :
    ¬ Exec (throw e' : ProgE σ δ ε α).run s (.ok a) s' := by
  simp [ExceptT.run_throw]

@[simp] theorem exec_throw_error {e' : ε} :
    Exec (throw e' : ProgE σ δ ε α).run s (.error e) s' ↔ e = e' ∧ s' = s := by
  simp [ExceptT.run_throw]

@[simp] theorem exec_fromExcept {r r' : Except ε α} :
    Exec (fromExcept r : ProgE σ δ ε α).run s r' s' ↔ r' = r ∧ s' = s := by
  simp [fromExcept, ExceptT.run_mk]

theorem exec_bind_ok {p : ProgE σ δ ε α} {q : α → ProgE σ δ ε β} :
    Exec (p >>= q).run s (.ok b) s' ↔ ∃ a t, Exec p.run s (.ok a) t ∧ Exec (q a).run t (.ok b) s' := by
  rw [ExceptT.run_bind, exec_bind]
  constructor
  · rintro ⟨r, t, h1, h2⟩
    cases r with
    | ok a => exact ⟨a, t, h1, h2⟩
    | error e => simp at h2
  · rintro ⟨a, t, h1, h2⟩
    exact ⟨.ok a, t, h1, h2⟩

theorem exec_bind_error {p : ProgE σ δ ε α} {q : α → ProgE σ δ ε β} :
    Exec (p >>= q).run s (.error e) s' ↔
      Exec p.run s (.error e) s' ∨ ∃ a t, Exec p.run s (.ok a) t ∧ Exec (q a).run t (.error e) s' := by
  rw [ExceptT.run_bind, exec_bind]
  constructor
  · rintro ⟨r, t, h1, h2⟩
    cases r with
    | ok a => exact .inr ⟨a, t, h1, h2⟩
    | error e' =>
      obtain ⟨h, rfl⟩ := exec_pure.1 h2
      cases h
      exact .inl h1
  · rintro (h | ⟨a, t, h1, h2⟩)
    · exact ⟨.error e, s', h, exec_pure.2 ⟨rfl, rfl⟩⟩
    · exact ⟨.ok a, t, h1, h2⟩

theorem exec_sql_ok {f : σ → Except δ α × σ} {a : α} :
    Exec (sql f).run s (.ok a) s' ↔ f s = (.ok a, s') := by
  simp only [sql, ExceptT.run_mk, exec_stmt, exec_pure, Prod.ext_iff]
  constructor
  · rintro (⟨h1, h2⟩ | ⟨e, h, -⟩)
    · exact ⟨h1.symm, h2.symm⟩
    · cases h
  · rintro ⟨h1, h2⟩
    exact .inl ⟨h1.symm, h2.symm⟩

theorem exec_sql_error {f : σ → Except δ α × σ} {d : δ} :
    Exec (sql f).run s (.error d) s' ↔ f s = (.error d, s') ∨ s' = s := by
  simp only [sql, ExceptT.run_mk, exec_stmt, exec_pure, Prod.ext_iff]
  constructor
  · rintro (⟨h1, h2⟩ | ⟨e, -, h⟩)
    · exact .inl ⟨h1.symm, h2.symm⟩
    · exact .inr h
  · rintro (⟨h1, h2⟩ | h)
    · exact .inl ⟨h1.symm, h2.symm⟩
    · exact .inr ⟨d, rfl, h⟩

@[simp] theorem exec_query_ok {f : σ → α} {a : α} :
    Exec (query f : ProgE σ δ δ α).run s (.ok a) s' ↔ a = f s ∧ s' = s := by
  simp [query, exec_sql_ok, eq_comm]

@[simp] theorem exec_query_error {f : σ → α} {d : δ} :
    Exec (query f : ProgE σ δ δ α).run s (.error d) s' ↔ s' = s := by
  simp [query, exec_sql_error]

/-- A part whose successful executions give one answer and leave the store alone. -/
theorem exec_bind_ok_of {p : ProgE σ δ ε α} {a : α} {q : α → ProgE σ δ ε β}
    (h : ∀ c t, Exec p.run s (.ok c) t ↔ c = a ∧ t = s) :
    Exec (p >>= q).run s (.ok b) s' ↔ Exec (q a).run s (.ok b) s' := by
  rw [exec_bind_ok]
  constructor
  · rintro ⟨c, t, hp, hq⟩
    obtain ⟨rfl, rfl⟩ := (h c t).1 hp
    exact hq
  · intro hq
    exact ⟨a, s, (h a s).2 ⟨rfl, rfl⟩, hq⟩

theorem exec_query_bind_ok {f : σ → α} {q : α → ProgE σ δ δ β} :
    Exec (query f >>= q).run s (.ok b) s' ↔ Exec (q (f s)).run s (.ok b) s' :=
  exec_bind_ok_of fun _ _ => exec_query_ok

@[simp] theorem exec_execute_ok {f : σ → σ} {a : Unit} :
    Exec (execute f : ProgE σ δ δ Unit).run s (.ok a) s' ↔ s' = f s := by
  simp [execute, exec_sql_ok, eq_comm]

@[simp] theorem exec_execute_error {f : σ → σ} {d : δ} :
    Exec (execute f : ProgE σ δ δ Unit).run s (.error d) s' ↔ s' = s := by
  simp [execute, exec_sql_error]

@[simp] theorem exec_ofProg_ok {p : Prog σ δ α} {a : α} :
    Exec (ofProg p : ProgE σ δ ε α).run s (.ok a) s' ↔ Exec p s a s' := by
  simp [ofProg, ExceptT.run_mk, exec_bind]

@[simp] theorem exec_ofProg_error {p : Prog σ δ α} :
    ¬ Exec (ofProg p : ProgE σ δ ε α).run s (.error e) s' := by
  simp [ofProg, ExceptT.run_mk, exec_bind]

@[simp] theorem exec_mapErr_ok {f : ε → ε'} {p : ProgE σ δ ε α} {a : α} :
    Exec (mapErr f p).run s (.ok a) s' ↔ Exec p.run s (.ok a) s' := by
  simp only [mapErr, ExceptT.run_mk, exec_bind, exec_pure]
  constructor
  · rintro ⟨r, t, h, hr, rfl⟩
    cases r with
    | ok a' => cases hr; exact h
    | error e => cases hr
  · intro h
    exact ⟨.ok a, s', h, rfl, rfl⟩

@[simp] theorem exec_mapErr_error {f : ε → ε'} {p : ProgE σ δ ε α} {e' : ε'} :
    Exec (mapErr f p).run s (.error e') s' ↔ ∃ e, e' = f e ∧ Exec p.run s (.error e) s' := by
  simp only [mapErr, ExceptT.run_mk, exec_bind, exec_pure]
  constructor
  · rintro ⟨r, t, h, hr, rfl⟩
    cases r with
    | ok a' => cases hr
    | error e => cases hr; exact ⟨e, rfl, h⟩
  · rintro ⟨e, rfl, h⟩
    exact ⟨.error e, s', h, rfl, rfl⟩

@[simp] theorem exec_attempt_ok {p : ProgE σ δ ε α} {r : Except ε α} :
    Exec (attempt p : ProgE σ δ ε' _).run s (.ok r) s' ↔ Exec p.run s r s' := by
  simp [attempt, ExceptT.run_mk, exec_bind]

@[simp] theorem exec_attempt_error {p : ProgE σ δ ε α} {e : ε'} :
    ¬ Exec (attempt p : ProgE σ δ ε' _).run s (.error e) s' := by
  simp [attempt, ExceptT.run_mk, exec_bind]

@[simp] theorem exec_ignore_ok {p : ProgE σ δ ε α} {u : Unit} :
    Exec (ignore p : ProgE σ δ ε' _).run s (.ok u) s' ↔ ∃ r, Exec p.run s r s' := by
  simp [ignore, ExceptT.run_mk, exec_bind]

@[simp] theorem exec_ignore_error {p : ProgE σ δ ε α} {e : ε'} :
    ¬ Exec (ignore p : ProgE σ δ ε' _).run s (.error e) s' := by
  simp [ignore, ExceptT.run_mk, exec_bind]

end Exec

/-! ### Rules for `Moves` -/

section Moves

variable {R : σ → σ → Prop}

theorem moves_pure (a : α) : Moves R (pure a : ProgE σ δ ε α).run := trivial

theorem moves_throw (e : ε) : Moves R (throw e : ProgE σ δ ε α).run := trivial

theorem moves_fromExcept (r : Except ε α) : Moves R (fromExcept r : ProgE σ δ ε α).run := trivial

theorem moves_sql {f : σ → Except δ α × σ} (hf : ∀ s, R s (f s).2) : Moves R (sql f).run :=
  ⟨hf, fun _ => trivial⟩

theorem moves_query [Std.Refl R] (f : σ → α) : Moves R (query f : ProgE σ δ δ α).run :=
  moves_sql fun s => refl_of R s

theorem moves_execute {f : σ → σ} (hf : ∀ s, R s (f s)) : Moves R (execute f : ProgE σ δ δ _).run :=
  moves_sql hf

theorem moves_bind {p : ProgE σ δ ε α} {q : α → ProgE σ δ ε β} (hp : Moves R p.run)
    (hq : ∀ a, Moves R (q a).run) : Moves R (p >>= q).run := by
  rw [ExceptT.run_bind]
  refine Moves.bind hp fun r => ?_
  cases r with
  | ok a => exact hq a
  | error e => exact trivial

theorem moves_forEach {ι : Type} {p : ι → ProgE σ δ ε Unit} {is : List ι}
    (hp : ∀ i ∈ is, Moves R (p i).run) : Moves R (forEach p is).run := by
  induction is with
  | nil => exact moves_pure ()
  | cons i is ih =>
    refine moves_bind (hp i (by simp)) fun _ => ?_
    exact ih fun j hj => hp j (by simp [hj])

theorem moves_ofProg {p : Prog σ δ α} (hp : Moves R p) :
    Moves R (ofProg p : ProgE σ δ ε α).run :=
  Moves.bind hp fun _ => trivial

theorem moves_mapErr {f : ε → ε'} {p : ProgE σ δ ε α} (hp : Moves R p.run) :
    Moves R (mapErr f p).run :=
  Moves.bind hp fun _ => trivial

theorem moves_attempt {p : ProgE σ δ ε α} (hp : Moves R p.run) :
    Moves R (attempt p : ProgE σ δ ε' _).run :=
  Moves.bind hp fun _ => trivial

theorem moves_ignore {p : ProgE σ δ ε α} (hp : Moves R p.run) :
    Moves R (ignore p : ProgE σ δ ε' _).run :=
  Moves.bind hp fun _ => trivial

end Moves

/-! ### Where a program can be cut off -/

section Reach

variable {s s' : σ}

theorem reach_bind {p : ProgE σ δ ε α} {q : α → ProgE σ δ ε β} :
    Reach (p >>= q).run s s' ↔
      Reach p.run s s' ∨ ∃ a t, Exec p.run s (.ok a) t ∧ Reach (q a).run t s' := by
  rw [ExceptT.run_bind, Prog.reach_bind]
  constructor
  · rintro (h | ⟨r, t, h1, h2⟩)
    · exact .inl h
    · cases r with
      | ok a => exact .inr ⟨a, t, h1, h2⟩
      | error e =>
        rw [reach_pure.1 h2]
        exact .inl h1.reach
  · rintro (h | ⟨a, t, h1, h2⟩)
    · exact .inl h
    · exact .inr ⟨.ok a, t, h1, h2⟩

theorem reach_attempt {p : ProgE σ δ ε α} (h : Reach p.run s s') :
    Reach (attempt p : ProgE σ δ ε' _).run s s' :=
  Prog.reach_bind.2 (.inl h)

theorem reach_ignore {p : ProgE σ δ ε α} (h : Reach p.run s s') :
    Reach (ignore p : ProgE σ δ ε' _).run s s' :=
  Prog.reach_bind.2 (.inl h)

theorem reach_sql {f : σ → Except δ α × σ} : Reach (sql f).run s s' ↔ s' = s ∨ s' = (f s).2 := by
  refine reach_stmt.trans ⟨?_, ?_⟩
  · rintro (h | h | ⟨e, h⟩)
    · exact .inl h
    · exact .inr (reach_pure.1 h)
    · exact .inl (reach_pure.1 h)
  · rintro (h | h)
    · exact .inl h
    · exact .inr (.inl (reach_pure.2 h))

theorem reach_execute (f : σ → σ) (s : σ) : Reach (execute f : ProgE σ δ δ Unit).run s (f s) :=
  (exec_execute_ok.2 rfl : Exec _ s (.ok ()) _).reach

theorem reach_query_bind {f : σ → α} {q : α → ProgE σ δ δ β}
    (h : Reach (query f >>= q).run s s') : s' = s ∨ Reach (q (f s)).run s s' := by
  rw [ExceptT.run_bind] at h
  rcases reach_stmt.1 h with h | h | ⟨e, h⟩
  · exact .inl h
  · exact .inr h
  · exact .inl (reach_pure.1 h)

end Reach

end ProgE
