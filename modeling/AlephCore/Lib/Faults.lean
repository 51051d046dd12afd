import AlephCore.Lib.Prog

/-!
# Faults — executions with chosen refusals

`runWith` executes a program under a schedule that says which of its statements are refused, so it makes
a function of what `Exec` leaves open: the executions of a program are its runs under all schedules, and
`run` is the one without refusals.
-/

namespace Prog

variable {σ δ α β : Type}

/-- Execute a program; the `i`-th statement is refused if the schedule has an error at position `i`. -/
def runWith : Prog σ δ α → List (Option δ) → σ → α × σ
  | .pure a, _, s => (a, s)
  | .stmt f k, faults, s =>
    match faults.head?.join with
    | some e => (k (.error e)).runWith faults.tail s
    | none => (k (f s).1).runWith faults.tail (f s).2

/-- The `i`-th statement is refused. -/
def Refused (faults : List (Option δ)) (i : Nat) : Prop := (faults[i]?.join).isSome

instance (faults : List (Option δ)) (i : Nat) : Decidable (Refused faults i) :=
  inferInstanceAs (Decidable (_ = true))

theorem runWith_nil (p : Prog σ δ α) (s : σ) : p.runWith [] s = p.run s := by
  induction p generalizing s with
  | pure a => rfl
  | stmt f k ih => exact ih _ _

theorem exec_runWith (p : Prog σ δ α) (faults : List (Option δ)) (s : σ) :
    Exec p s (p.runWith faults s).1 (p.runWith faults s).2 := by
  induction p generalizing faults s with
  | pure a => exact .pure a s
  | stmt f k ih =>
    unfold runWith
    cases faults.head?.join with
    | some e => exact .refused e (ih _ _ _)
    | none => exact .step (ih _ _ _)

/-- **The executions of a program are its runs under all schedules.** -/
theorem exec_iff_runWith {p : Prog σ δ α} {s s' : σ} {a : α} :
    Exec p s a s' ↔ ∃ faults, p.runWith faults s = (a, s') := by
  constructor
  · intro h
    induction h with
    | pure a s => exact ⟨[], rfl⟩
    | step _ ih =>
      obtain ⟨faults, h⟩ := ih
      exact ⟨none :: faults, h⟩
    | refused e _ ih =>
      obtain ⟨faults, h⟩ := ih
      exact ⟨some e :: faults, h⟩
  · rintro ⟨faults, h⟩
    have hexec := exec_runWith p faults s
    rwa [h] at hexec

theorem refused_tail {faults : List (Option δ)} {i : ℕ} : Refused faults.tail i ↔ Refused faults (i + 1) := by
  unfold Refused
  rw [List.getElem?_tail]

theorem runWith_refused {f : σ → Except δ α × σ} {k : Except δ α → Prog σ δ β} {faults : List (Option δ)} {s : σ}
    (h : Refused faults 0) : ∃ d, (Prog.stmt f k).runWith faults s = (k (.error d)).runWith faults.tail s := by
  obtain ⟨d, hd⟩ := Option.isSome_iff_exists.1 h
  refine ⟨d, ?_⟩
  rw [runWith, List.head?_eq_getElem?, hd]

theorem runWith_granted {f : σ → Except δ α × σ} {k : Except δ α → Prog σ δ β} {faults : List (Option δ)} {s : σ}
    (h : ¬ Refused faults 0) :
    (Prog.stmt f k).runWith faults s = (k (f s).1).runWith faults.tail (f s).2 := by
  have hnone : faults[0]?.join = none := by simpa [Refused] using h
  rw [runWith, List.head?_eq_getElem?, hnone]

theorem run_bind (p : Prog σ δ α) (q : α → Prog σ δ β) (s : σ) :
    (p >>= q).run s = (q (p.run s).1).run (p.run s).2 := by
  induction p generalizing s with
  | pure a => rfl
  | stmt f k ih => exact ih _ _

end Prog

namespace ProgE

open Prog

variable {σ δ ε ε' α β : Type}

/-! ## Runs without refusals -/

theorem run_bind_ok {p : ProgE σ δ ε α} {q : α → ProgE σ δ ε β} {s t : σ} {a : α}
    (h : p.run.run s = (.ok a, t)) : (p >>= q).run.run s = (q a).run.run t := by
  rw [ExceptT.run_bind, Prog.run_bind, h]

theorem run_bind_error {p : ProgE σ δ ε α} {q : α → ProgE σ δ ε β} {s t : σ} {e : ε}
    (h : p.run.run s = (.error e, t)) : (p >>= q).run.run s = (.error e, t) := by
  rw [ExceptT.run_bind, Prog.run_bind, h]
  rfl

/-- A program that starts with another one ends as that one does, or goes on from where it succeeds. -/
theorem run_bind_cases {p : ProgE σ δ ε α} {q : α → ProgE σ δ ε β} {s s' : σ} {r : Except ε β}
    (h : (p >>= q).run.run s = (r, s')) :
    (∃ e, p.run.run s = (.error e, s') ∧ r = .error e) ∨
      ∃ a t, p.run.run s = (.ok a, t) ∧ (q a).run.run t = (r, s') := by
  rcases hp : p.run.run s with ⟨r', t⟩
  cases r' with
  | error e =>
    rw [run_bind_error hp] at h
    obtain ⟨rfl, rfl⟩ := Prod.mk.inj h
    exact .inl ⟨e, rfl, rfl⟩
  | ok a =>
    rw [run_bind_ok hp] at h
    exact .inr ⟨a, t, rfl, h⟩

theorem run_mapErr (f : ε → ε') (p : ProgE σ δ ε α) (s : σ) :
    (mapErr f p).run.run s = ((p.run.run s).1.mapError f, (p.run.run s).2) := by
  rw [mapErr, ExceptT.run_mk, Prog.run_bind]
  rfl

theorem run_attempt (p : ProgE σ δ ε α) (s : σ) :
    (attempt p : ProgE σ δ ε' _).run.run s = (.ok (p.run.run s).1, (p.run.run s).2) := by
  rw [attempt, ExceptT.run_mk, Prog.run_bind]
  rfl

theorem run_sql (f : σ → Except δ α × σ) (s : σ) : (sql f).run.run s = f s := rfl

@[simp] theorem run_query (f : σ → α) (s : σ) : (query f : ProgE σ δ δ α).run.run s = (.ok (f s), s) := rfl

@[simp] theorem run_execute (f : σ → σ) (s : σ) : (execute f : ProgE σ δ δ Unit).run.run s = (.ok (), f s) := rfl

@[simp] theorem run_pure (a : α) (s : σ) : (pure a : ProgE σ δ ε α).run.run s = (.ok a, s) := rfl

@[simp] theorem run_throw (e : ε) (s : σ) : (throw e : ProgE σ δ ε α).run.run s = (.error e, s) := rfl

@[simp] theorem run_fromExcept (r : Except ε α) (s : σ) :
    (fromExcept r : ProgE σ δ ε α).run.run s = (r, s) := rfl

/-! ## The first statement of a run -/

section First

variable {faults : List (Option δ)} {s s' : σ} {g : δ → ε}

section Sql

variable {f : σ → Except δ α × σ} {q : α → ProgE σ δ ε β}

theorem runWith_sql_refused (h : Refused faults 0) :
    ∃ d, (mapErr g (sql f) >>= q).run.runWith faults s = (.error (g d), s) := runWith_refused h

theorem runWith_sql_error {d : δ} {t : σ} (h : ¬ Refused faults 0) (hf : f s = (.error d, t)) :
    (mapErr g (sql f) >>= q).run.runWith faults s = (.error (g d), t) := by
  refine (runWith_granted h).trans ?_
  rw [hf]
  rfl

theorem runWith_sql_ok {a : α} {t : σ} (h : ¬ Refused faults 0) (hf : f s = (.ok a, t)) :
    (mapErr g (sql f) >>= q).run.runWith faults s = (q a).run.runWith faults.tail t := by
  refine (runWith_granted h).trans ?_
  rw [hf]
  rfl

end Sql

/-- What follows a statement may be grouped either way. -/
theorem sql_bind_assoc {γ : Type} {f : σ → Except δ α × σ} {q : α → ProgE σ δ ε β} {r : β → ProgE σ δ ε γ} :
    mapErr g (sql f) >>= q >>= r = mapErr g (sql f) >>= fun a => q a >>= r := by
  show ExceptT.mk (Prog.stmt f _) = ExceptT.mk (Prog.stmt f _)
  congr 2
  funext a
  cases a <;> rfl

/-- A program that reads first fails because this is refused, or later. -/
theorem runWith_query_bind_error {f : σ → α} {q : α → ProgE σ δ ε β} {e : ε}
    (h : (mapErr g (query f) >>= q).run.runWith faults s = (.error e, s')) :
    (Refused faults 0 ∧ s' = s) ∨
      ¬ Refused faults 0 ∧ (q (f s)).run.runWith faults.tail s = (.error e, s') := by
  by_cases hrefused : Refused faults 0
  · obtain ⟨d, hd⟩ := runWith_sql_refused (f := fun s => (.ok (f s), s)) (q := q) (g := g) (s := s) hrefused
    exact .inl ⟨hrefused, congrArg Prod.snd (h.symm.trans hd)⟩
  · have hok := runWith_sql_ok (f := fun s => (.ok (f s), s)) (q := q) (g := g) (s := s) hrefused rfl
    exact .inr ⟨hrefused, hok.symm.trans h⟩

/-- A program that writes first fails because this is refused, or later. -/
theorem runWith_execute_bind_error {f : σ → σ} {q : Unit → ProgE σ δ ε β} {e : ε}
    (h : (mapErr g (execute f) >>= q).run.runWith faults s = (.error e, s')) :
    (Refused faults 0 ∧ s' = s) ∨
      ¬ Refused faults 0 ∧ (q ()).run.runWith faults.tail (f s) = (.error e, s') := by
  by_cases hrefused : Refused faults 0
  · obtain ⟨d, hd⟩ := runWith_sql_refused (f := fun s => (.ok (), f s)) (q := q) (g := g) (s := s) hrefused
    exact .inl ⟨hrefused, congrArg Prod.snd (h.symm.trans hd)⟩
  · have hok := runWith_sql_ok (f := fun s => (.ok (), f s)) (q := q) (g := g) (s := s) hrefused rfl
    exact .inr ⟨hrefused, hok.symm.trans h⟩

/-- **A program that writes first and fails has written unless that was refused**, and what it has written stays if
every later statement keeps it. -/
theorem runWith_execute_bind_keeps {I : σ → Prop} {f : σ → σ} {q : Unit → ProgE σ δ ε β} {e : ε}
    (h : (mapErr g (execute f) >>= q).run.runWith faults s = (.error e, s')) (hwritten : I (f s))
    (hq : Moves (fun s s' => I s → I s') (q ()).run) :
    (Refused faults 0 ∧ s' = s) ∨ ¬ Refused faults 0 ∧ I s' := by
  refine (runWith_execute_bind_error h).imp_right (And.imp_right fun hrest => ?_)
  exact hq.invariant (exec_iff_runWith.2 ⟨_, hrest⟩).reach hwritten

/-- A single write fails because it is refused. -/
theorem runWith_execute_error {f : σ → σ} {e : ε}
    (h : (mapErr g (execute f)).run.runWith faults s = (.error e, s')) : Refused faults 0 ∧ s' = s := by
  by_cases hrefused : Refused faults 0
  · obtain ⟨d, hd⟩ : ∃ d, (mapErr g (execute f)).run.runWith faults s = (.error (g d), s) := runWith_refused hrefused
    exact ⟨hrefused, congrArg Prod.snd (h.symm.trans hd)⟩
  · have hok : (mapErr g (execute f)).run.runWith faults s = (.ok (), f s) := runWith_granted hrefused
    rw [hok] at h
    cases h

/-- An attempted write that is refused changes nothing, and the program goes on with the error. -/
theorem runWith_attempt_refused {f : σ → σ} {q : Except δ Unit → ProgE σ δ ε β} (h : Refused faults 0) :
    ∃ d, (attempt (execute f) >>= q).run.runWith faults s = (q (.error d)).run.runWith faults.tail s :=
  runWith_refused h

theorem runWith_attempt_granted {f : σ → σ} {q : Except δ Unit → ProgE σ δ ε β} (h : ¬ Refused faults 0) :
    (attempt (execute f) >>= q).run.runWith faults s = (q (.ok ())).run.runWith faults.tail (f s) :=
  runWith_granted h

end First

end ProgE
