import AlephCore.Lib.Prog
import Mathlib.Logic.Function.Basic

/-!
# Interleave — programs that run at the same time on one store

A `Config` is a store and one program for each thread.  A step lets one thread execute its next
statement; a thread that has finished stays as it is.  `Runs G` are the runs whose every step meets
the guard `G`, and an invariant of the guarded steps holds wherever such a run leads.
-/

namespace Prog

variable {σ δ α ι : Type}

/-- Execute the next statement, if there is one. -/
def next : Prog σ δ α → σ → Prog σ δ α × σ
  | .pure a, s => (.pure a, s)
  | .stmt f k, s => (k (f s).1, (f s).2)

/-- What a program returns does not depend on who executes its next statement. -/
theorem run_next (p : Prog σ δ α) (s : σ) : (p.next s).1.run (p.next s).2 = p.run s := by
  cases p <;> rfl

/-- No statement is left. -/
def finished : Prog σ δ α → Bool
  | .pure _ => true
  | .stmt _ _ => false

/-- A store and the threads that work on it. -/
structure Config (σ δ α ι : Type) where
  store : σ
  threads : ι → Prog σ δ α

namespace Config

variable [DecidableEq ι]

/-- Thread `i` executes its next statement. -/
def step (c : Config σ δ α ι) (i : ι) : Config σ δ α ι where
  store := ((c.threads i).next c.store).2
  threads := Function.update c.threads i ((c.threads i).next c.store).1

@[simp] theorem step_store (c : Config σ δ α ι) (i : ι) :
    (c.step i).store = ((c.threads i).next c.store).2 := rfl

@[simp] theorem step_threads_self (c : Config σ δ α ι) (i : ι) :
    (c.step i).threads i = ((c.threads i).next c.store).1 := by
  simp [step]

@[simp] theorem step_threads_of_ne (c : Config σ δ α ι) {i j : ι} (h : j ≠ i) :
    (c.step i).threads j = c.threads j := by
  simp [step, h]

/-- Let the threads execute one statement each in the given order. -/
def schedule (c : Config σ δ α ι) (is : List ι) : Config σ δ α ι :=
  is.foldl step c

/-- With this step thread `i` finishes. -/
def Finishes (c : Config σ δ α ι) (i : ι) : Prop :=
  (c.threads i).finished = false ∧ ((c.step i).threads i).finished = true

/-- Runs whose every step meets the guard. -/
inductive Runs (guard : Config σ δ α ι → ι → Prop) : Config σ δ α ι → Config σ δ α ι → Prop
  | refl (c : Config σ δ α ι) : Runs guard c c
  | step {c c' : Config σ δ α ι} {i : ι} (hg : guard c i) (h : Runs guard (c.step i) c') :
      Runs guard c c'

/-- Every step of the schedule meets the guard. -/
def Meets (guard : Config σ δ α ι → ι → Prop) : Config σ δ α ι → List ι → Prop
  | _, [] => True
  | c, i :: is => guard c i ∧ Meets guard (c.step i) is

instance decidableMeets {guard : Config σ δ α ι → ι → Prop} [∀ c i, Decidable (guard c i)] :
    (c : Config σ δ α ι) → (is : List ι) → Decidable (Meets guard c is)
  | _, [] => .isTrue trivial
  | c, i :: is => @instDecidableAnd _ _ _ (decidableMeets (c.step i) is)

theorem runs_schedule {guard guard' : Config σ δ α ι → ι → Prop} (hg : ∀ c i, guard c i → guard' c i)
    {c : Config σ δ α ι} {is : List ι} (h : Meets guard c is) : Runs guard' c (c.schedule is) := by
  induction is generalizing c with
  | nil => exact .refl c
  | cons i is ih => exact .step (hg c i h.1) (ih h.2)

/-- **What every guarded step preserves holds wherever a guarded run leads.** -/
theorem Runs.invariant {guard : Config σ δ α ι → ι → Prop} {inv : Config σ δ α ι → Prop}
    (hstep : ∀ c i, inv c → guard c i → inv (c.step i)) {c c' : Config σ δ α ι}
    (hrun : Runs guard c c') (h : inv c) : inv c' := by
  induction hrun with
  | refl c => exact h
  | step hg _ ih => exact ih (hstep _ _ h hg)

/-! ## Threads that do not disturb each other -/

/-- The step leaves what every other thread would return, if it ran alone from here on. -/
def Undisturbed (c : Config σ δ α ι) (i : ι) : Prop :=
  ∀ j, j ≠ i → ((c.threads j).run (c.step i).store).1 = ((c.threads j).run c.store).1

/-- **In a run without disturbance every thread returns what it would return alone.** -/
theorem Runs.result {guard : Config σ δ α ι → ι → Prop} (hguard : ∀ c i, guard c i → c.Undisturbed i)
    {c c' : Config σ δ α ι} (hrun : Runs guard c c') (j : ι) :
    ((c'.threads j).run c'.store).1 = ((c.threads j).run c.store).1 := by
  have hstep : ∀ d i, ((d.threads j).run d.store).1 = ((c.threads j).run c.store).1 → guard d i →
      (((d.step i).threads j).run (d.step i).store).1 = ((c.threads j).run c.store).1 := by
    intro d i hd hi
    by_cases hij : j = i
    · subst hij
      rw [step_threads_self, step_store, run_next]
      exact hd
    · rw [step_threads_of_ne d hij]
      exact (hguard d i hi j hij).trans hd
  exact hrun.invariant hstep rfl

theorem Runs.trans {guard : Config σ δ α ι → ι → Prop} {c c' c'' : Config σ δ α ι} (h : Runs guard c c')
    (h' : Runs guard c' c'') : Runs guard c c'' := by
  induction h with
  | refl c => exact h'
  | step hg _ ih => exact .step hg (ih h')

/-- Thread `i` runs to its end while the others wait. -/
def alone (c : Config σ δ α ι) (i : ι) : Config σ δ α ι where
  store := ((c.threads i).run c.store).2
  threads := Function.update c.threads i (.pure ((c.threads i).run c.store).1)

@[simp] theorem alone_threads_self (c : Config σ δ α ι) (i : ι) :
    (c.alone i).threads i = .pure ((c.threads i).run c.store).1 := by
  simp [alone]

@[simp] theorem alone_threads_of_ne (c : Config σ δ α ι) {i j : ι} (h : j ≠ i) :
    (c.alone i).threads j = c.threads j := by
  simp [alone, h]

theorem runs_thread {guard : Config σ δ α ι → ι → Prop} {i : ι} (c : Config σ δ α ι)
    (hguard : ∀ d : Config σ δ α ι, (∀ j, j ≠ i → d.threads j = c.threads j) → guard d i) :
    Runs guard c (c.alone i) := by
  show Runs guard c ⟨((c.threads i).run c.store).2, Function.update c.threads i (.pure ((c.threads i).run c.store).1)⟩
  generalize hp : c.threads i = p
  induction p generalizing c with
  | pure a =>
    have hsame : Function.update c.threads i (.pure a) = c.threads := by
      rw [← hp, Function.update_eq_self]
    rw [run, hsame]
    exact .refl c
  | stmt f k ih =>
    have hothers : ∀ j, j ≠ i → (c.step i).threads j = c.threads j := fun j hj => step_threads_of_ne c hj
    have hthread : (c.step i).threads i = k (f c.store).1 := by
      rw [step_threads_self, hp, next]
    have hstore : (c.step i).store = (f c.store).2 := by
      rw [step_store, hp, next]
    have hrun := ih (f c.store).1 (c.step i) (fun d hd => hguard d fun j hj => (hd j hj).trans (hothers j hj)) hthread
    rw [hstore, step, Function.update_idem] at hrun
    exact .step (hguard c fun _ _ => rfl) hrun

end Config

end Prog
