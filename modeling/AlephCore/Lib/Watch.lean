import AlephCore.Lib.Guarantee
import Mathlib.Data.Set.Basic

/-!
# Watch — programs whose store is watched

What a program returns may speak of the past: of a fact that held when it looked, although others have undone it since.
`Watched` keeps with a store the facts that were observed of it, and `watch` is the program that works on it; a
contract on `Watched` can then speak of the past.
-/

namespace Prog

/-- A store, and what has been observed of it. -/
structure Watched (σ ι : Type) where
  store : σ
  seen : Set ι

variable {σ δ α β ρ ι : Type}

/-- The statement, whose outcome is observed. -/
def noting (obs : σ → Set ι) (f : σ → Except δ ρ × σ) (w : Watched σ ι) : Except δ ρ × Watched σ ι :=
  ((f w.store).1, ⟨(f w.store).2, w.seen ∪ obs (f w.store).2⟩)

/-- The program on a store that is watched. -/
def watch (obs : σ → Set ι) : Prog σ δ α → Prog (Watched σ ι) δ α
  | .pure a => .pure a
  | .stmt f k => .stmt (noting obs f) fun r => watch obs (k r)

variable {obs : σ → Set ι} {s t : σ} {seen : Set ι}

theorem watch_bind (p : Prog σ δ α) (q : α → Prog σ δ β) :
    watch obs (p >>= q) = watch obs p >>= fun a => watch obs (q a) := by
  induction p with
  | pure a => rfl
  | stmt f k ih => exact congrArg (Prog.stmt (noting obs f)) (funext ih)

/-- **A statement of the program** is one of the program that is watched. -/
theorem Next.watch {p p' : Prog σ δ α} (h : Next p s p' t) (hs : obs s ⊆ seen) :
    Next (Prog.watch obs p) ⟨s, seen⟩ (Prog.watch obs p') ⟨t, seen ∪ obs t⟩ := by
  cases h with
  | answered f k => exact .answered (noting obs f) (fun r => Prog.watch obs (k r)) ⟨s, seen⟩
  | refused f k _ e =>
    have hseen : seen ∪ obs s = seen := Set.union_eq_self_of_subset_right hs
    rw [hseen]
    exact .refused (noting obs f) (fun r => Prog.watch obs (k r)) ⟨s, seen⟩ e

/-- What the program assures beside others, its store being watched. -/
def AssuresSeen (c : Contract (Watched σ ι)) (obs : σ → Set ι) (post : α → Watched σ ι → Prop) (p : Prog σ δ α)
    (w : Watched σ ι) : Prop :=
  Assures c post (watch obs p) w

variable {c : Contract (Watched σ ι)} {post : α → Watched σ ι → Prop} {w : Watched σ ι}

/-- A statement leaves a program that assures the same. -/
theorem AssuresSeen.next {p p' : Prog σ δ α} (h : AssuresSeen c obs post p ⟨s, seen⟩)
    (hgiven : c.given ⟨s, seen⟩) (hs : obs s ⊆ seen) (hnext : Next p s p' t) :
    AssuresSeen c obs post p' ⟨t, seen ∪ obs t⟩ :=
  (Assures.next h hgiven (hnext.watch hs)).2

theorem AssuresSeen.mono {p : Prog σ δ α} {post' : α → Watched σ ι → Prop} (h : AssuresSeen c obs post p w)
    (hpost : ∀ a t, post a t → post' a t) : AssuresSeen c obs post' p w :=
  Assures.mono h hpost

/-- **Conjunction rule.** -/
theorem Assures.and {c : Contract σ} {post post' : α → σ → Prop} {p : Prog σ δ α} (h : Assures c post p s)
    (h' : Assures c post' p s) : Assures c (fun a t => post a t ∧ post' a t) p s := by
  induction p generalizing s with
  | pure a => exact fun t hst => ⟨h t hst, h' t hst⟩
  | stmt f k ih =>
    intro t hst hgiven
    obtain ⟨hguar, hanswered, hrefused⟩ := h t hst hgiven
    obtain ⟨-, hanswered', hrefused'⟩ := h' t hst hgiven
    exact ⟨hguar, ih _ hanswered hanswered', fun e => ih _ (hrefused e) (hrefused' e)⟩

/-- **A program that only reads** adds nothing to what has been seen. -/
theorem AssuresSeen.reads {p : Prog σ δ α} {J : Watched σ ι → Prop} (h : Moves (fun s t : σ => s = t) p)
    (hgiven : ∀ v, c.given v → obs v.store ⊆ v.seen) (hstable : c.Stable J) (hw : J w) :
    AssuresSeen c obs (fun _ => J) p w := by
  induction p generalizing w with
  | pure a => exact fun v hv => hstable w v hv hw
  | stmt f k ih =>
    intro v hv hgivenv
    have hsame : (noting obs f v).2 = v := by
      unfold noting
      rw [← h.1 v.store, Set.union_eq_self_of_subset_right (hgiven v hgivenv)]
    have hJ : J v := hstable w v hv hw
    refine ⟨?_, ?_, fun e => ih _ (h.2 _) hJ⟩
    · rw [hsame]
      exact c.guar_refl v
    · rw [hsame]
      exact ih _ (h.2 _) hJ

end Prog

namespace ProgE

open Prog

variable {σ δ ε ε' α β ι : Type} {obs : σ → Set ι} {c : Contract (Watched σ ι)} {w : Watched σ ι}
  {P : α → Watched σ ι → Prop}

theorem seen_pure {a : α} (hstable : c.Stable (P a)) (h : P a w) :
    AssuresSeen c obs (IfOk P) (pure a : ProgE σ δ ε α).run w :=
  assures_pure_ifOk (δ := δ) (ε := ε) hstable h

/-- **One statement**: what it does to a store all of whose facts have been seen. -/
theorem seen_sql {f : σ → Except δ α × σ} (hstable : ∀ a, c.Stable (P a))
    (h : ∀ v, c.rely w v → c.given v → c.guar v (noting obs f v).2 ∧ IfOk P (noting obs f v).1 (noting obs f v).2) :
    AssuresSeen c obs (IfOk P) (sql f).run w :=
  assures_sql_ifOk (f := noting obs f) hstable h

theorem seen_bind {p : ProgE σ δ ε α} {q : α → ProgE σ δ ε β} {Q : β → Watched σ ι → Prop}
    (hp : AssuresSeen c obs (IfOk P) p.run w)
    (hq : ∀ a v, P a v → AssuresSeen c obs (IfOk Q) (q a).run v) : AssuresSeen c obs (IfOk Q) (p >>= q).run w := by
  unfold AssuresSeen
  rw [ExceptT.run_bind, watch_bind]
  refine Assures.bind (Assures.mono hp fun r v hr => ?_)
  cases r with
  | ok a => exact hq a v (ifOk_ok.1 hr)
  | error e => exact fun _ _ => ifOk_error

/-- **An attempt** returns what the program does. -/
theorem seen_attempt {p : ProgE σ δ ε α} {Q : Except ε α → Watched σ ι → Prop} (hstable : ∀ r, c.Stable (Q r))
    (h : AssuresSeen c obs Q p.run w) : AssuresSeen c obs (IfOk Q) (attempt p : ProgE σ δ ε' (Except ε α)).run w := by
  unfold AssuresSeen attempt
  rw [ExceptT.run_mk, watch_bind]
  refine Assures.bind (Assures.mono h fun r v hr => ?_)
  exact assures_pure (stable_ifOk hstable _) (ifOk_ok.2 hr)

end ProgE
