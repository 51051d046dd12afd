import AlephCore.Lib.Prog
import Mathlib.Logic.Relation

/-!
# Guarantee — programs that run beside others

A program issues its statements while others change the store in between.  A `Contract` names what the
others do to it, what the program promises each of its own statements does, and what may be assumed of the
store whenever it issues one.  `Assures` is the weakest precondition of a program under a contract: its
statements keep the promise, and what it returns meets the postcondition.
-/

namespace Prog

variable {σ δ α β : Type}

/-- The next statement of a program: the store answers it, or refuses it. -/
inductive Next : Prog σ δ α → σ → Prog σ δ α → σ → Prop
  | answered {ρ : Type} (f : σ → Except δ ρ × σ) (k : Except δ ρ → Prog σ δ α) (s : σ) :
      Next (.stmt f k) s (k (f s).1) (f s).2
  | refused {ρ : Type} (f : σ → Except δ ρ × σ) (k : Except δ ρ → Prog σ δ α) (s : σ) (e : δ) :
      Next (.stmt f k) s (k (.error e)) s

/-- The effect of some statement of the program, whatever was answered before. -/
inductive Issues : Prog σ δ α → σ → σ → Prop
  | here {ρ : Type} (f : σ → Except δ ρ × σ) (k : Except δ ρ → Prog σ δ α) (s : σ) : Issues (.stmt f k) s (f s).2
  | later {ρ : Type} (f : σ → Except δ ρ × σ) (k : Except δ ρ → Prog σ δ α) (r : Except δ ρ) {s s' : σ}
      (h : Issues (k r) s s') : Issues (.stmt f k) s s'

theorem Moves.issues {R : σ → σ → Prop} {p : Prog σ δ α} {s s' : σ} (h : Moves R p) (hp : Issues p s s') :
    R s s' := by
  induction hp with
  | here f k s => exact h.1 s
  | later f k r _ ih => exact ih (h.2 r)

/-- A statement of a program whose statements respect `R`, and what is left of it. -/
theorem Moves.next {R : σ → σ → Prop} [Std.Refl R] {p p' : Prog σ δ α} {s t : σ} (h : Moves R p)
    (hnext : Next p s p' t) : R s t ∧ Moves R p' := by
  cases hnext with
  | answered f k => exact ⟨h.1 s, h.2 _⟩
  | refused f k _ e => exact ⟨refl_of R s, h.2 _⟩

/-- An execution is one statement after another, on stores it reaches. -/
theorem Exec.nexts {G : σ → Prop} {p : Prog σ δ α} {s s' : σ} {a : α} (h : Exec p s a s')
    (hG : ∀ t, Reach p s t → G t) :
    Relation.ReflTransGen (fun x y : Prog σ δ α × σ => Next x.1 x.2 y.1 y.2 ∧ G x.2) (p, s) (.pure a, s') := by
  induction h with
  | pure a s => exact .refl
  | @step ρ f k s s' a _ ih =>
    refine .head ⟨Next.answered f k s, hG s (.here _ _)⟩ (ih fun t ht => hG t (.step ht))
  | @refused ρ f k s s' a e _ ih =>
    refine .head ⟨Next.refused f k s e, hG s (.here _ _)⟩ (ih fun t ht => hG t (.refused e ht))

/-- What a program assumes of the store and of the others, and what it promises. -/
structure Contract (σ : Type) where
  /-- Holds whenever the program issues a statement. -/
  given : σ → Prop
  /-- What the others do to the store between two statements. -/
  rely : σ → σ → Prop
  /-- What a statement of the program does to the store. -/
  guar : σ → σ → Prop
  rely_refl : ∀ s, rely s s
  rely_trans : ∀ {s t u}, rely s t → rely t u → rely s u
  guar_refl : ∀ s, guar s s

/-- From this store on, beside the others, the program keeps its promise and returns what meets `post`. -/
def Assures (c : Contract σ) (post : α → σ → Prop) : Prog σ δ α → σ → Prop
  | .pure a, s => ∀ t, c.rely s t → post a t
  | .stmt f k, s => ∀ t, c.rely s t → c.given t →
      c.guar t (f t).2 ∧ Assures c post (k (f t).1) (f t).2 ∧ ∀ e, Assures c post (k (.error e)) t

/-- What the others cannot make false. -/
def Contract.Stable (c : Contract σ) (J : σ → Prop) : Prop := ∀ s t, c.rely s t → J s → J t

variable {c : Contract σ} {post post' : α → σ → Prop} {p p' : Prog σ δ α} {s t : σ} {J : σ → Prop}

/-! ## What it means -/

/-- Whatever the others do, the program still assures the same. -/
theorem Assures.rely (h : Assures c post p s) (hst : c.rely s t) : Assures c post p t := by
  cases p with
  | pure a => exact fun u hu => h u (c.rely_trans hst hu)
  | stmt f k => exact fun u hu => h u (c.rely_trans hst hu)

/-- **A statement keeps the promise**, and what is left of the program assures the same. -/
theorem Assures.next (h : Assures c post p s) (hgiven : c.given s) (hnext : Next p s p' t) :
    c.guar s t ∧ Assures c post p' t := by
  cases hnext with
  | answered f k =>
    obtain ⟨hguar, hanswered, -⟩ := h s (c.rely_refl s) hgiven
    exact ⟨hguar, hanswered⟩
  | refused f k _ e =>
    obtain ⟨-, -, hrefused⟩ := h s (c.rely_refl s) hgiven
    exact ⟨c.guar_refl s, hrefused e⟩

/-- **A program that has returned** meets the postcondition. -/
theorem Assures.result {a : α} (h : Assures c post (.pure a : Prog σ δ α) s) : post a s := h s (c.rely_refl s)

/-! ## Rules -/

theorem assures_pure {a : α} (hpost : c.Stable (post a)) (h : post a s) :
    Assures c post (.pure a : Prog σ δ α) s := fun t hst => hpost s t hst h

theorem Assures.mono (h : Assures c post p s) (hpost : ∀ a t, post a t → post' a t) : Assures c post' p s := by
  induction p generalizing s with
  | pure a => exact fun t hst => hpost a t (h t hst)
  | stmt f k ih =>
    intro t hst hgiven
    obtain ⟨hguar, hanswered, hrefused⟩ := h t hst hgiven
    exact ⟨hguar, ih _ hanswered, fun e => ih _ (hrefused e)⟩

theorem Assures.bind {q : α → Prog σ δ β} {post : β → σ → Prop}
    (h : Assures c (fun a t => Assures c post (q a) t) p s) : Assures c post (p >>= q) s := by
  induction p generalizing s with
  | pure a => exact h s (c.rely_refl s)
  | stmt f k ih =>
    intro t hst hgiven
    obtain ⟨hguar, hanswered, hrefused⟩ := h t hst hgiven
    exact ⟨hguar, ih _ hanswered, fun e => ih _ (hrefused e)⟩

/-- **Frame rule**: what neither the others nor the program can make false still holds at the end. -/
theorem Assures.frame (hrely : c.Stable J) (hguar : ∀ s t, c.guar s t → J s → J t) (h : Assures c post p s)
    (hs : J s) : Assures c (fun a t => post a t ∧ J t) p s := by
  induction p generalizing s with
  | pure a => exact fun t hst => ⟨h t hst, hrely s t hst hs⟩
  | stmt f k ih =>
    intro t hst hgiven
    have ht : J t := hrely s t hst hs
    obtain ⟨hkept, hanswered, hrefused⟩ := h t hst hgiven
    exact ⟨hkept, ih _ hanswered (hguar _ _ hkept ht), fun e => ih _ (hrefused e) ht⟩

/-- **A program whose statements respect `R`** keeps the promise if `R` does, wherever `J` holds. -/
theorem Moves.assures {R : σ → σ → Prop} (h : Moves R p) (hrely : c.Stable J)
    (hR : ∀ s t, J s → c.given s → R s t → c.guar s t ∧ J t) (hs : J s) : Assures c (fun _ => J) p s := by
  induction p generalizing s with
  | pure a => exact fun t hst => hrely s t hst hs
  | stmt f k ih =>
    intro t hst hgiven
    have ht : J t := hrely s t hst hs
    obtain ⟨hguar, hkept⟩ := hR t (f t).2 ht hgiven (h.1 t)
    exact ⟨hguar, ih _ (h.2 _) hkept, fun e => ih _ (h.2 _) ht⟩

/-! ## Conditions on the run -/

/-- The contract, to be kept while `G` holds. -/
def Contract.provided (c : Contract σ) (G : Prop) : Contract σ where
  given s := c.given s ∧ G
  rely := c.rely
  guar := c.guar
  rely_refl := c.rely_refl
  rely_trans := c.rely_trans
  guar_refl := c.guar_refl

/-- While `G` fails nothing is asked of the statements. -/
theorem assures_provided {G : Prop} (h : G → Assures c (fun _ _ => True) p s) :
    Assures (c.provided G) (fun _ _ => True) p s := by
  induction p generalizing s with
  | pure a => exact fun _ _ => trivial
  | stmt f k ih =>
    rintro t hst ⟨hgiven, hG⟩
    obtain ⟨hguar, hanswered, hrefused⟩ := h hG t hst hgiven
    exact ⟨hguar, ih _ fun _ => hanswered, fun e => ih _ fun _ => hrefused e⟩

/-! ## Programs that run alone -/

/-- Nobody else changes the store, and every statement preserves `I`. -/
def Contract.alone (I : σ → Prop) : Contract σ where
  given _ := True
  rely := Eq
  guar s t := I s → I t
  rely_refl _ := rfl
  rely_trans := Eq.trans
  guar_refl _ hs := hs

section Alone

variable {I : σ → Prop}

theorem stable_alone : (Contract.alone I).Stable J := by
  rintro s _ rfl hs
  exact hs

/-- **What every statement preserves** holds wherever the program is cut off. -/
theorem Assures.reach (h : Assures (.alone I) post p s) (hr : Reach p s t) (hs : I s) : I t := by
  induction hr with
  | here p s => exact hs
  | step _ ih =>
    obtain ⟨hkept, hanswered, -⟩ := h _ rfl trivial
    exact ih hanswered (hkept hs)
  | refused e _ ih =>
    obtain ⟨-, -, hrefused⟩ := h _ rfl trivial
    exact ih (hrefused e) hs

/-- A program that only reads returns what it may return on this store. -/
theorem assures_reads (h : Moves (fun s t : σ => s = t) p) :
    Assures (.alone I) (fun a t => t = s ∧ Exec p s a s) p s := by
  induction p generalizing s with
  | pure a =>
    rintro _ rfl
    exact ⟨rfl, .pure a s⟩
  | stmt f k ih =>
    rintro t rfl -
    have hf : s = (f s).2 := h.1 s
    refine ⟨fun hs => hf ▸ hs, ?_, fun e => (ih _ (h.2 _)).mono fun a t ht => ⟨ht.1, .refused e ht.2⟩⟩
    refine (ih _ (h.2 _)).mono fun a t ht => ?_
    rw [← hf] at ht
    exact ⟨ht.1, .step (hf ▸ ht.2)⟩

end Alone

end Prog

namespace ProgE

open Prog

variable {σ δ ε ε' α β : Type} {c : Contract σ} {s : σ}

theorem assures_sql {f : σ → Except δ α × σ} {post : Except δ α → σ → Prop} (hstable : ∀ r, c.Stable (post r))
    (h : ∀ t, c.rely s t → c.given t → c.guar t (f t).2 ∧ post (f t).1 (f t).2 ∧ ∀ e, post (.error e) t) :
    Assures c post (sql f).run s := by
  intro t hst hgiven
  obtain ⟨hguar, hanswered, hrefused⟩ := h t hst hgiven
  exact ⟨hguar, assures_pure (hstable _) hanswered, fun e => assures_pure (hstable _) (hrefused e)⟩

theorem assures_bind {p : ProgE σ δ ε α} {q : α → ProgE σ δ ε β} {mid : Except ε α → σ → Prop}
    {post : Except ε β → σ → Prop} (hp : Assures c mid p.run s)
    (hok : ∀ a t, mid (.ok a) t → Assures c post (q a).run t)
    (herror : ∀ e t, mid (.error e) t → ∀ u, c.rely t u → post (.error e) u) : Assures c post (p >>= q).run s := by
  rw [ExceptT.run_bind]
  refine Assures.bind (hp.mono fun r t hr => ?_)
  cases r with
  | ok a => exact hok a t hr
  | error e => exact herror e t hr

theorem assures_mapErr {f : ε → ε'} {p : ProgE σ δ ε α} {post : Except ε' α → σ → Prop}
    (hstable : ∀ r, c.Stable (post r)) (h : Assures c (fun r => post (r.mapError f)) p.run s) :
    Assures c post (mapErr f p).run s :=
  Assures.bind (h.mono fun _ _ hr => assures_pure (hstable _) hr)

theorem assures_ignore {p : ProgE σ δ ε α} {J : σ → Prop} (hstable : c.Stable J)
    (h : Assures c (fun _ => J) p.run s) : Assures c (fun _ => J) (ignore p : ProgE σ δ ε' Unit).run s :=
  Assures.bind (h.mono fun _ _ hr => assures_pure hstable hr)

theorem assures_ofProg {p : Prog σ δ α} {post : Except ε α → σ → Prop} (hstable : ∀ r, c.Stable (post r))
    (h : Assures c (fun a => post (.ok a)) p s) : Assures c post (ofProg p : ProgE σ δ ε α).run s :=
  Assures.bind (h.mono fun _ _ hr => assures_pure (hstable _) hr)

/-- **Loops**: what every pass keeps holds after the loop. -/
theorem assures_forEach {ι : Type} {p : ι → ProgE σ δ ε Unit} {is : List ι} {J : σ → Prop} (hstable : c.Stable J)
    (hp : ∀ i ∈ is, ∀ t, J t → Assures c (fun _ => J) (p i).run t) (hs : J s) :
    Assures c (fun _ => J) (forEach p is).run s := by
  induction is generalizing s with
  | nil => exact assures_pure hstable hs
  | cons i is ih =>
    refine assures_bind (hp i List.mem_cons_self s hs) (fun _ t ht => ?_) fun _ t ht u htu => hstable t u htu ht
    exact ih (fun j hj => hp j (List.mem_cons_of_mem _ hj)) ht

/-! ### Answers that need not come -/

/-- What holds of the answer, if the program does not fail. -/
def IfOk (P : α → σ → Prop) (r : Except ε α) (s : σ) : Prop := ∀ a, r = .ok a → P a s

section IfOk

variable {P : α → σ → Prop}

theorem ifOk_ok {a : α} : IfOk P (.ok a : Except ε α) s ↔ P a s := by
  constructor
  · exact fun h => h a rfl
  · rintro h _ ⟨⟩
    exact h

theorem ifOk_error {e : ε} : IfOk P (.error e : Except ε α) s := fun _ h => nomatch h

theorem stable_ifOk (h : ∀ a, c.Stable (P a)) (r : Except ε α) : c.Stable (IfOk P r) :=
  fun s t hst hs a ha => h a s t hst (hs a ha)

theorem assures_pure_ifOk {a : α} (hstable : c.Stable (P a)) (h : P a s) :
    Assures c (IfOk P) (pure a : ProgE σ δ ε α).run s :=
  fun t hst => ifOk_ok.2 (hstable s t hst h)

theorem assures_sql_ifOk {f : σ → Except δ α × σ} (hstable : ∀ a, c.Stable (P a))
    (h : ∀ t, c.rely s t → c.given t → c.guar t (f t).2 ∧ IfOk P (f t).1 (f t).2) :
    Assures c (IfOk P) (sql f).run s :=
  assures_sql (stable_ifOk hstable) fun t hst hgiven =>
    ⟨(h t hst hgiven).1, (h t hst hgiven).2, fun _ => ifOk_error⟩

theorem assures_query_ifOk {f : σ → α} (hstable : ∀ a, c.Stable (P a))
    (h : ∀ t, c.rely s t → c.given t → P (f t) t) : Assures c (IfOk P) (query f : ProgE σ δ δ α).run s :=
  assures_sql_ifOk hstable fun t hst hgiven => ⟨c.guar_refl t, ifOk_ok.2 (h t hst hgiven)⟩

theorem assures_execute_ifOk {f : σ → σ} {J : σ → Prop} (hstable : c.Stable J)
    (h : ∀ t, c.rely s t → c.given t → c.guar t (f t) ∧ J (f t)) :
    Assures c (IfOk fun _ => J) (execute f : ProgE σ δ δ Unit).run s :=
  assures_sql_ifOk (fun _ => hstable) fun t hst hgiven =>
    ⟨(h t hst hgiven).1, ifOk_ok.2 (h t hst hgiven).2⟩

theorem assures_fromExcept_bind {r : Except ε α} {q : α → ProgE σ δ ε β} {Q : β → σ → Prop}
    (h : ∀ a, r = .ok a → Assures c (IfOk Q) (q a).run s) : Assures c (IfOk Q) (fromExcept r >>= q).run s := by
  cases r with
  | ok a => exact h a rfl
  | error e => exact fun _ _ => ifOk_error

theorem assures_pure_bind {a : α} {q : α → ProgE σ δ ε β} {post : Except ε β → σ → Prop}
    (h : Assures c post (q a).run s) : Assures c post (pure a >>= q : ProgE σ δ ε β).run s := h

theorem assures_bind_ifOk {p : ProgE σ δ ε α} {q : α → ProgE σ δ ε β} {Q : β → σ → Prop}
    (hp : Assures c (IfOk P) p.run s) (hq : ∀ a t, P a t → Assures c (IfOk Q) (q a).run t) :
    Assures c (IfOk Q) (p >>= q).run s :=
  assures_bind hp (fun a t ht => hq a t (ifOk_ok.1 ht)) fun _ _ _ _ _ => ifOk_error

theorem assures_mapErr_ifOk {f : ε → ε'} {p : ProgE σ δ ε α} (hstable : ∀ a, c.Stable (P a))
    (h : Assures c (IfOk P) p.run s) : Assures c (IfOk P) (mapErr f p).run s := by
  refine assures_mapErr (stable_ifOk hstable) (h.mono fun r t hr => ?_)
  cases r with
  | ok a => exact ifOk_ok.2 (ifOk_ok.1 hr)
  | error e => exact ifOk_error

end IfOk

end ProgE
