import AlephCore.Lib.Prog
import Mathlib.Logic.Function.Basic

/-!
# BusyFlag — calls that exclude one another by an atomic flag

A `Flagged` program works on a shared store and on one flag: it takes the flag if it is clear, clears
it, or issues a statement, which may be refused.  In a `World` any number of such calls take their
actions in any order.  `Releases` says that a program clears the flag whatever its statements answer,
unless one of the critical statements fails; from it follows that no call that has returned leaves the
flag set, as long as no critical statement has failed, and only then.
-/

/-- A program over a store and a flag. -/
inductive Flagged (σ δ ℓ α : Type) : Type 1 where
  | ret (a : α)
  /-- Set the flag if it is clear; the answer is whether it was clear. -/
  | acquire (k : Bool → Flagged σ δ ℓ α)
  /-- Clear the flag. -/
  | release (k : Flagged σ δ ℓ α)
  /-- Issue a statement with a label. -/
  | stmt {β : Type} (l : ℓ) (f : σ → Except δ β × σ) (k : Except δ β → Flagged σ δ ℓ α)

namespace Flagged

variable {σ δ ℓ α β ι : Type}

/-- Sequencing. -/
protected def bind : Flagged σ δ ℓ α → (α → Flagged σ δ ℓ β) → Flagged σ δ ℓ β
  | .ret a, q => q a
  | .acquire k, q => .acquire fun b => (k b).bind q
  | .release k, q => .release (k.bind q)
  | .stmt l f k, q => .stmt l f fun r => (k r).bind q

instance : Monad (Flagged σ δ ℓ) where
  pure := .ret
  bind := Flagged.bind

@[simp] theorem pure_eq (a : α) : (pure a : Flagged σ δ ℓ α) = .ret a := rfl

@[simp] theorem ret_bind (a : α) (q : α → Flagged σ δ ℓ β) : (Flagged.ret a >>= q) = q a := rfl

@[simp] theorem acquire_bind (k : Bool → Flagged σ δ ℓ α) (q : α → Flagged σ δ ℓ β) :
    (Flagged.acquire k >>= q) = .acquire fun b => k b >>= q := rfl

@[simp] theorem release_bind (k : Flagged σ δ ℓ α) (q : α → Flagged σ δ ℓ β) :
    (Flagged.release k >>= q) = .release (k >>= q) := rfl

@[simp] theorem stmt_bind {ρ : Type} (l : ℓ) (f : σ → Except δ ρ × σ)
    (k : Except δ ρ → Flagged σ δ ℓ α) (q : α → Flagged σ δ ℓ β) :
    (Flagged.stmt l f k >>= q) = .stmt l f fun r => k r >>= q := rfl

theorem bind_assoc {γ : Type} (p : Flagged σ δ ℓ α) (q : α → Flagged σ δ ℓ β) (r : β → Flagged σ δ ℓ γ) :
    ((p >>= q) >>= r) = p >>= fun a => q a >>= r := by
  induction p with
  | ret a => rfl
  | acquire k ih => exact congrArg Flagged.acquire (funext ih)
  | release k ih => exact congrArg Flagged.release ih
  | stmt l f k ih => exact congrArg (Flagged.stmt l f) (funext ih)

/-- A program that leaves the flag alone, all its statements under one label. -/
def ofProg (l : ℓ) : Prog σ δ α → Flagged σ δ ℓ α
  | .pure a => .ret a
  | .stmt f k => .stmt l f fun r => ofProg l (k r)

/-- Has the program returned? -/
def returned : Flagged σ δ ℓ α → Bool
  | .ret _ => true
  | _ => false

/-- Execute a program, no statement being refused and nobody else touching the flag. -/
def run : Flagged σ δ ℓ α → σ → Bool → α × σ × Bool
  | .ret a, s, b => (a, s, b)
  | .acquire k, s, b => (k (!b)).run s true
  | .release k, s, _ => k.run s false
  | .stmt _ f k, s, b => (k (f s).1).run (f s).2 b

theorem run_ofProg_bind (l : ℓ) (p : Prog σ δ α) (q : α → Flagged σ δ ℓ β) (s : σ) (b : Bool) :
    (ofProg l p >>= q).run s b = (q (p.run s).1).run (p.run s).2 b := by
  induction p generalizing s with
  | pure a => rfl
  | stmt f k ih => exact ih _ _

/-! ## Programs that release -/

/-- The program of a call that holds the flag: whatever its statements answer it clears the flag and
then returns, except that it returns at once when a critical statement fails. -/
inductive Releases (critical : ℓ → Bool) : Flagged σ δ ℓ α → Prop
  | release (a : α) : Releases critical (.release (.ret a))
  | stmt {ρ : Type} {l : ℓ} {f : σ → Except δ ρ × σ} {k : Except δ ρ → Flagged σ δ ℓ α}
      (h : ∀ r, Releases critical (k r)) (hl : critical l = false) : Releases critical (.stmt l f k)
  | critical {ρ : Type} {l : ℓ} {f : σ → Except δ ρ × σ} {k : Except δ ρ → Flagged σ δ ℓ α}
      (herror : ∀ e, ∃ a, k (.error e) = .ret a) (hok : ∀ x, Releases critical (k (.ok x)))
      (hl : critical l = true) : Releases critical (.stmt l f k)

theorem Releases.not_returned {critical : ℓ → Bool} {p : Flagged σ δ ℓ α} (h : Releases critical p) :
    p.returned = false := by
  cases h <;> rfl

theorem releases_ofProg_bind {critical : ℓ → Bool} {l : ℓ} (hl : critical l = false)
    (p : Prog σ δ α) {q : α → Flagged σ δ ℓ β} (h : ∀ a, Releases critical (q a)) :
    Releases critical (ofProg l p >>= q) := by
  induction p with
  | pure a => exact h a
  | stmt f k ih => exact .stmt (fun r => ih r) hl

/-! ## Calls in any order -/

/-- The store, the flag and what is left of every call.  `holder` is the call that set the flag and has
not cleared it, and `failed` whether a critical statement has answered with an error: the calls see neither. -/
structure World (σ δ ℓ α ι : Type) where
  store : σ
  flag : Bool
  calls : ι → Flagged σ δ ℓ α
  holder : Option ι
  failed : Bool

/-- Nothing has been called yet. -/
def World.init (p : Flagged σ δ ℓ α) (s : σ) : World σ δ ℓ α ι :=
  { store := s, flag := false, calls := fun _ => p, holder := none, failed := false }

/-- A program that begins by taking the flag, and then releases it, or returns `busy`. -/
def Enters (critical : ℓ → Bool) (busy : α) (p : Flagged σ δ ℓ α) : Prop :=
  ∃ k, p = .acquire k ∧ k false = .ret busy ∧ Releases critical (k true)

/-- What every action preserves. -/
structure Inv (critical : ℓ → Bool) (p : Flagged σ δ ℓ α) (w : World σ δ ℓ α ι) : Prop where
  flag_eq : w.flag = w.holder.isSome
  idle : ∀ i, w.holder ≠ some i → w.calls i = p ∨ (w.calls i).returned = true
  holding : ∀ i, w.holder = some i → w.failed = false → Releases critical (w.calls i)
  stuck : w.failed = true → ∃ i, w.holder = some i ∧ (w.calls i).returned = true

section

variable {critical : ℓ → Bool} {p : Flagged σ δ ℓ α} {busy : α} {w : World σ δ ℓ α ι}

theorem Inv.init (s : σ) : Inv critical p (World.init p s : World σ δ ℓ α ι) where
  flag_eq := rfl
  idle _ _ := .inl rfl
  holding _ h _ := absurd h (Option.some_ne_none _).symm
  stuck h := absurd h Bool.false_ne_true

theorem Inv.not_failed (h : Inv critical p w) {i : ι} (hi : w.holder = some i)
    (hret : (w.calls i).returned = false) : w.failed = false := by
  by_contra hf
  obtain ⟨j, hj, hjret⟩ := h.stuck (by simpa using hf)
  obtain rfl : i = j := Option.some.inj (hi.symm.trans hj)
  rw [hret] at hjret
  exact Bool.false_ne_true hjret

/-- A call that takes the flag has just begun. -/
theorem Inv.beginning (h : Inv critical p w) {i : ι} {k : Bool → Flagged σ δ ℓ α}
    (hc : w.calls i = .acquire k) : w.holder ≠ some i ∧ p = .acquire k := by
  have hret : (w.calls i).returned = false := by rw [hc]; rfl
  have hne : w.holder ≠ some i := by
    intro hi
    have hrel := h.holding i hi (h.not_failed hi hret)
    rw [hc] at hrel
    cases hrel
  refine ⟨hne, ?_⟩
  rcases h.idle i hne with hp | hp
  · rw [← hp, hc]
  · rw [hret] at hp
    exact absurd hp Bool.false_ne_true

/-- Every other action is one of the holder. -/
theorem Inv.holds (h : Inv critical p w) (hp : Enters critical busy p) {i : ι}
    (hret : (w.calls i).returned = false) (hne : ∀ k, w.calls i ≠ .acquire k) : w.holder = some i := by
  by_contra hi
  obtain ⟨k, hk, -⟩ := hp
  rcases h.idle i hi with h' | h'
  · exact hne k (h'.trans hk)
  · rw [hret] at h'
    exact Bool.false_ne_true h'

variable [DecidableEq ι]

/-- Calls other than `i` are as they were. -/
theorem Inv.idle_update (h : Inv critical p w) {i j : ι} {q : Flagged σ δ ℓ α} (hj : w.holder ≠ some j)
    (hq : j = i → q.returned = true) :
    Function.update w.calls i q j = p ∨ (Function.update w.calls i q j).returned = true := by
  by_cases hji : j = i
  · rw [hji, Function.update_self]
    exact .inr (hq hji)
  · rw [Function.update_of_ne hji]
    exact h.idle j hj

/-- The holder goes on, or returns because a critical statement failed. -/
theorem Inv.advance (h : Inv critical p w) {i : ι} (hi : w.holder = some i) {q : Flagged σ δ ℓ α} (s : σ)
    {failed : Bool} (hrel : failed = false → Releases critical q)
    (hret : failed = true → q.returned = true) :
    Inv critical p { w with store := s, calls := Function.update w.calls i q, failed := failed } where
  flag_eq := h.flag_eq
  idle j hj := h.idle_update hj fun hji => absurd (hji ▸ hi) hj
  holding j hj hf := by
    obtain rfl : i = j := Option.some.inj (hi.symm.trans hj)
    show Releases critical (Function.update w.calls i q i)
    rw [Function.update_self]
    exact hrel hf
  stuck hf := by
    refine ⟨i, hi, ?_⟩
    show (Function.update w.calls i q i).returned = true
    rw [Function.update_self]
    exact hret hf

end

/-! ### Actions -/

variable [DecidableEq ι]

/-- One action of call `i`, or a change of the store by somebody else. -/
inductive Step (critical : ℓ → Bool) (w : World σ δ ℓ α ι) : Option ι → World σ δ ℓ α ι → Prop
  | acquire {i : ι} {k : Bool → Flagged σ δ ℓ α} (h : w.calls i = .acquire k) :
      Step critical w (some i) { w with
        flag := true, calls := Function.update w.calls i (k (!w.flag)),
        holder := if w.flag then w.holder else some i }
  | release {i : ι} {k : Flagged σ δ ℓ α} (h : w.calls i = .release k) :
      Step critical w (some i) { w with
        flag := false, calls := Function.update w.calls i k, holder := none }
  | granted {i : ι} {ρ : Type} {l : ℓ} {f : σ → Except δ ρ × σ} {k : Except δ ρ → Flagged σ δ ℓ α}
      (h : w.calls i = .stmt l f k) :
      Step critical w (some i) { w with
        store := (f w.store).2, calls := Function.update w.calls i (k (f w.store).1),
        failed := w.failed || critical l && !(f w.store).1.isOk }
  | refused {i : ι} {ρ : Type} {l : ℓ} {f : σ → Except δ ρ × σ} {k : Except δ ρ → Flagged σ δ ℓ α}
      (e : δ) (h : w.calls i = .stmt l f k) :
      Step critical w (some i) { w with
        calls := Function.update w.calls i (k (.error e)), failed := w.failed || critical l }
  | other (s : σ) : Step critical w none { w with store := s }

/-- The states the calls of a program can lead to. -/
inductive Reachable (critical : ℓ → Bool) (p : Flagged σ δ ℓ α) : World σ δ ℓ α ι → Prop
  | init (s : σ) : Reachable critical p (.init p s)
  | step {w w' : World σ δ ℓ α ι} {i : Option ι} (h : Reachable critical p w)
      (hs : Step critical w i w') : Reachable critical p w'

/-- The flag excludes and is given back: if it is set, the call that set it is still in progress; no
other call changes it meanwhile; and a call that finds it set returns `busy`. -/
structure Kept (critical : ℓ → Bool) (p : Flagged σ δ ℓ α) (busy : α) (w : World σ δ ℓ α ι) : Prop where
  released : w.flag = true → ∃ i, w.holder = some i ∧ (w.calls i).returned = false
  notStolen : ∀ i j w', w.holder = some j → i ≠ j → Step critical w (some i) w' →
    w'.flag = w.flag ∧ w'.holder = some j
  refused : ∀ i w', w.flag = true → w.calls i = p → Step critical w (some i) w' →
    w'.flag = w.flag ∧ w'.calls i = .ret busy

section

variable {critical : ℓ → Bool} {p : Flagged σ δ ℓ α} {busy : α} {w w' : World σ δ ℓ α ι}

theorem Inv.acquire (h : Inv critical p w) (hp : Enters critical busy p) {i : ι}
    {k : Bool → Flagged σ δ ℓ α} (hc : w.calls i = .acquire k) :
    Inv critical p { w with
      flag := true, calls := Function.update w.calls i (k (!w.flag)),
      holder := if w.flag then w.holder else some i } := by
  obtain ⟨hi, hk⟩ := h.beginning hc
  obtain ⟨k', hk', hbusy, hrel⟩ := hp
  obtain rfl : k = k' := Flagged.acquire.inj (hk.symm.trans hk')
  cases hflag : w.flag with
  | true =>
    have hsome : w.holder.isSome = true := by rw [← h.flag_eq, hflag]
    refine ⟨hsome.symm, fun j hj => ?_, fun j hj hf => ?_, fun hf => ?_⟩
    · exact h.idle_update hj fun _ => by rw [Bool.not_true, hbusy]; rfl
    · have hji : j ≠ i := fun hji => hi (hji ▸ hj)
      show Releases critical (Function.update w.calls i _ j)
      rw [Function.update_of_ne hji]
      exact h.holding j hj hf
    · obtain ⟨j, hj, hret⟩ := h.stuck hf
      have hji : j ≠ i := fun hji => hi (hji ▸ hj)
      refine ⟨j, hj, ?_⟩
      show (Function.update w.calls i _ j).returned = true
      rw [Function.update_of_ne hji]
      exact hret
  | false =>
    have hnone : w.holder = none := by
      have heq := h.flag_eq
      rw [hflag] at heq
      exact Option.isNone_iff_eq_none.1 (by rw [← Option.not_isSome, ← heq]; rfl)
    refine ⟨rfl, fun j hj => ?_, fun j hj _ => ?_, fun hf => ?_⟩
    · have hji : j ≠ i := fun hji => hj (hji ▸ rfl)
      exact h.idle_update (by rw [hnone]; exact (Option.some_ne_none j).symm) fun hji' => absurd hji' hji
    · obtain rfl : i = j := Option.some.inj hj
      show Releases critical (Function.update w.calls i _ i)
      rw [Function.update_self]
      exact hrel
    · obtain ⟨j, hj, -⟩ := h.stuck hf
      rw [hnone] at hj
      exact absurd hj.symm (Option.some_ne_none j)

theorem Inv.release (h : Inv critical p w) (hp : Enters critical busy p) {i : ι} {k : Flagged σ δ ℓ α}
    (hc : w.calls i = .release k) :
    Inv critical p { w with
      flag := false, calls := Function.update w.calls i k, holder := none } := by
  have hret : (w.calls i).returned = false := by rw [hc]; rfl
  have hi := h.holds hp hret fun k' hk' => by rw [hc] at hk'; cases hk'
  have hf := h.not_failed hi hret
  have hrel := h.holding i hi hf
  rw [hc] at hrel
  cases hrel with
  | release a =>
    refine ⟨rfl, fun j _ => ?_, fun j hj _ => ?_, fun hf' => ?_⟩
    · by_cases hj : w.holder = some j
      · obtain rfl : i = j := Option.some.inj (hi.symm.trans hj)
        show Function.update w.calls i _ i = p ∨ (Function.update w.calls i _ i).returned = true
        rw [Function.update_self]
        exact .inr rfl
      · exact h.idle_update hj fun _ => rfl
    · exact absurd hj (Option.some_ne_none j).symm
    · exact absurd (hf.symm.trans hf') Bool.false_ne_true

/-- A statement of the holder has answered. -/
theorem Inv.answered (h : Inv critical p w) (hp : Enters critical busy p) {i : ι} {ρ : Type} {l : ℓ}
    {f : σ → Except δ ρ × σ} {k : Except δ ρ → Flagged σ δ ℓ α} (hc : w.calls i = .stmt l f k) (s : σ)
    (r : Except δ ρ) :
    Inv critical p { w with
      store := s, calls := Function.update w.calls i (k r), failed := w.failed || critical l && !r.isOk } := by
  have hret : (w.calls i).returned = false := by rw [hc]; rfl
  have hi := h.holds hp hret fun k' hk' => by rw [hc] at hk'; cases hk'
  have hf := h.not_failed hi hret
  have hrel := h.holding i hi hf
  rw [hc] at hrel
  rw [hf, Bool.false_or]
  cases hrel with
  | stmt hk hl =>
    rw [hl, Bool.false_and]
    exact h.advance hi s (fun _ => hk r) fun hfalse => absurd hfalse Bool.false_ne_true
  | critical herror hok hl =>
    rw [hl, Bool.true_and]
    cases r with
    | ok x => exact h.advance hi s (fun _ => hok x) fun hfalse => absurd hfalse Bool.false_ne_true
    | error e =>
      obtain ⟨a, ha⟩ := herror e
      exact h.advance hi s (fun htrue => absurd htrue.symm Bool.false_ne_true) fun _ => by rw [ha]; rfl

/-- **Every action preserves the invariant.** -/
theorem Inv.step (h : Inv critical p w) (hp : Enters critical busy p) {o : Option ι}
    (hs : Step critical w o w') : Inv critical p w' := by
  cases hs with
  | acquire hc => exact h.acquire hp hc
  | release hc => exact h.release hp hc
  | granted hc => exact h.answered hp hc _ _
  | @refused i ρ l f k e hc =>
    have hnext := h.answered hp hc w.store (.error e)
    rwa [show (!(Except.error e : Except δ ρ).isOk) = true from rfl, Bool.and_true] at hnext
  | other s => exact ⟨h.flag_eq, h.idle, h.holding, h.stuck⟩

theorem Reachable.inv (h : Reachable critical p w) (hp : Enters critical busy p) : Inv critical p w := by
  induction h with
  | init s => exact .init s
  | step _ hs ih => exact ih.step hp hs

/-- While a call holds the flag, the actions of the others leave it alone. -/
theorem Inv.notStolen (h : Inv critical p w) (hp : Enters critical busy p) {i j : ι}
    (hj : w.holder = some j) (hij : i ≠ j) (hs : Step critical w (some i) w') :
    w'.flag = w.flag ∧ w'.holder = some j := by
  have hi : w.holder ≠ some i := fun hi => hij (Option.some.inj (hi.symm.trans hj))
  have hflag : w.flag = true := by rw [h.flag_eq, hj]; rfl
  cases hs with
  | acquire hc => exact ⟨hflag.symm, by rw [if_pos hflag]; exact hj⟩
  | release hc =>
    refine absurd (h.holds hp (by rw [hc]; rfl) fun k' hk' => ?_) hi
    rw [hc] at hk'
    cases hk'
  | granted hc => exact ⟨rfl, hj⟩
  | refused e hc => exact ⟨rfl, hj⟩

/-- A call that begins while the flag is set returns at once. -/
theorem busy_of_flag (hp : Enters critical busy p) {i : ι} (hflag : w.flag = true) (hc : w.calls i = p)
    (hs : Step critical w (some i) w') : w'.flag = w.flag ∧ w'.calls i = .ret busy := by
  obtain ⟨k, rfl, hbusy, -⟩ := hp
  cases hs with
  | acquire hc' =>
    obtain rfl := Flagged.acquire.inj (hc'.symm.trans hc)
    refine ⟨hflag.symm, ?_⟩
    show Function.update w.calls i _ i = _
    rw [Function.update_self, hflag]
    exact hbusy
  | release hc' => exact absurd (hc'.symm.trans hc) (by simp)
  | granted hc' => exact absurd (hc'.symm.trans hc) (by simp)
  | refused e hc' => exact absurd (hc'.symm.trans hc) (by simp)

/-- **The flag is kept in a reachable state if and only if no critical statement has failed so far.** -/
theorem Reachable.kept_iff (h : Reachable critical p w) (hp : Enters critical busy p) :
    Kept critical p busy w ↔ w.failed = false := by
  have hinv := h.inv hp
  constructor
  · intro hkept
    by_contra hf
    obtain ⟨i, hi, hret⟩ := hinv.stuck (by simpa using hf)
    have hflag : w.flag = true := by rw [hinv.flag_eq, hi]; rfl
    obtain ⟨j, hj, hnot⟩ := hkept.released hflag
    obtain rfl : i = j := Option.some.inj (hi.symm.trans hj)
    rw [hret] at hnot
    exact Bool.false_ne_true hnot.symm
  · intro hf
    refine ⟨fun hflag => ?_, fun i j w' hj hij hs => hinv.notStolen hp hj hij hs,
      fun i w' hflag hc hs => busy_of_flag hp hflag hc hs⟩
    rw [hinv.flag_eq] at hflag
    obtain ⟨i, hi⟩ := Option.isSome_iff_exists.1 hflag
    exact ⟨i, hi, (hinv.holding i hi hf).not_returned⟩

end

end Flagged
