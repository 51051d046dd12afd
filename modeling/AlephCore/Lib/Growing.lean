import AlephCore.Lib.Table
import Mathlib.Order.Defs.Unbundled

/-!
# Growing — tables whose rows stay

`Grows R gone t u`: each row of the table `t` is still in `u`, as a row that `R` allows, unless its key is one of those
that are `gone`.  The statements of a table grow it if they change rows as `R` allows and delete only what is gone.
-/

namespace Table

variable {ρ κ : Type} {key : ρ → κ} {R : ρ → ρ → Prop} {gone gone' : κ → Prop} {t u v : Table ρ key}

/-- Every row stays, as `R` allows, unless its key is gone. -/
def Grows (R : ρ → ρ → Prop) (gone : κ → Prop) (t u : Table ρ key) : Prop :=
  ∀ r ∈ t, gone (key r) ∨ ∃ s ∈ u, R r s

theorem Grows.of_mem [Std.Refl R] (h : ∀ r ∈ t, r ∈ u) : Grows R gone t u :=
  fun r hr => .inr ⟨r, h r hr, refl_of R r⟩

theorem Grows.refl [Std.Refl R] (t : Table ρ key) : Grows R gone t t := .of_mem fun _ hr => hr

theorem Grows.trans [IsTrans ρ R] (hkey : ∀ r s, R r s → key s = key r) (hgone : ∀ k, gone k → gone' k)
    (h : Grows R gone t u) (h' : Grows R gone' u v) : Grows R gone' t v := by
  intro r hr
  rcases h r hr with hdead | ⟨s, hs, hrs⟩
  · exact .inl (hgone _ hdead)
  · rcases h' s hs with hdead | ⟨q, hq, hsq⟩
    · exact .inl (hkey r s hrs ▸ hdead)
    · exact .inr ⟨q, hq, trans_of R hrs hsq⟩

theorem grows_delete [Std.Refl R] {p : ρ → Prop} [DecidablePred p] (h : ∀ r ∈ t, p r → gone (key r)) :
    Grows R gone t (t.delete p) := by
  intro r hr
  by_cases hp : p r
  · exact .inl (h r hr hp)
  · exact .inr ⟨r, mem_delete.2 ⟨hr, hp⟩, refl_of R r⟩

theorem grows_update [Std.Refl R] {p : ρ → Prop} [DecidablePred p] {f : ρ → ρ} {hf : ∀ r, key (f r) = key r}
    (h : ∀ r ∈ t, p r → R r (f r)) : Grows R gone t (t.update p f hf) := by
  intro r hr
  by_cases hp : p r
  · exact .inr ⟨f r, mem_update.2 (.inr ⟨r, hr, hp, rfl⟩), h r hr hp⟩
  · exact .inr ⟨r, mem_update.2 (.inl ⟨hr, hp⟩), refl_of R r⟩

section Insert

variable [DecidableEq κ]

theorem grows_upsert [Std.Refl R] {r : ρ} {f : ρ → ρ} {hf : ∀ s, key (f s) = key s}
    (h : ∀ s ∈ t, key s = key r → R s (f s)) : Grows R gone t (t.upsert r f hf) := by
  intro s hs
  by_cases hk : key s = key r
  · exact .inr ⟨f s, mem_upsert.2 (.inr (.inl ⟨s, hs, hk, rfl⟩)), h s hs hk⟩
  · exact .inr ⟨s, mem_upsert.2 (.inl ⟨hs, hk⟩), refl_of R s⟩

end Insert

/-- One statement after another. -/
theorem grows_foldl [Std.Refl R] [IsTrans ρ R] (hkey : ∀ r s, R r s → key s = key r) {ι : Type}
    {f : Table ρ key → ι → Table ρ key} (h : ∀ t i, Grows R gone t (f t i)) (is : List ι) (t : Table ρ key) :
    Grows R gone t (is.foldl f t) := by
  induction is generalizing t with
  | nil => exact .refl t
  | cons i is ih => exact (h t i).trans hkey (fun _ hk => hk) (ih (f t i))

end Table
