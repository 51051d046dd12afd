import Mathlib.Algebra.BigOperators.Group.List.Basic
import Mathlib.Data.List.Basic
import Mathlib.Data.List.Nodup
import Mathlib.Tactic.Common

/-!
# Table — tables with a primary key

A `Table ρ key` is a list of rows no two of which share their key; the statements below are the ones
SQL offers (`INSERT … ON CONFLICT DO NOTHING`, `… DO UPDATE`, `UPDATE`, `DELETE`), each described by
what is in the table afterwards.
-/

/-- A table of rows `ρ` whose primary key is `key`. -/
structure Table (ρ : Type) {κ : Type} (key : ρ → κ) where
  /-- The rows, in the order they are stored. -/
  rows : List ρ
  nodup : (rows.map key).Nodup

namespace Table

variable {ρ κ : Type} {key : ρ → κ}

instance : Membership ρ (Table ρ key) := ⟨fun t r => r ∈ t.rows⟩

theorem mem_def {r : ρ} {t : Table ρ key} : r ∈ t ↔ r ∈ t.rows := Iff.rfl

instance [DecidableEq ρ] (r : ρ) (t : Table ρ key) : Decidable (r ∈ t) :=
  inferInstanceAs (Decidable (r ∈ t.rows))

@[ext] theorem ext {t u : Table ρ key} (h : t.rows = u.rows) : t = u := by
  cases t; cases u; cases h; rfl

instance [DecidableEq ρ] : DecidableEq (Table ρ key) :=
  fun _ _ => decidable_of_iff _ Table.ext_iff.symm

/-- The table without rows. -/
def empty : Table ρ key := ⟨[], List.nodup_nil⟩

instance : Inhabited (Table ρ key) := ⟨empty⟩

@[simp] theorem not_mem_empty (r : ρ) : r ∉ (empty : Table ρ key) := List.not_mem_nil

theorem eq_of_key {t : Table ρ key} {r s : ρ} (hr : r ∈ t) (hs : s ∈ t) (h : key r = key s) : r = s :=
  List.inj_on_of_nodup_map t.nodup hr hs h

/-! ## Reading -/

section Find

variable [DecidableEq κ]

/-- The row with key `k`. -/
def find? (t : Table ρ key) (k : κ) : Option ρ :=
  t.rows.find? fun r => decide (key r = k)

theorem find?_eq_some {t : Table ρ key} {k : κ} {r : ρ} : t.find? k = some r ↔ r ∈ t ∧ key r = k := by
  constructor
  · intro h
    exact ⟨List.mem_of_find?_eq_some h, by simpa using List.find?_some h⟩
  · rintro ⟨hr, rfl⟩
    cases h : t.find? (key r) with
    | none =>
      have := List.find?_eq_none.1 h r hr
      simp at this
    | some s =>
      have hs : key s = key r := by simpa using List.find?_some h
      rw [eq_of_key (List.mem_of_find?_eq_some h) hr hs]

theorem find?_eq_none {t : Table ρ key} {k : κ} : t.find? k = none ↔ ∀ r ∈ t, key r ≠ k := by
  simp [find?, mem_def]

/-- Tables with the same rows find the same. -/
theorem find?_congr {t u : Table ρ key} (h : ∀ r, r ∈ t ↔ r ∈ u) (k : κ) : t.find? k = u.find? k := by
  ext r
  rw [find?_eq_some, find?_eq_some, h]

end Find

/-! ## Writing -/

/-- `DELETE FROM t WHERE p`. -/
def delete (t : Table ρ key) (p : ρ → Prop) [DecidablePred p] : Table ρ key :=
  ⟨t.rows.filter fun r => ¬ p r, t.nodup.sublist (List.filter_sublist.map key)⟩

@[simp] theorem mem_delete {t : Table ρ key} {p : ρ → Prop} [DecidablePred p] {r : ρ} :
    r ∈ t.delete p ↔ r ∈ t ∧ ¬ p r := by
  simp [delete, mem_def]

/-- `UPDATE t SET f WHERE p`, for columns `f` outside the key. -/
def update (t : Table ρ key) (p : ρ → Prop) [DecidablePred p] (f : ρ → ρ)
    (hf : ∀ r, key (f r) = key r := by intro r; rfl) : Table ρ key :=
  ⟨t.rows.map fun r => if p r then f r else r, by
    have h : (key ∘ fun r => if p r then f r else r) = key := by
      funext r
      by_cases hp : p r <;> simp [hp, hf]
    rw [List.map_map, h]
    exact t.nodup⟩

@[simp] theorem mem_update {t : Table ρ key} {p : ρ → Prop} [DecidablePred p] {f : ρ → ρ}
    {hf : ∀ r, key (f r) = key r} {r : ρ} :
    r ∈ t.update p f hf ↔ (r ∈ t ∧ ¬ p r) ∨ ∃ s ∈ t, p s ∧ r = f s := by
  simp only [update, mem_def, List.mem_map]
  constructor
  · rintro ⟨s, hs, rfl⟩
    by_cases hp : p s
    · exact .inr ⟨s, hs, hp, if_pos hp⟩
    · exact .inl ⟨by simpa [hp] using hs, by simp [hp]⟩
  · rintro (⟨hr, hp⟩ | ⟨s, hs, hp, rfl⟩)
    · exact ⟨r, hr, if_neg hp⟩
    · exact ⟨s, hs, if_pos hp⟩

/-- An update keeps the keys. -/
theorem exists_key_update {t : Table ρ key} {p : ρ → Prop} [DecidablePred p] {f : ρ → ρ}
    (hf : ∀ r, key (f r) = key r) {P : κ → Prop} :
    (∃ q ∈ t.update p f hf, P (key q)) ↔ ∃ q ∈ t, P (key q) := by
  constructor
  · rintro ⟨q, hq, hP⟩
    rcases mem_update.1 hq with ⟨hq, -⟩ | ⟨s, hs, -, rfl⟩
    · exact ⟨q, hq, hP⟩
    · exact ⟨s, hs, hf s ▸ hP⟩
  · rintro ⟨q, hq, hP⟩
    by_cases hp : p q
    · exact ⟨f q, mem_update.2 (.inr ⟨q, hq, hp, rfl⟩), (hf q).symm ▸ hP⟩
    · exact ⟨q, mem_update.2 (.inl ⟨hq, hp⟩), hP⟩

section Insert

variable [DecidableEq κ]

/-- Is there a row with the key of `r`? -/
def Clash (t : Table ρ key) (r : ρ) : Prop := ∃ s ∈ t.rows, key s = key r

instance (t : Table ρ key) (r : ρ) : Decidable (t.Clash r) :=
  inferInstanceAs (Decidable (∃ s ∈ t.rows, key s = key r))

/-- Add a row whose key is new. -/
def append (t : Table ρ key) (r : ρ) (h : ¬ t.Clash r) : Table ρ key :=
  ⟨t.rows ++ [r], by
    rw [List.map_append, List.map_singleton]
    refine List.nodup_append.2 ⟨t.nodup, List.nodup_singleton _, ?_⟩
    rintro a ha b hb rfl
    obtain ⟨s, hs, hk⟩ := List.mem_map.1 ha
    exact h ⟨s, hs, hk.trans (List.mem_singleton.1 hb)⟩⟩

/-- `INSERT … ON CONFLICT (key) DO NOTHING`. -/
def insertNew (t : Table ρ key) (r : ρ) : Table ρ key :=
  if h : t.Clash r then t else t.append r h

theorem mem_insertNew {t : Table ρ key} {r q : ρ} :
    q ∈ t.insertNew r ↔ q ∈ t ∨ q = r ∧ ∀ s ∈ t, key s ≠ key r := by
  rw [insertNew]
  split_ifs with h
  · constructor
    · exact .inl
    · rintro (hq | ⟨-, hq⟩)
      · exact hq
      · obtain ⟨s, hs, hk⟩ := h
        exact absurd hk (hq s hs)
  · have h' : ∀ s ∈ t, key s ≠ key r := fun s hs hk => h ⟨s, hs, hk⟩
    simp only [append, mem_def, List.mem_append, List.mem_singleton]
    tauto

/-- Rows inserted one after another: nothing else comes in, and every key does. -/
theorem foldl_insertNew {t : Table ρ key} (rs : List ρ) :
    (∀ q ∈ t, q ∈ rs.foldl insertNew t) ∧ (∀ q ∈ rs.foldl insertNew t, q ∈ t ∨ q ∈ rs) ∧
      ∀ r ∈ rs, ∃ q ∈ rs.foldl insertNew t, key q = key r := by
  induction rs generalizing t with
  | nil => exact ⟨fun q hq => hq, fun q hq => .inl hq, fun r hr => absurd hr List.not_mem_nil⟩
  | cons r rs ih =>
    obtain ⟨hkeeps, hsound, hall⟩ := ih (t := t.insertNew r)
    refine ⟨fun q hq => hkeeps q (mem_insertNew.2 (.inl hq)), fun q hq => ?_, fun r' hr' => ?_⟩
    · rcases hsound q hq with hq | hq
      · rcases mem_insertNew.1 hq with hq | ⟨rfl, -⟩
        · exact .inl hq
        · exact .inr List.mem_cons_self
      · exact .inr (List.mem_cons_of_mem r hq)
    · rcases List.mem_cons.1 hr' with rfl | hr'
      · by_cases hclash : t.Clash r'
        · obtain ⟨q, hq, he⟩ := hclash
          exact ⟨q, hkeeps q (mem_insertNew.2 (.inl hq)), he⟩
        · exact ⟨r', hkeeps r' (mem_insertNew.2 (.inr ⟨rfl, fun q hq he => hclash ⟨q, hq, he⟩⟩)), rfl⟩
      · exact hall r' hr'

/-- `INSERT … ON CONFLICT (key) DO UPDATE SET f`. -/
def upsert (t : Table ρ key) (r : ρ) (f : ρ → ρ)
    (hf : ∀ s, key (f s) = key s := by intro s; rfl) : Table ρ key :=
  if h : t.Clash r then t.update (fun s => key s = key r) f hf else t.append r h

theorem mem_upsert {t : Table ρ key} {r q : ρ} {f : ρ → ρ} {hf : ∀ s, key (f s) = key s} :
    q ∈ t.upsert r f hf ↔ (q ∈ t ∧ key q ≠ key r) ∨ (∃ s ∈ t, key s = key r ∧ q = f s) ∨
      (q = r ∧ ∀ s ∈ t, key s ≠ key r) := by
  rw [upsert]
  split_ifs with h
  · rw [mem_update]
    constructor
    · rintro (hq | hq)
      · exact .inl hq
      · exact .inr (.inl hq)
    · rintro (hq | hq | ⟨-, hq⟩)
      · exact .inl hq
      · exact .inr hq
      · obtain ⟨s, hs, hk⟩ := h
        exact absurd hk (hq s hs)
  · have h' : ∀ s ∈ t, key s ≠ key r := fun s hs hk => h ⟨s, hs, hk⟩
    simp only [append, mem_def, List.mem_append, List.mem_singleton]
    constructor
    · rintro (hq | rfl)
      · exact .inl ⟨hq, h' q hq⟩
      · exact .inr (.inr ⟨rfl, h'⟩)
    · rintro (⟨hq, -⟩ | ⟨s, hs, hk, -⟩ | ⟨rfl, -⟩)
      · exact .inl hq
      · exact absurd hk (h' s hs)
      · exact .inr rfl

omit [DecidableEq κ] in
theorem exists_key_append {t : Table ρ key} {r : ρ} {h : ¬ t.Clash r} {P : κ → Prop} :
    (∃ q ∈ t.append r h, P (key q)) ↔ (∃ q ∈ t, P (key q)) ∨ P (key r) := by
  simp only [append, mem_def, List.mem_append, List.mem_singleton, or_and_right, exists_or, exists_eq_left]

/-- After an insertion the key of the row is there, whether it was new or not. -/
theorem exists_key_insertNew {t : Table ρ key} {r : ρ} {P : κ → Prop} :
    (∃ q ∈ t.insertNew r, P (key q)) ↔ (∃ q ∈ t, P (key q)) ∨ P (key r) := by
  rw [insertNew]
  split_ifs with h
  · obtain ⟨s, hs, hk⟩ := h
    exact (or_iff_left_of_imp fun hP => ⟨s, hs, hk ▸ hP⟩).symm
  · exact exists_key_append

theorem exists_key_upsert {t : Table ρ key} {r : ρ} {f : ρ → ρ} {hf : ∀ s, key (f s) = key s} {P : κ → Prop} :
    (∃ q ∈ t.upsert r f hf, P (key q)) ↔ (∃ q ∈ t, P (key q)) ∨ P (key r) := by
  rw [upsert]
  split_ifs with h
  · obtain ⟨s, hs, hk⟩ := h
    rw [exists_key_update hf]
    exact (or_iff_left_of_imp fun hP => ⟨s, hs, hk ▸ hP⟩).symm
  · exact exists_key_append

/-! ## Reading after writing -/

theorem find?_update (t : Table ρ key) (p : ρ → Prop) [DecidablePred p] (f : ρ → ρ)
    (hf : ∀ r, key (f r) = key r) (k : κ) :
    (t.update p f hf).find? k = (t.find? k).map fun r => if p r then f r else r := by
  cases h : t.find? k with
  | none =>
    refine find?_eq_none.2 fun r hr => ?_
    rcases mem_update.1 hr with ⟨hr, -⟩ | ⟨s, hs, -, rfl⟩
    · exact find?_eq_none.1 h r hr
    · rw [hf]
      exact find?_eq_none.1 h s hs
  | some r =>
    obtain ⟨hr, hk⟩ := find?_eq_some.1 h
    rw [Option.map_some]
    by_cases hp : p r
    · rw [if_pos hp]
      exact find?_eq_some.2 ⟨mem_update.2 (.inr ⟨r, hr, hp, rfl⟩), (hf r).trans hk⟩
    · rw [if_neg hp]
      exact find?_eq_some.2 ⟨mem_update.2 (.inl ⟨hr, hp⟩), hk⟩

theorem find?_delete (t : Table ρ key) (p : ρ → Prop) [DecidablePred p] (k : κ) :
    (t.delete p).find? k = (t.find? k).filter fun r => ¬ p r := by
  cases h : t.find? k with
  | none => exact find?_eq_none.2 fun r hr => find?_eq_none.1 h r (mem_delete.1 hr).1
  | some r =>
    obtain ⟨hr, rfl⟩ := find?_eq_some.1 h
    by_cases hp : p r
    · rw [Option.filter_some, if_neg (by simp [hp])]
      refine find?_eq_none.2 fun s hs hk => ?_
      obtain ⟨hs, hps⟩ := mem_delete.1 hs
      exact hps (eq_of_key hr hs hk.symm ▸ hp)
    · rw [Option.filter_some, if_pos (by simp [hp])]
      exact find?_eq_some.2 ⟨mem_delete.2 ⟨hr, hp⟩, rfl⟩

theorem insertNew_of_find? {t : Table ρ key} {r s : ρ} (h : t.find? (key r) = some s) :
    t.insertNew r = t := by
  obtain ⟨hs, hk⟩ := find?_eq_some.1 h
  rw [insertNew, dif_pos ⟨s, hs, hk⟩]

theorem find?_insertNew (t : Table ρ key) (r : ρ) (k : κ) :
    (t.insertNew r).find? k = (t.find? k).or (if key r = k then some r else none) := by
  cases h : t.find? k with
  | none =>
    have hne : ∀ s ∈ t, key s ≠ k := find?_eq_none.1 h
    by_cases hk : key r = k
    · rw [if_pos hk]
      exact find?_eq_some.2 ⟨mem_insertNew.2 (.inr ⟨rfl, hk ▸ hne⟩), hk⟩
    · rw [if_neg hk]
      refine find?_eq_none.2 fun s hs => ?_
      rcases mem_insertNew.1 hs with hs | ⟨rfl, -⟩
      · exact hne s hs
      · exact hk
  | some s =>
    obtain ⟨hs, hk⟩ := find?_eq_some.1 h
    exact find?_eq_some.2 ⟨mem_insertNew.2 (.inl hs), hk⟩

theorem find?_upsert (t : Table ρ key) (r : ρ) (f : ρ → ρ) (hf : ∀ s, key (f s) = key s) (k : κ) :
    (t.upsert r f hf).find? k =
      if key r = k then some ((t.find? k).elim r f) else t.find? k := by
  rw [upsert]
  split_ifs with hc hk hk
  · obtain ⟨s, hs, hks⟩ := hc
    rw [find?_update, find?_eq_some.2 ⟨hs, hks.trans hk⟩]
    simp [hks]
  · rw [find?_update]
    cases h : t.find? k with
    | none => rfl
    | some s =>
      have hs : key s ≠ key r := fun e => hk (e.symm.trans (find?_eq_some.1 h).2)
      simp [hs]
  · have hnone : t.find? k = none := find?_eq_none.2 fun s hs e => hc ⟨s, hs, e.trans hk.symm⟩
    rw [hnone]
    exact find?_eq_some.2 ⟨List.mem_append_right _ (List.mem_singleton_self r), hk⟩
  · cases h : t.find? k with
    | none =>
      refine find?_eq_none.2 fun s hs => ?_
      rcases List.mem_append.1 hs with hs | hs
      · exact find?_eq_none.1 h s hs
      · rw [List.mem_singleton.1 hs]
        exact hk
    | some s =>
      obtain ⟨hs, hks⟩ := find?_eq_some.1 h
      exact find?_eq_some.2 ⟨List.mem_append_left _ hs, hks⟩

/-! ## Many rows in turn -/

omit [DecidableEq κ] in
theorem mem_foldl_delete {ι : Type} {p : ι → ρ → Prop} [∀ i, DecidablePred (p i)] {is : List ι} {t : Table ρ key}
    {r : ρ} : r ∈ is.foldl (fun t i => t.delete (p i)) t ↔ r ∈ t ∧ ∀ i ∈ is, ¬ p i r := by
  induction is generalizing t with
  | nil => simp
  | cons i is ih => rw [List.foldl_cons, ih, mem_delete, List.forall_mem_cons, and_assoc]

/-- An upsert that puts the row itself, whatever there was. -/
theorem mem_upsert_replace {t : Table ρ key} {r q : ρ} {f : ρ → ρ} {hf : ∀ s, key (f s) = key s}
    (hput : ∀ s, key s = key r → f s = r) : q ∈ t.upsert r f hf ↔ q = r ∨ q ∈ t ∧ key q ≠ key r := by
  rw [mem_upsert]
  constructor
  · rintro (hq | ⟨s, -, hk, rfl⟩ | ⟨rfl, -⟩)
    · exact .inr hq
    · exact .inl (hput s hk)
    · exact .inl rfl
  · rintro (rfl | hq)
    · by_cases hold : ∃ s ∈ t, key s = key q
      · obtain ⟨s, hs, hk⟩ := hold
        exact .inr (.inl ⟨s, hs, hk, (hput s hk).symm⟩)
      · exact .inr (.inr ⟨rfl, fun s hs hk => hold ⟨s, hs, hk⟩⟩)
    · exact .inl hq

theorem mem_foldl_replace {ι : Type} {row : ι → ρ} {f : ι → ρ → ρ} {hf : ∀ i s, key (f i s) = key s}
    (hput : ∀ i s, key s = key (row i) → f i s = row i) {is : List ι} {t : Table ρ key} {q : ρ}
    (hagree : ∀ i ∈ is, ∀ j ∈ is, key (row i) = key (row j) → row i = row j) :
    q ∈ is.foldl (fun t i => t.upsert (row i) (f i) (hf i)) t ↔
      (∃ i ∈ is, q = row i) ∨ q ∈ t ∧ ∀ i ∈ is, key q ≠ key (row i) := by
  induction is generalizing t with
  | nil => simp
  | cons i is ih =>
    have hagree' : ∀ j ∈ is, ∀ k ∈ is, key (row j) = key (row k) → row j = row k :=
      fun j hj k hk => hagree j (List.mem_cons_of_mem _ hj) k (List.mem_cons_of_mem _ hk)
    rw [List.foldl_cons, ih hagree', mem_upsert_replace (hput i)]
    constructor
    · rintro (⟨j, hj, rfl⟩ | ⟨rfl | ⟨hq, hne⟩, hrest⟩)
      · exact .inl ⟨j, List.mem_cons_of_mem _ hj, rfl⟩
      · exact .inl ⟨i, List.mem_cons_self, rfl⟩
      · exact .inr ⟨hq, List.forall_mem_cons.2 ⟨hne, hrest⟩⟩
    · rintro (⟨j, hj, rfl⟩ | ⟨hq, hne⟩)
      · rcases List.mem_cons.1 hj with rfl | hj
        · by_cases hlater : ∃ k ∈ is, key (row k) = key (row j)
          · obtain ⟨k, hk, he⟩ := hlater
            exact .inl ⟨k, hk, (hagree k (List.mem_cons_of_mem _ hk) j List.mem_cons_self he).symm⟩
          · exact .inr ⟨.inl rfl, fun k hk he => hlater ⟨k, hk, he.symm⟩⟩
        · exact .inl ⟨j, hj, rfl⟩
      · obtain ⟨hi, hrest⟩ := List.forall_mem_cons.1 hne
        exact .inr ⟨.inr ⟨hq, hi⟩, hrest⟩

/-! ## Sums over the rows -/

section Sum

variable {M : Type} [AddCommMonoid M]

/-- Replacing the row of a key replaces its summand. -/
theorem sum_replace {l : List ρ} (hnodup : (l.map key).Nodup) {k : κ} {f : ρ → ρ} {w : ρ → M} {a : M}
    (hw : ∀ s, key s = k → w (f s) = a) (hk : ∃ s ∈ l, key s = k) :
    (l.map fun s => w (if key s = k then f s else s)).sum = (l.map fun s => if key s = k then 0 else w s).sum + a := by
  induction l with
  | nil =>
    obtain ⟨s, hs, -⟩ := hk
    cases hs
  | cons s l ih =>
    obtain ⟨hnot, hnodup⟩ := List.nodup_cons.1 hnodup
    rw [List.map_cons, List.map_cons, List.sum_cons, List.sum_cons]
    by_cases he : key s = k
    · -- The key is not in the rest, so nothing changes there.
      have hrest : ∀ s' ∈ l, key s' ≠ k := fun s' hs' he' => hnot (he'.trans he.symm ▸ List.mem_map_of_mem hs')
      have hleft : (l.map fun s => w (if key s = k then f s else s)) = l.map w :=
        List.map_congr_left fun s' hs' => by rw [if_neg (hrest s' hs')]
      have hright : (l.map fun s => if key s = k then 0 else w s) = l.map w :=
        List.map_congr_left fun s' hs' => if_neg (hrest s' hs')
      rw [hleft, hright, if_pos he, if_pos he, hw s he, zero_add, add_comm]
    · rw [if_neg he, if_neg he, ih hnodup, add_assoc]
      obtain ⟨s', hs', he'⟩ := hk
      exact ⟨s', (List.mem_cons.1 hs').resolve_left fun h => he (h ▸ he'), he'⟩

/-- **A sum after `INSERT … ON CONFLICT DO UPDATE`**: the summand of the key is that of the new row. -/
theorem sum_upsert (t : Table ρ key) {r : ρ} {f : ρ → ρ} {hf : ∀ s, key (f s) = key s} {w : ρ → M}
    (hw : ∀ s, key s = key r → w (f s) = w r) :
    ((t.upsert r f hf).rows.map w).sum = (t.rows.map fun s => if key s = key r then 0 else w s).sum + w r := by
  rw [upsert]
  split_ifs with h
  · refine Eq.trans ?_ (sum_replace t.nodup hw h)
    rw [update, List.map_map]
    rfl
  · have hrest : ∀ s ∈ t.rows, key s ≠ key r := fun s hs hk => h ⟨s, hs, hk⟩
    rw [append, List.map_append, List.sum_append, List.map_singleton, List.sum_singleton]
    congr 2
    exact List.map_congr_left fun s hs => (if_neg (hrest s hs)).symm

end Sum

end Insert

end Table
