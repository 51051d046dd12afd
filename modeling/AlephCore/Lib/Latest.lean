import Mathlib.Data.Set.Insert
import Mathlib.Order.Basic

/-!
# Latest — the newest of a set of entries

An entry of a set is the latest if no entry of the set has a greater time.  How that changes when an entry is
added and when entries are taken away.
-/

/-- No entry of the set has a greater time. -/
def IsLatest {α τ : Type} [LE τ] (time : α → τ) (s : Set α) (a : α) : Prop :=
  a ∈ s ∧ ∀ b ∈ s, time b ≤ time a

namespace IsLatest

variable {α τ : Type} [Preorder τ] {time : α → τ} {s t : Set α} {a b : α}

/-- The latest entry stays the latest while it is not taken away itself. -/
theorem subset (h : IsLatest time s a) (hst : t ⊆ s) (ha : a ∈ t) : IsLatest time t a :=
  ⟨ha, fun b hb => h.2 b (hst hb)⟩

/-- An entry that is added is the latest if nothing is newer. -/
theorem insert_self_iff : IsLatest time (insert a s) a ↔ ∀ b ∈ s, time b ≤ time a := by
  constructor
  · exact fun h b hb => h.2 b (Set.mem_insert_of_mem a hb)
  · intro h
    refine ⟨Set.mem_insert a s, fun b hb => ?_⟩
    rcases hb with rfl | hb
    · exact le_rfl
    · exact h b hb

/-- An older entry changes nothing. -/
theorem insert_of_le (h : IsLatest time s a) (hle : time b ≤ time a) : IsLatest time (insert b s) a := by
  refine ⟨Set.mem_insert_of_mem b h.1, fun c hc => ?_⟩
  rcases hc with rfl | hc
  · exact hle
  · exact h.2 c hc

/-- A newer entry takes over from the latest. -/
theorem insert_of_ge (h : IsLatest time s a) (hle : time a ≤ time b) : IsLatest time (insert b s) b :=
  insert_self_iff.2 fun c hc => (h.2 c hc).trans hle

theorem singleton (a : α) : IsLatest time {a} a :=
  ⟨rfl, fun b hb => by rw [Set.mem_singleton_iff.1 hb]⟩

/-- The head of a list sorted by time, newest first. -/
theorem of_head? {l : List α} (hl : l.Pairwise fun a b => time b ≤ time a) (ha : l.head? = some a) :
    IsLatest time {b | b ∈ l} a := by
  obtain ⟨l', rfl⟩ := List.head?_eq_some_iff.1 ha
  refine ⟨List.mem_cons_self, fun b hb => ?_⟩
  rcases List.mem_cons.1 hb with rfl | hb
  · exact le_rfl
  · exact (List.pairwise_cons.1 hl).1 b hb

end IsLatest
