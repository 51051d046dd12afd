import Mathlib.Data.List.Nodup

/-!
# LruCache — a bounded set that forgets what was used longest ago

The keys of an LRU cache without values, most recently used first.  Looking a key up makes it the most
recent one; putting a new key into a full cache drops the least recent one.
-/

structure LruCache (κ : Type) where
  capacity : Nat
  keys : List κ
  capacity_pos : 0 < capacity
  nodup : keys.Nodup
  length_le : keys.length ≤ capacity

namespace LruCache

variable {κ : Type}

instance : Membership κ (LruCache κ) := ⟨fun c k => k ∈ c.keys⟩

theorem mem_def {c : LruCache κ} {k : κ} : k ∈ c ↔ k ∈ c.keys := Iff.rfl

variable [DecidableEq κ]

instance (k : κ) (c : LruCache κ) : Decidable (k ∈ c) := inferInstanceAs (Decidable (k ∈ c.keys))

/-- A cache without keys. -/
def empty (capacity : Nat) (h : 0 < capacity) : LruCache κ := ⟨capacity, [], h, List.nodup_nil, Nat.zero_le _⟩

/-- Look a key up: if it is there it is the most recent one now. -/
def get (c : LruCache κ) (k : κ) : LruCache κ :=
  if h : k ∈ c then
    { c with
      keys := k :: c.keys.erase k
      nodup := List.nodup_cons.2 ⟨c.nodup.not_mem_erase, c.nodup.erase k⟩
      length_le := by
        rw [List.length_cons, List.length_erase_of_mem (mem_def.1 h),
          Nat.sub_add_cancel (List.length_pos_of_mem (mem_def.1 h))]
        exact c.length_le }
  else c

/-- Put a key in, at the place of the least recent one if the cache is full. -/
def put (c : LruCache κ) (k : κ) : LruCache κ :=
  { c with
    keys := k :: (c.keys.erase k).take (c.capacity - 1)
    nodup := List.nodup_cons.2
      ⟨fun h => c.nodup.not_mem_erase (List.mem_of_mem_take h), (c.nodup.erase k).sublist (List.take_sublist _ _)⟩
    length_le := by
      have hpos := c.capacity_pos
      have htake := List.length_take_le (c.capacity - 1) (c.keys.erase k)
      rw [List.length_cons]
      omega }

theorem mem_get {c : LruCache κ} {k x : κ} : x ∈ c.get k ↔ x ∈ c := by
  unfold get
  split_ifs with h
  · rw [mem_def, List.mem_cons, mem_def, List.Nodup.mem_erase_iff c.nodup]
    by_cases hx : x = k
    · subst hx
      exact iff_of_true (.inl rfl) h
    · simp [hx]
  · rfl

theorem mem_put_self (c : LruCache κ) (k : κ) : k ∈ c.put k := List.mem_cons_self

/-- Nothing but the new key is added. -/
theorem mem_of_mem_put {c : LruCache κ} {k x : κ} (h : x ∈ c.put k) : x = k ∨ x ∈ c := by
  rcases List.mem_cons.1 h with h | h
  · exact .inl h
  · exact .inr (List.mem_of_mem_erase (List.mem_of_mem_take h))

end LruCache
