import Mathlib.Data.List.Basic

/-!
# Broadcast — a bounded broadcast channel and a receiver of it

The channel keeps the last `capacity` messages.  A receiver reads them one after another; if it falls behind it is
told how many it has missed, and goes on with the oldest one that is kept.  Its log says what has become of each
message since it was there: `none` of a missed one, and else what the receiver did with it.
-/

namespace Broadcast

variable {α β : Type} {capacity : Nat} {sent : List α} {start next : Nat} {log : List (Option β)} {held : Option α}

/-- What a receiver is handed. -/
inductive Recv (α : Type) where
  | message (a : α)
  | lagged (missed : Nat)

/-- What a receiver that has read up to `next` is handed, and how far it has read then; none while it waits. -/
def recv (capacity : Nat) (sent : List α) (next : Nat) : Option (Recv α × Nat) :=
  if next + capacity < sent.length then some (.lagged (sent.length - capacity - next), sent.length - capacity)
  else sent[next]?.map fun a => (.message a, next + 1)

theorem recv_message {a : α} {next' : Nat} (h : recv capacity sent next = some (.message a, next')) :
    sent[next]? = some a ∧ next' = next + 1 := by
  unfold recv at h
  split_ifs at h with hbehind
  · cases h
  · obtain ⟨b, hb, he⟩ := Option.map_eq_some_iff.1 h
    obtain ⟨he, rfl⟩ := Prod.mk.inj he
    cases he
    exact ⟨hb, rfl⟩

theorem recv_lagged {missed next' : Nat} (h : recv capacity sent next = some (.lagged missed, next')) :
    next + capacity < sent.length ∧ next' = next + missed ∧ next' + capacity = sent.length := by
  unfold recv at h
  split_ifs at h with hbehind
  · obtain ⟨he, rfl⟩ := Prod.mk.inj (Option.some.inj h)
    cases he
    omega
  · obtain ⟨b, -, he⟩ := Option.map_eq_some_iff.1 h
    cases he

/-! ## The log of a receiver -/

/-- The receiver that started at `start` has settled what its log covers, and holds at most one more message. -/
structure Follows (capacity : Nat) (sent : List α) (start : Nat) (log : List (Option β)) (held : Option α)
    (next : Nat) : Prop where
  position : next = start + log.length + held.toList.length
  known : next ≤ sent.length
  holds : ∀ a, held = some a → sent[start + log.length]? = some a
  missed : ∀ i, log[i]? = some none → start + i + capacity < sent.length

namespace Follows

/-- A receiver that has just subscribed. -/
theorem subscribe (capacity : Nat) (sent : List α) :
    Follows (β := β) capacity sent sent.length [] none sent.length where
  position := rfl
  known := Nat.le_refl _
  holds _ ha := by cases ha
  missed _ hi := by cases hi

/-- Another message is sent. -/
theorem send (h : Follows capacity sent start log held next) (a : α) :
    Follows capacity (sent ++ [a]) start log held next where
  position := h.position
  known := by
    rw [List.length_append]
    exact Nat.le_add_right_of_le h.known
  holds b hb := by
    have hfound := h.holds b hb
    rw [List.getElem?_append_left (List.getElem?_eq_some_iff.1 hfound).1]
    exact hfound
  missed i hi := by
    rw [List.length_append]
    exact Nat.lt_add_right _ (h.missed i hi)

/-- A message is received. -/
theorem receive (h : Follows capacity sent start log none next) {a : α} {next' : Nat}
    (hrecv : recv capacity sent next = some (.message a, next')) :
    Follows capacity sent start log (some a) next' := by
  obtain ⟨hfound, rfl⟩ := recv_message hrecv
  have hposition : next = start + log.length := h.position
  exact {
    position := by
      rw [hposition]
      rfl
    known := (List.getElem?_eq_some_iff.1 hfound).1
    holds := by
      rintro b ⟨⟩
      rwa [← hposition]
    missed := h.missed }

/-- Messages are missed. -/
theorem lag (h : Follows capacity sent start log none next) {missed next' : Nat}
    (hrecv : recv capacity sent next = some (.lagged missed, next')) :
    Follows capacity sent start (log ++ List.replicate missed none) none next' := by
  obtain ⟨hbehind, hnext, hend⟩ := recv_lagged hrecv
  have hposition : next = start + log.length := h.position
  exact {
    position := by
      rw [List.length_append, List.length_replicate, hnext, hposition]
      exact Nat.add_assoc _ _ _
    known := by omega
    holds := by
      rintro _ ⟨⟩
    missed := by
      intro i hi
      obtain ⟨hlt, -⟩ := List.getElem?_eq_some_iff.1 hi
      rw [List.length_append, List.length_replicate] at hlt
      omega }

/-- The held message is settled. -/
theorem settle {a : α} (h : Follows capacity sent start log (some a) next) (b : β) :
    Follows capacity sent start (log ++ [some b]) none next where
  position := by
    rw [List.length_append]
    exact h.position
  known := h.known
  holds _ ha := by cases ha
  missed i hi := by
    rcases Nat.lt_trichotomy i log.length with hlt | rfl | hgt
    · rw [List.getElem?_append_left hlt] at hi
      exact h.missed i hi
    · rw [List.getElem?_concat_length] at hi
      cases hi
    · rw [List.getElem?_eq_none (by rw [List.length_append]; exact hgt)] at hi
      cases hi

/-- The log does not go beyond what was sent. -/
theorem length_le (h : Follows capacity sent start log held next) : start + log.length ≤ sent.length := by
  have hposition := h.position
  have hknown := h.known
  omega

end Follows

/-! ## What was done with the messages -/

/-- The messages whose entry in the log meets `p`. -/
def picked (p : β → Bool) : List α → List (Option β) → List α
  | a :: as, some b :: log => if p b then a :: picked p as log else picked p as log
  | _ :: as, none :: log => picked p as log
  | _, _ => []

variable {p : β → Bool} {as : List α}

/-- What is sent later is not picked yet. -/
theorem picked_send (h : log.length ≤ as.length) (a : α) : picked p (as ++ [a]) log = picked p as log := by
  induction log generalizing as with
  | nil => cases as <;> rfl
  | cons o log ih =>
    cases as with
    | nil => exact absurd h (by simp)
    | cons b as =>
      have hrest : picked p (as ++ [a]) log = picked p as log := ih (Nat.le_of_succ_le_succ h)
      cases o with
      | none => exact hrest
      | some c =>
        rw [List.cons_append, picked, picked, hrest]

theorem picked_missed (n : Nat) : picked p as (log ++ List.replicate n none) = picked p as log := by
  induction log generalizing as with
  | nil =>
    induction n generalizing as with
    | zero => rfl
    | succ n ih =>
      cases as with
      | nil => rfl
      | cons a as =>
        have hrest : picked p as (List.replicate n (none : Option β)) = picked p as [] := ih
        rw [List.nil_append, List.replicate_succ, picked, hrest]
        cases as <;> rfl
  | cons o log ih =>
    cases as with
    | nil => rfl
    | cons a as =>
      cases o with
      | none => exact ih
      | some c => rw [List.cons_append, picked, picked, ih]

/-- One more entry. -/
theorem picked_settle {a : α} (h : as[log.length]? = some a) (b : β) :
    picked p as (log ++ [some b]) = picked p as log ++ if p b then [a] else [] := by
  induction log generalizing as with
  | nil =>
    cases as with
    | nil => cases h
    | cons c as =>
      obtain rfl : c = a := Option.some.inj h
      rw [List.nil_append, picked]
      cases as <;> rfl
  | cons o log ih =>
    cases as with
    | nil => cases h
    | cons c as =>
      have hrest : picked p as (log ++ [some b]) = picked p as log ++ if p b then [a] else [] := ih h
      cases o with
      | none => exact hrest
      | some d =>
        rw [List.cons_append, picked, picked, hrest]
        split_ifs <;> rfl

/-- If nothing was missed and `q` decides what is picked, that is what `q` filters. -/
theorem picked_eq_filter {q : α → Bool} (hlength : log.length = as.length)
    (h : ∀ (i : Nat) o a, log[i]? = some o → as[i]? = some a → ∃ b, o = some b ∧ p b = q a) :
    picked p as log = as.filter q := by
  induction log generalizing as with
  | nil =>
    obtain rfl := List.length_eq_zero_iff.1 hlength.symm
    rfl
  | cons o log ih =>
    cases as with
    | nil => cases hlength
    | cons a as =>
      obtain ⟨b, rfl, hb⟩ := h 0 o a rfl rfl
      have hrest := ih (Nat.succ.inj hlength) fun i => h (i + 1)
      rw [picked, hrest, hb, List.filter_cons]

/-- What is picked was sent, in this order. -/
theorem picked_sublist : (picked p as log).Sublist as := by
  induction log generalizing as with
  | nil => cases as <;> exact List.nil_sublist _
  | cons o log ih =>
    cases as with
    | nil => exact List.nil_sublist _
    | cons a as =>
      cases o with
      | none => exact ih.cons a
      | some b =>
        rw [picked]
        split_ifs
        · exact ih.cons_cons a
        · exact ih.cons a

end Broadcast
