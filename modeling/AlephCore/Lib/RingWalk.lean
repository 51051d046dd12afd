import Mathlib.Data.Finset.Card
import Mathlib.Data.List.Sort
import Mathlib.Tactic.Common

/-!
# RingWalk — a walk around a ring of 64-bit positions

Positions wrap around, so the clockwise distance from `p` to `a` is the difference `a - p` of words.  Whoever reads
the entries from `p` on in ascending order, and then those before `p`, meets them by increasing distance; the owners
met first are what remains of the walk when every later entry of an owner is dropped.
-/

namespace RingWalk

variable {α : Type}

/-! ## Distances -/

theorem sub_lt_sub_of_le {p a b : UInt64} (hp : p ≤ a) (hab : a < b) : a - p < b - p := by
  have hpb : p ≤ b := UInt64.le_trans hp (UInt64.le_of_lt hab)
  rw [UInt64.lt_iff_toNat_lt, UInt64.toNat_sub_of_le _ _ hp, UInt64.toNat_sub_of_le _ _ hpb]
  rw [UInt64.le_iff_toNat_le] at hp
  rw [UInt64.lt_iff_toNat_lt] at hab
  omega

theorem sub_lt_sub_of_lt {p a b : UInt64} (hb : b < p) (hab : a < b) : a - p < b - p := by
  rw [UInt64.lt_iff_toNat_lt] at *
  rw [UInt64.toNat_sub, UInt64.toNat_sub]
  have hp := p.toNat_lt
  omega

/-- The distance to an entry behind the start is the larger one. -/
theorem sub_lt_sub_of_wrap {p a b : UInt64} (ha : p ≤ a) (hb : b < p) : a - p < b - p := by
  rw [UInt64.lt_iff_toNat_lt] at *
  rw [UInt64.le_iff_toNat_le] at ha
  rw [UInt64.toNat_sub, UInt64.toNat_sub]
  have hp := p.toNat_lt
  have ha' := a.toNat_lt
  omega

/-! ## The walk -/

/-- Entries by position, strictly if no two share theirs. -/
theorem pairwise_sorted {entries : List (UInt64 × α)} (hnodup : (entries.map Prod.fst).Nodup) :
    (entries.insertionSort fun a b => a.1 ≤ b.1).Pairwise fun a b => a.1 < b.1 := by
  let le : UInt64 × α → UInt64 × α → Prop := fun a b => a.1 ≤ b.1
  have htotal : Std.Total le := ⟨fun a b => UInt64.le_total a.1 b.1⟩
  have htrans : IsTrans (UInt64 × α) le := ⟨fun _ _ _ hab hbc => UInt64.le_trans hab hbc⟩
  have hsorted : (entries.insertionSort le).Pairwise le := List.pairwise_insertionSort le entries
  have hperm : (entries.insertionSort le).Perm entries := List.perm_insertionSort le entries
  have hdistinct : (entries.insertionSort le).Pairwise fun a b => a.1 ≠ b.1 :=
    List.pairwise_map.1 ((hperm.map Prod.fst).nodup_iff.2 hnodup)
  exact (hsorted.and hdistinct).imp fun {a b} h => UInt64.lt_of_le_of_ne h.1 h.2

/-- **From `p` on and around**, entries come by increasing distance. -/
theorem pairwise_distance {entries : List (UInt64 × α)} (hsorted : entries.Pairwise fun a b => a.1 < b.1)
    (p : UInt64) :
    ((entries.filter fun e => p ≤ e.1) ++ entries.filter fun e => e.1 < p).Pairwise
      fun a b => a.1 - p < b.1 - p := by
  refine List.pairwise_append.2 ⟨?_, ?_, ?_⟩
  · refine List.Pairwise.imp_of_mem (fun ha _ hab => sub_lt_sub_of_le ?_ hab) (hsorted.filter _)
    exact of_decide_eq_true (List.mem_filter.1 ha).2
  · refine List.Pairwise.imp_of_mem (fun _ hb hab => sub_lt_sub_of_lt ?_ hab) (hsorted.filter _)
    exact of_decide_eq_true (List.mem_filter.1 hb).2
  · intro a ha b hb
    exact sub_lt_sub_of_wrap (of_decide_eq_true (List.mem_filter.1 ha).2) (of_decide_eq_true (List.mem_filter.1 hb).2)

theorem mem_around {entries : List (UInt64 × α)} {p : UInt64} {e : UInt64 × α} :
    e ∈ ((entries.filter fun e => p ≤ e.1) ++ entries.filter fun e => e.1 < p) ↔ e ∈ entries := by
  simp only [List.mem_append, List.mem_filter, decide_eq_true_eq]
  constructor
  · rintro (⟨he, -⟩ | ⟨he, -⟩)
    · exact he
    · exact he
  · intro he
    by_cases hp : p ≤ e.1
    · exact .inl ⟨he, hp⟩
    · exact .inr ⟨he, UInt64.not_le.1 hp⟩

/-- Entries by increasing distance are determined by which they are. -/
theorem eq_of_mem_iff {p : UInt64} {walk walk' : List (UInt64 × α)}
    (hwalk : walk.Pairwise fun a b => a.1 - p < b.1 - p) (hwalk' : walk'.Pairwise fun a b => a.1 - p < b.1 - p)
    (hmem : ∀ e, e ∈ walk ↔ e ∈ walk') : walk = walk' := by
  have hnodup : ∀ {l : List (UInt64 × α)}, (l.Pairwise fun a b => a.1 - p < b.1 - p) → l.Nodup := by
    intro l hl
    refine hl.imp fun {a b} hab heq => ?_
    rw [heq] at hab
    exact UInt64.lt_irrefl _ hab
  refine List.Perm.eq_of_pairwise (fun a b _ _ hab hba => ?_) hwalk hwalk'
    ((List.perm_ext_iff_of_nodup (hnodup hwalk) (hnodup hwalk')).2 hmem)
  exact absurd (UInt64.lt_trans hab hba) (UInt64.lt_irrefl _)

/-! ## One entry more -/

/-- The second list is the first, with `a` at one place or not at all. -/
def Inserted (a : α) (l l' : List α) : Prop := l' = l ∨ ∃ left right, l = left ++ right ∧ l' = left ++ a :: right

theorem Inserted.map {β : Type} {f : α → β} {a : α} {l l' : List α} (h : Inserted a l l') :
    Inserted (f a) (l.map f) (l'.map f) := by
  rcases h with rfl | ⟨left, right, rfl, rfl⟩
  · exact .inl rfl
  · refine .inr ⟨left.map f, right.map f, List.map_append, ?_⟩
    rw [List.map_append, List.map_cons]

/-- **The first entries of a list with one more** are those of the list, with that one put in and the rest cut. -/
theorem Inserted.take {a : α} {l l' : List α} (h : Inserted a l l') (n : Nat) :
    ∃ more, Inserted a (l.take n) more ∧ l'.take n = more.take n := by
  rcases h with rfl | ⟨left, right, rfl, rfl⟩
  · refine ⟨l'.take n, .inl rfl, ?_⟩
    rw [List.take_take, Nat.min_self]
  · rcases Nat.lt_or_ge left.length n with hlt | hge
    · obtain ⟨k, rfl⟩ := Nat.exists_eq_add_of_lt hlt
      have hk : left.length + k + 1 = left.length + (k + 1) := by omega
      refine ⟨left ++ a :: right.take (k + 1), .inr ⟨left, right.take (k + 1), ?_, rfl⟩, ?_⟩
      · rw [hk, List.take_length_add_append]
      · have hmin : min k (k + 1) = k := by omega
        rw [hk, List.take_length_add_append, List.take_length_add_append, List.take_succ_cons, List.take_succ_cons,
          List.take_take, hmin]
    · refine ⟨left.take n, .inl ?_, ?_⟩
      · rw [List.take_append_of_le_length hge]
      · rw [List.take_append_of_le_length hge, List.take_take, Nat.min_self]

/-- **The first entries of a list with one less** are what is left of the first entries, and at most one to follow. -/
theorem Inserted.take_of_filter {a : α} {l l' : List α} {keep : α → Bool} (h : Inserted a l l')
    (ha : keep a = false) (hl : ∀ x ∈ l, keep x = true) (hnodup : l'.Nodup) (n : Nat) :
    ∃ extra : List α, extra.length ≤ 1 ∧ (∀ x ∈ extra, x ∈ l ∧ x ∉ l'.take n) ∧
      l.take n = (l'.take n).filter keep ++ extra := by
  have hkeep : ∀ {part : List α}, part ⊆ l → part.filter keep = part :=
    fun hsub => List.filter_eq_self.2 fun x hx => hl x (hsub hx)
  rcases h with rfl | ⟨left, right, rfl, rfl⟩
  · refine ⟨[], Nat.zero_le 1, fun x hx => absurd hx List.not_mem_nil, ?_⟩
    rw [hkeep (List.take_subset _ _), List.append_nil]
  · rcases Nat.lt_or_ge left.length n with hlt | hge
    · obtain ⟨k, rfl⟩ := Nat.exists_eq_add_of_lt hlt
      have hk : left.length + k + 1 = left.length + (k + 1) := by omega
      have hleft : left.filter keep = left := hkeep (List.subset_append_left _ _)
      have hright : (right.take k).filter keep = right.take k :=
        hkeep fun x hx => List.mem_append_right _ (List.take_subset _ _ hx)
      have hcut : (left ++ a :: right).take (left.length + k + 1) = left ++ a :: right.take k := by
        rw [hk, List.take_length_add_append, List.take_succ_cons]
      refine ⟨(right.drop k).take 1, List.length_take_le _ _, fun x hx => ?_, ?_⟩
      · have hx' : x ∈ right.drop k := List.take_subset _ _ hx
        refine ⟨List.mem_append_right _ (List.drop_subset _ _ hx'), fun hmem => ?_⟩
        rw [hcut] at hmem
        have hsplit : left ++ a :: right = (left ++ a :: right.take k) ++ right.drop k := by
          rw [List.append_assoc, List.cons_append, List.take_append_drop]
        rw [hsplit] at hnodup
        exact (List.nodup_append.1 hnodup).2.2 x hmem x hx' rfl
      · rw [hcut, List.filter_append, hleft, List.filter_cons_of_neg (by rw [ha]; exact Bool.false_ne_true), hright, hk,
          List.take_length_add_append, List.append_assoc, ← List.take_add]
    · refine ⟨[], Nat.zero_le 1, fun x hx => absurd hx List.not_mem_nil, ?_⟩
      rw [List.take_append_of_le_length hge, List.take_append_of_le_length hge, List.append_nil]
      exact (hkeep fun x hx => List.mem_append_left _ (List.take_subset _ _ hx)).symm

/-! ## First occurrences -/

variable [DecidableEq α]

theorem nodup_eraseDups (l : List α) : l.eraseDups.Nodup := by
  induction hn : l.length using Nat.strong_induction_on generalizing l with
  | _ n ih =>
    cases l with
    | nil => exact List.nodup_nil
    | cons a l =>
      rw [List.eraseDups_cons]
      have hshorter : (l.filter fun b => !b == a).length < n := by
        have hle := List.length_filter_le (fun b => !b == a) l
        rw [List.length_cons] at hn
        omega
      refine List.nodup_cons.2 ⟨fun ha => ?_, ih _ hshorter _ rfl⟩
      have hne := (List.mem_filter.1 (List.mem_eraseDups.1 ha)).2
      simp at hne

theorem card_of_mem_eraseDups {l : List α} {s : Finset α} (h : ∀ a, a ∈ l ↔ a ∈ s) : l.eraseDups.length = s.card := by
  have hset : l.eraseDups.toFinset = s := by
    ext a
    rw [List.mem_toFinset, List.mem_eraseDups, h]
  rw [← List.toFinset_card_of_nodup (nodup_eraseDups l), hset]

/-- Without `a`, the first occurrences are those of the list without it. -/
theorem eraseDups_filter_ne (a : α) (l : List α) :
    (l.filter fun x => x ≠ a).eraseDups = l.eraseDups.filter fun x => x ≠ a := by
  induction hn : l.length using Nat.strong_induction_on generalizing l with
  | _ n ih =>
    cases l with
    | nil => rfl
    | cons b l =>
      have hne : ∀ b : α, (l.filter fun x => !x == b) = l.filter fun x => x ≠ b := by
        intro b
        refine List.filter_congr fun x _ => ?_
        by_cases hx : x = b <;> simp [hx]
      have hshorter : (l.filter fun x => x ≠ b).length < n := by
        have hle := List.length_filter_le (fun x => decide (x ≠ b)) l
        rw [List.length_cons] at hn
        omega
      rw [List.eraseDups_cons, hne]
      by_cases hb : b = a
      · subst hb
        have hall : ∀ x ∈ (l.filter fun x => x ≠ b).eraseDups, decide (x ≠ b) = true :=
          fun x hx => (List.mem_filter.1 (List.mem_eraseDups.1 hx)).2
        rw [List.filter_cons_of_neg (by simp), List.filter_cons_of_neg (by simp), List.filter_eq_self.2 hall]
      · have hswap : ((l.filter fun x => x ≠ a).filter fun x => !x == b) =
            (l.filter fun x => x ≠ b).filter fun x => x ≠ a := by
          rw [List.filter_filter, List.filter_filter]
          refine List.filter_congr fun x _ => ?_
          by_cases hx : x = b <;> simp [hx]
        rw [List.filter_cons_of_pos (by simpa using hb), List.filter_cons_of_pos (by simpa using hb),
          List.eraseDups_cons, hswap, ih _ hshorter _ rfl]

/-- A list without repetitions is what remains of it without `a`, with `a` put in at most once. -/
theorem inserted_of_nodup {a : α} {l : List α} (hnodup : l.Nodup) : Inserted a (l.filter fun x => x ≠ a) l := by
  by_cases ha : a ∈ l
  · obtain ⟨left, right, rfl⟩ := List.append_of_mem ha
    obtain ⟨-, hcons, hdisjoint⟩ := List.nodup_append.1 hnodup
    have hleft : (left.filter fun x => x ≠ a) = left :=
      List.filter_eq_self.2 fun x hx => decide_eq_true (hdisjoint x hx a List.mem_cons_self)
    have hright : (right.filter fun x => x ≠ a) = right := by
      refine List.filter_eq_self.2 fun x hx => decide_eq_true ?_
      rintro rfl
      exact (List.nodup_cons.1 hcons).1 hx
    refine .inr ⟨left, right, ?_, rfl⟩
    rw [List.filter_append, hleft, List.filter_cons_of_neg (by simp), hright]
  · refine .inl (List.filter_eq_self.2 fun x hx => decide_eq_true ?_).symm
    rintro rfl
    exact ha hx

end RingWalk
