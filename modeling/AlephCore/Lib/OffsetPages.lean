import Mathlib.Data.List.Sort
import Mathlib.Data.List.Nodup
import Mathlib.Data.List.Perm.Subperm
import Mathlib.Tactic.Common

/-!
# OffsetPages — a sorted answer, read by offset and size

A query sorts its rows by an order that may leave some of them tied; the database answers each request in any way
that is sorted.  Whether the pages of successive requests give every row once depends on the ties at their ends.
-/

namespace OffsetPages

variable {ρ κ : Type}

/-- A query: its rows, the order they are sorted by, and the keys that are to be listed. -/
structure Listing (ρ κ : Type) where
  rows : List ρ
  le : ρ → ρ → Prop
  key : ρ → κ
  targets : List κ
  le_total : ∀ a b, le a b ∨ le b a
  le_trans : ∀ a b c, le a b → le b c → le a c
  nodup : targets.Nodup
  mem_targets : ∀ k, k ∈ targets ↔ ∃ r ∈ rows, key r = k

/-- The rows behind an offset, up to a size. -/
def page (offset size : ℕ) (l : List ρ) : List ρ := (l.drop offset).take size

namespace Listing

variable (L : Listing ρ κ)

/-- The rows in an order that the query admits. -/
structure Answers (l : List ρ) : Prop where
  perm : l.Perm L.rows
  sorted : l.Pairwise L.le

/-- `ceil(total / size)`. -/
def pageCount (size : ℕ) : ℕ := (L.targets.length + size - 1) / size

/-- **The pages together give every key once**, whichever way each request is answered. -/
def Enumerates (offset : ℕ → ℕ) (size : ℕ) : Prop :=
  ∀ l : ℕ → List ρ, (∀ i, L.Answers (l i)) →
    ((List.range (L.pageCount size)).flatMap fun i => (page (offset i) size (l i)).map L.key).Perm L.targets

/-- No key occurs twice among the rows of the pages. -/
def Distinct (size : ℕ) : Prop :=
  ∀ l, L.Answers l → ((l.take (L.pageCount size * size)).map L.key).Nodup

/-- No page ends between two rows that are tied. -/
def Untied (size : ℕ) : Prop :=
  ∀ l, L.Answers l → ∀ k, 0 < k → k < L.pageCount size →
    ∀ a b, l[k * size - 1]? = some a → l[k * size]? = some b → ¬ L.le b a

/-- A query whose rows are listed under keys of their own. -/
def keyed {rows : List ρ} {key : ρ → κ} (le : ρ → ρ → Prop) (le_total : ∀ a b, le a b ∨ le b a)
    (le_trans : ∀ a b c, le a b → le b c → le a c) (nodup : (rows.map key).Nodup) : Listing ρ κ where
  rows := rows
  le := le
  key := key
  targets := rows.map key
  le_total := le_total
  le_trans := le_trans
  nodup := nodup
  mem_targets _ := List.mem_map

end Listing

/-! ## Pages of one answer -/

section Page

variable {l : List ρ} {a : ρ} {j offset size : ℕ}

theorem mem_page (h : l[j]? = some a) (hle : offset ≤ j) (hlt : j < offset + size) : a ∈ page offset size l := by
  have hget : (page offset size l)[j - offset]? = some a := by
    rw [page, List.getElem?_take_of_lt (by omega), List.getElem?_drop, show offset + (j - offset) = j by omega, h]
  exact List.mem_of_getElem? hget

theorem mem_of_mem_page (h : a ∈ page offset size l) : a ∈ l := List.mem_of_mem_drop (List.mem_of_mem_take h)

theorem take_append_page (m : ℕ) : l.take (m * size) ++ page (m * size) size l = l.take ((m + 1) * size) := by
  rw [page, Nat.add_mul, Nat.one_mul, List.take_add]

theorem flatMap_page (m : ℕ) : (List.range m).flatMap (fun i => page (i * size) size l) = l.take (m * size) := by
  induction m with
  | zero => rw [Nat.zero_mul, List.take_zero, List.range_zero, List.flatMap_nil]
  | succ m ih => rw [List.range_succ, List.flatMap_append, ih, List.flatMap_singleton, take_append_page]

end Page

/-! ## The number of pages -/

section Count

variable {L : Listing ρ κ} {size k : ℕ}

theorem lt_pageCount_iff (hsize : 0 < size) : k < L.pageCount size ↔ k * size < L.targets.length := by
  rw [Listing.pageCount, ← Nat.succ_le_iff, Nat.le_div_iff_mul_le hsize, Nat.succ_mul]
  omega

theorem le_pageCount_mul (hsize : 0 < size) : L.targets.length ≤ L.pageCount size * size := by
  by_contra hlt
  exact absurd ((lt_pageCount_iff hsize).2 (not_le.1 hlt)) (lt_irrefl _)

end Count

/-! ## Two answers -/

section Answers

variable {L : Listing ρ κ} {l l' l₁ l₂ : List ρ} {a b : ρ} {j : ℕ}

theorem le_refl (L : Listing ρ κ) (a : ρ) : L.le a a := (L.le_total a a).elim id id

theorem Listing.Answers.targets_le (h : L.Answers l) : L.targets.length ≤ l.length := by
  have hsub : L.targets ⊆ l.map L.key := by
    intro k hk
    obtain ⟨r, hr, rfl⟩ := (L.mem_targets k).1 hk
    exact List.mem_map_of_mem (h.perm.mem_iff.2 hr)
  have hle := (L.nodup.subperm hsub).length_le
  rwa [List.length_map] at hle

open Classical in
/-- There is an answer. -/
theorem Listing.exists_answers (L : Listing ρ κ) : ∃ l, L.Answers l := by
  have htotal : Std.Total L.le := ⟨L.le_total⟩
  have htrans : IsTrans ρ L.le := ⟨L.le_trans⟩
  exact ⟨L.rows.insertionSort L.le, List.perm_insertionSort _ _, List.pairwise_insertionSort _ _⟩

/-- Tied neighbours can change places. -/
theorem Listing.Answers.swap (h : L.Answers (l₁ ++ a :: b :: l₂)) (hba : L.le b a) :
    L.Answers (l₁ ++ b :: a :: l₂) := by
  refine ⟨(List.Perm.append_left l₁ (List.Perm.swap a b l₂)).trans h.perm, ?_⟩
  obtain ⟨hleft, hright, hcross⟩ := List.pairwise_append.1 h.sorted
  obtain ⟨ha, hright⟩ := List.pairwise_cons.1 hright
  obtain ⟨hb, hrest⟩ := List.pairwise_cons.1 hright
  refine List.pairwise_append.2 ⟨hleft, List.pairwise_cons.2 ⟨?_, List.pairwise_cons.2 ⟨?_, hrest⟩⟩, ?_⟩
  · exact List.forall_mem_cons.2 ⟨hba, hb⟩
  · exact fun x hx => ha x (List.mem_cons_of_mem b hx)
  · intro x hx y hy
    refine hcross x hx y ?_
    simp only [List.mem_cons] at hy ⊢
    tauto

/-- In a sorted list, what is closed downwards comes first. -/
theorem take_countP {p : ρ → Bool} (hl : l.Pairwise L.le) (hp : ∀ x y, L.le x y → p y = true → p x = true) :
    l.take (l.countP p) = l.filter p := by
  induction l with
  | nil => rfl
  | cons x l ih =>
    obtain ⟨hx, hl⟩ := List.pairwise_cons.1 hl
    by_cases hpx : p x = true
    · rw [List.countP_cons_of_pos hpx, List.take_succ_cons, List.filter_cons_of_pos hpx, ih hl]
    · have hnone : ∀ y ∈ l, ¬ p y = true := fun y hy hpy => hpx (hp x y (hx y hy) hpy)
      rw [List.countP_cons_of_neg hpx, List.countP_eq_zero.2 hnone, List.take_zero, List.filter_cons_of_neg hpx,
        List.filter_eq_nil_iff.2 hnone]

open Classical in
/-- **Up to a place that is no tie, all answers have the same rows.** -/
theorem Listing.Answers.take_perm (h : L.Answers l) (h' : L.Answers l') (hj : 0 < j) (ha : l[j - 1]? = some a)
    (hb : l[j]? = some b) (hab : ¬ L.le b a) : (l.take j).Perm (l'.take j) := by
  have hclosed : ∀ x y, L.le x y → decide (L.le y a) = true → decide (L.le x a) = true := by
    intro x y hxy hy
    rw [decide_eq_true_eq] at hy ⊢
    exact L.le_trans x y a hxy hy
  obtain ⟨hlt, hget⟩ := List.getElem?_eq_some_iff.1 hb
  obtain ⟨hlt', hget'⟩ := List.getElem?_eq_some_iff.1 ha
  have hpairwise := List.pairwise_iff_getElem.1 h.sorted
  have hcount : l.countP (fun x => decide (L.le x a)) = j := by
    have hfirst : (l.take j).countP (fun x => decide (L.le x a)) = (l.take j).length := by
      refine List.countP_eq_length.2 fun x hx => decide_eq_true ?_
      obtain ⟨i, hi, rfl⟩ := List.mem_take_iff_getElem.1 hx
      rcases Nat.lt_or_ge i (j - 1) with hlt'' | hge
      · rw [← hget']
        exact hpairwise i (j - 1) _ hlt' hlt''
      · obtain rfl : i = j - 1 := by omega
        rw [hget']
        exact le_refl L a
    have hrest : (l.drop j).countP (fun x => decide (L.le x a)) = 0 := by
      refine List.countP_eq_zero.2 fun x hx hxa => hab ?_
      rw [decide_eq_true_eq] at hxa
      rw [List.drop_eq_getElem_cons hlt, hget] at hx
      rcases List.mem_cons.1 hx with rfl | hx
      · exact hxa
      · obtain ⟨i, hi, rfl⟩ := List.mem_drop_iff_getElem.1 hx
        refine L.le_trans b _ a ?_ hxa
        rw [← hget]
        exact hpairwise j (j + 1 + i) hlt (by omega) (by omega)
    rw [← List.take_append_drop j l, List.countP_append, hfirst, hrest, List.length_take]
    omega
  have hcount' : l'.countP (fun x => decide (L.le x a)) = j := by
    rw [(h'.perm.trans h.perm.symm).countP_eq, hcount]
  have hfilter : l.take j = l.filter fun x => decide (L.le x a) := by
    conv_lhs => rw [← hcount]
    exact take_countP h.sorted hclosed
  have hfilter' : l'.take j = l'.filter fun x => decide (L.le x a) := by
    conv_lhs => rw [← hcount']
    exact take_countP h'.sorted hclosed
  rw [hfilter, hfilter']
  exact (h.perm.trans h'.perm.symm).filter _

end Answers

/-! ## When the pages enumerate -/

section Enumerates

variable {L : Listing ρ κ} {offset : ℕ → ℕ} {size bound i j : ℕ} {l : ℕ → List ρ} {a : ρ}

/-- No row is on two pages. -/
theorem Listing.Enumerates.once (h : L.Enumerates offset size) (hl : ∀ i, L.Answers (l i)) (hij : i < j)
    (hj : j < L.pageCount size) (hi : a ∈ page (offset i) size (l i)) : a ∉ page (offset j) size (l j) := by
  intro ha
  have hnodup := (h l hl).nodup_iff.2 L.nodup
  have hpairwise := List.pairwise_iff_getElem.1 (List.nodup_flatMap.1 hnodup).2
  have hdisjoint := hpairwise i j (by rw [List.length_range]; omega) (by rw [List.length_range]; exact hj) hij
  simp only [List.getElem_range] at hdisjoint
  exact hdisjoint (List.mem_map_of_mem hi) (List.mem_map_of_mem ha)

/-- The offset of the last page has not wrapped around. -/
theorem Listing.Enumerates.offset_lt (h : L.Enumerates (fun i => i * size % bound) size) (hsize : 0 < size)
    (hbound : size ≤ bound) : (L.pageCount size - 1) * size < bound := by
  by_contra hwrap
  -- the first page whose offset wraps around begins on the first page
  obtain ⟨i, hi, hlow, hhigh⟩ : ∃ i, i < L.pageCount size ∧ bound ≤ i * size ∧ i * size < bound + size := by
    refine ⟨(bound + size - 1) / size, ?_, ?_, ?_⟩
    · have hle : (bound + size - 1) / size * size ≤ bound + size - 1 := Nat.div_mul_le_self _ _
      have hlast : (bound + size - 1) / size ≤ L.pageCount size - 1 := by
        rw [← Nat.lt_succ_iff, Nat.div_lt_iff_lt_mul hsize, Nat.succ_mul]
        omega
      have hpos : 0 < L.pageCount size := by
        by_contra hnone
        rw [Nat.eq_zero_of_not_pos hnone, Nat.zero_sub, Nat.zero_mul] at hwrap
        omega
      omega
    · have hmod := Nat.mod_lt (bound + size - 1) hsize
      have hdiv := Nat.div_add_mod' (bound + size - 1) size
      omega
    · have hle : (bound + size - 1) / size * size ≤ bound + size - 1 := Nat.div_mul_le_self _ _
      omega
  obtain ⟨l, hl⟩ := L.exists_answers
  have htotal : i * size < l.length := ((lt_pageCount_iff hsize).1 hi).trans_le hl.targets_le
  have hoffset : i * size % bound = i * size - bound := by
    rw [Nat.mod_eq_sub_mod hlow, Nat.mod_eq_of_lt (by omega)]
  have hrow : l[i * size - bound]? = some l[i * size - bound] := List.getElem?_eq_getElem (by omega)
  have hpos : 0 < i := by
    by_contra hzero
    rw [Nat.eq_zero_of_not_pos hzero, Nat.zero_mul] at hlow
    omega
  have hfirst : l[i * size - bound] ∈ page (0 * size % bound) size l := by
    rw [Nat.zero_mul, Nat.zero_mod]
    exact mem_page hrow (Nat.zero_le _) (by omega)
  have hwrapped : l[i * size - bound] ∈ page (i * size % bound) size l := by
    rw [hoffset]
    exact mem_page hrow le_rfl (by omega)
  exact h.once (l := fun _ => l) (fun _ => hl) hpos hi hfirst hwrapped

/-- Without ties at their ends, the pages before the last one have the first rows of any answer. -/
theorem pages_perm (huntied : L.Untied size) (hsize : 0 < size) (hl : ∀ i, L.Answers (l i)) {m : ℕ}
    (hm : m < L.pageCount size) {l' : List ρ} (hl' : L.Answers l') :
    ((List.range m).flatMap fun i => page (i * size) size (l i)).Perm (l'.take (m * size)) := by
  induction m generalizing l' with
  | zero =>
    rw [Nat.zero_mul, List.take_zero, List.range_zero, List.flatMap_nil]
  | succ m ih =>
    have hrows : (m + 1) * size < (l m).length := ((lt_pageCount_iff hsize).1 hm).trans_le (hl m).targets_le
    have hpos : 0 < (m + 1) * size := Nat.mul_pos m.succ_pos hsize
    have hlast : (l m)[(m + 1) * size - 1]? = some (l m)[(m + 1) * size - 1] := List.getElem?_eq_getElem (by omega)
    have hnext : (l m)[(m + 1) * size]? = some (l m)[(m + 1) * size] := List.getElem?_eq_getElem hrows
    have htie := huntied (l m) (hl m) (m + 1) m.succ_pos hm _ _ hlast hnext
    have hpages : ((List.range (m + 1)).flatMap fun i => page (i * size) size (l i)).Perm
        ((l m).take (m * size) ++ page (m * size) size (l m)) := by
      rw [List.range_succ, List.flatMap_append, List.flatMap_singleton]
      exact (ih (by omega) (hl m)).append_right _
    rw [take_append_page] at hpages
    exact hpages.trans ((hl m).take_perm hl' hpos hlast hnext htie)

/-- **The pages enumerate exactly if** no offset wraps around, no key comes twice and no page ends in a tie. -/
theorem Listing.once_iff (hsize : 0 < size) (hbound : size ≤ bound) :
    L.Enumerates (fun i => i * size % bound) size ↔
      (L.pageCount size - 1) * size < bound ∧ L.Distinct size ∧ L.Untied size := by
  have hexact : (L.pageCount size - 1) * size < bound → ∀ i < L.pageCount size, i * size % bound = i * size := by
    intro hlt i hi
    have hle : i * size ≤ (L.pageCount size - 1) * size := Nat.mul_le_mul_right size (by omega)
    exact Nat.mod_eq_of_lt (hle.trans_lt hlt)
  constructor
  · intro h
    have hlt := h.offset_lt hsize hbound
    have hoffset := hexact hlt
    refine ⟨hlt, fun l hl => ?_, fun l hl k hk hkN a b ha hb hba => ?_⟩
    · have hperm := h (fun _ => l) fun _ => hl
      have hpages : (List.range (L.pageCount size)).flatMap (fun i => (page (i * size % bound) size l).map L.key) =
          (l.take (L.pageCount size * size)).map L.key := by
        rw [← flatMap_page, List.map_flatMap]
        exact List.flatMap_congr fun i hi => by rw [hoffset i (List.mem_range.1 hi)]
      rw [hpages] at hperm
      exact hperm.nodup_iff.2 L.nodup
    · -- before page `k` the row `a` is the last one; from page `k` on it comes behind `b`
      obtain ⟨hlt', hget'⟩ := List.getElem?_eq_some_iff.1 ha
      obtain ⟨hlt'', hget''⟩ := List.getElem?_eq_some_iff.1 hb
      have hpos : 0 < k * size := Nat.mul_pos hk hsize
      have hsplit : l = l.take (k * size - 1) ++ a :: b :: l.drop (k * size + 1) := by
        rw [← hget', ← hget'']
        conv_lhs => rw [← List.take_append_drop (k * size - 1) l, List.drop_eq_getElem_cons hlt']
        have hsucc : k * size - 1 + 1 = k * size := by omega
        simp only [hsucc, List.drop_eq_getElem_cons hlt'']
      have hswap : L.Answers (l.take (k * size - 1) ++ b :: a :: l.drop (k * size + 1)) := (hsplit ▸ hl).swap hba
      have hlength : (l.take (k * size - 1)).length = k * size - 1 := by
        rw [List.length_take]
        omega
      have hmoved : (l.take (k * size - 1) ++ b :: a :: l.drop (k * size + 1))[k * size]? = some a := by
        rw [List.getElem?_append_right (by omega), hlength, show k * size - (k * size - 1) = 1 by omega]
        rfl
      have hprev : k * size = (k - 1) * size + size := by
        rw [← Nat.succ_mul, Nat.succ_eq_add_one, Nat.sub_add_cancel hk]
      refine h.once (l := fun i => if i < k then l else l.take (k * size - 1) ++ b :: a :: l.drop (k * size + 1))
        (fun i => ?_) (i := k - 1) (j := k) (a := a) (by omega) hkN ?_ ?_
      · split_ifs
        · exact hl
        · exact hswap
      · rw [if_pos (by omega), hoffset _ (by omega)]
        exact mem_page ha (by omega) (by omega)
      · rw [if_neg (lt_irrefl k), hoffset k hkN]
        exact mem_page hmoved le_rfl (by omega)
  · rintro ⟨hlt, hdistinct, huntied⟩ l hl
    have hoffset := hexact hlt
    have hpages : ((List.range (L.pageCount size)).flatMap fun i => (page (i * size % bound) size (l i)).map L.key) =
        ((List.range (L.pageCount size)).flatMap fun i => page (i * size) size (l i)).map L.key := by
      rw [List.map_flatMap]
      exact List.flatMap_congr fun i hi => by rw [hoffset i (List.mem_range.1 hi)]
    rw [hpages]
    by_cases hnone : L.pageCount size = 0
    · have hempty : L.targets = [] := by
        have hle := le_pageCount_mul (L := L) hsize
        rw [hnone, Nat.zero_mul] at hle
        exact List.length_eq_zero_iff.1 (by omega)
      rw [hnone, hempty]
      exact .nil
    · obtain ⟨m, hm⟩ := Nat.exists_eq_succ_of_ne_zero hnone
      have hfirst : ((List.range (L.pageCount size)).flatMap fun i => page (i * size) size (l i)).Perm
          ((l m).take (L.pageCount size * size)) := by
        rw [hm, List.range_succ, List.flatMap_append, List.flatMap_singleton, Nat.succ_eq_add_one, ← take_append_page]
        exact (pages_perm huntied hsize hl (by omega) (hl m)).append_right _
      refine (hfirst.map L.key).trans ?_
      have hsub : ((l m).take (L.pageCount size * size)).map L.key ⊆ L.targets := by
        intro k hk
        obtain ⟨r, hr, rfl⟩ := List.mem_map.1 hk
        exact (L.mem_targets _).2 ⟨r, (hl m).perm.mem_iff.1 (List.mem_of_mem_take hr), rfl⟩
      refine ((hdistinct (l m) (hl m)).subperm hsub).perm_of_length_le ?_
      have hall := (hl m).targets_le
      have hcount := le_pageCount_mul (L := L) hsize
      rw [List.length_map, List.length_take]
      omega

end Enumerates

/-! ## Rows without ties, and rows that are all tied -/

section Ties

variable {L : Listing ρ κ} {size : ℕ}

theorem Listing.distinct_of_nodup (hkeys : (L.rows.map L.key).Nodup) : L.Distinct size := by
  intro l hl
  have hall : (l.map L.key).Nodup := (hl.perm.map L.key).nodup_iff.2 hkeys
  exact hall.sublist ((List.take_sublist _ l).map L.key)

/-- An order without ties leaves none at the end of a page. -/
theorem Listing.untied_of_antisymm (hsize : 0 < size) (hnodup : L.rows.Nodup)
    (hanti : ∀ a ∈ L.rows, ∀ b ∈ L.rows, L.le a b → L.le b a → a = b) : L.Untied size := by
  intro l hl k hk _ a b ha hb hba
  obtain ⟨hlt, rfl⟩ := List.getElem?_eq_some_iff.1 ha
  obtain ⟨hlt', rfl⟩ := List.getElem?_eq_some_iff.1 hb
  have hpos : 0 < k * size := Nat.mul_pos hk hsize
  have hab : L.le l[k * size - 1] l[k * size] := List.pairwise_iff_getElem.1 hl.sorted _ _ hlt hlt' (by omega)
  have hmem := hl.perm.mem_iff.1 (List.getElem_mem hlt)
  have hmem' := hl.perm.mem_iff.1 (List.getElem_mem hlt')
  have hindex := (hl.perm.nodup_iff.2 hnodup).getElem_inj_iff.1 (hanti _ hmem _ hmem' hab hba)
  omega

/-- Where all rows are tied, they have to fit on one page. -/
theorem Listing.untied_iff_of_tied (hsize : 0 < size) (htied : ∀ a b, L.le a b) :
    L.Untied size ↔ L.targets.length ≤ size := by
  have hcount : 1 < L.pageCount size ↔ size < L.targets.length := by
    rw [lt_pageCount_iff hsize, Nat.one_mul]
  constructor
  · intro h
    by_contra hlt
    obtain ⟨l, hl⟩ := L.exists_answers
    have hlength : size < l.length := (not_le.1 hlt).trans_le hl.targets_le
    have hlast : l[1 * size - 1]? = some l[1 * size - 1] := List.getElem?_eq_getElem (by omega)
    have hnext : l[1 * size]? = some l[1 * size] := List.getElem?_eq_getElem (by omega)
    exact h l hl 1 one_pos (hcount.2 (not_le.1 hlt)) _ _ hlast hnext (htied _ _)
  · intro hle l hl k hk hkN
    have hone : 1 < L.pageCount size := by omega
    exact absurd (hcount.1 hone) (not_lt.2 hle)

end Ties

/-! ## Rows that cannot be read -/

section Delivers

variable {L : Listing ρ κ} {readable : ρ → Bool} {offset : ℕ → ℕ} {size : ℕ} {l : List ρ} {a : ρ}

/-- A page with a row that cannot be read comes out empty. -/
def readAll (readable : ρ → Bool) (l : List ρ) : List ρ := if l.all readable then l else []

/-- The pages as they come out give every key once. -/
def Listing.Delivers (L : Listing ρ κ) (readable : ρ → Bool) (offset : ℕ → ℕ) (size : ℕ) : Prop :=
  ∀ l : ℕ → List ρ, (∀ i, L.Answers (l i)) →
    ((List.range (L.pageCount size)).flatMap fun i =>
      (readAll readable (page (offset i) size (l i))).map L.key).Perm L.targets

theorem readAll_of_forall (h : ∀ r ∈ l, readable r = true) : readAll readable l = l := if_pos (List.all_eq_true.2 h)

theorem mem_readAll : a ∈ readAll readable l ↔ a ∈ l ∧ ∀ r ∈ l, readable r = true := by
  unfold readAll
  by_cases h : l.all readable = true
  · rw [if_pos h]
    exact (and_iff_left (List.all_eq_true.1 h)).symm
  · rw [if_neg h]
    exact iff_of_false List.not_mem_nil fun hmem => h (List.all_eq_true.2 hmem.2)

theorem Listing.delivers_of_readable (h : ∀ r ∈ L.rows, readable r = true) :
    L.Delivers readable offset size ↔ L.Enumerates offset size := by
  have hpages : ∀ l : ℕ → List ρ, (∀ i, L.Answers (l i)) →
      ((List.range (L.pageCount size)).flatMap fun i => (readAll readable (page (offset i) size (l i))).map L.key) =
        (List.range (L.pageCount size)).flatMap fun i => (page (offset i) size (l i)).map L.key := by
    intro l hl
    refine List.flatMap_congr fun i _ => ?_
    rw [readAll_of_forall fun r hr => h r ((hl i).perm.mem_iff.1 (mem_of_mem_page hr))]
  constructor
  · intro hdelivers l hl
    rw [← hpages l hl]
    exact hdelivers l hl
  · intro henumerates l hl
    rw [hpages l hl]
    exact henumerates l hl

/-- **Pages of rows with keys of their own come out in full** exactly if all rows can be read. -/
theorem Listing.delivers_iff (hkeys : (L.rows.map L.key).Nodup) :
    L.Delivers readable offset size ↔ (∀ r ∈ L.rows, readable r = true) ∧ L.Enumerates offset size := by
  constructor
  · intro h
    have hreadable : ∀ r ∈ L.rows, readable r = true := by
      intro r hr
      obtain ⟨l, hl⟩ := L.exists_answers
      have hkey : L.key r ∈ L.targets := (L.mem_targets _).2 ⟨r, hr, rfl⟩
      obtain ⟨i, -, hi⟩ := List.mem_flatMap.1 ((h (fun _ => l) fun _ => hl).mem_iff.2 hkey)
      obtain ⟨r', hr', heq⟩ := List.mem_map.1 hi
      obtain ⟨hpage, hall⟩ := mem_readAll.1 hr'
      obtain rfl := List.inj_on_of_nodup_map hkeys (hl.perm.mem_iff.1 (mem_of_mem_page hpage)) hr heq
      exact hall r' hpage
    exact ⟨hreadable, (L.delivers_of_readable hreadable).1 h⟩
  · rintro ⟨hreadable, h⟩
    exact (L.delivers_of_readable hreadable).2 h

end Delivers

end OffsetPages
