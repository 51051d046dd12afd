import AlephCore.Handlers.Aggregate
import AlephCore.Lib.ChronoFold
import Mathlib.Algebra.Order.Ring.Unbundled.Rat

/-!
# Spec — what handling one aggregate element does

`processed` is the effect of `processElement` when no statement fails, as a function of the state.
`rebuilt` is the chronological fold of a list of elements, and `Consistent` says of one aggregate that
its row, unless dirty, is the fold of the stored elements.  Handling an element keeps this, provided its
time is not shared by another element.
-/

namespace AlephCore.AggregateHandler

open ProgE Prog

/-! ## Success of the handler -/

/-- The effect of `rebuildAggregateFromElements`. -/
def rebuild (address : Address) (key : String) (n : Node) : Node :=
  if (elementsOf address key n).isEmpty then n
  else writeAggregate address key (mergeElements (chronologicalElements address key n)) n

/-- The first element makes the row. -/
def insertFirst (e : AggregateElement) (n : Node) : Node :=
  { n with aggregates := n.aggregates.insertNew (firstRow e) }

/-- The effect of `mergeExisting`. -/
def merged (e : AggregateElement) (row : AggregateRow) (n : Node) : Node :=
  if row.dirty then n
  else if row.time ≤ e.time then writeAggregate e.address e.key (mergedInto row e) n
  else if dirtyThreshold < (elementsOf e.address e.key n).length then setDirty e.address e.key n
  else rebuild e.address e.key n

/-- The effect of `processElement`. -/
def processed (e : AggregateElement) (n : Node) : Node :=
  match (storeElement e n).aggregates.find? (e.address, e.key) with
  | none => insertFirst e (storeElement e n)
  | some row => merged e row (storeElement e n)

theorem processed_of_none {e : AggregateElement} {n : Node}
    (h : (storeElement e n).aggregates.find? (e.address, e.key) = none) :
    processed e n = insertFirst e (storeElement e n) := by
  simp only [processed, h]

theorem processed_of_some {e : AggregateElement} {n : Node} {row : AggregateRow}
    (h : (storeElement e n).aggregates.find? (e.address, e.key) = some row) :
    processed e n = merged e row (storeElement e n) := by
  simp only [processed, h]

theorem isEmpty_chronologicalElements (a : Address) (k : String) (n : Node) :
    (chronologicalElements a k n).isEmpty = (elementsOf a k n).isEmpty := by
  have h := List.length_insertionSort Chronological (elementsOf a k n)
  rw [Bool.eq_iff_iff, List.isEmpty_iff_length_eq_zero, List.isEmpty_iff_length_eq_zero,
    chronologicalElements, h]

theorem exec_rebuild_ok {a : Address} {k : String} {n n' : Node} {u : Unit} :
    Exec (rebuildAggregateFromElements a k).run n (.ok u) n' ↔ n' = rebuild a k n := by
  unfold rebuildAggregateFromElements rebuild
  rw [exec_db_query_bind_ok, isEmpty_chronologicalElements]
  split_ifs with he
  · simp
  · simp [updateAggregate]

theorem exec_mergeExisting_ok {e : AggregateElement} {row : AggregateRow} {n n' : Node} {u : Unit} :
    Exec (mergeExisting e row).run n (.ok u) n' ↔ n' = merged e row n := by
  unfold mergeExisting merged
  split_ifs with hd ht hc
  · simp
  · simp [updateAggregate]
  · rw [countElements, exec_db_query_bind_ok, if_pos hc]
    simp [markDirty]
  · rw [countElements, exec_db_query_bind_ok, if_neg hc]
    exact exec_rebuild_ok

theorem exec_insertAggregate_ok {r : AggregateRow} {n n' : Node} {c : Nat} :
    Exec (insertAggregate r).run n (.ok c) n' ↔
      match n.aggregates.find? (r.address, r.key) with
      | none => c = 1 ∧ n' = { n with aggregates := n.aggregates.insertNew r }
      | some _ => c = 0 ∧ n' = n := by
  simp only [insertAggregate, exec_sql_ok, Prod.mk.injEq, Except.ok.injEq]
  cases h : n.aggregates.find? (r.address, r.key) with
  | none => simp [eq_comm]
  | some row =>
    rw [Table.insertNew_of_find? (r := r) h]
    simp only [Option.isSome_some, if_true]
    exact and_congr eq_comm eq_comm

/-- **A handled element has exactly the effect `processed`.** -/
theorem exec_processElement_ok {e : AggregateElement} {n n' : Node} {u : Unit} :
    Exec (processElement e).run n (.ok u) n' ↔ n' = processed e n := by
  unfold processElement
  rw [insertElement, exec_db_execute_bind_ok, exec_bind_ok]
  simp only [exec_db_ok, exec_insertAggregate_ok]
  cases hrow : (storeElement e n).aggregates.find? (e.address, e.key) with
  | none =>
    have hfirst : (storeElement e n).aggregates.find? ((firstRow e).address, (firstRow e).key) = none :=
      hrow
    simp [hfirst, processed_of_none hrow, insertFirst]
  | some row =>
    have hfirst : (storeElement e n).aggregates.find? ((firstRow e).address, (firstRow e).key) =
      some row := hrow
    simp only [hfirst, and_assoc, exists_and_left, exists_eq_left, if_true]
    rw [updateExisting, selectAggregate, exec_db_query_bind_ok, hrow, processed_of_some hrow]
    exact exec_mergeExisting_ok

/-! ## The chronological fold -/

instance : Std.Total Chronological := ⟨fun a b => by
  rcases lt_trichotomy a.time b.time with h | h | h
  · exact .inl (.inl h)
  · rcases le_total a.itemHash b.itemHash with h' | h'
    · exact .inl (.inr ⟨h, h'⟩)
    · exact .inr (.inr ⟨h.symm, h'⟩)
  · exact .inr (.inl h)⟩

instance : IsTrans AggregateElement Chronological := ⟨fun a b c hab hbc => by
  rcases hab with hab | ⟨hab, hab'⟩ <;> rcases hbc with hbc | ⟨hbc, hbc'⟩
  · exact .inl (hab.trans hbc)
  · exact .inl (hbc ▸ hab)
  · exact .inl (hab ▸ hbc)
  · exact .inr ⟨hab.trans hbc, hab'.trans hbc'⟩⟩

theorem Chronological.time_le {a b : AggregateElement} (h : Chronological a b) : a.time ≤ b.time := by
  rcases h with h | ⟨h, -⟩
  · exact h.le
  · exact h.le

/-- Elements with the same hash are the same. -/
def HashesDetermine (l : List AggregateElement) : Prop :=
  ∀ x ∈ l, ∀ y ∈ l, x.itemHash = y.itemHash → x = y

theorem HashesDetermine.strict {l : List AggregateElement} (h : HashesDetermine l) :
    Strict Chronological l := by
  intro x hx y hy hxy hyx
  rcases hxy with hxy | ⟨ht, hxy⟩
  · exact absurd hyx.time_le hxy.not_ge
  · rcases hyx with hyx | ⟨-, hyx⟩
    · exact absurd ht hyx.ne'
    · exact h x hx y hy (le_antisymm hxy hyx)

/-- What rebuilding computes from the stored elements: content, last revision and time. -/
def rebuilt (l : List AggregateElement) : Value × ItemHash × Timestamp :=
  chronoFold Chronological mergeElement (Value.emptyObject, "", 0) l

theorem mergeElements_chronologicalElements (a : Address) (k : String) (n : Node) :
    mergeElements (chronologicalElements a k n) = rebuilt (elementsOf a k n) := rfl

theorem mergeElement_idem (s : Value × ItemHash × Timestamp) (e : AggregateElement) :
    mergeElement (mergeElement s e) e = mergeElement s e := by
  simp only [mergeElement, Value.deepMerge_idem]

theorem rebuilt_newest {l : List AggregateElement} (hl : l ≠ []) :
    ∃ e ∈ l, (rebuilt l).2 = (e.itemHash, e.time) ∧ ∀ x ∈ l, x.time ≤ e.time := by
  obtain ⟨e, he, hmax, s, hs⟩ :=
    chronoFold_newest Chronological mergeElement (Value.emptyObject, "", 0) hl
  refine ⟨e, he, by rw [rebuilt, hs, mergeElement], fun x hx => ?_⟩
  rcases hmax x hx with rfl | h
  · exact le_rfl
  · exact h.time_le

/-- The elements after storing `e`. -/
def withElement (e : AggregateElement) (l : List AggregateElement) : List AggregateElement :=
  if e ∈ l then l else l ++ [e]

theorem mem_withElement {e x : AggregateElement} {l : List AggregateElement} :
    x ∈ withElement e l ↔ x ∈ l ∨ x = e := by
  unfold withElement
  split_ifs with h
  · constructor
    · exact .inl
    · rintro (hx | rfl)
      · exact hx
      · exact h
  · simp

theorem HashesDetermine.withElement {e : AggregateElement} {l : List AggregateElement}
    (h : HashesDetermine l) (he : ∀ x ∈ l, x.itemHash = e.itemHash → x = e) :
    HashesDetermine (withElement e l) := by
  intro x hx y hy hxy
  rcases mem_withElement.1 hx with hx' | hx' <;> rcases mem_withElement.1 hy with hy' | hy'
  · exact h x hx' y hy' hxy
  · rw [hy'] at hxy ⊢
    exact he x hx' hxy
  · rw [hx'] at hxy ⊢
    exact (he y hy' hxy.symm).symm
  · rw [hx', hy']

theorem nodup_withElement {e : AggregateElement} {l : List AggregateElement} (h : l.Nodup) :
    (withElement e l).Nodup := by
  unfold AggregateHandler.withElement
  split_ifs with he
  · exact h
  · exact List.nodup_append.2 ⟨h, List.nodup_singleton e, by
      rintro x hx y hy rfl
      exact he (List.mem_singleton.1 hy ▸ hx)⟩

/-- **Merging an element newer than all others onto the fold gives the fold with it**, whether it was
part of the fold before or not. -/
theorem mergeElement_rebuilt {e : AggregateElement} {l : List AggregateElement}
    (hdet : HashesDetermine (withElement e l)) (hnew : ∀ x ∈ l, x = e ∨ x.time < e.time) :
    mergeElement (rebuilt l) e = rebuilt (withElement e l) := by
  have hchrono : ∀ x ∈ l, Chronological x e := by
    intro x hx
    rcases hnew x hx with rfl | h
    · exact refl_of _ x
    · exact .inl h
  unfold withElement at hdet ⊢
  split_ifs at hdet ⊢ with he
  · exact chronoFold_absorb mergeElement_idem hdet.strict he hchrono
  · exact (chronoFold_append hdet.strict hchrono).symm

/-! ## Consistency of an aggregate -/

/-- The row has content, revision and time `s`. -/
def RowHolds (row : AggregateRow) (s : Value × ItemHash × Timestamp) : Prop :=
  row.content = s.1 ∧ row.lastRevisionHash = some s.2.1 ∧ row.time = s.2.2

/-- An aggregate that has elements has a row, and unless dirty the row is their fold. -/
structure Consistent (a : Address) (k : String) (n : Node) : Prop where
  noRow : n.aggregates.find? (a, k) = none → elementsOf a k n = []
  clean : ∀ row, n.aggregates.find? (a, k) = some row → row.dirty = false →
    RowHolds row (rebuilt (elementsOf a k n))

/-! ### Elements and rows after the statements -/

theorem mem_elementsOf {a : Address} {k : String} {n : Node} {x : AggregateElement} :
    x ∈ elementsOf a k n ↔ x ∈ n.aggregateElements ∧ x.address = a ∧ x.key = k := by
  simp [elementsOf]

theorem storeElement_aggregates (e : AggregateElement) (n : Node) :
    (storeElement e n).aggregates = n.aggregates := by
  unfold storeElement
  split_ifs <;> rfl

theorem storeElement_aggregateElements {e : AggregateElement} {n : Node}
    (hdet : ∀ x ∈ n.aggregateElements, x.itemHash = e.itemHash → x = e) :
    (storeElement e n).aggregateElements = withElement e n.aggregateElements := by
  unfold storeElement withElement
  by_cases h : ∃ e' ∈ n.aggregateElements, e'.itemHash = e.itemHash
  · obtain ⟨e', he', hh⟩ := h
    have he : e ∈ n.aggregateElements := hdet e' he' hh ▸ he'
    rw [if_pos ⟨e', he', hh⟩, if_pos he]
  · have he : e ∉ n.aggregateElements := fun he => h ⟨e, he, rfl⟩
    rw [if_neg h, if_neg he]

theorem elementsOf_storeElement_self {e : AggregateElement} {n : Node}
    (hdet : ∀ x ∈ n.aggregateElements, x.itemHash = e.itemHash → x = e) :
    elementsOf e.address e.key (storeElement e n) =
      withElement e (elementsOf e.address e.key n) := by
  have hmem : e ∈ elementsOf e.address e.key n ↔ e ∈ n.aggregateElements := by simp [mem_elementsOf]
  rw [elementsOf, storeElement_aggregateElements hdet]
  unfold withElement
  simp only [hmem]
  split_ifs with h
  · rfl
  · rw [List.filter_append]
    simp [elementsOf]

theorem elementsOf_storeElement_other {e : AggregateElement} {n : Node} {a : Address} {k : String}
    (h : (a, k) ≠ (e.address, e.key)) : elementsOf a k (storeElement e n) = elementsOf a k n := by
  unfold storeElement
  split_ifs
  · rfl
  · have he : ¬ (e.address = a ∧ e.key = k) := by
      rintro ⟨rfl, rfl⟩
      exact h rfl
    simp [elementsOf, he]

@[simp] theorem writeAggregate_aggregateElements (a : Address) (k : String)
    (s : Value × ItemHash × Timestamp) (n : Node) :
    (writeAggregate a k s n).aggregateElements = n.aggregateElements := rfl

theorem find?_writeAggregate_self {a : Address} {k : String} {s : Value × ItemHash × Timestamp}
    {n : Node} {row : AggregateRow} (h : n.aggregates.find? (a, k) = some row) :
    (writeAggregate a k s n).aggregates.find? (a, k) =
      some { row with content := s.1, time := s.2.2, lastRevisionHash := some s.2.1, dirty := false } := by
  rw [writeAggregate, Table.find?_update, h, Option.map_some, if_pos (Table.find?_eq_some.1 h).2]

theorem find?_writeAggregate_other {a a' : Address} {k k' : String}
    {s : Value × ItemHash × Timestamp} {n : Node} (h : (a', k') ≠ (a, k)) :
    (writeAggregate a k s n).aggregates.find? (a', k') = n.aggregates.find? (a', k') := by
  rw [writeAggregate, Table.find?_update]
  cases hrow : n.aggregates.find? (a', k') with
  | none => rfl
  | some row =>
    have hk : (row.address, row.key) = (a', k') := (Table.find?_eq_some.1 hrow).2
    rw [Option.map_some, if_neg (hk ▸ h)]

theorem find?_insertFirst {e : AggregateElement} {n : Node}
    (h : n.aggregates.find? (e.address, e.key) = none) :
    (insertFirst e n).aggregates.find? (e.address, e.key) = some (firstRow e) := by
  have hkey : ((firstRow e).address, (firstRow e).key) = (e.address, e.key) := rfl
  rw [insertFirst, Table.find?_insertNew, h, if_pos hkey, Option.none_or]

theorem find?_setDirty_self {a : Address} {k : String} {n : Node} {row : AggregateRow}
    (h : n.aggregates.find? (a, k) = some row) :
    (setDirty a k n).aggregates.find? (a, k) = some { row with dirty := true } := by
  rw [setDirty, Table.find?_update, h, Option.map_some, if_pos (Table.find?_eq_some.1 h).2]

theorem find?_setDirty_other {a a' : Address} {k k' : String} {n : Node} (h : (a', k') ≠ (a, k)) :
    (setDirty a k n).aggregates.find? (a', k') = n.aggregates.find? (a', k') := by
  rw [setDirty, Table.find?_update]
  cases hrow : n.aggregates.find? (a', k') with
  | none => rfl
  | some row =>
    have hk : (row.address, row.key) = (a', k') := (Table.find?_eq_some.1 hrow).2
    rw [Option.map_some, if_neg (hk ▸ h)]

/-! ### Handling keeps an aggregate consistent -/

theorem consistent_of_write {a : Address} {k : String} {s : Value × ItemHash × Timestamp} {n : Node}
    {row : AggregateRow} (hrow : n.aggregates.find? (a, k) = some row)
    (hs : s = rebuilt (elementsOf a k n)) : Consistent a k (writeAggregate a k s n) := by
  have hfind := @find?_writeAggregate_self a k s n row hrow
  refine ⟨fun h => ?_, fun row' h _ => ?_⟩
  · rw [hfind] at h
    cases h
  · rw [hfind] at h
    obtain rfl := Option.some.inj h
    have hel : elementsOf a k (writeAggregate a k s n) = elementsOf a k n := rfl
    rw [hel, ← hs]
    exact ⟨rfl, rfl, rfl⟩

theorem consistent_of_dirty {a : Address} {k : String} {n : Node} {row : AggregateRow}
    (hrow : n.aggregates.find? (a, k) = some row) (hd : row.dirty = true) : Consistent a k n := by
  refine ⟨fun h => ?_, fun row' h hd' => ?_⟩
  · rw [hrow] at h
    cases h
  · rw [hrow] at h
    obtain rfl := Option.some.inj h
    rw [hd] at hd'
    cases hd'

theorem consistent_rebuild {a : Address} {k : String} {n : Node} {row : AggregateRow}
    (hrow : n.aggregates.find? (a, k) = some row) (hne : elementsOf a k n ≠ []) :
    Consistent a k (rebuild a k n) := by
  have h : ¬ (elementsOf a k n).isEmpty := by simpa using hne
  rw [rebuild, if_neg h]
  exact consistent_of_write hrow rfl

theorem merged_aggregateElements (e : AggregateElement) (row : AggregateRow) (n : Node) :
    (merged e row n).aggregateElements = n.aggregateElements := by
  unfold merged rebuild
  split_ifs <;> rfl

theorem processed_aggregateElements {e : AggregateElement} {n : Node}
    (hdet : ∀ x ∈ n.aggregateElements, x.itemHash = e.itemHash → x = e) :
    (processed e n).aggregateElements = withElement e n.aggregateElements := by
  rw [← storeElement_aggregateElements hdet]
  cases hrow : (storeElement e n).aggregates.find? (e.address, e.key) with
  | none => rw [processed_of_none hrow, insertFirst]
  | some row => rw [processed_of_some hrow, merged_aggregateElements]

/-- A newer element merged onto a clean row gives the fold with that element. -/
theorem mergedInto_rebuilt {e : AggregateElement} {row : AggregateRow} {l : List AggregateElement}
    (hrow : RowHolds row (rebuilt l)) (hdet : HashesDetermine (withElement e l))
    (htimes : ∀ x ∈ l, x.time = e.time → x = e) (hle : row.time ≤ e.time) :
    mergedInto row e = rebuilt (withElement e l) := by
  have hmerge : mergedInto row e = mergeElement (rebuilt l) e := by
    rw [mergedInto, mergeElement, hrow.1]
  rw [hmerge]
  refine mergeElement_rebuilt hdet fun x hx => ?_
  obtain ⟨newest, -, h2, hmax⟩ := rebuilt_newest (List.ne_nil_of_mem hx)
  have htime : row.time = newest.time := by rw [hrow.2.2, h2]
  have hxe : x.time ≤ e.time := (hmax x hx).trans (htime ▸ hle)
  rcases hxe.lt_or_eq with h | h
  · exact .inr h
  · exact .inl (htimes x hx h)

/-- **Handling an element keeps its aggregate consistent**, if no other element has its time. -/
theorem consistent_processed {e : AggregateElement} {n : Node}
    (hn : Consistent e.address e.key n)
    (hdet : ∀ x ∈ n.aggregateElements, x.itemHash = e.itemHash → x = e)
    (hdet' : HashesDetermine (elementsOf e.address e.key n))
    (htimes : ∀ x ∈ elementsOf e.address e.key n, x.time = e.time → x = e) :
    Consistent e.address e.key (processed e n) := by
  have hel := elementsOf_storeElement_self hdet
  have hrow₁ : ∀ k', (storeElement e n).aggregates.find? k' = n.aggregates.find? k' := fun k' => by
    rw [storeElement_aggregates]
  have hstrict : HashesDetermine (withElement e (elementsOf e.address e.key n)) :=
    hdet'.withElement fun x hx => hdet x (mem_elementsOf.1 hx).1
  cases hrow : (storeElement e n).aggregates.find? (e.address, e.key) with
  | none =>
    -- the first element: its content is the fold of the single element
    have hnil : elementsOf e.address e.key n = [] := hn.noRow (by rw [← hrow₁, hrow])
    have hfind := find?_insertFirst hrow
    have hsingle : rebuilt (withElement e []) = (e.content, e.itemHash, e.time) := by
      simp [rebuilt, withElement, mergeElement]
    have hel' : elementsOf e.address e.key (insertFirst e (storeElement e n)) = withElement e [] := by
      rw [← hnil]
      exact hel
    rw [processed_of_none hrow]
    refine ⟨fun h => ?_, fun row h _ => ?_⟩
    · rw [hfind] at h
      cases h
    · rw [hfind] at h
      obtain rfl := Option.some.inj h
      rw [hel', hsingle]
      exact ⟨rfl, rfl, rfl⟩
  | some row =>
    have hne : elementsOf e.address e.key (storeElement e n) ≠ [] := by
      rw [hel]
      exact List.ne_nil_of_mem (mem_withElement.2 (.inr rfl))
    rw [processed_of_some hrow, merged]
    split_ifs with hd ht
    · exact consistent_of_dirty hrow hd
    · refine consistent_of_write hrow ?_
      rw [hel]
      refine mergedInto_rebuilt (hn.clean row ?_ (by simpa using hd)) hstrict htimes ht
      rw [← hrow₁, hrow]
    · exact consistent_of_dirty (find?_setDirty_self hrow) rfl
    · exact consistent_rebuild hrow hne

/-- **Handling an element leaves every other aggregate alone.** -/
theorem processed_other {e : AggregateElement} {n : Node} {a : Address} {k : String}
    (h : (a, k) ≠ (e.address, e.key)) :
    (processed e n).aggregates.find? (a, k) = n.aggregates.find? (a, k) ∧
      elementsOf a k (processed e n) = elementsOf a k n := by
  have hel := elementsOf_storeElement_other (n := n) h
  have hfind : (storeElement e n).aggregates.find? (a, k) = n.aggregates.find? (a, k) := by
    rw [storeElement_aggregates]
  cases hrow : (storeElement e n).aggregates.find? (e.address, e.key) with
  | none =>
    rw [processed_of_none hrow]
    refine ⟨?_, hel⟩
    rw [insertFirst, Table.find?_insertNew, if_neg (fun hk => h hk.symm), Option.or_none, hfind]
  | some row =>
    rw [processed_of_some hrow]
    refine ⟨?_, ?_⟩
    · rw [← hfind]
      simp only [merged, rebuild]
      split_ifs
      · rfl
      · exact find?_writeAggregate_other h
      · exact find?_setDirty_other h
      · rfl
      · exact find?_writeAggregate_other h
    · rw [← hel, elementsOf, merged_aggregateElements]
      rfl

theorem Consistent.of_eq {a : Address} {k : String} {n n' : Node} (hn : Consistent a k n)
    (hrow : n'.aggregates.find? (a, k) = n.aggregates.find? (a, k))
    (hel : elementsOf a k n' = elementsOf a k n) : Consistent a k n' := by
  refine ⟨fun h => ?_, fun row h hd => ?_⟩
  · rw [hel]
    exact hn.noRow (hrow ▸ h)
  · rw [hel]
    exact hn.clean row (hrow ▸ h) hd

end AlephCore.AggregateHandler
