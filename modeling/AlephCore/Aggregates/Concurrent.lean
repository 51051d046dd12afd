import AlephCore.Aggregates.Convergence
import AlephCore.Lib.Interleave

/-!
# Concurrent — calls of the aggregate handler at the same time

The statements of several calls for one aggregate interleave in any way.  `Stage` names the point a call
has reached, `Stage.prog` is what is left of it there, and `Stage.next` is its next statement.  No element
is lost as long as no call finishes while another one holds a content that it has computed and not yet
written.
-/

namespace AlephCore.AggregateHandler

open ProgE Prog

/-! ## The stages of a call -/

/-- How far a call has come. -/
inductive Stage where
  | start
  /-- The element is stored. -/
  | stored
  /-- The row was there already. -/
  | existing
  /-- The element is newer than the row just read. -/
  | merging (row : AggregateRow)
  /-- It is older. -/
  | counting
  | marking
  | rebuilding
  /-- These elements have been read, in this order. -/
  | writing (l : List AggregateElement)
  | finished

namespace Stage

variable (e : AggregateElement)

/-- What a call has still to do. -/
def prog : Stage → Prog Node DbError (Except HandlerError Unit)
  | start => (processElement e).run
  | stored => (db (insertAggregate (firstRow e)) >>= fun rowsAffected =>
      if rowsAffected = 0 then updateExisting e else pure ()).run
  | existing => (updateExisting e).run
  | merging row => (db (updateAggregate e.address e.key (mergedInto row e))).run
  | counting => (db (countElements e.address e.key) >>= fun count =>
      if dirtyThreshold < count then db (markDirty e.address e.key)
      else rebuildAggregateFromElements e.address e.key).run
  | marking => (db (markDirty e.address e.key)).run
  | rebuilding => (rebuildAggregateFromElements e.address e.key).run
  | writing l => (db (updateAggregate e.address e.key (mergeElements l))).run
  | finished => (pure () : Db HandlerError Unit).run

/-- The stage after the call has read the row. -/
def afterSelect : Option AggregateRow → Stage
  | none => finished
  | some row => if row.dirty then finished else if row.time ≤ e.time then merging row else counting

/-- The next statement: the stage it leads to, and its effect. -/
def next (n : Node) : Stage → Stage × Node
  | start => (stored, storeElement e n)
  | stored => (if (n.aggregates.find? (e.address, e.key)).isSome then existing else finished, insertFirst e n)
  | existing => (afterSelect e (n.aggregates.find? (e.address, e.key)), n)
  | merging row => (finished, writeAggregate e.address e.key (mergedInto row e) n)
  | counting =>
    (if dirtyThreshold < (elementsOf e.address e.key n).length then marking else rebuilding, n)
  | marking => (finished, setDirty e.address e.key n)
  | rebuilding =>
    (if (elementsOf e.address e.key n).isEmpty then finished
      else writing (chronologicalElements e.address e.key n), n)
  | writing l => (finished, writeAggregate e.address e.key (mergeElements l) n)
  | finished => (finished, n)

theorem next_db_query_bind {α β : Type} (f : Node → α) (q : α → Db HandlerError β) (n : Node) :
    (db (query f) >>= q).run.next n = ((q (f n)).run, n) := rfl

theorem next_insertAggregate_bind {β : Type} (r : AggregateRow) (q : Nat → Db HandlerError β) (n : Node) :
    (db (insertAggregate r) >>= q).run.next n =
      ((q (if (n.aggregates.find? (r.address, r.key)).isSome then 0 else 1)).run,
        { n with aggregates := n.aggregates.insertNew r }) := rfl

/-- **A call goes from stage to stage.** -/
theorem next_prog (n : Node) (s : Stage) :
    (s.prog e).next n = ((s.next e n).1.prog e, (s.next e n).2) := by
  cases s with
  | start => rfl
  | stored =>
    simp only [prog, next_insertAggregate_bind, next, firstRow]
    by_cases h : (n.aggregates.find? (e.address, e.key)).isSome = true
    · simp only [if_pos h, if_true]
      rfl
    · simp only [if_neg h, one_ne_zero, if_false]
      rfl
  | existing =>
    simp only [prog, updateExisting, selectAggregate, next_db_query_bind, next, afterSelect, mergeExisting]
    cases n.aggregates.find? (e.address, e.key) with
    | none => rfl
    | some row =>
      simp only
      split_ifs <;> rfl
  | merging row => rfl
  | counting =>
    simp only [prog, countElements, next_db_query_bind, next]
    split_ifs <;> rfl
  | marking => rfl
  | rebuilding =>
    simp only [prog, rebuildAggregateFromElements, next_db_query_bind, next, isEmpty_chronologicalElements]
    split_ifs <;> rfl
  | writing l => rfl
  | finished => rfl

theorem finished_prog (s : Stage) : (s.prog e).finished = true ↔ s = finished := by
  constructor
  · cases s <;> first | exact fun _ => rfl | exact fun h => Bool.noConfusion h
  · rintro rfl
    rfl

end Stage

/-! ## The invariant -/

section Sound

variable {ι : Type} {a : Address} {k : String} {es : ι → AggregateElement}

/-- `l` lists the stored elements `E`, up to elements of calls that have not finished. -/
structure Covers (es : ι → AggregateElement) (stage : ι → Stage) (E l : List AggregateElement) :
    Prop where
  nodup : l.Nodup
  subset : ∀ x ∈ l, x ∈ E
  missing : ∀ x ∈ E, x ∉ l → ∃ i, stage i ≠ .finished ∧ x = es i

/-- What holds while the calls for the elements `es` are under way. -/
structure Sound (a : Address) (k : String) (es : ι → AggregateElement) (n : Node) (stage : ι → Stage) :
    Prop where
  nodup : (n.aggregateElements.map AggregateElement.itemHash).Nodup
  hashes : ∀ x ∈ n.aggregateElements, ∀ i, x.itemHash = (es i).itemHash → x = es i
  times : ∀ x ∈ elementsOf a k n, ∀ i, x.time = (es i).time → x = es i
  isStored : ∀ i, stage i ≠ .start → es i ∈ elementsOf a k n
  noRow : n.aggregates.find? (a, k) = none → ∀ x ∈ elementsOf a k n, ∃ i, stage i = .stored ∧ x = es i
  isRow : ∀ i, stage i ≠ .start → stage i ≠ .stored → n.aggregates.find? (a, k) ≠ none
  clean : ∀ row, n.aggregates.find? (a, k) = some row → row.dirty = false →
    ∃ l, Covers es stage (elementsOf a k n) l ∧ RowHolds row (rebuilt l)
  merging : ∀ i row, stage i = .merging row →
    n.aggregates.find? (a, k) = some row ∧ row.dirty = false ∧ row.time ≤ (es i).time
  writing : ∀ i l, stage i = .writing l →
    ∃ l', Covers es stage (elementsOf a k n) l' ∧ es i ∈ l' ∧ mergeElements l = rebuilt l'

/-- A call that is about to write a content. -/
def Stage.Holding (s : Stage) : Prop := (∃ row, s = .merging row) ∨ ∃ l, s = .writing l

variable {n : Node} {stage : ι → Stage} {i : ι} {s : Stage}

theorem Covers.withElement {E l : List AggregateElement} (h : Covers es stage E l) {e : AggregateElement}
    (he : e ∈ E) : Covers es stage E (withElement e l) := by
  refine ⟨nodup_withElement h.nodup, fun x hx => ?_, fun x hx hl => ?_⟩
  · rcases mem_withElement.1 hx with hx | rfl
    · exact h.subset x hx
    · exact he
  · exact h.missing x hx fun hl' => hl (mem_withElement.2 (.inl hl'))

/-- A newly stored element belongs to a call that has not finished. -/
theorem Covers.store {E l : List AggregateElement} (h : Covers es stage E l) (hi : stage i ≠ .finished) :
    Covers es stage (AggregateHandler.withElement (es i) E) l := by
  refine ⟨h.nodup, fun x hx => mem_withElement.2 (.inl (h.subset x hx)), fun x hx hl => ?_⟩
  rcases mem_withElement.1 hx with hx | rfl
  · exact h.missing x hx hl
  · exact ⟨i, hi, rfl⟩

theorem Sound.hashesDetermine (h : Sound a k es n stage) : HashesDetermine (elementsOf a k n) :=
  fun _ hx _ hy hxy =>
    List.inj_on_of_nodup_map h.nodup (mem_elementsOf.1 hx).1 (mem_elementsOf.1 hy).1 hxy

variable [DecidableEq ι]

theorem Covers.goto {E l : List AggregateElement} (h : Covers es stage E l) (hs : s ≠ .finished) :
    Covers es (Function.update stage i s) E l := by
  refine ⟨h.nodup, h.subset, fun x hx hl => ?_⟩
  obtain ⟨j, hj, rfl⟩ := h.missing x hx hl
  refine ⟨j, ?_, rfl⟩
  by_cases hji : j = i
  · rw [hji, Function.update_self]
    exact hs
  · rwa [Function.update_of_ne hji]

/-- A call that has merged its element into `l` may finish. -/
theorem Covers.finish {E l : List AggregateElement} (h : Covers es stage E l) (hi : es i ∈ l) :
    Covers es (Function.update stage i .finished) E l := by
  refine ⟨h.nodup, h.subset, fun x hx hl => ?_⟩
  obtain ⟨j, hj, rfl⟩ := h.missing x hx hl
  have hji : j ≠ i := fun hji => hl (hji ▸ hi)
  exact ⟨j, by rwa [Function.update_of_ne hji], rfl⟩

/-! ### Steps that do not write -/

/-- A call that has stored its element goes on without finishing. -/
theorem Sound.goto (h : Sound a k es n stage) (hi : stage i ≠ .start) (hs : s ≠ .finished)
    (hrow : n.aggregates.find? (a, k) ≠ none)
    (hm : ∀ row, s = .merging row →
      n.aggregates.find? (a, k) = some row ∧ row.dirty = false ∧ row.time ≤ (es i).time)
    (hw : ∀ l, s = .writing l →
      ∃ l', Covers es stage (elementsOf a k n) l' ∧ es i ∈ l' ∧ mergeElements l = rebuilt l') :
    Sound a k es n (Function.update stage i s) where
  nodup := h.nodup
  hashes := h.hashes
  times := h.times
  isStored j hj := by
    by_cases hji : j = i
    · rw [hji]
      exact h.isStored i hi
    · rw [Function.update_of_ne hji] at hj
      exact h.isStored j hj
  noRow hnone := absurd hnone hrow
  isRow _ _ _ := hrow
  clean row hr hd := by
    obtain ⟨l, hl, hrl⟩ := h.clean row hr hd
    exact ⟨l, hl.goto hs, hrl⟩
  merging j row hj := by
    by_cases hji : j = i
    · subst hji
      rw [Function.update_self] at hj
      exact hm row hj
    · rw [Function.update_of_ne hji] at hj
      exact h.merging j row hj
  writing j l hj := by
    by_cases hji : j = i
    · subst hji
      rw [Function.update_self] at hj
      obtain ⟨l', hl', hrest⟩ := hw l hj
      exact ⟨l', hl'.goto hs, hrest⟩
    · rw [Function.update_of_ne hji] at hj
      obtain ⟨l', hl', hrest⟩ := h.writing j l hj
      exact ⟨l', hl'.goto hs, hrest⟩

/-! ### Steps that finish a call -/

/-- A call finishes and no other one holds a content. -/
theorem Sound.finish (h : Sound a k es n stage) (hi : stage i ≠ .start)
    (hothers : ∀ j, j ≠ i → ¬ (stage j).Holding) {n' : Node} {row' : AggregateRow}
    (hel : n'.aggregateElements = n.aggregateElements) (hrow : n'.aggregates.find? (a, k) = some row')
    (hclean : row'.dirty = false → ∃ l, Covers es (Function.update stage i .finished) (elementsOf a k n) l ∧
      RowHolds row' (rebuilt l)) :
    Sound a k es n' (Function.update stage i .finished) := by
  have hE : elementsOf a k n' = elementsOf a k n := by rw [elementsOf, hel, elementsOf]
  have hne : ∀ {j : ι} {s : Stage}, s ≠ .finished → Function.update stage i .finished j = s →
      j ≠ i ∧ stage j = s := by
    intro j s hs hj
    by_cases hji : j = i
    · rw [hji, Function.update_self] at hj
      exact absurd hj.symm hs
    · rw [Function.update_of_ne hji] at hj
      exact ⟨hji, hj⟩
  refine ⟨hel ▸ h.nodup, hel ▸ h.hashes, hE ▸ h.times, fun j hj => ?_, fun hnone => ?_, fun _ _ _ => ?_,
    fun row hr hd => ?_, fun j row hj => ?_, fun j l hj => ?_⟩
  · rw [hE]
    by_cases hji : j = i
    · rw [hji]
      exact h.isStored i hi
    · rw [Function.update_of_ne hji] at hj
      exact h.isStored j hj
  · rw [hrow] at hnone
    cases hnone
  · rw [hrow]
    exact Option.some_ne_none row'
  · rw [hrow] at hr
    obtain rfl := Option.some.inj hr
    rw [hE]
    exact hclean hd
  · obtain ⟨hji, hj⟩ := hne (by simp) hj
    exact absurd (.inl ⟨row, hj⟩) (hothers j hji)
  · obtain ⟨hji, hj⟩ := hne (by simp) hj
    exact absurd (.inr ⟨l, hj⟩) (hothers j hji)

/-! ### Steps that write -/

/-- A call stores its element. -/
theorem Sound.store (h : Sound a k es n stage) (hsame : ∀ j, (es j).address = a ∧ (es j).key = k)
    (hhash : ∀ j j', (es j).itemHash = (es j').itemHash → es j = es j')
    (htime : ∀ j j', (es j).time = (es j').time → es j = es j') (hi : stage i = .start) :
    Sound a k es (storeElement (es i) n) (Function.update stage i .stored) := by
  have hdet : ∀ x ∈ n.aggregateElements, x.itemHash = (es i).itemHash → x = es i :=
    fun x hx => h.hashes x hx i
  have hall := storeElement_aggregateElements hdet
  have hE : elementsOf a k (storeElement (es i) n) = withElement (es i) (elementsOf a k n) := by
    obtain ⟨rfl, rfl⟩ := hsame i
    exact elementsOf_storeElement_self hdet
  have hrows := storeElement_aggregates (es i) n
  have hstage : ∀ {j : ι} {s : Stage}, s ≠ .stored → Function.update stage i .stored j = s →
      j ≠ i ∧ stage j = s := by
    intro j s hs hj
    by_cases hji : j = i
    · rw [hji, Function.update_self] at hj
      exact absurd hj.symm hs
    · rw [Function.update_of_ne hji] at hj
      exact ⟨hji, hj⟩
  have hcovers : ∀ {l}, Covers es stage (elementsOf a k n) l →
      Covers es (Function.update stage i .stored) (elementsOf a k (storeElement (es i) n)) l :=
    fun hl => hE ▸ (hl.store (by simp [hi])).goto (by simp)
  refine ⟨?_, fun x hx j => ?_, fun x hx j => ?_, fun j hj => ?_, fun hnone x hx => ?_,
    fun j hj hj' => ?_, fun row hr hd => ?_, fun j row hj => ?_, fun j l hj => ?_⟩
  · rw [hall]
    unfold withElement
    split_ifs with hmem
    · exact h.nodup
    · rw [List.map_append, List.map_singleton]
      refine List.nodup_append.2 ⟨h.nodup, List.nodup_singleton _, ?_⟩
      rintro b hb c hc rfl
      obtain ⟨x, hx, hxb⟩ := List.mem_map.1 hb
      exact hmem (hdet x hx (hxb.trans (List.mem_singleton.1 hc)) ▸ hx)
  · rw [hall] at hx
    rcases mem_withElement.1 hx with hx | rfl
    · exact h.hashes x hx j
    · exact hhash i j
  · rw [hE] at hx
    rcases mem_withElement.1 hx with hx | rfl
    · exact h.times x hx j
    · exact htime i j
  · rw [hE, mem_withElement]
    by_cases hji : j = i
    · exact .inr (hji ▸ rfl)
    · rw [Function.update_of_ne hji] at hj
      exact .inl (h.isStored j hj)
  · rw [hrows] at hnone
    rw [hE] at hx
    rcases mem_withElement.1 hx with hx | rfl
    · obtain ⟨j, hj, rfl⟩ := h.noRow hnone x hx
      have hji : j ≠ i := by
        rintro rfl
        rw [hi] at hj
        cases hj
      exact ⟨j, by rwa [Function.update_of_ne hji], rfl⟩
    · exact ⟨i, Function.update_self .., rfl⟩
  · obtain ⟨-, hjs⟩ := hstage hj' rfl
    rw [hrows]
    exact h.isRow j (hjs ▸ hj) (hjs ▸ hj')
  · rw [hrows] at hr
    obtain ⟨l, hl, hrl⟩ := h.clean row hr hd
    exact ⟨l, hcovers hl, hrl⟩
  · obtain ⟨-, hjs⟩ := hstage (by simp) hj
    rw [hrows]
    exact h.merging j row hjs
  · obtain ⟨-, hjs⟩ := hstage (by simp) hj
    obtain ⟨l', hl', hrest⟩ := h.writing j l hjs
    exact ⟨l', hcovers hl', hrest⟩

/-- A call makes the row. -/
theorem Sound.insertFirst (h : Sound a k es n stage) (hsame : (es i).address = a ∧ (es i).key = k)
    (hi : stage i = .stored) (hnone : n.aggregates.find? (a, k) = none) :
    Sound a k es (insertFirst (es i) n) (Function.update stage i .finished) := by
  obtain ⟨rfl, rfl⟩ := hsame
  refine h.finish (by simp [hi]) (fun j _ hj => ?_) rfl (find?_insertFirst hnone) fun _ => ?_
  · obtain ⟨row, hj⟩ | ⟨l, hj⟩ := hj <;> exact h.isRow j (by simp [hj]) (by simp [hj]) hnone
  · refine ⟨[es i], Covers.finish ⟨List.nodup_singleton _, ?_, ?_⟩ (by simp), ?_⟩
    · intro x hx
      rw [List.mem_singleton.1 hx]
      exact h.isStored i (by simp [hi])
    · intro x hx _
      obtain ⟨j, hj, rfl⟩ := h.noRow hnone x hx
      exact ⟨j, by simp [hj], rfl⟩
    · simp [rebuilt, mergeElement, firstRow, RowHolds]

/-- A call writes a content that covers all elements. -/
theorem Sound.write (h : Sound a k es n stage) (hi : stage i ≠ .start)
    (hothers : ∀ j, j ≠ i → ¬ (stage j).Holding) {row : AggregateRow}
    (hrow : n.aggregates.find? (a, k) = some row) {s : Value × ItemHash × Timestamp}
    {l : List AggregateElement} (hl : Covers es stage (elementsOf a k n) l) (hil : es i ∈ l)
    (hs : s = rebuilt l) :
    Sound a k es (writeAggregate a k s n) (Function.update stage i .finished) :=
  h.finish hi hothers rfl (find?_writeAggregate_self hrow) fun _ => ⟨l, hl.finish hil, by simp [RowHolds, hs]⟩

/-- **A step keeps the invariant** unless it finishes a call while another one holds a content. -/
theorem Sound.step (h : Sound a k es n stage) (hsame : ∀ j, (es j).address = a ∧ (es j).key = k)
    (hhash : ∀ j j', (es j).itemHash = (es j').itemHash → es j = es j')
    (htime : ∀ j j', (es j).time = (es j').time → es j = es j')
    (hguard : stage i ≠ .finished → ((stage i).next (es i) n).1 = .finished →
      ∀ j, j ≠ i → ¬ (stage j).Holding) :
    Sound a k es ((stage i).next (es i) n).2 (Function.update stage i ((stage i).next (es i) n).1) := by
  obtain ⟨ha, hk⟩ := hsame i
  cases hi : stage i with
  | start => exact h.store hsame hhash htime hi
  | stored =>
    simp only [Stage.next, ha, hk]
    cases hrow : n.aggregates.find? (a, k) with
    | none => exact h.insertFirst (hsame i) hi hrow
    | some row =>
      have hkept : AggregateHandler.insertFirst (es i) n = n := by
        have hfind : n.aggregates.find? ((firstRow (es i)).address, (firstRow (es i)).key) = some row := by
          rw [← hrow, ← ha, ← hk]
          rfl
        rw [AggregateHandler.insertFirst, Table.insertNew_of_find? hfind]
      rw [hkept]
      exact h.goto (by simp [hi]) (by simp) (by simp [hrow]) (by simp) (by simp)
  | existing =>
    rw [hi] at hguard
    simp only [Stage.next, ha, hk] at hguard ⊢
    cases hrow : n.aggregates.find? (a, k) with
    | none => exact absurd hrow (h.isRow i (by simp [hi]) (by simp [hi]))
    | some row =>
      have hthere : n.aggregates.find? (a, k) ≠ none := by simp [hrow]
      rw [hrow] at hguard
      simp only [Stage.afterSelect] at hguard ⊢
      split_ifs at hguard ⊢ with hd ht
      · -- a dirty row is left alone
        refine h.finish (by simp [hi]) (hguard (by simp) rfl) rfl hrow fun hclean => ?_
        rw [hd] at hclean
        cases hclean
      · refine h.goto (by simp [hi]) (by simp) hthere ?_ (by simp)
        rintro row' hrow'
        obtain rfl : row = row' := by simpa using hrow'
        exact ⟨hrow, by simpa using hd, ht⟩
      · exact h.goto (by simp [hi]) (by simp) hthere (by simp) (by simp)
  | merging row =>
    rw [hi] at hguard
    obtain ⟨hrow, hd, ht⟩ := h.merging i row hi
    obtain ⟨l, hl, hrl⟩ := h.clean row hrow hd
    have hstored := h.isStored i (by simp [hi])
    have hl' := hl.withElement hstored
    simp only [Stage.next, ha, hk] at hguard ⊢
    refine h.write (by simp [hi]) (hguard (by simp) trivial) hrow hl' (mem_withElement.2 (.inr rfl)) ?_
    refine mergedInto_rebuilt hrl (fun x hx y hy => ?_) (fun x hx => h.times x (hl.subset x hx) i) ht
    exact h.hashesDetermine x (hl'.subset x hx) y (hl'.subset y hy)
  | counting =>
    have hthere := h.isRow i (by simp [hi]) (by simp [hi])
    simp only [Stage.next]
    split_ifs
    · exact h.goto (by simp [hi]) (by simp) hthere (by simp) (by simp)
    · exact h.goto (by simp [hi]) (by simp) hthere (by simp) (by simp)
  | marking =>
    rw [hi] at hguard
    obtain ⟨row, hrow⟩ := Option.ne_none_iff_exists'.1 (h.isRow i (by simp [hi]) (by simp [hi]))
    simp only [Stage.next, ha, hk] at hguard ⊢
    exact h.finish (by simp [hi]) (hguard (by simp) trivial) rfl (find?_setDirty_self hrow) (by simp)
  | rebuilding =>
    have hstored := h.isStored i (by simp [hi])
    have hne : (elementsOf a k n).isEmpty = false := by
      simpa using List.ne_nil_of_mem hstored
    simp only [Stage.next, ha, hk, hne]
    refine h.goto (by simp [hi]) (by simp) (h.isRow i (by simp [hi]) (by simp [hi])) (by simp) fun l hl => ?_
    obtain rfl : chronologicalElements a k n = l := by simpa using hl
    have hnodup : (elementsOf a k n).Nodup := (List.Nodup.of_map _ h.nodup).filter _
    exact ⟨elementsOf a k n, ⟨hnodup, fun _ hx => hx, fun x hx hx' => absurd hx hx'⟩, hstored,
      mergeElements_chronologicalElements a k n⟩
  | writing l =>
    rw [hi] at hguard
    obtain ⟨row, hrow⟩ := Option.ne_none_iff_exists'.1 (h.isRow i (by simp [hi]) (by simp [hi]))
    obtain ⟨l', hl', hil, hfold⟩ := h.writing i l hi
    simp only [Stage.next, ha, hk] at hguard ⊢
    exact h.write (by simp [hi]) (hguard (by simp) trivial) hrow hl' hil hfold
  | finished =>
    have hupdate : Function.update stage i .finished = stage := by
      rw [← hi]
      exact Function.update_eq_self i stage
    simp only [Stage.next]
    rwa [hupdate]

end Sound

/-! ## Runs -/

section Runs

variable {ι : Type} [DecidableEq ι] {a : Address} {k : String}

/-- A thread whose next statement writes a content it has computed. -/
def HoldsContent (a : Address) (k : String) (p : Prog Node DbError (Except HandlerError Unit)) : Prop :=
  ∃ s, p = (db (updateAggregate a k s)).run

/-- No call finishes while another one holds a content. -/
def NoFinishBesideWriter (a : Address) (k : String)
    (c : Config Node DbError (Except HandlerError Unit) ι) (i : ι) : Prop :=
  c.Finishes i → ∀ j, j ≠ i → ¬ HoldsContent a k (c.threads j)

/-- Messages for one aggregate, with the elements `es`, no two of which share a hash or a time, and
neither do they with a stored element that is not the same. -/
structure Batch (a : Address) (k : String) (es : ι → AggregateElement) (n : Node) : Prop where
  same : ∀ i, (es i).address = a ∧ (es i).key = k
  hashes : ∀ i j, (es i).itemHash = (es j).itemHash → i = j
  times : ∀ i j, (es i).time = (es j).time → i = j
  nodup : (n.aggregateElements.map AggregateElement.itemHash).Nodup
  storedHashes : ∀ x ∈ n.aggregateElements, ∀ i, x.itemHash = (es i).itemHash → x = es i
  storedTimes : ∀ x ∈ elementsOf a k n, ∀ i, x.time = (es i).time → x = es i

/-- Messages for one aggregate, with the elements `es`: a hash or a time says which element it is, among them and
among the stored ones. -/
structure Updates (a : Address) (k : String) (es : ι → AggregateElement) (n : Node) : Prop where
  same : ∀ i, (es i).address = a ∧ (es i).key = k
  hashes : ∀ i j, (es i).itemHash = (es j).itemHash → es i = es j
  times : ∀ i j, (es i).time = (es j).time → es i = es j
  nodup : (n.aggregateElements.map AggregateElement.itemHash).Nodup
  storedHashes : ∀ x ∈ n.aggregateElements, ∀ i, x.itemHash = (es i).itemHash → x = es i
  storedTimes : ∀ x ∈ elementsOf a k n, ∀ i, x.time = (es i).time → x = es i

omit [DecidableEq ι] in
theorem Batch.updates {es : ι → AggregateElement} {n : Node} (h : Batch a k es n) : Updates a k es n :=
  ⟨h.same, fun i j hij => congrArg es (h.hashes i j hij), fun i j hij => congrArg es (h.times i j hij), h.nodup,
    h.storedHashes, h.storedTimes⟩

/-- The calls are at the stages `stage`. -/
def AtStages (es : ι → AggregateElement) (stage : ι → Stage)
    (c : Config Node DbError (Except HandlerError Unit) ι) : Prop :=
  ∀ i, c.threads i = (stage i).prog (es i)

omit [DecidableEq ι] in
theorem holdsContent_of_holding {e : AggregateElement} (he : e.address = a ∧ e.key = k) {s : Stage}
    (h : s.Holding) : HoldsContent a k (s.prog e) := by
  obtain ⟨rfl, rfl⟩ := he
  obtain ⟨row, rfl⟩ | ⟨l, rfl⟩ := h
  · exact ⟨_, rfl⟩
  · exact ⟨_, rfl⟩

theorem AtStages.step {es : ι → AggregateElement} {stage : ι → Stage}
    {c : Config Node DbError (Except HandlerError Unit) ι} (h : AtStages es stage c) (i : ι) :
    AtStages es (Function.update stage i ((stage i).next (es i) c.store).1) (c.step i) ∧
      (c.step i).store = ((stage i).next (es i) c.store).2 := by
  have hnext := Stage.next_prog (es i) c.store (stage i)
  rw [← h i] at hnext
  refine ⟨fun j => ?_, by rw [Config.step_store, hnext]⟩
  by_cases hji : j = i
  · subst hji
    rw [Config.step_threads_self, hnext, Function.update_self]
  · rw [Config.step_threads_of_ne c hji, Function.update_of_ne hji]
    exact h j

/-- Everything the run has to keep. -/
def InProgress (a : Address) (k : String) (es : ι → AggregateElement)
    (c : Config Node DbError (Except HandlerError Unit) ι) : Prop :=
  ∃ stage, AtStages es stage c ∧ Sound a k es c.store stage

theorem InProgress.step {es : ι → AggregateElement} {n₀ : Node} (hb : Batch a k es n₀)
    {c : Config Node DbError (Except HandlerError Unit) ι} {i : ι} (h : InProgress a k es c)
    (hg : NoFinishBesideWriter a k c i) : InProgress a k es (c.step i) := by
  obtain ⟨stage, hat, hsound⟩ := h
  obtain ⟨hat', hstore⟩ := hat.step i
  refine ⟨_, hat', ?_⟩
  rw [hstore]
  refine hsound.step hb.same hb.updates.hashes hb.updates.times fun hi hnext j hji hhold => ?_
  refine hg ⟨?_, ?_⟩ j hji ?_
  · rw [hat i, Bool.eq_false_iff]
    exact fun hf => hi ((Stage.finished_prog (es i) _).1 hf)
  · rw [hat' i, Function.update_self, hnext]
    rfl
  · rw [hat j]
    exact holdsContent_of_holding (hb.same j) hhold

omit [DecidableEq ι] in
theorem process_run {m : Message} {ctx : HandlerContext} {e : AggregateElement}
    (h : element? ctx.env m = some e) : (process m ctx).run = (processElement e).run := by
  obtain ⟨c, hc, rfl⟩ := Option.map_eq_some_iff.1 h
  unfold process
  cases hp : parseContent ctx.env AggregateContent.decode (fun e => e) m with
  | error err =>
    rw [hp] at hc
    cases hc
  | ok c' =>
    rw [hp] at hc
    obtain rfl : c' = c := Option.some.inj hc
    rfl

omit [DecidableEq ι] in
/-- Before the first statement. -/
theorem Updates.sound {es : ι → AggregateElement} {n₀ : Node} (hb : Updates a k es n₀)
    (hn : Consistent a k n₀) : Sound a k es n₀ fun _ => .start where
  nodup := hb.nodup
  hashes := hb.storedHashes
  times := hb.storedTimes
  isStored i hi := absurd rfl hi
  noRow hnone x hx := by
    rw [hn.noRow hnone] at hx
    exact absurd hx List.not_mem_nil
  isRow i hi := absurd rfl hi
  clean row hrow hd := by
    have hnodup : (elementsOf a k n₀).Nodup := (List.Nodup.of_map _ hb.nodup).filter _
    exact ⟨_, ⟨hnodup, fun _ hx => hx, fun x hx hx' => absurd hx hx'⟩, hn.clean row hrow hd⟩
  merging i row hi := Stage.noConfusion hi
  writing i l hi := Stage.noConfusion hi

omit [DecidableEq ι] in
/-- After the last one. -/
theorem Sound.consistent {es : ι → AggregateElement} {n : Node} {stage : ι → Stage}
    (h : Sound a k es n stage) (hdone : ∀ i, stage i = .finished) : Consistent a k n where
  noRow hnone := by
    refine List.eq_nil_iff_forall_not_mem.2 fun x hx => ?_
    obtain ⟨i, hi, -⟩ := h.noRow hnone x hx
    rw [hdone i] at hi
    cases hi
  clean row hrow hd := by
    obtain ⟨l, hl, hrl⟩ := h.clean row hrow hd
    have hmem : ∀ x, x ∈ l ↔ x ∈ elementsOf a k n := by
      refine fun x => ⟨hl.subset x, fun hx => ?_⟩
      by_contra hxl
      obtain ⟨i, hi, -⟩ := hl.missing x hx hxl
      exact hi (hdone i)
    have hnodup : (elementsOf a k n).Nodup := (List.Nodup.of_map _ h.nodup).filter _
    have hperm : (elementsOf a k n).Perm l :=
      (List.perm_ext_iff_of_nodup hnodup hl.nodup).2 fun x => (hmem x).symm
    rw [rebuilt, chronoFold_perm hperm h.hashesDetermine.strict]
    exact hrl

/-- When all calls have finished, the aggregate is consistent: for every run from `n₀` whose steps meet
the guard. -/
def NoLostUpdate (guard : Config Node DbError (Except HandlerError Unit) ι → ι → Prop) (a : Address)
    (k : String) (threads : ι → Prog Node DbError (Except HandlerError Unit)) (n₀ : Node) : Prop :=
  ∀ c, Config.Runs guard ⟨n₀, threads⟩ c → (∀ i, (c.threads i).finished = true) → Consistent a k c.store

end Runs

/-! ### Three keys of a profile -/

section Keys

def keyText (x time : String) : String :=
  "\x7b\"address\":\"0x101d8D16372dBf5f1614adaE95Ee5CCE61998Fc9\",\"key\":\"profile\"," ++
    "\"content\":\x7b\"" ++ x ++ "\":1\x7d,\"time\":" ++ time ++ "\x7d"

def keyContent (x : String) (time : ℤ) : Json :=
  .obj [("address", .str "0x101d8D16372dBf5f1614adaE95Ee5CCE61998Fc9"), ("key", .str "profile"),
    ("content", .obj [(x, .num (.int 1))]), ("time", .num (.int time))]

def keyEnv : Env :=
  .ofTables [(keyText "a" "1000", keyContent "a" 1000), (keyText "b" "2000", keyContent "b" 2000),
    (keyText "c" "3000", keyContent "c" 3000)] [] []

/-- Each message sets another key of the profile. -/
def keyMessage : Fin 3 → Message
  | 0 => profileMessage "7faa2499ab90b63fe81a0ec6a8562a30b4454de3aaad71a9456de0144309a57a"
      (keyText "a" "1000") 1000
  | 1 => profileMessage "62798b06357cae904bc25c4d6a69be5c6c4fcffd7e68cc0de342d340069ebe0e"
      (keyText "b" "2000") 2000
  | 2 => profileMessage "9db6d3631becaa12c5591f7080b1f46d707f1c9ddb9f10a89730b833073530de"
      (keyText "c" "3000") 3000

def keyElement (i : Fin 3) : AggregateElement where
  address := profileOne.sender
  key := "profile"
  itemHash := (keyMessage i).itemHash
  content := (Json.obj [(["a", "b", "c"][i], .num (.int 1))]).toValue
  time := (keyMessage i).time

/-- The three calls, before their first statement. -/
def keyCalls : Config Node DbError (Except HandlerError Unit) (Fin 3) :=
  ⟨.empty, fun i => (process (keyMessage i) (.ofEnv keyEnv)).run⟩

example : (keyMessage 0).itemHash ≠ (keyMessage 1).itemHash := by decide +kernel

theorem element?_keyMessage : ∀ i, element? keyEnv (keyMessage i) = some (keyElement i) := by
  decide +kernel

theorem keyBatch : Batch profileOne.sender "profile" keyElement .empty where
  same := by decide +kernel
  hashes := by decide +kernel
  times := by decide +kernel
  nodup := List.nodup_nil
  storedHashes x hx := absurd hx List.not_mem_nil
  storedTimes x hx := absurd hx List.not_mem_nil

theorem consistent_empty (a : Address) (k : String) : Consistent a k .empty :=
  ⟨fun _ => rfl, fun _ h => by cases h⟩

/-- No other call finishes with its next statement. -/
def OthersFarFromEnd (c : Config Node DbError (Except HandlerError Unit) (Fin 3)) (i : Fin 3) : Prop :=
  ∀ j, j ≠ i → (c.threads j).finished = true ∨ ((c.threads j).next c.store).1.finished = false

instance (c : Config Node DbError (Except HandlerError Unit) (Fin 3)) (i : Fin 3) :
    Decidable (OthersFarFromEnd c i) :=
  inferInstanceAs (Decidable (∀ j, j ≠ i → _ ∨ _))

theorem OthersFarFromEnd.guard {c : Config Node DbError (Except HandlerError Unit) (Fin 3)} {i : Fin 3}
    (h : OthersFarFromEnd c i) (a : Address) (k : String) : NoFinishBesideWriter a k c i := by
  rintro - j hji ⟨s, hs⟩
  have hj := h j hji
  rw [hs] at hj
  rcases hj with hj | hj <;> exact Bool.noConfusion hj

end Keys

end AlephCore.AggregateHandler
