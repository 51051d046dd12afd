import AlephCore.Aggregates.Convergence
import AlephCore.Handlers.DelegationRule
import AlephCore.Handlers.ForgetSpec
import AlephCore.Jobs.BackfillSpec
import AlephCore.Web.Aggregates

/-!
# SecurityFold — what the permission check reads and what the elements say

The permission check reads the content of the owner's security aggregate as it stands, dirty or not.  That is the fold
of the stored elements as long as each new element is merged or folded in at once.  An element that comes to a dirty
row is not: the row goes on allowing what the elements have revoked.
-/

namespace AlephCore

open ProgE Prog AggregateHandler

/-! ## A row that is the fold -/

namespace AggregateHandler

/-- Dirty or not, the row of the aggregate is the fold of its elements; no two elements share a hash. -/
structure Current (a : Address) (k : String) (n : Node) : Prop where
  nodup : (n.aggregateElements.map AggregateElement.itemHash).Nodup
  noRow : n.aggregates.find? (a, k) = none → elementsOf a k n = []
  holds : ∀ row, n.aggregates.find? (a, k) = some row → RowHolds row (rebuilt (elementsOf a k n))

/-- What is done leaves the aggregate alone, and doubles no hash. -/
structure Beside (a : Address) (k : String) (n n' : Node) : Prop where
  nodup : (n.aggregateElements.map AggregateElement.itemHash).Nodup →
    (n'.aggregateElements.map AggregateElement.itemHash).Nodup
  row : n'.aggregates.find? (a, k) = n.aggregates.find? (a, k)
  elements : elementsOf a k n' = elementsOf a k n

theorem Beside.refl {a : Address} {k : String} (n : Node) : Beside a k n n := ⟨fun h => h, rfl, rfl⟩

instance {a : Address} {k : String} : IsPreorder Node (Beside a k) where
  refl := .refl
  trans _ _ _ h h' := ⟨fun hn => h'.nodup (h.nodup hn), h'.row.trans h.row, h'.elements.trans h.elements⟩

variable {a a' : Address} {k k' : String} {n n' : Node} {e : AggregateElement}

theorem Current.beside (h : Current a k n) (hbeside : Beside a k n n') : Current a k n' := by
  refine ⟨hbeside.nodup h.nodup, fun hrow => ?_, fun row hrow => ?_⟩
  · rw [hbeside.elements]
    exact h.noRow (hbeside.row ▸ hrow)
  · rw [hbeside.elements]
    exact h.holds row (hbeside.row ▸ hrow)

theorem Current.consistent (h : Current a k n) : Consistent a k n := ⟨h.noRow, fun row hrow _ => h.holds row hrow⟩

/-- Elements of one hash are the same. -/
theorem Current.eq_of_itemHash (h : Current a k n) {x y : AggregateElement} (hx : x ∈ n.aggregateElements)
    (hy : y ∈ n.aggregateElements) (hxy : x.itemHash = y.itemHash) : x = y :=
  List.inj_on_of_nodup_map h.nodup hx hy hxy

theorem Current.hashesDetermine (h : Current a k n) : HashesDetermine (elementsOf a k n) :=
  fun _ hx _ hy => h.eq_of_itemHash (mem_elementsOf.1 hx).1 (mem_elementsOf.1 hy).1

theorem nodup_storeElement (e : AggregateElement) (h : (n.aggregateElements.map AggregateElement.itemHash).Nodup) :
    ((storeElement e n).aggregateElements.map AggregateElement.itemHash).Nodup := by
  unfold storeElement
  split_ifs with hstored
  · exact h
  · rw [List.map_append, List.nodup_append]
    refine ⟨h, List.nodup_singleton _, fun x hx y hy hxy => hstored ?_⟩
    obtain ⟨x', hx', rfl⟩ := List.mem_map.1 hx
    obtain rfl := List.mem_singleton.1 hy
    exact ⟨x', hx', hxy⟩

/-! ### Other aggregates -/

theorem beside_storeElement (h : (a, k) ≠ (e.address, e.key)) (n : Node) : Beside a k n (storeElement e n) where
  nodup := nodup_storeElement e
  row := by rw [storeElement_aggregates]
  elements := elementsOf_storeElement_other h

theorem beside_writeAggregate {s : Value × ItemHash × Timestamp} (h : (a, k) ≠ (a', k')) (n : Node) :
    Beside a k n (writeAggregate a' k' s n) := ⟨fun hn => hn, find?_writeAggregate_other h, rfl⟩

theorem beside_rebuild (h : (a, k) ≠ (a', k')) : Moves (Beside a k) (rebuildAggregateFromElements a' k').run := by
  refine moves_bind (moves_mapErr (moves_query _)) fun elements => ?_
  split_ifs
  · exact moves_pure ()
  · exact moves_mapErr (moves_execute (beside_writeAggregate h))

theorem beside_mergeExisting {row : AggregateRow} (h : (a, k) ≠ (e.address, e.key)) :
    Moves (Beside a k) (mergeExisting e row).run := by
  unfold mergeExisting
  split_ifs
  · exact moves_pure ()
  · exact moves_mapErr (moves_execute (beside_writeAggregate h))
  · refine moves_bind (moves_mapErr (moves_query _)) fun count => ?_
    split_ifs
    · exact moves_mapErr (moves_execute fun n => ⟨fun hn => hn, find?_setDirty_other h, rfl⟩)
    · exact beside_rebuild h

/-- **An element of another aggregate** leaves the aggregate alone. -/
theorem beside_processElement (h : (a, k) ≠ (e.address, e.key)) : Moves (Beside a k) (processElement e).run := by
  refine moves_bind (moves_mapErr (moves_execute (beside_storeElement h))) fun _ => ?_
  refine moves_bind (moves_mapErr (moves_sql fun n => ⟨fun hn => hn, ?_, rfl⟩)) fun rowsAffected => ?_
  · have hkey : ¬ ((firstRow e).address, (firstRow e).key) = (a, k) := fun heq => h heq.symm
    exact (Table.find?_insertNew _ _ _).trans (by rw [if_neg hkey, Option.or_none])
  split_ifs
  · refine moves_bind (moves_mapErr (moves_query _)) fun row => ?_
    cases row with
    | none => exact moves_pure ()
    | some row => exact beside_mergeExisting h
  · exact moves_pure ()

/-! ### An element of the aggregate -/

/-- The element is merged or folded in at once: no other one has its time, and unless it is stored already, the row is
clean, and the element newer or the aggregate small. -/
structure MergedAtOnce (e : AggregateElement) (n : Node) : Prop where
  hash : ∀ x ∈ n.aggregateElements, x.itemHash = e.itemHash → x = e
  times : ∀ x ∈ elementsOf e.address e.key n, x.time = e.time → x = e
  row : e ∉ n.aggregateElements → ∀ row, n.aggregates.find? (e.address, e.key) = some row →
    row.dirty = false ∧ (row.time ≤ e.time ∨ (elementsOf e.address e.key n).length < dirtyThreshold)

theorem Current.of_clean (h : Consistent a k n) (hnodup : (n.aggregateElements.map AggregateElement.itemHash).Nodup)
    (hclean : ∀ row, n.aggregates.find? (a, k) = some row → row.dirty = false) : Current a k n :=
  ⟨hnodup, h.noRow, fun row hrow => h.clean row hrow (hclean row hrow)⟩

/-- A statement that marks the row dirty keeps what it says. -/
theorem current_setDirty (h : Current a k n) : Current a k (setDirty a k n) := by
  cases hrow : n.aggregates.find? (a, k) with
  | none =>
    have hkept : (setDirty a k n).aggregates.find? (a, k) = none := by
      rw [setDirty, Table.find?_update, hrow, Option.map_none]
    exact h.beside ⟨fun hn => hn, hkept.trans hrow.symm, rfl⟩
  | some row =>
    refine ⟨h.nodup, fun hnone => ?_, fun row' hrow' => ?_⟩
    · rw [find?_setDirty_self hrow] at hnone
      cases hnone
    · rw [find?_setDirty_self hrow] at hrow'
      obtain rfl := Option.some.inj hrow'
      exact h.holds row hrow

/-- A row that has been written is clean. -/
theorem clean_writeAggregate {s : Value × ItemHash × Timestamp} (row : AggregateRow)
    (h : (writeAggregate a k s n).aggregates.find? (a, k) = some row) : row.dirty = false := by
  rw [writeAggregate, Table.find?_update] at h
  obtain ⟨old, hold, rfl⟩ := Option.map_eq_some_iff.1 h
  rw [if_pos (Table.find?_eq_some.1 hold).2]

/-- **Rebuilding** makes the row the fold of the elements. -/
theorem current_rebuild {row : AggregateRow} (hnodup : (n.aggregateElements.map AggregateElement.itemHash).Nodup)
    (hrow : n.aggregates.find? (a, k) = some row) (hne : ¬ (elementsOf a k n).isEmpty) :
    Current a k (rebuild a k n) := by
  rw [rebuild, if_neg hne]
  exact .of_clean (consistent_of_write hrow rfl) hnodup clean_writeAggregate

theorem Current.rebuild (h : Current a k n) : Current a k (rebuild a k n) := by
  by_cases hempty : (elementsOf a k n).isEmpty
  · rw [AggregateHandler.rebuild, if_pos hempty]
    exact h
  · cases hrow : n.aggregates.find? (a, k) with
    | none => exact absurd (List.isEmpty_iff.2 (h.noRow hrow)) hempty
    | some row => exact current_rebuild h.nodup hrow hempty

/-- **An element that is merged at once** keeps the row current. -/
theorem Current.processed (h : Current e.address e.key n) (hm : MergedAtOnce e n) :
    Current e.address e.key (processed e n) := by
  have hcons := consistent_processed h.consistent hm.hash h.hashesDetermine hm.times
  have hnodup : ((AggregateHandler.processed e n).aggregateElements.map AggregateElement.itemHash).Nodup := by
    rw [processed_aggregateElements hm.hash, ← storeElement_aggregateElements hm.hash]
    exact nodup_storeElement e h.nodup
  by_cases hstored : e ∈ n.aggregateElements
  · -- nothing is stored, and whatever the row becomes is the fold of the same elements
    have hn : storeElement e n = n := if_pos ⟨e, hstored, rfl⟩
    cases hrow : n.aggregates.find? (e.address, e.key) with
    | none => exact absurd (h.noRow hrow ▸ mem_elementsOf.2 ⟨hstored, rfl, rfl⟩) List.not_mem_nil
    | some row =>
      have hrow' : (storeElement e n).aggregates.find? (e.address, e.key) = some row := by rw [hn, hrow]
      rw [processed_of_some hrow', hn] at hcons hnodup ⊢
      unfold merged at hcons hnodup ⊢
      split_ifs at hcons hnodup ⊢
      · exact h
      · exact .of_clean hcons hnodup clean_writeAggregate
      · exact current_setDirty h
      · exact h.rebuild
  · refine .of_clean hcons hnodup fun row' hrow' => ?_
    cases hrow : (storeElement e n).aggregates.find? (e.address, e.key) with
    | none =>
      rw [processed_of_none hrow, find?_insertFirst hrow] at hrow'
      obtain rfl := Option.some.inj hrow'
      rfl
    | some row =>
      obtain ⟨hclean, hsmall⟩ := hm.row hstored row (by rw [← storeElement_aggregates e, hrow])
      have hnew : e ∉ elementsOf e.address e.key n := fun he => hstored (mem_elementsOf.1 he).1
      have hel := elementsOf_storeElement_self hm.hash
      rw [withElement, if_neg hnew] at hel
      rw [processed_of_some hrow, merged, if_neg (by simp [hclean])] at hrow'
      split_ifs at hrow' with htime hlarge
      · exact clean_writeAggregate row' hrow'
      · have hle := hsmall.resolve_left htime
        rw [hel, List.length_append, List.length_singleton] at hlarge
        omega
      · rw [AggregateHandler.rebuild, if_neg (by simp [hel])] at hrow'
        exact clean_writeAggregate row' hrow'

/-! ### Readers -/

theorem reach_db {α : Type} {p : Db DbError α} (h : Reach (db p).run n n') : Reach p.run n n' := by
  rcases Prog.reach_bind.1 h with h | ⟨r, t, hexec, hpure⟩
  · exact h
  · rw [reach_pure.1 hpure]
    exact hexec.reach

theorem Current.reach_rebuild (h : Current a k n) (hreach : Reach (rebuildAggregateFromElements a' k').run n n') :
    Current a k n' := by
  rcases reach_bind.1 hreach with hread | ⟨elements, t, hexec, hwrite⟩
  · have hquery : Moves (Beside a k) (db (query (chronologicalElements a' k')) : Db HandlerError _).run :=
      moves_mapErr (moves_query _)
    exact h.beside (hquery.reach hread)
  · obtain ⟨rfl, rfl⟩ := exec_query_ok.1 (exec_db_ok.1 hexec)
    split_ifs at hwrite with hempty
    · rw [reach_pure.1 hwrite]
      exact h
    · rcases reach_sql.1 (reach_db hwrite) with rfl | rfl
      · exact h
      · by_cases hk : (a, k) = (a', k')
        · obtain ⟨rfl, rfl⟩ := Prod.mk.inj hk
          rw [isEmpty_chronologicalElements] at hempty
          have hrebuilt := h.rebuild
          rw [AggregateHandler.rebuild, if_neg hempty] at hrebuilt
          exact hrebuilt
        · exact h.beside (beside_writeAggregate hk _)

/-- **A reader** that rebuilds dirty aggregates keeps the row current, wherever it is cut off. -/
theorem Current.lazyRefresh {dirty : Node → List (Address × String)} (h : Current a k n)
    (hreach : Reach (Web.lazyRefresh dirty).run n n') : Current a k n' := by
  have hkeys : Moves (Beside a k) (db (Web.orDefault [] (query dirty)) : Db HandlerError _).run := by
    refine moves_mapErr (moves_bind (moves_attempt (moves_query _)) fun r => ?_)
    cases r with
    | ok keys => exact moves_pure keys
    | error e => exact moves_pure []
  rcases reach_bind.1 hreach with hread | ⟨keys, t, hexec, hrefresh⟩
  · exact h.beside (hkeys.reach hread)
  · have ht : Current a k t := h.beside (hkeys.exec hexec)
    clear hexec hreach h
    induction keys generalizing t with
    | nil =>
      rw [reach_pure.1 hrefresh]
      exact ht
    | cons p keys ih =>
      rcases reach_bind.1 hrefresh with hfirst | ⟨u, s, hexec, hrest⟩
      · rcases Prog.reach_bind.1 hfirst with hfirst | ⟨r, s, hexec, hpure⟩
        · exact ht.reach_rebuild hfirst
        · rw [reach_pure.1 hpure]
          exact ht.reach_rebuild hexec.reach
      · obtain ⟨r, hr⟩ := exec_ignore_ok.1 hexec
        exact ih s hrest (ht.reach_rebuild hr.reach)

end AggregateHandler

/-! ## Forgetting an element -/

namespace ForgetHandler

variable {a : Address} {k : String} {n n' : Node} {hash : ItemHash} {ctx : HandlerContext}

theorem beside_elementDeleted (h : ∀ x ∈ elementsOf a k n, x.itemHash ≠ hash) :
    Beside a k n (elementDeleted hash n) where
  nodup hn := hn.sublist (List.filter_sublist.map _)
  row := rfl
  elements := by
    rw [elementsOf, elementDeleted, List.filter_filter, elementsOf]
    refine List.filter_congr fun x hx => ?_
    by_cases hown : x.address = a ∧ x.key = k
    · simp [hown, h x (mem_elementsOf.2 ⟨hx, hown⟩)]
    · simp [hown]

/-- The elements of another aggregate are forgotten, or some of the statements are. -/
theorem current_forgetElement_other (h : Current a k n) (hother : ∀ x ∈ elementsOf a k n, x.itemHash ≠ hash)
    (hreach : Reach (forgetElement hash ctx).run n n') : Current a k n' := by
  rcases reach_bind.1 hreach with hread | ⟨aggregate, t, hexec, hrest⟩
  · have hquery : Moves (Beside a k) (db (elementAggregate ctx.order hash) : Db HandlerError _).run :=
      moves_mapErr (moves_query _)
    exact h.beside (hquery.reach hread)
  obtain ⟨hfound, rfl⟩ := exec_query_ok.1 (exec_db_ok.1 hexec)
  rcases reach_bind.1 hrest with hdelete | ⟨u, s, hdeleted, hlast⟩
  · rcases reach_sql.1 (reach_db hdelete) with rfl | rfl
    · exact h
    · exact h.beside (beside_elementDeleted hother)
  obtain rfl := exec_execute_ok.1 (exec_db_ok.1 hdeleted)
  have hcurrent : Current a k (elementDeleted hash t) := h.beside (beside_elementDeleted hother)
  cases aggregate with
  | none =>
    rw [reach_pure.1 hlast]
    exact hcurrent
  | some p =>
    obtain ⟨x, hx, hkey⟩ := Option.map_eq_some_iff.1 hfound.symm
    have hne : (a, k) ≠ (p.1, p.2) := by
      rintro heq
      obtain ⟨hxa, hxk⟩ := Prod.mk.inj (hkey.trans heq.symm)
      have hmem := ctx.order.mem_scan.1 (List.mem_of_find?_eq_some hx)
      exact hother x (mem_elementsOf.2 ⟨hmem, hxa, hxk⟩) (by simpa using List.find?_some hx)
    have hrefreshed : Moves (Beside a k) (do
        let remaining ← db (countElements p.1 p.2)
        if remaining = 0 then db (deleteAggregate p.1 p.2)
        else rebuildAggregateFromElements p.1 p.2 : Db HandlerError Unit).run := by
      refine moves_bind (moves_mapErr (moves_query _)) fun remaining => ?_
      split_ifs
      · refine moves_mapErr (moves_execute fun m => ⟨fun hn => hn, ?_, rfl⟩)
        rw [Table.find?_delete]
        cases hrow : m.aggregates.find? (a, k) with
        | none => rfl
        | some row =>
          have hkey : (row.address, row.key) = (a, k) := (Table.find?_eq_some.1 hrow).2
          simp [hkey, hne]
      · exact beside_rebuild hne
    exact hcurrent.beside (hrefreshed.reach hlast)

/-- **A forgotten element**: what is left is folded again. -/
theorem current_elementForgotten (h : Current a k n) : Current a k (elementForgotten hash ctx n) := by
  by_cases hother : ∀ x ∈ elementsOf a k n, x.itemHash ≠ hash
  · have hexec : Exec (forgetElement hash ctx).run n (.ok ()) (elementForgotten hash ctx n) :=
      exec_forgetElement_ok.2 rfl
    exact current_forgetElement_other h hother hexec.reach
  · push Not at hother
    obtain ⟨x, hx, hhash⟩ := hother
    obtain ⟨hmem, hkey⟩ := mem_elementsOf.1 hx
    have haggregate : aggregateOf ctx.order hash n = some (a, k) := by
      unfold aggregateOf
      cases hfind : (ctx.order.scan n.aggregateElements).find? fun e => decide (e.itemHash = hash) with
      | none => exact absurd hhash (by simpa using List.find?_eq_none.1 hfind x (ctx.order.mem_scan.2 hmem))
      | some y =>
        have hy := ctx.order.mem_scan.1 (List.mem_of_find?_eq_some hfind)
        obtain rfl := h.eq_of_itemHash hy hmem (Eq.trans (by simpa using List.find?_some hfind) hhash.symm)
        rw [Option.map_some, hkey.1, hkey.2]
    have hnodup : ((elementDeleted hash n).aggregateElements.map AggregateElement.itemHash).Nodup :=
      h.nodup.sublist (List.filter_sublist.map _)
    have hforgotten : elementForgotten hash ctx n = aggregateRefreshed a k (elementDeleted hash n) := by
      rw [elementForgotten, haggregate]
    rw [hforgotten, aggregateRefreshed]
    split_ifs with hzero
    · refine ⟨hnodup, fun _ => List.length_eq_zero_iff.1 hzero, fun row hrow => ?_⟩
      obtain ⟨hrow, hrowkey⟩ := Table.find?_eq_some.1 hrow
      exact absurd hrowkey (Table.mem_delete.1 hrow).2
    · cases hrow : n.aggregates.find? (a, k) with
      | none => exact absurd (h.noRow hrow ▸ hx) List.not_mem_nil
      | some row => exact current_rebuild hnodup hrow (by simpa using hzero)

end ForgetHandler

/-! ## The backfill -/

namespace Backfill

variable {a : Address} {k : String} {n : Node} {ctx : BackfillContext} {env : Env}

/-- Each message of the aggregate that could be backfilled has its element. -/
def NothingToAdd (env : Env) (a : Address) (k : String) (n : Node) : Prop :=
  ∀ r ∈ n.messages, r.messageType = .aggregate → ∀ e, elementOf env r = .ok (some e) → (a, k) = (e.address, e.key) →
    ∃ x ∈ n.aggregateElements, x.itemHash = e.itemHash

/-- The aggregate stays current, and complete. -/
def KeepsCurrent (env : Env) (a : Address) (k : String) (n n' : Node) : Prop :=
  Current a k n ∧ NothingToAdd env a k n → Current a k n' ∧ NothingToAdd env a k n'

instance : IsPreorder Node (KeepsCurrent env a k) where
  refl _ := fun h => h
  trans _ _ _ h h' := fun hn => h' (h hn)

theorem keepsCurrent_storeElement {e : AggregateElement} (h : (a, k) ≠ (e.address, e.key)) (n : Node) :
    KeepsCurrent env a k n (AggregateHandler.storeElement e n) := by
  rintro ⟨hcurrent, hnothing⟩
  refine ⟨hcurrent.beside (beside_storeElement h n), ?_⟩
  unfold AggregateHandler.storeElement
  split_ifs
  · exact hnothing
  · intro r hr htype e' he' hkey
    obtain ⟨x, hx, hhash⟩ := hnothing r hr htype e' he' hkey
    exact ⟨x, List.mem_append_left _ hx, hhash⟩

theorem keepsCurrent_storeElements {es : List AggregateElement} (h : ∀ e ∈ es, (a, k) ≠ (e.address, e.key)) (n : Node) :
    KeepsCurrent env a k n (es.foldl (fun n e => AggregateHandler.storeElement e n) n) := by
  induction es generalizing n with
  | nil => exact fun hn => hn
  | cons e es ih =>
    have hfirst : KeepsCurrent env a k n (AggregateHandler.storeElement e n) :=
      keepsCurrent_storeElement (h e List.mem_cons_self) n
    exact fun hn => ih (fun e' he' => h e' (List.mem_cons_of_mem _ he')) _ (hfirst hn)

/-- The elements of a batch are those of other aggregates. -/
theorem keepsCurrent_insertElements (lastTime : Timestamp) :
    Moves (KeepsCurrent ctx.env a k) (insertElements ctx lastTime).run := by
  refine moves_insertRows fun n es hes hn => keepsCurrent_storeElements (fun e he hown => ?_) n hn
  cases hrows : (rawBatch ctx .aggregate (n.aggregateElements.map AggregateElement.itemHash) lastTime n).mapM
      (elementOf ctx.env) with
  | error e =>
    rw [hrows] at hes
    cases hes
  | ok rows =>
    rw [hrows] at hes
    obtain rfl := Except.ok.inj hes
    obtain ⟨o, ho, rfl⟩ := List.mem_filterMap.1 he
    obtain ⟨r, hr, helement⟩ := ((Serde.mem_of_mapM hrows).2 _).1 ho
    obtain ⟨hr, hmissing, -⟩ := mem_sortedAfter.1 (List.mem_of_mem_take hr)
    obtain ⟨x, hx, hhash⟩ := hn.2 r hr hmissing.1 e helement hown
    exact hmissing.2.2 (List.mem_map.2 ⟨x, hx, hhash.trans (itemHash_of_elementOf helement)⟩)

/-- Rows that are there are marked dirty. -/
theorem find?_foldl_marked {rs : List AggregateRow} {t : Table AggregateRow fun r => (r.address, r.key)}
    {p : Address × String} (h : ∀ r ∈ rs, (r.address, r.key) = p → t.find? p ≠ none) :
    (rs.foldl (fun t r => t.upsert r (fun old => { old with dirty := true }) marked_key) t).find? p = t.find? p ∨
      ∃ row, t.find? p = some row ∧
        (rs.foldl (fun t r => t.upsert r (fun old => { old with dirty := true }) marked_key) t).find? p =
          some { row with dirty := true } := by
  induction rs generalizing t with
  | nil => exact .inl rfl
  | cons r rs ih =>
    have hfind := Table.find?_upsert t r (fun old => { old with dirty := true }) marked_key p
    have hrs : ∀ r' ∈ rs, (r'.address, r'.key) = p → t.find? p ≠ none :=
      fun r' hr' => h r' (List.mem_cons_of_mem _ hr')
    by_cases hk : (r.address, r.key) = p
    · obtain ⟨row, hrow⟩ := Option.ne_none_iff_exists'.1 (h r List.mem_cons_self hk)
      rw [if_pos hk, hrow] at hfind
      refine .inr ⟨row, hrow, ?_⟩
      rcases ih (fun r' hr' hk' => hfind ▸ Option.some_ne_none _) with hsame | ⟨row', hrow', hmarked⟩
      · exact hsame.trans hfind
      · obtain rfl := Option.some.inj (hfind.symm.trans hrow')
        exact hmarked
    · rw [if_neg hk] at hfind
      have hnext := ih (t := t.upsert r (fun old => { old with dirty := true }) marked_key)
        fun r' hr' hk' => hfind ▸ hrs r' hr' hk'
      rw [hfind] at hnext
      exact hnext

theorem key_of_placeholder {key : Address × String} {r : AggregateRow} (h : placeholder ctx n key = some r) :
    (r.address, r.key) = key := by
  simp only [placeholder] at h
  split at h
  · obtain rfl := Option.some.inj h
    rfl
  · cases h

theorem keepsCurrent_markAggregates : Moves (KeepsCurrent ctx.env a k) (markAggregates ctx).run := by
  refine moves_execute fun n hn => ⟨?_, hn.2⟩
  obtain ⟨h, -⟩ := hn
  have hexists : ∀ r ∈ (n.aggregateElements.map fun e => (e.address, e.key)).dedup.filterMap (placeholder ctx n),
      (r.address, r.key) = (a, k) → n.aggregates.find? (a, k) ≠ none := by
    intro r hr hkey hnone
    obtain ⟨key, hmem, hplaceholder⟩ := List.mem_filterMap.1 hr
    obtain ⟨e, he, rfl⟩ := List.mem_map.1 (List.mem_dedup.1 hmem)
    obtain ⟨ha, hk⟩ := Prod.mk.inj ((key_of_placeholder hplaceholder).symm.trans hkey)
    exact absurd (h.noRow hnone ▸ mem_elementsOf.2 ⟨he, ha, hk⟩) List.not_mem_nil
  rcases find?_foldl_marked hexists with hsame | ⟨row, hrow, hmarked⟩
  · exact h.beside ⟨fun hn => hn, hsame, rfl⟩
  · refine ⟨h.nodup, fun hnone => ?_, fun row' hrow' => ?_⟩
    · cases hmarked.symm.trans hnone
    · obtain rfl := Option.some.inj (hmarked.symm.trans hrow')
      exact h.holds row hrow

/-- **The backfill** adds no element to the aggregate and only marks its row. -/
theorem keepsCurrent_backfillAggregates : Moves (KeepsCurrent ctx.env a k) (backfillAggregates ctx).run := by
  have hindex : Moves (KeepsCurrent ctx.env a k) createUniqueIndex.run := by
    refine moves_sql fun n => ?_
    split_ifs
    · exact fun hn => hn
    · exact fun hn => hn
  refine moves_bind hindex fun _ => moves_bind (moves_batches keepsCurrent_insertElements _ _) fun _ => ?_
  exact moves_ignore keepsCurrent_markAggregates

end Backfill

/-! ## Runs -/

namespace Permissions

/-- An entry of the fold of the stored elements lets the sender send the message. -/
def FoldAuthorizes (env : Env) (n : Node) (sender owner : Address) (message : Message) : Prop :=
  ∃ authorizations, decodeAuthorizations (rebuilt (elementsOf owner "security" n)).1.json = .ok authorizations ∧
    ∃ auth ∈ authorizations, auth.matches env sender message = true

/-- Whom the check lets send for the owner, the stored elements let send. -/
def UsesAllElements (env : Env) (owner : Address) (n : Node) : Prop :=
  ∀ sender message, ¬ env.SameAddress sender owner → Answers env n sender owner message true →
    FoldAuthorizes env n sender owner message

/-- A call that writes to aggregates or their elements. -/
inductive Call where
  | process (message : Message) (ctx : HandlerContext)
  /-- The part of a FORGET that is about aggregates. -/
  | forget (hash : ItemHash) (ctx : HandlerContext)
  | backfill (ctx : Backfill.BackfillContext)
  | refresh (order : SqlOrder) (reader : Web.AggregateReader)

def Call.program : Call → Db HandlerError Unit
  | process message ctx => AggregateHandler.process message ctx
  | forget hash ctx => ForgetHandler.forgetElement hash ctx
  | backfill ctx => db (Backfill.backfillAggregates ctx)
  | refresh order reader => reader.refresh order

/-- What happens in a step. -/
inductive Event where
  | completes (call : Call)
  /-- The call is cut off, or statements of it are refused. -/
  | stops (call : Call)
  | elsewhere

inductive Step (n : Node) : Event → Node → Prop
  | completes (call : Call) {n' : Node} (h : Exec call.program.run n (.ok ()) n') : Step n (.completes call) n'
  | stops (call : Call) {n' : Node} (h : Reach call.program.run n n') : Step n (.stops call) n'
  /-- Anything that does not write to these two tables. -/
  | elsewhere {n' : Node} (haggregates : n'.aggregates = n.aggregates)
      (helements : n'.aggregateElements = n.aggregateElements) : Step n .elsewhere n'

/-- What is asked of a step, in the state before it: an element of the owner's security aggregate is merged at once, a
call that works on these elements runs to its end, and the backfill finds none that is missing. -/
def Careful (owner : Address) (n : Node) : Event → Prop
  | .completes (.process message ctx) => ∀ e, element? ctx.env message = some e →
      (owner, "security") = (e.address, e.key) → MergedAtOnce e n
  | .stops (.process message ctx) => ∀ e, element? ctx.env message = some e → (owner, "security") ≠ (e.address, e.key)
  | .stops (.forget hash _) => ∀ x ∈ elementsOf owner "security" n, x.itemHash ≠ hash
  | .completes (.backfill ctx) => Backfill.NothingToAdd ctx.env owner "security" n
  | .stops (.backfill ctx) => Backfill.NothingToAdd ctx.env owner "security" n
  | _ => True

variable {env : Env} {owner : Address} {n n' : Node} {event : Event}

/-- If the row is the fold, the check reads the fold. -/
theorem usesAllElements_of_current (h : Current owner "security" n) : UsesAllElements env owner n := by
  rintro sender message hother ⟨n', hexec⟩
  obtain ⟨-, hverdict⟩ := exec_checkDelegatedAuthorization_ok.1 hexec
  rw [delegatedVerdict, if_neg hother] at hverdict
  cases hrow : n.aggregates.find? (owner, "security") with
  | none =>
    rw [hrow] at hverdict
    cases hverdict
  | some row =>
    rw [hrow, securityVerdict] at hverdict
    cases hdecode : decodeAuthorizations row.content.json with
    | error e =>
      rw [hdecode] at hverdict
      cases hverdict
    | ok authorizations =>
      rw [hdecode] at hverdict
      rw [(h.holds row hrow).1] at hdecode
      exact ⟨authorizations, hdecode, List.any_eq_true.1 (Except.ok.inj hverdict)⟩

/-- **A careful step** keeps the row the fold of the elements. -/
theorem current_step (h : Current owner "security" n) (hstep : Step n event n') (hcareful : Careful owner n event) :
    Current owner "security" n' := by
  cases hstep with
  | completes call hexec =>
    cases call with
    | process message ctx =>
      obtain ⟨e, he, rfl⟩ := exec_process_ok.1 hexec
      by_cases hown : (owner, "security") = (e.address, e.key)
      · have hmerged := hcareful e he hown
        obtain ⟨rfl, hkey⟩ := Prod.mk.inj hown
        rw [hkey] at h ⊢
        exact h.processed hmerged
      · have hprocessed : Exec (processElement e).run n (.ok ()) (processed e n) := exec_processElement_ok.2 rfl
        exact h.beside ((beside_processElement hown).exec hprocessed)
    | forget hash ctx =>
      rw [ForgetHandler.exec_forgetElement_ok.1 hexec]
      exact ForgetHandler.current_elementForgotten h
    | backfill ctx => exact (Backfill.keepsCurrent_backfillAggregates.reach (reach_db hexec.reach) ⟨h, hcareful⟩).1
    | refresh order reader =>
      have hreach := hexec.reach
      rw [Call.program, Web.AggregateReader.refresh_eq] at hreach
      exact h.lazyRefresh hreach
  | stops call hreach =>
    cases call with
    | process message ctx =>
      have hbeside : Moves (Beside owner "security") (AggregateHandler.process message ctx).run := by
        unfold AggregateHandler.process
        cases hparse : parseContent ctx.env AggregateContent.decode (fun e => e) message with
        | error e => exact trivial
        | ok content =>
          refine beside_processElement (hcareful (elementOf message content) ?_)
          rw [element?, hparse]
          rfl
      exact h.beside (hbeside.reach hreach)
    | forget hash ctx => exact ForgetHandler.current_forgetElement_other h hcareful hreach
    | backfill ctx => exact (Backfill.keepsCurrent_backfillAggregates.reach (reach_db hreach) ⟨h, hcareful⟩).1
    | refresh order reader =>
      rw [Call.program, Web.AggregateReader.refresh_eq] at hreach
      exact h.lazyRefresh hreach
  | elsewhere haggregates helements =>
    exact h.beside ⟨fun hn => helements ▸ hn, by rw [haggregates], by rw [elementsOf, helements, elementsOf]⟩

theorem step_processed {message : Message} {ctx : HandlerContext} {e : AggregateElement}
    (h : element? ctx.env message = some e) : Step n (.completes (.process message ctx)) (processed e n) :=
  .completes _ (exec_process_ok.2 ⟨e, h, rfl⟩)

section Revoked

open PostHandler

/-- The note's owner says who else may send. -/
def securityText (authorizations time : String) : String :=
  "\x7b\"address\":\"" ++ noteOwner ++ "\",\"key\":\"security\",\"content\":\x7b\"authorizations\":[" ++
    authorizations ++ "]\x7d,\"time\":" ++ time ++ "\x7d"

def securityJson (authorizations : List Json) (time : ℤ) : Json :=
  .obj [("address", .str noteOwner), ("key", .str "security"),
    ("content", .obj [("authorizations", .arr authorizations)]), ("time", .num (.int time))]

def securityMessage (itemHash : ItemHash) (text : String) (time : Timestamp) : Message where
  messageType := .aggregate
  chain := .eth
  sender := noteOwner
  signature := ""
  itemType := .inline
  itemHash := itemHash
  itemContent := some text
  channel := none
  time := time

def grantText : String := securityText ("\x7b\"address\":\"" ++ noteDelegate ++ "\"\x7d") "1700000000"

/-- The delegate may send. -/
def grant : Message :=
  securityMessage "a0fbeec30e13ba699b1c6c1ca0988fe2616dd24132478b65c6ada3a8f9eaf05c" grantText 1700000000

/-- Ten minutes later nobody may. -/
def revocation : Message :=
  securityMessage "396fe685a0ce7c936f773aac55b836463355d80773a4cd0ad2aebabfa10bfef4" (securityText "" "1700000600")
    1700000600

def securityCtx : HandlerContext := .ofEnv (.ofTables
  [(grantText, securityJson [.obj [("address", .str noteDelegate)]] 1700000000),
    (securityText "" "1700000600", securityJson [] 1700000600)] [] [])

def grantElement : AggregateElement where
  address := noteOwner
  key := "security"
  itemHash := grant.itemHash
  content := (Json.obj [("authorizations", .arr [.obj [("address", .str noteDelegate)]])]).toValue
  time := 1700000000

def revocationElement : AggregateElement where
  address := noteOwner
  key := "security"
  itemHash := revocation.itemHash
  content := (Json.obj [("authorizations", .arr [])]).toValue
  time := 1700000600

theorem element?_grant : element? securityCtx.env grant = some grantElement := by decide +kernel

theorem element?_revocation : element? securityCtx.env revocation = some revocationElement := by decide +kernel

/-- The delegate has been allowed to send. -/
def granted : Node := processed grantElement .empty

def securityBackfill : Call := .backfill ⟨securityCtx.env, .stored, 1⟩

/-- The node has been started again, and the backfill has marked the row. -/
def restarted : Node := (securityBackfill.program.run.run granted).2

/-- The permission has been revoked. -/
def revoked : Node := processed revocationElement restarted

theorem delegate_ne : ¬ securityCtx.env.SameAddress noteDelegate noteOwner := by decide +kernel

/-- Where the row allows the delegate to send, the check does. -/
theorem answers_of_content
    (h : (n.aggregates.find? (noteOwner, "security")).map AggregateRow.content = some grantElement.content) :
    Answers securityCtx.env n noteDelegate noteOwner noteMessage true := by
  obtain ⟨row, hrow, hcontent⟩ := Option.map_eq_some_iff.1 h
  obtain ⟨hmem, hkey⟩ := Table.find?_eq_some.1 hrow
  have hdecode : decodeAuthorizations grantElement.content.json = .ok [⟨noteDelegate, none, [], [], [], []⟩] := by
    decide +kernel
  have hmatches : (⟨noteDelegate, none, [], [], [], []⟩ : SecurityAuthorization).matches securityCtx.env noteDelegate
      noteMessage = true := by
    rw [matches_iff]
    refine ⟨⟨rfl, ?_, ?_, ?_⟩, ?_, ?_⟩ <;> simp
  refine (answers_iff ⟨row, hmem, hkey, hcontent ▸ hdecode⟩ true).2 ⟨fun _ => .inr ⟨_, ?_, hmatches⟩, fun _ => rfl⟩
  exact List.mem_singleton_self _

end Revoked

end Permissions

end AlephCore
