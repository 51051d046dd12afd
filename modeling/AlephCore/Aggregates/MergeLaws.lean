import AlephCore.Aggregates.Spec

/-!
# MergeLaws — what a merge keeps and what it overwrites

`Value.deepMerge` is the `deep_merge` of the aggregate handler.  Merging an update once more changes
nothing, and merging onto the empty object gives the update: a redelivered element and the first
element of a rebuild are harmless.  Key by key the later element wins: what it sets to anything but
an object is there afterwards, and what it leaves out is as it was before.
-/

namespace Value

/-- The tree reached in a value by following the keys of a path through objects. -/
def follow (p : List String) (v : Value) : Option Json := v.json.follow p

/-- Following the path in a value meets objects only, and one of them lacks the next key. -/
def lacks (p : List String) (v : Value) : Bool := v.json.lacks p

theorem follow_deepMerge_of_update {p : List String} {b u : Value} {x : Json}
    (h : u.follow p = some x) (hx : ∀ fs, x ≠ .obj fs) : (b.deepMerge u).follow p = some x :=
  Json.follow_deepMerge_of_update b.canonical u.canonical h hx

theorem follow_deepMerge_of_base {p : List String} {b u : Value} {y : Json}
    (h : b.follow p = some y) (hl : u.lacks p) : (b.deepMerge u).follow p = some y :=
  Json.follow_deepMerge_of_base b.canonical u.canonical h hl

end Value

namespace AlephCore.AggregateHandler

/-- **Merging is idempotent in the update and neutral in the empty object; along every key path the
update's non-objects win, and what the update leaves out stays.** -/
theorem merge_laws (b u : Value) :
    (b.deepMerge u).deepMerge u = b.deepMerge u ∧ Value.emptyObject.deepMerge u = u ∧
      ∀ p : List String,
        (∀ x, u.follow p = some x → (∀ fs, x ≠ .obj fs) → (b.deepMerge u).follow p = some x) ∧
        (∀ y, b.follow p = some y → u.lacks p → (b.deepMerge u).follow p = some y) := by
  refine ⟨Value.deepMerge_idem b u, Value.emptyObject_deepMerge u, fun p => ⟨?_, ?_⟩⟩
  · intro x hx hobj
    exact Value.follow_deepMerge_of_update hx hobj
  · intro y hy hl
    exact Value.follow_deepMerge_of_base hy hl

/-- A stored aggregate `{"a": {"x": 1}}`. -/
def storedProfile : Value :=
  ⟨.obj [("a", .obj [("x", .num (.int 1))])], by
    simp [Json.Canonical, Json.CanonicalFields, Assoc.Sorted]⟩

/-- An update `{"a": {"y": null}}`. -/
def profileUpdate : Value :=
  ⟨.obj [("a", .obj [("y", .null)])], by
    simp [Json.Canonical, Json.CanonicalFields, Assoc.Sorted]⟩

/-- The update's `null` arrives, and the field beside it stays. -/
theorem profile_merged :
    (storedProfile.deepMerge profileUpdate).follow ["a", "y"] = some .null ∧
      (storedProfile.deepMerge profileUpdate).follow ["a", "x"] = some (.num (.int 1)) := by
  have h := (merge_laws storedProfile profileUpdate).2.2
  exact ⟨(h ["a", "y"]).1 _ rfl (by simp), (h ["a", "x"]).2 _ rfl rfl⟩

theorem follow_foldl_mergeElement {p : List String} {y : Json} {l : List AggregateElement}
    (hl : ∀ e ∈ l, e.content.lacks p) {s : Value × ItemHash × Timestamp}
    (h : s.1.follow p = some y) : (l.foldl mergeElement s).1.follow p = some y := by
  induction l generalizing s with
  | nil => exact h
  | cons e l ih =>
    refine ih (fun e' he' => hl e' (List.mem_cons_of_mem _ he')) ?_
    exact Value.follow_deepMerge_of_base h (hl e List.mem_cons_self)

/-- **The last writer of a path wins**: the rebuild has what the last element that touches the path
set there. -/
theorem mergeElements_lastWriter {p : List String} {x : Json} {e : AggregateElement}
    (earlier : List AggregateElement) {later : List AggregateElement}
    (he : e.content.follow p = some x) (hx : ∀ fs, x ≠ .obj fs)
    (hlater : ∀ e' ∈ later, e'.content.lacks p) :
    (mergeElements (earlier ++ e :: later)).1.follow p = some x := by
  rw [mergeElements, List.foldl_append, List.foldl_cons]
  exact follow_foldl_mergeElement hlater (Value.follow_deepMerge_of_update he hx)

end AlephCore.AggregateHandler
