import AlephCore.Db.QueryBuilder

/-!
# QueryText — the placeholders of a built query, and what its text depends on

As long as the index of the next parameter fits its type, the text of a query has the placeholders from `$1` to the
number of its arguments, in that order.  The text is the same whatever values are bound; it depends on which methods
are called, and on the names, directions and list lengths they are given.
-/

namespace AlephCore

open Placeholders

/-! ## What a call is given -/

namespace Call

variable {τ : Type}

/-- The columns and paths. -/
def names : Call τ → List String
  | andEq column _ => [column]
  | andIn column _ => [column]
  | andIlike column _ => [column]
  | andGte column _ => [column]
  | andLte column _ => [column]
  | andLt column _ => [column]
  | andCursorKeyset colA _ colB _ _ => [colA, colB]
  | andJsonbHasAny column jsonPath _ => [column, jsonPath]
  | andJsonbTextEq column jsonPath _ => [column, jsonPath]
  | andJsonbTextIn column jsonPath _ => [column, jsonPath]
  | andJsonbArrayContains column jsonPath _ => [column, jsonPath]
  | orderBy column _ => [column]
  | _ => []

/-- The clause is given as it is. -/
def isRaw : Call τ → Bool
  | andRaw _ => true
  | orderByRaw _ => true
  | _ => false

/-- The values, in the order in which they are bound. -/
def arguments : Call τ → List (Argument τ)
  | andEq _ value => [.value value]
  | andIn _ values => values.map .value
  | andIlike _ pattern => [.text pattern]
  | andGte _ value => [.value value]
  | andLte _ value => [.value value]
  | andLt _ value => [.value value]
  | andCursorKeyset _ valA _ valB _ => [.float8 valA, .float8 valA, .text valB]
  | andJsonbHasAny _ _ values => values.map .text
  | andJsonbTextEq _ _ value => [.text value]
  | andJsonbTextIn _ _ values => values.map .text
  | andJsonbArrayContains _ _ value => [.text value]
  | limit n => [.int8 n]
  | offset n => [.int8 n]
  | _ => []

/-- The call without its values: the method, the names, the direction and the length of a list are left. -/
def erase : Call τ → Call Unit
  | andEq column _ => andEq column ()
  | andIn column values => andIn column (values.map fun _ => ())
  | andIlike column _ => andIlike column ""
  | andGte column _ => andGte column ()
  | andLte column _ => andLte column ()
  | andLt column _ => andLt column ()
  | andCursorKeyset colA _ colB _ ascending => andCursorKeyset colA 0 colB "" ascending
  | andJsonbHasAny column jsonPath values => andJsonbHasAny column jsonPath (values.map fun _ => "")
  | andJsonbTextEq column jsonPath _ => andJsonbTextEq column jsonPath ""
  | andJsonbTextIn column jsonPath values => andJsonbTextIn column jsonPath (values.map fun _ => "")
  | andJsonbArrayContains column jsonPath _ => andJsonbArrayContains column jsonPath ""
  | andRaw clause => andRaw clause
  | orderBy column ascending => orderBy column ascending
  | orderByRaw clause => orderByRaw clause
  | limit _ => limit 0
  | offset _ => offset 0

/-- The name of the method. -/
def method : Call τ → String
  | andEq _ _ => "and_eq"
  | andIn _ _ => "and_in"
  | andIlike _ _ => "and_ilike"
  | andGte _ _ => "and_gte"
  | andLte _ _ => "and_lte"
  | andLt _ _ => "and_lt"
  | andCursorKeyset _ _ _ _ _ => "and_cursor_keyset"
  | andJsonbHasAny _ _ _ => "and_jsonb_has_any"
  | andJsonbTextEq _ _ _ => "and_jsonb_text_eq"
  | andJsonbTextIn _ _ _ => "and_jsonb_text_in"
  | andJsonbArrayContains _ _ _ => "and_jsonb_array_contains"
  | andRaw _ => "and_raw"
  | orderBy _ _ => "order_by"
  | orderByRaw _ => "order_by_raw"
  | limit _ => "limit"
  | offset _ => "offset"

/-- The method, the columns and paths, and the length of a list; the direction is left out. -/
def outline (c : Call τ) : String × List String × Nat := (c.method, c.names, c.arguments.length)

end Call

namespace QueryBuilder

variable {τ : Type} {u : Unicode} {b b' : QueryBuilder τ}

/-! ## Adding arguments -/

theorem addAll_eq (as : List (Argument τ)) : b.addAll as =
    { b with args := b.args ++ as, paramIndex := b.paramIndex + Int32.ofNat as.length } := by
  unfold addAll
  induction as generalizing b with
  | nil =>
    have hzero : b.paramIndex + Int32.ofNat 0 = b.paramIndex := Int32.add_zero b.paramIndex
    rw [List.foldl_nil, List.append_nil, List.length_nil, hzero]
  | cons a as ih =>
    have hindex : b.paramIndex + 1 + Int32.ofNat as.length = b.paramIndex + Int32.ofNat (a :: as).length := by
      rw [List.length_cons, Nat.add_comm, Int32.ofNat_add, ← Int32.add_assoc]
      rfl
    rw [List.foldl_cons, ih, add]
    simp only [hindex, List.append_assoc, List.singleton_append]

theorem add_eq (a : Argument τ) : b.add a = b.addAll [a] := rfl

/-! ## The placeholders of a clause -/

/-- What is read of the placeholder with an index. -/
def label (i : Nat) : List Char := (toString (Int32.ofNat i).toInt).toList.takeWhile Char.isDigit

theorem dollar_not_mem_repr (n : Nat) : '$' ∉ (Nat.repr n).toList := by
  intro h
  rw [Nat.toList_repr] at h
  have hdigit := Nat.isDigit_of_mem_toDigits (by omega) (by omega) h
  exact absurd hdigit (by decide)

theorem dollar_not_mem_toString (i : Int) : '$' ∉ (toString i).toList := by
  rw [Int.toString_eq_repr]
  cases i with
  | ofNat n => exact dollar_not_mem_repr n
  | negSucc n =>
    show '$' ∉ ("-" ++ Nat.repr n.succ).toList
    rw [String.toList_append, List.mem_append]
    rintro (h | h)
    · exact absurd h (by decide)
    · exact dollar_not_mem_repr n.succ h

theorem adds_placeholder (i : Nat) : Adds label (placeholder (Int32.ofNat i)).toList i 1 := by
  have hlist : (placeholder (Int32.ofNat i)).toList = '$' :: (toString (Int32.ofNat i).toInt).toList := by
    rw [placeholder, String.toList_append]
    rfl
  rw [hlist]
  exact .one rfl (dollar_not_mem_toString _)

theorem adds_code_placeholder {s : String} (hplain : Plain s.toList) (hfree : '$' ∉ s.toList) (m : Nat) :
    Adds label (s ++ placeholder (Int32.ofNat m)).toList m 1 := by
  rw [String.toList_append]
  exact .code_append hplain hfree (adds_placeholder m)

theorem adds_placeholderList {m : Nat} (hindex : b.paramIndex = Int32.ofNat m) (n : Nat) :
    Adds label (b.placeholderList n).toList m n := by
  have hlist : (b.placeholderList n).toList =
      ", ".toList.intercalate ((List.range' m n).map fun i => (placeholder (Int32.ofNat i)).toList) := by
    rw [placeholderList, String.toList_intercalate, List.map_map, List.range'_eq_map_range, List.map_map]
    refine congrArg _ (List.map_congr_left fun i _ => ?_)
    simp only [Function.comp_apply, hindex, Int32.ofNat_add]
  rw [hlist]
  exact .intercalate (by simp [Plain]) (by decide) adds_placeholder

/-! ## What a call appends -/

/-- A clause is appended that has a placeholder for each of the arguments that are added. -/
def Extends (b b' : QueryBuilder τ) (as : List (Argument τ)) : Prop :=
  ∃ clause, b'.query = b.query ++ clause ∧ b'.args = b.args ++ as ∧
    b'.paramIndex = b.paramIndex + Int32.ofNat as.length ∧
    ∀ m, b.paramIndex = Int32.ofNat m → Adds label clause.toList m as.length

theorem extends_push (as : List (Argument τ)) {clause : String}
    (h : ∀ m, b.paramIndex = Int32.ofNat m → Adds label clause.toList m as.length) :
    Extends b ((b.push clause).addAll as) as ∧ Extends b ((b.pushQuery clause).addAll as) as := by
  rw [addAll_eq, addAll_eq]
  exact ⟨⟨clause, rfl, rfl, rfl, h⟩, ⟨clause, rfl, rfl, rfl, h⟩⟩

theorem extends_nothing (b : QueryBuilder τ) : Extends b b [] := by
  have hzero : b.paramIndex = b.paramIndex + Int32.ofNat 0 := (Int32.add_zero b.paramIndex).symm
  exact ⟨"", (String.append_empty).symm, (List.append_nil _).symm, hzero, fun m _ =>
    .code (fun c hc => absurd hc (Option.not_mem_none c)) List.not_mem_nil⟩

section Clauses

variable {column colA colB op jsonPath nested simple : String} {a : Argument τ} {n : Nat}

theorem andCompare_extends (hop : '$' ∉ op.toList) (hcolumn : '$' ∉ column.toList) :
    Extends b (andCompare op column a b) [a] := by
  refine (extends_push [a] fun m hm => ?_).1
  rw [hm]
  exact adds_code_placeholder (by simp [Plain]) (by simp [hop, hcolumn]) m

theorem andIn_extends {values : List τ} (hcolumn : '$' ∉ column.toList) :
    Extends b (andIn column values b) (values.map .value) := by
  unfold andIn
  split_ifs with hempty
  · rw [hempty]
    exact extends_nothing b
  · refine (extends_push _ fun m hm => ?_).1
    rw [String.toList_append, String.toList_append, List.length_map]
    refine .append_code (.code_append ?_ ?_ (adds_placeholderList hm values.length)) (by simp [Plain]) (by decide)
    · simp [Plain]
    · simp [hcolumn]

theorem andCursorKeyset_extends {valA : Timestamp} {valB : String} {ascending : Bool} (hcolA : '$' ∉ colA.toList)
    (hcolB : '$' ∉ colB.toList) :
    Extends b (andCursorKeyset colA valA colB valB ascending b) [.float8 valA, .float8 valA, .text valB] := by
  refine (extends_push [.float8 valA, .float8 valA, .text valB] fun m hm => ?_).2
  have hone : b.paramIndex + 1 = Int32.ofNat (m + 1) := by
    rw [hm, Int32.ofNat_add]
    rfl
  have htwo : b.paramIndex + 2 = Int32.ofNat (m + 1 + 1) := by
    rw [hm, Nat.add_assoc, Int32.ofNat_add]
    rfl
  have hdirection : '$' ∉ (if ascending then ">" else "<" : String).toList := by
    split_ifs <;> decide
  rw [hone, htwo, hm]
  have hfirst := adds_code_placeholder (s := " AND (" ++ colA ++ " " ++ (if ascending then ">" else "<") ++ " ")
    (by simp [Plain]) (by simp [hcolA, hdirection]) m
  have hsecond := adds_code_placeholder (s := " OR (" ++ colA ++ " = ") (by simp [Plain]) (by simp [hcolA]) (m + 1)
  have hthird := adds_code_placeholder (s := " AND " ++ colB ++ " > ") (by simp [Plain]) (by simp [hcolB])
    (m + 1 + 1)
  -- each column stands in a piece that begins with a word
  have hend : Adds label
      ((" AND " ++ colB ++ " > " ++ placeholder (Int32.ofNat (m + 1 + 1))).toList ++ "))".toList) (m + 1 + 1) 1 :=
    hthird.append_code (by simp [Plain]) (by decide)
  have hpieces := hfirst.append (hsecond.append hend)
  simp only [String.toList_append, List.append_assoc] at hpieces ⊢
  exact hpieces

theorem dollar_not_mem_jsonbField (nested simple : String) (hcolumn : '$' ∉ column.toList)
    (hpath : '$' ∉ jsonPath.toList) (hnested : '$' ∉ nested.toList) (hsimple : '$' ∉ simple.toList) :
    '$' ∉ (jsonbField nested simple column jsonPath).toList := by
  have harray : '$' ∉ (pathArray jsonPath).toList := by
    rw [pathArray, String.toList_ofList, List.mem_map]
    rintro ⟨c, hc, he⟩
    split_ifs at he
    · exact absurd he (by decide)
    · exact hpath (he ▸ hc)
  unfold jsonbField
  split_ifs
  · simp [hcolumn, hnested, harray]
  · simp [hcolumn, hsimple, hpath]

/-- A text that begins with a word does not begin with a digit, whatever follows. -/
theorem plain_append {s t : String} (h : Plain s.toList ∧ s.toList ≠ []) : Plain (s ++ t).toList := by
  rw [String.toList_append]
  obtain ⟨hs, hne⟩ := h
  obtain ⟨c, cs, hcs⟩ := List.exists_cons_of_ne_nil hne
  rw [hcs] at hs ⊢
  exact hs

theorem plain_jsonbField : Plain (jsonbField nested simple column jsonPath).toList ∧
    (jsonbField nested simple column jsonPath).toList ≠ [] := by
  unfold jsonbField
  split_ifs <;> simp [Plain]

/-- A clause with one placeholder at its end. -/
theorem one_extends {text : String} (hplain : Plain text.toList) (hfree : '$' ∉ text.toList) :
    Extends b ((b.push (text ++ placeholder b.paramIndex)).add a) [a] ∧
      Extends b ((b.pushQuery (text ++ placeholder b.paramIndex)).add a) [a] := by
  refine extends_push [a] fun m hm => ?_
  rw [hm]
  exact adds_code_placeholder hplain hfree m

/-- A clause with a list of placeholders. -/
theorem list_extends {text closing : String} {as : List (Argument τ)} (hn : as.length = n) (hplain : Plain text.toList)
    (hfree : '$' ∉ text.toList) (hplain' : Plain closing.toList) (hfree' : '$' ∉ closing.toList) :
    Extends b ((b.push (text ++ b.placeholderList n ++ closing)).addAll as) as := by
  refine (extends_push _ fun m hm => ?_).1
  rw [String.toList_append, String.toList_append, hn]
  exact .append_code (.code_append hplain hfree (adds_placeholderList hm n)) hplain' hfree'

/-- A clause without placeholders. -/
theorem none_extends {text : String} (hplain : Plain text.toList) (hfree : '$' ∉ text.toList) :
    Extends b (b.push text) [] ∧ Extends b (b.pushQuery text) [] :=
  extends_push [] fun _ _ => .code hplain hfree

end Clauses

/-- **A call** appends a clause with a placeholder for each of its arguments. -/
theorem call_extends {c : Call τ} (hraw : c.isRaw = false) (hfree : ∀ s ∈ c.names, '$' ∉ s.toList)
    (h : b.call u c = some b') : Extends b b' c.arguments := by
  cases c with
  | andEq column value =>
    obtain rfl := Option.some.inj h
    exact andCompare_extends (by decide) (hfree column (by simp [Call.names]))
  | andIn column values =>
    obtain rfl := Option.some.inj h
    exact andIn_extends (hfree column (by simp [Call.names]))
  | andIlike column pattern =>
    obtain rfl := Option.some.inj h
    exact andCompare_extends (by decide) (hfree column (by simp [Call.names]))
  | andGte column value =>
    obtain rfl := Option.some.inj h
    exact andCompare_extends (by decide) (hfree column (by simp [Call.names]))
  | andLte column value =>
    obtain rfl := Option.some.inj h
    exact andCompare_extends (by decide) (hfree column (by simp [Call.names]))
  | andLt column value =>
    obtain rfl := Option.some.inj h
    exact andCompare_extends (by decide) (hfree column (by simp [Call.names]))
  | andCursorKeyset colA valA colB valB ascending =>
    obtain rfl := Option.some.inj h
    exact andCursorKeyset_extends (hfree colA (by simp [Call.names])) (hfree colB (by simp [Call.names]))
  | andJsonbHasAny column jsonPath values =>
    have hfield := dollar_not_mem_jsonbField "#>" "->" (hfree column (by simp [Call.names]))
      (hfree jsonPath (by simp [Call.names])) (by decide) (by decide)
    simp only [call, andJsonbHasAny] at h
    split_ifs at h with hempty hname
    · obtain rfl := Option.some.inj h
      simp only [Call.arguments, hempty]
      exact extends_nothing _
    · obtain rfl := Option.some.inj h
      exact list_extends (List.length_map _) (plain_append plain_jsonbField) (by simp [hfield]) (by simp [Plain])
        (by decide)
  | andJsonbTextEq column jsonPath value =>
    have hcolumn := hfree column (by simp [Call.names])
    have hpath := hfree jsonPath (by simp [Call.names])
    simp only [call, andJsonbTextEq] at h
    split_ifs at h with hname
    obtain rfl := Option.some.inj h
    exact (one_extends (by simp [Plain]) (by simp [hcolumn, hpath])).1
  | andJsonbTextIn column jsonPath values =>
    have hfield := dollar_not_mem_jsonbField "#>>" "->>" (hfree column (by simp [Call.names]))
      (hfree jsonPath (by simp [Call.names])) (by decide) (by decide)
    simp only [call, andJsonbTextIn] at h
    split_ifs at h with hempty hname
    · obtain rfl := Option.some.inj h
      simp only [Call.arguments, hempty]
      exact extends_nothing _
    · obtain rfl := Option.some.inj h
      exact list_extends (List.length_map _) (plain_append plain_jsonbField) (by simp [hfield]) (by simp [Plain])
        (by decide)
  | andJsonbArrayContains column jsonPath value =>
    have hfield := dollar_not_mem_jsonbField "#>" "->" (hfree column (by simp [Call.names]))
      (hfree jsonPath (by simp [Call.names])) (by decide) (by decide)
    simp only [call, andJsonbArrayContains] at h
    split_ifs at h with hname
    obtain rfl := Option.some.inj h
    exact (one_extends (plain_append plain_jsonbField) (by simp [hfield])).1
  | andRaw clause => cases hraw
  | orderBy column ascending =>
    have hcolumn := hfree column (by simp [Call.names])
    have hdirection : '$' ∉ (if ascending then "ASC" else "DESC" : String).toList := by
      split_ifs <;> decide
    rw [call, orderBy] at h
    obtain ⟨-, h⟩ := Option.ite_none_right_eq_some.1 h
    obtain rfl := Option.some.inj h
    exact (none_extends (by simp [Plain]) (by simp [hcolumn, hdirection])).2
  | orderByRaw clause => cases hraw
  | limit n =>
    obtain rfl := Option.some.inj h
    exact (one_extends (by simp [Plain]) (by decide)).2
  | offset n =>
    obtain rfl := Option.some.inj h
    exact (one_extends (by simp [Plain]) (by decide)).2

/-! ## Whole sequences -/

/-- The placeholders are read as those of the arguments, and the index is that of the next one. -/
structure Tracked (b : QueryBuilder τ) : Prop where
  index : b.paramIndex = Int32.ofNat (b.args.length + 1)
  query : placeholders b.query.toList = (List.range' 1 b.args.length).map label

theorem Tracked.extends {as : List (Argument τ)} (h : Tracked b) (hb : Extends b b' as) : Tracked b' := by
  obtain ⟨clause, hquery, hargs, hindex, hclause⟩ := hb
  have hadds := hclause _ h.index
  refine ⟨?_, ?_⟩
  · rw [hindex, h.index, hargs, List.length_append, ← Int32.ofNat_add, Nat.add_right_comm]
  · have hrange : List.range' 1 (b.args.length + as.length) =
        List.range' 1 b.args.length ++ List.range' (b.args.length + 1) as.length := by
      rw [← List.range'_append, Nat.one_mul, Nat.add_comm 1]
    rw [hquery, String.toList_append, placeholders_append hadds.plain, h.query, hadds.placeholders, hargs,
      List.length_append, hrange, List.map_append]

theorem Tracked.callAll {calls : List (Call τ)} (h : Tracked b)
    (hcalls : ∀ c ∈ calls, c.isRaw = false ∧ ∀ s ∈ c.names, '$' ∉ s.toList) (hb : b.callAll u calls = some b') :
    Tracked b' ∧ b'.args = b.args ++ calls.flatMap Call.arguments := by
  induction calls generalizing b with
  | nil =>
    obtain rfl := Option.some.inj hb
    exact ⟨h, (List.append_nil _).symm⟩
  | cons c calls ih =>
    obtain ⟨hc, hcalls⟩ := List.forall_mem_cons.1 hcalls
    rw [callAll, List.foldlM_cons] at hb
    obtain ⟨b₁, hb₁, hrest⟩ := Option.bind_eq_some_iff.1 hb
    have hextends := call_extends hc.1 hc.2 hb₁
    obtain ⟨htracked, hargs⟩ := ih (h.extends hextends) hcalls hrest
    obtain ⟨clause, -, hargs₁, -⟩ := hextends
    exact ⟨htracked, by rw [hargs, hargs₁, List.flatMap_cons, List.append_assoc]⟩

theorem built_tracked {baseQuery : String} {calls : List (Call τ)} (hbase : '$' ∉ baseQuery.toList)
    (hcalls : ∀ c ∈ calls, c.isRaw = false ∧ ∀ s ∈ c.names, '$' ∉ s.toList) (hb : built u baseQuery calls = some b) :
    Tracked b ∧ b.args = calls.flatMap Call.arguments := by
  obtain ⟨b₀, hnew, hb⟩ := Option.bind_eq_some_iff.1 hb
  obtain ⟨countQuery, -, rfl⟩ := Option.map_eq_some_iff.1 hnew
  exact Tracked.callAll ⟨rfl, placeholders_eq_nil hbase⟩ hcalls hb

/-- **The text has the placeholders of its arguments**, each once and in their order. -/
def Numbered (b : QueryBuilder τ) : Prop :=
  placeholders b.query.toList = (List.range b.args.length).map fun i => (toString (i + 1)).toList

theorem label_of_lt {i : Nat} (h : i < 2 ^ 31) : label i = (toString i).toList := by
  have hlabel : label i = (Nat.repr i).toList.takeWhile Char.isDigit := by
    rw [label, Int32.toInt_ofNat_of_lt h]
    rfl
  rw [hlabel]
  refine List.takeWhile_eq_self_iff.2 fun c hc => ?_
  rw [Nat.toList_repr] at hc
  exact Nat.isDigit_of_mem_toDigits (by omega) (by omega) hc

/-- The index can count up to the largest number of its type; the one behind it reads as no number. -/
theorem Tracked.numbered_iff (h : Tracked b) : Numbered b ↔ b.args.length < 2 ^ 31 := by
  have hrange : (List.range' 1 b.args.length).map label = (List.range b.args.length).map fun i => label (i + 1) := by
    rw [List.range'_eq_map_range, List.map_map]
    exact List.map_congr_left fun i _ => by rw [Function.comp_apply, Nat.add_comm]
  rw [Numbered, h.query, hrange, List.map_inj_left]
  constructor
  · intro hall
    by_contra hlong
    have hpast := hall (2 ^ 31 - 1) (List.mem_range.2 (by omega))
    have hnone : label (2 ^ 31 - 1 + 1) = [] := by decide
    have hdigits : (toString (2 ^ 31 - 1 + 1)).toList ≠ [] := by decide
    exact hdigits (hpast.symm.trans hnone)
  · intro hfew i hi
    have hlt : i < b.args.length := List.mem_range.1 hi
    exact label_of_lt (by omega)

/-! ## What the text depends on -/

/-- The texts and the index, without the arguments. -/
def texts (b : QueryBuilder τ) : String × String × Int32 := (b.query, b.countQuery, b.paramIndex)

section Texts

variable {c : QueryBuilder Unit}

theorem texts_eq (h : b.texts = c.texts) :
    b.query = c.query ∧ b.countQuery = c.countQuery ∧ b.paramIndex = c.paramIndex := by
  obtain ⟨hquery, hrest⟩ := Prod.mk.inj h
  exact ⟨hquery, Prod.mk.inj hrest⟩

theorem texts_addAll {as : List (Argument τ)} {as' : List (Argument Unit)} (hlength : as.length = as'.length)
    (h : b.texts = c.texts) : (b.addAll as).texts = (c.addAll as').texts := by
  obtain ⟨hquery, hcount, hindex⟩ := texts_eq h
  rw [addAll_eq, addAll_eq, texts, texts, hquery, hcount, hindex, hlength]

theorem texts_add {a : Argument τ} {a' : Argument Unit} (h : b.texts = c.texts) :
    (b.add a).texts = (c.add a').texts := by
  rw [add_eq, add_eq]
  exact texts_addAll rfl h

theorem texts_push {clause : String} (h : b.texts = c.texts) : (b.push clause).texts = (c.push clause).texts := by
  obtain ⟨hquery, hcount, hindex⟩ := texts_eq h
  rw [texts, texts, push, push, hquery, hcount, hindex]

theorem texts_pushQuery {clause : String} (h : b.texts = c.texts) :
    (b.pushQuery clause).texts = (c.pushQuery clause).texts := by
  obtain ⟨hquery, hcount, hindex⟩ := texts_eq h
  rw [texts, texts, pushQuery, pushQuery, hquery, hcount, hindex]

theorem texts_andCompare {op column : String} {a : Argument τ} {a' : Argument Unit} (h : b.texts = c.texts) :
    (andCompare op column a b).texts = (andCompare op column a' c).texts := by
  rw [andCompare, andCompare, (texts_eq h).2.2]
  exact texts_add (texts_push h)

theorem placeholderList_congr (h : b.texts = c.texts) (n : Nat) : b.placeholderList n = c.placeholderList n := by
  rw [placeholderList, placeholderList, (texts_eq h).2.2]

/-- **A call without its values** appends the same clause. -/
theorem texts_call (call₁ : Call τ) (h : b.texts = c.texts) :
    (b.call u call₁).map texts = (c.call u call₁.erase).map texts := by
  have hindex := (texts_eq h).2.2
  have hlist := placeholderList_congr h
  cases call₁ with
  | andEq column value => exact congrArg some (texts_andCompare h)
  | andIn column values =>
    refine congrArg some ?_
    simp only [andIn, List.map_eq_nil_iff, List.length_map, hlist]
    split_ifs
    · exact h
    · exact texts_addAll (by simp) (texts_push h)
  | andIlike column pattern => exact congrArg some (texts_andCompare h)
  | andGte column value => exact congrArg some (texts_andCompare h)
  | andLte column value => exact congrArg some (texts_andCompare h)
  | andLt column value => exact congrArg some (texts_andCompare h)
  | andCursorKeyset colA valA colB valB ascending =>
    refine congrArg some ?_
    simp only [andCursorKeyset, hindex]
    exact texts_add (texts_add (texts_add (texts_pushQuery h)))
  | andJsonbHasAny column jsonPath values =>
    simp only [call, Call.erase, andJsonbHasAny, List.map_eq_nil_iff, List.length_map, hlist]
    split_ifs
    · exact congrArg some h
    · exact congrArg some (texts_addAll (by simp) (texts_push h))
    · rfl
  | andJsonbTextEq column jsonPath value =>
    simp only [call, Call.erase, andJsonbTextEq, hindex]
    split_ifs
    · exact congrArg some (texts_add (texts_push h))
    · rfl
  | andJsonbTextIn column jsonPath values =>
    simp only [call, Call.erase, andJsonbTextIn, List.map_eq_nil_iff, List.length_map, hlist]
    split_ifs
    · exact congrArg some h
    · exact congrArg some (texts_addAll (by simp) (texts_push h))
    · rfl
  | andJsonbArrayContains column jsonPath value =>
    simp only [call, Call.erase, andJsonbArrayContains, hindex]
    split_ifs
    · exact congrArg some (texts_add (texts_push h))
    · rfl
  | andRaw clause => exact congrArg some (texts_push h)
  | orderBy column ascending =>
    simp only [call, Call.erase, orderBy]
    by_cases hname : isName u column
    · rw [if_pos hname, if_pos hname]
      exact congrArg some (texts_pushQuery h)
    · rw [if_neg hname, if_neg hname]
      rfl
  | orderByRaw clause => exact congrArg some (texts_pushQuery h)
  | limit n =>
    refine congrArg some ?_
    simp only [limit, hindex]
    exact texts_add (texts_pushQuery h)
  | offset n =>
    refine congrArg some ?_
    simp only [offset, hindex]
    exact texts_add (texts_pushQuery h)

theorem texts_callAll (calls : List (Call τ)) (h : b.texts = c.texts) :
    (b.callAll u calls).map texts = (c.callAll u (calls.map Call.erase)).map texts := by
  induction calls generalizing b c with
  | nil => exact congrArg some h
  | cons call₁ calls ih =>
    have hcall := texts_call (u := u) call₁ h
    unfold callAll at ih ⊢
    rw [List.foldlM_cons, List.map_cons, List.foldlM_cons]
    cases hb : b.call u call₁ with
    | none =>
      rw [hb] at hcall
      rw [Option.map_eq_none_iff.1 hcall.symm]
      rfl
    | some b₁ =>
      rw [hb] at hcall
      obtain ⟨c₁, hc, htexts⟩ := Option.map_eq_some_iff.1 hcall.symm
      rw [hc]
      exact ih htexts.symm

end Texts

theorem query_built (u : Unicode) (baseQuery : String) (calls : List (Call τ)) :
    (built u baseQuery calls).map query = (built u baseQuery (calls.map Call.erase)).map query := by
  have htexts : (built u baseQuery calls).map texts = (built u baseQuery (calls.map Call.erase)).map texts := by
    unfold built new
    cases toCountQuery u baseQuery with
    | none => rfl
    | some countQuery => exact texts_callAll calls rfl
  have hfst := congrArg (Option.map Prod.fst) htexts
  rw [Option.map_map, Option.map_map] at hfst
  exact hfst

/-- **Placeholders and values**: a query built without raw clauses from texts without dollar signs binds the values of
its calls, and as long as these are fewer than the index can count it has their placeholders, each once and in order.
Its text is the same for all calls that differ in their values only. -/
theorem placeholders_and_values (u : Unicode) (baseQuery : String) (calls : List (Call τ))
    (hbase : '$' ∉ baseQuery.toList)
    (hcalls : ∀ c ∈ calls, c.isRaw = false ∧ ∀ s ∈ c.names, '$' ∉ s.toList) :
    (∀ b, built u baseQuery calls = some b → b.args = calls.flatMap Call.arguments ∧
      (b.args.length < 2 ^ 31 → Numbered b)) ∧
    ∀ (τ' : Type) (calls' : List (Call τ')), calls'.map Call.erase = calls.map Call.erase →
      (built u baseQuery calls').map query = (built u baseQuery calls).map query := by
  refine ⟨fun b hb => ?_, fun τ' calls' he => ?_⟩
  · obtain ⟨htracked, hargs⟩ := built_tracked hbase hcalls hb
    exact ⟨hargs, htracked.numbered_iff.2⟩
  · rw [query_built u baseQuery calls', he, ← query_built]

/-! ### A page of messages -/

/-- Texts of ASCII characters. -/
def asciiOnly : Unicode := ⟨String.toUpper, Char.isAlphanum⟩

def pageCalls : List (Call String) :=
  [.andEq "sender" "0x51A58800b26AA1451aaA803d1746687cB88E0500", .andIn "channel" ["TEST", "$1"],
    .orderBy "time" false, .limit 20, .offset 40]

def pageText : String :=
  "SELECT * FROM messages WHERE 1=1 AND sender = $1 AND channel IN ($2, $3) ORDER BY time DESC LIMIT $4 OFFSET $5"

theorem page_numbered : ∃ b, built asciiOnly "SELECT * FROM messages WHERE 1=1" pageCalls = some b ∧
    b.query = pageText ∧ Numbered b := by
  have htext : (built asciiOnly "SELECT * FROM messages WHERE 1=1" pageCalls).map query = some pageText := by
    decide +kernel
  obtain ⟨b, hb, hquery⟩ := Option.map_eq_some_iff.1 htext
  have hall := placeholders_and_values asciiOnly "SELECT * FROM messages WHERE 1=1" pageCalls (by decide)
    (by decide +kernel)
  obtain ⟨hargs, hnumbered⟩ := hall.1 b hb
  refine ⟨b, hb, hquery, hnumbered ?_⟩
  rw [hargs]
  decide

/-! ### A direction, and more values than the index can count -/

def manyValues : List (Call Unit) := [.andIn "item_hash" (List.replicate (2 ^ 31) ())]

def sorted (ascending : Bool) : List (Call Unit) := [.orderBy "time" ascending]

/-- **The text depends on the direction as well**, and the placeholder behind the largest index is none. -/
theorem direction_and_overflow :
    ((sorted true).map Call.outline = (sorted false).map Call.outline ∧
      (built asciiOnly "SELECT 1" (sorted true)).map query ≠ (built asciiOnly "SELECT 1" (sorted false)).map query) ∧
    ∃ b, built asciiOnly "SELECT 1" manyValues = some b ∧ ¬ Numbered b := by
  refine ⟨⟨by decide, by decide +kernel⟩, ?_⟩
  have hcount : toCountQuery asciiOnly "SELECT 1" = some "SELECT 1" := by decide +kernel
  obtain ⟨b, hb⟩ : ∃ b, built asciiOnly "SELECT 1" manyValues = some b := by
    rw [built, new, hcount]
    exact ⟨_, rfl⟩
  refine ⟨b, hb, fun hnumbered => ?_⟩
  have hcalls : ∀ c ∈ manyValues, c.isRaw = false ∧ ∀ s ∈ c.names, '$' ∉ s.toList := by
    intro c hc
    obtain rfl := List.mem_singleton.1 hc
    exact ⟨rfl, fun s hs => by rw [List.mem_singleton.1 hs]; decide⟩
  obtain ⟨htracked, hargs⟩ := built_tracked (by decide) hcalls hb
  have hlength : b.args.length = 2 ^ 31 := by
    rw [hargs, manyValues, List.flatMap_singleton, Call.arguments, List.length_map, List.length_replicate]
  have hfew := htracked.numbered_iff.1 hnumbered
  omega

end QueryBuilder

end AlephCore
