import AlephCore.Lib.SqlText
import AlephCore.Web.WebSocket
import Mathlib.Algebra.Order.BigOperators.Group.List

/-!
# HistoryQuery — what the database reads in a history query

The values of a filter stand between quotes as they are, so a value with a quote ends its literal.  The text of
the query is read as the clauses of its filter exactly when no value has a quote.
-/

namespace AlephCore.WebSocket

open SqlText

variable {order : HashOrder} {filter : SubscriptionFilter} {limit : Nat} {before : Option Decimal}

/-! ## The intended query -/

/-- The literals of the values, separated by commas. -/
def literals : List String → List Item
  | [] => []
  | [v] => [.literal v.toList]
  | v :: w :: vs => .literal v.toList :: .code ',' :: literals (w :: vs)

/-- One clause for the values of a column, none if there are none. -/
def clauseItems (column : String) (values : List String) : List Item :=
  if values = [] then []
  else code (" AND " ++ column ++ " IN (").toList ++ (literals values ++ code ")".toList)

/-- The query: the clauses of the four sets, the time bound, the order and the limit. -/
def queryItems (addresses channels messageTypes hashes : List String) (limit : Nat) (before : Option Decimal) :
    List Item :=
  code "SELECT * FROM messages WHERE 1=1".toList ++ (clauseItems "sender" addresses ++
    (clauseItems "channel" channels ++ (clauseItems "message_type" messageTypes ++
      (clauseItems "item_hash" hashes ++
        code (beforeClause before ++ (" ORDER BY time DESC LIMIT " ++ Nat.repr limit)).toList))))

/-- The text is read as the query of the filter: its literals denote the strings of the four sets. -/
def ReadsAs (text : String) (filter : SubscriptionFilter) (limit : Nat) (before : Option Decimal) : Prop :=
  ∃ addresses channels messageTypes hashes : List String,
    (∀ x, x ∈ addresses ↔ x ∈ filter.addresses) ∧ (∀ x, x ∈ channels ↔ x ∈ filter.channels) ∧
      (∀ x, x ∈ messageTypes ↔ x ∈ filter.messageTypes) ∧ (∀ x, x ∈ hashes ↔ x ∈ filter.hashes) ∧
      lex text.toList = some (queryItems addresses channels messageTypes hashes limit before)

/-- The string has no single quote. -/
def Unquoted (s : String) : Prop := '\'' ∉ s.toList

/-- No string of the filter has a single quote. -/
structure QuoteFree (filter : SubscriptionFilter) : Prop where
  addresses : ∀ s ∈ filter.addresses, Unquoted s
  channels : ∀ s ∈ filter.channels, Unquoted s
  messageTypes : ∀ s ∈ filter.messageTypes, Unquoted s
  hashes : ∀ s ∈ filter.hashes, Unquoted s

/-! ## Numbers have no quotes -/

theorem not_mem_repr (n : Nat) : '\'' ∉ (Nat.repr n).toList := by
  intro h
  rw [Nat.toList_repr] at h
  have hdigit := Nat.isDigit_of_mem_toDigits (by omega) (by omega) h
  exact absurd hdigit (by decide)

theorem not_mem_decimal (t : Decimal) : '\'' ∉ t.toString.toList := by
  have hsign : '\'' ∉ (if t.negative then "-" else "" : String).toList := by
    split_ifs <;> decide
  have hfraction : '\'' ∉ (if t.fraction = [] then "" else
      "." ++ String.ofList (t.fraction.map fun i : Fin 10 => Nat.digitChar i.val) : String).toList := by
    split_ifs
    · decide
    · rw [String.toList_append, List.mem_append]
      rintro (h | h)
      · exact absurd h (by decide)
      · rw [String.toList_ofList] at h
        obtain ⟨i, -, hi⟩ := List.mem_map.1 h
        have hdigit : ∀ i : Fin 10, Nat.digitChar i.val ≠ '\'' := by decide
        exact hdigit i hi
  rw [Decimal.toString, String.toList_append, String.toList_append, List.mem_append, List.mem_append]
  rintro ((h | h) | h)
  · exact hsign h
  · exact not_mem_repr _ h
  · exact hfraction h

/-- The end of the query has no quotes. -/
theorem not_mem_tail (limit : Nat) (before : Option Decimal) :
    '\'' ∉ (beforeClause before ++ (" ORDER BY time DESC LIMIT " ++ Nat.repr limit)).toList := by
  have hbefore : '\'' ∉ (beforeClause before).toList := by
    cases before with
    | none => exact List.not_mem_nil
    | some t =>
      rw [beforeClause, String.toList_append, List.mem_append]
      rintro (h | h)
      · exact absurd h (by decide)
      · exact not_mem_decimal t h
  rw [String.toList_append, String.toList_append, List.mem_append, List.mem_append]
  rintro (h | h | h)
  · exact hbefore h
  · exact absurd h (by decide)
  · exact not_mem_repr _ h

/-! ## Without quotes the text is read as intended -/

/-- The values as they stand in the text. -/
def joined (values : List String) : List Char :=
  (",".intercalate (values.map fun v => "'" ++ v ++ "'")).toList

theorem joined_singleton (v : String) : joined [v] = '\'' :: (v.toList ++ ['\'']) := by
  rw [joined, List.map_singleton, String.intercalate_singleton, String.toList_append, String.toList_append]
  rfl

theorem joined_cons_cons (v w : String) (vs : List String) :
    joined (v :: w :: vs) = '\'' :: (v.toList ++ ['\'']) ++ (',' :: joined (w :: vs)) := by
  rw [joined, List.map_cons, List.map_cons, String.intercalate_cons_cons]
  simp only [String.toList_append, joined, List.map_cons]
  simp

theorem inClause_toList (column : String) {values : List String} (h : values ≠ []) :
    (inClause column values).toList =
      (" AND " ++ column ++ " IN (").toList ++ (joined values ++ ")".toList) := by
  rw [inClause, if_neg h]
  simp only [String.toList_append, joined, List.append_assoc]

theorem reads_joined {values : List String} (h : ∀ v ∈ values, Unquoted v) (hne : values ≠ []) :
    SqlText.Reads (joined values) (literals values) := by
  induction values with
  | nil => exact absurd rfl hne
  | cons v vs ih =>
    have hv : Unquoted v := h v List.mem_cons_self
    cases vs with
    | nil =>
      rw [joined_singleton]
      exact .literal hv
    | cons w vs =>
      rw [joined_cons_cons]
      have hrest := ih (fun x hx => h x (List.mem_cons_of_mem _ hx)) (List.cons_ne_nil _ _)
      have hcomma : SqlText.Reads ([','] ++ joined (w :: vs)) (code [','] ++ literals (w :: vs)) :=
        .code_append (by decide) hrest
      exact (SqlText.Reads.literal hv).append hcomma (by simp)

theorem reads_inClause (column : String) {values : List String} (hcolumn : '\'' ∉ (" AND " ++ column ++ " IN (").toList)
    (h : ∀ v ∈ values, Unquoted v) : SqlText.Reads (inClause column values).toList (clauseItems column values) := by
  by_cases hne : values = []
  · rw [inClause, clauseItems, if_pos hne, if_pos hne]
    exact .nil
  · rw [inClause_toList column hne, clauseItems, if_neg hne]
    refine .code_append hcolumn ((reads_joined h hne).append (.code (by decide)) (by decide))

/-- A clause does not start with a quote. -/
theorem head?_inClause (column : String) (values : List String) :
    (inClause column values).toList.head? ≠ some '\'' := by
  by_cases hne : values = []
  · rw [inClause, if_pos hne]
    decide
  · have hspace : " AND ".toList = ' ' :: "AND ".toList := by decide
    rw [inClause_toList column hne, String.toList_append, String.toList_append, hspace]
    simp only [List.cons_append, List.head?_cons]
    decide

theorem toList_append_assoc (a b c d e f g : String) :
    (a ++ b ++ c ++ d ++ e ++ f ++ g).toList =
      a.toList ++ (b.toList ++ (c.toList ++ (d.toList ++ (e.toList ++ (f ++ g).toList)))) := by
  simp only [String.toList_append, List.append_assoc]

/-- The clauses and the end of the query. -/
theorem historyQuery_toList (order : HashOrder) (filter : SubscriptionFilter) (limit : Nat)
    (before : Option Decimal) :
    (historyQuery order filter limit before).toList =
      "SELECT * FROM messages WHERE 1=1".toList ++ ((inClause "sender" (order.iter filter.addresses)).toList ++
        ((inClause "channel" (order.iter filter.channels)).toList ++
          ((inClause "message_type" (order.iter filter.messageTypes)).toList ++
            ((inClause "item_hash" (order.iter filter.hashes)).toList ++
              (beforeClause before ++ (" ORDER BY time DESC LIMIT " ++ Nat.repr limit)).toList)))) := by
  exact toList_append_assoc _ _ _ _ _ _ _

/-- **A query without quotes in its values** is read as the clauses of its filter. -/
theorem lex_historyQuery (h : QuoteFree filter) :
    lex (historyQuery order filter limit before).toList =
      some (queryItems (order.iter filter.addresses) (order.iter filter.channels) (order.iter filter.messageTypes)
        (order.iter filter.hashes) limit before) := by
  have hvalues : ∀ s : Finset String, (∀ x ∈ s, Unquoted x) → ∀ x ∈ order.iter s, Unquoted x :=
    fun s hs x hx => hs x (order.mem_iter.1 hx)
  have htail : (beforeClause before ++ (" ORDER BY time DESC LIMIT " ++ Nat.repr limit)).toList.head? ≠ some '\'' := by
    intro he
    exact not_mem_tail limit before (List.mem_of_mem_head? he)
  have hhashes := (reads_inClause "item_hash" (by decide) (hvalues _ h.hashes)).append
    (.code (not_mem_tail limit before)) htail
  have hhead := head?_append_ne (head?_inClause "item_hash" (order.iter filter.hashes)) htail
  have htypes := (reads_inClause "message_type" (by decide) (hvalues _ h.messageTypes)).append hhashes hhead
  replace hhead := head?_append_ne (head?_inClause "message_type" (order.iter filter.messageTypes)) hhead
  have hchannels := (reads_inClause "channel" (by decide) (hvalues _ h.channels)).append htypes hhead
  replace hhead := head?_append_ne (head?_inClause "channel" (order.iter filter.channels)) hhead
  have haddresses := (reads_inClause "sender" (by decide) (hvalues _ h.addresses)).append hchannels hhead
  rw [historyQuery_toList]
  exact (SqlText.Reads.code_append (by decide) haddresses).lex

/-! ## What a quote does -/

/-- The quotes in a value. -/
def quotesIn (v : String) : Nat := v.toList.count '\''

theorem count_joined (values : List String) :
    (joined values).count '\'' = (values.map fun v => 2 + quotesIn v).sum := by
  induction values with
  | nil => decide
  | cons v vs ih =>
    have hv : ('\'' :: (v.toList ++ ['\''])).count '\'' = 2 + quotesIn v := by
      rw [List.count_cons_self, List.count_append, List.count_singleton_self, quotesIn]
      omega
    cases vs with
    | nil =>
      rw [joined_singleton, hv]
      rfl
    | cons w vs =>
      rw [joined_cons_cons, List.count_append, hv, List.count_cons_of_ne (by decide), ih]
      rfl

theorem count_inClause (column : String) (values : List String)
    (hcolumn : '\'' ∉ (" AND " ++ column ++ " IN (").toList) :
    (inClause column values).toList.count '\'' = (values.map fun v => 2 + quotesIn v).sum := by
  by_cases hne : values = []
  · rw [inClause, if_pos hne, hne]
    rfl
  · rw [inClause_toList column hne, List.count_append, List.count_append, List.count_eq_zero.2 hcolumn,
      count_joined, show ")".toList.count '\'' = 0 by decide]
    omega

theorem quotes_literals (values : List String) :
    quotes (literals values) = (values.map fun v => 2 + 2 * quotesIn v).sum := by
  induction values with
  | nil => rfl
  | cons v vs ih =>
    cases vs with
    | nil => rfl
    | cons w vs =>
      rw [literals, List.map_cons, List.sum_cons, ← ih]
      show (2 + 2 * quotesIn v) + (0 + quotes (literals (w :: vs))) = _
      rw [Nat.zero_add]

theorem quotes_clauseItems (column : String) (values : List String) :
    quotes (clauseItems column values) = (values.map fun v => 2 + 2 * quotesIn v).sum := by
  by_cases hne : values = []
  · rw [clauseItems, if_pos hne, hne]
    rfl
  · rw [clauseItems, if_neg hne, quotes_append, quotes_append, quotes_code, quotes_code, quotes_literals]
    omega

/-- The quotes in the text of the query. -/
theorem count_historyQuery (order : HashOrder) (filter : SubscriptionFilter) (limit : Nat)
    (before : Option Decimal) :
    (historyQuery order filter limit before).toList.count '\'' =
      ((order.iter filter.addresses).map fun v => 2 + quotesIn v).sum +
        (((order.iter filter.channels).map fun v => 2 + quotesIn v).sum +
          (((order.iter filter.messageTypes).map fun v => 2 + quotesIn v).sum +
            ((order.iter filter.hashes).map fun v => 2 + quotesIn v).sum)) := by
  have hselect : "SELECT * FROM messages WHERE 1=1".toList.count '\'' = 0 := by decide
  rw [historyQuery_toList, List.count_append, List.count_append, List.count_append, List.count_append,
    List.count_append, hselect, count_inClause _ _ (by decide), count_inClause _ _ (by decide),
    count_inClause _ _ (by decide), count_inClause _ _ (by decide), List.count_eq_zero.2 (not_mem_tail limit before)]
  omega

/-- The quotes the intended query accounts for. -/
theorem quotes_queryItems (addresses channels messageTypes hashes : List String) (limit : Nat)
    (before : Option Decimal) :
    quotes (queryItems addresses channels messageTypes hashes limit before) =
      (addresses.map fun v => 2 + 2 * quotesIn v).sum + ((channels.map fun v => 2 + 2 * quotesIn v).sum +
        ((messageTypes.map fun v => 2 + 2 * quotesIn v).sum + (hashes.map fun v => 2 + 2 * quotesIn v).sum)) := by
  unfold queryItems
  simp only [quotes_append, quotes_code, quotes_clauseItems]
  omega

/-- A list with all elements of another one without repetition adds up to at least as much. -/
theorem sum_le_of_mem {S T : List String} (hS : S.Nodup) (h : ∀ x ∈ S, x ∈ T) (f : String → Nat) :
    (S.map f).sum ≤ (T.map f).sum := by
  obtain ⟨S', hperm, hsub⟩ := List.subperm_of_subset hS h
  rw [← (hperm.map f).sum_eq]
  exact (hsub.map f).sum_le_sum fun x _ => Nat.zero_le x

/-- The quotes that are read for a set, against those that stand in the text. -/
theorem quotes_of_set (order : HashOrder) (s : Finset String) {T : List String} (hT : ∀ x, x ∈ T ↔ x ∈ s) :
    ((order.iter s).map fun v => 2 + quotesIn v).sum + ((order.iter s).map quotesIn).sum ≤
      (T.map fun v => 2 + 2 * quotesIn v).sum := by
  have hle := sum_le_of_mem (order.nodup s) (fun x hx => (hT x).2 (order.mem_iter.1 hx)) fun v => 2 + 2 * quotesIn v
  rw [← List.sum_map_add]
  refine le_trans (le_of_eq ?_) hle
  refine congrArg List.sum (List.map_congr_left fun v _ => ?_)
  omega

theorem unquoted_of_sum (order : HashOrder) {s : Finset String} (h : ((order.iter s).map quotesIn).sum = 0) : ∀ x ∈ s, Unquoted x := by
  intro x hx
  have hzero := List.sum_eq_zero_iff.1 h (quotesIn x) (List.mem_map_of_mem (order.mem_iter.2 hx))
  exact List.count_eq_zero.1 hzero

/-- A text that is read as the query of its filter has no other quotes than the ones around the values. -/
theorem ReadsAs.quoteFree (h : ReadsAs (historyQuery order filter limit before) filter limit before) :
    QuoteFree filter := by
  obtain ⟨addresses, channels, messageTypes, hashes, haddresses, hchannels, htypes, hhashes, hlex⟩ := h
  have hcount := count_lex hlex
  rw [count_historyQuery, quotes_queryItems] at hcount
  have h1 := quotes_of_set order filter.addresses haddresses
  have h2 := quotes_of_set order filter.channels hchannels
  have h3 := quotes_of_set order filter.messageTypes htypes
  have h4 := quotes_of_set order filter.hashes hhashes
  have hsum : ((order.iter filter.addresses).map quotesIn).sum + ((order.iter filter.channels).map quotesIn).sum +
      ((order.iter filter.messageTypes).map quotesIn).sum + ((order.iter filter.hashes).map quotesIn).sum = 0 := by
    omega
  exact ⟨unquoted_of_sum order (by omega), unquoted_of_sum order (by omega),
    unquoted_of_sum order (by omega), unquoted_of_sum order (by omega)⟩

theorem QuoteFree.readsAs (h : QuoteFree filter) :
    ReadsAs (historyQuery order filter limit before) filter limit before :=
  ⟨_, _, _, _, fun _ => order.mem_iter, fun _ => order.mem_iter, fun _ => order.mem_iter,
    fun _ => order.mem_iter, lex_historyQuery h⟩

/-- **The text of the history query is read as the query of its filter exactly when no value has a quote**: a
value with one ends its literal early. -/
theorem readsAs_iff (order : HashOrder) (filter : SubscriptionFilter) (limit : Nat) (before : Option Decimal) :
    ReadsAs (historyQuery order filter limit before) filter limit before ↔ QuoteFree filter :=
  ⟨ReadsAs.quoteFree, QuoteFree.readsAs⟩

/-! ### An address with quotes -/

section Injection

/-- The query parameters of a connection that asks for the history of one address. -/
def injection : WsQuery := ⟨some "x') OR ('1'='1", none, none, none, some 100⟩

def injected : SubscriptionFilter := { SubscriptionFilter.new with addresses := {"x') OR ('1'='1"} }

example : SubscriptionFilter.parts "0xAb, 0xCd" = ["0xAb", "0xCd"] := by decide +kernel

theorem fromQuery_injection : SubscriptionFilter.fromQuery String.toUpper injection = injected := by
  have hparts : SubscriptionFilter.parts "x') OR ('1'='1" = ["x') OR ('1'='1"] := by decide +kernel
  refine SubscriptionFilter.ext ?_ rfl rfl rfl
  show SubscriptionFilter.insertAll ∅ (SubscriptionFilter.parts "x') OR ('1'='1") = _
  rw [hparts]
  rfl

/-- The address that a client installs adds a condition of its own to the query. -/
theorem injection_not_readsAs :
    SubscriptionFilter.fromQuery String.toUpper injection = injected ∧
      historyQuery .sorted injected 100 none =
        "SELECT * FROM messages WHERE 1=1 AND sender IN ('x') OR ('1'='1') ORDER BY time DESC LIMIT 100" ∧
      ¬ ReadsAs (historyQuery .sorted injected 100 none) injected 100 none := by
  refine ⟨fromQuery_injection, ?_, fun h => ?_⟩
  · decide +kernel
  · exact h.quoteFree.addresses _ (Finset.mem_singleton_self _) (by decide +kernel)

end Injection

end AlephCore.WebSocket
