import Mathlib.Algebra.BigOperators.Group.List.Basic
import Mathlib.Tactic.Common
import Mathlib.Algebra.Order.Ring.Rat
import Mathlib.Algebra.Order.Ring.Nat

/-!
# SqlText — how SQL text is read

A reader of SQL text sees the characters of the statement and string literals.  A literal stands between
single quotes, and a quote inside it is written twice.  `lex` reads a text; `Reads` says what a piece of text
contributes to it, and every text that can be read has as many quotes as its literals account for.
-/

namespace SqlText

/-- A character of the statement, or a literal with the string it denotes. -/
inductive Item where
  | code (c : Char)
  | literal (s : List Char)
  deriving DecidableEq

/-- Where the reader stands. -/
inductive Place where
  | outside
  | inside (s : List Char)
  /-- After a quote inside a literal: it ends the literal unless another one follows. -/
  | quoted (s : List Char)

def lexFrom : Place → List Char → Option (List Item)
  | .outside, [] => some []
  | .inside _, [] => none
  | .quoted s, [] => some [.literal s]
  | .outside, c :: cs => if c = '\'' then lexFrom (.inside []) cs else (lexFrom .outside cs).map (.code c :: ·)
  | .inside s, c :: cs => if c = '\'' then lexFrom (.quoted s) cs else lexFrom (.inside (s ++ [c])) cs
  | .quoted s, c :: cs =>
    if c = '\'' then lexFrom (.inside (s ++ ['\''])) cs
    else (lexFrom .outside cs).map fun items => .literal s :: .code c :: items

/-- Read a text; a literal that is not closed makes it no statement. -/
def lex (text : List Char) : Option (List Item) := lexFrom .outside text

def code (cs : List Char) : List Item := cs.map .code

/-! ## Counting quotes -/

/-- The quotes an item takes in a text. -/
def Item.quotes : Item → Nat
  | .code _ => 0
  | .literal s => 2 + 2 * s.count '\''

/-- The quotes that are read already. -/
def Place.quotes : Place → Nat
  | .outside => 0
  | .inside s => 1 + 2 * s.count '\''
  | .quoted s => 2 + 2 * s.count '\''

/-- The quotes of the items. -/
def quotes (items : List Item) : Nat := (items.map Item.quotes).sum

theorem quotes_append (items items' : List Item) : quotes (items ++ items') = quotes items + quotes items' := by
  rw [quotes, List.map_append, List.sum_append]
  rfl

theorem quotes_code (cs : List Char) : quotes (code cs) = 0 := by
  induction cs with
  | nil => rfl
  | cons c cs ih => exact (Nat.zero_add _).trans ih

theorem count_lexFrom {p : Place} {cs : List Char} {items : List Item} (h : lexFrom p cs = some items) :
    p.quotes + cs.count '\'' = quotes items := by
  induction cs generalizing p items with
  | nil =>
    cases p with
    | outside =>
      obtain rfl := Option.some.inj h
      rfl
    | inside s => cases h
    | quoted s =>
      obtain rfl := Option.some.inj h
      rfl
  | cons c cs ih =>
    by_cases hc : c = '\''
    · subst hc
      rw [List.count_cons_self]
      cases p with
      | outside =>
        have hin := ih (show lexFrom (.inside []) cs = some items from h)
        simp only [Place.quotes, List.count_nil] at hin ⊢
        omega
      | inside s =>
        have hquoted := ih (show lexFrom (.quoted s) cs = some items from h)
        simp only [Place.quotes] at hquoted ⊢
        omega
      | quoted s =>
        have hin := ih (show lexFrom (.inside (s ++ ['\''])) cs = some items from h)
        simp only [Place.quotes, List.count_append, List.count_singleton_self] at hin ⊢
        omega
    · rw [List.count_cons_of_ne hc]
      cases p with
      | outside =>
        rw [lexFrom, if_neg hc] at h
        obtain ⟨rest, hrest, rfl⟩ := Option.map_eq_some_iff.1 h
        have hout := ih hrest
        exact hout.trans (Nat.zero_add _).symm
      | inside s =>
        rw [lexFrom, if_neg hc] at h
        have hin := ih h
        have hcount : (s ++ [c]).count '\'' = s.count '\'' := by
          rw [List.count_append, List.count_cons_of_ne hc, List.count_nil, Nat.add_zero]
        rwa [Place.quotes, hcount] at hin
      | quoted s =>
        rw [lexFrom, if_neg hc] at h
        obtain ⟨rest, hrest, rfl⟩ := Option.map_eq_some_iff.1 h
        have hout : cs.count '\'' = quotes rest := (Nat.zero_add _).symm.trans (ih hrest)
        show 2 + 2 * s.count '\'' + cs.count '\'' = (2 + 2 * s.count '\'') + (0 + quotes rest)
        rw [hout, Nat.zero_add]

/-- **A text has as many quotes as what is read from it accounts for.** -/
theorem count_lex {text : List Char} {items : List Item} (h : lex text = some items) :
    text.count '\'' = quotes items :=
  (Nat.zero_add _).symm.trans (count_lexFrom h)

/-! ## Reading piece by piece -/

/-- The piece of text contributes the items, whatever follows, as long as that is no quote. -/
def Reads (cs : List Char) (items : List Item) : Prop :=
  ∀ rest : List Char, rest.head? ≠ some '\'' →
    lexFrom .outside (cs ++ rest) = (lexFrom .outside rest).map (items ++ ·)

theorem Reads.lex {cs : List Char} {items : List Item} (h : Reads cs items) : lex cs = some items := by
  have hend := h [] (by simp)
  rw [List.append_nil] at hend
  rw [SqlText.lex, hend]
  exact congrArg some (List.append_nil items)

theorem Reads.nil : Reads [] [] := by
  intro rest _
  exact (congrFun Option.map_id _).symm

theorem head?_append_ne {cs ds : List Char} (h : cs.head? ≠ some '\'') (h' : ds.head? ≠ some '\'') :
    (cs ++ ds).head? ≠ some '\'' := by
  cases cs with
  | nil => exact h'
  | cons c cs => exact h

theorem Reads.append {cs ds : List Char} {items items' : List Item} (h : Reads cs items) (h' : Reads ds items')
    (hhead : ds.head? ≠ some '\'') : Reads (cs ++ ds) (items ++ items') := by
  intro rest hrest
  rw [List.append_assoc, h _ (head?_append_ne hhead hrest), h' rest hrest, Option.map_map]
  refine congrArg (fun f => Option.map f _) (funext fun r => ?_)
  exact (List.append_assoc _ _ _).symm

/-- Text without quotes may be followed by a literal. -/
theorem Reads.code_append {cs ds : List Char} {items : List Item} (hcs : '\'' ∉ cs) (h : Reads ds items) :
    Reads (cs ++ ds) (code cs ++ items) := by
  intro rest hrest
  induction cs with
  | nil => exact h rest hrest
  | cons c cs ih =>
    have hc : c ≠ '\'' := fun he => hcs (he ▸ List.mem_cons_self)
    have hmem : '\'' ∉ cs := fun hm => hcs (List.mem_cons_of_mem _ hm)
    show lexFrom .outside (c :: (cs ++ ds ++ rest)) = _
    rw [lexFrom, if_neg hc, ih hmem, Option.map_map]
    rfl

theorem Reads.code {cs : List Char} (hcs : '\'' ∉ cs) : Reads cs (code cs) := by
  have h := Reads.code_append hcs Reads.nil
  rwa [List.append_nil, List.append_nil] at h

/-- A literal whose string has no quotes. -/
theorem Reads.literal {s : List Char} (hs : '\'' ∉ s) : Reads ('\'' :: (s ++ ['\''])) [.literal s] := by
  have hquoted : ∀ t rest : List Char, rest.head? ≠ some '\'' →
      lexFrom (.quoted t) rest = (lexFrom .outside rest).map (Item.literal t :: ·) := by
    intro t rest hrest
    cases rest with
    | nil => rfl
    | cons c rest =>
      have hc : c ≠ '\'' := fun he => hrest (congrArg some he)
      rw [lexFrom, if_neg hc, lexFrom, if_neg hc, Option.map_map]
      rfl
  have hinside : ∀ u t rest : List Char, '\'' ∉ u →
      lexFrom (.inside t) (u ++ rest) = lexFrom (.inside (t ++ u)) rest := by
    intro u
    induction u with
    | nil =>
      intro t rest _
      rw [List.append_nil, List.nil_append]
    | cons c u ih =>
      intro t rest hu
      have hc : c ≠ '\'' := fun he => hu (he ▸ List.mem_cons_self)
      rw [List.cons_append, lexFrom, if_neg hc, ih _ _ fun hm => hu (List.mem_cons_of_mem _ hm), List.append_assoc]
      rfl
  intro rest hrest
  show lexFrom .outside ('\'' :: (s ++ ['\''] ++ rest)) = _
  rw [lexFrom, if_pos rfl, List.append_assoc, hinside s [] _ hs]
  show lexFrom (.inside s) ('\'' :: rest) = _
  rw [lexFrom, if_pos rfl, hquoted s rest hrest]
  rfl

end SqlText
