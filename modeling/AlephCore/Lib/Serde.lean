import AlephCore.Lib.Json

/-!
# Serde — typed decoding of JSON trees

Derived deserialization: a struct is read from an object, where an unknown key is skipped and a known
one may stand only once, or from an array that lists the fields in order.  An optional field may be
absent or `null`; a field with a default may be absent.
-/

namespace Serde

/-- A decoder. -/
abbrev Decode (α : Type) := Json → Except String α

/-- Where a struct's fields come from. -/
inductive Source where
  | map (fs : List (String × Json))
  | seq (xs : List Json)

/-- The first field of that name in the order of the text. -/
def lookup (k : String) : List (String × Json) → Option Json
  | [] => none
  | (k', x) :: fs => if k' = k then some x else lookup k fs

/-- A struct with the given field names, in the order of their declaration. -/
def asStruct (known : List String) : Decode Source
  | .obj fs =>
    match known.find? fun k => decide (1 < fs.countP fun p => decide (p.1 = k)) with
    | some k => .error s!"duplicate field {k}"
    | none => .ok (.map fs)
  | .arr xs => if xs.length ≤ known.length then .ok (.seq xs) else .error "trailing characters"
  | _ => .error "invalid type: expected struct"

namespace Source

/-- The field called `k`, declared at position `i`. -/
def get? : Source → String → Nat → Option Json
  | .map fs, k, _ => lookup k fs
  | .seq xs, _, i => xs[i]?

/-- A field that must be there. -/
def required {α : Type} (s : Source) (k : String) (i : Nat) (d : Decode α) : Except String α :=
  match s.get? k i with
  | some x => d x
  | none => .error s!"missing field {k}"

/-- A field of type `Option`. -/
def optional {α : Type} (s : Source) (k : String) (i : Nat) (d : Decode α) : Except String (Option α) :=
  match s.get? k i, s with
  | some .null, _ => .ok none
  | some x, _ => (d x).map some
  | none, .map _ => .ok none
  | none, .seq _ => .error s!"missing field {k}"

/-- A field that takes the value `a` when it is absent. -/
def withDefault {α : Type} (s : Source) (k : String) (i : Nat) (a : α) (d : Decode α) :
    Except String α :=
  match s.get? k i with
  | some x => d x
  | none => .ok a

end Source

/-- A value that may be `null`. -/
def asOption {α : Type} (d : Decode α) : Decode (Option α)
  | .null => .ok none
  | x => (d x).map some

def asString : Decode String
  | .str s => .ok s
  | _ => .error "invalid type: expected a string"

def asBool : Decode Bool
  | .bool b => .ok b
  | _ => .error "invalid type: expected a boolean"

/-- `f64`: any number. -/
def asF64 : Decode ℚ
  | .num n => .ok n.toRat
  | _ => .error "invalid type: expected f64"

/-- An unsigned integer of the given width: an integer literal in its range. -/
def asUInt (bits : Nat) : Decode Nat
  | .num (.int (.ofNat n)) => if n < 2 ^ bits then .ok n else .error "invalid value: integer"
  | _ => .error "invalid type: expected an unsigned integer"

/-- Any value. -/
def asValue : Decode Value := fun x => .ok x.toValue

/-- Decode the elements one after another. -/
def decodeAll {α : Type} (d : Decode α) : List Json → Except String (List α)
  | [] => .ok []
  | x :: xs => do
    let a ← d x
    let as ← decodeAll d xs
    pure (a :: as)

def asVec {α : Type} (d : Decode α) : Decode (List α)
  | .arr xs => decodeAll d xs
  | _ => .error "invalid type: expected a sequence"

/-- A fieldless enum, by the names of its variants: a string, or an object with `null` under it. -/
def asEnum {α : Type} (variant : String → Option α) : Decode α
  | .str s => (variant s).elim (.error "unknown variant") .ok
  | .obj [(s, .null)] => (variant s).elim (.error "unknown variant") .ok
  | _ => .error "invalid type: expected an enum"

end Serde

namespace Json

/-- `Value::get` with a key: the field of an object (of several equal keys, the last). -/
def get? (x : Json) (k : String) : Option Json :=
  match x with
  | .obj fs => Serde.lookup k fs.reverse
  | _ => none

/-- `Value::as_str`. -/
def asStr? : Json → Option String
  | .str s => some s
  | _ => none

/-- The string under `k`. -/
def getStr? (x : Json) (k : String) : Option String :=
  (x.get? k).bind asStr?

end Json

namespace Serde

theorem lookup_eq_find? (k : String) (fs : List (String × Json)) :
    lookup k fs = (fs.find? fun p => decide (p.1 = k)).map Prod.snd := by
  induction fs with
  | nil => rfl
  | cons p fs ih =>
    by_cases h : p.1 = k
    · simp [lookup, h]
    · simpa [lookup, h] using ih

/-- A key that stands at most once is found from either end. -/
theorem lookup_reverse {k : String} {fs : List (String × Json)}
    (h : fs.countP (fun p => decide (p.1 = k)) ≤ 1) : lookup k fs.reverse = lookup k fs := by
  have hreverse : ∀ l : List (String × Json), l.length ≤ 1 → l.reverse = l
    | [], _ => rfl
    | [_], _ => rfl
    | _ :: _ :: _, h => by simp at h
  have hfilter := hreverse (fs.filter fun p => decide (p.1 = k)) (by rwa [← List.countP_eq_length_filter])
  rw [lookup_eq_find?, lookup_eq_find?, ← List.head?_filter, ← List.head?_filter, List.filter_reverse, hfilter]

/-- **The fields of a struct that is read from an object** are those `Value::get` finds. -/
theorem get?_of_asStruct {known : List String} {fs : List (String × Json)} {s : Source} {k : String}
    (h : asStruct known (.obj fs) = .ok s) (hk : k ∈ known) (i : Nat) :
    s.get? k i = (Json.obj fs).get? k := by
  rw [asStruct] at h
  cases hdup : known.find? fun k => decide (1 < fs.countP fun p => decide (p.1 = k)) with
  | some k' =>
    rw [hdup] at h
    cases h
  | none =>
    rw [hdup] at h
    obtain rfl := Except.ok.inj h
    have hcount := List.find?_eq_none.1 hdup k hk
    simp only [decide_eq_true_eq, not_lt] at hcount
    exact (lookup_reverse hcount).symm

/-- A decoder that succeeds has succeeded step by step. -/
theorem bind_ok {α β : Type} {x : Except String α} {f : α → Except String β} {b : β} :
    (x >>= f) = .ok b ↔ ∃ a, x = .ok a ∧ f a = .ok b := by
  cases x with
  | error e => simp [bind, Except.bind]
  | ok a => simp [bind, Except.bind]

/-- Elements that can all be decoded are decoded one after another. -/
theorem mapM_ok {α β : Type} {f : α → Except String β} {l : List α} (h : ∀ a ∈ l, ∃ b, f a = .ok b) :
    ∃ bs, l.mapM f = .ok bs ∧ ∀ b, b ∈ bs ↔ ∃ a ∈ l, f a = .ok b := by
  induction l with
  | nil => exact ⟨[], rfl, fun b => by simp⟩
  | cons a l ih =>
    obtain ⟨b, hb⟩ := h a List.mem_cons_self
    obtain ⟨bs, hbs, hmem⟩ := ih fun a ha => h a (List.mem_cons_of_mem _ ha)
    refine ⟨b :: bs, ?_, fun c => ?_⟩
    · rw [List.mapM_cons, hb, hbs]
      rfl
    · rw [List.mem_cons, hmem, List.exists_mem_cons_iff, hb, Except.ok.injEq, eq_comm]

/-- What elements that have been decoded one after another were decoded to. -/
theorem mem_of_mapM {α β : Type} {f : α → Except String β} {l : List α} {bs : List β} (h : l.mapM f = .ok bs) :
    (∀ a ∈ l, ∃ b, f a = .ok b) ∧ ∀ b, b ∈ bs ↔ ∃ a ∈ l, f a = .ok b := by
  have hall : ∀ {l : List α} {bs : List β}, l.mapM f = .ok bs → ∀ a ∈ l, ∃ b, f a = .ok b := by
    intro l
    induction l with
    | nil => exact fun _ a ha => absurd ha List.not_mem_nil
    | cons a l ih =>
      intro bs hbs
      rw [List.mapM_cons] at hbs
      obtain ⟨b, hb, hrest⟩ := bind_ok.1 hbs
      obtain ⟨rest, hrest, -⟩ := bind_ok.1 hrest
      exact List.forall_mem_cons.2 ⟨⟨b, hb⟩, ih hrest⟩
  obtain ⟨bs', hbs', hmem⟩ := mapM_ok (hall h)
  rw [h] at hbs'
  obtain rfl := Except.ok.inj hbs'
  exact ⟨hall h, hmem⟩

theorem Source.required_asString {s : Source} {k : String} {i : Nat} {a : String}
    (h : s.required k i asString = .ok a) : s.get? k i = some (.str a) := by
  unfold Source.required at h
  cases hget : s.get? k i with
  | none =>
    rw [hget] at h
    cases h
  | some x =>
    rw [hget] at h
    cases x <;> cases h
    rfl

/-- A string that `Value::get` finds under a field of the struct is that field. -/
theorem getStr?_of_required {known : List String} {x : Json} {s : Source} {k : String} {i : Nat} {a b : String}
    (h : asStruct known x = .ok s) (hk : k ∈ known) (hfield : s.required k i asString = .ok a)
    (hget : x.getStr? k = some b) : b = a := by
  cases x with
  | obj fs =>
    rw [Json.getStr?, ← get?_of_asStruct h hk i, Source.required_asString hfield] at hget
    exact (Option.some.inj hget).symm
  | _ => cases hget

theorem Source.optional_asString {s : Source} {k : String} {i : Nat} {a : String}
    (h : s.optional k i asString = .ok (some a)) : s.get? k i = some (.str a) := by
  unfold Source.optional at h
  cases hget : s.get? k i with
  | none => cases s <;> simp [hget] at h
  | some x => cases x <;> simp_all [asString, Except.map]

theorem Source.optional_asString_none {s : Source} {k : String} {i : Nat} (h : s.optional k i asString = .ok none) :
    s.get? k i = none ∨ s.get? k i = some .null := by
  unfold Source.optional at h
  cases hget : s.get? k i with
  | none => exact .inl rfl
  | some x => cases x <;> simp_all [asString, Except.map]

theorem Source.required_asF64 {s : Source} {k : String} {i : Nat} {q : ℚ} (h : s.required k i asF64 = .ok q) :
    ∃ x, s.get? k i = some (.num x) ∧ x.toRat = q := by
  unfold Source.required at h
  cases hget : s.get? k i with
  | none =>
    rw [hget] at h
    cases h
  | some x =>
    rw [hget] at h
    cases x with
    | num x => exact ⟨x, rfl, Except.ok.inj h⟩
    | _ => cases h

/-! ## What decoders yield -/

section Yields

variable {α : Type} {d : Decode α} {P : α → Prop} {s : Source} {k : String} {i : Nat}

/-- Whatever the decoder accepts has the property. -/
def Yields (d : Decode α) (P : α → Prop) : Prop := ∀ ⦃x a⦄, d x = .ok a → P a

theorem yields_asUInt {bits : Nat} : Yields (asUInt bits) fun n => n < 2 ^ bits := by
  intro x n h
  unfold asUInt at h
  split at h
  · split_ifs at h with hlt
    obtain rfl := Except.ok.inj h
    exact hlt
  · cases h

theorem Yields.required (hd : Yields d P) {a : α} (h : s.required k i d = .ok a) : P a := by
  unfold Source.required at h
  split at h
  · exact hd h
  · cases h

theorem Yields.withDefault (hd : Yields d P) {a a₀ : α} (hdefault : P a₀) (h : s.withDefault k i a₀ d = .ok a) : P a := by
  unfold Source.withDefault at h
  split at h
  · exact hd h
  · obtain rfl := Except.ok.inj h
    exact hdefault

theorem Yields.optional (hd : Yields d P) {o : Option α} (h : s.optional k i d = .ok o) : ∀ a ∈ o, P a := by
  intro a ha
  unfold Source.optional at h
  split at h
  · obtain rfl := Except.ok.inj h
    cases ha
  · rename_i x _ _
    cases hx : d x with
    | error e =>
      rw [hx] at h
      cases h
    | ok b =>
      rw [hx] at h
      obtain rfl := Except.ok.inj h
      obtain rfl := Option.some.inj ha
      exact hd hx
  · obtain rfl := Except.ok.inj h
    cases ha
  · cases h

theorem Yields.asVec (hd : Yields d P) : Yields (asVec d) fun l => ∀ a ∈ l, P a := by
  have hall : ∀ xs l, decodeAll d xs = .ok l → ∀ a ∈ l, P a := by
    intro xs
    induction xs with
    | nil =>
      intro l h a ha
      obtain rfl := Except.ok.inj h
      cases ha
    | cons x xs ih =>
      intro l h
      obtain ⟨b, hb, h⟩ := bind_ok.1 h
      obtain ⟨bs, hbs, h⟩ := bind_ok.1 h
      obtain rfl := Except.ok.inj h
      exact List.forall_mem_cons.2 ⟨hd hb, ih bs hbs⟩
  intro x l h
  cases x with
  | arr xs => exact hall xs l h
  | _ => cases h

end Yields

end Serde
