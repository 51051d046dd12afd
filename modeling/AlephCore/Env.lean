import AlephCore.Types.Content

/-!
# Env — what the node relies on

The functions of libraries and of PostgreSQL that the code calls, as parameters: JSON parsing, the
cast to `jsonb`, SHA-256, letter case, the signature schemes.  `SqlOrder` stands for the order, left
open by SQL, in which a query delivers its rows.
-/

namespace AlephCore

/-- Library functions. -/
structure Env where
  /-- `serde_json::from_str`, up to the target type. -/
  parseJson : String → Except String Json
  /-- PostgreSQL's `replace(s, '\u0000', '')::jsonb`. -/
  jsonb : String → Except String Json
  /-- The text `->>` gives for a `jsonb` value that is neither a string nor `null`. -/
  jsonbText : Json → String
  /-- PostgreSQL's casts of text to `double precision` and `boolean`. -/
  castFloat : String → Except String ℚ
  castBool : String → Except String Bool
  /-- The lowercase hexadecimal SHA-256 digest. -/
  sha256Hex : ByteArray → String
  /-- `str::to_lowercase`. -/
  toLowercase : String → String
  /-- EIP-191 recovery on secp256k1: message, signature, expected address. -/
  verifyEvmSignature : String → String → String → Except String Bool
  /-- Ed25519 with the public key as address. -/
  verifySolanaSignature : String → String → String → Except String Bool
  /-- secp256k1 with the public key inside the signature. -/
  verifyNulsSignature : String → String → String → Except String Bool
  /-- secp256k1, Cosmos sign documents. -/
  verifyCosmosSignature : String → String → String → Except String Bool
  /-- Sr25519 or Ed25519. -/
  verifySubstrateSignature : String → String → String → Except String Bool

namespace Env

variable (env : Env)

/-- `serde_json::from_str::<T>`. -/
def fromStr {α : Type} (d : Serde.Decode α) (s : String) : Except String α :=
  (env.parseJson s).bind d

/-- `serde_json::from_str::<Value>`, when it succeeds. -/
def fromStrValue? (s : String) : Option Json :=
  (env.parseJson s).toOption

/-- The string under `k` in the text `s`, read as a JSON value. -/
def contentStr? (s : String) (k : String) : Option String :=
  (env.fromStrValue? s).bind fun c => c.getStr? k

/-- `x->>k` on a `jsonb` value. -/
def jsonbGetText (x : Json) (k : String) : Option String :=
  match x.get? k with
  | none => none
  | some .null => none
  | some (.str s) => some s
  | some y => some (env.jsonbText y)

/-- `(x->>k)::double precision`. -/
def jsonbGetFloat (x : Json) (k : String) : Except String (Option ℚ) :=
  match x.get? k with
  | some (.num q) => .ok (some q.toRat)
  | _ => (env.jsonbGetText x k).elim (.ok none) fun s => (env.castFloat s).map some

/-- `(x->>k)::boolean`. -/
def jsonbGetBool (x : Json) (k : String) : Except String (Option Bool) :=
  match x.get? k with
  | some (.bool b) => .ok (some b)
  | _ => (env.jsonbGetText x k).elim (.ok none) fun s => (env.castBool s).map some

/-- `x->k`, `null` for what is missing. -/
def jsonbGet (x : Json) (k : String) : Json := (x.get? k).getD .null

/-- Equal ignoring case. -/
def SameAddress (a b : Address) : Prop := env.toLowercase a = env.toLowercase b

instance (a b : Address) : Decidable (env.SameAddress a b) :=
  inferInstanceAs (Decidable (env.toLowercase a = env.toLowercase b))

/-- Byte arrays are compared by their bytes. -/
local instance (priority := high) decidableEqBytes : DecidableEq ByteArray := ByteArray.instDecidableEq

/-- An environment that knows the given texts, digests (text and digest) and EVM signatures (message,
signature, address), with ASCII letters. -/
def ofTables (docs : List (String × Json)) (digests : List (String × String))
    (signatures : List (String × String × String)) : Env where
  parseJson s := ((docs.find? fun d => decide (d.1 = s)).map Prod.snd).elim (.error "expected value") .ok
  jsonb s := ((docs.find? fun d => decide (d.1 = s)).map Prod.snd).elim (.error "invalid input") .ok
  jsonbText _ := ""
  castFloat _ := .error "invalid input syntax for type double precision"
  castBool _ := .error "invalid input syntax for type boolean"
  sha256Hex b := ((digests.find? fun d => decide (d.1.toUTF8 = b)).map Prod.snd).getD ""
  toLowercase := String.toLower
  verifyEvmSignature m s a := .ok (decide ((m, s, a) ∈ signatures))
  verifySolanaSignature _ _ _ := .ok false
  verifyNulsSignature _ _ _ := .ok false
  verifyCosmosSignature _ _ _ := .ok false
  verifySubstrateSignature _ _ _ := .ok false

theorem ofTables_sha256Hex {docs : List (String × Json)} {digests : List (String × String)}
    {signatures : List (String × String × String)} (s : String) :
    (ofTables docs digests signatures).sha256Hex s.toUTF8 =
      ((digests.find? fun d => decide (d.1 = s)).map Prod.snd).getD "" := by
  simp only [ofTables, String.toUTF8_eq_toByteArray, String.toByteArray_inj]

variable {env}

@[refl] theorem SameAddress.refl (a : Address) : env.SameAddress a a := rfl

theorem SameAddress.symm {a b : Address} (h : env.SameAddress a b) : env.SameAddress b a := Eq.symm h

theorem SameAddress.trans {a b c : Address} (h : env.SameAddress a b) (h' : env.SameAddress b c) :
    env.SameAddress a c := Eq.trans h h'

end Env

/-- The order in which queries without a complete `ORDER BY` deliver their rows. -/
structure SqlOrder where
  /-- The rows in the order of delivery. -/
  scan : {ρ : Type} → List ρ → List ρ
  perm : ∀ {ρ : Type} (l : List ρ), (scan l).Perm l

namespace SqlOrder

@[simp] theorem mem_scan (o : SqlOrder) {ρ : Type} {l : List ρ} {r : ρ} : r ∈ o.scan l ↔ r ∈ l :=
  (o.perm l).mem_iff

/-- Rows come in the order they are stored. -/
def stored : SqlOrder := ⟨fun l => l, fun l => .refl l⟩

open Classical in
/-- The row `a`, where there is one, comes first. -/
noncomputable def favour {α : Type} (a : α) : SqlOrder where
  scan {ρ} l := if h : α = ρ then (if h ▸ a ∈ l then h ▸ a :: l.erase (h ▸ a) else l) else l
  perm {ρ} l := by
    split_ifs with h hmem
    · exact (List.perm_cons_erase hmem).symm
    · exact .refl l
    · exact .refl l

theorem favour_scan {α : Type} {a : α} {l : List α} (h : a ∈ l) : ∃ l', (favour a).scan l = a :: l' := by
  simp only [favour, dif_pos, if_pos h]
  exact ⟨_, rfl⟩

end SqlOrder

end AlephCore
