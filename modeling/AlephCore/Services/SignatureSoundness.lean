import AlephCore.Services.Verifiers

/-!
# SignatureSoundness — what an accepted signature proves

A verifier that answers yes has had the signature accepted by the primitive of its chain, over the text that is
signed and under a key that belongs to the sender.  Substrate signatures may also cover the text in its
`<Bytes>` wrapping, and the Tezos verifier looks at the address alone.  The text names chain, sender, type and
hash without ambiguity as long as the sender is one line.
-/

namespace AlephCore.CryptoService

variable {P : Primitives} {env : Env} {text signature sender : String}

/-! ## What the primitives accept -/

/-- A key recovered from the signature of the text has the address of the sender, up to letter case. -/
def AcceptsEvm (P : Primitives) (env : Env) (text signature sender : String) : Prop :=
  ∃ sigBytes recoverableSig key, decodeHexSignature P signature = .ok sigBytes ∧
    P.recoverableFromCompact (sigBytes.take 64) (normalizeV (sigBytes.getD 64 0)) = .ok recoverableSig ∧
    P.recoverEcdsa (P.keccak256 (utf8Bytes (eip191 text))) recoverableSig = .ok key ∧
    env.toLowercase (pubkeyToEthAddress P key) = env.toLowercase sender

/-- The signature is an Ed25519 signature of the text under the key that the sender is the base58 text of. -/
def AcceptsSolana (P : Primitives) (env : Env) (text signature sender : String) : Prop :=
  ∃ sigJson sigB58 sigBytes keyBytes key, env.parseJson signature = .ok sigJson ∧
    sigJson.getStr? "signature" = some sigB58 ∧ P.base58Decode sigB58 = .ok sigBytes ∧
    P.base58Decode sender = .ok keyBytes ∧ P.verifyingKeyFromBytes keyBytes = .ok key ∧
    P.verifyEd25519 key (utf8Bytes text) sigBytes = true

/-- The signature is an ECDSA signature of the text under the key it brings, whose address is the sender. -/
def AcceptsNuls (P : Primitives) (text signature sender : String) : Prop :=
  ∃ sigBytes key ecdsaSig, decodeHexSignature P signature = .ok sigBytes ∧
    P.publicKeyFromSlice ((sigBytes.drop 1).take 33) = .ok key ∧
    P.signatureFromDer (sigBytes.drop 34) = .ok ecdsaSig ∧
    P.verifyEcdsa (P.sha256 (P.sha256 (utf8Bytes text))) ecdsaSig key = true ∧
    nulsAddressOf P ((sigBytes.drop 1).take 33) sender = sender

/-- A key recovered from the signature of the text has the address of the sender. -/
def AcceptsCosmos (P : Primitives) (text signature sender : String) : Prop :=
  ∃ sigBytes recoveryId recoverableSig key, decodeCosmosSignature P signature = .ok sigBytes ∧
    P.recoverableFromCompact sigBytes recoveryId = .ok recoverableSig ∧
    P.recoverEcdsa (P.sha256 (utf8Bytes text)) recoverableSig = .ok key ∧
    cosmosAddressOf P key sender = some sender

/-- The signature is an Ed25519 signature of the text under the key inside the sender's address. -/
def AcceptsSubstrate (P : Primitives) (text signature sender : String) : Prop :=
  ∃ sigBytes sigData keyBytes key, decodeHexSignature P signature = .ok sigBytes ∧
    substrateSignature sigBytes = .ok sigData ∧ decodeSs58Address P sender = .ok keyBytes ∧
    P.verifyingKeyFromBytes keyBytes = .ok key ∧ P.verifyEd25519 key (utf8Bytes text) sigData = true

/-- The primitive of the chain accepts the signature over the text, under a key of the sender.  The code has no
primitive for Tezos. -/
def Accepts (P : Primitives) (env : Env) (text signature sender : String) : Chain → Prop
  | .sol | .eclipse => AcceptsSolana P env text signature sender
  | .nuls | .nuls2 => AcceptsNuls P text signature sender
  | .csdk => AcceptsCosmos P text signature sender
  | .dot => AcceptsSubstrate P text signature sender
  | .tezos => False
  | _ => AcceptsEvm P env text signature sender

/-- An address of one of the three kinds of Tezos accounts. -/
def TezosAddress (address : String) : Prop := ∃ p ∈ ["tz1", "tz2", "tz3"], p.toList <+: address.toList

/-- What a positive answer says: the signature is accepted over the text, on Polkadot possibly in its wrapping;
on Tezos the sender merely has a Tezos address. -/
def Vouched (P : Primitives) (env : Env) (text signature sender : String) : Chain → Prop
  | .dot => Accepts P env text signature sender .dot ∨ Accepts P env (wrapBytes text) signature sender .dot
  | .tezos => TezosAddress sender
  | chain => Accepts P env text signature sender chain

/-! ## Steps of a verifier -/

theorem except_bind_ok {ε α β : Type} {x : Except ε α} {f : α → Except ε β} {b : β} :
    (x >>= f) = .ok b ↔ ∃ a, x = .ok a ∧ f a = .ok b := by
  cases x with
  | error e => simp [bind, Except.bind]
  | ok a => simp [bind, Except.bind]

theorem ensure_ok {c : Prop} [Decidable c] {e : CryptoError} {u : Unit} : ensure c e = .ok u ↔ c := by
  unfold ensure
  split_ifs with h
  · exact ⟨fun _ => h, fun _ => rfl⟩
  · exact ⟨fun he => (nomatch he), fun hc => absurd hc h⟩

theorem mapError_ok {ε ε' α : Type} {f : ε → ε'} {x : Except ε α} {a : α} : x.mapError f = .ok a ↔ x = .ok a := by
  cases x with
  | error e => simp [Except.mapError]
  | ok b => simp [Except.mapError]

theorem okOr_ok {α : Type} {x : Option α} {e : CryptoError} {a : α} : okOr x e = .ok a ↔ x = some a := by
  cases x with
  | none => simp [okOr]
  | some b => simp [okOr]

theorem fromDigestSlice_ok {hash msg : Bytes} (h : fromDigestSlice hash = .ok msg) : msg = hash := by
  unfold fromDigestSlice at h
  split_ifs at h
  exact (Except.ok.inj h).symm

/-! ## The verifiers -/

theorem verifyEvmSignature_accepts (h : verifyEvmSignature P env text signature sender = .ok true) :
    AcceptsEvm P env text signature sender := by
  obtain ⟨sigBytes, hdecode, h⟩ := except_bind_ok.1 h
  obtain ⟨-, -, h⟩ := except_bind_ok.1 h
  obtain ⟨-, -, h⟩ := except_bind_ok.1 h
  obtain ⟨msg, hmsg, h⟩ := except_bind_ok.1 h
  obtain rfl := fromDigestSlice_ok hmsg
  obtain ⟨recoverableSig, hsig, h⟩ := except_bind_ok.1 h
  obtain ⟨key, hkey, h⟩ := except_bind_ok.1 h
  have hsame := of_decide_eq_true (Except.ok.inj h)
  exact ⟨sigBytes, recoverableSig, key, hdecode, mapError_ok.1 hsig, mapError_ok.1 hkey, hsame⟩

/-- One of the messages is signed. -/
theorem verifyEd25519With_ok {expected : String} {sigBytes keyBytes : Bytes} {messages : List String}
    (h : verifyEd25519With P expected sigBytes keyBytes messages = .ok true) :
    ∃ key, P.verifyingKeyFromBytes keyBytes = .ok key ∧
      ∃ m ∈ messages, P.verifyEd25519 key (utf8Bytes m) sigBytes = true := by
  obtain ⟨-, -, h⟩ := except_bind_ok.1 h
  obtain ⟨key, hkey, h⟩ := except_bind_ok.1 h
  exact ⟨key, mapError_ok.1 hkey, List.any_eq_true.1 (Except.ok.inj h)⟩

theorem verifySolanaSignature_accepts (h : verifySolanaSignature P env text signature sender = .ok true) :
    AcceptsSolana P env text signature sender := by
  obtain ⟨sigJson, hjson, h⟩ := except_bind_ok.1 h
  obtain ⟨sigB58, hsig, h⟩ := except_bind_ok.1 h
  obtain ⟨pubkeyB58, hpubkey, h⟩ := except_bind_ok.1 h
  obtain ⟨-, -, h⟩ := except_bind_ok.1 h
  by_cases hsender : pubkeyB58 = sender
  · subst hsender
    rw [if_neg (not_not.2 rfl)] at h
    obtain ⟨sigBytes, hdecode, h⟩ := except_bind_ok.1 h
    obtain ⟨-, -, h⟩ := except_bind_ok.1 h
    obtain ⟨keyBytes, hkeyBytes, h⟩ := except_bind_ok.1 h
    obtain ⟨key, hkey, m, hm, hverify⟩ := verifyEd25519With_ok h
    obtain rfl := List.mem_singleton.1 hm
    exact ⟨sigJson, sigB58, sigBytes, keyBytes, key, mapError_ok.1 hjson, okOr_ok.1 hsig, mapError_ok.1 hdecode,
      mapError_ok.1 hkeyBytes, hkey, hverify⟩
  · rw [if_pos hsender] at h
    cases h

theorem verifyNulsSignature_accepts (h : verifyNulsSignature P text signature sender = .ok true) :
    AcceptsNuls P text signature sender := by
  obtain ⟨sigBytes, hdecode, h⟩ := except_bind_ok.1 h
  obtain ⟨-, -, h⟩ := except_bind_ok.1 h
  obtain ⟨-, -, h⟩ := except_bind_ok.1 h
  obtain ⟨key, hkey, h⟩ := except_bind_ok.1 h
  by_cases hsender : nulsAddressOf P ((sigBytes.drop 1).take 33) sender = sender
  · rw [if_neg (not_not.2 hsender)] at h
    obtain ⟨msg, hmsg, h⟩ := except_bind_ok.1 h
    obtain rfl := fromDigestSlice_ok hmsg
    obtain ⟨ecdsaSig, hsig, h⟩ := except_bind_ok.1 h
    exact ⟨sigBytes, key, ecdsaSig, hdecode, mapError_ok.1 hkey, mapError_ok.1 hsig, Except.ok.inj h, hsender⟩
  · rw [if_pos hsender] at h
    cases h

theorem recoverCosmosKey_eq_some {msg sigBytes : Bytes} {recoveryId : UInt8} {key : P.PublicKey}
    (h : recoverCosmosKey P msg sigBytes recoveryId = some key) :
    ∃ recoverableSig, P.recoverableFromCompact sigBytes recoveryId = .ok recoverableSig ∧
      P.recoverEcdsa msg recoverableSig = .ok key := by
  unfold recoverCosmosKey at h
  cases hsig : P.recoverableFromCompact sigBytes recoveryId with
  | error e =>
    rw [hsig] at h
    cases h
  | ok recoverableSig =>
    rw [hsig] at h
    refine ⟨recoverableSig, rfl, ?_⟩
    cases hkey : P.recoverEcdsa msg recoverableSig with
    | error e =>
      have h : (P.recoverEcdsa msg recoverableSig).toOption = some key := h
      rw [hkey] at h
      cases h
    | ok key' =>
      have h : (P.recoverEcdsa msg recoverableSig).toOption = some key := h
      rw [hkey] at h
      rw [Option.some.inj h]

theorem verifyCosmosSignature_accepts (h : verifyCosmosSignature P text signature sender = .ok true) :
    AcceptsCosmos P text signature sender := by
  obtain ⟨sigBytes, hdecode, h⟩ := except_bind_ok.1 h
  obtain ⟨-, -, h⟩ := except_bind_ok.1 h
  obtain ⟨msg, hmsg, h⟩ := except_bind_ok.1 h
  obtain rfl := fromDigestSlice_ok hmsg
  obtain ⟨recoveryId, -, hany⟩ := List.any_eq_true.1 (Except.ok.inj h)
  obtain ⟨key, hkey, haddress⟩ := (Option.any_eq_true _ _).1 hany
  obtain ⟨recoverableSig, hsig, hrecover⟩ := recoverCosmosKey_eq_some hkey
  exact ⟨sigBytes, recoveryId, recoverableSig, key, hdecode, hsig, hrecover, of_decide_eq_true haddress⟩

theorem verifySubstrateSignature_accepts (h : verifySubstrateSignature P text signature sender = .ok true) :
    AcceptsSubstrate P text signature sender ∨ AcceptsSubstrate P (wrapBytes text) signature sender := by
  obtain ⟨sigBytes, hdecode, h⟩ := except_bind_ok.1 h
  obtain ⟨-, -, h⟩ := except_bind_ok.1 h
  obtain ⟨sigData, hdata, h⟩ := except_bind_ok.1 h
  obtain ⟨keyBytes, hkeyBytes, h⟩ := except_bind_ok.1 h
  obtain ⟨key, hkey, m, hm, hverify⟩ := verifyEd25519With_ok h
  rcases List.mem_cons.1 hm with rfl | hm
  · exact .inl ⟨sigBytes, sigData, keyBytes, key, hdecode, hdata, hkeyBytes, hkey, hverify⟩
  · obtain rfl := List.mem_singleton.1 hm
    exact .inr ⟨sigBytes, sigData, keyBytes, key, hdecode, hdata, hkeyBytes, hkey, hverify⟩

/-- **A positive answer vouches for the signature.** -/
theorem verifySignature_vouched {chain : Chain}
    (h : verifySignature (withVerifiers P env) chain text signature sender = .ok true) :
    Vouched P env text signature sender chain := by
  cases chain with
  | sol | eclipse => exact verifySolanaSignature_accepts (mapError_ok.1 h)
  | csdk => exact verifyCosmosSignature_accepts (mapError_ok.1 h)
  | dot => exact verifySubstrateSignature_accepts (mapError_ok.1 h)
  | nuls | nuls2 => exact verifyNulsSignature_accepts (mapError_ok.1 h)
  | tezos =>
    have h : verifyTezosSignature text signature sender = .ok true := h
    unfold verifyTezosSignature at h
    split_ifs at h with haddress
    obtain ⟨p, hp, hprefix⟩ := List.any_eq_true.1 haddress
    exact ⟨p, hp, List.isPrefixOf_iff_prefix.1 hprefix⟩
  | _ => exact verifyEvmSignature_accepts (mapError_ok.1 h)

/-! ## The text that is signed -/

/-- The text is a single line. -/
def OneLine (s : String) : Prop := '\n' ∉ s.toList

instance (s : String) : Decidable (OneLine s) := inferInstanceAs (Decidable (¬ _))

theorem oneLine_chain (chain : Chain) : OneLine chain.toString := by
  cases chain <;> decide

theorem oneLine_messageType (t : MessageType) : OneLine t.toString := by
  cases t <;> decide

theorem ofString?_toString (chain : Chain) : Chain.ofString? chain.toString = some chain := by
  cases chain <;> decide +kernel

theorem chain_toString_injective : Function.Injective Chain.toString := by
  intro a b h
  have ha := ofString?_toString a
  rw [h, ofString?_toString b] at ha
  exact (Option.some.inj ha).symm

/-- Two texts with the same first line have the same rest. -/
theorem append_newline_inj {a b : List Char} {r s : List Char} (ha : '\n' ∉ a) (hb : '\n' ∉ b)
    (h : a ++ '\n' :: r = b ++ '\n' :: s) : a = b ∧ r = s := by
  induction a generalizing b with
  | nil =>
    cases b with
    | nil => exact ⟨rfl, (List.cons.inj h).2⟩
    | cons c b => exact absurd ((List.cons.inj h).1 ▸ List.mem_cons_self) hb
  | cons c a ih =>
    cases b with
    | nil => exact absurd ((List.cons.inj h).1 ▸ List.mem_cons_self) ha
    | cons d b =>
      obtain ⟨rfl, htail⟩ := List.cons.inj h
      obtain ⟨rfl, hrest⟩ := ih (fun hm => ha (List.mem_cons_of_mem _ hm))
        (fun hm => hb (List.mem_cons_of_mem _ hm)) htail
      exact ⟨rfl, hrest⟩

theorem toList_lines (a b c d : String) :
    (a ++ "\n" ++ b ++ "\n" ++ c ++ "\n" ++ d).toList =
      a.toList ++ '\n' :: (b.toList ++ '\n' :: (c.toList ++ '\n' :: d.toList)) := by
  have hnewline : "\n".toList = ['\n'] := by decide
  simp only [String.toList_append, hnewline, List.append_assoc, List.cons_append, List.nil_append]

theorem buffer_toList (chain : Chain) (sender : Address) (t : MessageType) (itemHash : ItemHash) :
    (getVerificationBuffer chain sender t itemHash).toList =
      chain.toString.toList ++ '\n' :: (sender.toList ++ '\n' :: (t.toString.toList ++ '\n' :: itemHash.toList)) :=
  toList_lines _ _ _ _

/-- **The signed text determines what is signed**, for senders of one line. -/
theorem buffer_inj {chain chain' : Chain} {sender sender' : Address} {t t' : MessageType} {itemHash itemHash' : ItemHash}
    (hsender : OneLine sender) (hsender' : OneLine sender')
    (h : getVerificationBuffer chain sender t itemHash = getVerificationBuffer chain' sender' t' itemHash') :
    chain = chain' ∧ sender = sender' ∧ t = t' ∧ itemHash = itemHash' := by
  have hlist := congrArg String.toList h
  rw [buffer_toList, buffer_toList] at hlist
  obtain ⟨hchain, hlist⟩ := append_newline_inj (oneLine_chain _) (oneLine_chain _) hlist
  obtain ⟨hsenders, hlist⟩ := append_newline_inj hsender hsender' hlist
  obtain ⟨htype, hhash⟩ := append_newline_inj (oneLine_messageType _) (oneLine_messageType _) hlist
  exact ⟨chain_toString_injective (String.toList_inj.1 hchain), String.toList_inj.1 hsenders,
    MessageType.toString_injective (String.toList_inj.1 htype), String.toList_inj.1 hhash⟩

/-- **No forged signature is accepted**, and the text that is signed determines chain, sender, type and hash for
senders of one line. -/
theorem signature_sound (P : Primitives) (env : Env) :
    (∀ chain sender t itemHash signature,
      verifyMessageSignature (withVerifiers P env) chain sender t itemHash signature = .ok true →
        Vouched P env (getVerificationBuffer chain sender t itemHash) signature sender chain) ∧
      ∀ chain chain' sender sender' t t' itemHash itemHash', OneLine sender → OneLine sender' →
        getVerificationBuffer chain sender t itemHash = getVerificationBuffer chain' sender' t' itemHash' →
        chain = chain' ∧ sender = sender' ∧ t = t' ∧ itemHash = itemHash' :=
  ⟨fun _ _ _ _ _ h => verifySignature_vouched h, fun _ _ _ _ _ _ _ _ => buffer_inj⟩

theorem ok_of_toOption {ε α : Type} {x : Except ε α} {a : α} (h : x.toOption = some a) : x = .ok a := by
  cases x with
  | error e => cases h
  | ok b => exact congrArg Except.ok (Option.some.inj h)

/-! ### A signature of the text, one of its wrapping, and none at all -/

section Signed

def signer : Address := "0x8fa7De588b149EFa9F1FdBe307921842F27B37C7"

def signedHash : ItemHash := "150f132ae8d4d5a198273073d1c202ef05d100d453dac0ef552bc42bfb2cbeda"

def evmSignature : String :=
  "0x5819e9575c60dd05d06245366075e54f6ce3a9d79ce5a82fb23befeae549cb846e39c58970aff180ab12b6549cdbf057600f20b4f4b16f" ++
    "2ad3f0dc5756a0fd821b"

def signatureBytes : Bytes :=
  [88, 25, 233, 87, 92, 96, 221, 5, 208, 98, 69, 54, 96, 117, 229, 79, 108, 227, 169, 215, 156, 229, 168,
    47, 178, 59, 239, 234, 229, 73, 203, 132, 110, 57, 197, 137, 112, 175, 241, 128, 171, 18, 182, 84, 156,
    219, 240, 87, 96, 15, 32, 180, 244, 177, 111, 42, 211, 240, 220, 87, 86, 160, 253, 130, 27]

def textDigest : Bytes :=
  [41, 163, 40, 126, 255, 37, 15, 43, 84, 14, 196, 176, 233, 48, 176, 72, 175, 130, 113, 91, 180, 32, 232,
    49, 224, 200, 86, 110, 132, 132, 113, 225]

def signerKey : Bytes :=
  [4, 153, 151, 164, 151, 217, 100, 252, 26, 98, 136, 91, 5, 165, 17, 102, 166, 90, 144, 223, 0, 73, 44,
    141, 124, 246, 29, 106, 204, 245, 72, 3, 190, 34, 152, 133, 213, 7, 192, 173, 133, 63, 159, 0, 2, 86,
    77, 130, 27, 231, 28, 237, 130, 3, 139, 120, 159, 173, 12, 113, 226, 138, 2, 37, 117]

def keyDigest : Bytes :=
  [41, 251, 246, 45, 96, 73, 104, 228, 18, 15, 73, 64, 143, 167, 222, 88, 139, 20, 158, 250, 159, 31, 219,
    227, 7, 146, 24, 66, 242, 123, 55, 199]

/-- Libraries that accept no signature at all. -/
def refusing : Primitives where
  keccak256 _ := List.replicate 32 0
  sha256 _ := List.replicate 32 0
  ripemd160 _ := List.replicate 20 0
  hexDecode _ := .error "invalid character"
  base58Decode _ := .error "invalid character"
  base58Encode _ := ""
  base64Decode _ := .error "invalid byte"
  bech32Encode _ _ := none
  debugValue _ := ""
  PublicKey := Bytes
  RecoverableSignature := Bytes × UInt8
  EcdsaSignature := Bytes
  recoverableFromCompact b r := .ok (b, r)
  recoverEcdsa _ _ := .error "signature failed verification"
  publicKeyFromSlice _ := .error "malformed public key"
  serialize b := b
  serializeUncompressed b := b
  signatureFromDer _ := .error "malformed signature"
  verifyEcdsa _ _ _ := false
  VerifyingKey := Bytes
  verifyingKeyFromBytes b := .ok b
  verifyEd25519 _ _ _ := false

/-- Libraries that know the signature of the text. -/
def ethereum : Primitives :=
  { refusing with
    hexDecode := fun s =>
      if s = String.ofList (evmSignature.toList.drop 2) then .ok signatureBytes else .error "invalid character"
    keccak256 := fun b =>
      if b = signerKey.drop 1 then keyDigest
      else if b = utf8Bytes (eip191 (getVerificationBuffer .eth signer .post signedHash)) then textDigest else []
    PublicKey := Bytes
    RecoverableSignature := Bytes × UInt8
    recoverableFromCompact := fun b r => .ok (b, r)
    recoverEcdsa := fun digest sig =>
      if digest = textDigest ∧ sig = (signatureBytes.take 64, 0) then .ok signerKey
      else .error "signature failed verification"
    serialize := id
    serializeUncompressed := id
    publicKeyFromSlice := fun _ => .error "malformed public key"
    verifyEcdsa := fun _ _ _ => false }

def substrateSender : Address := "5GrwvaEF5zXb26Fz9rcQpDWS57CtERHpNehXCPcNoHGKutQY"

/-- The bytes of the address: the network, the key and the checksum. -/
def substrateBytes : Bytes :=
  [42, 212, 53, 147, 199, 21, 253, 211, 28, 97, 20, 26, 189, 4, 169, 159, 214, 130, 44, 133, 88, 133, 76, 205,
    227, 154, 86, 132, 231, 165, 109, 162, 125, 29, 33]

/-- Libraries that know a signature of the wrapped text. -/
def substrate : Primitives :=
  { refusing with
    hexDecode := fun _ => .ok (List.replicate 64 0)
    base58Decode := fun _ => .ok substrateBytes
    VerifyingKey := Bytes
    verifyingKeyFromBytes := fun b => .ok b
    verifyEd25519 := fun _ m _ =>
      m = utf8Bytes (wrapBytes (getVerificationBuffer .dot substrateSender .post signedHash)) }

/-- Letter case for ASCII, and no JSON. -/
def asciiEnv : Env := { Env.ofTables [] [] [] with toLowercase := fun s => String.ofList (s.toList.map Char.toLower) }

def tezosSender : Address := "tz1VSUr8wwNhLAzempoch5d6hLRiTh8Cjcjb"

example : (decodeSs58Address substrate substrateSender).toOption = some (substrateBytes.drop 1 |>.take 32) := by
  decide +kernel

/-- The signature of the text is accepted, and vouched for. -/
theorem evmSignature_vouched :
    verifyMessageSignature (withVerifiers ethereum asciiEnv) .eth signer .post signedHash evmSignature = .ok true ∧
      Vouched ethereum asciiEnv (getVerificationBuffer .eth signer .post signedHash) evmSignature signer .eth := by
  have haccepted : (verifyMessageSignature (withVerifiers ethereum asciiEnv) .eth signer .post signedHash
      evmSignature).toOption = some true := by decide +kernel
  exact ⟨ok_of_toOption haccepted, (signature_sound ethereum asciiEnv).1 _ _ _ _ _ (ok_of_toOption haccepted)⟩

/-- Tezos takes no signature at all, and Polkadot one of the wrapped text. -/
theorem accepted_unsigned :
    (verifyMessageSignature (withVerifiers refusing asciiEnv) .tezos tezosSender .post signedHash "" = .ok true ∧
      ¬ Accepts refusing asciiEnv (getVerificationBuffer .tezos tezosSender .post signedHash) "" tezosSender .tezos) ∧
      verifyMessageSignature (withVerifiers substrate asciiEnv) .dot substrateSender .post signedHash "0x" = .ok true ∧
      ¬ Accepts substrate asciiEnv (getVerificationBuffer .dot substrateSender .post signedHash) "0x"
        substrateSender .dot := by
  have htezos : (verifyMessageSignature (withVerifiers refusing asciiEnv) .tezos tezosSender .post signedHash
      "").toOption = some true := by decide +kernel
  have hdot : (verifyMessageSignature (withVerifiers substrate asciiEnv) .dot substrateSender .post signedHash
      "0x").toOption = some true := by decide +kernel
  refine ⟨⟨ok_of_toOption htezos, id⟩, ok_of_toOption hdot, ?_⟩
  rintro ⟨_, _, _, _, -, -, -, -, hverify⟩
  have hdiffer : ¬ (utf8Bytes (getVerificationBuffer .dot substrateSender .post signedHash) =
      utf8Bytes (wrapBytes (getVerificationBuffer .dot substrateSender .post signedHash))) := by decide +kernel
  exact hdiffer (decide_eq_true_iff.1 hverify)

end Signed

end AlephCore.CryptoService
