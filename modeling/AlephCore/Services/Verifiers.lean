import AlephCore.Services.Crypto

/-!
# Verifiers — the signature verifiers of the chains

Mirrors the verifiers of `services/crypto.rs`: how each takes a signature and a key apart, what it hashes, and
how it compares the key with the sender.  The curves, the hash functions and the text encodings are parameters.
-/

namespace AlephCore

abbrev Bytes := List UInt8

/-- The bytes of a text. -/
def utf8Bytes (s : String) : Bytes := s.toUTF8.data.toList

/-- The errors of the crypto service. -/
inductive CryptoError where
  | invalidSignatureFormat (e : String)
  | invalidPublicKey (e : String)
  | verificationFailed
  | unsupportedChain (e : String)
  | hexError (e : String)
  | secp256k1Error (e : String)
  | ed25519Error (e : String)
  | base58Error (e : String)
  | jsonError (e : String)

def CryptoError.toString : CryptoError → String
  | invalidSignatureFormat e => s!"Invalid signature format: {e}"
  | invalidPublicKey e => s!"Invalid public key: {e}"
  | verificationFailed => "Signature verification failed"
  | unsupportedChain e => s!"Unsupported chain: {e}"
  | hexError e => s!"Hex decode error: {e}"
  | secp256k1Error e => s!"Secp256k1 error: {e}"
  | ed25519Error e => s!"Ed25519 error: {e}"
  | base58Error e => s!"Base58 decode error: {e}"
  | jsonError e => s!"JSON parse error: {e}"

/-- The primitives of the libraries. -/
structure Primitives where
  keccak256 : Bytes → Bytes
  sha256 : Bytes → Bytes
  ripemd160 : Bytes → Bytes
  hexDecode : String → Except String Bytes
  base58Decode : String → Except String Bytes
  base58Encode : Bytes → String
  base64Decode : String → Except String Bytes
  /-- `Hrp::parse` and `bech32::encode`. -/
  bech32Encode : String → Bytes → Option String
  /-- `{:?}` of a JSON value. -/
  debugValue : Json → String
  /-- secp256k1. -/
  PublicKey : Type
  RecoverableSignature : Type
  EcdsaSignature : Type
  recoverableFromCompact : Bytes → UInt8 → Except String RecoverableSignature
  recoverEcdsa : Bytes → RecoverableSignature → Except String PublicKey
  publicKeyFromSlice : Bytes → Except String PublicKey
  serialize : PublicKey → Bytes
  serializeUncompressed : PublicKey → Bytes
  signatureFromDer : Bytes → Except String EcdsaSignature
  verifyEcdsa : Bytes → EcdsaSignature → PublicKey → Bool
  /-- Ed25519. -/
  VerifyingKey : Type
  verifyingKeyFromBytes : Bytes → Except String VerifyingKey
  verifyEd25519 : VerifyingKey → Bytes → Bytes → Bool

namespace CryptoService

/-! ## What the verifiers share -/

/-- Go on only if `c` holds. -/
def ensure (c : Prop) [Decidable c] (e : CryptoError) : Except CryptoError Unit :=
  if c then .ok () else .error e

def okOr {α : Type} (x : Option α) (e : CryptoError) : Except CryptoError α := x.elim (.error e) .ok

/-- `trim_start_matches("0x")`: every leading `0x` goes. -/
def trimStart0x : List Char → List Char
  | '0' :: 'x' :: cs => trimStart0x cs
  | cs => cs

/-- `str::starts_with`. -/
def startsWith (s p : String) : Bool := p.toList.isPrefixOf s.toList

/-- Lowercase hexadecimal digits. -/
def hexEncode (bytes : Bytes) : String :=
  String.ofList (bytes.flatMap fun b => [Nat.digitChar (b.toNat / 16), Nat.digitChar (b.toNat % 16)])

variable (P : Primitives) (env : Env)

/-- The signature as bytes, with or without `0x`. -/
def decodeHexSignature (signature : String) : Except CryptoError Bytes :=
  (P.hexDecode (String.ofList (trimStart0x signature.toList))).mapError .hexError

/-- `Secp256k1Message::from_digest_slice`. -/
def fromDigestSlice (hash : Bytes) : Except CryptoError Bytes :=
  if hash.length = 32 then .ok hash else .error .verificationFailed

/-! ## EVM -/

/-- The text an EIP-191 signature covers. -/
def eip191 (message : String) : String :=
  s!"\x19Ethereum Signed Message:\n{message.utf8ByteSize}{message}"

/-- Ethereum uses 27 and 28, secp256k1 uses 0 and 1. -/
def normalizeV (v : UInt8) : UInt8 := if 27 ≤ v then v - 27 else v

def pubkeyToEthAddress (key : P.PublicKey) : String :=
  "0x" ++ hexEncode ((P.keccak256 ((P.serializeUncompressed key).drop 1)).drop 12)

def verifyEvmSignature (message signature expectedAddress : String) : Except CryptoError Bool := do
  let sigBytes ← decodeHexSignature P signature
  ensure (sigBytes.length = 65) (.invalidSignatureFormat s!"Expected 65 bytes, got {sigBytes.length}")
  let recoveryId := normalizeV (sigBytes.getD 64 0)
  ensure (recoveryId ≤ 1) (.invalidSignatureFormat s!"Invalid recovery id: {recoveryId}")
  let msg ← fromDigestSlice (P.keccak256 (utf8Bytes (eip191 message)))
  let recoverableSig ← (P.recoverableFromCompact (sigBytes.take 64) recoveryId).mapError .secp256k1Error
  let publicKey ← (P.recoverEcdsa msg recoverableSig).mapError .secp256k1Error
  pure (env.toLowercase (pubkeyToEthAddress P publicKey) = env.toLowercase expectedAddress)

/-! ## Solana -/

/-- Verify an Ed25519 signature of one of the messages under the key with these bytes. -/
def verifyEd25519With (expected : String) (sigBytes pubkeyBytes : Bytes) (messages : List String) :
    Except CryptoError Bool := do
  ensure (pubkeyBytes.length = 32) (.invalidPublicKey s!"{expected}, got {pubkeyBytes.length}")
  let verifyingKey ← (P.verifyingKeyFromBytes pubkeyBytes).mapError .invalidPublicKey
  pure (messages.any fun m => P.verifyEd25519 verifyingKey (utf8Bytes m) sigBytes)

/-- A version, if there is one, is 1. -/
def versionOk (sigJson : Json) : Bool :=
  (sigJson.get? "version").all fun v => match v with
    | .num (.int n) => n == 1
    | _ => false

def verifySolanaSignature (message signature expectedAddress : String) : Except CryptoError Bool := do
  let sigJson ← (env.parseJson signature).mapError fun e => .jsonError s!"Invalid Solana signature JSON: {e}"
  let sigB58 ← okOr (sigJson.getStr? "signature") (.invalidSignatureFormat "Missing 'signature' field")
  let pubkeyB58 ← okOr (sigJson.getStr? "publicKey") (.invalidSignatureFormat "Missing 'publicKey' field")
  ensure (versionOk sigJson) (.invalidSignatureFormat
    ("Unsupported signature version: " ++ P.debugValue ((sigJson.get? "version").getD .null)))
  if pubkeyB58 ≠ expectedAddress then pure false
  else do
    let sigBytes ← (P.base58Decode sigB58).mapError .base58Error
    ensure (sigBytes.length = 64)
      (.invalidSignatureFormat s!"Expected 64 bytes for Ed25519 signature, got {sigBytes.length}")
    let pubkeyBytes ← (P.base58Decode pubkeyB58).mapError .base58Error
    verifyEd25519With P "Expected 32 bytes for Ed25519 public key" sigBytes pubkeyBytes [message]

/-! ## NULS -/

/-- The chain of an address, by its prefix. -/
def parseNulsAddress (address : String) : UInt16 × UInt8 :=
  if startsWith address "NULSd6" then (1, 1)
  else if startsWith address "tNULS" then (2, 1)
  else (1, 1)

def buildNulsAddress (chainId : UInt16) (addrType : UInt8) (hash : Bytes) : String :=
  let addrBytes := [chainId.toUInt8, (chainId >>> 8).toUInt8, addrType] ++ hash.take 20
  let xor := addrBytes.foldl (fun acc b => acc ^^^ b) 0
  (if chainId = 1 then "NULSd" else if chainId = 2 then "tNULSe" else "NULS") ++
    P.base58Encode (addrBytes ++ [xor])

/-- The address of a key on the chain of another address. -/
def nulsAddressOf (pubkeyBytes : Bytes) (address : String) : String :=
  let (chainId, addrType) := parseNulsAddress address
  buildNulsAddress P chainId addrType (P.ripemd160 (P.sha256 pubkeyBytes))

def verifyNulsSignature (message signature expectedAddress : String) : Except CryptoError Bool := do
  let sigBytes ← decodeHexSignature P signature
  ensure (34 + 64 ≤ sigBytes.length)
    (.invalidSignatureFormat s!"NULS signature too short: {sigBytes.length} bytes")
  ensure (sigBytes.head? = some 33) (.invalidSignatureFormat "Invalid NULS signature structure")
  let pubkeyBytes := (sigBytes.drop 1).take 33
  let pubkey ← (P.publicKeyFromSlice pubkeyBytes).mapError .invalidPublicKey
  if nulsAddressOf P pubkeyBytes expectedAddress ≠ expectedAddress then pure false
  else do
    let msg ← fromDigestSlice (P.sha256 (P.sha256 (utf8Bytes message)))
    let ecdsaSig ← (P.signatureFromDer (sigBytes.drop 34)).mapError fun e =>
      .invalidSignatureFormat s!"Invalid DER signature: {e}"
    pure (P.verifyEcdsa msg ecdsaSig pubkey)

/-! ## Cosmos -/

/-- The signature as bytes, in hexadecimal or in base64. -/
def decodeCosmosSignature (signature : String) : Except CryptoError Bytes :=
  if startsWith signature "0x" then decodeHexSignature P signature
  else (P.base64Decode signature).mapError .invalidSignatureFormat

/-- What stands before the first `1`. -/
def cosmosPrefix (address : String) : String := String.ofList (address.toList.takeWhile (· ≠ '1'))

/-- The key recovered with one of the recovery ids, if it can be recovered. -/
def recoverCosmosKey (msg sigBytes : Bytes) (recoveryId : UInt8) : Option P.PublicKey :=
  match P.recoverableFromCompact sigBytes recoveryId with
  | .ok recoverableSig => (P.recoverEcdsa msg recoverableSig).toOption
  | .error _ => none

def cosmosAddressOf (key : P.PublicKey) (address : String) : Option String :=
  P.bech32Encode (cosmosPrefix address) (P.ripemd160 (P.sha256 (P.serialize key)))

def verifyCosmosSignature (message signature expectedAddress : String) : Except CryptoError Bool := do
  let sigBytes ← decodeCosmosSignature P signature
  ensure (sigBytes.length = 64)
    (.invalidSignatureFormat s!"Expected 64 bytes for Cosmos signature, got {sigBytes.length}")
  let msg ← fromDigestSlice (P.sha256 (utf8Bytes message))
  pure ([0, 1].any fun recoveryId => (recoverCosmosKey P msg sigBytes recoveryId).any fun key =>
    decide (cosmosAddressOf P key expectedAddress = some expectedAddress))

/-! ## Substrate -/

/-- The key inside an SS58 address; neither the network nor the checksum is looked at. -/
def decodeSs58Address (address : String) : Except CryptoError Bytes := do
  let decoded ← (P.base58Decode address).mapError .base58Error
  ensure (35 ≤ decoded.length) (.invalidPublicKey "SS58 address too short")
  let prefixLen := if decoded.getD 0 0 < 64 then 1 else 2
  pure ((decoded.take (decoded.length - 2)).drop prefixLen)

/-- Wrapped message format (common in Substrate). -/
def wrapBytes (message : String) : String := "<Bytes>" ++ message ++ "</Bytes>"

/-- The signature without its type byte, if it has one. -/
def substrateSignature (sigBytes : Bytes) : Except CryptoError Bytes :=
  if sigBytes.length = 65 then .ok (sigBytes.drop 1)
  else if sigBytes.length = 64 then .ok sigBytes
  else .error (.invalidSignatureFormat s!"Invalid Substrate signature length: {sigBytes.length}")

def verifySubstrateSignature (message signature expectedAddress : String) : Except CryptoError Bool := do
  let sigBytes ← decodeHexSignature P signature
  ensure (sigBytes ≠ []) (.invalidSignatureFormat "Empty signature")
  let sigData ← substrateSignature sigBytes
  let pubkeyBytes ← decodeSs58Address P expectedAddress
  verifyEd25519With P "Expected 32 bytes" sigData pubkeyBytes [message, wrapBytes message]

/-- The environment whose signature checks are these verifiers. -/
def withVerifiers : Env :=
  { env with
    verifyEvmSignature := fun m s a => (verifyEvmSignature P env m s a).mapError CryptoError.toString
    verifySolanaSignature := fun m s a => (verifySolanaSignature P env m s a).mapError CryptoError.toString
    verifyNulsSignature := fun m s a => (verifyNulsSignature P m s a).mapError CryptoError.toString
    verifyCosmosSignature := fun m s a => (verifyCosmosSignature P m s a).mapError CryptoError.toString
    verifySubstrateSignature := fun m s a => (verifySubstrateSignature P m s a).mapError CryptoError.toString }

end CryptoService

end AlephCore
