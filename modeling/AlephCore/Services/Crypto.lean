import AlephCore.Env

/-!
# Crypto — signature verification

Mirrors `services/crypto.rs`: the text that is signed, and the dispatch on the chain.  The signature
schemes themselves are parameters, except Tezos, where the code checks no signature.
-/

namespace AlephCore.CryptoService

variable (env : Env)

/-- The text a sender signs.  It does not contain the content, only its hash. -/
def getVerificationBuffer (chain : Chain) (sender : Address) (msgType : MessageType)
    (itemHash : ItemHash) : String :=
  s!"{chain.toString}\n{sender}\n{msgType.toString}\n{itemHash}"

/-- Any signature of an address with a Tezos prefix is accepted. -/
def verifyTezosSignature (_message _signature expectedAddress : String) : Except String Bool :=
  if ["tz1", "tz2", "tz3"].any fun p => p.toList.isPrefixOf expectedAddress.toList then
    .ok true
  else
    .error s!"Invalid signature format: Invalid Tezos address prefix: {expectedAddress}"

/-- The verifier of a chain. -/
def verifySignature (chain : Chain) (message signature expectedAddress : String) :
    Except String Bool :=
  match chain with
  | .eth | .avax | .base | .bsc | .arbitrum | .blast | .bob | .cyber | .fraxtal | .hype | .ink | .lens
  | .metis | .mode | .neo | .linea | .lisk | .optimism | .pol | .sonic | .unichain | .worldchain
  | .zora | .etherlink => env.verifyEvmSignature message signature expectedAddress
  | .sol | .eclipse => env.verifySolanaSignature message signature expectedAddress
  | .tezos => verifyTezosSignature message signature expectedAddress
  | .nuls | .nuls2 => env.verifyNulsSignature message signature expectedAddress
  | .csdk => env.verifyCosmosSignature message signature expectedAddress
  | .dot => env.verifySubstrateSignature message signature expectedAddress

def verifyMessageSignature (chain : Chain) (sender : Address) (msgType : MessageType)
    (itemHash : ItemHash) (signature : String) : Except String Bool :=
  verifySignature env chain (getVerificationBuffer chain sender msgType itemHash) signature sender

end AlephCore.CryptoService

namespace AlephCore.Message

variable (env : Env)

/-- `Message::verify_signature`. -/
def verifySignature (m : Message) : Except String Bool :=
  CryptoService.verifyMessageSignature env m.chain m.sender m.messageType m.itemHash m.signature

/-- `Message::verify_item_hash`. -/
def verifyItemHash (m : Message) : Except String Bool :=
  match m.itemContent with
  | none => .error "No item_content to verify hash"
  | some content => .ok (decide (env.sha256Hex content.toUTF8 = m.itemHash))

end AlephCore.Message
