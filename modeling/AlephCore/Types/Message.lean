import AlephCore.Lib.Serde

/-!
# Message — messages and their enumerations

Mirrors `types/message.rs` and `types/chain.rs`: the message itself, the way its content is stored, and
the names under which the enumerations are serialized and shown.
-/

namespace AlephCore

/-- An account address, as the chain writes it. -/
abbrev Address := String

/-- The hash a message or a file goes by. -/
abbrev ItemHash := String

/-- Seconds since the epoch. -/
abbrev Timestamp := ℚ

/-- Type of message. -/
inductive MessageType where
  | aggregate | post | store | program | «instance» | forget
  deriving DecidableEq

namespace MessageType

/-- The name of a type, in JSON, in the database and in the signed text. -/
def toString : MessageType → String
  | aggregate => "AGGREGATE"
  | post => "POST"
  | store => "STORE"
  | program => "PROGRAM"
  | .instance => "INSTANCE"
  | forget => "FORGET"

/-- Every type. -/
def all : List MessageType := [aggregate, post, store, program, .instance, forget]

/-- The type of that name. -/
def ofString? (s : String) : Option MessageType :=
  all.find? fun t => decide (t.toString = s)

theorem toString_injective : ∀ {a b : MessageType}, a.toString = b.toString → a = b := by
  intro a b h
  cases a <;> cases b <;> first | rfl | exact absurd h (by decide)

end MessageType

/-- How the message content is stored. -/
inductive ItemType where
  | inline | ipfs | storage
  deriving DecidableEq

namespace ItemType

def toString : ItemType → String
  | inline => "inline"
  | ipfs => "ipfs"
  | storage => "storage"

/-- The item type of that name. -/
def ofString? (s : String) : Option ItemType :=
  [inline, ipfs, storage].find? fun t => decide (t.toString = s)

end ItemType

/-- Supported blockchain networks. -/
inductive Chain where
  | eth | avax | base | bsc | arbitrum | blast | bob | cyber | fraxtal | hype | ink | lens | linea
  | lisk | metis | mode | neo | optimism | pol | sonic | unichain | worldchain | zora | etherlink
  | sol | eclipse | csdk | dot | nuls | nuls2 | tezos
  deriving DecidableEq

namespace Chain

def toString : Chain → String
  | eth => "ETH"
  | avax => "AVAX"
  | base => "BASE"
  | bsc => "BSC"
  | arbitrum => "ARBITRUM"
  | blast => "BLAST"
  | bob => "BOB"
  | cyber => "CYBER"
  | fraxtal => "FRAXTAL"
  | hype => "HYPE"
  | ink => "INK"
  | lens => "LENS"
  | linea => "LINEA"
  | lisk => "LISK"
  | metis => "METIS"
  | mode => "MODE"
  | neo => "NEO"
  | optimism => "OPTIMISM"
  | pol => "POL"
  | sonic => "SONIC"
  | unichain => "UNICHAIN"
  | worldchain => "WORLDCHAIN"
  | zora => "ZORA"
  | etherlink => "ETHERLINK"
  | sol => "SOL"
  | eclipse => "ECLIPSE"
  | csdk => "CSDK"
  | dot => "DOT"
  | nuls => "NULS"
  | nuls2 => "NULS2"
  | tezos => "TEZOS"

/-- Every chain. -/
def all : List Chain :=
  [eth, avax, base, bsc, arbitrum, blast, bob, cyber, fraxtal, hype, ink, lens, linea, lisk, metis,
    mode, neo, optimism, pol, sonic, unichain, worldchain, zora, etherlink, sol, eclipse, csdk, dot,
    nuls, nuls2, tezos]

/-- The chain of that name. -/
def ofString? (s : String) : Option Chain :=
  all.find? fun c => decide (c.toString = s)

end Chain

/-- A message on the Aleph network. -/
structure Message where
  /-- The type of message. -/
  messageType : MessageType
  /-- The blockchain chain this message was signed on. -/
  chain : Chain
  /-- The sender's address. -/
  sender : Address
  /-- The signature of the message. -/
  signature : String
  /-- How the content is stored. -/
  itemType : ItemType
  /-- Hash of the content. -/
  itemHash : ItemHash
  /-- The actual content, when there is some. -/
  itemContent : Option String
  /-- Channel this message belongs to. -/
  channel : Option String
  /-- Timestamp when the message was created. -/
  time : Timestamp
  deriving DecidableEq

namespace Message

open Serde

/-- The derived deserialization of `Message`. -/
def decode : Decode Message := fun x => do
  let s ← asStruct ["type", "chain", "sender", "signature", "item_type", "item_hash", "item_content",
    "channel", "time"] x
  let messageType ← s.required "type" 0 (asEnum MessageType.ofString?)
  let chain ← s.required "chain" 1 (asEnum Chain.ofString?)
  let sender ← s.required "sender" 2 asString
  let signature ← s.required "signature" 3 asString
  let itemType ← s.required "item_type" 4 (asEnum ItemType.ofString?)
  let itemHash ← s.required "item_hash" 5 asString
  let itemContent ← s.optional "item_content" 6 asString
  let channel ← s.optional "channel" 7 asString
  let time ← s.required "time" 8 asF64
  pure { messageType, chain, sender, signature, itemType, itemHash, itemContent, channel, time }

/-- The derived serialization of `Message`; an absent content is left out. -/
def toJson (m : Message) : Json :=
  .obj ([("type", .str m.messageType.toString), ("chain", .str m.chain.toString), ("sender", .str m.sender),
      ("signature", .str m.signature), ("item_type", .str m.itemType.toString),
      ("item_hash", .str m.itemHash)] ++
    m.itemContent.elim [] (fun c => [("item_content", .str c)]) ++
    [("channel", m.channel.elim .null .str), ("time", .num (.frac m.time))])

/-- **What is serialized is read back.** -/
theorem decode_toJson (m : Message) : decode m.toJson = .ok m := by
  obtain ⟨messageType, chain, sender, signature, itemType, itemHash, itemContent, channel, time⟩ := m
  have ht : (MessageType.ofString? messageType.toString).elim (.error "unknown variant") Except.ok =
      .ok messageType := by cases messageType <;> rfl
  have hc : (Chain.ofString? chain.toString).elim (.error "unknown variant") Except.ok = .ok chain := by
    cases chain <;> rfl
  have hi : (ItemType.ofString? itemType.toString).elim (.error "unknown variant") Except.ok =
      .ok itemType := by cases itemType <;> rfl
  cases itemContent <;> cases channel <;>
    simp [decode, toJson, asStruct, Source.required, Source.optional, Source.get?, lookup, asEnum, asString,
      asF64, Number.toRat, bind, Except.bind, ht, hc, hi, pure, Except.pure, Except.map]

end Message

end AlephCore
