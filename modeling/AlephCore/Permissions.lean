import AlephCore.Db.PgDatabase

/-!
# Permissions — delegated authorization by the security aggregate

Mirrors `permissions.rs`.
-/

namespace AlephCore.Permissions

open Serde ProgE

/-- A single authorization entry within the security aggregate. -/
structure SecurityAuthorization where
  address : Address
  chain : Option String
  channels : List String
  messageTypes : List String
  postTypes : List String
  aggregateKeys : List String
  deriving DecidableEq

def SecurityAuthorization.decode : Decode SecurityAuthorization := fun x => do
  let s ← asStruct ["address", "chain", "channels", "types", "post_types", "aggregate_keys"] x
  let address ← s.required "address" 0 asString
  let chain ← s.withDefault "chain" 1 none (asOption asString)
  let channels ← s.withDefault "channels" 2 [] (asVec asString)
  let messageTypes ← s.withDefault "types" 3 [] (asVec asString)
  let postTypes ← s.withDefault "post_types" 4 [] (asVec asString)
  let aggregateKeys ← s.withDefault "aggregate_keys" 5 [] (asVec asString)
  pure { address, chain, channels, messageTypes, postTypes, aggregateKeys }

/-- The authorizations of a security aggregate. -/
def decodeAuthorizations : Decode (List SecurityAuthorization) := fun x => do
  let s ← asStruct ["authorizations"] x
  s.withDefault "authorizations" 0 [] (asVec SecurityAuthorization.decode)

/-- `content.type` and `content.key` of a message. -/
def extractContentFields (env : Env) (message : Message) : Option String × Option String :=
  match message.itemContent with
  | none => (none, none)
  | some contentStr => (env.contentStr? contentStr "type", env.contentStr? contentStr "key")

/-- Does the entry let `sender` send the message?  Every filter that is set must match. -/
def SecurityAuthorization.matches (env : Env) (auth : SecurityAuthorization) (sender : Address)
    (message : Message) : Bool :=
  let (postType, aggregateKey) := extractContentFields env message
  decide (env.SameAddress auth.address sender) &&
  (auth.chain.all fun c => message.chain.toString == c) &&
  (auth.channels.isEmpty || auth.channels.contains (message.channel.getD "")) &&
  (auth.messageTypes.isEmpty || auth.messageTypes.contains message.messageType.toString) &&
  (message.messageType != .post || auth.postTypes.isEmpty ||
    postType.all fun t => auth.postTypes.contains t) &&
  (message.messageType != .aggregate || auth.aggregateKeys.isEmpty ||
    aggregateKey.all fun k => auth.aggregateKeys.contains k)

/-- Check if `sender` has delegated authorization from `ownerAddress`. -/
def checkDelegatedAuthorization (env : Env) (sender ownerAddress : Address) (message : Message) :
    Db DbError Bool :=
  if env.SameAddress sender ownerAddress then pure true
  else do
    let aggregateContent ←
      mapErr (fun e => s!"Failed to query security aggregate: {e}")
        (PgDatabase.getAggregate ownerAddress "security")
    match aggregateContent with
    | none => pure false
    | some value =>
      let authorizations ← fromExcept ((decodeAuthorizations value.json).mapError fun e =>
        s!"Failed to parse security aggregate content: {e}")
      pure (authorizations.any fun auth => auth.matches env sender message)

/-- Where an amend is checked against its original: the original message and its address. -/
def amendTarget (env : Env) (message : Message) (content : Json) :
    Db DbError (Option (Message × Address)) :=
  if message.messageType = .post ∧ (content.getStr? "type").getD "" = "amend" then
    match (content.get? "ref").or (content.get? "ref_") with
    | none => pure none
    | some refValue =>
      let refHash := refValue.asStr?.getD ""
      if refHash = "" then pure none
      else do
        let original ←
          mapErr (fun e => s!"Failed to look up original message: {e}") (PgDatabase.getMessage refHash)
        pure do
          let originalMsg ← original
          let originalContentStr ← originalMsg.itemContent
          let originalAddress ← env.contentStr? originalContentStr "address"
          pure (originalMsg, originalAddress)
  else pure none

/-- Check if the message sender is authorized to send for the address in the content. -/
def checkSenderAuthorization (env : Env) (message : Message) : Db DbError Bool :=
  match message.itemContent with
  | none => pure false
  | some contentStr => do
    let content ← fromExcept ((env.parseJson contentStr).mapError fun e =>
      s!"Failed to parse message content: {e}")
    match content.getStr? "address" with
    | none => pure false
    | some address =>
      if env.SameAddress message.sender address then pure true
      else do
        match ← amendTarget env message content with
        | some (originalMsg, originalAddress) =>
          if ¬ env.SameAddress address originalAddress then pure false
          else checkDelegatedAuthorization env message.sender originalAddress originalMsg
        | none => checkDelegatedAuthorization env message.sender address message

end AlephCore.Permissions
