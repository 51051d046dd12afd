import AlephCore.Jobs.MessageProcessor
import AlephCore.Handlers.PostSpec

/-!
# Integrity — the content a processed message was accepted with

A message that ends processed has been decoded, has been given its content, and has passed the checks of
its source.  Its content is authentic if its hash is the item hash or the node got it from IPFS.  The
hash is checked for inline messages only, so an `ipfs` or `storage` message that brings a content of its
own is accepted with any.
-/

namespace AlephCore.MessageProcessor

open ProgE Prog

variable {ctx : ProcessorContext} {pending : PendingMessageDb} {n n' : Node}

/-! ## How a message ends processed -/

/-- The message a task hands to the handlers: decoded, and with its content. -/
def ActsOn (ctx : ProcessorContext) (pending : PendingMessageDb) (received message : Message) : Prop :=
  Message.decode pending.message = .ok received ∧ obtainContent ctx received = .ok message

theorem ActsOn.unique {m₁ m₂ m₁' m₂' : Message} (h : ActsOn ctx pending m₁ m₂)
    (h' : ActsOn ctx pending m₁' m₂') : m₁ = m₁' ∧ m₂ = m₂' := by
  obtain ⟨h1, h2⟩ := h
  obtain ⟨h1', h2'⟩ := h'
  obtain rfl := Except.ok.inj (h1.symm.trans h1')
  exact ⟨rfl, Except.ok.inj (h2.symm.trans h2')⟩

theorem refreshed_itemHash (env : Env) (message : Message) (receptionTime : Timestamp) (old : MessageRow) :
    (refreshRow (processedRow env message receptionTime) old).itemHash = old.itemHash := rfl

/-- The state after a processed message has been stored. -/
def stored (env : Env) (message : Message) (receptionTime : Timestamp) (n : Node) : Node :=
  { n with
    messages := n.messages.upsert (processedRow env message receptionTime)
      (refreshRow (processedRow env message receptionTime)) (refreshed_itemHash env message receptionTime) }

/-- The checks before the handler only reject. -/
theorem rejection_ne_processed {trustedSource : Bool} {message : Message} {r : ProcessResult}
    (h : rejection ctx trustedSource message = some r) : r ≠ .processed := by
  rintro rfl
  unfold rejection at h
  rcases Option.or_eq_some_iff.1 h with h | ⟨-, h⟩
  · unfold signatureRejection at h
    split_ifs at h
    split at h <;> cases h
  · unfold hashRejection at h
    split_ifs at h
    split at h <;> cases h

theorem exec_processWithContent_processed {message : Message} :
    Exec (processWithContent ctx pending message).run n (.ok .processed) n' ↔
      rejection ctx pending.trustedSource message = none ∧
        ∃ n₁, Exec (processMessage message (createHandlerContext ctx pending.trustedSource)) n .processed n₁ ∧
          n' = stored ctx.env message pending.receptionTime n₁ := by
  unfold processWithContent
  cases hrej : rejection ctx pending.trustedSource message with
  | some r =>
    have hne : r ≠ .processed := rejection_ne_processed hrej
    simp [Ne.symm hne]
  | none =>
    simp only [true_and]
    rw [exec_bind_ok]
    constructor
    · rintro ⟨status, n₁, h1, h2⟩
      rw [exec_ofProg_ok] at h1
      cases status with
      | processed =>
        obtain ⟨u, n₂, h3, h4⟩ := exec_bind_ok.1 h2
        obtain ⟨-, rfl⟩ := exec_pure_ok.1 h4
        rw [dbOp, exec_mapErr_ok, storeProcessedMessage, exec_execute_ok] at h3
        exact ⟨n₁, h1, h3⟩
      | rejected code text => simp [storeResult] at h2
    · rintro ⟨n₁, h1, rfl⟩
      refine ⟨.processed, n₁, exec_ofProg_ok.2 h1, exec_bind_ok.2 ⟨(), _, ?_, exec_pure_ok.2 ⟨rfl, rfl⟩⟩⟩
      rw [dbOp, exec_mapErr_ok, storeProcessedMessage, exec_execute_ok]
      rfl

/-- **A task ends processed** when the message passes the checks, its handler accepts it and it is
stored. -/
theorem exec_processSingleMessage_processed :
    Exec (processSingleMessage ctx pending).run n (.ok .processed) n' ↔
      ∃ received message, ActsOn ctx pending received message ∧
        rejection ctx pending.trustedSource message = none ∧
        ∃ n₁, Exec (processMessage message (createHandlerContext ctx pending.trustedSource)) n .processed n₁ ∧
          n' = stored ctx.env message pending.receptionTime n₁ := by
  unfold processSingleMessage ActsOn
  rw [exec_fromExcept_bind_ok]
  constructor
  · rintro ⟨received, hdecode, h⟩
    have hdecode' : Message.decode pending.message = .ok received := by
      cases hd : Message.decode pending.message with
      | error e =>
        rw [hd] at hdecode
        cases hdecode
      | ok m =>
        rw [hd] at hdecode
        exact congrArg _ (Except.ok.inj hdecode)
    cases hobtain : obtainContent ctx received with
    | error e =>
      rw [hobtain] at h
      obtain ⟨u, t, -, h2⟩ := exec_bind_ok.1 h
      obtain ⟨h3, -⟩ := exec_pure_ok.1 h2
      cases h3
    | ok message =>
      rw [hobtain] at h
      exact ⟨received, message, ⟨hdecode', hobtain⟩, exec_processWithContent_processed.1 h⟩
  · rintro ⟨received, message, ⟨hdecode, hobtain⟩, h⟩
    refine ⟨received, by rw [hdecode]; rfl, ?_⟩
    rw [hobtain]
    exact exec_processWithContent_processed.2 h

/-- A task returns the rejection of the handler. -/
theorem exec_processSingleMessage_rejected {received message : Message} {code : ErrorCode} {text : String}
    (hacts : ActsOn ctx pending received message) (hrejection : rejection ctx pending.trustedSource message = none)
    (h : Exec (processMessage message (createHandlerContext ctx pending.trustedSource)) n (.rejected code text) n') :
    Exec (processSingleMessage ctx pending).run n (.ok (.rejected code text)) n' := by
  obtain ⟨hdecode, hobtain⟩ := hacts
  unfold processSingleMessage
  refine exec_fromExcept_bind_ok.2 ⟨received, by rw [hdecode]; rfl, ?_⟩
  rw [hobtain]
  show Exec (processWithContent ctx pending message).run n (.ok (.rejected code text)) n'
  rw [processWithContent, hrejection]
  exact exec_bind_ok.2 ⟨_, n', exec_ofProg_ok.2 h, exec_pure_ok.2 ⟨rfl, rfl⟩⟩

/-- A task returns the rejection of the checks before the handler. -/
theorem exec_processSingleMessage_refused {received message : Message} {r : ProcessResult}
    (hacts : ActsOn ctx pending received message) (h : rejection ctx pending.trustedSource message = some r) :
    Exec (processSingleMessage ctx pending).run n (.ok r) n := by
  obtain ⟨hdecode, hobtain⟩ := hacts
  unfold processSingleMessage
  refine exec_fromExcept_bind_ok.2 ⟨received, by rw [hdecode]; rfl, ?_⟩
  rw [hobtain]
  show Exec (processWithContent ctx pending message).run n (.ok r) n
  rw [processWithContent, h]
  exact exec_pure_ok.2 ⟨rfl, rfl⟩

/-! ## Contents and their hashes -/

/-- The text has the hash. -/
def HasHash (ctx : ProcessorContext) (content : String) (itemHash : ItemHash) : Prop :=
  ctx.env.sha256Hex content.toUTF8 = itemHash

/-- The node got the content from IPFS. -/
def FetchedFromIpfs (ctx : ProcessorContext) (received : Message) (content : String) : Prop :=
  needsContentFetch received = true ∧
    ∃ bytes, ctx.ipfsGet received.itemHash = .ok bytes ∧ String.fromUTF8? bytes = some content

/-- The content a message is accepted with is the one its hash names. -/
def Authentic (ctx : ProcessorContext) (received message : Message) : Prop :=
  ∃ content, message.itemContent = some content ∧
    (HasHash ctx content message.itemHash ∨ FetchedFromIpfs ctx received content)

/-- The message is inline, comes without a content, or its content has the hash. -/
def ContentChecked (ctx : ProcessorContext) (received : Message) : Prop :=
  received.itemType = .inline ∨ received.itemContent = none ∨
    ∃ content, received.itemContent = some content ∧ HasHash ctx content received.itemHash

theorem needsContentFetch_iff {m : Message} :
    needsContentFetch m = true ↔ m.itemType ≠ .inline ∧ m.itemContent = none := by
  unfold needsContentFetch
  cases m.itemType <;> simp

/-- Content is fetched for a message that lacks it, and changes nothing else. -/
theorem obtainContent_ok {received message : Message} (h : obtainContent ctx received = .ok message) :
    (needsContentFetch received = false ∧ message = received) ∨
      ∃ content, message = { received with itemContent := some content } ∧
        FetchedFromIpfs ctx received content := by
  unfold obtainContent at h
  by_cases hneeds : needsContentFetch received = true
  · rw [if_pos hneeds] at h
    have htype : received.itemType ≠ .inline := (needsContentFetch_iff.1 hneeds).1
    right
    unfold fetchMessageContent at h
    cases hget : ctx.ipfsGet received.itemHash with
    | error e => cases hi : received.itemType <;> simp [hi, hget] at h htype
    | ok bytes =>
      cases htext : String.fromUTF8? bytes with
      | none => cases hi : received.itemType <;> simp [hi, hget, htext] at h htype
      | some content =>
        refine ⟨content, ?_, hneeds, bytes, hget, htext⟩
        cases hi : received.itemType <;> simp [hi, hget, htext] at h htype <;> exact h.symm
  · rw [if_neg hneeds] at h
    exact .inl ⟨by simpa using hneeds, (Except.ok.inj h).symm⟩

theorem obtainContent_itemHash {received message : Message} (h : obtainContent ctx received = .ok message) :
    message.itemHash = received.itemHash := by
  rcases obtainContent_ok h with ⟨-, rfl⟩ | ⟨content, rfl, -⟩ <;> rfl

/-- An inline message passes the checks only with a content of its hash. -/
theorem hasHash_of_hashRejection {message : Message} (htype : message.itemType = .inline)
    (h : hashRejection ctx message = none) :
    ∃ content, message.itemContent = some content ∧ HasHash ctx content message.itemHash := by
  unfold hashRejection at h
  rw [if_pos htype] at h
  cases hcontent : message.itemContent with
  | none => simp [Message.verifyItemHash, hcontent] at h
  | some content =>
    refine ⟨content, rfl, ?_⟩
    by_contra hne
    have hfalse : message.verifyItemHash ctx.env = .ok false := by
      simp only [Message.verifyItemHash, hcontent]
      exact congrArg _ (decide_eq_false hne)
    rw [hfalse] at h
    cases h

/-- A message that passes the checks has an authentic content exactly if its content was checked. -/
theorem authentic_iff {received message : Message} (hacts : ActsOn ctx pending received message)
    {trustedSource : Bool} (hrej : rejection ctx trustedSource message = none) :
    Authentic ctx received message ↔ ContentChecked ctx received := by
  have hhash : hashRejection ctx message = none := (Option.or_eq_none_iff.1 hrej).2
  rcases obtainContent_ok hacts.2 with ⟨hneeds, rfl⟩ | ⟨content, rfl, hfetched⟩
  · constructor
    · rintro ⟨content, hcontent, hauth | ⟨hneeds', -⟩⟩
      · exact .inr (.inr ⟨content, hcontent, hauth⟩)
      · rw [hneeds] at hneeds'
        cases hneeds'
    · rintro (htype | hnone | ⟨content, hcontent, hsha⟩)
      · obtain ⟨content, hcontent, hsha⟩ := hasHash_of_hashRejection htype hhash
        exact ⟨content, hcontent, .inl hsha⟩
      · by_cases htype : message.itemType = .inline
        · obtain ⟨content, hcontent, hsha⟩ := hasHash_of_hashRejection htype hhash
          exact ⟨content, hcontent, .inl hsha⟩
        · rw [needsContentFetch_iff.2 ⟨htype, hnone⟩] at hneeds
          cases hneeds
      · exact ⟨content, hcontent, .inl hsha⟩
  · constructor
    · intro _
      exact .inr (.inl (needsContentFetch_iff.1 hfetched.1).2)
    · intro _
      exact ⟨content, rfl, .inr hfetched⟩

/-- **What a processed message was accepted with is authentic exactly if** the message is inline, came
without a content, or came with one of its hash; whatever the source. -/
theorem processed_authentic_iff {received message : Message}
    (hprocessed : Exec (processSingleMessage ctx pending).run n (.ok .processed) n')
    (hacts : ActsOn ctx pending received message) :
    Authentic ctx received message ↔ ContentChecked ctx received := by
  obtain ⟨received', message', hacts', hrej, -⟩ := exec_processSingleMessage_processed.1 hprocessed
  obtain ⟨rfl, rfl⟩ := hacts.unique hacts'
  exact authentic_iff hacts hrej

/-- Accepted messages of one item hash have one content, if their contents were checked and a hash
names one content. -/
theorem processed_content_eq {pending' : PendingMessageDb} {n₂ n₂' : Node}
    {received message received' message' : Message}
    (hcollision : ∀ {c c' h}, HasHash ctx c h → HasHash ctx c' h → c = c')
    (hipfs : ∀ {c h bytes}, HasHash ctx c h → ctx.ipfsGet h = .ok bytes → String.fromUTF8? bytes = some c)
    (hprocessed : Exec (processSingleMessage ctx pending).run n (.ok .processed) n')
    (hprocessed' : Exec (processSingleMessage ctx pending').run n₂ (.ok .processed) n₂')
    (hacts : ActsOn ctx pending received message) (hacts' : ActsOn ctx pending' received' message')
    (hhash : message.itemHash = message'.itemHash) (hchecked : ContentChecked ctx received)
    (hchecked' : ContentChecked ctx received') : message.itemContent = message'.itemContent := by
  have hkept : ∀ {p r m}, ActsOn ctx p r m → r.itemHash = m.itemHash :=
    fun h => (obtainContent_itemHash h.2).symm
  obtain ⟨c, hc, h⟩ := (processed_authentic_iff hprocessed hacts).2 hchecked
  obtain ⟨c', hc', h'⟩ := (processed_authentic_iff hprocessed' hacts').2 hchecked'
  have hhash' : received.itemHash = received'.itemHash := by rw [hkept hacts, hkept hacts', hhash]
  rw [hc, hc']
  rcases h with h | ⟨-, bytes, hget, htext⟩ <;> rcases h' with h' | ⟨-, bytes', hget', htext'⟩
  · exact congrArg some (hcollision h (hhash ▸ h'))
  · rw [hhash, ← hkept hacts'] at h
    exact (hipfs h hget').symm.trans htext'
  · rw [← hhash, ← hkept hacts] at h'
    exact htext.symm.trans (hipfs h' hget)
  · rw [hhash', hget'] at hget
    rw [← Except.ok.inj hget] at htext
    exact htext.symm.trans htext'

/-! ### A signed note with another content -/

section Tampered

def postText (text : String) : String :=
  "\x7b\"type\":\"note\",\"address\":\"0x8fa7De588b149EFa9F1FdBe307921842F27B37C7\"," ++
    "\"content\":\x7b\"text\":\"" ++ text ++ "\"\x7d,\"time\":1700000000\x7d"

def postJson (text : String) : Json :=
  .obj [("type", .str "note"), ("address", .str "0x8fa7De588b149EFa9F1FdBe307921842F27B37C7"),
    ("content", .obj [("text", .str text)]), ("time", .num (.int 1700000000))]

/-- The hash of the signed text and the signature over it. -/
def postHash : ItemHash := "150f132ae8d4d5a198273073d1c202ef05d100d453dac0ef552bc42bfb2cbeda"

def postSignature : String :=
  "0x5819e9575c60dd05d06245366075e54f6ce3a9d79ce5a82fb23befeae549cb846e39c58970aff180ab12b6549cdbf05760" ++
    "0f20b4f4b16f2ad3f0dc5756a0fd821b"

/-- A message under that hash and signature. -/
def postMessage (itemType : ItemType) (text : String) : Message where
  messageType := .post
  chain := .eth
  sender := "0x8fa7De588b149EFa9F1FdBe307921842F27B37C7"
  signature := postSignature
  itemType := itemType
  itemHash := postHash
  itemContent := some (postText text)
  channel := none
  time := 1700000000

/-- The message as it was received from the network. -/
def postPending (itemType : ItemType) (text : String) : PendingMessageDb where
  itemHash := postHash
  message := (postMessage itemType text).toJson
  receptionTime := 1700000010
  fetched := false
  checkMessage := true
  retries := 0
  nextAttempt := 1700000010
  trustedSource := false

def postCtx : ProcessorContext where
  env := .ofTables [(postText "hello", postJson "hello"), (postText "pay mallory", postJson "pay mallory")]
    [(postText "hello", postHash),
      (postText "pay mallory", "7b36f1db670ee426cdef557c7fe6b4a05125771e64e80dd505050a440bbc226b")]
    [("ETH\n0x8fa7De588b149EFa9F1FdBe307921842F27B37C7\nPOST\n" ++ postHash, postSignature,
      "0x8fa7De588b149EFa9F1FdBe307921842F27B37C7")]
  order := .stored
  now := 1700000011
  cost := none
  ipfsGet := fun _ => .error "not found"

example : (postMessage .inline "hello").verifySignature postCtx.env = .ok true := by decide +kernel

theorem postPending_actsOn (itemType : ItemType) (text : String) :
    ActsOn postCtx (postPending itemType text) (postMessage itemType text) (postMessage itemType text) := by
  refine ⟨Message.decode_toJson _, ?_⟩
  cases itemType <;> rfl

/-- The content of the note. -/
def postContent (text : String) : PostContent :=
  ⟨"0x8fa7De588b149EFa9F1FdBe307921842F27B37C7", "note", (Json.obj [("text", .str text)]).toValue, none,
    1700000000⟩

theorem postMessage_original {itemType : ItemType} {text : String}
    (hparse : postCtx.env.parseJson (postText text) = .ok (postJson text)) :
    PostHandler.Original (postMessage itemType text) (createHandlerContext postCtx false)
      (postContent text) where
  parsed := by
    refine ⟨postText text, rfl, ?_, .inr ?_⟩
    · simp only [createHandlerContext, Env.fromStr, hparse]
      rfl
    · simp only [createHandlerContext, Env.contentStr?, Env.fromStrValue?, hparse]
      rfl
  typed := by simp [postContent]
  notAmend := by
    show PostHandler.isAmend postCtx.env "note" = false
    decide +kernel
  own := .inr rfl

theorem signatureRejection_post (itemType : ItemType) (text : String) :
    signatureRejection postCtx false (postMessage itemType text) = none := by
  have h : (postMessage itemType text).verifySignature postCtx.env = .ok true := by
    show CryptoService.verifyMessageSignature postCtx.env .eth "0x8fa7De588b149EFa9F1FdBe307921842F27B37C7"
      .post postHash postSignature = .ok true
    decide +kernel
  simp [signatureRejection, h]

/-- The task on an empty node, if the message passes the check of its hash. -/
theorem exec_postPending {itemType : ItemType} {text : String}
    (hparse : postCtx.env.parseJson (postText text) = .ok (postJson text))
    (hhash : hashRejection postCtx (postMessage itemType text) = none) :
    Exec (processSingleMessage postCtx (postPending itemType text)).run .empty (.ok .processed)
      (stored postCtx.env (postMessage itemType text) 1700000010
        { Node.empty with
          posts := Table.empty.insertNew
            (PostHandler.recordOf (postMessage itemType text) (postContent text) none) }) := by
  refine exec_processSingleMessage_processed.2 ⟨_, _, postPending_actsOn itemType text, ?_, _,
    (postMessage_original hparse).exec_processMessage rfl, rfl⟩
  exact Option.or_eq_none_iff.2 ⟨signatureRejection_post itemType text, hhash⟩

theorem hashRejection_hello : hashRejection postCtx (postMessage .inline "hello") = none := by
  have h : (postMessage .inline "hello").verifyItemHash postCtx.env = .ok true := by
    simp only [Message.verifyItemHash, postMessage, postCtx, Env.ofTables_sha256Hex]
    decide +kernel
  have htype : (postMessage .inline "hello").itemType = .inline := rfl
  rw [hashRejection, if_pos htype, h]

/-- The note as it was signed is accepted with its own content. -/
theorem post_authentic :
    Authentic postCtx (postMessage .inline "hello") (postMessage .inline "hello") ↔
      ContentChecked postCtx (postMessage .inline "hello") :=
  processed_authentic_iff (exec_postPending (by decide +kernel) hashRejection_hello)
    (postPending_actsOn .inline "hello")

/-- Declared as an `ipfs` item it is accepted, and stored, with another content under the same hash and
signature. -/
theorem post_tampered :
    (∃ n', Exec (processSingleMessage postCtx (postPending .inline "hello")).run .empty (.ok .processed) n') ∧
      (∃ n', Exec (processSingleMessage postCtx (postPending .ipfs "pay mallory")).run .empty
          (.ok .processed) n' ∧
        ∃ r ∈ n'.messages, r.itemHash = postHash ∧ r.itemContent = some (postText "pay mallory")) ∧
      postText "hello" ≠ postText "pay mallory" ∧
      ¬ Authentic postCtx (postMessage .ipfs "pay mallory") (postMessage .ipfs "pay mallory") := by
  refine ⟨⟨_, exec_postPending (by decide +kernel) hashRejection_hello⟩,
    ⟨_, exec_postPending (by decide +kernel) rfl, _, List.mem_singleton_self _, rfl, rfl⟩,
    by decide +kernel, ?_⟩
  rintro ⟨content, hcontent, hhash | ⟨hneeds, -⟩⟩
  · obtain rfl := Option.some.inj hcontent
    rw [HasHash, postCtx, Env.ofTables_sha256Hex] at hhash
    exact absurd hhash (by decide +kernel)
  · exact Bool.noConfusion hneeds

end Tampered

end AlephCore.MessageProcessor
