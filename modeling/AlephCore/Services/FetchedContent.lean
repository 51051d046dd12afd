import AlephCore.Services.ContentFetch

/-!
# FetchedContent — what the content fetch service writes

`Genuine` says where a fetched content can come from: for a `storage` item only its hash admits a
content, for an `ipfs` item IPFS or the word of a peer does.  `Sourced` compares the tables after a
tick with those before: rows are filled with genuine contents only, and what is queued is a row.
-/

namespace AlephCore.ContentFetch

open ProgE Prog

/-! ## Queued rows -/

/-- The message in a row. -/
def rowMessage (r : MessageRow) : Message :=
  { messageType := r.messageType, chain := r.chain, sender := r.sender, signature := r.signature,
    itemType := r.itemType, itemHash := r.itemHash, itemContent := r.itemContent, channel := r.channel, time := r.time }

/-- **What is queued is read back** as the message in the row. -/
theorem decode_rowJson (r : MessageRow) : Message.decode (rowJson r) = .ok (rowMessage r) := by
  obtain ⟨itemHash, messageType, chain, sender, signature, itemType, itemContent, channel, time⟩ := r
  have ht : (MessageType.ofString? messageType.toString).elim (.error "unknown variant") Except.ok =
      .ok messageType := by cases messageType <;> rfl
  have hc : (Chain.ofString? chain.toString).elim (.error "unknown variant") Except.ok = .ok chain := by
    cases chain <;> rfl
  have hi : (ItemType.ofString? itemType.toString).elim (.error "unknown variant") Except.ok =
      .ok itemType := by cases itemType <;> rfl
  cases itemContent <;> cases channel <;>
    simp [Message.decode, rowJson, rowMessage, textOrNull, Serde.asStruct, Serde.Source.required, Serde.Source.optional,
      Serde.Source.get?, Serde.lookup, Serde.asEnum, Serde.asString, Serde.asF64, Number.toRat, bind, Except.bind,
      ht, hc, hi, Pure.pure, Except.pure, Except.map]

/-! ## Where contents come from -/

/-- The bytes are this text. -/
def IsText (bytes : ByteArray) (content : String) : Prop := String.fromUTF8? bytes = some content

/-- Some peer answered a request for the item with these bytes. -/
def PeerAnswered (ctx : ContentFetchContext) (itemHash : ItemHash) (bytes : ByteArray) : Prop :=
  ∃ i peer, fetchFromPeer ctx i peer itemHash = .ok bytes

/-- A content that is stored for an item of that type. -/
def Genuine (ctx : ContentFetchContext) (itemHash : ItemHash) (itemType : ItemType) (content : String) :
    Prop :=
  match itemType with
  | .storage => ctx.env.sha256Hex content.toUTF8 = itemHash
  | .ipfs => ∃ bytes, IsText bytes content ∧
      (ctx.ipfsGet itemHash = .ok bytes ∨ PeerAnswered ctx itemHash bytes)
  | .inline => False

variable {ctx : ContentFetchContext} {itemHash : ItemHash} {itemType : ItemType} {content : String}

theorem utf8_ok {bytes : ByteArray} : utf8 bytes = .ok content ↔ IsText bytes content := by
  unfold utf8 IsText
  cases String.fromUTF8? bytes with
  | none => simp
  | some s => simp

theorem IsText.toUTF8 {bytes : ByteArray} (h : IsText bytes content) : content.toUTF8 = bytes := by
  unfold IsText String.fromUTF8? at h
  split_ifs at h with hv
  obtain rfl := Option.some.inj h
  rfl

/-- A peer's answer that passes the check is genuine. -/
theorem genuine_of_verified {bytes : ByteArray} (hpeer : PeerAnswered ctx itemHash bytes)
    (hverify : verifyHash ctx.env itemHash itemType bytes = true) (htext : IsText bytes content) :
    Genuine ctx itemHash itemType content := by
  cases itemType with
  | storage =>
    have hsha : ctx.env.sha256Hex bytes = itemHash := by simpa [verifyHash] using hverify
    rw [Genuine, htext.toUTF8]
    exact hsha
  | ipfs => exact ⟨bytes, htext, .inr hpeer⟩
  | inline => simp [verifyHash] at hverify

theorem tryPeers_genuine {peers : List String} {i : Nat}
    (h : tryPeers ctx itemHash itemType i peers = .ok (some content)) :
    Genuine ctx itemHash itemType content := by
  induction peers generalizing i with
  | nil => simp [tryPeers] at h
  | cons peer peers ih =>
    rw [tryPeers] at h
    cases hfetch : fetchFromPeer ctx i peer itemHash with
    | error e =>
      rw [hfetch] at h
      exact ih h
    | ok bytes =>
      rw [hfetch] at h
      simp only at h
      split_ifs at h with hv
      · cases hu : utf8 bytes with
        | error e =>
          rw [hu] at h
          cases h
        | ok text =>
          rw [hu] at h
          obtain rfl : text = content := by simpa [Except.map] using h
          exact genuine_of_verified ⟨i, peer, hfetch⟩ hv (utf8_ok.1 hu)
      · exact ih h

theorem fallback_genuine (h : fallback ctx itemHash itemType = .ok content) :
    Genuine ctx itemHash itemType content := by
  unfold fallback at h
  split_ifs at h with htype
  cases hipfs : ctx.ipfsGet itemHash with
  | error e =>
    rw [hipfs] at h
    cases h
  | ok bytes =>
    rw [hipfs] at h
    rw [htype]
    exact ⟨bytes, utf8_ok.1 h, .inl hipfs⟩

/-- **Only genuine contents are fetched**, whatever the peers answer. -/
theorem fetchAndVerify_genuine {servers : List String}
    (h : fetchAndVerify ctx itemHash itemType servers = .ok content) :
    Genuine ctx itemHash itemType content := by
  simp only [fetchAndVerify, bind, Except.bind] at h
  cases hfirst : tryPeers ctx itemHash itemType 0 (responsibleNodes ctx itemHash) with
  | error e =>
    rw [hfirst] at h
    cases h
  | ok found =>
    rw [hfirst] at h
    cases found with
    | some c =>
      obtain rfl : c = content := Except.ok.inj h
      exact tryPeers_genuine hfirst
    | none =>
      simp only at h
      cases hsecond : tryPeers ctx itemHash itemType (responsibleNodes ctx itemHash).length
          ((ctx.shuffle itemHash servers).take maxPeerAttempts) with
      | error e =>
        rw [hsecond] at h
        cases h
      | ok found =>
        rw [hsecond] at h
        cases found with
        | some c =>
          obtain rfl : c = content := Except.ok.inj h
          exact tryPeers_genuine hsecond
        | none => exact fallback_genuine h

/-! ## What a tick writes -/

/-- The row `r` as the service leaves it: untouched, or filled with the empty marker or a genuine
content. -/
def FromRow (ctx : ContentFetchContext) (r r' : MessageRow) : Prop :=
  r' = r ∨ Unfetched r ∧ ∃ content, r' = { r with itemContent := some content } ∧
    (content = "" ∨ Genuine ctx r.itemHash r.itemType content)

/-- The tables `n'` come from `n` by filling rows and queueing messages of such rows. -/
structure Sourced (ctx : ContentFetchContext) (n n' : Node) : Prop where
  messages : ∀ r' ∈ n'.messages, ∃ r ∈ n.messages, FromRow ctx r r'
  pending : ∀ p ∈ n'.pendingMessages, p ∈ n.pendingMessages ∨
    ∃ r ∈ n.messages, ∃ r', FromRow ctx r r' ∧ p.message = rowJson r'

theorem Sourced.refl (n : Node) : Sourced ctx n n :=
  ⟨fun r hr => ⟨r, hr, .inl rfl⟩, fun _ hp => .inl hp⟩

variable {n n' : Node}

theorem Sourced.setContent (h : Sourced ctx n n')
    (hrow : ∀ r ∈ n.messages, r.itemHash = itemHash →
      Unfetched r ∧ (content = "" ∨ Genuine ctx r.itemHash r.itemType content)) :
    Sourced ctx n (setContent itemHash content n') := by
  refine ⟨fun r' hr' => ?_, h.pending⟩
  simp only [ContentFetch.setContent, Table.mem_update] at hr'
  rcases hr' with ⟨hr', -⟩ | ⟨s, hs, ⟨hhash, hnone⟩, rfl⟩
  · exact h.messages r' hr'
  · obtain ⟨r, hr, rfl | ⟨-, c, rfl, -⟩⟩ := h.messages s hs
    · obtain ⟨hunfetched, hc⟩ := hrow s hr hhash
      exact ⟨s, hr, .inr ⟨hunfetched, content, rfl, hc⟩⟩
    · cases hnone

theorem Sourced.requeue (h : Sourced ctx n n') (now : Timestamp) : Sourced ctx n (requeue now itemHash n') := by
  unfold ContentFetch.requeue
  cases hfind : n'.messages.find? itemHash with
  | none => exact h
  | some s =>
    obtain ⟨r, hr, hrs⟩ := h.messages s (Table.find?_eq_some.1 hfind).1
    refine ⟨h.messages, fun p hp => ?_⟩
    rcases Table.mem_upsert.1 hp with ⟨hp, -⟩ | ⟨q, -, -, rfl⟩ | ⟨rfl, -⟩
    · exact h.pending p hp
    · exact .inr ⟨r, hr, s, hrs, rfl⟩
    · exact .inr ⟨r, hr, s, hrs, rfl⟩

/-- The items come from rows without content. -/
def FromTable (n : Node) (items : List (ItemHash × ItemType)) : Prop :=
  ∀ item ∈ items, ∃ r ∈ n.messages, Unfetched r ∧ item = (r.itemHash, r.itemType)

theorem fromTable_unfetchedMessages (ctx : ContentFetchContext) (n : Node) :
    FromTable n (unfetchedMessages ctx n) := by
  intro item hitem
  obtain ⟨r, hr, rfl⟩ := List.mem_map.1 (List.mem_of_mem_take hitem)
  obtain ⟨hr, hunfetched⟩ := List.mem_filter.1 hr
  exact ⟨r, (SqlOrder.mem_scan ctx.order).1 hr, of_decide_eq_true hunfetched, rfl⟩

theorem moves_handleResult {failures : FailureCounts} {r : MessageRow} (hr : r ∈ n.messages)
    (hunfetched : Unfetched r) {result : Except String String}
    (hresult : ∀ content, result = .ok content → Genuine ctx r.itemHash r.itemType content) :
    Moves (fun s s' => Sourced ctx n s → Sourced ctx n s') (handleResult ctx failures r.itemHash result).run := by
  have hrow : ∀ {content}, (content = "" ∨ Genuine ctx r.itemHash r.itemType content) →
      ∀ r' ∈ n.messages, r'.itemHash = r.itemHash →
        Unfetched r' ∧ (content = "" ∨ Genuine ctx r'.itemHash r'.itemType content) := by
    intro content hc r' hr' hhash
    obtain rfl := Table.eq_of_key hr' hr hhash
    exact ⟨hunfetched, hc⟩
  cases result with
  | ok content =>
    refine moves_bind (moves_attempt (moves_execute fun s hs => hs.setContent (hrow (.inr (hresult _ rfl)))))
      fun stored => ?_
    cases stored with
    | error e => exact moves_pure _
    | ok u =>
      refine moves_bind (moves_ignore (moves_execute fun s hs => hs.requeue _)) fun _ => moves_pure _
  | error e =>
    simp only [handleResult, countFailure]
    split_ifs
    · exact moves_bind (moves_ignore (moves_execute fun s hs => hs.setContent (hrow (.inl rfl))))
        fun _ => moves_pure _
    · exact moves_pure _

theorem moves_handleResults {servers : List String} {items : List (ItemHash × ItemType)}
    (hitems : FromTable n items) (failures : FailureCounts) :
    Moves (fun s s' => Sourced ctx n s → Sourced ctx n s') (handleResults ctx servers failures items).run := by
  induction items generalizing failures with
  | nil => exact moves_pure _
  | cons item items ih =>
    obtain ⟨r, hr, hunfetched, rfl⟩ := hitems item (by simp)
    refine moves_bind (moves_handleResult hr hunfetched fun _ => fetchAndVerify_genuine) fun failures => ?_
    exact ih (fun item hitem => hitems item (by simp [hitem])) failures

/-- **A tick fills rows with genuine contents only**, wherever it is cut off. -/
theorem tick_sourced {servers : List String} {failures : FailureCounts}
    (h : Reach (tick ctx servers failures).run n n') : Sourced ctx n n' := by
  rcases reach_query_bind h with rfl | h
  · exact .refl n'
  · split_ifs at h
    · rw [reach_pure.1 h]
      exact .refl n
    · have hmoves : Moves (fun s s' => Sourced ctx n s → Sourced ctx n s')
          (handleResults ctx servers failures (unfetchedMessages ctx n)).run :=
        moves_handleResults (fromTable_unfetchedMessages ctx n) failures
      exact (moves_bind hmoves fun _ => moves_pure _).invariant h (.refl n)

/-! ### A peer's word for an `ipfs` item -/

section Forged

def noteText (text : String) : String :=
  "\x7b\"type\":\"note\",\"address\":\"0x101d8D16372dBf5f1614adaE95Ee5CCE61998Fc9\"," ++
    "\"content\":\x7b\"text\":\"" ++ text ++ "\"\x7d,\"time\":1700000000\x7d"

/-- The message of a note whose content IPFS serves under the item hash. -/
def noteRow : MessageRow where
  itemHash := "Qmcma7WDCrPtFnj8fsMfgnkKbXi1kuEdksoXr6w6F5L9gV"
  messageType := .post
  chain := .eth
  sender := "0x101d8D16372dBf5f1614adaE95Ee5CCE61998Fc9"
  signature := ""
  itemType := .ipfs
  itemContent := none
  channel := none
  time := 1700000000
  status := "processed"
  receptionTime := none
  owner := none
  contentType := none
  contentRef := none
  contentKey := none
  contentItemHash := none
  paymentType := none

def noteNode : Node := { Node.empty with messages := Table.empty.insertNew noteRow }

/-- A base64 text of another note. -/
def forgedBase64 : String :=
  "eyJ0eXBlIjoibm90ZSIsImFkZHJlc3MiOiIweDEwMWQ4RDE2MzcyZEJmNWYxNjE0YWRhRTk1RWU1Q0NFNjE5OThGYzkiLCJjb250" ++
    "ZW50Ijp7InRleHQiOiJwYXkgbWFsbG9yeSJ9LCJ0aW1lIjoxNzAwMDAwMDAwfQ=="

def forgedBody : String :=
  "\x7b\"status\":\"success\",\"content\":\"" ++ forgedBase64 ++ "\"\x7d"

/-- Every peer serves the other note; IPFS has the right one. -/
def forgedCtx : ContentFetchContext where
  env := .ofTables [(forgedBody, .obj [("status", .str "success"), ("content", .str forgedBase64)])]
    [(noteText "pay mallory", "174eae5c03bdb4c284b4e06fb308bff41ccd8742f5108d66d407e7a106e3fe8a"),
      (noteText "hello", "1f7d11eeb7eb9dd2b2863be662a64272c17c6303f52a88409ab7eee3e4479edf")] []
  order := .stored
  now := 1700000100
  http := fun _ _ _ => .ok ⟨true, forgedBody⟩
  base64Decode := fun s => if s = forgedBase64 then .ok (noteText "pay mallory").toUTF8 else .error "invalid"
  ipfsGet := fun h => if h = noteRow.itemHash then .ok (noteText "hello").toUTF8 else .error "not found"
  sharding := none
  shuffle := fun _ peers => peers

/-- The node after a tick with one peer. -/
def forgedNode : Node := ((tick forgedCtx ["http://10.0.0.7:4024"] []).run.run noteNode).2

example : noteRow.itemContent = none := by decide +kernel

theorem forgedNode_sourced : Sourced forgedCtx noteNode forgedNode :=
  tick_sourced (exec_run _ _).reach

/-- The content is the peer's: it has another hash, and IPFS answers differently.  It is queued as coming
from a trusted source. -/
theorem forgedNode_forged :
    (∃ r ∈ forgedNode.messages.rows, ∃ r₀ ∈ noteNode.messages.rows, r₀.itemHash = r.itemHash ∧
      r₀.itemContent = none ∧ r.itemContent = some (noteText "pay mallory") ∧
      forgedCtx.env.sha256Hex (noteText "pay mallory").toUTF8 ≠ r.itemHash ∧
      (forgedCtx.ipfsGet r.itemHash).toOption ≠ some (noteText "pay mallory").toUTF8) ∧
    ∃ p ∈ forgedNode.pendingMessages.rows, p.trustedSource = true ∧
      p.message.getStr? "item_content" = some (noteText "pay mallory") := by
  decide +kernel

end Forged

end AlephCore.ContentFetch
