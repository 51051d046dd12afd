import AlephCore.Jobs.Integrity
import AlephCore.Handlers.ForgetSpec
import AlephCore.Handlers.Stages
import Mathlib.Logic.Relation

/-!
# PinTracking — the pins of the STORE messages that are stored

A STORE message always leaves an active pin of its file.  A pin carries the hash of one message only, so a
FORGET takes the pin of other messages with it unless each of them has a pin that survives; in runs whose
FORGET messages all respect this, every stored STORE message keeps an active pin.
-/

namespace AlephCore.MessageProcessor

open ProgE Prog ForgetHandler

/-! ## Accepted messages -/

/-- A task ends processed, having acted on the message. -/
def Accepted (env : Env) (message : Message) (n n' : Node) : Prop :=
  ∃ ctx pending received, ctx.env = env ∧ ActsOn ctx pending received message ∧
    Exec (processSingleMessage ctx pending).run n (.ok .processed) n'

/-- A task of the node ends processed, having acted on the message. -/
def AcceptedBy (ctx : ProcessorContext) (message : Message) (n n' : Node) : Prop :=
  ∃ pending received, ActsOn ctx pending received message ∧
    Exec (processSingleMessage ctx pending).run n (.ok .processed) n'

theorem accepted_iff {env : Env} {message : Message} {n n' : Node} :
    Accepted env message n n' ↔ ∃ ctx : ProcessorContext, ctx.env = env ∧ AcceptedBy ctx message n n' := by
  constructor
  · rintro ⟨ctx, pending, received, henv, h⟩
    exact ⟨ctx, henv, pending, received, h⟩
  · rintro ⟨ctx, henv, pending, received, h⟩
    exact ⟨ctx, pending, received, henv, h⟩

/-- **An accepted message** has passed the checks of its handler, and has been processed and stored. -/
theorem AcceptedBy.stages {ctx : ProcessorContext} {message : Message} {n n' : Node}
    (h : AcceptedBy ctx message n n') :
    ∃ trustedSource, ∃ hctx : HandlerContext, hctx = createHandlerContext ctx trustedSource ∧
      Exec ((handlerOf message.messageType).validate message hctx).run n (.ok ()) n ∧
      Exec ((handlerOf message.messageType).permissionStage message hctx).run n (.ok ()) n ∧
      ∃ receptionTime n₁, Exec ((handlerOf message.messageType).process message hctx).run n (.ok ()) n₁ ∧
        n' = stored ctx.env message receptionTime n₁ := by
  obtain ⟨pending, received, hacts, hexec⟩ := h
  obtain ⟨received', message', hacts', -, n₁, hprocess, rfl⟩ := exec_processSingleMessage_processed.1 hexec
  obtain ⟨rfl, rfl⟩ := hacts.unique hacts'
  obtain ⟨hvalidate, hpermissions, -, hprocess⟩ := exec_processMessage_stages.1 hprocess
  exact ⟨pending.trustedSource, _, rfl, hvalidate, hpermissions, _, n₁, hprocess, rfl⟩

theorem Accepted.stages {env : Env} {message : Message} {n n' : Node} (h : Accepted env message n n') :
    ∃ ctx : HandlerContext, ctx.env = env ∧
      Exec ((handlerOf message.messageType).validate message ctx).run n (.ok ()) n ∧
      Exec ((handlerOf message.messageType).permissionStage message ctx).run n (.ok ()) n ∧
      ∃ receptionTime n₁, Exec ((handlerOf message.messageType).process message ctx).run n (.ok ()) n₁ ∧
        n' = stored env message receptionTime n₁ := by
  obtain ⟨ctx, rfl, hby⟩ := accepted_iff.1 h
  obtain ⟨trustedSource, hctx, rfl, hstages⟩ := hby.stages
  exact ⟨_, rfl, hstages⟩

/-! ## Stored STORE messages -/

/-- The row is that of a STORE message that names the file. -/
def StoresFile (env : Env) (r : MessageRow) (file : ItemHash) : Prop :=
  r.messageType = .store ∧ ∃ s content, r.itemContent = some s ∧
    env.fromStr StoreContent.decode s = .ok content ∧ content.itemHash = file

/-- Every stored STORE message has an active pin of its file. -/
def Pinned (env : Env) (n : Node) : Prop :=
  ∀ r ∈ n.messages, ∀ file, StoresFile env r file → HasActivePin n file

variable {env : Env} {message : Message} {n n' : Node}

/-- Storing the message itself adds at most its own row. -/
theorem stored_storesFile {receptionTime : Timestamp} {r : MessageRow} {file : ItemHash}
    (hr : r ∈ (stored env message receptionTime n).messages) (hfile : StoresFile env r file) :
    (∃ s ∈ n.messages, s.itemHash = r.itemHash ∧ StoresFile env s file) ∨
      r = processedRow env message receptionTime := by
  rcases Table.mem_upsert.1 hr with ⟨hr, -⟩ | ⟨s, hs, -, rfl⟩ | ⟨rfl, -⟩
  · exact .inl ⟨r, hr, rfl, hfile⟩
  · exact .inl ⟨s, hs, rfl, hfile⟩
  · exact .inr rfl

/-! ## A STORE message -/

theorem accepted_store_pinned (htype : message.messageType = .store) (h : Accepted env message n n')
    (hpinned : Pinned env n) :
    Pinned env n' ∧ (∀ p ∈ n'.filePins, ¬ p.Active → p ∈ n.filePins) ∧ n'.posts = n.posts := by
  obtain ⟨ctx, rfl, -, -, receptionTime, n₁, hprocess, rfl⟩ := h.stages
  rw [htype] at hprocess
  obtain ⟨content, hparse, hclash, rfl⟩ := StoreHandler.exec_process_ok.1 hprocess
  have hactive : (StoreHandler.pinOf message content ctx.now).Active := fun h => nomatch h
  obtain ⟨hgrow, hpin⟩ := StoreHandler.pinned_grow hactive hclash
  refine ⟨fun r hr file hfile => ?_, fun p hp hg => hgrow.grace p hp hg, rfl⟩
  rcases stored_storesFile hr hfile with ⟨s, hs, -, hfile⟩ | rfl
  · obtain ⟨p, hp, hhash, ha⟩ := hpinned s hs file hfile
    obtain ⟨p', hp', hhash', ha'⟩ := hgrow.kept p hp ha
    exact ⟨p', hp', hhash'.trans hhash, ha'⟩
  · obtain ⟨-, s, content', hs, hdecode, rfl⟩ := hfile
    obtain ⟨s', hs', hdecode'⟩ := parseContent_ok.1 hparse
    obtain rfl := Option.some.inj (hs.symm.trans hs')
    obtain rfl := Except.ok.inj (hdecode.symm.trans hdecode')
    exact hpin

/-! ## A FORGET message -/

/-- The pin survives a FORGET of the hashes: it carries the hash of none of the listed STORE messages, and
its file is not listed as a file (a STORE message counts as one when it is listed again). -/
def Survives (n : Node) (hashes : List ItemHash) (p : FilePinRecord) : Prop :=
  ∀ h ∈ hashes, (targetType n h = some .store → p.messageHash ≠ some h) ∧
    (targetType n h ≠ some .store ∨ 1 < hashes.count h → p.itemHash ≠ h)

theorem targetType_eq_some {hash : ItemHash} {t : MessageType} :
    targetType n hash = some t ↔ ∃ r ∈ n.messages, r.itemHash = hash ∧ r.messageType = t := by
  unfold targetType
  simp only [Option.map_eq_some_iff, Table.find?_eq_some, and_assoc]

variable {content : ForgetContent} {ctx : HandlerContext}

theorem cascadedAmends_eq_nil (hposts : ∀ p, p ∉ n.posts) (hash : ItemHash) : cascadedAmends n hash = [] := by
  have hamends : amendsOf hash n = [] := by
    rw [amendsOf, List.map_eq_nil_iff, List.filter_eq_nil_iff]
    exact fun p hp => absurd hp (hposts p)
  rw [cascadedAmends, hamends, ite_self]

/-- Without posts a forgotten hash takes only its own message along. -/
theorem targetType_hashForgotten (hposts : ∀ p, p ∉ n.posts) {hash h : ItemHash} {t : MessageType} :
    targetType (hashForgotten message content ctx n hash) h = some t ↔
      h ≠ hash ∧ targetType n h = some t := by
  have hgone := hashForgotten_gone message content ctx n hash
  simp only [targetType_eq_some, hgone.messages, cascadedAmends_eq_nil hposts]
  constructor
  · rintro ⟨r, ⟨hr, hne, -⟩, rfl, ht⟩
    exact ⟨hne, r, hr, rfl, ht⟩
  · rintro ⟨hne, r, hr, rfl, ht⟩
    exact ⟨r, ⟨hr, hne, List.not_mem_nil⟩, rfl, ht⟩

theorem survives_cons (hposts : ∀ p, p ∉ n.posts) {hash : ItemHash} {hashes : List ItemHash}
    {p : FilePinRecord} :
    Survives n (hash :: hashes) p ↔
      ¬ Dropped n hash p ∧ Survives (hashForgotten message content ctx n hash) hashes p := by
  have htype : ∀ h, targetType (hashForgotten message content ctx n hash) h = some .store ↔
      h ≠ hash ∧ targetType n h = some .store := fun h => targetType_hashForgotten hposts
  have hdropped : ¬ Dropped n hash p ↔ (targetType n hash = some .store → p.messageHash ≠ some hash) ∧
      (targetType n hash ≠ some .store → p.itemHash ≠ hash) := by
    unfold Dropped
    split_ifs with h <;> simp [h]
  rw [hdropped]
  constructor
  · intro h
    obtain ⟨hhead, hhead'⟩ := h hash List.mem_cons_self
    refine ⟨⟨hhead, fun ht => hhead' (.inl ht)⟩, fun x hx => ?_⟩
    obtain ⟨htail, htail'⟩ := h x (List.mem_cons_of_mem _ hx)
    refine ⟨fun ht => htail ((htype x).1 ht).2, fun ht => htail' ?_⟩
    by_cases hxe : x = hash
    · right
      rw [hxe, List.count_cons_self]
      exact Nat.succ_lt_succ (List.count_pos_iff.2 (hxe ▸ hx))
    · rcases ht with ht | ht
      · exact .inl fun ht' => ht ((htype x).2 ⟨hxe, ht'⟩)
      · exact .inr (by rwa [List.count_cons_of_ne (Ne.symm hxe)])
  · rintro ⟨⟨hhead, hhead'⟩, htail⟩ x hx
    by_cases hxe : x = hash
    · subst hxe
      refine ⟨hhead, fun ht => ?_⟩
      rcases ht with ht | ht
      · exact hhead' ht
      · rw [List.count_cons_self] at ht
        have hmem : x ∈ hashes := List.count_pos_iff.1 (by omega)
        exact (htail x hmem).2 (.inl fun ht' => ((htype x).1 ht').1 rfl)
    · have hmem : x ∈ hashes := (List.mem_cons.1 hx).resolve_left hxe
      refine ⟨fun ht => (htail x hmem).1 ((htype x).2 ⟨hxe, ht⟩), fun ht => (htail x hmem).2 ?_⟩
      rcases ht with ht | ht
      · exact .inl fun ht' => ht ((htype x).1 ht').2
      · exact .inr (by rwa [List.count_cons_of_ne (Ne.symm hxe)] at ht)

/-- What a FORGET of the hashes leaves, on a node without posts. -/
structure Left (hashes : List ItemHash) (n n' : Node) : Prop where
  posts : ∀ p, p ∉ n'.posts
  messages : ∀ r, r ∈ n'.messages ↔ r ∈ n.messages ∧ r.itemHash ∉ hashes
  active : ∀ p : FilePinRecord, p.Active → (p ∈ n'.filePins ↔ p ∈ n.filePins ∧ Survives n hashes p)
  grace : ∀ p ∈ n'.filePins, ¬ p.Active → p ∈ n.filePins ∨ ¬ HasActivePin n' p.itemHash

theorem hashesForgotten_left (message : Message) (content : ForgetContent) (ctx : HandlerContext)
    (hashes : List ItemHash) (hposts : ∀ p, p ∉ n.posts) :
    Left hashes n (hashesForgotten message content ctx hashes n) := by
  induction hashes generalizing n with
  | nil => exact ⟨hposts, by simp [hashesForgotten], by simp [hashesForgotten, Survives], fun p hp _ => .inl hp⟩
  | cons hash hashes ih =>
    have hgone := hashForgotten_gone message content ctx n hash
    have hdropped := hashForgotten_dropped message content ctx n hash
    have hposts' : ∀ p, p ∉ (hashForgotten message content ctx n hash).posts :=
      fun p hp => hposts p ((hgone.posts p).1 hp).1
    have h := ih hposts'
    rw [hashesForgotten, List.foldl_cons]
    refine ⟨h.posts, fun r => ?_, fun p ha => ?_, fun p hp hg => ?_⟩
    · refine (h.messages r).trans ?_
      rw [hgone.messages, cascadedAmends_eq_nil hposts, List.mem_cons, not_or]
      simp [and_assoc]
    · refine (h.active p ha).trans ?_
      rw [hdropped.active p ha, survives_cons hposts, and_assoc]
    · rcases h.grace p hp hg with hp | hnone
      · refine (hdropped.grace p hp hg).imp_right ?_
        rintro hnone ⟨q, hq, hhash, ha⟩
        exact hnone ⟨q, ((h.active q ha).1 hq).1, hhash, ha⟩
      · exact .inr hnone

/-- A FORGET message leaves every STORE message that it does not list a pin that survives. -/
def KeepsPins (env : Env) (message : Message) (n : Node) : Prop :=
  ∀ content, parseContent env ForgetContent.decode (fun e => e) message = .ok content →
    ∀ r ∈ n.messages, r.itemHash ∉ content.hashes → ∀ file, StoresFile env r file →
      ∃ p ∈ n.filePins, p.itemHash = file ∧ p.Active ∧ Survives n content.hashes p

theorem accepted_forget_pinned (htype : message.messageType = .forget) (h : Accepted env message n n')
    (hposts : ∀ p, p ∉ n.posts) (hkeeps : KeepsPins env message n) :
    Pinned env n' ∧ (∀ p ∈ n'.filePins, ¬ p.Active → p ∈ n.filePins ∨ ¬ HasActivePin n' p.itemHash) ∧
      ∀ p, p ∉ n'.posts := by
  obtain ⟨ctx, rfl, -, -, receptionTime, n₁, hprocess, rfl⟩ := h.stages
  rw [htype] at hprocess
  obtain ⟨content, hparse, rfl⟩ := ForgetHandler.exec_process_ok.1 hprocess
  have hleft := hashesForgotten_left message content ctx content.hashes hposts
  refine ⟨fun r hr file hfile => ?_, hleft.grace, hleft.posts⟩
  rcases stored_storesFile hr hfile with ⟨s, hs, -, hfile⟩ | rfl
  · obtain ⟨hs, hlisted⟩ := (hleft.messages s).1 hs
    obtain ⟨p, hp, hhash, ha, hsurvives⟩ := hkeeps content hparse s hs hlisted file hfile
    exact ⟨p, (hleft.active p ha).2 ⟨hp, hsurvives⟩, hhash, ha⟩
  · have hstore : message.messageType = .store := hfile.1
    rw [htype] at hstore
    cases hstore

/-! ## Runs -/

/-- A STORE or FORGET message is accepted; a FORGET message keeps the pins. -/
inductive PinStep (env : Env) : Node → Node → Prop
  | store {message : Message} {n n' : Node} (htype : message.messageType = .store)
      (haccepted : Accepted env message n n') : PinStep env n n'
  | forget {message : Message} {n n' : Node} (htype : message.messageType = .forget)
      (haccepted : Accepted env message n n') (hkeeps : KeepsPins env message n) : PinStep env n n'

/-- What one step preserves, and where it adds grace period pins. -/
theorem PinStep.pinned (h : PinStep env n n') (hpinned : Pinned env n) (hposts : ∀ p, p ∉ n.posts) :
    Pinned env n' ∧ (∀ p ∈ n'.filePins, ¬ p.Active → p ∈ n.filePins ∨ ¬ HasActivePin n' p.itemHash) ∧
      ∀ p, p ∉ n'.posts := by
  cases h with
  | store htype haccepted =>
    obtain ⟨hpinned', hgrace, hsame⟩ := accepted_store_pinned htype haccepted hpinned
    exact ⟨hpinned', fun p hp hg => .inl (hgrace p hp hg), hsame ▸ hposts⟩
  | forget htype haccepted hkeeps => exact accepted_forget_pinned htype haccepted hposts hkeeps

/-- **In a run whose FORGET messages keep the pins, every stored STORE message has an active pin of its
file**, and a grace period pin is added only for a file that no stored STORE message names. -/
theorem pinned_of_run {n₀ : Node} (hmessages : ∀ r, r ∉ n₀.messages) (hposts : ∀ p, p ∉ n₀.posts)
    (hrun : Relation.ReflTransGen (PinStep env) n₀ n) :
    Pinned env n ∧ ∀ n', PinStep env n n' → ∀ p ∈ n'.filePins, ¬ p.Active → p ∉ n.filePins →
      ∀ r ∈ n'.messages, ¬ StoresFile env r p.itemHash := by
  have hinv : Pinned env n ∧ ∀ p, p ∉ n.posts := by
    induction hrun with
    | refl => exact ⟨fun r hr => absurd hr (hmessages r), hposts⟩
    | tail _ hstep ih =>
      obtain ⟨hpinned, -, hposts'⟩ := hstep.pinned ih.1 ih.2
      exact ⟨hpinned, hposts'⟩
  refine ⟨hinv.1, fun n' hstep p hp hg hnew r hr hfile => ?_⟩
  obtain ⟨hpinned, hgrace, -⟩ := hstep.pinned hinv.1 hinv.2
  exact (hgrace p hp hg).elim hnew fun hnone => hnone (hpinned r hr _ hfile)

/-! ### One file, stored twice -/

/-- A message that brings its content and passes the first checks is accepted when its handler accepts it. -/
theorem acceptedBy_of_unrejected {ctx : ProcessorContext} (receptionTime : Timestamp) {trustedSource : Bool}
    (hcontent : needsContentFetch message = false) (hpasses : rejection ctx trustedSource message = none)
    (h : Exec (processMessage message (createHandlerContext ctx trustedSource)) n .processed n') :
    AcceptedBy ctx message n (stored ctx.env message receptionTime n') := by
  have hacts : ActsOn ctx ⟨message.itemHash, message.toJson, receptionTime, true, true, 0, receptionTime, trustedSource⟩
      message message := by
    refine ⟨Message.decode_toJson _, ?_⟩
    rw [obtainContent, hcontent, if_neg Bool.false_ne_true]
  refine ⟨_, message, hacts, ?_⟩
  exact exec_processSingleMessage_processed.2 ⟨message, message, hacts, hpasses, _, h, rfl⟩

/-- A trusted message that brings its content is accepted when its handler accepts it. -/
theorem acceptedBy_of_trusted {ctx : ProcessorContext} (receptionTime : Timestamp)
    (hitem : message.itemType = .storage) (hcontent : message.itemContent.isSome)
    (h : Exec (processMessage message (createHandlerContext ctx true)) n .processed n') :
    AcceptedBy ctx message n (stored ctx.env message receptionTime n') := by
  have hno : needsContentFetch message = false := by
    simp [needsContentFetch, hitem, Option.isNone_eq_false_iff.2 hcontent]
  have hhash : hashRejection ctx message = none := by
    rw [hashRejection, if_neg (by rw [hitem]; decide)]
  exact acceptedBy_of_unrejected receptionTime hno (Option.or_eq_none_iff.2 ⟨rfl, hhash⟩) h

theorem accepted_of_trusted {ctx : ProcessorContext} (receptionTime : Timestamp)
    (hitem : message.itemType = .storage) (hcontent : message.itemContent.isSome)
    (h : Exec (processMessage message (createHandlerContext ctx true)) n .processed n') :
    Accepted ctx.env message n (stored ctx.env message receptionTime n') :=
  accepted_iff.2 ⟨ctx, rfl, acceptedBy_of_trusted receptionTime hitem hcontent h⟩

section StoredTwice

def fileOwner : Address := "0x8fa7De588b149EFa9F1FdBe307921842F27B37C7"

def file : ItemHash := "QmYwAPJzv5CZsnA625s3Xf2nemtYgPpHdWEz79ojWKVqSE"

/-- The text of a STORE message, and of a FORGET message. -/
def storeText (time : String) : String :=
  "\x7b\"address\":\"" ++ fileOwner ++ "\",\"item_type\":\"ipfs\",\"item_hash\":\"" ++ file ++
    "\",\"time\":" ++ time ++ "\x7d"

def forgetText (hash : ItemHash) : String :=
  "\x7b\"address\":\"" ++ fileOwner ++ "\",\"hashes\":[\"" ++ hash ++ "\"],\"time\":1700000100\x7d"

def storeJson (time : Int) : Json :=
  .obj [("address", .str fileOwner), ("item_type", .str "ipfs"), ("item_hash", .str file),
    ("time", .num (.int time))]

def forgetJson (hash : ItemHash) : Json :=
  .obj [("address", .str fileOwner), ("hashes", .arr [.str hash]), ("time", .num (.int 1700000100))]

/-- A STORE message of the file. -/
def storeMessage (hash : ItemHash) (signature time : String) : Message where
  messageType := .store
  chain := .eth
  sender := fileOwner
  signature := signature
  itemType := .storage
  itemHash := hash
  itemContent := some (storeText time)
  channel := none
  time := 1700000000

def firstHash : ItemHash := "0ec83d2ec8ca475b65769710a2bdc2b3a48202283750ccd4c6055af8e822613b"

def secondHash : ItemHash := "5edf5b15a3ca661ac7a0985fd2c28ab743edd045cfb1eafc1853001ecb95a6c7"

def firstStore : Message := storeMessage firstHash
  ("0x6b887f540e6a36166c712c2010a2d43901896528e806018acfe6eb8e37ce97177439cff4a45876062baffbdef4db866ab6b0" ++
    "5ff39d5e6543b778370ec3c710701b") "1700000000"

def secondStore : Message := storeMessage secondHash
  ("0x634819c00938f0c68c59d16a3fd2218e7cc6d1af5ef6fd7dd63306e22bc0426171c5ff368a06c01892b45d711944d9c7f3c0" ++
    "240793f12e0ccf09d1af51453f161c") "1700000001"

/-- A FORGET message that lists one hash. -/
def forgetMessage (hash itemHash : ItemHash) (signature : String) : Message where
  messageType := .forget
  chain := .eth
  sender := fileOwner
  signature := signature
  itemType := .storage
  itemHash := itemHash
  itemContent := some (forgetText hash)
  channel := none
  time := 1700000100

def forgetFirst : Message := forgetMessage firstHash
  "93396d2fe74e9a02efe45e83aacee644dcba9027ca54ec4dbe2c90a1eb5ed34d"
  ("0x9a57f6e2d0ae79ad2c115329a7c54a88540c16230ada4223de0b9b40b299e5137d881ea517a355863aebdf27fd26b305412f" ++
    "202eb5338226bc6a951a9c6e668a1b")

def forgetSecond : Message := forgetMessage secondHash
  "7e3e900036dc0b8278d82ce8b7401d0d91eb344a81b54592900baaa18390e5b5"
  ("0x3a22f7d708281f464c8402bcea64fa03e19d809cdad1a5d49a10f82da0b798670cf9bd3b919e089fc15d5196d51b7b5ea62d" ++
    "bc645a8a2fbd02f30b7e649cec571c")

def fileCtx : ProcessorContext where
  env := .ofTables [(storeText "1700000000", storeJson 1700000000), (storeText "1700000001", storeJson 1700000001),
      (forgetText firstHash, forgetJson firstHash), (forgetText secondHash, forgetJson secondHash)]
    [(storeText "1700000000", firstHash), (storeText "1700000001", secondHash),
      (forgetText firstHash, forgetFirst.itemHash), (forgetText secondHash, forgetSecond.itemHash)]
    [("ETH\n" ++ fileOwner ++ "\nFORGET\n" ++ forgetFirst.itemHash, forgetFirst.signature, fileOwner),
      ("ETH\n" ++ fileOwner ++ "\nFORGET\n" ++ forgetSecond.itemHash, forgetSecond.signature, fileOwner)]
  order := .stored
  now := 1700000200
  cost := none
  ipfsGet := fun _ => .error "not found"

/-- What the messages say. -/
def storeContent (time : Timestamp) : StoreContent := ⟨fileOwner, .ipfs, file, none, none, none, none, time⟩

def forgetContent (hash : ItemHash) : ForgetContent := ⟨fileOwner, [hash], none, 1700000100⟩

example : forgetFirst.verifySignature fileCtx.env = .ok true := by decide +kernel

theorem fromStr_firstStore :
    fileCtx.env.fromStr StoreContent.decode (storeText "1700000000") = .ok (storeContent 1700000000) := by
  decide +kernel

theorem fromStr_secondStore :
    fileCtx.env.fromStr StoreContent.decode (storeText "1700000001") = .ok (storeContent 1700000001) := by
  decide +kernel

theorem fromStr_forgetFirst :
    fileCtx.env.fromStr ForgetContent.decode (forgetText firstHash) = .ok (forgetContent firstHash) := by
  decide +kernel

theorem fromStr_forgetSecond :
    fileCtx.env.fromStr ForgetContent.decode (forgetText secondHash) = .ok (forgetContent secondHash) := by
  decide +kernel

/-- The context of the handlers. -/
def fileHandlerCtx : HandlerContext := createHandlerContext fileCtx true

/-- The node after a STORE message of the file. -/
def afterStore (message : Message) (time : Timestamp) (n : Node) : Node :=
  stored fileCtx.env message 1700000200 (StoreHandler.recorded message (storeContent time) fileHandlerCtx n)

theorem accepted_store {message : Message} {time : Timestamp} {text : String} {n : Node}
    (htype : message.messageType = .store) (hitem : message.itemType = .storage)
    (hcontent : message.itemContent = some text)
    (hdecode : fileCtx.env.fromStr StoreContent.decode text = .ok (storeContent time))
    (hclash : ¬ PgDatabase.PinClash (StoreHandler.pinOf message (storeContent time) fileHandlerCtx.now) n) :
    Accepted fileCtx.env message n (afterStore message time n) := by
  have hplain : StoreHandler.Plain message fileHandlerCtx (storeContent time) := by
    refine ⟨⟨text, hcontent, hdecode⟩, ?_, ?_, rfl, Nat.zero_le _, .inl rfl⟩
    · show file ≠ ""
      decide +kernel
    · show StoreHandler.validateItemTypeHash .ipfs file = .ok ()
      decide +kernel
  exact accepted_of_trusted _ hitem (by rw [hcontent]; rfl) (hplain.exec_processMessage htype hclash)

def storedOnce : Node := afterStore firstStore 1700000000 .empty

def storedTwice : Node := afterStore secondStore 1700000001 storedOnce

theorem accepted_firstStore : Accepted fileCtx.env firstStore .empty storedOnce :=
  accepted_store rfl rfl rfl fromStr_firstStore fun ⟨_, hp, _⟩ => absurd hp List.not_mem_nil

example : storedTwice.filePins.rows.length = 1 := by decide +kernel

/-- The pins carry the hash of the second message. -/
theorem storedTwice_pins : ∀ p ∈ storedTwice.filePins.rows,
    p.itemHash = file ∧ p.Active ∧ p.messageHash = some secondHash := by
  decide +kernel

theorem accepted_secondStore : Accepted fileCtx.env secondStore storedOnce storedTwice := by
  refine accepted_store rfl rfl rfl fromStr_secondStore ?_
  have h : ∀ p ∈ storedOnce.filePins.rows, p.pinType = .message := by decide +kernel
  rintro ⟨p, hp, -, htype⟩
  exact htype (h p hp)

/-- The node after a FORGET message. -/
def afterForget (message : Message) (hash : ItemHash) : Node :=
  stored fileCtx.env message 1700000200
    (hashesForgotten message (forgetContent hash) fileHandlerCtx [hash] storedTwice)

theorem accepted_forget {message : Message} {hash : ItemHash} {text : String} (htype : message.messageType = .forget)
    (hitem : message.itemType = .storage) (hcontent : message.itemContent = some text)
    (hdecode : fileCtx.env.fromStr ForgetContent.decode text = .ok (forgetContent hash))
    (hsigned : message.verifySignature fileCtx.env = .ok true)
    (hstored : ∃ r ∈ storedTwice.messages, r.itemHash = hash ∧ r.messageType ≠ .forget ∧
      fileCtx.env.SameAddress r.sender message.sender) :
    Accepted fileCtx.env message storedTwice (afterForget message hash) := by
  have hforgettable : Forgettable message fileHandlerCtx storedTwice hash := by
    refine ⟨hstored, ?_, ?_, ?_⟩
    · rintro ⟨q, hq, -⟩
      exact absurd hq List.not_mem_nil
    · exact fun p hp => absurd hp List.not_mem_nil
    · exact fun i hi => absurd hi List.not_mem_nil
  have hacceptable : Acceptable message fileHandlerCtx (forgetContent hash) storedTwice := by
    refine ⟨⟨text, hcontent, hdecode, .inl rfl⟩, List.cons_ne_nil _ _, hsigned, ?_, .inl rfl⟩
    intro h hh
    rwa [List.mem_singleton.1 hh]
  exact accepted_of_trusted _ hitem (by rw [hcontent]; rfl) (hacceptable.exec_processMessage htype)

example : (afterForget forgetFirst firstHash).messages.rows.map MessageRow.itemHash =
    [secondHash, forgetFirst.itemHash] := by decide +kernel

theorem accepted_forgetFirst : Accepted fileCtx.env forgetFirst storedTwice (afterForget forgetFirst firstHash) :=
  accepted_forget rfl rfl rfl fromStr_forgetFirst (by decide +kernel)
    ⟨processedRow fileCtx.env firstStore 1700000200, by decide +kernel, rfl, by decide, rfl⟩

theorem accepted_forgetSecond :
    Accepted fileCtx.env forgetSecond storedTwice (afterForget forgetSecond secondHash) :=
  accepted_forget rfl rfl rfl fromStr_forgetSecond (by decide +kernel)
    ⟨processedRow fileCtx.env secondStore 1700000200, by decide +kernel, rfl, by decide, rfl⟩

theorem storesFile_firstStore : StoresFile fileCtx.env (processedRow fileCtx.env firstStore 1700000200) file :=
  ⟨rfl, _, _, rfl, fromStr_firstStore, rfl⟩

theorem forgetFirst_keepsPins : KeepsPins fileCtx.env forgetFirst storedTwice := by
  intro content hparse r hr hlisted f hfile
  obtain ⟨s, hs, hdecode⟩ := parseContent_ok.1 hparse
  obtain rfl := Option.some.inj hs
  obtain rfl := Except.ok.inj (fromStr_forgetFirst.symm.trans hdecode)
  have hrows : ∀ r ∈ storedTwice.messages.rows, r.itemHash ∈ [firstHash] ∨
      r.itemContent = some (storeText "1700000001") := by decide +kernel
  obtain ⟨-, s, content, hs, hdecode', rfl⟩ := hfile
  obtain rfl := Option.some.inj (((hrows r hr).resolve_left hlisted).symm.trans hs)
  obtain rfl := Except.ok.inj (fromStr_secondStore.symm.trans hdecode')
  have hpin : ∃ p ∈ storedTwice.filePins.rows, p.messageHash = some secondHash := by decide +kernel
  obtain ⟨p, hp, hmessage⟩ := hpin
  obtain ⟨hhash, ha, -⟩ := storedTwice_pins p hp
  refine ⟨p, hp, hhash, ha, fun h hh => ?_⟩
  obtain rfl := List.mem_singleton.1 hh
  have htype : targetType storedTwice firstHash = some .store := by decide +kernel
  refine ⟨fun _ => ?_, fun hne => ?_⟩
  · rw [hmessage]
    decide +kernel
  · rcases hne with hne | hne
    · exact absurd htype hne
    · simp [forgetContent] at hne

/-- A FORGET of the first of two messages for one file leaves the pin of the second one. -/
theorem forgetFirst_pinned : Pinned fileCtx.env (afterForget forgetFirst firstHash) := by
  have hrun : Relation.ReflTransGen (PinStep fileCtx.env) .empty (afterForget forgetFirst firstHash) :=
    ((Relation.ReflTransGen.single (.store rfl accepted_firstStore)).tail
      (.store rfl accepted_secondStore)).tail (.forget rfl accepted_forgetFirst forgetFirst_keepsPins)
  exact (pinned_of_run (fun _ => List.not_mem_nil) (fun _ => List.not_mem_nil) hrun).1

/-- A FORGET of the second one leaves the first one without an active pin, and adds a grace period pin. -/
theorem forgetSecond_not_pinned :
    Accepted fileCtx.env firstStore .empty storedOnce ∧
      Accepted fileCtx.env secondStore storedOnce storedTwice ∧
      Accepted fileCtx.env forgetSecond storedTwice (afterForget forgetSecond secondHash) ∧
      ¬ Pinned fileCtx.env (afterForget forgetSecond secondHash) ∧
      (∃ p ∈ (afterForget forgetSecond secondHash).filePins.rows, p.itemHash = file ∧ p.pinType = .gracePeriod) ∧
      ∃ r ∈ (afterForget forgetSecond secondHash).messages, StoresFile fileCtx.env r file := by
  have hrow : processedRow fileCtx.env firstStore 1700000200 ∈
      (afterForget forgetSecond secondHash).messages := by decide +kernel
  have hno : ∀ p ∈ (afterForget forgetSecond secondHash).filePins.rows, ¬ (p.itemHash = file ∧ p.Active) := by
    decide +kernel
  refine ⟨accepted_firstStore, accepted_secondStore, accepted_forgetSecond, fun hpinned => ?_,
    by decide +kernel, _, hrow, storesFile_firstStore⟩
  obtain ⟨p, hp, hactive⟩ := hpinned _ hrow _ storesFile_firstStore
  exact hno p hp hactive

end StoredTwice

end AlephCore.MessageProcessor
