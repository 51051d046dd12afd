import AlephCore.Handlers.Stages
import AlephCore.Lib.Faults

/-!
# PostPermissions — who may amend a post

An amend sent on behalf of another address is checked against the message of its original: the address
must stay the same, and the security aggregate of the owner must let the sender send the original.  Only
where no message is stored for the original, the amend itself is checked.
-/

namespace AlephCore

open ProgE Prog Serde

/-! ## The fields of a post -/

/-- The fields of a post that is read from an object, as `Value::get` finds them. -/
theorem PostContent.fields_of_decode {fs : List (String × Json)} {content : PostContent}
    (h : PostContent.decode (.obj fs) = .ok content) :
    (Json.obj fs).getStr? "address" = some content.address ∧
      (Json.obj fs).getStr? "type" = some content.postType ∧
      ∀ r, content.ref_ = some r → (Json.obj fs).get? "ref" = some (.str r) := by
  obtain ⟨s, hs, h⟩ := bind_ok.1 h
  obtain ⟨address, haddress, h⟩ := bind_ok.1 h
  obtain ⟨postType, htype, h⟩ := bind_ok.1 h
  obtain ⟨value, -, h⟩ := bind_ok.1 h
  obtain ⟨ref_, href, h⟩ := bind_ok.1 h
  obtain ⟨time, -, h⟩ := bind_ok.1 h
  obtain rfl := Except.ok.inj h
  refine ⟨?_, ?_, ?_⟩
  · rw [Json.getStr?, ← get?_of_asStruct hs (by simp) 0, Source.required_asString haddress]
    rfl
  · rw [Json.getStr?, ← get?_of_asStruct hs (by simp) 1, Source.required_asString htype]
    rfl
  · rintro r rfl
    rw [← get?_of_asStruct hs (by simp) 3, Source.optional_asString href]

/-! ## Delegated authorization -/

namespace Permissions

/-- The security aggregate of `owner` has an entry that lets `sender` send the message. -/
def Authorizes (env : Env) (n : Node) (owner sender : Address) (message : Message) : Prop :=
  ∃ row ∈ n.aggregates, (row.address, row.key) = (owner, "security") ∧
    ∃ authorizations, decodeAuthorizations row.content.json = .ok authorizations ∧
      ∃ auth ∈ authorizations, auth.matches env sender message = true

/-- What is checked of a message with the address `owner`: the message it amends, if that is known and has
the same address, else the message itself. -/
def TargetAuthorizes (env : Env) (n : Node) (target : Option (Message × Address)) (owner sender : Address)
    (message : Message) : Prop :=
  match target with
  | some (original, address) => env.SameAddress owner address ∧ Authorizes env n address sender original
  | none => Authorizes env n owner sender message

/-- The message stored under the hash, and the address in its content. -/
def originalMessage (env : Env) (n : Node) (targetRef : ItemHash) : Option (Message × Address) :=
  if targetRef = "" then none
  else do
    let original ← (n.messages.find? targetRef).map MessageRow.message
    let contentStr ← original.itemContent
    let owner ← env.contentStr? contentStr "address"
    pure (original, owner)

variable {env : Env} {message : Message} {n n' : Node}

theorem exec_checkDelegatedAuthorization {sender owner : Address} :
    Exec (checkDelegatedAuthorization env sender owner message).run n (.ok true) n' ↔
      n' = n ∧ (env.SameAddress sender owner ∨ Authorizes env n owner sender message) := by
  unfold checkDelegatedAuthorization
  split_ifs with hsame
  · simp [hsame]
  rw [exec_bind_ok]
  constructor
  · rintro ⟨content, t, hcontent, h⟩
    rw [exec_mapErr_ok, PgDatabase.getAggregate, exec_query_ok] at hcontent
    obtain ⟨rfl, rfl⟩ := hcontent
    cases hrow : t.aggregates.find? (owner, "security") with
    | none =>
      rw [hrow] at h
      exact absurd (exec_pure_ok.1 h).1 (by simp)
    | some row =>
      rw [hrow] at h
      obtain ⟨authorizations, hauths, h⟩ := exec_fromExcept_bind_ok.1 h
      obtain ⟨hany, rfl⟩ := exec_pure_ok.1 h
      obtain ⟨auth, hauth, hmatches⟩ := List.any_eq_true.1 hany.symm
      obtain ⟨hmem, hkey⟩ := Table.find?_eq_some.1 hrow
      refine ⟨rfl, .inr ⟨row, hmem, hkey, authorizations, ?_, auth, hauth, hmatches⟩⟩
      cases hd : decodeAuthorizations row.content.json with
      | ok as =>
        rw [hd] at hauths
        exact congrArg _ (Except.ok.inj hauths)
      | error e =>
        rw [hd] at hauths
        cases hauths
  · rintro ⟨rfl, hself | ⟨row, hmem, hkey, authorizations, hauths, auth, hauth, hmatches⟩⟩
    · exact absurd hself hsame
    · refine ⟨some row.content, n', ?_, exec_fromExcept_bind_ok.2 ⟨authorizations, by rw [hauths]; rfl, ?_⟩⟩
      · rw [exec_mapErr_ok, PgDatabase.getAggregate, exec_query_ok]
        exact ⟨by rw [Table.find?_eq_some.2 ⟨hmem, hkey⟩]; rfl, rfl⟩
      · exact exec_pure_ok.2 ⟨(List.any_eq_true.2 ⟨auth, hauth, hmatches⟩).symm, rfl⟩

/-- An amend is checked against the message of its original, if that is stored and has an address. -/
theorem exec_amendTarget {content : Json} {targetRef : ItemHash} {target : Option (Message × Address)}
    (htype : message.messageType = .post) (hamend : content.getStr? "type" = some "amend")
    (href : content.get? "ref" = some (.str targetRef))
    (h : Exec (amendTarget env message content).run n (.ok target) n') :
    target = originalMessage env n targetRef := by
  unfold amendTarget at h
  rw [if_pos ⟨htype, by rw [hamend]; rfl⟩] at h
  simp only [href, Option.some_or] at h
  have hhash : (Json.str targetRef).asStr?.getD "" = targetRef := rfl
  unfold originalMessage
  by_cases hempty : targetRef = ""
  · rw [if_pos (hhash.trans hempty)] at h
    rw [if_pos hempty]
    exact (exec_pure_ok.1 h).1
  · rw [if_neg (hhash.trans_ne hempty)] at h
    rw [if_neg hempty]
    obtain ⟨original, t, hget, h⟩ := exec_bind_ok.1 h
    rw [exec_mapErr_ok, PgDatabase.getMessage, exec_query_ok] at hget
    obtain ⟨rfl, rfl⟩ := hget
    exact (exec_pure_ok.1 h).1

end Permissions

/-! ## Amends -/

namespace PostHandler

open Permissions

/-- An amend, of exactly that type and with an object as content, that is sent for another address. -/
structure DelegatedAmend (message : Message) (env : Env) (content : PostContent) : Prop where
  isPost : message.messageType = .post
  parsed : ∃ s fs, message.itemContent = some s ∧ env.parseJson s = .ok (.obj fs) ∧
    PostContent.decode (.obj fs) = .ok content
  amend : content.postType = "amend"
  delegated : ¬ env.SameAddress message.sender content.address

variable {message : Message} {ctx : HandlerContext} {content : PostContent} {n n' n₁ n₂ : Node}

theorem DelegatedAmend.fromStr (h : DelegatedAmend message ctx.env content) :
    ∃ s, message.itemContent = some s ∧ ctx.env.fromStr PostContent.decode s = .ok content := by
  obtain ⟨s, fs, hs, hparse, hdecode⟩ := h.parsed
  exact ⟨s, hs, by rw [Env.fromStr, hparse]; exact hdecode⟩

/-- A valid amend names a stored post that is no amend. -/
theorem exec_validateAmend (h : Exec (validateAmend content ctx).run n (.ok ()) n') :
    ∃ targetRef, content.ref_ = some targetRef ∧
      ∃ target ∈ n.posts, target.itemHash = targetRef ∧ isAmend ctx.env target.postType = false := by
  unfold validateAmend at h
  cases href : content.ref_ with
  | none =>
    simp only [href] at h
    exact absurd h exec_throw_ok
  | some targetRef =>
    simp only [href, PgDatabase.getPost, exec_db_query_bind_ok] at h
    refine ⟨targetRef, rfl, ?_⟩
    cases htarget : n.posts.find? targetRef with
    | none =>
      rw [htarget] at h
      exact absurd h exec_throw_ok
    | some target =>
      rw [htarget] at h
      obtain ⟨hmem, hhash⟩ := Table.find?_eq_some.1 htarget
      refine ⟨target, hmem, hhash, ?_⟩
      by_contra hamend
      simp only [if_pos (by simpa using hamend : isAmend ctx.env target.postType = true)] at h
      exact absurd h exec_throw_ok

theorem exec_validate_amend (h : Exec (validate message ctx).run n (.ok ()) n₁)
    (hparse : ∃ s, message.itemContent = some s ∧ ctx.env.fromStr PostContent.decode s = .ok content)
    (hamend : isAmend ctx.env content.postType = true) :
    content.postType ≠ "" ∧ ∃ targetRef, content.ref_ = some targetRef ∧
      ∃ target ∈ n.posts, target.itemHash = targetRef ∧ isAmend ctx.env target.postType = false := by
  obtain ⟨content', hparse', h⟩ := exec_fromExcept_bind_ok.1 h
  obtain ⟨s, hs, hdecode⟩ := hparse
  obtain ⟨s', hs', hdecode'⟩ := parseContent_ok.1 hparse'
  obtain rfl := Option.some.inj (hs.symm.trans hs')
  obtain rfl := Except.ok.inj (hdecode.symm.trans hdecode')
  split_ifs at h with hempty
  · exact absurd h exec_throw_ok
  · exact ⟨hempty, exec_validateAmend h⟩

/-- What the check of the sender finds for an amend sent for another address. -/
theorem DelegatedAmend.exec_checkSenderAuthorization (h : DelegatedAmend message ctx.env content)
    {targetRef : ItemHash} (href : content.ref_ = some targetRef)
    (hexec : Exec (checkSenderAuthorization ctx.env message).run n (.ok true) n') :
    TargetAuthorizes ctx.env n (originalMessage ctx.env n targetRef) content.address message.sender
      message := by
  obtain ⟨s, fs, hs, hparse, hdecode⟩ := h.parsed
  obtain ⟨haddress, htype, hfield⟩ := PostContent.fields_of_decode hdecode
  unfold checkSenderAuthorization at hexec
  simp only [hs, hparse] at hexec
  obtain ⟨json, hjson, hexec⟩ := exec_fromExcept_bind_ok.1 hexec
  obtain rfl := Except.ok.inj hjson
  simp only [haddress, if_neg h.delegated] at hexec
  obtain ⟨target, t, htarget, hexec⟩ := exec_bind_ok.1 hexec
  obtain rfl := (checks_amendTarget _).unchanged htarget
  obtain rfl := exec_amendTarget h.isPost (htype.trans (congrArg some h.amend)) (hfield _ href) htarget
  cases horiginal : originalMessage ctx.env t targetRef with
  | none =>
    simp only [horiginal] at hexec
    exact (exec_checkDelegatedAuthorization.1 hexec).2.resolve_left h.delegated
  | some original =>
    obtain ⟨original, owner⟩ := original
    simp only [horiginal] at hexec
    by_cases hsame : ctx.env.SameAddress content.address owner
    · rw [if_neg (not_not.2 hsame)] at hexec
      refine ⟨hsame, (exec_checkDelegatedAuthorization.1 hexec).2.resolve_left fun hself => ?_⟩
      exact h.delegated (hself.trans hsame.symm)
    · rw [if_pos hsame] at hexec
      exact absurd (exec_pure_ok.1 hexec).1 (by simp)

/-- An amend that is permitted has been checked, as the message of another address. -/
theorem DelegatedAmend.exec_checkPermissions (h : DelegatedAmend message ctx.env content)
    (hexec : Exec (checkPermissions message ctx).run n (.ok ()) n₁) :
    ∃ n', Exec (checkSenderAuthorization ctx.env message).run n (.ok true) n' := by
  obtain ⟨s, fs, hs, hparse, hdecode⟩ := h.parsed
  obtain ⟨haddress, -, -⟩ := PostContent.fields_of_decode hdecode
  obtain ⟨⟨⟩, t, hdefault, -⟩ := exec_bind_ok.1 hexec
  have hcontent : ctx.env.contentStr? s "address" = some content.address := by
    rw [Env.contentStr?, Env.fromStrValue?, hparse]
    exact haddress
  simp only [AlephCore.checkPermissions, hs, Option.bind_some, hcontent, requireAuthorization,
    if_neg h.delegated] at hdefault
  obtain ⟨authorized, t', hcheck, hdefault⟩ := exec_bind_ok.1 hdefault
  cases authorized with
  | false => exact absurd hdefault (by simp)
  | true => exact ⟨t', exec_db_ok.1 hcheck⟩

/-- Where no statement is refused, an amend that is permitted has the address of the stored original. -/
theorem run_checkPermissions_amend {targetRef : ItemHash}
    (hparse : ∃ s, message.itemContent = some s ∧ ctx.env.fromStr PostContent.decode s = .ok content)
    (href : content.ref_ = some targetRef) (hamend : isAmend ctx.env content.postType = true)
    (hrun : (checkPermissions message ctx).run.run n = (.ok (), n₁)) :
    ∀ target ∈ n.posts, target.itemHash = targetRef → ctx.env.SameAddress target.address content.address := by
  rintro target htarget hhash
  obtain ⟨s, hs, hdecode⟩ := hparse
  rcases run_bind_cases hrun with ⟨e, -, hr⟩ | ⟨u, t, hdefault, haddress⟩
  · cases hr
  · have hexec := exec_run (AlephCore.checkPermissions message ctx).run n
    rw [hdefault] at hexec
    obtain rfl := AlephCore.checks_checkPermissions.unchanged hexec
    simp only [hs, Option.map_some, hdecode, hamend, href] at haddress
    unfold checkAmendAddress at haddress
    rw [run_bind_ok (run_attempt _ _)] at haddress
    simp only [PgDatabase.getPost, run_query, Table.find?_eq_some.2 ⟨htarget, hhash⟩] at haddress
    by_contra hsame
    rw [if_neg hsame] at haddress
    cases haddress

/-- **An amend sent for another address** that is valid and permitted names a stored post that is no
amend.  If the message of that post is stored, the amend has its address and the security aggregate of the
owner lets the sender send the original; only otherwise the amend itself is checked.  Where no statement
is refused, the amend has the address of the stored post. -/
theorem amend_authorized (h : DelegatedAmend message ctx.env content)
    (hamend : isAmend ctx.env content.postType = true)
    (hvalidate : Exec (validate message ctx).run n (.ok ()) n₁)
    (hpermitted : Exec (checkPermissions message ctx).run n₁ (.ok ()) n₂) :
    ∃ targetRef, content.ref_ = some targetRef ∧
      (∃ target ∈ n.posts, target.itemHash = targetRef ∧ isAmend ctx.env target.postType = false) ∧
      TargetAuthorizes ctx.env n (originalMessage ctx.env n targetRef) content.address message.sender
        message ∧
      ((checkPermissions message ctx).run.run n = (.ok (), n₂) →
        ∀ target ∈ n.posts, target.itemHash = targetRef →
          ctx.env.SameAddress target.address content.address) := by
  obtain rfl := checks_validate.unchanged hvalidate
  obtain ⟨-, targetRef, href, htarget⟩ := exec_validate_amend hvalidate h.fromStr hamend
  obtain ⟨n', hcheck⟩ := h.exec_checkPermissions hpermitted
  exact ⟨targetRef, href, htarget, h.exec_checkSenderAuthorization href hcheck,
    run_checkPermissions_amend h.fromStr href hamend⟩

/-! ### A delegate that may only post in one channel, or only notes -/

section Delegate

/-- What is compared with the security aggregates decides, if the address of the original is kept. -/
theorem exec_permitted {s : String} {json : Json} {targetRef : ItemHash}
    (hs : message.itemContent = some s) (hparse : ctx.env.parseJson s = .ok json)
    (haddress : json.getStr? "address" = some content.address)
    (hdecode : PostContent.decode json = .ok content) (href : content.ref_ = some targetRef)
    (hdelegated : ¬ ctx.env.SameAddress message.sender content.address)
    {target : Option (Message × Address)}
    (htarget : Exec (amendTarget ctx.env message json).run n (.ok target) n)
    (hallowed : TargetAuthorizes ctx.env n target content.address message.sender message)
    (hsame : ∀ p ∈ n.posts, p.itemHash = targetRef → ctx.env.SameAddress p.address content.address) :
    Exec (checkPermissions message ctx).run n (.ok ()) n := by
  have hcontent : ctx.env.contentStr? s "address" = some content.address := by
    rw [Env.contentStr?, Env.fromStrValue?, hparse]
    exact haddress
  have hcheck : Exec (checkSenderAuthorization ctx.env message).run n (.ok true) n := by
    unfold checkSenderAuthorization
    simp only [hs, hparse]
    refine exec_fromExcept_bind_ok.2 ⟨json, rfl, ?_⟩
    simp only [haddress, if_neg hdelegated]
    refine exec_bind_ok.2 ⟨target, n, htarget, ?_⟩
    cases target with
    | none => exact exec_checkDelegatedAuthorization.2 ⟨rfl, .inr hallowed⟩
    | some target =>
      simp only [if_neg (not_not.2 hallowed.1)]
      exact exec_checkDelegatedAuthorization.2 ⟨rfl, .inr hallowed.2⟩
  refine exec_bind_ok.2 ⟨(), n, ?_, ?_⟩
  · simp only [AlephCore.checkPermissions, hs, Option.bind_some, hcontent, requireAuthorization,
      if_neg hdelegated]
    exact exec_bind_ok.2 ⟨true, n, exec_db_ok.2 hcheck, exec_pure_ok.2 ⟨rfl, rfl⟩⟩
  · have hdecode' : ctx.env.fromStr PostContent.decode s = .ok content := by
      rw [Env.fromStr, hparse]
      exact hdecode
    simp only [hs, Option.map_some, hdecode', href]
    cases isAmend ctx.env content.postType with
    | false => exact exec_pure_ok.2 ⟨rfl, rfl⟩
    | true =>
      refine exec_bind_ok.2 ⟨.ok (n.posts.find? targetRef), n, ?_, ?_⟩
      · exact exec_attempt_ok.2 (exec_query_ok.2 ⟨rfl, rfl⟩)
      · cases hfind : n.posts.find? targetRef with
        | none => exact exec_pure_ok.2 ⟨rfl, rfl⟩
        | some p =>
          obtain ⟨hp, hhash⟩ := Table.find?_eq_some.1 hfind
          simp only [if_pos (hsame p hp hhash)]
          exact exec_pure_ok.2 ⟨rfl, rfl⟩

def noteOwner : Address := "0x8fa7De588b149EFa9F1FdBe307921842F27B37C7"

def noteDelegate : Address := "0x101d8D16372dBf5f1614adaE95Ee5CCE61998Fc9"

def noteHash : ItemHash := "f5daeb3a93b406461feefa557a1a9595fb79cd3f2a0e5b08f3564a5e3973846b"

/-- The text of the note, and of an amend of it. -/
def noteText : String :=
  "\x7b\"address\":\"" ++ noteOwner ++ "\",\"type\":\"note\",\"content\":\x7b\x7d,\"time\":1700000000\x7d"

def amendText (postType : String) : String :=
  "\x7b\"address\":\"" ++ noteOwner ++ "\",\"type\":\"" ++ postType ++ "\",\"ref\":\"" ++ noteHash ++
    "\",\"content\":\x7b\x7d,\"time\":1700000100\x7d"

def noteFields : List (String × Json) :=
  [("address", .str noteOwner), ("type", .str "note"), ("content", .obj []), ("time", .num (.int 1700000000))]

def amendFields (postType : String) : List (String × Json) :=
  [("address", .str noteOwner), ("type", .str postType), ("ref", .str noteHash), ("content", .obj []),
    ("time", .num (.int 1700000100))]

def noteCtx : HandlerContext := .ofEnv (.ofTables
  [(noteText, .obj noteFields), (amendText "amend", .obj (amendFields "amend")),
    (amendText "Amend", .obj (amendFields "Amend"))] [] [])

/-- The owner's note, and an amend of it that the delegate sends in the channel `dev`. -/
def noteMessage : Message where
  messageType := .post
  chain := .eth
  sender := noteOwner
  signature := ""
  itemType := .inline
  itemHash := noteHash
  itemContent := some noteText
  channel := none
  time := 1700000000

def amendMessage (postType : String) : Message where
  messageType := .post
  chain := .eth
  sender := noteDelegate
  signature := ""
  itemType := .inline
  itemHash := "ecc08f6edcc9ebf41f8a08771e8bfed297a0eda99725ea598b272aafae53b010"
  itemContent := some (amendText postType)
  channel := some "dev"
  time := 1700000100

/-- What the messages say. -/
def noteContent : PostContent := ⟨noteOwner, "note", Value.emptyObject, none, 1700000000⟩

def amendContent (postType : String) : PostContent :=
  ⟨noteOwner, postType, Value.emptyObject, some noteHash, 1700000100⟩

/-- A node with the post of the note, the given messages, and an authorization of the delegate. -/
def noteNode (messages : Table MessageRow MessageRow.itemHash) (filter : String × Json) : Node :=
  { Node.empty with
    messages
    posts := Table.empty.insertNew (recordOf noteMessage noteContent none)
    aggregates := Table.empty.insertNew
      { address := noteOwner, key := "security",
        content := (Json.obj [("authorizations", .arr [.obj [("address", .str noteDelegate), filter]])]).toValue,
        time := 1700000000, dirty := false, lastRevisionHash := none } }

/-- The row of the note. -/
def noteRow : MessageRow :=
  { itemHash := noteHash, messageType := .post, chain := .eth, sender := noteOwner, signature := "",
    itemType := .inline, itemContent := some noteText, channel := none, time := 1700000000,
    status := "processed", receptionTime := none, owner := some noteOwner, contentType := some "note",
    contentRef := none, contentKey := none, contentItemHash := none, paymentType := none }

def channelFilter : String × Json := ("channels", .arr [.str "dev"])

def postTypeFilter : String × Json := ("post_types", .arr [.str "note"])

example : isAmend noteCtx.env "Amend" = true := by decide +kernel

theorem noteDelegate_ne : ¬ noteCtx.env.SameAddress noteDelegate noteOwner := by decide +kernel

theorem decode_amend {postType : String} (h : postType ∈ ["amend", "Amend"]) :
    noteCtx.env.parseJson (amendText postType) = .ok (.obj (amendFields postType)) ∧
      PostContent.decode (.obj (amendFields postType)) = .ok (amendContent postType) ∧
      isAmend noteCtx.env postType = true := by
  simp only [List.mem_cons, List.not_mem_nil, or_false] at h
  obtain rfl | rfl := h
  · exact ⟨by decide +kernel, by decide +kernel, by decide +kernel⟩
  · exact ⟨by decide +kernel, by decide +kernel, by decide +kernel⟩

theorem amend_delegated : DelegatedAmend (amendMessage "amend") noteCtx.env (amendContent "amend") :=
  ⟨rfl, ⟨_, _, rfl, (decode_amend (by simp)).1, (decode_amend (by simp)).2.1⟩, rfl, noteDelegate_ne⟩

variable {messages : Table MessageRow MessageRow.itemHash} {filter : String × Json}

theorem exec_validate_noteNode {postType : String} (h : postType ∈ ["amend", "Amend"]) :
    Exec (validate (amendMessage postType) noteCtx).run (noteNode messages filter) (.ok ())
      (noteNode messages filter) := by
  obtain ⟨hparse, hdecode, hamend⟩ := decode_amend h
  have hnote : isAmend noteCtx.env "note" = false := by decide +kernel
  refine exec_fromExcept_bind_ok.2 ⟨amendContent postType, parseContent_ok.2 ⟨_, rfl, ?_⟩, ?_⟩
  · rw [Env.fromStr, hparse]
    exact hdecode
  · have hempty : (amendContent postType).postType ≠ "" := by
      rintro rfl
      simp at h
    rw [if_neg hempty, if_pos (show isAmend noteCtx.env (amendContent postType).postType = true from hamend)]
    simp only [validateAmend, amendContent, PgDatabase.getPost, exec_db_query_bind_ok]
    have hfind : (noteNode messages filter).posts.find? noteHash = some (recordOf noteMessage noteContent none) :=
      Table.find?_eq_some.2 ⟨List.mem_singleton_self _, rfl⟩
    simp only [hfind, recordOf, noteContent, hnote]
    exact exec_pure_ok.2 ⟨rfl, rfl⟩

/-- The entry of the delegate decides what the aggregate of the owner authorizes. -/
theorem authorizes_noteNode {auth : SecurityAuthorization} {original : Message}
    (hdecode : decodeAuthorizations (Json.obj [("authorizations",
      .arr [.obj [("address", .str noteDelegate), filter]])]).toValue.json = .ok [auth]) :
    Authorizes noteCtx.env (noteNode messages filter) noteOwner noteDelegate original ↔
      auth.matches noteCtx.env noteDelegate original = true := by
  constructor
  · rintro ⟨row, hrow, -, authorizations, hauths, auth', hauth, hmatches⟩
    obtain rfl := List.mem_singleton.1 hrow
    obtain rfl := Except.ok.inj (hdecode.symm.trans hauths)
    obtain rfl := List.mem_singleton.1 hauth
    exact hmatches
  · intro hmatches
    exact ⟨_, List.mem_singleton_self _, rfl, [auth], hdecode, auth, List.mem_singleton_self _, hmatches⟩

theorem exec_permitted_noteNode {postType : String} (h : postType ∈ ["amend", "Amend"])
    (target : Option (Message × Address))
    (htarget : Exec (amendTarget noteCtx.env (amendMessage postType) (.obj (amendFields postType))).run
      (noteNode messages filter) (.ok target) (noteNode messages filter))
    (hallowed : TargetAuthorizes noteCtx.env (noteNode messages filter) target noteOwner noteDelegate
      (amendMessage postType)) :
    Exec (checkPermissions (amendMessage postType) noteCtx).run (noteNode messages filter) (.ok ())
      (noteNode messages filter) := by
  obtain ⟨hparse, hdecode, -⟩ := decode_amend h
  have haddress : (Json.obj (amendFields postType)).getStr? "address" = some noteOwner := rfl
  refine exec_permitted rfl hparse haddress hdecode rfl noteDelegate_ne htarget hallowed fun p hp _ => ?_
  obtain rfl := List.mem_singleton.1 hp
  rfl

example : noteCtx.env.contentStr? noteText "address" = some noteOwner := by decide +kernel

theorem decode_channelFilter : decodeAuthorizations (Json.obj [("authorizations",
    .arr [.obj [("address", .str noteDelegate), channelFilter]])]).toValue.json =
      .ok [⟨noteDelegate, none, ["dev"], [], [], []⟩] := by
  decide +kernel

theorem decode_postTypeFilter : decodeAuthorizations (Json.obj [("authorizations",
    .arr [.obj [("address", .str noteDelegate), postTypeFilter]])]).toValue.json =
      .ok [⟨noteDelegate, none, [], [], ["note"], []⟩] := by
  decide +kernel

/-- The entry lets the delegate send in the channel `dev` only. -/
theorem authorizes_channel {original : Message} :
    Authorizes noteCtx.env (noteNode messages channelFilter) noteOwner noteDelegate original ↔
      original.channel.getD "" = "dev" := by
  rw [authorizes_noteNode decode_channelFilter]
  simp [SecurityAuthorization.matches, extractContentFields, Env.SameAddress.refl]

def noteStored : Table MessageRow MessageRow.itemHash := Table.empty.insertNew noteRow

/-- An amend of an authorized delegate: the note is one of the posts the delegate may send, the amend,
being of another type, is not. -/
theorem note_authorized :
    ∃ targetRef, (amendContent "amend").ref_ = some targetRef ∧
      TargetAuthorizes noteCtx.env (noteNode noteStored postTypeFilter)
        (originalMessage noteCtx.env (noteNode noteStored postTypeFilter) targetRef) noteOwner noteDelegate
        (amendMessage "amend") := by
  have hamend := decode_amend (show "amend" ∈ ["amend", "Amend"] by simp)
  have hmatches : Authorizes noteCtx.env (noteNode noteStored postTypeFilter) noteOwner noteDelegate
      noteMessage := by
    refine (authorizes_noteNode decode_postTypeFilter).2 ?_
    have htype : noteCtx.env.contentStr? noteText "type" = some "note" := by decide +kernel
    simp [SecurityAuthorization.matches, extractContentFields, Env.SameAddress.refl, noteMessage, htype]
  have hpermitted : Exec (checkPermissions (amendMessage "amend") noteCtx).run (noteNode noteStored postTypeFilter)
      (.ok ()) (noteNode noteStored postTypeFilter) := by
    refine exec_permitted_noteNode (by simp) (some (noteMessage, noteOwner)) ?_ ⟨rfl, hmatches⟩
    refine exec_bind_ok.2 ⟨some noteMessage, _, ?_, exec_pure_ok.2 ⟨?_, rfl⟩⟩
    · rw [exec_mapErr_ok, PgDatabase.getMessage, exec_query_ok]
      exact ⟨rfl, rfl⟩
    · have haddress : noteCtx.env.contentStr? noteText "address" = some noteOwner := by decide +kernel
      simp [noteMessage, haddress]
  obtain ⟨targetRef, href, -, hallowed, -⟩ := amend_authorized amend_delegated hamend.2.2
    (exec_validate_noteNode (by simp)) hpermitted
  exact ⟨targetRef, href, hallowed⟩

/-- A delegate that may only send in the channel `dev` amends a note without a channel: under the type
`amend` while no message is stored for the note, and under the type `Amend` in any case. -/
theorem note_unauthorized :
    (Exec (validate (amendMessage "amend") noteCtx).run (noteNode .empty channelFilter) (.ok ())
        (noteNode .empty channelFilter) ∧
      Exec (checkPermissions (amendMessage "amend") noteCtx).run (noteNode .empty channelFilter) (.ok ())
        (noteNode .empty channelFilter) ∧
      ∀ original : Message, original.channel = (recordOf noteMessage noteContent none).channel →
        ¬ Authorizes noteCtx.env (noteNode .empty channelFilter) noteOwner noteDelegate original) ∧
    (isAmend noteCtx.env "Amend" = true ∧
      Exec (validate (amendMessage "Amend") noteCtx).run (noteNode noteStored channelFilter) (.ok ())
        (noteNode noteStored channelFilter) ∧
      Exec (checkPermissions (amendMessage "Amend") noteCtx).run (noteNode noteStored channelFilter) (.ok ())
        (noteNode noteStored channelFilter) ∧
      originalMessage noteCtx.env (noteNode noteStored channelFilter) noteHash = some (noteMessage, noteOwner) ∧
      ¬ Authorizes noteCtx.env (noteNode noteStored channelFilter) noteOwner noteDelegate noteMessage) := by
  refine ⟨⟨exec_validate_noteNode (by simp), ?_, fun original hchannel hauth => ?_⟩,
    (decode_amend (by simp)).2.2, exec_validate_noteNode (by simp), ?_, ?_, fun hauth => ?_⟩
  · refine exec_permitted_noteNode (by simp) none ?_ (authorizes_channel.2 rfl)
    refine exec_bind_ok.2 ⟨none, _, ?_, exec_pure_ok.2 ⟨rfl, rfl⟩⟩
    rw [exec_mapErr_ok, PgDatabase.getMessage, exec_query_ok]
    exact ⟨rfl, rfl⟩
  · rw [authorizes_channel, hchannel] at hauth
    exact absurd hauth (by decide)
  · exact exec_permitted_noteNode (by simp) none (exec_pure_ok.2 ⟨rfl, rfl⟩)
      (authorizes_channel.2 rfl)
  · have haddress : noteCtx.env.contentStr? noteText "address" = some noteOwner := by decide +kernel
    have hfind : (noteNode noteStored channelFilter).messages.find? noteHash = some noteRow :=
      Table.find?_eq_some.2 ⟨List.mem_singleton_self _, rfl⟩
    rw [originalMessage, if_neg (by decide), hfind]
    simp [noteRow, MessageRow.message, haddress, noteMessage]
  · rw [authorizes_channel] at hauth
    exact absurd hauth (by decide)

end Delegate

end PostHandler

end AlephCore
