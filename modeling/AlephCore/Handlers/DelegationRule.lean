import AlephCore.Handlers.FailClosed

/-!
# DelegationRule — what an entry of a security aggregate allows

The documented rule, over the content as the handler of the message decodes it: every filter that an entry sets
must hold.  The check reads the type and the key of the content a second time, with `Value::get`, and leaves a
filter out where it finds nothing.  So it follows the rule wherever the content is an object; of a content that
is written as an array, which a handler decodes too, it compares neither type nor key.
-/

namespace AlephCore

open ProgE Prog Serde

/-- The fields of an aggregate that is read from an object, as `Value::get` finds them. -/
theorem AggregateContent.key_of_decode {fs : List (String × Json)} {content : AggregateContent}
    (h : AggregateContent.decode (.obj fs) = .ok content) :
    (Json.obj fs).getStr? "key" = some content.key := by
  obtain ⟨s, hs, h⟩ := bind_ok.1 h
  obtain ⟨address, -, h⟩ := bind_ok.1 h
  obtain ⟨key, hkey, h⟩ := bind_ok.1 h
  obtain ⟨value, -, h⟩ := bind_ok.1 h
  obtain ⟨time, -, h⟩ := bind_ok.1 h
  obtain rfl := Except.ok.inj h
  rw [Json.getStr?, ← get?_of_asStruct hs (by simp) 1, Source.required_asString hkey]
  rfl

namespace Permissions

/-! ## What the check answers -/

/-- What a security aggregate says of the sender and the message: whether an entry matches. -/
def securityVerdict (env : Env) (row : Option AggregateRow) (sender : Address) (message : Message) :
    Except DbError Bool :=
  match row with
  | none => .ok false
  | some row => ((decodeAuthorizations row.content.json).mapError fun e =>
      s!"Failed to parse security aggregate content: {e}").map fun authorizations =>
        authorizations.any fun auth => auth.matches env sender message

/-- What the check comes to: the owner may always, for anybody else the aggregate of the owner decides. -/
def delegatedVerdict (env : Env) (n : Node) (sender owner : Address) (message : Message) : Except DbError Bool :=
  if env.SameAddress sender owner then .ok true
  else securityVerdict env (n.aggregates.find? (owner, "security")) sender message

section Verdict

variable {env : Env} {n n' : Node} {sender owner : Address} {message : Message} {b : Bool}

theorem run_checkDelegatedAuthorization :
    (checkDelegatedAuthorization env sender owner message).run.run n =
      (delegatedVerdict env n sender owner message, n) := by
  unfold checkDelegatedAuthorization delegatedVerdict securityVerdict
  split_ifs with hsame
  · rfl
  rw [run_bind_ok (a := (n.aggregates.find? (owner, "security")).map AggregateRow.content) (t := n)
    (by rw [run_mapErr]; rfl)]
  cases n.aggregates.find? (owner, "security") with
  | none => rfl
  | some row =>
    simp only [Option.map_some]
    cases decodeAuthorizations row.content.json <;> rfl

/-- An answer is the one of the rows, whatever statement may be refused. -/
theorem exec_checkDelegatedAuthorization_ok :
    Exec (checkDelegatedAuthorization env sender owner message).run n (.ok b) n' ↔
      n' = n ∧ delegatedVerdict env n sender owner message = .ok b := by
  unfold checkDelegatedAuthorization delegatedVerdict securityVerdict
  split_ifs with hsame
  · simp [eq_comm, and_comm]
  rw [exec_bind_ok_of (a := (n.aggregates.find? (owner, "security")).map AggregateRow.content) fun c t => by
    rw [exec_mapErr_ok, PgDatabase.getAggregate, exec_query_ok]]
  cases n.aggregates.find? (owner, "security") with
  | none => simp [eq_comm, and_comm]
  | some row =>
    simp only [Option.map_some]
    rw [exec_fromExcept_bind_ok]
    cases decodeAuthorizations row.content.json with
    | error e => simp [Except.mapError, Except.map]
    | ok authorizations => simp [Except.mapError, Except.map, eq_comm, and_comm]

end Verdict

/-! ## The rule -/

/-- The filters an entry sets on sender and envelope hold; a message without a channel is in the channel `""`. -/
structure PassesEnvelope (env : Env) (auth : SecurityAuthorization) (sender : Address) (message : Message) :
    Prop where
  address : env.SameAddress auth.address sender
  chain : ∀ c, auth.chain = some c → message.chain.toString = c
  channels : auth.channels ≠ [] → message.channel.getD "" ∈ auth.channels
  types : auth.messageTypes ≠ [] → message.messageType.toString ∈ auth.messageTypes

/-- The content, as the handler decodes it, has the property. -/
def ContentHas {α : Type} (env : Env) (d : Decode α) (P : α → Prop) (message : Message) : Prop :=
  ∃ s content, message.itemContent = some s ∧ env.fromStr d s = .ok content ∧ P content

/-- Every filter of the entry holds. -/
structure Passes (env : Env) (auth : SecurityAuthorization) (sender : Address) (message : Message) : Prop
    extends PassesEnvelope env auth sender message where
  postTypes : message.messageType = .post → auth.postTypes ≠ [] →
    ContentHas env PostContent.decode (fun c => c.postType ∈ auth.postTypes) message
  aggregateKeys : message.messageType = .aggregate → auth.aggregateKeys ≠ [] →
    ContentHas env AggregateContent.decode (fun c => c.key ∈ auth.aggregateKeys) message

/-- The documented rule: the owner may send, and whoever passes every filter of an entry. -/
def Documented (env : Env) (authorizations : List SecurityAuthorization) (sender owner : Address)
    (message : Message) : Prop :=
  env.SameAddress sender owner ∨ ∃ auth ∈ authorizations, Passes env auth sender message

/-- The content is written as an array. -/
def AsArray (env : Env) (message : Message) : Prop :=
  ∃ s xs, message.itemContent = some s ∧ env.parseJson s = .ok (.arr xs)

/-- The owner's security aggregate is well formed and has these entries. -/
def Lists (n : Node) (owner : Address) (authorizations : List SecurityAuthorization) : Prop :=
  ∃ row ∈ n.aggregates, (row.address, row.key) = (owner, "security") ∧
    decodeAuthorizations row.content.json = .ok authorizations

/-- The check can answer `b`. -/
def Answers (env : Env) (n : Node) (sender owner : Address) (message : Message) (b : Bool) : Prop :=
  ∃ n', Exec (checkDelegatedAuthorization env sender owner message).run n (.ok b) n'

/-! ## What an entry is compared with -/

section Compared

variable {env : Env} {auth : SecurityAuthorization} {sender : Address} {message : Message}

theorem matches_iff : auth.matches env sender message = true ↔ PassesEnvelope env auth sender message ∧
    (message.messageType = .post → auth.postTypes ≠ [] →
      ∀ t, (extractContentFields env message).1 = some t → t ∈ auth.postTypes) ∧
    (message.messageType = .aggregate → auth.aggregateKeys ≠ [] →
      ∀ k, (extractContentFields env message).2 = some k → k ∈ auth.aggregateKeys) := by
  have henvelope : PassesEnvelope env auth sender message ↔ env.SameAddress auth.address sender ∧
      (∀ c, auth.chain = some c → message.chain.toString = c) ∧
      (auth.channels ≠ [] → message.channel.getD "" ∈ auth.channels) ∧
      (auth.messageTypes ≠ [] → message.messageType.toString ∈ auth.messageTypes) :=
    ⟨fun h => ⟨h.address, h.chain, h.channels, h.types⟩, fun h => ⟨h.1, h.2.1, h.2.2.1, h.2.2.2⟩⟩
  rw [henvelope]
  simp only [SecurityAuthorization.matches, Bool.and_eq_true, Bool.or_eq_true, decide_eq_true_eq, Option.all_eq_true,
    beq_iff_eq, bne_iff_ne, List.isEmpty_iff, List.contains_iff_mem, ne_eq, or_iff_not_imp_left, not_not, and_assoc,
    and_imp, Classical.not_imp]

/-- Of a content written as an array neither type nor key is found. -/
theorem extractContentFields_array (h : AsArray env message) : extractContentFields env message = (none, none) := by
  obtain ⟨s, xs, hs, hparse⟩ := h
  have hfield : ∀ k, env.contentStr? s k = none := by
    intro k
    rw [Env.contentStr?, Env.fromStrValue?, hparse]
    rfl
  simp only [extractContentFields, hs, hfield]

/-- A content that is read as a struct is an object or an array. -/
theorem object_of_fromStr {α : Type} {known : List String} {d : Decode α} {s : String} {content : α}
    {k : Source → Except String α} (hd : ∀ x, d x = asStruct known x >>= k)
    (hs : message.itemContent = some s) (h : env.fromStr d s = .ok content) (harray : ¬ AsArray env message) :
    ∃ fs, env.parseJson s = .ok (.obj fs) ∧ d (.obj fs) = .ok content := by
  obtain ⟨x, hparse, hx⟩ := bind_ok.1 h
  have hstruct := hx
  rw [hd] at hstruct
  obtain ⟨source, hsource, -⟩ := bind_ok.1 hstruct
  cases x with
  | obj fs => exact ⟨fs, hparse, hx⟩
  | arr xs => exact absurd ⟨s, xs, hs, hparse⟩ harray
  | _ => cases hsource

/-- A post with an object as content is compared by its type. -/
theorem extractContentFields_post {s : String} {content : PostContent} (hs : message.itemContent = some s)
    (hdecode : env.fromStr PostContent.decode s = .ok content) (harray : ¬ AsArray env message) :
    (extractContentFields env message).1 = some content.postType := by
  obtain ⟨fs, hparse, hfs⟩ := object_of_fromStr (fun _ => rfl) hs hdecode harray
  simp only [extractContentFields, hs, Env.contentStr?, Env.fromStrValue?, hparse]
  exact (PostContent.fields_of_decode hfs).2.1

/-- An aggregate with an object as content is compared by its key. -/
theorem extractContentFields_aggregate {s : String} {content : AggregateContent} (hs : message.itemContent = some s)
    (hdecode : env.fromStr AggregateContent.decode s = .ok content) (harray : ¬ AsArray env message) :
    (extractContentFields env message).2 = some content.key := by
  obtain ⟨fs, hparse, hfs⟩ := object_of_fromStr (fun _ => rfl) hs hdecode harray
  simp only [extractContentFields, hs, Env.contentStr?, Env.fromStrValue?, hparse]
  exact AggregateContent.key_of_decode hfs

/-- Of a content written as an array the filters on type and key are left out. -/
theorem matches_array (harray : AsArray env message) :
    auth.matches env sender message = true ↔ PassesEnvelope env auth sender message := by
  rw [matches_iff, extractContentFields_array harray]
  simp

end Compared

/-! ## Valid messages -/

section Valid

variable {ctx : HandlerContext} {message : Message} {auth : SecurityAuthorization} {sender : Address} {n n' : Node}

/-- What the handler of a valid message has decoded. -/
theorem decoded_of_valid (h : Exec ((handlerOf message.messageType).validate message ctx).run n (.ok ()) n') :
    (message.messageType = .post →
      ∃ s content, message.itemContent = some s ∧ ctx.env.fromStr PostContent.decode s = .ok content) ∧
    (message.messageType = .aggregate →
      ∃ s content, message.itemContent = some s ∧ ctx.env.fromStr AggregateContent.decode s = .ok content) := by
  refine ⟨fun htype => ?_, fun htype => ?_⟩
  · rw [htype] at h
    obtain ⟨content, hparse, -⟩ := exec_fromExcept_bind_ok.1 h
    obtain ⟨s, hs, hdecode⟩ := parseContent_ok.1 hparse
    exact ⟨s, content, hs, hdecode⟩
  · rw [htype] at h
    obtain ⟨content, hparse, -⟩ := exec_fromExcept_bind_ok.1 h
    obtain ⟨s, hs, hdecode⟩ := parseContent_ok.1 hparse
    exact ⟨s, content, hs, hdecode⟩

/-- **An entry matches** a valid message whose content is no array exactly if every filter holds. -/
theorem matches_iff_passes (h : Exec ((handlerOf message.messageType).validate message ctx).run n (.ok ()) n')
    (harray : ¬ AsArray ctx.env message) :
    auth.matches ctx.env sender message = true ↔ Passes ctx.env auth sender message := by
  obtain ⟨hpost, haggregate⟩ := decoded_of_valid h
  rw [matches_iff]
  constructor
  · rintro ⟨henvelope, htypes, hkeys⟩
    refine ⟨henvelope, fun htype hset => ?_, fun htype hset => ?_⟩
    · obtain ⟨s, content, hs, hdecode⟩ := hpost htype
      exact ⟨s, content, hs, hdecode, htypes htype hset _ (extractContentFields_post hs hdecode harray)⟩
    · obtain ⟨s, content, hs, hdecode⟩ := haggregate htype
      exact ⟨s, content, hs, hdecode, hkeys htype hset _ (extractContentFields_aggregate hs hdecode harray)⟩
  · intro hpasses
    refine ⟨hpasses.toPassesEnvelope, fun htype hset t ht => ?_, fun htype hset k hk => ?_⟩
    · obtain ⟨s, content, hs, hdecode, hlisted⟩ := hpasses.postTypes htype hset
      obtain rfl := Option.some.inj ((extractContentFields_post hs hdecode harray).symm.trans ht)
      exact hlisted
    · obtain ⟨s, content, hs, hdecode, hlisted⟩ := hpasses.aggregateKeys htype hset
      obtain rfl := Option.some.inj ((extractContentFields_aggregate hs hdecode harray).symm.trans hk)
      exact hlisted

end Valid

/-! ## The check and the rule -/

section Rule

variable {ctx : HandlerContext} {env : Env} {n m m' : Node} {sender owner : Address} {message : Message}
  {authorizations : List SecurityAuthorization}

theorem delegatedVerdict_of_lists (hlists : Lists n owner authorizations) (hother : ¬ env.SameAddress sender owner) :
    delegatedVerdict env n sender owner message =
      .ok (authorizations.any fun auth => auth.matches env sender message) := by
  obtain ⟨row, hrow, hkey, hdecode⟩ := hlists
  have hfind : n.aggregates.find? (owner, "security") = some row := Table.find?_eq_some.2 ⟨hrow, hkey⟩
  rw [delegatedVerdict, if_neg hother, hfind]
  cases hd : decodeAuthorizations row.content.json with
  | error e =>
    rw [hd] at hdecode
    cases hdecode
  | ok as =>
    rw [hd] at hdecode
    obtain rfl := Except.ok.inj hdecode
    show Except.map _ (Except.mapError _ (decodeAuthorizations row.content.json)) = _
    rw [hd]
    rfl

/-- With a well-formed aggregate the check answers, and only this: whether an entry matches. -/
theorem answers_iff (hlists : Lists n owner authorizations) (b : Bool) :
    Answers env n sender owner message b ↔ (b = true ↔ env.SameAddress sender owner ∨
      ∃ auth ∈ authorizations, auth.matches env sender message = true) := by
  have hverdict : Answers env n sender owner message b ↔ delegatedVerdict env n sender owner message = .ok b := by
    simp only [Answers, exec_checkDelegatedAuthorization_ok, exists_eq_left]
  rw [hverdict]
  by_cases hsame : env.SameAddress sender owner
  · rw [delegatedVerdict, if_pos hsame]
    cases b <;> simp [hsame]
  · rw [delegatedVerdict_of_lists hlists hsame, or_iff_right hsame, ← List.any_eq_true]
    constructor
    · intro h
      obtain rfl := Except.ok.inj h
      exact .rfl
    · intro h
      exact congrArg Except.ok (Bool.eq_iff_iff.2 h.symm)

/-- **Delegated authorization** of a valid message under a well-formed security aggregate.  The answer follows
the documented rule unless the content is written as an array: then type and key are not compared, and the rule
holds only if nobody relies on that.  Either way only the set of the entries counts, and more of them never
revoke an authorization. -/
theorem delegation_documented_iff (hlists : Lists n owner authorizations)
    (hvalid : Exec ((handlerOf message.messageType).validate message ctx).run m (.ok ()) m') :
    ((∀ b, Answers ctx.env n sender owner message b ↔
        (b = true ↔ Documented ctx.env authorizations sender owner message)) ↔
      (AsArray ctx.env message → (∃ auth ∈ authorizations, PassesEnvelope ctx.env auth sender message) →
        Documented ctx.env authorizations sender owner message)) ∧
    ∀ n₂ authorizations₂, Lists n₂ owner authorizations₂ →
      (authorizations ⊆ authorizations₂ → Answers ctx.env n sender owner message true →
        Answers ctx.env n₂ sender owner message true) ∧
      ((∀ auth, auth ∈ authorizations ↔ auth ∈ authorizations₂) →
        ∀ b, Answers ctx.env n sender owner message b ↔ Answers ctx.env n₂ sender owner message b) := by
  constructor
  · have hanswers : (∀ b, Answers ctx.env n sender owner message b ↔
        (b = true ↔ Documented ctx.env authorizations sender owner message)) ↔
        ((ctx.env.SameAddress sender owner ∨ ∃ auth ∈ authorizations, auth.matches ctx.env sender message = true) ↔
          Documented ctx.env authorizations sender owner message) := by
      simp only [answers_iff hlists]
      constructor
      · intro h
        have htrue := h true
        simp only [true_iff] at htrue
        exact htrue
      · intro h b
        rw [h]
    rw [hanswers]
    by_cases harray : AsArray ctx.env message
    · -- nothing but the envelope is compared, which every entry that passes satisfies as well
      simp only [matches_array harray]
      constructor
      · intro h _ henvelope
        exact h.1 (.inr henvelope)
      · intro h
        refine ⟨?_, ?_⟩
        · rintro (hself | henvelope)
          · exact .inl hself
          · exact h harray henvelope
        · rintro (hself | ⟨auth, hauth, hpasses⟩)
          · exact .inl hself
          · exact .inr ⟨auth, hauth, hpasses.toPassesEnvelope⟩
    · simp only [matches_iff_passes hvalid harray]
      exact ⟨fun _ h => absurd h harray, fun _ => .rfl⟩
  · intro n₂ authorizations₂ hlists₂
    refine ⟨fun hsub hanswer => ?_, fun hsame b => ?_⟩
    · rw [answers_iff hlists₂]
      refine ⟨fun _ => ?_, fun _ => rfl⟩
      obtain hself | ⟨auth, hauth, hmatches⟩ := ((answers_iff hlists true).1 hanswer).1 rfl
      · exact .inl hself
      · exact .inr ⟨auth, hsub hauth, hmatches⟩
    · rw [answers_iff hlists, answers_iff hlists₂]
      simp only [hsame]

end Rule

/-! ### A delegate that may only send notes -/

section Note

open PostHandler

/-- The entry that lets the delegate send notes. -/
def noteEntry : SecurityAuthorization := ⟨noteDelegate, none, [], [], ["note"], []⟩

theorem lists_noteNode {messages : Table MessageRow MessageRow.itemHash} :
    Lists (noteNode messages postTypeFilter) noteOwner [noteEntry] :=
  ⟨_, List.mem_singleton_self _, rfl, decode_postTypeFilter⟩

/-- A post that is not empty in its type and no amend is valid. -/
theorem exec_validate_post {ctx : HandlerContext} {n : Node} {message : Message} {s : String} {content : PostContent}
    (hs : message.itemContent = some s) (hdecode : ctx.env.fromStr PostContent.decode s = .ok content)
    (hempty : content.postType ≠ "") (hamend : isAmend ctx.env content.postType = false) :
    Exec (PostHandler.validate message ctx).run n (.ok ()) n := by
  refine exec_fromExcept_bind_ok.2 ⟨content, parseContent_ok.2 ⟨s, hs, hdecode⟩, ?_⟩
  simp [hempty, hamend]

theorem note_decode : noteCtx.env.fromStr PostContent.decode noteText = .ok noteContent := by decide +kernel

/-- The delegate sends the owner's note: the filter on the type of the post holds. -/
theorem note_documented :
    Answers noteCtx.env (noteNode .empty postTypeFilter) noteDelegate noteOwner noteMessage true ↔
      Documented noteCtx.env [noteEntry] noteDelegate noteOwner noteMessage := by
  have hvalid : Exec ((handlerOf noteMessage.messageType).validate noteMessage noteCtx).run Node.empty (.ok ())
      Node.empty := by
    refine exec_validate_post rfl note_decode ?_ ?_
    · decide
    · decide +kernel
  have hobject : ¬ AsArray noteCtx.env noteMessage := by
    rintro ⟨s, xs, hs, hparse⟩
    obtain rfl := Option.some.inj hs
    have hfields : noteCtx.env.parseJson noteText = .ok (.obj noteFields) := by decide +kernel
    rw [hfields] at hparse
    cases hparse
  have hall : ∀ b, Answers noteCtx.env (noteNode .empty postTypeFilter) noteDelegate noteOwner noteMessage b ↔
      (b = true ↔ Documented noteCtx.env [noteEntry] noteDelegate noteOwner noteMessage) :=
    (delegation_documented_iff lists_noteNode hvalid).1.2 fun harray => absurd harray hobject
  rw [hall true]
  exact iff_true_left rfl

/-- A post of the type `secret`, its fields written one after another in an array. -/
def secretText : String := "[\"" ++ noteOwner ++ "\",\"secret\",\x7b\x7d,null,1700000000]"

def secretArray : List Json := [.str noteOwner, .str "secret", .obj [], .null, .num (.int 1700000000)]

def secretCtx : HandlerContext := .ofEnv (.ofTables [(secretText, .arr secretArray)] [] [])

def secretContent : PostContent := ⟨noteOwner, "secret", Value.emptyObject, none, 1700000000⟩

def secretMessage : Message where
  messageType := .post
  chain := .eth
  sender := noteDelegate
  signature := ""
  itemType := .inline
  itemHash := "0e2df8ff1a4ee1b1f0fd6f9e4b0c9f6ab4a8b4c8fa0d7d6ef6e5d9a5d3a3a0c1"
  itemContent := some secretText
  channel := none
  time := 1700000000

example : isAmend secretCtx.env secretContent.postType = false := by decide +kernel

theorem secret_decode : secretCtx.env.fromStr PostContent.decode secretText = .ok secretContent := by decide +kernel

/-- The delegate may send it, though it is no note. -/
theorem secret_undocumented : ¬ ∀ (ctx : HandlerContext) (n m m' : Node) (sender owner : Address) (message : Message)
    (authorizations : List SecurityAuthorization), Lists n owner authorizations →
      Exec ((handlerOf message.messageType).validate message ctx).run m (.ok ()) m' →
      ∀ b, Answers ctx.env n sender owner message b ↔
        (b = true ↔ Documented ctx.env authorizations sender owner message) := by
  intro h
  have hvalid : Exec ((handlerOf secretMessage.messageType).validate secretMessage secretCtx).run Node.empty (.ok ())
      Node.empty := by
    refine exec_validate_post rfl secret_decode ?_ ?_
    · decide
    · decide +kernel
  have harray : AsArray secretCtx.env secretMessage := ⟨secretText, secretArray, rfl, by decide +kernel⟩
  have hother : ¬ secretCtx.env.SameAddress noteDelegate noteOwner := noteDelegate_ne
  have hrule := h secretCtx (noteNode .empty postTypeFilter) _ _ noteDelegate noteOwner secretMessage [noteEntry]
    lists_noteNode hvalid true
  have hanswer : Answers secretCtx.env (noteNode .empty postTypeFilter) noteDelegate noteOwner secretMessage
      true := by
    refine (answers_iff lists_noteNode true).2 ⟨fun _ => .inr ⟨noteEntry, List.mem_singleton_self _, ?_⟩, ?_⟩
    swap
    · exact fun _ => rfl
    refine (matches_array harray).2 ⟨rfl, ?_, ?_, ?_⟩ <;> simp [noteEntry]
  obtain hself | ⟨auth, hauth, hpasses⟩ := (hrule.1 hanswer).1 rfl
  · exact hother hself
  · obtain rfl := List.mem_singleton.1 hauth
    obtain ⟨s, content, hs, hdecode, hlisted⟩ := hpasses.postTypes rfl (by decide)
    obtain rfl := Option.some.inj hs
    obtain rfl := Except.ok.inj (secret_decode.symm.trans hdecode)
    exact absurd hlisted (by decide)

end Note

end Permissions

end AlephCore
