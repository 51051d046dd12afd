import AlephCore.Handlers.DelegationRule

/-!
# AddressCase — authorization and the letter case of addresses

Sender and owner, sender and entry, and the two owners of an amend are compared ignoring case.  One use of an
address is not a comparison: the security aggregate is looked up under the owner's address exactly as the content
spells it (for an amend of a stored post, as the content of that post does).  So the letter case matters where the
rows under two spellings say different things, and nowhere else.
-/

namespace AlephCore.Permissions

open ProgE Prog Serde

/-! ## What differs in letter case only -/

/-- The contents agree but for the letter case of the address. -/
structure Recased (env : Env) (json json' : Json) : Prop where
  address : ∃ a a', json.getStr? "address" = some a ∧ json'.getStr? "address" = some a' ∧ env.SameAddress a a'
  others : ∀ k, k ≠ "address" → json'.get? k = json.get? k

/-- The messages agree but for the letter case of the sender and of the address in the content. -/
structure CaseVariant (env : Env) (message message' : Message) : Prop where
  messageType : message'.messageType = message.messageType
  chain : message'.chain = message.chain
  channel : message'.channel = message.channel
  sender : env.SameAddress message.sender message'.sender
  content : message'.itemContent = message.itemContent ∨ ∃ s s' json json', message.itemContent = some s ∧
    message'.itemContent = some s' ∧ env.parseJson s = .ok json ∧ env.parseJson s' = .ok json' ∧
    Recased env json json'

/-- The entries agree but for the letter case of their address. -/
structure EntryVariant (env : Env) (auth auth' : SecurityAuthorization) : Prop where
  address : env.SameAddress auth.address auth'.address
  filters : auth' = { auth with address := auth'.address }

/-- The rows agree but for the letter case of the address they are stored under and of those in their entries. -/
structure RowVariant (env : Env) (row row' : AggregateRow) : Prop where
  key : row'.key = row.key
  address : env.SameAddress row.address row'.address
  content : row'.content = row.content ∨ ∃ authorizations authorizations',
    decodeAuthorizations row.content.json = .ok authorizations ∧
    decodeAuthorizations row'.content.json = .ok authorizations' ∧
    List.Forall₂ (EntryVariant env) authorizations authorizations'

/-- The nodes hold the same messages, and aggregates that agree but for letter case. -/
structure NodeVariant (env : Env) (n n' : Node) : Prop where
  messages : n'.messages = n.messages
  aggregates : List.Forall₂ (RowVariant env) n.aggregates.rows n'.aggregates.rows

/-- What an entry is compared with is the same for both messages. -/
structure SameFilters (env : Env) (message message' : Message) : Prop where
  messageType : message'.messageType = message.messageType
  chain : message'.chain = message.chain
  channel : message'.channel = message.channel
  fields : extractContentFields env message' = extractContentFields env message

section Variants

variable {env : Env} {message message' : Message} {sender sender' : Address} {n n' : Node}

theorem Recased.getStr? {json json' : Json} (h : Recased env json json') {k : String} (hk : k ≠ "address") :
    json'.getStr? k = json.getStr? k := by
  rw [Json.getStr?, Json.getStr?, h.others k hk]

theorem SameFilters.refl (message : Message) : SameFilters env message message := ⟨rfl, rfl, rfl, rfl⟩

theorem CaseVariant.sameFilters (h : CaseVariant env message message') : SameFilters env message message' := by
  refine ⟨h.messageType, h.chain, h.channel, ?_⟩
  obtain hsame | ⟨s, s', json, json', hs, hs', hparse, hparse', hjson⟩ := h.content
  · rw [extractContentFields, extractContentFields, hsame]
  · simp only [extractContentFields, hs, hs', Env.contentStr?, Env.fromStrValue?, hparse, hparse']
    exact Prod.ext (hjson.getStr? (by decide)) (hjson.getStr? (by decide))

/-- **An entry** that differs in letter case only says the same of the sender under another spelling. -/
theorem EntryVariant.matches_eq {auth auth' : SecurityAuthorization} (h : EntryVariant env auth auth')
    (hsender : env.SameAddress sender sender') (hfilters : SameFilters env message message') :
    auth'.matches env sender' message' = auth.matches env sender message := by
  have haddress : env.SameAddress auth'.address sender' ↔ env.SameAddress auth.address sender :=
    ⟨fun h' => h.address.trans (h'.trans hsender.symm), fun h' => h.address.symm.trans (h'.trans hsender)⟩
  have hfields := hfilters.fields
  rw [h.filters]
  simp only [SecurityAuthorization.matches, hfields, hfilters.messageType, hfilters.chain, hfilters.channel, haddress]

theorem any_matches_eq {authorizations authorizations' : List SecurityAuthorization}
    (h : List.Forall₂ (EntryVariant env) authorizations authorizations') (hsender : env.SameAddress sender sender')
    (hfilters : SameFilters env message message') :
    (authorizations'.any fun auth => auth.matches env sender' message') =
      authorizations.any fun auth => auth.matches env sender message := by
  induction h with
  | nil => rfl
  | cons hentry _ ih => rw [List.any_cons, List.any_cons, hentry.matches_eq hsender hfilters, ih]

theorem entries_refl (authorizations : List SecurityAuthorization) :
    List.Forall₂ (EntryVariant env) authorizations authorizations := by
  induction authorizations with
  | nil => exact .nil
  | cons auth _ ih => exact .cons ⟨.refl _, rfl⟩ ih

/-- A row that differs in letter case only gives the same verdict. -/
theorem RowVariant.securityVerdict_eq {row row' : AggregateRow} (h : RowVariant env row row')
    (hsender : env.SameAddress sender sender') (hfilters : SameFilters env message message') :
    securityVerdict env (some row') sender' message' = securityVerdict env (some row) sender message := by
  simp only [securityVerdict]
  obtain hsame | ⟨authorizations, authorizations', hdecode, hdecode', hentries⟩ := h.content
  · rw [hsame]
    cases decodeAuthorizations row.content.json with
    | error e => rfl
    | ok authorizations => exact congrArg Except.ok (any_matches_eq (entries_refl _) hsender hfilters)
  · rw [hdecode, hdecode']
    exact congrArg Except.ok (any_matches_eq hentries hsender hfilters)

/-- The row found under a key that corresponds. -/
theorem find?_variant {rows rows' : List AggregateRow} {owner owner' : Address}
    (h : List.Forall₂ (RowVariant env) rows rows')
    (hkeys : List.Forall₂ (fun row row' => row.address = owner ↔ row'.address = owner') rows rows') :
    (rows.find? (fun r => decide ((r.address, r.key) = (owner, "security"))) = none ∧
      rows'.find? (fun r => decide ((r.address, r.key) = (owner', "security"))) = none) ∨
    ∃ row row', rows.find? (fun r => decide ((r.address, r.key) = (owner, "security"))) = some row ∧
      rows'.find? (fun r => decide ((r.address, r.key) = (owner', "security"))) = some row' ∧
      RowVariant env row row' := by
  induction h with
  | nil => exact .inl ⟨rfl, rfl⟩
  | @cons row row' rows rows' hrow _ ih =>
    obtain ⟨hkey, hkeys⟩ := List.forall₂_cons.1 hkeys
    have hiff : (row.address, row.key) = (owner, "security") ↔ (row'.address, row'.key) = (owner', "security") := by
      rw [Prod.mk.injEq, Prod.mk.injEq, hkey, hrow.key]
    by_cases hfound : (row.address, row.key) = (owner, "security")
    · right
      refine ⟨row, row', ?_, ?_, hrow⟩
      · rw [List.find?_cons_of_pos (by simpa using hfound)]
      · rw [List.find?_cons_of_pos (by simpa using hiff.1 hfound)]
    · rw [List.find?_cons_of_neg (by simpa using hfound), List.find?_cons_of_neg (by simpa using mt hiff.2 hfound)]
      exact ih hkeys

end Variants

/-! ## What is consulted -/

/-- The answer of the check when the database answers. -/
def answer (env : Env) (n : Node) (message : Message) : Except DbError Bool :=
  ((checkSenderAuthorization env message).run.run n).1

/-- The address whose security aggregate is looked up, and the message that its entries are compared with. -/
def consulted (env : Env) (n : Node) (message : Message) : Option (Address × Message) := do
  let json ← message.itemContent.bind env.fromStrValue?
  let address ← json.getStr? "address"
  if env.SameAddress message.sender address then none
  else match amendTargetOf env n message json with
    | none => some (address, message)
    | some (original, owner) => if env.SameAddress address owner then some (owner, original) else none

section Consulted

variable {env : Env} {message message' : Message} {n n' : Node} {s : String} {json json' : Json}
  {address address' : Address}

theorem run_amendTarget : (amendTarget env message json).run.run n = (.ok (amendTargetOf env n message json), n) := by
  unfold amendTarget amendTargetOf
  split_ifs with hamend
  · cases href : (json.get? "ref").or (json.get? "ref_") with
    | none => rfl
    | some v =>
      simp only [Option.bind_some, originalMessage]
      split_ifs with hempty
      · rfl
      · rw [run_bind_ok (a := (n.messages.find? (v.asStr?.getD "")).map MessageRow.message) (t := n)
          (by rw [run_mapErr]; rfl)]
        rfl
  · rfl

/-- What the check of a content with an address comes to. -/
theorem answer_of_address (hs : message.itemContent = some s) (hparse : env.parseJson s = .ok json)
    (haddress : json.getStr? "address" = some address) :
    answer env n message = if env.SameAddress message.sender address then .ok true
      else match amendTargetOf env n message json with
        | none => delegatedVerdict env n message.sender address message
        | some (original, owner) =>
          if env.SameAddress address owner then delegatedVerdict env n message.sender owner original
          else .ok false := by
  unfold answer checkSenderAuthorization
  simp only [hs, hparse, Except.mapError]
  rw [run_bind_ok (a := json) (t := n) (run_fromExcept _ _)]
  simp only [haddress]
  split_ifs with hsame
  · rfl
  rw [run_bind_ok run_amendTarget]
  cases amendTargetOf env n message json with
  | none => exact congrArg Prod.fst run_checkDelegatedAuthorization
  | some target =>
    obtain ⟨original, owner⟩ := target
    by_cases howner : env.SameAddress address owner
    · simp only [if_pos howner, if_neg (not_not.2 howner)]
      exact congrArg Prod.fst run_checkDelegatedAuthorization
    · simp only [if_neg howner, if_pos howner]
      rfl

theorem consulted_of_address (hs : message.itemContent = some s) (hparse : env.parseJson s = .ok json)
    (haddress : json.getStr? "address" = some address) :
    consulted env n message = if env.SameAddress message.sender address then none
      else match amendTargetOf env n message json with
        | none => some (address, message)
        | some (original, owner) => if env.SameAddress address owner then some (owner, original) else none := by
  simp only [consulted, hs, Option.bind_some, Env.fromStrValue?, hparse, Except.toOption, haddress, bind]

/-- Where a content has no address, no aggregate is looked up, and nothing but the content counts. -/
theorem unaddressed (hsame : message'.itemContent = message.itemContent)
    (hnone : ∀ s json address, message.itemContent = some s → env.parseJson s = .ok json →
      json.getStr? "address" ≠ some address) :
    consulted env n message = none ∧ consulted env n' message' = none ∧
      answer env n message = answer env n' message' := by
  cases hs : message.itemContent with
  | none =>
    rw [hs] at hsame
    refine ⟨?_, ?_, ?_⟩
    · simp [consulted, hs]
    · simp [consulted, hsame]
    · simp only [answer, checkSenderAuthorization, hs, hsame]
      rfl
  | some s =>
    rw [hs] at hsame
    cases hparse : env.parseJson s with
    | error e =>
      refine ⟨?_, ?_, ?_⟩
      · simp [consulted, hs, Env.fromStrValue?, hparse, Except.toOption]
      · simp [consulted, hsame, Env.fromStrValue?, hparse, Except.toOption]
      · simp only [answer, checkSenderAuthorization, hs, hsame, hparse]
        rfl
    | ok json =>
      have haddress : json.getStr? "address" = none :=
        Option.eq_none_iff_forall_ne_some.2 fun a => hnone s json a hs hparse
      refine ⟨?_, ?_, ?_⟩
      · simp [consulted, hs, Env.fromStrValue?, hparse, Except.toOption, haddress]
      · simp [consulted, hsame, Env.fromStrValue?, hparse, Except.toOption, haddress]
      · simp only [answer, checkSenderAuthorization, hs, hsame, hparse, Except.mapError]
        rw [run_bind_ok (a := json) (t := n) (run_fromExcept _ _),
          run_bind_ok (a := json) (t := n') (run_fromExcept _ _)]
        simp only [haddress]
        rfl

/-- The original an amend is checked against does not depend on letter case. -/
theorem amendTargetOf_variant (htype : message'.messageType = message.messageType) (hn : n'.messages = n.messages)
    (hjson : ∀ k, k ≠ "address" → json'.get? k = json.get? k) :
    amendTargetOf env n' message' json' = amendTargetOf env n message json := by
  have hpost : json'.getStr? "type" = json.getStr? "type" := by
    rw [Json.getStr?, Json.getStr?, hjson "type" (by decide)]
  simp only [amendTargetOf, originalMessage, htype, hn, hpost, hjson "ref" (by decide), hjson "ref_" (by decide)]

/-- **What messages that differ in letter case consult**: both nothing, with the same answer, or each the aggregate
of the owner in its own spelling, for messages that give the entries the same to compare. -/
theorem consulted_variant (hm : CaseVariant env message message') (hn : n'.messages = n.messages) :
    (consulted env n message = none ∧ consulted env n' message' = none ∧
      answer env n message = answer env n' message') ∨
    ∃ owner owner' checked checked', consulted env n message = some (owner, checked) ∧
      consulted env n' message' = some (owner', checked') ∧ SameFilters env checked checked' ∧
      answer env n message = securityVerdict env (n.aggregates.find? (owner, "security")) message.sender checked ∧
      answer env n' message' =
        securityVerdict env (n'.aggregates.find? (owner', "security")) message'.sender checked' := by
  have haddressed : (∃ s s' json json' address address',
      message.itemContent = some s ∧ message'.itemContent = some s' ∧ env.parseJson s = .ok json ∧ env.parseJson s' = .ok json' ∧ json.getStr? "address" = some address ∧
      json'.getStr? "address" = some address' ∧ env.SameAddress address address' ∧
      ∀ k, k ≠ "address" → json'.get? k = json.get? k) ∨
      message'.itemContent = message.itemContent ∧ ∀ s json address, message.itemContent = some s →
        env.parseJson s = .ok json → json.getStr? "address" ≠ some address := by
    obtain hsame | ⟨s, s', json, json', hs, hs', hparse, hparse', hjson⟩ := hm.content
    · by_cases hnone : ∀ s json address, message.itemContent = some s → env.parseJson s = .ok json →
          json.getStr? "address" ≠ some address
      · exact .inr ⟨hsame, hnone⟩
      · push Not at hnone
        obtain ⟨s, json, address, hs, hparse, haddress⟩ := hnone
        exact .inl ⟨s, s, json, json, address, address, hs, hsame.trans hs, hparse, hparse, haddress, haddress,
          .refl _, fun _ _ => rfl⟩
    · obtain ⟨a, a', ha, ha', hsame⟩ := hjson.address
      exact .inl ⟨s, s', json, json', a, a', hs, hs', hparse, hparse', ha, ha', hsame, hjson.others⟩
  obtain ⟨s, s', json, json', address, address', hs, hs', hparse, hparse', haddress, haddress', hsame, hothers⟩ |
    ⟨hsame, hnone⟩ := haddressed
  · rw [consulted_of_address hs hparse haddress, consulted_of_address hs' hparse' haddress',
      answer_of_address hs hparse haddress, answer_of_address hs' hparse' haddress',
      amendTargetOf_variant hm.messageType hn hothers]
    have hself : env.SameAddress message'.sender address' ↔ env.SameAddress message.sender address :=
      ⟨fun h => hm.sender.trans (h.trans hsame.symm), fun h => hm.sender.symm.trans (h.trans hsame)⟩
    by_cases howner : env.SameAddress message.sender address
    · left
      rw [if_pos howner, if_pos howner, if_pos (hself.2 howner), if_pos (hself.2 howner)]
      exact ⟨rfl, rfl, rfl⟩
    · rw [if_neg howner, if_neg howner, if_neg (mt hself.1 howner), if_neg (mt hself.1 howner)]
      cases amendTargetOf env n message json with
      | none =>
        right
        refine ⟨address, address', message, message', rfl, rfl, hm.sameFilters, ?_, ?_⟩
        · exact if_neg howner
        · exact if_neg (mt hself.1 howner)
      | some target =>
        -- the original and its address are the same for both
        obtain ⟨original, owner⟩ := target
        have hkept : env.SameAddress address' owner ↔ env.SameAddress address owner :=
          ⟨fun h => hsame.trans h, fun h => hsame.symm.trans h⟩
        by_cases hkeeps : env.SameAddress address owner
        · right
          simp only [if_pos hkeeps, if_pos (hkept.2 hkeeps)]
          refine ⟨owner, owner, original, original, rfl, rfl, .refl _, ?_, ?_⟩
          · exact if_neg fun h => howner (h.trans hkeeps.symm)
          · exact if_neg fun h => howner (hself.1 (h.trans (hkept.2 hkeeps).symm))
        · left
          simp [hkeeps, mt hkept.1 hkeeps]
  · exact .inl (unaddressed hsame hnone)

/-- **The answer and the letter case of addresses.**  Two messages and two nodes that differ in nothing else get the
same answer exactly if no aggregate is consulted, or the rows under the two spellings of the owner's address say the
same.  They do where the spelling under which the aggregates are stored and looked up is the same: no other use of an
address depends on its letter case. -/
theorem answer_eq_iff (hm : CaseVariant env message message') (hn : NodeVariant env n n') :
    (answer env n message = answer env n' message' ↔
      ∀ owner checked owner' checked', consulted env n message = some (owner, checked) →
        consulted env n' message' = some (owner', checked') →
        securityVerdict env (n.aggregates.find? (owner, "security")) message.sender checked =
          securityVerdict env (n'.aggregates.find? (owner', "security")) message'.sender checked') ∧
    ((∀ owner checked owner' checked', consulted env n message = some (owner, checked) →
        consulted env n' message' = some (owner', checked') → owner' = owner) →
      List.Forall₂ (fun row row' => row'.address = row.address) n.aggregates.rows n'.aggregates.rows →
      answer env n message = answer env n' message') := by
  obtain ⟨hnone, -, hsame⟩ | ⟨owner, owner', checked, checked', howner, howner', hfilters, hanswer, hanswer'⟩ :=
    consulted_variant hm hn.messages
  · refine ⟨⟨fun _ owner checked _ _ h _ => ?_, fun _ => hsame⟩, fun _ _ => hsame⟩
    rw [hnone] at h
    cases h
  · constructor
    · rw [hanswer, hanswer']
      constructor
      · intro h o c o' c' ho ho'
        obtain ⟨rfl, rfl⟩ := Prod.mk.inj (Option.some.inj (howner.symm.trans ho))
        obtain ⟨rfl, rfl⟩ := Prod.mk.inj (Option.some.inj (howner'.symm.trans ho'))
        exact h
      · intro h
        exact h owner checked owner' checked' howner howner'
    · intro hspelled hrows
      obtain rfl := hspelled owner checked owner' checked' howner howner'
      have hkeys : List.Forall₂ (fun row row' => row.address = owner' ↔ row'.address = owner')
          n.aggregates.rows n'.aggregates.rows := hrows.imp fun row row' h => by rw [h]
      rw [hanswer, hanswer']
      unfold Table.find?
      obtain ⟨hfind, hfind'⟩ | ⟨row, row', hfind, hfind', hrow⟩ := find?_variant hn.aggregates hkeys
      · rw [hfind, hfind']
        rfl
      · rw [hfind, hfind']
        exact (hrow.securityVerdict_eq hm.sender hfilters).symm

end Consulted

/-! ### An owner and a delegate in two spellings -/

section Spellings

/-- The addresses, each in two spellings. -/
def spelledOwner : Address := "0xOwner"

def respelledOwner : Address := "0xowner"

def spelledDelegate : Address := "0xDELEGATE"

def respelledDelegate : Address := "0xdelegate"

def greetingText (owner : Address) : String :=
  "\x7b\"address\":\"" ++ owner ++ "\",\"type\":\"note\",\"content\":\x7b\x7d,\"time\":1700000000\x7d"

def greetingFields (owner : Address) : List (String × Json) :=
  [("address", .str owner), ("type", .str "note"), ("content", .obj []), ("time", .num (.int 1700000000))]

def spellingCtx : HandlerContext := .ofEnv (.ofTables
  [(greetingText spelledOwner, .obj (greetingFields spelledOwner)),
    (greetingText respelledOwner, .obj (greetingFields respelledOwner))] [] [])

/-- A note sent for the owner. -/
def greeting (owner sender : Address) : Message where
  messageType := .post
  chain := .eth
  sender
  signature := ""
  itemType := .inline
  itemHash := "b1946ac92492d2347c6235b4d2611184f6cbfe0ed2a0b6a0bdf7ab9dbd2b37f3"
  itemContent := some (greetingText owner)
  channel := none
  time := 1700000000

/-- The security aggregate of the owner, with an entry for the delegate. -/
def delegateRow (delegate : Address) : AggregateRow where
  address := spelledOwner
  key := "security"
  content := (Json.obj [("authorizations", .arr [.obj [("address", .str delegate)]])]).toValue
  time := 1700000000
  dirty := false
  lastRevisionHash := none

def delegateNode (delegate : Address) : Node :=
  { Node.empty with aggregates := Table.empty.insertNew (delegateRow delegate) }

theorem decode_delegateRow {delegate : Address} (h : delegate ∈ [spelledDelegate, respelledDelegate]) :
    decodeAuthorizations (delegateRow delegate).content.json = .ok [⟨delegate, none, [], [], [], []⟩] := by
  simp only [List.mem_cons, List.not_mem_nil, or_false] at h
  obtain rfl | rfl := h
  · decide +kernel
  · decide +kernel

example : spelledDelegate ≠ respelledDelegate := by decide +kernel

theorem spelled_delegate : spellingCtx.env.SameAddress spelledDelegate respelledDelegate := by
  have hlower : spelledDelegate.toLower.toList = respelledDelegate.toLower.toList := by decide +kernel
  exact String.toList_injective hlower

theorem spelled_owner : spellingCtx.env.SameAddress spelledOwner respelledOwner := by
  have hlower : spelledOwner.toLower.toList = respelledOwner.toLower.toList := by decide +kernel
  exact String.toList_injective hlower

theorem parse_greeting {owner : Address} (h : owner ∈ [spelledOwner, respelledOwner]) :
    spellingCtx.env.parseJson (greetingText owner) = .ok (.obj (greetingFields owner)) := by
  simp only [List.mem_cons, List.not_mem_nil, or_false] at h
  obtain rfl | rfl := h
  · decide +kernel
  · decide +kernel

/-- Only the address of the contents differs. -/
theorem recased_greeting {owner owner' : Address} (h : spellingCtx.env.SameAddress owner owner') :
    Recased spellingCtx.env (.obj (greetingFields owner)) (.obj (greetingFields owner')) := by
  refine ⟨⟨owner, owner', rfl, rfl, h⟩, fun k hk => ?_⟩
  simp only [Json.get?, greetingFields, List.reverse_cons, List.reverse_nil, List.nil_append, List.cons_append,
    lookup, if_neg hk.symm]

theorem nodeVariant_delegate {delegate delegate' : Address} (h : delegate ∈ [spelledDelegate, respelledDelegate])
    (h' : delegate' ∈ [spelledDelegate, respelledDelegate]) (hsame : spellingCtx.env.SameAddress delegate delegate') :
    NodeVariant spellingCtx.env (delegateNode delegate) (delegateNode delegate') := by
  refine ⟨rfl, .cons ⟨rfl, .refl _, .inr ⟨_, _, decode_delegateRow h, decode_delegateRow h', ?_⟩⟩ .nil⟩
  exact .cons ⟨hsame, rfl⟩ .nil

/-- The security aggregate under the owner's exact spelling decides. -/
theorem answer_greeting {owner sender : Address} {n : Node} (h : owner ∈ [spelledOwner, respelledOwner])
    (hother : ¬ spellingCtx.env.SameAddress sender owner) :
    consulted spellingCtx.env n (greeting owner sender) = some (owner, greeting owner sender) ∧
      answer spellingCtx.env n (greeting owner sender) =
        securityVerdict spellingCtx.env (n.aggregates.find? (owner, "security")) sender (greeting owner sender) := by
  have haddress : (Json.obj (greetingFields owner)).getStr? "address" = some owner := rfl
  have hother' : ¬ spellingCtx.env.SameAddress (greeting owner sender).sender owner := hother
  have htarget : amendTargetOf spellingCtx.env n (greeting owner sender) (.obj (greetingFields owner)) = none := by
    have htype : (Json.obj (greetingFields owner)).getStr? "type" = some "note" := rfl
    rw [amendTargetOf, htype, if_neg (by simp)]
  rw [consulted_of_address rfl (parse_greeting h) haddress, answer_of_address rfl (parse_greeting h) haddress,
    if_neg hother', if_neg hother', htarget]
  exact ⟨rfl, if_neg hother⟩

theorem caseVariant_greeting {owner owner' sender sender' : Address} (h : owner ∈ [spelledOwner, respelledOwner])
    (h' : owner' ∈ [spelledOwner, respelledOwner]) (hsame : spellingCtx.env.SameAddress owner owner')
    (hsender : spellingCtx.env.SameAddress sender sender') :
    CaseVariant spellingCtx.env (greeting owner sender) (greeting owner' sender') :=
  ⟨rfl, rfl, rfl, hsender, .inr ⟨_, _, _, _, rfl, rfl, parse_greeting h, parse_greeting h', recased_greeting hsame⟩⟩

theorem delegate_ne_owner {owner : Address} (h : owner ∈ [spelledOwner, respelledOwner]) :
    ¬ spellingCtx.env.SameAddress spelledDelegate owner := by
  simp only [List.mem_cons, List.not_mem_nil, or_false] at h
  have hother : ¬ spellingCtx.env.SameAddress spelledDelegate spelledOwner := by
    intro hsame
    have hlower : spelledDelegate.toLower.toList ≠ spelledOwner.toLower.toList := by decide +kernel
    exact hlower (congrArg String.toList hsame)
  obtain rfl | rfl := h
  · exact hother
  · exact fun hsame => hother (hsame.trans spelled_owner.symm)

/-- The owner, spelled otherwise, is not found to have delegated anything. -/
theorem owner_respelled : ¬ ∀ (env : Env) (n n' : Node) (message message' : Message),
    CaseVariant env message message' → NodeVariant env n n' → answer env n message = answer env n' message' := by
  intro h
  have hm : CaseVariant spellingCtx.env (greeting spelledOwner spelledDelegate)
      (greeting respelledOwner spelledDelegate) :=
    caseVariant_greeting (by simp) (by simp) spelled_owner (.refl _)
  have hsame := h _ _ _ _ _ hm (nodeVariant_delegate (by simp) (by simp) (.refl spelledDelegate))
  have hfind : (delegateNode spelledDelegate).aggregates.find? (spelledOwner, "security") =
      some (delegateRow spelledDelegate) :=
    Table.find?_eq_some.2 ⟨List.mem_singleton_self _, rfl⟩
  have hmissing : (delegateNode spelledDelegate).aggregates.find? (respelledOwner, "security") = none := by
    refine Table.find?_eq_none.2 fun row hrow hkey => ?_
    obtain rfl := List.mem_singleton.1 hrow
    have haddress : spelledOwner = respelledOwner := (Prod.mk.inj hkey).1
    exact absurd haddress (by decide)
  rw [(answer_greeting (by simp) (delegate_ne_owner (by simp))).2,
    (answer_greeting (by simp) (delegate_ne_owner (by simp))).2, hfind, hmissing] at hsame
  have hdecode := decode_delegateRow (show spelledDelegate ∈ [spelledDelegate, respelledDelegate] by simp)
  simp only [securityVerdict, hdecode, Except.mapError, Except.map, List.any_cons, List.any_nil, Bool.or_false, Except.ok.injEq] at hsame
  have hmatches : SecurityAuthorization.matches spellingCtx.env ⟨spelledDelegate, none, [], [], [], []⟩
      spelledDelegate (greeting spelledOwner spelledDelegate) = true := by
    simp [SecurityAuthorization.matches, Env.SameAddress.refl]
  rw [hmatches] at hsame
  cases hsame

/-- The delegate may be spelled as one likes, in the entry and as the sender. -/
theorem delegate_respelled :
    answer spellingCtx.env (delegateNode spelledDelegate) (greeting spelledOwner spelledDelegate) =
      answer spellingCtx.env (delegateNode respelledDelegate) (greeting spelledOwner respelledDelegate) := by
  have hm : CaseVariant spellingCtx.env (greeting spelledOwner spelledDelegate)
      (greeting spelledOwner respelledDelegate) :=
    caseVariant_greeting (by simp) (by simp) (.refl _) spelled_delegate
  have hn : NodeVariant spellingCtx.env (delegateNode spelledDelegate) (delegateNode respelledDelegate) :=
    nodeVariant_delegate (by simp) (by simp) spelled_delegate
  have hother : ¬ spellingCtx.env.SameAddress respelledDelegate spelledOwner := fun hself =>
    delegate_ne_owner (by simp) (spelled_delegate.trans hself)
  refine (answer_eq_iff hm hn).2 ?_ (.cons rfl .nil)
  intro owner checked owner' checked' h h'
  rw [(answer_greeting (by simp) (delegate_ne_owner (by simp))).1] at h
  rw [(answer_greeting (by simp) hother).1] at h'
  rw [← (Prod.mk.inj (Option.some.inj h)).1, ← (Prod.mk.inj (Option.some.inj h')).1]

end Spellings

end AlephCore.Permissions
