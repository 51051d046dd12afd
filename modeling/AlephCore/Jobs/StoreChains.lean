import AlephCore.Jobs.VmFiles

/-!
# StoreChains — revisions of revisions

A STORE message may refer to another one, but not to one with a reference of its own.  That is checked for the
message that refers, when it comes: what others refer to already may still come, with a reference.
-/

namespace AlephCore.MessageProcessor

open Prog StoreHandler ForgetHandler

variable {env : Env} {message : Message} {n n' : Node} {hash : ItemHash} {ref_ : String}

/-- A STORE message with the reference is stored under the hash. -/
def Refers (env : Env) (n : Node) (hash : ItemHash) (ref_ : String) : Prop :=
  ∃ r ∈ n.messages, r.itemHash = hash ∧ r.messageType = .store ∧
    ∃ s content, r.itemContent = some s ∧ env.fromStr StoreContent.decode s = .ok content ∧ content.ref_ = some ref_

/-- No STORE message refers to another one that has a reference. -/
def NoChains (env : Env) (n : Node) : Prop :=
  ∀ a b, a ≠ b → isHex64 b = true → Refers env n a b → ∀ ref_, ¬ Refers env n b ref_

/-- Where the STORE message is new and has a reference, nothing refers to it yet. -/
def StartsNoChain (env : Env) (message : Message) (n : Node) : Prop :=
  message.messageType = .store → isHex64 message.itemHash = true → ∀ content,
    parseContent env StoreContent.decode (fun e => e) message = .ok content → content.ref_.isSome →
      (∀ r ∈ n.messages, r.itemHash ≠ message.itemHash) → ∀ a, ¬ Refers env n a message.itemHash

/-! ## One message -/

theorem refers_stored {receptionTime : Timestamp} :
    Refers env (stored env message receptionTime n) hash ref_ ↔
      Refers env n hash ref_ ∨ (message.itemHash = hash ∧ (message.messageType = .store ∧
        ∃ s content, message.itemContent = some s ∧ env.fromStr StoreContent.decode s = .ok content ∧
          content.ref_ = some ref_) ∧ ∀ r ∈ n.messages, r.itemHash ≠ hash) :=
  exists_row_stored fun _ _ => Iff.rfl

/-- Fewer messages, fewer references. -/
theorem Refers.mono (hmessages : ∀ r ∈ n'.messages, r ∈ n.messages) (h : Refers env n' hash ref_) :
    Refers env n hash ref_ := by
  obtain ⟨r, hr, hrefers⟩ := h
  exact ⟨r, hmessages r hr, hrefers⟩

/-- Every message but a STORE message leaves the references alone, or takes some away. -/
theorem Accepted.refers_of_ne (h : Accepted env message n n') (htype : message.messageType ≠ .store)
    (hrefers : Refers env n' hash ref_) : Refers env n hash ref_ := by
  obtain ⟨ctx, rfl, receptionTime, n₁, heffect, rfl⟩ := h.effect
  have hold : Refers ctx.env n₁ hash ref_ :=
    (refers_stored.1 hrefers).resolve_right fun hnew => htype hnew.2.1.1
  refine hold.mono fun r hr => ?_
  cases heffect with
  | aggregate content =>
    obtain ⟨as, has⟩ := processed_eq (AggregateHandler.elementOf message content) n
    rw [has, AggregateHandler.storeElement] at hr
    split_ifs at hr
    · exact hr
    · exact hr
  | post content => exact hr
  | amend content originalHash target => exact hr
  | store content hstore => exact absurd hstore htype
  | program content => exact hr
  | «instance» content => exact hr
  | forget content =>
    exact ((hashesForgotten_gone message content ctx content.hashes n).messages r).1 hr |>.1

/-- **One message** leaves no chain exactly if it starts none. -/
theorem Accepted.noChains (h : Accepted env message n n') (hchains : NoChains env n) :
    NoChains env n' ↔ StartsNoChain env message n := by
  by_cases htype : message.messageType = .store
  · obtain ⟨ctx, rfl, hvalidate, -, receptionTime, n₁, hprocess, rfl⟩ := h.stages
    rw [htype] at hvalidate hprocess
    obtain ⟨content, hparse, -, rfl⟩ := exec_process_ok.1 hprocess
    obtain ⟨content', hparse', -, -, htarget, -⟩ := exec_validate_ok.1 hvalidate
    obtain rfl := Except.ok.inj ((parseContent_text hparse').symm.trans hparse)
    obtain ⟨s, hs, hdecode⟩ := parseContent_ok.1 hparse
    -- The reference of the new message is that of the content.
    have hrefers : ∀ hash ref_, Refers ctx.env
        (stored ctx.env message receptionTime (recorded message content' ctx n)) hash ref_ ↔
          Refers ctx.env n hash ref_ ∨
            (message.itemHash = hash ∧ content'.ref_ = some ref_ ∧ ∀ r ∈ n.messages, r.itemHash ≠ hash) := by
      intro hash ref_
      refine refers_stored.trans (or_congr_right (and_congr_right fun _ => and_congr_left fun _ => ⟨?_, fun href => ?_⟩))
      · rintro ⟨-, s', content, hs', hdecode', href⟩
        obtain rfl := Option.some.inj (hs.symm.trans hs')
        obtain rfl := Except.ok.inj (hdecode.symm.trans hdecode')
        exact href
      · exact ⟨htype, s, content', hs, hdecode, href⟩
    constructor
    · intro hnone _ hhex content hparse' href hnew a ha
      obtain rfl := Except.ok.inj (hparse.symm.trans hparse')
      obtain ⟨ref_, href⟩ := Option.isSome_iff_exists.1 href
      have hne : a ≠ message.itemHash := by
        obtain ⟨r, hr, rfl, -⟩ := ha
        exact hnew r hr
      exact hnone a message.itemHash hne hhex ((hrefers _ _).2 (.inl ha)) ref_ ((hrefers _ _).2 (.inr ⟨rfl, href, hnew⟩))
    · intro hstarts a b hne hhex hab ref_ hb
      rcases (hrefers _ _).1 hab with hab | ⟨rfl, href, hnew⟩
      · rcases (hrefers _ _).1 hb with hb | ⟨rfl, href, hnew⟩
        · exact hchains a b hne hhex hab ref_ hb
        · exact hstarts htype hhex content' hparse (Option.isSome_iff_exists.2 ⟨ref_, href⟩) hnew a hab
      · rcases (hrefers _ _).1 hb with ⟨r, hr, hhash, -, s', content, hs', hdecode', hown⟩ | ⟨he, -, -⟩
        · -- The target is stored, and was found to have no reference.
          have hnone := ((htarget b href).2 hhex r hr hhash).2 s' content hs' hdecode'
          rw [hnone] at hown
          cases hown
        · exact hne he
  · refine iff_of_true (fun a b hne hhex hab ref_ hb => ?_) fun hstore => absurd hstore htype
    exact hchains a b hne hhex (h.refers_of_ne htype hab) ref_ (h.refers_of_ne htype hb)

/-! ## Runs -/

/-- A message is accepted that starts no chain. -/
def ChainFreeStep (env : Env) (n n' : Node) : Prop :=
  ∃ message, Accepted env message n n' ∧ StartsNoChain env message n

/-- **In a run whose messages start no chain there is none**; the next message leaves it so exactly if it meets the
condition as well. -/
theorem noChains_of_run {n₀ : Node} (hchains : NoChains env n₀)
    (hrun : Relation.ReflTransGen (ChainFreeStep env) n₀ n) :
    NoChains env n ∧ ∀ message n', Accepted env message n n' → (NoChains env n' ↔ StartsNoChain env message n) := by
  have hinv : NoChains env n := by
    induction hrun with
    | refl => exact hchains
    | tail _ hstep ih =>
      obtain ⟨message, haccepted, hstarts⟩ := hstep
      exact (haccepted.noChains ih).2 hstarts
  exact ⟨hinv, fun message n' haccepted => haccepted.noChains hinv⟩

theorem noChains_empty : NoChains env .empty := by
  rintro a b - - ⟨r, hr, -⟩
  exact absurd hr List.not_mem_nil

/-! ### A revision before what it revises -/

section Late

/-- The text of a STORE message with a reference. -/
def revisionOfText (ref_ time : String) : String :=
  "\x7b\"address\":\"" ++ fileOwner ++ "\",\"item_type\":\"ipfs\",\"item_hash\":\"" ++ file ++
    "\",\"ref\":\"" ++ ref_ ++ "\",\"time\":" ++ time ++ "\x7d"

def revisionOfJson (ref_ : String) (time : Int) : Json :=
  .obj [("address", .str fileOwner), ("item_type", .str "ipfs"), ("item_hash", .str file), ("ref", .str ref_),
    ("time", .num (.int time))]

def revisionOfContent (ref_ : String) (time : Timestamp) : StoreContent :=
  ⟨fileOwner, .ipfs, file, none, none, some ref_, none, time⟩

def lateHash : ItemHash := "5739a97aac9440df21c1606c0754489730e7b9b227fa65e8922e8b35fe6447e5"

/-- A revision of the first file, one of a file that comes late, and the late one, which has a name for reference. -/
def reviseFirst : Message := ownerMessage .store
  "541ff5977b01e82f51b4e2c1e97c8fa249873cb68dce526ead9f7dad58e0cbcd" (revisionOfText firstHash "1700000030")

def reviseLate : Message := ownerMessage .store
  "21508da4096ccab0005fcc15abaac7d48aeb7b310ebfdc0c99adfaa9c12c553f" (revisionOfText lateHash "1700000030")

def lateStore : Message := ownerMessage .store lateHash (revisionOfText "releases" "1700000040")

def chainCtx : ProcessorContext :=
  { vmCtx with
    env := .ofTables [(storeText "1700000000", storeJson 1700000000),
        (revisionOfText firstHash "1700000030", revisionOfJson firstHash 1700000030),
        (revisionOfText lateHash "1700000030", revisionOfJson lateHash 1700000030),
        (revisionOfText "releases" "1700000040", revisionOfJson "releases" 1700000040)] [] [] }

def revisionStored (message : Message) (content : StoreContent) (n : Node) : Node :=
  stored chainCtx.env message 1700000200 (recorded message content (createHandlerContext chainCtx true) n)

theorem accepted_revision {text : String} {hash : ItemHash} {time : Timestamp}
    (hdecode : chainCtx.env.fromStr StoreContent.decode text = .ok (revisionOfContent ref_ time)) (hnamed : ref_ ≠ "")
    (htarget : isHex64 ref_ = true → TargetAllowed chainCtx.env ref_ n)
    (hpins : ∀ p ∈ n.filePins.rows, p.pinType = .message) :
    Accepted chainCtx.env (ownerMessage .store hash text) n
      (revisionStored (ownerMessage .store hash text) (revisionOfContent ref_ time) n) := by
  refine accepted_iff.2 ⟨chainCtx, rfl, acceptedBy_of_trusted _ rfl rfl (exec_processMessage_trusted rfl rfl ?_
    (parseContent_ok.2 ⟨text, rfl, hdecode⟩) (Nat.zero_le _) ?_)⟩
  · refine exec_validate_ok.2 ⟨revisionOfContent ref_ time, parseContent_ok.2 ⟨text, rfl, hdecode⟩, ?_, ?_, ?_, rfl⟩
    · show file ≠ ""
      decide +kernel
    · show validateItemTypeHash .ipfs file = .ok ()
      decide +kernel
    · intro ref' he
      obtain rfl := Option.some.inj he
      exact ⟨hnamed, htarget⟩
  · rintro ⟨p, hp, -, htype⟩
    exact htype (hpins p hp)

/-- The node with the first file, and the two with the revision of the late one. -/
def firstStored : Node :=
  stored chainCtx.env firstStore 1700000200
    (recorded firstStore (storeContent 1700000000) (createHandlerContext chainCtx true) .empty)

def revisedEarly : Node := revisionStored reviseLate (revisionOfContent lateHash 1700000030) .empty

def lateStored : Node := revisionStored lateStore (revisionOfContent "releases" 1700000040) revisedEarly

example : isHex64 lateHash = true := by decide +kernel

theorem fromStr_firstText :
    chainCtx.env.fromStr StoreContent.decode (storeText "1700000000") = .ok (storeContent 1700000000) := by
  decide +kernel

theorem fromStr_reviseFirst :
    chainCtx.env.fromStr StoreContent.decode (revisionOfText firstHash "1700000030") =
      .ok (revisionOfContent firstHash 1700000030) := by
  decide +kernel

theorem fromStr_reviseLate :
    chainCtx.env.fromStr StoreContent.decode (revisionOfText lateHash "1700000030") =
      .ok (revisionOfContent lateHash 1700000030) := by
  decide +kernel

theorem fromStr_lateStore :
    chainCtx.env.fromStr StoreContent.decode (revisionOfText "releases" "1700000040") =
      .ok (revisionOfContent "releases" 1700000040) := by
  decide +kernel

/-- A file, and a revision of it. -/
theorem reviseFirst_noChains :
    NoChains chainCtx.env (revisionStored reviseFirst (revisionOfContent firstHash 1700000030) firstStored) := by
  have hrows : firstStored.messages.rows = [processedRow chainCtx.env firstStore 1700000200] := by decide +kernel
  have hmem : ∀ r ∈ firstStored.messages, r = processedRow chainCtx.env firstStore 1700000200 := by
    intro r hr
    rw [Table.mem_def, hrows] at hr
    exact List.mem_singleton.1 hr
  have hplain : ∀ s content, some (storeText "1700000000") = some s →
      chainCtx.env.fromStr StoreContent.decode s = .ok content → content.ref_ = none := by
    intro s content hs hdecode
    obtain rfl := Option.some.inj hs
    obtain rfl := Except.ok.inj (fromStr_firstText.symm.trans hdecode)
    rfl
  have hfirst : Accepted chainCtx.env firstStore .empty firstStored :=
    (delivered_store_by fromStr_firstText).delivered.accepted
  have hpins : ∀ p ∈ firstStored.filePins.rows, p.pinType = .message := by decide +kernel
  have htarget : TargetAllowed chainCtx.env firstHash firstStored := by
    intro r hr _
    rw [hmem r hr]
    exact ⟨rfl, hplain⟩
  have hsecond : Accepted chainCtx.env reviseFirst firstStored
      (revisionStored reviseFirst (revisionOfContent firstHash 1700000030) firstStored) :=
    accepted_revision fromStr_reviseFirst (by decide +kernel) (fun _ => htarget) hpins
  have hrun : Relation.ReflTransGen (ChainFreeStep chainCtx.env) .empty
      (revisionStored reviseFirst (revisionOfContent firstHash 1700000030) firstStored) := by
    refine (Relation.ReflTransGen.single ⟨firstStore, hfirst, ?_⟩).tail ⟨reviseFirst, hsecond, ?_⟩
    · rintro - - content hparse - - a ⟨r, hr, -, -, s, content', hs, hdecode, href⟩
      rw [hmem r hr] at hs
      rw [hplain s content' hs hdecode] at href
      cases href
    · rintro - - content ref_ - - a ⟨r, hr, -⟩
      exact absurd hr List.not_mem_nil
  exact (noChains_of_run noChains_empty hrun).1

/-- The revision comes first, then what it revises, with a reference. -/
theorem lateStore_chain :
    NoChains chainCtx.env .empty ∧ Accepted chainCtx.env reviseLate .empty revisedEarly ∧
      Accepted chainCtx.env lateStore revisedEarly lateStored ∧ ¬ NoChains chainCtx.env lateStored := by
  have hpins : ∀ p ∈ revisedEarly.filePins.rows, p.pinType = .message := by decide +kernel
  have hname : isHex64 "releases" = false := by decide +kernel
  have hrevision : processedRow chainCtx.env reviseLate 1700000200 ∈ lateStored.messages.rows := by decide +kernel
  have hlate : processedRow chainCtx.env lateStore 1700000200 ∈ lateStored.messages.rows := by decide +kernel
  refine ⟨noChains_empty, ?_, ?_, fun hchains => ?_⟩
  · refine accepted_revision fromStr_reviseLate (by decide +kernel) (fun _ r hr => ?_) fun p hp => ?_
    · exact absurd hr List.not_mem_nil
    · exact absurd hp List.not_mem_nil
  · refine accepted_revision fromStr_lateStore (by decide +kernel) (fun hhex => ?_) hpins
    rw [hname] at hhex
    cases hhex
  · exact hchains reviseLate.itemHash lateHash (by decide +kernel) (by decide +kernel)
      ⟨_, hrevision, rfl, rfl, _, _, rfl, fromStr_reviseLate, rfl⟩ "releases"
      ⟨_, hlate, rfl, rfl, _, _, rfl, fromStr_lateStore, rfl⟩

end Late

end AlephCore.MessageProcessor
