import AlephCore.Handlers.Process

/-!
# StoreSpec — what an accepted STORE message does

Processing records the file, pins it for its owner and tags it, unless a pin of another type stands in
the way.  The pins only grow: no file loses its active pins, and no grace period pin is added.
-/

namespace AlephCore

open ProgE Prog

namespace PgDatabase

/-- A pin of another type under the same file and owner. -/
def PinClash (pin : FilePinRecord) (n : Node) : Prop :=
  ∃ p ∈ n.filePins.rows, (p.itemHash, p.owner) = (pin.itemHash, pin.owner) ∧ p.pinType ≠ pin.pinType

theorem exec_insertPin_ok {pin : FilePinRecord} {f : FilePinRecord → FilePinRecord}
    {hf : ∀ p, ((f p).itemHash, (f p).owner) = (p.itemHash, p.owner)} {n n' : Node} {u : Unit} :
    Exec (insertPin pin f hf).run n (.ok u) n' ↔
      ¬ PinClash pin n ∧ n' = { n with filePins := n.filePins.upsert pin f hf } := by
  rw [insertPin, exec_sql_ok]
  split_ifs with h
  · constructor
    · intro h'
      cases h'
    · rintro ⟨hclash, -⟩
      exact absurd h hclash
  · constructor
    · intro h'
      cases h'
      exact ⟨h, rfl⟩
    · rintro ⟨-, rfl⟩
      rfl

end PgDatabase

namespace StoreHandler

open PgDatabase

variable {message : Message} {ctx : HandlerContext} {content : StoreContent} {n n' : Node}

/-! ## The effect of processing -/

/-- What the first insert makes of a pin that exists. -/
def typedUpdate (pin p : FilePinRecord) : FilePinRecord :=
  { p with
    size := pin.size
    contentType := pin.contentType.or p.contentType
    ref_ := pin.ref_
    deleteBy := pin.deleteBy
    messageHash := pin.messageHash }

/-- What the raw insert makes of it. -/
def rawUpdate (pin p : FilePinRecord) : FilePinRecord :=
  { p with
    size := pin.size
    contentType := pin.contentType.or p.contentType
    messageHash := pin.messageHash }

theorem typedUpdate_key (pin p : FilePinRecord) :
    ((typedUpdate pin p).itemHash, (typedUpdate pin p).owner) = (p.itemHash, p.owner) := rfl

/-- The pins after both inserts. -/
def pinned (pin : FilePinRecord) (n : Node) : Table FilePinRecord fun p => (p.itemHash, p.owner) :=
  (n.filePins.upsert pin (typedUpdate pin)).upsert { pin with ref_ := none } (rawUpdate pin)

/-- The costs after `storeCosts`. -/
def charged (message : Message) (content : StoreContent) (n : Node) :
    Table AccountCostRecord fun c => (c.owner, c.itemHash, c.costType, c.name) :=
  match content.payment with
  | none => n.accountCosts
  | some payment =>
    let cost := costOf message content payment
    n.accountCosts.upsert cost fun c => { c with
      refHash := cost.refHash
      paymentType := cost.paymentType
      costHold := cost.costHold
      costStream := cost.costStream
      costCredit := cost.costCredit }

/-- The node after a STORE message has been processed. -/
theorem refiled_hash (content : StoreContent) (f : FileRecord) :
    ({ f with size := asI64 (content.size.getD 0), fileType := .file } : FileRecord).hash = f.hash := rfl

theorem retagged_tag (tag t : FileTagRecord) :
    ({ t with fileHash := tag.fileHash, lastUpdated := tag.lastUpdated } : FileTagRecord).tag = t.tag := rfl

def recorded (message : Message) (content : StoreContent) (ctx : HandlerContext) (n : Node) : Node :=
  let tag := tagOf ctx.env message content
  { n with
    files := n.files.upsert ⟨content.itemHash, asI64 (content.size.getD 0), .file⟩ fun f =>
      { f with size := asI64 (content.size.getD 0), fileType := .file }
    filePins := pinned (pinOf message content ctx.now) n
    fileTagsV2 := n.fileTagsV2.upsert tag fun t =>
      { t with fileHash := tag.fileHash, lastUpdated := tag.lastUpdated }
    accountCosts := charged message content n }

theorem exec_storeCosts_ok {u : Unit} :
    Exec (storeCosts message content).run n (.ok u) n' ↔
      n' = { n with accountCosts := charged message content n } := by
  unfold storeCosts charged
  cases content.payment with
  | none => simp
  | some payment =>
    rw [exec_db_ok, storeAccountCosts, forEach, exec_bind_ok]
    simp only [exec_execute_ok, forEach, exists_eq_left, exec_pure_ok]
    constructor
    · rintro ⟨_, -, h⟩
      exact h
    · intro h
      exact ⟨(), trivial, h⟩

/-- **Processing a STORE message** succeeds unless a pin of another type stands in the way, and then
records the file. -/
theorem exec_process_ok {u : Unit} :
    Exec (process message ctx).run n (.ok u) n' ↔
      ∃ content, parseContent ctx.env StoreContent.decode (fun e => e) message = .ok content ∧
        ¬ PinClash (pinOf message content ctx.now) n ∧ n' = recorded message content ctx n := by
  unfold process
  rw [exec_fromExcept_bind_ok]
  refine exists_congr fun content => and_congr_right fun _ => ?_
  rw [upsertFile, exec_db_execute_bind_ok, exec_bind_ok]
  simp only [exec_db_ok, insertFilePinTyped, exec_insertPin_ok, upsertFileTag, exec_db_execute_bind_ok]
  constructor
  · rintro ⟨_, n₁, ⟨hclash, rfl⟩, h⟩
    obtain ⟨_, n₂, h1, h2⟩ := exec_bind_ok.1 h
    rw [exec_storeCosts_ok] at h1
    rw [exec_db_ok, insertPinRaw, exec_execute_ok, h1] at h2
    exact ⟨hclash, h2⟩
  · rintro ⟨hclash, rfl⟩
    refine ⟨(), _, ⟨hclash, rfl⟩, ?_⟩
    refine exec_bind_ok.2 ⟨(), _, exec_storeCosts_ok.2 rfl, ?_⟩
    rw [exec_db_ok, insertPinRaw, exec_execute_ok]
    rfl

/-! ## The pins grow -/

/-- Every file keeps an active pin, and no grace period pin is added. -/
structure PinsGrow (ps ps' : Table FilePinRecord fun p => (p.itemHash, p.owner)) : Prop where
  kept : ∀ p ∈ ps, p.Active → ∃ p' ∈ ps', p'.itemHash = p.itemHash ∧ p'.Active
  grace : ∀ p ∈ ps', ¬ p.Active → p ∈ ps

theorem PinsGrow.trans {ps ps' ps'' : Table FilePinRecord fun p => (p.itemHash, p.owner)}
    (h : PinsGrow ps ps') (h' : PinsGrow ps' ps'') : PinsGrow ps ps'' := by
  refine ⟨fun p hp ha => ?_, fun p hp hg => h.grace p (h'.grace p hp hg) hg⟩
  obtain ⟨p', hp', he, ha'⟩ := h.kept p hp ha
  obtain ⟨p'', hp'', he', ha''⟩ := h'.kept p' hp' ha'
  exact ⟨p'', hp'', he'.trans he, ha''⟩

/-- An upsert of an active pin grows the pins and leaves an active pin of its file. -/
theorem pinsGrow_upsert {ps : Table FilePinRecord fun p => (p.itemHash, p.owner)} (pin : FilePinRecord)
    (f : FilePinRecord → FilePinRecord) (hf : ∀ p, ((f p).itemHash, (f p).owner) = (p.itemHash, p.owner))
    (htype : ∀ p, (f p).pinType = p.pinType) (hpin : pin.Active)
    (hclash : ∀ p ∈ ps, (p.itemHash, p.owner) = (pin.itemHash, pin.owner) → p.Active) :
    PinsGrow ps (ps.upsert pin f hf) ∧ (∃ p ∈ ps.upsert pin f hf, p.itemHash = pin.itemHash ∧ p.Active) ∧
      ∀ p ∈ ps.upsert pin f hf, (p.itemHash, p.owner) = (pin.itemHash, pin.owner) → p.Active := by
  have hactive : ∀ p, p.Active → (f p).Active := fun p h => by rwa [FilePinRecord.Active, htype]
  have hhash : ∀ p, (f p).itemHash = p.itemHash := fun p => congrArg Prod.fst (hf p)
  refine ⟨⟨fun p hp ha => ?_, fun p hp hg => ?_⟩, ?_, fun p hp hkey => ?_⟩
  · by_cases hkey : (p.itemHash, p.owner) = (pin.itemHash, pin.owner)
    · exact ⟨f p, Table.mem_upsert.2 (.inr (.inl ⟨p, hp, hkey, rfl⟩)), hhash p, hactive p ha⟩
    · exact ⟨p, Table.mem_upsert.2 (.inl ⟨hp, hkey⟩), rfl, ha⟩
  · rcases Table.mem_upsert.1 hp with ⟨hp, -⟩ | ⟨s, hs, hkey, rfl⟩ | ⟨rfl, -⟩
    · exact hp
    · exact absurd (hactive s (hclash s hs hkey)) hg
    · exact absurd hpin hg
  · by_cases hex : ∃ s ∈ ps, (s.itemHash, s.owner) = (pin.itemHash, pin.owner)
    · obtain ⟨s, hs, hkey⟩ := hex
      exact ⟨f s, Table.mem_upsert.2 (.inr (.inl ⟨s, hs, hkey, rfl⟩)),
        (hhash s).trans (congrArg Prod.fst hkey), hactive s (hclash s hs hkey)⟩
    · push Not at hex
      exact ⟨pin, Table.mem_upsert.2 (.inr (.inr ⟨rfl, hex⟩)), rfl, hpin⟩
  · rcases Table.mem_upsert.1 hp with ⟨-, hne⟩ | ⟨s, hs, hs', rfl⟩ | ⟨rfl, -⟩
    · exact absurd hkey hne
    · exact hactive s (hclash s hs hs')
    · exact hpin

/-- **An accepted STORE message grows the pins** and leaves an active pin of its file. -/
theorem pinned_grow {pin : FilePinRecord} (hactive : pin.Active) (hclash : ¬ PinClash pin n) :
    PinsGrow n.filePins (pinned pin n) ∧ ∃ p ∈ pinned pin n, p.itemHash = pin.itemHash ∧ p.Active := by
  have hfree : ∀ p ∈ n.filePins, (p.itemHash, p.owner) = (pin.itemHash, pin.owner) → p.Active := by
    intro p hp hkey hgrace
    exact hclash ⟨p, hp, hkey, fun he => hactive (he.symm.trans hgrace)⟩
  obtain ⟨hfirst, -, hfree'⟩ := pinsGrow_upsert pin (typedUpdate pin) (fun _ => rfl) (fun _ => rfl)
    hactive hfree
  obtain ⟨hsecond, hpin, -⟩ := pinsGrow_upsert { pin with ref_ := none } (rawUpdate pin)
    (fun _ => rfl) (fun _ => rfl) hactive hfree'
  exact ⟨hfirst.trans hsecond, hpin⟩

/-! ## References -/

/-- What is stored under the hash is a STORE message without a reference of its own. -/
def TargetAllowed (env : Env) (ref_ : String) (n : Node) : Prop :=
  ∀ r ∈ n.messages, r.itemHash = ref_ → r.messageType = .store ∧
    ∀ s content, r.itemContent = some s → env.fromStr StoreContent.decode s = .ok content → content.ref_ = none

theorem exec_validateRefTarget_ok {ref_ : String} {u : Unit} :
    Exec (validateRefTarget ref_ ctx).run n (.ok u) n' ↔ TargetAllowed ctx.env ref_ n ∧ n' = n := by
  rw [validateRefTarget, getMessage, exec_db_query_bind_ok]
  cases hfind : n.messages.find? ref_ with
  | none =>
    have hallowed : TargetAllowed ctx.env ref_ n := fun r hr hhash => absurd hhash (Table.find?_eq_none.1 hfind r hr)
    rw [Option.map_none, exec_pure_ok, and_iff_right hallowed]
    exact and_iff_right rfl
  | some r =>
    obtain ⟨hr, hhash⟩ := Table.find?_eq_some.1 hfind
    have hallowed : TargetAllowed ctx.env ref_ n ↔ r.messageType = .store ∧ ∀ s content, r.itemContent = some s →
        ctx.env.fromStr StoreContent.decode s = .ok content → content.ref_ = none := by
      refine ⟨fun h => h r hr hhash, fun h r' hr' hhash' => ?_⟩
      rwa [Table.eq_of_key hr' hr (hhash'.trans hhash.symm)]
    rw [hallowed]
    show Exec (ExceptT.run (if r.messageType ≠ .store then _ else _)) n (.ok u) n' ↔ _
    split_ifs with htype
    · exact iff_of_false exec_throw_ok fun h => htype h.1.1
    · push Not at htype
      rw [and_iff_right htype]
      rw [show r.message.itemContent = r.itemContent from rfl]
      cases hitem : r.itemContent with
      | none =>
        refine exec_pure_ok.trans ⟨fun h => ⟨fun s content hs => ?_, h.2⟩, fun h => ⟨rfl, h.2⟩⟩
        cases hs
      | some s =>
        simp only [Option.map_some]
        cases hdecode : ctx.env.fromStr StoreContent.decode s with
        | error e =>
          refine exec_pure_ok.trans ⟨fun h => ⟨fun s' content hs hdecode' => ?_, h.2⟩, fun h => ⟨rfl, h.2⟩⟩
          cases hs
          rw [hdecode] at hdecode'
          cases hdecode'
        | ok target =>
          show Exec (ExceptT.run (if target.ref_.isSome then _ else _)) n (.ok u) n' ↔ _
          split_ifs with hown
          · refine iff_of_false exec_throw_ok fun h => ?_
            rw [h.1 s target rfl hdecode] at hown
            exact Bool.false_ne_true hown
          · refine exec_pure_ok.trans ⟨fun h => ⟨fun s' content hs hdecode' => ?_, h.2⟩, fun h => ⟨rfl, h.2⟩⟩
            cases hs
            obtain rfl := Except.ok.inj (hdecode.symm.trans hdecode')
            exact Option.not_isSome_iff_eq_none.1 hown

/-- **A STORE message passes the validation** if it names a file of the given kind, and what its reference names may
be revised. -/
theorem exec_validate_ok {u : Unit} :
    Exec (validate message ctx).run n (.ok u) n' ↔
      ∃ content,
        parseContent ctx.env StoreContent.decode (fun e => s!"Invalid store content: {e}") message = .ok content ∧
        content.itemHash ≠ "" ∧ validateItemTypeHash content.itemType content.itemHash = .ok () ∧
        (∀ ref_, content.ref_ = some ref_ → ref_ ≠ "" ∧ (isHex64 ref_ = true → TargetAllowed ctx.env ref_ n)) ∧
        n' = n := by
  unfold validate
  rw [exec_fromExcept_bind_ok]
  refine exists_congr fun content => and_congr_right fun _ => ?_
  split_ifs with hnamed
  · exact iff_of_false exec_throw_ok fun h => h.1 hnamed
  · rw [and_iff_right hnamed, exec_fromExcept_bind_ok]
    cases href : content.ref_ with
    | none =>
      constructor
      · rintro ⟨_, hformat, h⟩
        obtain ⟨-, rfl⟩ := exec_pure_ok.1 h
        refine ⟨hformat, ⟨fun ref_ he => ?_, rfl⟩⟩
        cases he
      · rintro ⟨hformat, -, rfl⟩
        exact ⟨(), hformat, exec_pure_ok.2 ⟨rfl, rfl⟩⟩
    | some ref_ =>
      have hvalid : ∀ v, validateRef ref_ = .ok v ↔ ref_ ≠ "" := by
        intro v
        unfold validateRef
        split_ifs with hempty
        · exact iff_of_false (fun h => nomatch h) fun h => h hempty
        · exact iff_of_true rfl hempty
      have hhex : Exec (ExceptT.run (if isHex64 ref_ then validateRefTarget ref_ ctx else pure ())) n (.ok u) n' ↔
          (isHex64 ref_ = true → TargetAllowed ctx.env ref_ n) ∧ n' = n := by
        split_ifs with h
        · rw [exec_validateRefTarget_ok, forall_prop_of_true h]
        · rw [exec_pure_ok, forall_prop_of_false h, true_and]
          exact and_iff_right rfl
      constructor
      · rintro ⟨_, hformat, h⟩
        obtain ⟨v, hv, h⟩ := exec_fromExcept_bind_ok.1 h
        obtain ⟨htarget, rfl⟩ := hhex.1 h
        refine ⟨hformat, fun ref' he => ?_, rfl⟩
        obtain rfl := Option.some.inj he
        exact ⟨(hvalid v).1 hv, htarget⟩
      · rintro ⟨hformat, href', rfl⟩
        obtain ⟨hempty, htarget⟩ := href' ref_ rfl
        exact ⟨(), hformat, exec_fromExcept_bind_ok.2 ⟨(), (hvalid ()).2 hempty, hhex.2 ⟨htarget, rfl⟩⟩⟩

/-! ## When a STORE message is accepted -/

/-- A free file without a `ref`, stored by its own address. -/
structure Plain (message : Message) (ctx : HandlerContext) (content : StoreContent) : Prop where
  parsed : ∃ s, message.itemContent = some s ∧ ctx.env.fromStr StoreContent.decode s = .ok content
  named : content.itemHash ≠ ""
  format : validateItemTypeHash content.itemType content.itemHash = .ok ()
  noRef : content.ref_ = none
  free : content.size.getD 0 ≤ maxFreeFileSize
  own : ctx.trustedSource = true ∨ ctx.env.SameAddress message.sender content.address

theorem Plain.parseContent (h : Plain message ctx content) (t : String → String) :
    AlephCore.parseContent ctx.env StoreContent.decode t message = .ok content :=
  parseContent_ok.2 h.parsed

/-- **A plain file is recorded**, unless a pin of another type stands in the way. -/
theorem Plain.exec_processMessage (h : Plain message ctx content) (htype : message.messageType = .store)
    (hclash : ¬ PinClash (pinOf message content ctx.now) n) :
    Exec (processMessage message ctx) n .processed (recorded message content ctx n) := by
  rw [exec_processMessage_processed, htype]
  refine exec_run_ok.2 ⟨n, n, n, ?_, ?_, ?_, ?_⟩
  · refine exec_fromExcept_bind_ok.2 ⟨content, h.parseContent _, ?_⟩
    rw [if_neg h.named]
    refine exec_fromExcept_bind_ok.2 ⟨(), h.format, ?_⟩
    rw [h.noRef]
    exact exec_pure_ok.2 ⟨rfl, rfl⟩
  · unfold MessageHandler.permissionStage
    split_ifs with htrusted
    · exact exec_pure_ok.2 ⟨rfl, rfl⟩
    · refine exec_fromExcept_bind_ok.2 ⟨content, h.parseContent _, exec_bind_ok.2 ⟨(), n, ?_, ?_⟩⟩
      · rw [requireAuthorization, if_pos (h.own.resolve_left htrusted)]
        exact exec_pure_ok.2 ⟨rfl, rfl⟩
      · rw [h.noRef]
        exact exec_pure_ok.2 ⟨rfl, rfl⟩
  · refine exec_fromExcept_bind_ok.2 ⟨content, h.parseContent _, ?_⟩
    rw [if_pos h.free]
    exact exec_pure_ok.2 ⟨rfl, rfl⟩
  · exact exec_process_ok.2 ⟨content, h.parseContent _, hclash, rfl⟩

/-- **A valid file of a trusted source is recorded**, if it is free, unless a pin of another type stands in the
way. -/
theorem exec_processMessage_trusted (htype : message.messageType = .store) (htrusted : ctx.trustedSource = true)
    (hvalidate : Exec (validate message ctx).run n (.ok ()) n)
    (hparse : parseContent ctx.env StoreContent.decode (fun e => e) message = .ok content)
    (hfree : content.size.getD 0 ≤ maxFreeFileSize) (hclash : ¬ PinClash (pinOf message content ctx.now) n) :
    Exec (processMessage message ctx) n .processed (recorded message content ctx n) := by
  rw [exec_processMessage_processed, htype]
  refine exec_run_ok.2 ⟨n, n, n, hvalidate, exec_permissionStage_trusted htrusted, ?_, ?_⟩
  · refine exec_fromExcept_bind_ok.2 ⟨content, hparse, ?_⟩
    rw [if_pos hfree]
    exact exec_pure_ok.2 ⟨rfl, rfl⟩
  · exact exec_process_ok.2 ⟨content, hparse, hclash, rfl⟩

end StoreHandler

end AlephCore
