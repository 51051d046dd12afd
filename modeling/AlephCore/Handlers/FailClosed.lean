import AlephCore.Handlers.PostPermissions
import AlephCore.Handlers.PostSpec

/-!
# FailClosed — what becomes of a message when a read fails

A read that fails during validation, the permission check or the balance check rejects the message, for every
handler and every read but one: the look-up of the original by which the address of an amend is compared.  If that
fails the comparison is left out.
-/

namespace AlephCore

open ProgE Prog

/-! ## The checks and what follows them -/

/-- Validate, check permissions, check the balance. -/
def MessageHandler.checks (h : MessageHandler) : HandlerStep := fun message ctx => do
  h.validate message ctx
  h.permissionStage message ctx
  h.checkBalance message ctx

/-- What follows the checks: a message that passed is processed, any other one is rejected. -/
def afterChecks (message : Message) (ctx : HandlerContext) :
    Except HandlerError Unit → Prog Node DbError ProcessingStatus
  | .ok () => ((handlerOf message.messageType).process message ctx).run >>= fun
    | .ok () => .pure .processed
    | .error e => .pure e.toStatus
  | .error e => .pure e.toStatus

/-- Whatever read of the checks is refused, the message is rejected with an error, and the node is as it was. -/
def FailsClosed (message : Message) (ctx : HandlerContext) (n : Node) : Prop :=
  ∀ r n', Faulty ((handlerOf message.messageType).checks message ctx).run n r n' →
    n' = n ∧ ∃ e, r = .error e ∧ afterChecks message ctx r = .pure e.toStatus

variable {message : Message} {ctx : HandlerContext} {n n' : Node}

theorem processMessage_eq : processMessage message ctx =
    ((handlerOf message.messageType).checks message ctx).run >>= afterChecks message ctx := by
  unfold processMessage MessageHandler.run MessageHandler.checks
  simp only [run_bind_bind]
  refine bind_congr fun validated => ?_
  cases validated with
  | error e => rfl
  | ok _ =>
    refine bind_congr fun permitted => ?_
    cases permitted with
    | error e => rfl
    | ok _ =>
      refine bind_congr fun covered => ?_
      cases covered <;> rfl

theorem reads_checks (t : MessageType) : Reads ((handlerOf t).checks message ctx) :=
  reads_bind (checks_stage_validate t).moves fun _ =>
    reads_bind (reads_permissionStage t) fun _ => (checks_stage_checkBalance t).moves

/-- Checks that pass without a failing read have validated the message and checked the permissions. -/
theorem run_checks_ok (hrun : ((handlerOf message.messageType).checks message ctx).run.run n = (.ok (), n')) :
    Exec ((handlerOf message.messageType).validate message ctx).run n (.ok ()) n ∧
      ∃ t, ((handlerOf message.messageType).permissionStage message ctx).run.run n = (.ok (), t) := by
  rcases run_bind_cases hrun with ⟨e, -, he⟩ | ⟨u, t, hvalidate, hrest⟩
  · cases he
  rcases run_bind_cases hrest with ⟨e, -, he⟩ | ⟨u, t', hstage, -⟩
  · cases he
  have hexec := exec_run ((handlerOf message.messageType).validate message ctx).run n
  rw [hvalidate] at hexec
  obtain rfl := (checks_stage_validate _).unchanged hexec
  exact ⟨hexec, t', hstage⟩

/-! ## When the sender is permitted -/

namespace Permissions

variable {env : Env}

/-- The message that is checked in the place of an amend, and its address. -/
def amendTargetOf (env : Env) (n : Node) (message : Message) (content : Json) : Option (Message × Address) :=
  if message.messageType = .post ∧ (content.getStr? "type").getD "" = "amend" then
    ((content.get? "ref").or (content.get? "ref_")).bind fun v => originalMessage env n (v.asStr?.getD "")
  else none

/-- A content without an address is not checked; else the sender is the owner or a security aggregate allows it. -/
def Permits (env : Env) (n : Node) (message : Message) : Prop :=
  ∀ s, message.itemContent = some s → ∀ address, env.contentStr? s "address" = some address →
    env.SameAddress message.sender address ∨ ∃ json, env.parseJson s = .ok json ∧
      TargetAuthorizes env n (amendTargetOf env n message json) address message.sender message

theorem exec_amendTarget_ok {content : Json} {target : Option (Message × Address)} :
    Exec (amendTarget env message content).run n (.ok target) n' ↔
      target = amendTargetOf env n message content ∧ n' = n := by
  unfold amendTarget amendTargetOf
  split_ifs with hamend
  · cases href : (content.get? "ref").or (content.get? "ref_") with
    | none => simp
    | some v =>
      simp only [Option.bind_some, originalMessage]
      split_ifs with hempty
      · exact exec_pure_ok
      · rw [exec_bind_ok_of (a := (n.messages.find? (v.asStr?.getD "")).map MessageRow.message)]
        · exact exec_pure_ok
        · intro c t
          rw [exec_mapErr_ok, PgDatabase.getMessage, exec_query_ok]
  · exact exec_pure_ok

theorem exec_checkSenderAuthorization_ok {s : String} {address : Address} (hs : message.itemContent = some s)
    (haddress : env.contentStr? s "address" = some address) (hother : ¬ env.SameAddress message.sender address) :
    Exec (checkSenderAuthorization env message).run n (.ok true) n' ↔
      n' = n ∧ ∃ json, env.parseJson s = .ok json ∧
        TargetAuthorizes env n (amendTargetOf env n message json) address message.sender message := by
  unfold checkSenderAuthorization
  simp only [hs]
  rw [exec_fromExcept_bind_ok]
  cases hparse : env.parseJson s with
  | error e =>
    rw [Env.contentStr?, Env.fromStrValue?, hparse] at haddress
    cases haddress
  | ok json =>
    have hfield : json.getStr? "address" = some address := by
      rw [Env.contentStr?, Env.fromStrValue?, hparse] at haddress
      exact haddress
    have htarget : ∀ k : Option (Message × Address) → Db DbError Bool,
        k none = checkDelegatedAuthorization env message.sender address message →
        (∀ target, k (some target) = if ¬ env.SameAddress address target.2 then (pure false : Db DbError Bool)
          else checkDelegatedAuthorization env message.sender target.2 target.1) →
        (Exec (amendTarget env message json >>= k).run n (.ok true) n' ↔
          n' = n ∧ TargetAuthorizes env n (amendTargetOf env n message json) address message.sender message) := by
      intro k hnone hsome
      rw [exec_bind_ok_of fun _ _ => exec_amendTarget_ok]
      cases amendTargetOf env n message json with
      | none =>
        rw [hnone]
        refine exec_checkDelegatedAuthorization.trans (and_congr_right fun _ => ?_)
        exact or_iff_right hother
      | some target =>
        rw [hsome]
        by_cases hsame : env.SameAddress address target.2
        · simp only [if_neg (not_not.2 hsame)]
          refine exec_checkDelegatedAuthorization.trans (and_congr_right fun _ => ?_)
          rw [or_iff_right fun hself => hother (hself.trans hsame.symm)]
          exact (and_iff_right hsame).symm
        · simp [TargetAuthorizes, hsame]
    constructor
    · rintro ⟨_, hjson, h⟩
      obtain rfl := Except.ok.inj hjson
      simp only [hfield, if_neg hother] at h
      obtain ⟨hn, hallowed⟩ := (htarget _ rfl fun _ => rfl).1 h
      exact ⟨hn, json, rfl, hallowed⟩
    · rintro ⟨hn, _, hjson, hallowed⟩
      obtain rfl := Except.ok.inj hjson
      refine ⟨json, rfl, ?_⟩
      simp only [hfield, if_neg hother]
      exact (htarget _ rfl fun _ => rfl).2 ⟨hn, hallowed⟩

theorem permits_iff {s : String} {address : Address} (hs : message.itemContent = some s)
    (haddress : env.contentStr? s "address" = some address) :
    Permits env n message ↔ env.SameAddress message.sender address ∨ ∃ json, env.parseJson s = .ok json ∧
      TargetAuthorizes env n (amendTargetOf env n message json) address message.sender message := by
  constructor
  · intro h
    exact h s hs address haddress
  · intro h s' hs' address' haddress'
    obtain rfl := Option.some.inj (hs.symm.trans hs')
    obtain rfl := Option.some.inj (haddress.symm.trans haddress')
    exact h

end Permissions

theorem exec_requireAuthorization_ok {s : String} {address : Address} (hs : message.itemContent = some s)
    (haddress : ctx.env.contentStr? s "address" = some address) :
    Exec (requireAuthorization message address ctx).run n (.ok ()) n' ↔
      n' = n ∧ Permissions.Permits ctx.env n message := by
  rw [Permissions.permits_iff hs haddress]
  unfold requireAuthorization
  split_ifs with hsame
  · simp [hsame]
  · rw [or_iff_right hsame, ← Permissions.exec_checkSenderAuthorization_ok hs haddress hsame, exec_bind_ok]
    constructor
    · rintro ⟨authorized, t, hdb, h⟩
      cases authorized with
      | false => exact absurd h exec_throw_ok
      | true =>
        obtain ⟨-, rfl⟩ := exec_pure_ok.1 h
        exact exec_db_ok.1 hdb
    · intro h
      exact ⟨true, n', exec_db_ok.2 h, exec_pure_ok.2 ⟨rfl, rfl⟩⟩

/-- **The default check** passes exactly the messages that are permitted. -/
theorem exec_checkPermissions_ok :
    Exec (checkPermissions message ctx).run n (.ok ()) n' ↔ n' = n ∧ Permissions.Permits ctx.env n message := by
  unfold checkPermissions
  cases hs : message.itemContent with
  | none => simp [Permissions.Permits, hs]
  | some s =>
    rw [Option.bind_some]
    cases haddress : ctx.env.contentStr? s "address" with
    | none => simp [Permissions.Permits, hs, haddress]
    | some address => exact exec_requireAuthorization_ok hs haddress

/-- A permitted message passes the stage of a handler with the default check. -/
theorem exec_permissionStage_permitted {h : MessageHandler} (hdefault : h.checkPermissions = checkPermissions)
    (hpermits : Permissions.Permits ctx.env n message) :
    Exec (h.permissionStage message ctx).run n (.ok ()) n := by
  rw [MessageHandler.permissionStage, hdefault]
  split_ifs with htrusted
  · exact exec_pure_ok.2 ⟨rfl, rfl⟩
  · exact exec_checkPermissions_ok.2 ⟨rfl, hpermits⟩

/-! ## The read whose failure is passed over -/

/-- An amend, not from a trusted source, that gets as far as the look-up of the post it names. -/
structure AmendLookup (message : Message) (ctx : HandlerContext) (n : Node) (content : PostContent)
    (targetRef : ItemHash) : Prop where
  isPost : message.messageType = .post
  untrusted : ctx.trustedSource = false
  parsed : ∃ s, message.itemContent = some s ∧ ctx.env.fromStr PostContent.decode s = .ok content
  typed : content.postType ≠ ""
  amend : PostHandler.isAmend ctx.env content.postType = true
  names : content.ref_ = some targetRef
  original : ∃ target ∈ n.posts, target.itemHash = targetRef ∧ PostHandler.isAmend ctx.env target.postType = false
  permitted : Permissions.Permits ctx.env n message

variable {content : PostContent} {targetRef : ItemHash}

theorem AmendLookup.exec_validate (h : AmendLookup message ctx n content targetRef) :
    Exec (PostHandler.validate message ctx).run n (.ok ()) n := by
  obtain ⟨target, htarget, hhash, hplain⟩ := h.original
  have hfind : n.posts.find? targetRef = some target := Table.find?_eq_some.2 ⟨htarget, hhash⟩
  refine exec_fromExcept_bind_ok.2 ⟨content, parseContent_ok.2 h.parsed, ?_⟩
  rw [if_neg h.typed, if_pos h.amend]
  simp only [PostHandler.validateAmend, h.names, PgDatabase.getPost, exec_db_query_bind_ok, hfind, hplain]
  exact exec_pure_ok.2 ⟨rfl, rfl⟩

/-- The comparison of the addresses is left out, and the amend passes the checks. -/
theorem AmendLookup.faulty (h : AmendLookup message ctx n content targetRef) :
    Faulty ((handlerOf message.messageType).checks message ctx).run n (.ok ()) n := by
  obtain ⟨s, hs, hdecode⟩ := h.parsed
  have hlookup : Faulty (PostHandler.checkAmendAddress content targetRef ctx).run n (.ok ()) n :=
    faulty_bind_left (faulty_attempt_query _ "connection reset" n) (exec_pure_ok.2 ⟨rfl, rfl⟩)
  have hpermissions : Faulty (PostHandler.checkPermissions message ctx).run n (.ok ()) n := by
    refine faulty_bind_right (exec_checkPermissions_ok.2 ⟨rfl, h.permitted⟩) ?_
    simp only [hs, Option.map_some, hdecode, h.amend, h.names]
    exact hlookup
  have hstage : Faulty (PostHandler.handler.permissionStage message ctx).run n (.ok ()) n := by
    rw [MessageHandler.permissionStage, h.untrusted, if_neg Bool.false_ne_true]
    exact hpermissions
  have hbalance : Exec (PostHandler.handler.checkBalance message ctx).run n (.ok ()) n := exec_pure_ok.2 ⟨rfl, rfl⟩
  rw [h.isPost]
  exact faulty_bind_right h.exec_validate (faulty_bind_left hstage hbalance)

/-- If no read fails the addresses are compared. -/
theorem AmendLookup.run_checks (h : AmendLookup message ctx n content targetRef)
    (hrun : ((handlerOf message.messageType).checks message ctx).run.run n = (.ok (), n')) :
    ∀ target ∈ n.posts, target.itemHash = targetRef → ctx.env.SameAddress target.address content.address := by
  obtain ⟨-, t, hstage⟩ := run_checks_ok hrun
  rw [h.isPost, MessageHandler.permissionStage, h.untrusted, if_neg Bool.false_ne_true] at hstage
  exact PostHandler.run_checkPermissions_amend h.parsed h.names h.amend hstage

/-- A post that passes its permission check although a read is refused there is such an amend. -/
theorem amendLookup_of_faulty (htype : message.messageType = .post)
    (hvalidate : Exec (PostHandler.validate message ctx).run n (.ok ()) n)
    (h : Faulty (PostHandler.handler.permissionStage message ctx).run n (.ok ()) n') :
    ∃ content targetRef, AmendLookup message ctx n content targetRef := by
  rw [MessageHandler.permissionStage] at h
  split_ifs at h with htrusted
  · exact absurd h not_faulty_pure
  have hcheck : Faulty (PostHandler.checkPermissions message ctx).run n (.ok ()) n' := h
  rcases faulty_bind_cases hcheck with ⟨e, he, -⟩ | ⟨u, t, hdefault, -⟩ | ⟨u, t, hdefault, hamend⟩
  · cases he
  · obtain ⟨e, he⟩ := checks_checkPermissions.fails hdefault
    cases he
  · obtain ⟨rfl, hpermitted⟩ := exec_checkPermissions_ok.1 hdefault
    cases hs : message.itemContent with
    | none =>
      simp only [hs] at hamend
      exact absurd hamend not_faulty_pure
    | some s =>
      cases hdecode : ctx.env.fromStr PostContent.decode s with
      | error e =>
        simp only [hs, Option.map_some, hdecode] at hamend
        exact absurd hamend not_faulty_pure
      | ok content =>
        simp only [hs, Option.map_some, hdecode] at hamend
        cases hisAmend : PostHandler.isAmend ctx.env content.postType with
        | false =>
          simp only [hisAmend] at hamend
          exact absurd hamend not_faulty_pure
        | true =>
          have hparsed : ∃ s, message.itemContent = some s ∧ ctx.env.fromStr PostContent.decode s = .ok content :=
            ⟨s, hs, hdecode⟩
          obtain ⟨htyped, targetRef, hnames, horiginal⟩ := PostHandler.exec_validate_amend hvalidate hparsed hisAmend
          exact ⟨content, targetRef, htype, by simpa using htrusted, hparsed, htyped, hisAmend, hnames, horiginal,
            hpermitted⟩

/-- **A message is rejected whatever read of its checks fails**, unless it is an amend that gets as far as the
look-up of its original. -/
theorem failsClosed_iff (message : Message) (ctx : HandlerContext) (n : Node) :
    FailsClosed message ctx n ↔ ¬ ∃ content targetRef, AmendLookup message ctx n content targetRef := by
  constructor
  · rintro h ⟨content, targetRef, hlookup⟩
    obtain ⟨-, e, he, -⟩ := h _ _ hlookup.faulty
    cases he
  · intro hnone r n' hfaulty
    refine ⟨(reads_checks _).exec hfaulty.exec, ?_⟩
    cases r with
    | error e => exact ⟨e, rfl, rfl⟩
    | ok _ =>
      refine absurd ?_ hnone
      rcases faulty_bind_cases hfaulty with ⟨e, he, -⟩ | ⟨u, t, hvalidate, -⟩ | ⟨u, t, hvalidate, hrest⟩
      · cases he
      · obtain ⟨e, he⟩ := (checks_stage_validate _).fails hvalidate
        cases he
      obtain rfl := (checks_stage_validate _).unchanged hvalidate
      rcases faulty_bind_cases hrest with ⟨e, he, -⟩ | ⟨u, t', hpermissions, -⟩ | ⟨u, t', -, hbalance⟩
      · cases he
      · by_cases htype : message.messageType = .post
        · rw [htype] at hvalidate hpermissions
          exact amendLookup_of_faulty htype hvalidate hpermissions
        · obtain ⟨e, he⟩ := (checks_permissionStage htype).fails hpermissions
          cases he
      · obtain ⟨e, he⟩ := (checks_stage_checkBalance _).fails hbalance
        cases he

/-! ### A stranger amends a note while the database is away -/

section Stranger

open PostHandler

/-- The amend of the note, in the delegate's own name. -/
def strangerText : String :=
  "\x7b\"address\":\"" ++ noteDelegate ++ "\",\"type\":\"amend\",\"ref\":\"" ++ noteHash ++
    "\",\"content\":\x7b\x7d,\"time\":1700000100\x7d"

def strangerFields : List (String × Json) :=
  [("address", .str noteDelegate), ("type", .str "amend"), ("ref", .str noteHash), ("content", .obj []),
    ("time", .num (.int 1700000100))]

def strangerCtx : HandlerContext := .ofEnv (.ofTables [(strangerText, .obj strangerFields)] [] [])

def strangerMessage : Message := { amendMessage "amend" with itemContent := some strangerText }

def strangerContent : PostContent := ⟨noteDelegate, "amend", Value.emptyObject, some noteHash, 1700000100⟩

/-- A node that has the note and nothing else. -/
def notePosted : Node := { Node.empty with posts := Table.empty.insertNew (recordOf noteMessage noteContent none) }

example : isAmend strangerCtx.env "amend" = true := by decide +kernel

theorem stranger_lookup : AmendLookup strangerMessage strangerCtx notePosted strangerContent noteHash where
  isPost := rfl
  untrusted := rfl
  parsed := ⟨strangerText, rfl, by decide +kernel⟩
  typed := by decide
  amend := by decide +kernel
  names := rfl
  original := ⟨recordOf noteMessage noteContent none, List.mem_singleton_self _, rfl, by decide +kernel⟩
  permitted := by
    have haddress : strangerCtx.env.contentStr? strangerText "address" = some noteDelegate := by decide +kernel
    exact (Permissions.permits_iff rfl haddress).2 (.inl rfl)

/-- The note with the amend of the stranger. -/
def noteAmended : Node :=
  amended noteHash (recordOf strangerMessage strangerContent (some noteHash)) notePosted

/-- **The amend of a stranger is accepted if the look-up of the note fails**, and becomes the latest amend of the
note; it is rejected if no read fails. -/
theorem stranger_accepted :
    ¬ FailsClosed strangerMessage strangerCtx notePosted ∧
    Exec (processMessage strangerMessage strangerCtx) notePosted .processed noteAmended ∧
    (noteAmended.posts.find? noteHash).map PostRecord.latestAmend = some (some strangerMessage.itemHash) ∧
    ((processMessage strangerMessage strangerCtx).run notePosted).1 ≠ .processed := by
  have hfaulty := stranger_lookup.faulty
  have hparse : parseContent strangerCtx.env PostContent.decode (fun e => e) strangerMessage = .ok strangerContent :=
    parseContent_ok.2 stranger_lookup.parsed
  have hprocess : Exec (process strangerMessage strangerCtx).run notePosted (.ok ()) noteAmended :=
    exec_process_ok.2 ⟨strangerContent, hparse,
      .inr ⟨stranger_lookup.amend, noteHash, rfl, noteHash, .inr rfl, rfl⟩⟩
  refine ⟨fun hclosed => ?_, ?_, by decide +kernel, fun hrun => ?_⟩
  · obtain ⟨-, e, he, -⟩ := hclosed _ _ hfaulty
    cases he
  · rw [processMessage_eq]
    exact exec_bind.2 ⟨.ok (), notePosted, hfaulty.exec,
      exec_bind.2 ⟨.ok (), noteAmended, hprocess, exec_pure.2 ⟨rfl, rfl⟩⟩⟩
  · rw [processMessage_eq, run_bind] at hrun
    rcases hchecks : ((handlerOf strangerMessage.messageType).checks strangerMessage strangerCtx).run.run notePosted with
      ⟨r, t⟩
    rw [hchecks] at hrun
    cases r with
    | error e => cases hrun
    | ok u =>
      have hsame := stranger_lookup.run_checks hchecks _ (List.mem_singleton_self _) rfl
      exact absurd hsame (by decide +kernel)

end Stranger

end AlephCore
