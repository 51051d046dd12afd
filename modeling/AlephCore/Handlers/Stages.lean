import AlephCore.Handlers.Process
import AlephCore.Lib.Checks

/-!
# Stages — the stages before processing only read

Validation, the permission check and the balance check of every handler leave the node as it is, so an
accepted message has exactly the effect of its `process` stage.
-/

namespace AlephCore

open ProgE Prog

/-- No statement of the program changes the node. -/
def Reads {ε α : Type} (p : Db ε α) : Prop := Moves (fun n n' : Node => n = n') p.run

section Rules

variable {ε ε' α β : Type}

theorem Reads.exec {p : Db ε α} (h : Reads p) {n n' : Node} {r : Except ε α} (he : Exec p.run n r n') :
    n' = n :=
  (Moves.exec (R := fun n n' : Node => n = n') h he).symm

theorem reads_bind {p : Db ε α} {q : α → Db ε β} (hp : Reads p) (hq : ∀ a, Reads (q a)) :
    Reads (p >>= q) := moves_bind hp hq

theorem reads_ite {c : Prop} [Decidable c] {p q : Db ε α} (hp : Reads p) (hq : Reads q) :
    Reads (if c then p else q) := by
  split_ifs
  · exact hp
  · exact hq

/-- Checks in a row all look at the same node. -/
theorem exec_forEach_checks {ι : Type} {p : ι → Db ε Unit} {is : List ι} (hp : ∀ i, Checks (p i)) {n n' : Node} :
    Exec (forEach p is).run n (.ok ()) n' ↔ n' = n ∧ ∀ i ∈ is, Exec (p i).run n (.ok ()) n := by
  induction is with
  | nil => simp [forEach]
  | cons i is ih =>
    unfold forEach
    rw [exec_bind_ok, List.forall_mem_cons]
    constructor
    · rintro ⟨_, n₁, hi, his⟩
      obtain rfl := (hp i).unchanged hi
      exact ⟨(ih.1 his).1, hi, (ih.1 his).2⟩
    · rintro ⟨rfl, hi, his⟩
      exact ⟨(), _, hi, ih.2 ⟨rfl, his⟩⟩

theorem checks_db {p : Db DbError α} (hp : Checks p) : Checks (db p) := .mapErr hp

/-- A query inside a handler, and what follows. -/
theorem checks_db_query_bind {f : Node → α} {q : α → Db HandlerError β} (hq : ∀ a, Checks (q a)) :
    Checks (db (query f) >>= q) := .bind (checks_db (.query f)) hq

end Rules

/-! ## Permissions -/

namespace Permissions

variable {env : Env} {message : Message}

theorem checks_checkDelegatedAuthorization (sender owner : Address) :
    Checks (checkDelegatedAuthorization env sender owner message) := by
  refine checks_ite (checks_pure _) (Checks.bind (Checks.mapErr (Checks.query _)) fun content => ?_)
  cases content with
  | none => exact checks_pure _
  | some value => exact Checks.bind (Checks.fromExcept _) fun _ => checks_pure _

theorem checks_amendTarget (content : Json) : Checks (amendTarget env message content) := by
  refine checks_ite ?_ (checks_pure _)
  split
  · exact checks_pure _
  · exact checks_ite (checks_pure _) (Checks.bind (Checks.mapErr (Checks.query _)) fun _ => checks_pure _)

theorem checks_checkSenderAuthorization : Checks (checkSenderAuthorization env message) := by
  unfold checkSenderAuthorization
  split
  · exact checks_pure _
  · refine Checks.bind (Checks.fromExcept _) fun content => ?_
    split
    · exact checks_pure _
    · refine checks_ite (checks_pure _) (Checks.bind (checks_amendTarget _) fun target => ?_)
      split
      · exact checks_ite (checks_pure _) (checks_checkDelegatedAuthorization _ _)
      · exact checks_checkDelegatedAuthorization _ _

end Permissions

variable {message : Message} {ctx : HandlerContext}

theorem checks_requireAuthorization (address : Address) : Checks (requireAuthorization message address ctx) :=
  checks_ite (checks_pure _)
    (Checks.bind (checks_db Permissions.checks_checkSenderAuthorization) fun _ =>
      checks_ite (checks_pure _) (checks_throw _))

theorem checks_checkPermissions : Checks (checkPermissions message ctx) := by
  unfold checkPermissions
  split
  · exact checks_pure _
  · exact checks_requireAuthorization _

/-! ## Posts -/

namespace PostHandler

theorem checks_validateAmend (content : PostContent) : Checks (validateAmend content ctx) := by
  unfold validateAmend
  split
  · exact checks_throw _
  · refine checks_db_query_bind fun target => ?_
    split
    · exact checks_throw _
    · exact checks_ite (checks_throw _) (checks_pure _)

theorem checks_validate : Checks (validate message ctx) :=
  Checks.bind (Checks.fromExcept _) fun content =>
    checks_ite (checks_throw _) (checks_ite (checks_validateAmend content) (checks_pure _))

/-- A look-up that fails is passed over, so these are no checks. -/
theorem reads_checkAmendAddress (content : PostContent) (targetRef : ItemHash) :
    Reads (checkAmendAddress content targetRef ctx) := by
  refine reads_bind (moves_attempt (moves_query _)) fun original => ?_
  split
  · exact reads_ite (moves_pure _) (moves_throw _)
  · exact moves_pure _

theorem reads_checkPermissions : Reads (checkPermissions message ctx) := by
  refine reads_bind AlephCore.checks_checkPermissions.moves fun _ => ?_
  split
  · split
    · exact reads_checkAmendAddress _ _
    · exact moves_pure _
  · exact moves_pure _

end PostHandler

/-! ## Aggregates and files -/

theorem AggregateHandler.checks_validate : Checks (AggregateHandler.validate message ctx) :=
  Checks.bind (Checks.fromExcept _) fun _ => checks_ite (checks_throw _) (checks_pure _)

namespace StoreHandler

theorem checks_validateRefTarget (ref_ : String) : Checks (validateRefTarget ref_ ctx) := by
  refine checks_db_query_bind fun target => ?_
  split
  · exact checks_pure _
  · refine checks_ite (checks_throw _) ?_
    split
    · exact checks_ite (checks_throw _) (checks_pure _)
    · exact checks_pure _

theorem checks_validate : Checks (validate message ctx) := by
  refine Checks.bind (Checks.fromExcept _) fun content => checks_ite (checks_throw _) ?_
  refine Checks.bind (Checks.fromExcept _) fun _ => ?_
  split
  · exact checks_pure _
  · exact Checks.bind (Checks.fromExcept _) fun _ => checks_ite (checks_validateRefTarget _) (checks_pure _)

theorem checks_checkTagOwner (content : StoreContent) (ref_ : String) :
    Checks (checkTagOwner content ref_ ctx) := by
  refine checks_db_query_bind fun tag => ?_
  split
  · exact checks_pure _
  · exact checks_ite (checks_pure _) (checks_throw _)

theorem checks_checkPermissions : Checks (checkPermissions message ctx) := by
  refine Checks.bind (Checks.fromExcept _) fun content => Checks.bind (checks_requireAuthorization _) fun _ => ?_
  split
  · exact checks_pure _
  · exact checks_checkTagOwner _ _

theorem checks_checkBalance : Checks (checkBalance message ctx) := by
  refine Checks.bind (Checks.fromExcept _) fun content => checks_ite (checks_pure _) ?_
  split
  · exact checks_pure _
  · split
    · exact checks_pure _
    all_goals
      refine checks_db_query_bind fun balance => ?_
      split
      · exact checks_pure _
      · exact checks_db_query_bind fun _ => checks_ite (checks_throw _) (checks_pure _)

end StoreHandler

/-! ## Virtual machines -/

namespace PgDatabase

theorem checks_isVmAmendAllowed (vmHash : ItemHash) : Checks (isVmAmendAllowed vmHash) := by
  refine Checks.bind (Checks.query _) fun version => ?_
  split
  · split
    · refine Checks.bind (Checks.query _) fun allow => ?_
      split
      · exact checks_pure _
      · exact Checks.query _
    · exact Checks.query _
  · exact checks_pure _

theorem checks_checkVolumeRefsExist (refs useLatestRefs : List ItemHash) :
    Checks (checkVolumeRefsExist refs useLatestRefs) :=
  Checks.bind (checks_ite (checks_pure _) (Checks.query _)) fun _ =>
    Checks.bind (checks_ite (checks_pure _) (Checks.query _)) fun _ => checks_pure _

end PgDatabase

namespace VmCommon

theorem checks_validateVolumeRefs (refs : List ItemHash × List ItemHash) : Checks (validateVolumeRefs refs) :=
  checks_ite (checks_pure _)
    (Checks.bind (checks_db (PgDatabase.checks_checkVolumeRefsExist _ _)) fun _ =>
      checks_ite (checks_pure _) (checks_throw _))

theorem checks_validateParentVolumeSize (parentRef : ItemHash) (size : Nat) :
    Checks (validateParentVolumeSize parentRef size) := by
  refine checks_db_query_bind fun file => ?_
  split
  · exact checks_pure _
  · exact checks_ite (checks_throw _) (checks_pure _)

theorem checks_validateAmendment {replaces : ItemHash} {original : Db DbError (Option (Option ItemHash))}
    (h : Checks original) : Checks (validateAmendment replaces original) := by
  refine Checks.bind (checks_db h) fun o => ?_
  split
  · exact checks_throw _
  · exact checks_throw _
  · refine Checks.bind (checks_db (PgDatabase.checks_isVmAmendAllowed _)) fun allow => ?_
    split
    · exact checks_pure _
    · exact checks_throw _
    · exact checks_throw _

theorem checks_validateBalance (address : Address) (paymentType : PaymentType) (cost : ℚ) :
    Checks (validateBalance address paymentType cost) := by
  unfold validateBalance
  split
  · exact checks_pure _
  all_goals
    refine checks_db_query_bind fun balance => checks_db_query_bind fun existing => ?_
    exact checks_ite (checks_throw _) (checks_pure _)

theorem checks_checkBalance (address : Address) (payment : Option PaymentInfo)
    (costs : Option (List AccountCostRecord)) : Checks (checkBalance address payment costs) := by
  unfold checkBalance
  split
  · exact checks_validateBalance _ _ _
  · exact checks_pure _

end VmCommon

theorem ProgramHandler.checks_validate : Checks (ProgramHandler.validate message ctx) := by
  refine Checks.bind (Checks.fromExcept _) fun content => checks_ite (checks_throw _) (checks_ite (checks_throw _) ?_)
  refine Checks.bind (VmCommon.checks_validateVolumeRefs _) fun _ => ?_
  split
  · exact checks_pure _
  · exact VmCommon.checks_validateAmendment (Checks.bind (Checks.query _) fun _ => checks_pure _)

theorem InstanceHandler.checks_validate : Checks (InstanceHandler.validate message ctx) := by
  refine Checks.bind (Checks.fromExcept _) fun content => checks_ite (checks_throw _) (checks_ite (checks_throw _) ?_)
  refine Checks.bind (VmCommon.checks_validateVolumeRefs _) fun _ => ?_
  refine Checks.bind (VmCommon.checks_validateParentVolumeSize _ _) fun _ => ?_
  split
  · exact checks_pure _
  · exact VmCommon.checks_validateAmendment (Checks.bind (Checks.query _) fun _ => checks_pure _)

/-! ## Forgetting -/

namespace ForgetHandler

theorem checks_checkOwnership (hash : ItemHash) (sender : Address) : Checks (checkOwnership hash sender ctx) := by
  refine checks_db_query_bind fun m => ?_
  split
  · exact checks_pure _
  · refine checks_db_query_bind fun pin => ?_
    split
    · exact checks_pure _
    · refine checks_db_query_bind fun post => ?_
      split <;> exact checks_pure _

theorem checks_isForgetMessage (hash : ItemHash) : Checks (isForgetMessage hash) := by
  refine checks_db_query_bind fun m => ?_
  split <;> exact checks_pure _

theorem checks_getForgottenHashes (hashes : List ItemHash) : Checks (PgDatabase.getForgottenHashes hashes) :=
  checks_ite (checks_pure _) (Checks.query _)

theorem checks_validateHash (hash : ItemHash) : Checks (validateHash message ctx hash) := by
  refine Checks.bind (checks_isForgetMessage _) fun _ => checks_ite (checks_throw _) ?_
  refine Checks.bind (checks_db (checks_getForgottenHashes _)) fun _ => checks_ite (checks_throw _) ?_
  refine Checks.bind (checks_checkOwnership _ _) fun _ => checks_ite (checks_throw _) ?_
  refine Checks.bind (checks_db_query_bind fun _ => checks_pure _) fun vm => ?_
  split
  · exact checks_throw _
  · exact checks_pure _

theorem checks_validate : Checks (validate message ctx) :=
  Checks.bind (Checks.fromExcept _) fun _ => checks_ite (checks_throw _)
    (Checks.bind (Checks.fromExcept _) fun _ => checks_forEach checks_validateHash)

/-- A message, a pin or a post is stored under the hash. -/
def Found (n : Node) (hash : ItemHash) : Prop :=
  (∃ r ∈ n.messages, r.itemHash = hash) ∨ (∃ p ∈ n.filePins, p.itemHash = hash) ∨
    ∃ p ∈ n.posts, p.itemHash = hash

theorem exec_checkOwnership_found {n n' : Node} {hash : ItemHash} {sender : Address}
    (h : Exec (checkOwnership hash sender ctx).run n (.ok true) n') : Found n hash := by
  unfold checkOwnership at h
  rw [PgDatabase.getMessage, exec_db_query_bind_ok] at h
  cases hmessage : n.messages.find? hash with
  | some r =>
    obtain ⟨hr, hhash⟩ := Table.find?_eq_some.1 hmessage
    exact .inl ⟨r, hr, hhash⟩
  | none =>
    rw [hmessage] at h
    simp only [Option.map_none] at h
    rw [PgDatabase.getFilePin, exec_db_query_bind_ok] at h
    cases hpin : (ctx.order.scan n.filePins.rows).find? fun p => decide (p.itemHash = hash) with
    | some p =>
      have hp : p ∈ n.filePins := (SqlOrder.mem_scan ctx.order).1 (List.mem_of_find?_eq_some hpin)
      have hhash := List.find?_some hpin
      exact .inr (.inl ⟨p, hp, of_decide_eq_true hhash⟩)
    | none =>
      rw [hpin] at h
      simp only at h
      rw [PgDatabase.getPost, exec_db_query_bind_ok] at h
      cases hpost : n.posts.find? hash with
      | some p =>
        obtain ⟨hp, hhash⟩ := Table.find?_eq_some.1 hpost
        exact .inr (.inr ⟨p, hp, hhash⟩)
      | none =>
        rw [hpost] at h
        simp at h

theorem exec_validateHash_ok {n n' : Node} {hash : ItemHash}
    (h : Exec (validateHash message ctx hash).run n (.ok ()) n') :
    Found n hash ∧ ∀ r ∈ n.forgottenMessages, r.itemHash ≠ hash := by
  obtain ⟨isForget, n₁, hforget, hold⟩ := exec_bind_ok.1 h
  obtain rfl := (checks_isForgetMessage hash).unchanged hforget
  split_ifs at hold
  · exact absurd hold exec_throw_ok
  · obtain ⟨forgotten, n₂, hnew, howner⟩ := exec_bind_ok.1 hold
    obtain rfl := (checks_db (checks_getForgottenHashes [hash])).unchanged hnew
    split_ifs at howner with hnone
    · obtain ⟨owned, n₃, howned, hvms⟩ := exec_bind_ok.1 howner
      cases owned with
      | false => exact absurd hvms exec_throw_ok
      | true =>
        refine ⟨exec_checkOwnership_found howned, fun r hr he => ?_⟩
        obtain ⟨rfl, -⟩ := exec_query_ok.1 (exec_db_ok.1 hnew)
        have hlisted : r.itemHash ∈ (n₂.forgottenMessages.rows.map ForgottenRow.itemHash).filter (· ∈ [hash]) :=
          List.mem_filter.2 ⟨List.mem_map_of_mem hr, by simp [he]⟩
        rw [List.isEmpty_iff.1 hnone] at hlisted
        cases hlisted
    · exact absurd howner exec_throw_ok

/-- **A FORGET that passes** lists hashes that are found, and not forgotten yet. -/
theorem exec_validate_ok {n n' : Node} {content : ForgetContent}
    (hparse : parseContent ctx.env ForgetContent.decode (fun e => e) message = .ok content)
    (h : Exec (validate message ctx).run n (.ok ()) n') :
    content.hashes ≠ [] ∧
      ∀ hash ∈ content.hashes, Found n hash ∧ ∀ r ∈ n.forgottenMessages, r.itemHash ≠ hash := by
  obtain ⟨content', hparse', hlisted⟩ := exec_fromExcept_bind_ok.1 h
  obtain rfl := Except.ok.inj ((parseContent_text hparse).symm.trans hparse')
  split_ifs at hlisted with hempty
  · exact absurd hlisted exec_throw_ok
  · obtain ⟨-, -, hhashes⟩ := exec_fromExcept_bind_ok.1 hlisted
    refine ⟨fun hnil => hempty (List.isEmpty_iff.2 hnil), fun hash hmem => ?_⟩
    exact exec_validateHash_ok (((exec_forEach_checks checks_validateHash).1 hhashes).2 hash hmem)

end ForgetHandler

/-! ## All handlers -/

theorem checks_stage_validate (t : MessageType) : Checks ((handlerOf t).validate message ctx) := by
  cases t with
  | aggregate => exact AggregateHandler.checks_validate
  | post => exact PostHandler.checks_validate
  | store => exact StoreHandler.checks_validate
  | program => exact ProgramHandler.checks_validate
  | «instance» => exact InstanceHandler.checks_validate
  | forget => exact ForgetHandler.checks_validate

theorem checks_permissionStage {t : MessageType} (h : t ≠ .post) :
    Checks ((handlerOf t).permissionStage message ctx) := by
  refine checks_ite (checks_pure _) ?_
  cases t with
  | post => exact absurd rfl h
  | store => exact StoreHandler.checks_checkPermissions
  | aggregate | program | «instance» | forget => exact checks_checkPermissions

theorem reads_permissionStage (t : MessageType) : Reads ((handlerOf t).permissionStage message ctx) := by
  by_cases h : t = .post
  · subst h
    exact reads_ite (moves_pure _) PostHandler.reads_checkPermissions
  · exact (checks_permissionStage h).moves

theorem checks_stage_checkBalance (t : MessageType) : Checks ((handlerOf t).checkBalance message ctx) := by
  cases t with
  | store => exact StoreHandler.checks_checkBalance
  | program => exact .bind (.fromExcept _) fun _ => VmCommon.checks_checkBalance _ _ _
  | «instance» => exact .bind (.fromExcept _) fun _ => VmCommon.checks_checkBalance _ _ _
  | aggregate | post | forget => exact checks_pure ()

/-- **An accepted message has passed the checks on the state it is processed in.** -/
theorem exec_processMessage_stages {n n' : Node} :
    Exec (processMessage message ctx) n .processed n' ↔
      Exec ((handlerOf message.messageType).validate message ctx).run n (.ok ()) n ∧
      Exec ((handlerOf message.messageType).permissionStage message ctx).run n (.ok ()) n ∧
      Exec ((handlerOf message.messageType).checkBalance message ctx).run n (.ok ()) n ∧
      Exec ((handlerOf message.messageType).process message ctx).run n (.ok ()) n' := by
  rw [exec_processMessage_processed, exec_run_ok]
  constructor
  · rintro ⟨n₁, n₂, n₃, h1, h2, h3, h4⟩
    obtain rfl := (checks_stage_validate _).unchanged h1
    obtain rfl := (reads_permissionStage _).exec h2
    obtain rfl := (checks_stage_checkBalance _).unchanged h3
    exact ⟨h1, h2, h3, h4⟩
  · rintro ⟨h1, h2, h3, h4⟩
    exact ⟨n, n, n, h1, h2, h3, h4⟩

end AlephCore
