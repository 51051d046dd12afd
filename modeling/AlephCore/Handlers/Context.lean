import AlephCore.Permissions
import AlephCore.Services.Crypto

/-!
# Context — what the message handlers share

Mirrors the common part of `handlers/mod.rs`: errors and their codes, the context, the shape of a
handler and the default permission check.  The context always has a database and a crypto service and
never an IPFS service, as `create_handler_context` builds it.
-/

namespace AlephCore

open ProgE

/-- Detailed error codes for rejected messages. -/
inductive ErrorCode where
  | internalError | invalidFormat | invalidSignature | permissionDenied | contentUnavailable
  | fileUnavailable | balanceInsufficient | creditInsufficient | forgottenDuplicate
  deriving DecidableEq

def ErrorCode.asI32 : ErrorCode → Int
  | internalError => -1
  | invalidFormat => 0
  | invalidSignature => 1
  | permissionDenied => 2
  | contentUnavailable => 3
  | fileUnavailable => 4
  | balanceInsufficient => 5
  | creditInsufficient => 6
  | forgottenDuplicate => 504

/-- The errors of a handler. -/
inductive HandlerError where
  | invalidContent (e : String)
  | unauthorized
  | permissionDenied (e : String)
  | insufficientBalance
  | insufficientCredit
  | storage (e : String)
  | database (e : String)
  | contentNotFound (e : String)
  | targetNotFound (e : String)
  | notAllowed (e : String)
  | duplicate (e : String)
  | invalidSignature (e : String)
  deriving DecidableEq

namespace HandlerError

def toString : HandlerError → String
  | invalidContent e => s!"Invalid message content: {e}"
  | unauthorized => "Unauthorized sender"
  | permissionDenied e => s!"Permission denied: {e}"
  | insufficientBalance => "Insufficient balance"
  | insufficientCredit => "Insufficient credit"
  | storage e => s!"Storage error: {e}"
  | database e => s!"Database error: {e}"
  | contentNotFound e => s!"Content not found: {e}"
  | targetNotFound e => s!"Target not found: {e}"
  | notAllowed e => s!"Not allowed: {e}"
  | duplicate e => s!"Duplicate operation: {e}"
  | invalidSignature e => s!"Invalid signature: {e}"

/-- The code a message is rejected with. -/
def errorCode : HandlerError → ErrorCode
  | invalidContent _ => .invalidFormat
  | unauthorized => .permissionDenied
  | permissionDenied _ => .permissionDenied
  | insufficientBalance => .balanceInsufficient
  | insufficientCredit => .creditInsufficient
  | storage _ => .fileUnavailable
  | database _ => .internalError
  | contentNotFound _ => .contentUnavailable
  | targetNotFound _ => .contentUnavailable
  | notAllowed _ => .permissionDenied
  | duplicate _ => .forgottenDuplicate
  | invalidSignature _ => .invalidSignature

end HandlerError

/-- How the processing of a message ended. -/
inductive ProcessingStatus where
  | processed
  | rejected (errorCode : ErrorCode) (errorMessage : String)
  deriving DecidableEq

/-- Every handler error rejects the message. -/
def HandlerError.toStatus (e : HandlerError) : ProcessingStatus := .rejected e.errorCode e.toString

/-- The cost service, as far as the handlers call it. -/
structure CostService where
  calculateInstanceCosts : ItemHash → InstanceContent → List AccountCostRecord
  calculateProgramCosts : ItemHash → ProgramContent → List AccountCostRecord

/-- Context for message processing. -/
structure HandlerContext where
  env : Env
  order : SqlOrder
  /-- The clock. -/
  now : Timestamp
  cost : Option CostService
  /-- Whether this message comes from a trusted source (indexer): skip permission checks. -/
  trustedSource : Bool

/-- A context that knows no more than its environment. -/
def HandlerContext.ofEnv (env : Env) : HandlerContext := ⟨env, .stored, 0, none, false⟩

/-- A step of a handler. -/
abbrev HandlerStep := Message → HandlerContext → Db HandlerError Unit

/-- The stages of a message handler. -/
structure MessageHandler where
  validate : HandlerStep
  checkPermissions : HandlerStep
  checkBalance : HandlerStep
  process : HandlerStep

/-- A database operation inside a handler. -/
def db {α : Type} (p : Db DbError α) : Db HandlerError α := mapErr .database p

/-- The decoded content of a message. -/
def parseContent {α : Type} (env : Env) (d : Serde.Decode α) (errorText : String → String)
    (message : Message) : Except HandlerError α :=
  match message.itemContent with
  | none => .error (.invalidContent "Missing item_content")
  | some contentStr => (env.fromStr d contentStr).mapError fun e => .invalidContent (errorText e)

/-- The sender must be authorized by the security aggregate of `address`. -/
def requireAuthorization (message : Message) (address : Address) (ctx : HandlerContext) :
    Db HandlerError Unit :=
  if ctx.env.SameAddress message.sender address then pure ()
  else do
    let authorized ← db (Permissions.checkSenderAuthorization ctx.env message)
    if authorized then pure ()
    else throw (.permissionDenied
      s!"Sender {message.sender} is not authorized to post on behalf of {address}")

/-- Check if the message sender is authorized; a content without an address is not checked. -/
def checkPermissions : HandlerStep := fun message ctx =>
  match message.itemContent.bind fun s => ctx.env.contentStr? s "address" with
  | none => pure ()
  | some address => requireAuthorization message address ctx

/-- Free message types have no balance to check. -/
def checkNoBalance : HandlerStep := fun _ _ => pure ()

/-! ## Executions of a handler's operations that succeed -/

section Exec

open Prog

variable {α β : Type} {n n' : Node} {b : β}

@[simp] theorem exec_db_ok {p : Db DbError β} :
    Exec (db p).run n (.ok b) n' ↔ Exec p.run n (.ok b) n' := exec_mapErr_ok

@[simp] theorem exec_db_query_bind_ok {f : Node → α} {q : α → Db HandlerError β} :
    Exec (db (query f) >>= q).run n (.ok b) n' ↔ Exec (q (f n)).run n (.ok b) n' := by
  rw [exec_bind_ok]
  constructor
  · rintro ⟨a, t, h, hrest⟩
    obtain ⟨rfl, rfl⟩ := exec_query_ok.1 (exec_db_ok.1 h)
    exact hrest
  · exact fun h => ⟨f n, n, exec_db_ok.2 (exec_query_ok.2 ⟨rfl, rfl⟩), h⟩

@[simp] theorem exec_db_execute_bind_ok {f : Node → Node} {q : Unit → Db HandlerError β} :
    Exec (db (execute f) >>= q).run n (.ok b) n' ↔ Exec (q ()).run (f n) (.ok b) n' := by
  simp only [exec_bind_ok, exec_db_ok, exec_execute_ok, exists_eq_left]
  constructor
  · rintro ⟨_, h⟩
    exact h
  · intro h
    exact ⟨(), h⟩

@[simp] theorem exec_fromExcept_bind_ok {ε : Type} {r : Except ε α} {q : α → Db ε β} :
    Exec (fromExcept r >>= q).run n (.ok b) n' ↔ ∃ a, r = .ok a ∧ Exec (q a).run n (.ok b) n' := by
  rw [exec_bind_ok]
  constructor
  · rintro ⟨a, t, h, h'⟩
    obtain ⟨rfl, rfl⟩ := exec_fromExcept.1 h
    exact ⟨a, rfl, h'⟩
  · rintro ⟨a, rfl, h⟩
    exact ⟨a, n, exec_fromExcept.2 ⟨rfl, rfl⟩, h⟩

end Exec

theorem parseContent_ok {α : Type} {env : Env} {d : Serde.Decode α} {t : String → String}
    {m : Message} {c : α} :
    parseContent env d t m = .ok c ↔ ∃ s, m.itemContent = some s ∧ env.fromStr d s = .ok c := by
  unfold parseContent
  cases m.itemContent with
  | none => simp
  | some s =>
    cases h : env.fromStr d s with
    | ok a => simp [Except.mapError, h]
    | error e => simp [Except.mapError, h]

/-- The text of the errors does not matter to what is parsed. -/
theorem parseContent_text {α : Type} {env : Env} {d : Serde.Decode α} {t t' : String → String} {m : Message} {c : α}
    (h : parseContent env d t m = .ok c) : parseContent env d t' m = .ok c :=
  parseContent_ok.2 (parseContent_ok.1 h)

end AlephCore
