import AlephCore.Handlers.Forget
import AlephCore.Handlers.Post
import AlephCore.Handlers.Vm

/-!
# Process — dispatch to the handler of a message type

Mirrors `process_message` of `handlers/mod.rs`.
-/

namespace AlephCore

open ProgE

/-- The handler of a message type. -/
def handlerOf : MessageType → MessageHandler
  | .aggregate => AggregateHandler.handler
  | .post => PostHandler.handler
  | .store => StoreHandler.handler
  | .program => ProgramHandler.handler
  | .instance => InstanceHandler.handler
  | .forget => ForgetHandler.handler

/-- Permissions are not checked for a trusted source. -/
def MessageHandler.permissionStage (h : MessageHandler) : HandlerStep := fun message ctx =>
  if ctx.trustedSource then pure () else h.checkPermissions message ctx

theorem exec_permissionStage_trusted {h : MessageHandler} {message : Message} {ctx : HandlerContext} {n : Node}
    (htrusted : ctx.trustedSource = true) : Prog.Exec (h.permissionStage message ctx).run n (.ok ()) n := by
  rw [MessageHandler.permissionStage, if_pos htrusted]
  exact exec_pure_ok.2 ⟨rfl, rfl⟩

/-- Validate, check permissions, check the balance, process. -/
def MessageHandler.run (h : MessageHandler) : HandlerStep := fun message ctx => do
  h.validate message ctx
  h.permissionStage message ctx
  h.checkBalance message ctx
  h.process message ctx

/-- Process a message using the appropriate handler; every error rejects it. -/
def processMessage (message : Message) (ctx : HandlerContext) : Prog Node DbError ProcessingStatus :=
  ((handlerOf message.messageType).run message ctx).run >>= fun
    | .ok () => .pure .processed
    | .error e => .pure e.toStatus

theorem exec_processMessage_processed {message : Message} {ctx : HandlerContext} {n n' : Node} :
    Prog.Exec (processMessage message ctx) n .processed n' ↔
      Prog.Exec ((handlerOf message.messageType).run message ctx).run n (.ok ()) n' := by
  unfold processMessage
  rw [Prog.exec_bind]
  constructor
  · rintro ⟨r, t, h1, h2⟩
    cases r with
    | ok u =>
      obtain ⟨-, rfl⟩ := Prog.exec_pure.1 h2
      exact h1
    | error e =>
      obtain ⟨h, -⟩ := Prog.exec_pure.1 h2
      exact absurd h (by simp [HandlerError.toStatus])
  · intro h
    exact ⟨.ok (), n', h, Prog.exec_pure.2 ⟨rfl, rfl⟩⟩

/-- A message that its handler finds invalid is rejected. -/
theorem exec_processMessage_invalid {message : Message} {ctx : HandlerContext} {n n' : Node} {e : HandlerError}
    (h : Prog.Exec ((handlerOf message.messageType).validate message ctx).run n (.error e) n') :
    Prog.Exec (processMessage message ctx) n (.rejected e.errorCode e.toString) n' :=
  Prog.exec_bind.2 ⟨.error e, n', exec_bind_error.2 (.inl h), Prog.exec_pure.2 ⟨rfl, rfl⟩⟩

/-- An accepted message passed all stages, one after another. -/
theorem exec_run_ok {h : MessageHandler} {message : Message} {ctx : HandlerContext} {n n' : Node} :
    Prog.Exec (h.run message ctx).run n (.ok ()) n' ↔
      ∃ n₁ n₂ n₃, Prog.Exec (h.validate message ctx).run n (.ok ()) n₁ ∧
        Prog.Exec (h.permissionStage message ctx).run n₁ (.ok ()) n₂ ∧
        Prog.Exec (h.checkBalance message ctx).run n₂ (.ok ()) n₃ ∧
        Prog.Exec (h.process message ctx).run n₃ (.ok ()) n' := by
  unfold MessageHandler.run
  rw [exec_bind_ok]
  constructor
  · rintro ⟨⟨⟩, n₁, h1, h2⟩
    obtain ⟨⟨⟩, n₂, h3, h4⟩ := exec_bind_ok.1 h2
    obtain ⟨⟨⟩, n₃, h5, h6⟩ := exec_bind_ok.1 h4
    exact ⟨n₁, n₂, n₃, h1, h3, h5, h6⟩
  · rintro ⟨n₁, n₂, n₃, h1, h3, h5, h6⟩
    exact ⟨(), n₁, h1, exec_bind_ok.2 ⟨(), n₂, h3, exec_bind_ok.2 ⟨(), n₃, h5, h6⟩⟩⟩

end AlephCore
