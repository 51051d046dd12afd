import AlephCore.Jobs.GcSafety
import AlephCore.Lib.Faults

/-!
# Repinning — a file that is stored again during its grace period

The typed upsert of a STORE message names `(item_hash, owner, pin_type)` as its conflict target, while the
primary key of `file_pins` is `(item_hash, owner)`.  A message that has passed its checks is processed, and
its file stays pinned, unless a pin of another type is in the way; a grace period pin of its owner always is.
-/

namespace AlephCore.StoreHandler

open ProgE Prog PgDatabase GarbageCollector

variable {message : Message} {ctx : HandlerContext} {content : StoreContent} {n : Node}

/-- A STORE message has passed `validate`, `check_permissions` and `check_balance`. -/
structure Checked (message : Message) (content : StoreContent) (ctx : HandlerContext) (n : Node) : Prop where
  isStore : message.messageType = .store
  parsed : parseContent ctx.env StoreContent.decode (fun e => e) message = .ok content
  validated : (validate message ctx).run.run n = (.ok (), n)
  permitted : (checkPermissions message ctx).run.run n = (.ok (), n)
  covered : (checkBalance message ctx).run.run n = (.ok (), n)

/-- The file has a grace period pin of the owner. -/
def InGrace (f : ItemHash) (owner : Address) (n : Node) : Prop :=
  ∃ p ∈ n.filePins, p.itemHash = f ∧ p.owner = owner ∧ p.pinType = .gracePeriod

/-- The message is processed and leaves a message pin, and its file stays pinned when expired grace period
pins are cleaned later on, wherever that pass ends. -/
def Repinned (message : Message) (content : StoreContent) (ctx : HandlerContext) (n : Node) : Prop :=
  ∃ n', (processMessage message ctx).run n = (.processed, n') ∧
    (∃ p ∈ n'.filePins, p.itemHash = content.itemHash ∧ p.owner = content.address ∧ p.pinType = .message) ∧
    ∀ gc n'', Reach (cleanExpiredGracePins gc).run n' n'' → ∃ p ∈ n''.filePins, p.itemHash = content.itemHash

/-! ## Processing a message that has passed its checks -/

/-- What is left of a checked message is its last stage. -/
theorem Checked.run_processMessage (h : Checked message content ctx n) {r : Except HandlerError Unit} {n' : Node}
    (hprocess : (process message ctx).run.run n = (r, n')) :
    (processMessage message ctx).run n =
      (match r with | .ok () => .processed | .error e => e.toStatus, n') := by
  have hstage : (handler.permissionStage message ctx).run.run n = (.ok (), n) := by
    unfold MessageHandler.permissionStage
    split_ifs
    · rfl
    · exact h.permitted
  have hrun : ((handlerOf message.messageType).run message ctx).run.run n = (r, n') := by
    rw [h.isStore]
    show ((handler).run message ctx).run.run n = (r, n')
    rw [MessageHandler.run, run_bind_ok (p := handler.validate message ctx) h.validated, run_bind_ok hstage,
      run_bind_ok (p := handler.checkBalance message ctx) h.covered]
    exact hprocess
  rw [processMessage, Prog.run_bind, hrun]
  cases r <;> rfl

/-- The node after the first statement. -/
def filed (content : StoreContent) (n : Node) : Node :=
  { n with
    files := n.files.upsert ⟨content.itemHash, asI64 (content.size.getD 0), .file⟩
      (fun f => { f with size := asI64 (content.size.getD 0), fileType := .file }) (refiled_hash content) }

theorem run_upsertFile (content : StoreContent) (n : Node) :
    (db (upsertFile content.itemHash (content.size.getD 0) .file)).run.run n = (.ok (), filed content n) := by
  rw [db, run_mapErr, upsertFile, run_execute]
  rfl

theorem run_insertPin_clash {pin : FilePinRecord} (f : FilePinRecord → FilePinRecord)
    (hf : ∀ p, ((f p).itemHash, (f p).owner) = (p.itemHash, p.owner)) (h : PinClash pin n) :
    (insertPin pin f hf).run.run n = (.error duplicateKey, n) := by
  rw [insertPin, run_sql]
  exact if_pos h

theorem run_insertPin_free {pin : FilePinRecord} (f : FilePinRecord → FilePinRecord)
    (hf : ∀ p, ((f p).itemHash, (f p).owner) = (p.itemHash, p.owner)) (h : ¬ PinClash pin n) :
    (insertPin pin f hf).run.run n = (.ok (), { n with filePins := n.filePins.upsert pin f hf }) := by
  rw [insertPin, run_sql]
  exact if_neg h

/-- The first insert breaks the primary key. -/
theorem run_process_clash (hparse : parseContent ctx.env StoreContent.decode (fun e => e) message = .ok content)
    (hclash : PinClash (pinOf message content ctx.now) n) :
    (process message ctx).run.run n = (.error (.database duplicateKey), filed content n) := by
  have hpin : ∀ pin, PinClash pin n → (db (insertFilePinTyped pin)).run.run (filed content n) =
      (.error (.database duplicateKey), filed content n) := by
    intro pin hclash
    rw [db, run_mapErr, insertFilePinTyped, run_insertPin_clash (n := filed content n) _ _ hclash]
    rfl
  unfold process
  rw [run_bind_ok (t := n) (a := content) (by rw [run_fromExcept, hparse]), run_bind_ok (run_upsertFile content n)]
  exact run_bind_error (hpin _ hclash)

theorem run_storeCosts (message : Message) (content : StoreContent) (n : Node) :
    (storeCosts message content).run.run n = (.ok (), { n with accountCosts := charged message content n }) := by
  unfold storeCosts charged
  cases content.payment with
  | none => rfl
  | some payment => rfl

/-- The statements after the first one. -/
theorem run_pinAndTag (message : Message) (content : StoreContent) (pin : FilePinRecord) (tag : FileTagRecord)
    (hclash : ¬ PinClash pin n) :
    (do
      db (insertFilePinTyped pin)
      db (upsertFileTag tag)
      storeCosts message content
      db (insertPinRaw pin) : Db HandlerError Unit).run.run n =
      (.ok (), { n with
        filePins := pinned pin n
        fileTagsV2 := n.fileTagsV2.upsert tag fun t =>
          { t with fileHash := tag.fileHash, lastUpdated := tag.lastUpdated }
        accountCosts := charged message content n }) := by
  have hpin : (db (insertFilePinTyped pin)).run.run n =
      (.ok (), { n with filePins := n.filePins.upsert pin (typedUpdate pin) }) := by
    rw [db, run_mapErr, insertFilePinTyped, run_insertPin_free _ _ hclash]
    rfl
  have htag : ∀ n : Node, (db (upsertFileTag tag)).run.run n = (.ok (), { n with
      fileTagsV2 := n.fileTagsV2.upsert tag fun t =>
        { t with fileHash := tag.fileHash, lastUpdated := tag.lastUpdated } }) := fun _ => rfl
  rw [run_bind_ok hpin, run_bind_ok (htag _), run_bind_ok (run_storeCosts message content _), db, run_mapErr,
    insertPinRaw, run_execute]
  rfl

/-- Without such a pin the message is recorded. -/
theorem run_process_free (hparse : parseContent ctx.env StoreContent.decode (fun e => e) message = .ok content)
    (hclash : ¬ PinClash (pinOf message content ctx.now) n) :
    (process message ctx).run.run n = (.ok (), recorded message content ctx n) := by
  unfold process
  rw [run_bind_ok (t := n) (a := content) (by rw [run_fromExcept, hparse]), run_bind_ok (run_upsertFile content n)]
  exact run_pinAndTag (n := filed content n) message content _ _ hclash

/-! ## When the file is pinned again -/

/-- Both inserts leave the pin. -/
theorem exists_pin_pinned {pin : FilePinRecord} (hclash : ¬ PinClash pin n) :
    ∃ p ∈ pinned pin n, p.itemHash = pin.itemHash ∧ p.owner = pin.owner ∧ p.pinType = pin.pinType := by
  have hfirst : ∃ p ∈ n.filePins.upsert pin (typedUpdate pin),
      (p.itemHash, p.owner) = (pin.itemHash, pin.owner) ∧ p.pinType = pin.pinType := by
    by_cases hex : ∃ s ∈ n.filePins, (s.itemHash, s.owner) = (pin.itemHash, pin.owner)
    · obtain ⟨s, hs, hkey⟩ := hex
      have htype : s.pinType = pin.pinType := by
        by_contra hne
        exact hclash ⟨s, hs, hkey, hne⟩
      exact ⟨typedUpdate pin s, Table.mem_upsert.2 (.inr (.inl ⟨s, hs, hkey, rfl⟩)), hkey, htype⟩
    · push Not at hex
      exact ⟨pin, Table.mem_upsert.2 (.inr (.inr ⟨rfl, hex⟩)), rfl, rfl⟩
  obtain ⟨p, hp, hkey, htype⟩ := hfirst
  obtain ⟨hhash, howner⟩ := Prod.mk.inj hkey
  exact ⟨rawUpdate pin p, Table.mem_upsert.2 (.inr (.inl ⟨p, hp, hkey, rfl⟩)), hhash, howner, htype⟩

/-- **A checked message pins its file again** exactly when no pin of another type is in the way. -/
theorem Checked.repinned_iff (h : Checked message content ctx n) :
    Repinned message content ctx n ↔ ¬ PinClash (pinOf message content ctx.now) n := by
  constructor
  · rintro ⟨n', hrun, -⟩ hclash
    rw [h.run_processMessage (run_process_clash h.parsed hclash)] at hrun
    cases hrun
  · intro hclash
    have hrun := h.run_processMessage (run_process_free h.parsed hclash)
    obtain ⟨p, hp, hhash, howner, htype⟩ := exists_pin_pinned hclash
    refine ⟨_, hrun, ⟨p, hp, hhash, howner, htype⟩, fun gc n'' hclean => ?_⟩
    have hactive : p.Active := fun hgrace => by
      rw [htype] at hgrace
      cases hgrace
    have hkept := cleanExpiredGracePins_kept (fun _ => ⟨p, hp, hhash, hactive⟩) hclean
    exact ⟨p, (hkept.pins p hhash hactive).2 hp, hhash⟩

theorem InGrace.pinClash (h : InGrace content.itemHash content.address n) :
    PinClash (pinOf message content ctx.now) n := by
  obtain ⟨p, hp, hhash, howner, htype⟩ := h
  refine ⟨p, hp, Prod.ext hhash howner, fun he => ?_⟩
  rw [htype] at he
  cases he

/-- **A file in its grace period is never pinned again by its owner**: the message is rejected with the
database's error, and the pins stay as they are. -/
theorem grace_not_repinned (h : Checked message content ctx n)
    (hgrace : InGrace content.itemHash content.address n) :
    ¬ Repinned message content ctx n ∧
      ∃ n', (processMessage message ctx).run n = ((HandlerError.database duplicateKey).toStatus, n') ∧
        n'.filePins = n.filePins :=
  ⟨fun hrepinned => h.repinned_iff.1 hrepinned hgrace.pinClash, _,
    h.run_processMessage (run_process_clash h.parsed hgrace.pinClash), rfl⟩

end AlephCore.StoreHandler

namespace AlephCore.MessageProcessor

open ProgE Prog ForgetHandler StoreHandler

/-! ### One file, stored, forgotten and stored again -/

section StoredAgain

/-- The node after the only STORE message of the file has been forgotten. -/
def forgottenOnce : Node :=
  stored fileCtx.env forgetFirst 1700000200
    (hashesForgotten forgetFirst (forgetContent firstHash) fileHandlerCtx [firstHash] storedOnce)

example : forgottenOnce.messages.rows.map MessageRow.itemHash = [forgetFirst.itemHash] := by decide +kernel

/-- The FORGET of the first STORE message is accepted by every node that holds that message. -/
theorem acceptedBy_forgetFirst {n : Node} (hstored : processedRow fileCtx.env firstStore 1700000200 ∈ n.messages)
    (hforgotten : ∀ q, q ∉ n.forgottenMessages) (hprograms : ∀ p, p ∉ n.programs) (hinstances : ∀ i, i ∉ n.instances) :
    AcceptedBy fileCtx forgetFirst n (stored fileCtx.env forgetFirst 1700000200
      (hashesForgotten forgetFirst (forgetContent firstHash) fileHandlerCtx [firstHash] n)) := by
  have hforgettable : Forgettable forgetFirst fileHandlerCtx n firstHash := by
    refine ⟨⟨processedRow fileCtx.env firstStore 1700000200, hstored, rfl, by decide, rfl⟩, ?_, ?_, ?_⟩
    · rintro ⟨q, hq, -⟩
      exact absurd hq (hforgotten q)
    · exact fun p hp => absurd hp (hprograms p)
    · exact fun i hi => absurd hi (hinstances i)
  have hacceptable : Acceptable forgetFirst fileHandlerCtx (forgetContent firstHash) n := by
    refine ⟨⟨_, rfl, fromStr_forgetFirst, .inl rfl⟩, List.cons_ne_nil _ _, by decide +kernel, ?_, .inl rfl⟩
    intro h hh
    rwa [List.mem_singleton.1 hh]
  exact acceptedBy_of_trusted _ rfl rfl (hacceptable.exec_processMessage rfl)

theorem acceptedBy_forgottenOnce : AcceptedBy fileCtx forgetFirst storedOnce forgottenOnce :=
  acceptedBy_forgetFirst (by decide +kernel) (fun _ hq => List.not_mem_nil hq) (fun _ hp => List.not_mem_nil hp)
    fun _ hi => List.not_mem_nil hi

theorem accepted_forgottenOnce : Accepted fileCtx.env forgetFirst storedOnce forgottenOnce :=
  accepted_iff.2 ⟨fileCtx, rfl, acceptedBy_forgottenOnce⟩

theorem inGrace_forgottenOnce : InGrace file fileOwner forgottenOnce := by
  have hpin : ∃ p ∈ forgottenOnce.filePins.rows,
      p.itemHash = file ∧ p.owner = fileOwner ∧ p.pinType = .gracePeriod := by decide +kernel
  exact hpin

/-- The second STORE message of the file passes its checks. -/
theorem checked_secondStore : Checked secondStore (storeContent 1700000001) fileHandlerCtx forgottenOnce := by
  have hparse : ∀ t : String → String, parseContent fileHandlerCtx.env StoreContent.decode t secondStore =
      .ok (storeContent 1700000001) := fun t => parseContent_ok.2 ⟨_, rfl, fromStr_secondStore⟩
  refine ⟨rfl, hparse _, ?_, ?_, ?_⟩
  · have hformat : validateItemTypeHash (storeContent 1700000001).itemType (storeContent 1700000001).itemHash =
        .ok () := by decide +kernel
    unfold StoreHandler.validate
    rw [run_bind_ok (t := forgottenOnce) (a := storeContent 1700000001) (by rw [run_fromExcept, hparse])]
    rw [if_neg (show (storeContent 1700000001).itemHash ≠ "" by decide +kernel)]
    rw [run_bind_ok (t := forgottenOnce) (a := ()) (by rw [run_fromExcept, hformat])]
    rfl
  · unfold StoreHandler.checkPermissions
    rw [run_bind_ok (t := forgottenOnce) (a := storeContent 1700000001) (by rw [run_fromExcept, hparse])]
    have hown : fileHandlerCtx.env.SameAddress secondStore.sender (storeContent 1700000001).address := rfl
    rw [requireAuthorization, if_pos hown]
    rfl
  · unfold checkBalance
    rw [run_bind_ok (t := forgottenOnce) (a := storeContent 1700000001) (by rw [run_fromExcept, hparse])]
    rfl

/-- A file is stored and forgotten by its owner, who cannot store it again during its grace period. -/
theorem secondStore_not_repinned :
    Accepted fileCtx.env firstStore .empty storedOnce ∧
      Accepted fileCtx.env forgetFirst storedOnce forgottenOnce ∧
      InGrace file fileOwner forgottenOnce ∧
      Checked secondStore (storeContent 1700000001) fileHandlerCtx forgottenOnce ∧
      ¬ Repinned secondStore (storeContent 1700000001) fileHandlerCtx forgottenOnce := by
  refine ⟨accepted_firstStore, accepted_forgottenOnce, inGrace_forgottenOnce, checked_secondStore, ?_⟩
  exact fun h => checked_secondStore.repinned_iff.1 h inGrace_forgottenOnce.pinClash

/-- The database's error is what it is rejected with. -/
theorem secondStore_rejected :
    ¬ Repinned secondStore (storeContent 1700000001) fileHandlerCtx forgottenOnce ∧
      ∃ n', (processMessage secondStore fileHandlerCtx).run forgottenOnce =
        ((HandlerError.database PgDatabase.duplicateKey).toStatus, n') ∧ n'.filePins = forgottenOnce.filePins :=
  grace_not_repinned checked_secondStore inGrace_forgottenOnce

end StoredAgain

end AlephCore.MessageProcessor
