import AlephCore.Handlers.StoreSpec
import AlephCore.Aggregates.Spec
import Mathlib.Data.List.Dedup

/-!
# ForgetSpec — what forgetting one hash does

Every operation of the FORGET handler that succeeds has one effect, given here as a function of the state:
`storeForgotten` and `pinsForgotten` for the pins, `cascaded` for what hangs on the message,
`derivedDeleted` for its derived rows, and `hashForgotten` for all of it.
-/

namespace AlephCore.ForgetHandler

open ProgE Prog PgDatabase

variable {n n' : Node} {u : Unit} {hash : ItemHash} {ctx : HandlerContext}

/-! ## The pins -/

theorem refreshed_tag (fileHash : ItemHash) (time : Timestamp) (t : FileTagRecord) :
    ({ t with fileHash, lastUpdated := time } : FileTagRecord).tag = t.tag := rfl

/-- The effect of `refreshFileTag`. -/
def tagRefreshed (order : SqlOrder) (tag : String) (owner : Address) (n : Node) : Node :=
  match newestPin order owner n with
  | some (fileHash, time) => { n with
      fileTagsV2 := n.fileTagsV2.update (·.tag = tag) (fun t => { t with fileHash, lastUpdated := time })
        (refreshed_tag fileHash time) }
  | none => { n with fileTagsV2 := n.fileTagsV2.delete (·.tag = tag) }

theorem exec_refreshFileTag_ok {order : SqlOrder} {tag : String} {owner : Address} :
    Exec (refreshFileTag order tag owner).run n (.ok u) n' ↔ n' = tagRefreshed order tag owner n := by
  unfold refreshFileTag tagRefreshed
  rw [exec_bind_ok]
  simp only [exec_query_ok, ↓existsAndEq, true_and]
  cases newestPin order owner n <;> simp

/-- The pin that keeps a file for the grace period. -/
def gracePin (now : Timestamp) (fileHash : ItemHash) (owner : Address) : FilePinRecord :=
  { itemHash := fileHash, owner, size := 0, contentType := none, pinType := .gracePeriod, ref_ := none,
    deleteBy := some (now + gracePeriod), messageHash := none, createdAt := now }

/-- The pins after a grace period pin has been inserted. -/
def graced (now : Timestamp) (fileHash : ItemHash) (owner : Address) (n : Node) : Node :=
  { n with
    filePins := n.filePins.upsert (gracePin now fileHash owner) fun p =>
      { p with deleteBy := some (now + gracePeriod) } }

/-- The pins of the STORE message are gone and the tag is refreshed. -/
def storeReleased (hash : ItemHash) (address : Address) (target : Message) (ctx : HandlerContext) (n : Node) :
    Node :=
  let (fileHash, ref_) := storeTarget ctx.env hash target
  tagRefreshed ctx.order (StoreHandler.makeFileTag ctx.env address ref_ fileHash) address
    { n with filePins := n.filePins.delete (·.messageHash = some hash) }

/-- Some active pin of the file is left. -/
def HasActivePin (n : Node) (fileHash : ItemHash) : Prop :=
  ∃ p ∈ n.filePins, p.itemHash = fileHash ∧ p.Active

instance (n : Node) (fileHash : ItemHash) : Decidable (HasActivePin n fileHash) :=
  inferInstanceAs (Decidable (∃ p ∈ n.filePins.rows, _))

theorem countActivePins_eq_zero {fileHash : ItemHash} :
    (n.filePins.rows.countP fun p => decide (p.itemHash = fileHash ∧ p.Active)) = 0 ↔
      ¬ HasActivePin n fileHash := by
  rw [List.countP_eq_zero]
  constructor
  · rintro h ⟨p, hp, hactive⟩
    exact h p hp (decide_eq_true hactive)
  · intro h p hp hactive
    exact h ⟨p, hp, of_decide_eq_true hactive⟩

/-- The effect of `processStoreForget`. -/
def storeForgotten (hash : ItemHash) (address : Address) (target : Message) (ctx : HandlerContext)
    (n : Node) : Node :=
  let released := storeReleased hash address target ctx n
  let fileHash := (storeTarget ctx.env hash target).1
  if HasActivePin released fileHash then released else graced ctx.now fileHash address released

/-- A grace period pin never meets an active one. -/
theorem not_pinClash_gracePin {fileHash : ItemHash} {owner : Address} (h : ¬ HasActivePin n fileHash) :
    ¬ PinClash (gracePin ctx.now fileHash owner) n := by
  rintro ⟨p, hp, hkey, htype⟩
  exact h ⟨p, hp, congrArg Prod.fst hkey, htype⟩

theorem exec_processStoreForget_ok {address : Address} {target : Message} :
    Exec (processStoreForget hash address target ctx).run n (.ok u) n' ↔
      n' = storeForgotten hash address target ctx n := by
  have hend : ∀ {n : Node} {fileHash : ItemHash}, Exec (do
      let activePins ← db (countActivePins fileHash)
      if activePins = 0 then
        db (insertGracePeriodPin ctx.now fileHash address (ctx.now + gracePeriod))
      else pure ()).run n (.ok u) n' ↔
        n' = if HasActivePin n fileHash then n else graced ctx.now fileHash address n := by
    intro n fileHash
    rw [countActivePins, exec_db_query_bind_ok]
    by_cases hactive : HasActivePin n fileHash
    · rw [if_neg (countActivePins_eq_zero.not.2 (not_not.2 hactive)), if_pos hactive]
      simp
    · rw [if_pos (countActivePins_eq_zero.2 hactive), if_neg hactive, exec_db_ok, insertGracePeriodPin,
        exec_insertPin_ok]
      exact and_iff_right (not_pinClash_gracePin hactive)
  unfold processStoreForget
  rw [deleteFilePinByMessage, exec_db_execute_bind_ok, exec_bind_ok]
  simp only [exec_db_ok, exec_refreshFileTag_ok]
  constructor
  · rintro ⟨_, n₁, rfl, h⟩
    exact hend.1 h
  · intro h
    exact ⟨(), _, rfl, hend.2 h⟩

/-- The effect of `forgetPins`. -/
def pinsForgotten (hash : ItemHash) (address : Address) (target : Message) (ctx : HandlerContext)
    (n : Node) : Node :=
  if target.messageType = .store then storeForgotten hash address target ctx n
  else { n with filePins := n.filePins.delete (·.itemHash = hash) }

theorem exec_forgetPins_ok {address : Address} {target : Message} :
    Exec (forgetPins hash address target ctx).run n (.ok u) n' ↔
      n' = pinsForgotten hash address target ctx n := by
  unfold forgetPins pinsForgotten
  split_ifs
  · exact exec_processStoreForget_ok
  · exact exec_db_ok.trans exec_execute_ok

/-! ## What hangs on the message -/

/-- The effect of `forgetAmend`. -/
def amendForgotten (hash : ItemHash) (n : Node) (amendHash : ItemHash) : Node :=
  { n with
    forgottenMessages := n.forgottenMessages.insertNew ⟨amendHash, hash, some "parent post forgotten"⟩
    posts := n.posts.delete (·.itemHash = amendHash)
    chainTxs := n.chainTxs.delete (·.itemHash = amendHash)
    messages := n.messages.delete (·.itemHash = amendHash) }

theorem exec_forgetAmend_ok {amendHash : ItemHash} :
    Exec (forgetAmend hash amendHash).run n (.ok u) n' ↔ n' = amendForgotten hash n amendHash := by
  unfold forgetAmend
  rw [markForgotten, exec_db_execute_bind_ok, exec_bind_ok]
  simp only [exec_db_ok, deleteDerivedData, deleteDerivedRows, deleteChainTxs, deleteMessage, exec_bind_ok,
    exec_execute_ok, amendForgotten]
  constructor
  · rintro ⟨_, _, ⟨_, _, rfl, rfl⟩, rfl⟩
    rfl
  · rintro rfl
    exact ⟨(), _, ⟨(), _, rfl, rfl⟩, rfl⟩

/-- The amends of a post. -/
def amendsOf (hash : ItemHash) (n : Node) : List ItemHash :=
  (n.posts.rows.filter (·.originalItemHash = some hash)).map PostRecord.itemHash

/-- Forgetting a list of amends. -/
def amendsForgotten (hash : ItemHash) (amends : List ItemHash) (n : Node) : Node :=
  amends.foldl (amendForgotten hash) n

theorem exec_forgetAmends_ok {amends : List ItemHash} :
    Exec (forEach (forgetAmend hash) amends).run n (.ok u) n' ↔ n' = amendsForgotten hash amends n := by
  induction amends generalizing n with
  | nil => simp [forEach, amendsForgotten]
  | cons a amends ih =>
    unfold forEach
    rw [exec_bind_ok]
    simp only [exec_forgetAmend_ok, ih, amendsForgotten, List.foldl_cons]
    constructor
    · rintro ⟨_, _, rfl, h⟩
      exact h
    · intro h
      exact ⟨(), _, rfl, h⟩

/-- The aggregate of an element. -/
def aggregateOf (order : SqlOrder) (hash : ItemHash) (n : Node) : Option (Address × String) :=
  ((order.scan n.aggregateElements).find? fun e => decide (e.itemHash = hash)).map fun e =>
    (e.address, e.key)

/-- The elements without those of the hash. -/
def elementDeleted (hash : ItemHash) (n : Node) : Node :=
  { n with aggregateElements := n.aggregateElements.filter (·.itemHash ≠ hash) }

/-- An aggregate without elements is deleted, any other one is rebuilt. -/
def aggregateRefreshed (address : Address) (key : String) (n : Node) : Node :=
  if (AggregateHandler.elementsOf address key n).length = 0 then
    { n with aggregates := n.aggregates.delete fun r => (r.address, r.key) = (address, key) }
  else AggregateHandler.rebuild address key n

/-- The effect of `forgetElement`. -/
def elementForgotten (hash : ItemHash) (ctx : HandlerContext) (n : Node) : Node :=
  match aggregateOf ctx.order hash n with
  | none => elementDeleted hash n
  | some (address, key) => aggregateRefreshed address key (elementDeleted hash n)

theorem exec_refreshAggregate_ok {address : Address} {key : String} :
    Exec (do
      let remaining ← db (AggregateHandler.countElements address key)
      if remaining = 0 then db (deleteAggregate address key)
      else AggregateHandler.rebuildAggregateFromElements address key).run n (.ok u) n' ↔
        n' = aggregateRefreshed address key n := by
  rw [AggregateHandler.countElements, exec_db_query_bind_ok]
  unfold aggregateRefreshed
  split_ifs
  · exact exec_db_ok.trans exec_execute_ok
  · exact AggregateHandler.exec_rebuild_ok

theorem exec_forgetElement_ok :
    Exec (forgetElement hash ctx).run n (.ok u) n' ↔ n' = elementForgotten hash ctx n := by
  unfold forgetElement elementForgotten
  rw [elementAggregate, exec_db_query_bind_ok, deleteElement, exec_db_execute_bind_ok, aggregateOf]
  cases ((ctx.order.scan n.aggregateElements).find? fun e => decide (e.itemHash = hash)) with
  | none => simp [elementDeleted]
  | some e => exact exec_refreshAggregate_ok

/-- The VMs without those that replace the given one, and its costs. -/
def vmUpdatesDeleted (hash : ItemHash) (n : Node) : Node :=
  { n with
    instances := n.instances.delete (·.replaces = some hash)
    programs := n.programs.delete (·.replaces = some hash)
    accountCosts := n.accountCosts.delete (·.itemHash = hash) }

/-- The effect of `cascadeForget`. -/
def cascaded (hash : ItemHash) (messageType : MessageType) (ctx : HandlerContext) (n : Node) : Node :=
  match messageType with
  | .post => amendsForgotten hash (amendsOf hash n) n
  | .aggregate => elementForgotten hash ctx n
  | .program | .instance => vmUpdatesDeleted hash n
  | .store | .forget => n

theorem exec_cascadeForget_ok {messageType : MessageType} :
    Exec (cascadeForget hash messageType ctx).run n (.ok u) n' ↔ n' = cascaded hash messageType ctx n := by
  have hvm : Exec (do
      let _ ← db (deleteVmUpdates hash)
      db (deleteAccountCosts hash)).run n (.ok u) n' ↔ n' = vmUpdatesDeleted hash n := by
    simp only [exec_bind_ok, exec_db_ok, deleteVmUpdates, deleteAccountCosts, exec_execute_ok, exec_sql_ok,
      exec_pure_ok, Prod.mk.injEq]
    constructor
    · rintro ⟨_, _, ⟨_, _, ⟨_, rfl⟩, _, _, ⟨_, rfl⟩, _, rfl⟩, rfl⟩
      rfl
    · rintro rfl
      exact ⟨_, _, ⟨_, _, ⟨rfl, rfl⟩, _, _, ⟨rfl, rfl⟩, rfl, rfl⟩, rfl⟩
  cases messageType with
  | post =>
    unfold cascadeForget
    rw [amendHashes, exec_db_query_bind_ok]
    exact exec_forgetAmends_ok
  | aggregate => exact exec_forgetElement_ok
  | program => exact hvm
  | «instance» => exact hvm
  | store => simp [cascadeForget, cascaded]
  | forget => simp [cascadeForget, cascaded]

/-! ## The derived rows -/

/-- What goes with the row of a VM. -/
def vmDataDeleted (hash : ItemHash) (n : Node) : Node :=
  { n with
    vmMachineVolumes := n.vmMachineVolumes.filter (·.vmHash ≠ hash)
    vmVersions := n.vmVersions.delete (·.vmHash = hash)
    accountCosts := n.accountCosts.delete (·.itemHash = hash) }

/-- The effect of `deleteDerivedRows`. -/
def derivedRowsDeleted (hash : ItemHash) (messageType : MessageType) (n : Node) : Node :=
  match messageType with
  | .post => { n with posts := n.posts.delete (·.itemHash = hash) }
  | .aggregate => elementDeleted hash n
  | .program => { vmDataDeleted hash n with programs := n.programs.delete (·.itemHash = hash) }
  | .instance => { vmDataDeleted hash n with instances := n.instances.delete (·.itemHash = hash) }
  | .store | .forget => n

theorem exec_deleteDerivedRows_ok {messageType : MessageType} :
    Exec (deleteDerivedRows hash messageType).run n (.ok u) n' ↔
      n' = derivedRowsDeleted hash messageType n := by
  cases messageType with
  | post => simp [deleteDerivedRows, derivedRowsDeleted]
  | aggregate => simp [deleteDerivedRows, derivedRowsDeleted, elementDeleted]
  | store => simp [deleteDerivedRows, derivedRowsDeleted]
  | forget => simp [deleteDerivedRows, derivedRowsDeleted]
  | program | «instance» =>
    simp only [deleteDerivedRows, deleteVolumes, deleteVmVersion, deleteAccountCosts, exec_bind_ok,
      exec_execute_ok]
    constructor
    · rintro ⟨_, _, rfl, _, _, rfl, _, _, rfl, rfl⟩
      rfl
    · rintro rfl
      exact ⟨(), _, rfl, (), _, rfl, (), _, rfl, rfl⟩

/-- The effect of `deleteDerivedData`. -/
def derivedDeleted (hash : ItemHash) (messageType : MessageType) (n : Node) : Node :=
  { derivedRowsDeleted hash messageType n with chainTxs := n.chainTxs.delete (·.itemHash = hash) }

theorem derivedRowsDeleted_chainTxs (hash : ItemHash) (messageType : MessageType) (n : Node) :
    (derivedRowsDeleted hash messageType n).chainTxs = n.chainTxs := by
  cases messageType <;> rfl

theorem exec_deleteDerivedData_ok {messageType : MessageType} :
    Exec (deleteDerivedData hash messageType).run n (.ok u) n' ↔ n' = derivedDeleted hash messageType n := by
  unfold deleteDerivedData derivedDeleted
  rw [exec_bind_ok]
  simp only [exec_deleteDerivedRows_ok, deleteChainTxs, exec_execute_ok]
  constructor
  · rintro ⟨_, _, rfl, rfl⟩
    rw [derivedRowsDeleted_chainTxs]
  · rintro rfl
    exact ⟨(), _, rfl, by rw [derivedRowsDeleted_chainTxs]⟩

/-! ## One hash -/

/-- The hash is marked. -/
def marked (hash forgetHash : ItemHash) (reason : Option String) (n : Node) : Node :=
  { n with forgottenMessages := n.forgottenMessages.insertNew ⟨hash, forgetHash, reason⟩ }

/-- The effect of `forgetTarget`. -/
def targetForgotten (hash : ItemHash) (address : Address) (target : Option Message) (ctx : HandlerContext)
    (n : Node) : Node :=
  match target with
  | some target => derivedDeleted hash target.messageType
      (cascaded hash target.messageType ctx (pinsForgotten hash address target ctx n))
  | none => { n with filePins := n.filePins.delete (·.itemHash = hash) }

theorem exec_forgetTarget_ok {address : Address} {target : Option Message} :
    Exec (forgetTarget hash address target ctx).run n (.ok u) n' ↔
      n' = targetForgotten hash address target ctx n := by
  cases target with
  | none => exact exec_db_ok.trans exec_execute_ok
  | some target =>
    unfold forgetTarget forgetMessage
    simp only [exec_bind_ok, exec_forgetPins_ok, exec_cascadeForget_ok, exec_db_ok, exec_deleteDerivedData_ok]
    constructor
    · rintro ⟨_, _, rfl, _, _, rfl, rfl⟩
      rfl
    · rintro rfl
      exact ⟨(), _, rfl, (), _, rfl, rfl⟩

/-- The message of the hash is gone. -/
def messageDeleted (hash : ItemHash) (n : Node) : Node :=
  { n with messages := n.messages.delete (·.itemHash = hash) }

/-- The effect of `forgetHash`. -/
def hashForgotten (message : Message) (content : ForgetContent) (ctx : HandlerContext) (n : Node)
    (hash : ItemHash) : Node :=
  messageDeleted hash (targetForgotten hash content.address
    ((n.messages.find? hash).map MessageRow.message) ctx (marked hash message.itemHash content.reason n))

/-- **Forgetting one hash** has the effect `hashForgotten`. -/
theorem exec_forgetHash_ok {message : Message} {content : ForgetContent} :
    Exec (forgetHash message content ctx hash).run n (.ok u) n' ↔
      n' = hashForgotten message content ctx n hash := by
  unfold forgetHash
  rw [getMessage, exec_db_query_bind_ok, markForgotten, exec_db_execute_bind_ok, exec_bind_ok]
  simp only [exec_forgetTarget_ok, exec_db_ok, deleteMessage, exec_execute_ok]
  constructor
  · rintro ⟨_, _, rfl, rfl⟩
    rfl
  · rintro rfl
    exact ⟨(), _, rfl, rfl⟩

/-- The effect of forgetting the listed hashes. -/
def hashesForgotten (message : Message) (content : ForgetContent) (ctx : HandlerContext)
    (hashes : List ItemHash) (n : Node) : Node :=
  hashes.foldl (hashForgotten message content ctx) n

theorem exec_forgetHashes_ok {message : Message} {content : ForgetContent} {hashes : List ItemHash} :
    Exec (forEach (forgetHash message content ctx) hashes).run n (.ok u) n' ↔
      n' = hashesForgotten message content ctx hashes n := by
  induction hashes generalizing n with
  | nil => simp [forEach, hashesForgotten]
  | cons hash hashes ih =>
    unfold forEach
    rw [exec_bind_ok]
    simp only [exec_forgetHash_ok, ih]
    constructor
    · rintro ⟨_, _, rfl, h⟩
      exact h
    · intro h
      exact ⟨(), _, rfl, h⟩

/-- **Processing a FORGET message** forgets the listed hashes one after another. -/
theorem exec_process_ok {message : Message} :
    Exec (process message ctx).run n (.ok u) n' ↔
      ∃ content, parseContent ctx.env ForgetContent.decode (fun e => e) message = .ok content ∧
        n' = hashesForgotten message content ctx content.hashes n := by
  unfold process
  rw [exec_fromExcept_bind_ok]
  exact exists_congr fun content => and_congr_right fun _ => exec_forgetHashes_ok

/-! ## What is left after one hash -/

/-- The type of the message that is stored under the hash. -/
def targetType (n : Node) (hash : ItemHash) : Option MessageType :=
  (n.messages.find? hash).map MessageRow.messageType

/-- The amends that are forgotten with the hash. -/
def cascadedAmends (n : Node) (hash : ItemHash) : List ItemHash :=
  if targetType n hash = some .post then amendsOf hash n else []

/-- The hash is marked as forgotten. -/
def Forgotten (n : Node) (hash : ItemHash) : Prop := ∃ r ∈ n.forgottenMessages, r.itemHash = hash

instance (n : Node) (hash : ItemHash) : Decidable (Forgotten n hash) :=
  inferInstanceAs (Decidable (∃ r ∈ n.forgottenMessages.rows, r.itemHash = hash))

theorem forgotten_insertNew {x : ItemHash} {r : ForgottenRow} :
    (∃ q ∈ n.forgottenMessages.insertNew r, q.itemHash = x) ↔ Forgotten n x ∨ x = r.itemHash :=
  (Table.exists_key_insertNew (P := fun k => k = x)).trans (or_congr_right eq_comm)

theorem tagRefreshed_eq (order : SqlOrder) (tag : String) (owner : Address) (n : Node) :
    ∃ ts, tagRefreshed order tag owner n = { n with fileTagsV2 := ts } := by
  unfold tagRefreshed
  cases newestPin order owner n <;> exact ⟨_, rfl⟩

/-- The pins and tags are all that `pinsForgotten` touches. -/
theorem pinsForgotten_eq (hash : ItemHash) (address : Address) (target : Message) (ctx : HandlerContext)
    (n : Node) :
    ∃ ps ts, pinsForgotten hash address target ctx n = { n with filePins := ps, fileTagsV2 := ts } := by
  unfold pinsForgotten storeForgotten storeReleased
  obtain ⟨ts, hts⟩ := tagRefreshed_eq ctx.order (StoreHandler.makeFileTag ctx.env address
    (storeTarget ctx.env hash target).2 (storeTarget ctx.env hash target).1) address
    { n with filePins := n.filePins.delete (·.messageHash = some hash) }
  simp only [hts]
  split_ifs
  · exact ⟨_, _, rfl⟩
  · exact ⟨_, _, rfl⟩
  · exact ⟨_, n.fileTagsV2, rfl⟩

theorem aggregateRefreshed_eq (address : Address) (key : String) (n : Node) :
    ∃ as, aggregateRefreshed address key n = { n with aggregates := as } := by
  unfold aggregateRefreshed AggregateHandler.rebuild AggregateHandler.writeAggregate
  split_ifs <;> exact ⟨_, rfl⟩

/-- The elements of the hash and aggregates are all that `elementForgotten` touches. -/
theorem elementForgotten_eq (hash : ItemHash) (ctx : HandlerContext) (n : Node) :
    ∃ as, elementForgotten hash ctx n = { elementDeleted hash n with aggregates := as } := by
  unfold elementForgotten
  split
  · exact ⟨_, rfl⟩
  · exact aggregateRefreshed_eq _ _ _

/-- What forgetting amends leaves. -/
structure AmendsGone (amends : List ItemHash) (n n' : Node) : Prop where
  messages : ∀ r, r ∈ n'.messages ↔ r ∈ n.messages ∧ r.itemHash ∉ amends
  posts : ∀ p, p ∈ n'.posts ↔ p ∈ n.posts ∧ p.itemHash ∉ amends
  forgotten : ∀ x, Forgotten n' x ↔ Forgotten n x ∨ x ∈ amends
  rest : ∃ ms ps fs ts, n' = { n with messages := ms, posts := ps, forgottenMessages := fs, chainTxs := ts }

theorem amendsForgotten_gone (hash : ItemHash) (amends : List ItemHash) (n : Node) :
    AmendsGone amends n (amendsForgotten hash amends n) := by
  induction amends generalizing n with
  | nil => exact ⟨by simp [amendsForgotten], by simp [amendsForgotten], by simp [amendsForgotten], _, _, _, _, rfl⟩
  | cons a amends ih =>
    have h := ih (amendForgotten hash n a)
    have hf : ∀ x, Forgotten (amendForgotten hash n a) x ↔ Forgotten n x ∨ x = a := fun x => forgotten_insertNew
    refine ⟨fun r => ?_, fun p => ?_, fun x => ?_, ?_⟩
    · rw [amendsForgotten, List.foldl_cons]
      refine (h.messages r).trans ?_
      simp only [amendForgotten, Table.mem_delete, List.mem_cons, not_or, and_assoc]
    · rw [amendsForgotten, List.foldl_cons]
      refine (h.posts p).trans ?_
      simp only [amendForgotten, Table.mem_delete, List.mem_cons, not_or, and_assoc]
    · rw [amendsForgotten, List.foldl_cons]
      refine (h.forgotten x).trans ?_
      rw [hf, List.mem_cons, or_assoc]
    · obtain ⟨ms, ps, fs, ts, he⟩ := h.rest
      rw [amendsForgotten, List.foldl_cons]
      exact ⟨ms, ps, fs, ts, he⟩

/-- The message type is that of a virtual machine. -/
def IsVm (t : Option MessageType) : Prop := t = some .program ∨ t = some .instance

/-- What forgetting a hash leaves in the tables of messages and of derived data. -/
structure HashGone (hash : ItemHash) (n n' : Node) : Prop where
  forgotten : ∀ x, Forgotten n' x ↔ Forgotten n x ∨ x = hash ∨ x ∈ cascadedAmends n hash
  messages : ∀ r, r ∈ n'.messages ↔ r ∈ n.messages ∧ r.itemHash ≠ hash ∧ r.itemHash ∉ cascadedAmends n hash
  posts : ∀ p, p ∈ n'.posts ↔ p ∈ n.posts ∧ p.itemHash ∉ cascadedAmends n hash ∧
    ¬ (targetType n hash = some .post ∧ p.itemHash = hash)
  elements : ∀ e, e ∈ n'.aggregateElements ↔ e ∈ n.aggregateElements ∧
    ¬ (targetType n hash = some .aggregate ∧ e.itemHash = hash)
  programs : ∀ p, p ∈ n'.programs ↔ p ∈ n.programs ∧ ¬ (IsVm (targetType n hash) ∧ p.replaces = some hash) ∧
    ¬ (targetType n hash = some .program ∧ p.itemHash = hash)
  instances : ∀ i, i ∈ n'.instances ↔ i ∈ n.instances ∧ ¬ (IsVm (targetType n hash) ∧ i.replaces = some hash) ∧
    ¬ (targetType n hash = some .instance ∧ i.itemHash = hash)

/-- **Forgetting a hash** removes its message, the amends and virtual machines that hang on it, and its row
in the table of the message's type. -/
theorem hashForgotten_gone (message : Message) (content : ForgetContent) (ctx : HandlerContext) (n : Node)
    (hash : ItemHash) :
    HashGone hash n (hashForgotten message content ctx n hash) := by
  have hmarked : ∀ x, Forgotten (marked hash message.itemHash content.reason n) x ↔ Forgotten n x ∨ x = hash :=
    fun x => forgotten_insertNew
  cases hrow : n.messages.find? hash with
  | none =>
    have htype : targetType n hash = none := by rw [targetType, hrow]; rfl
    have hamends : cascadedAmends n hash = [] := by rw [cascadedAmends, htype]; rfl
    rw [hashForgotten, hrow]
    refine ⟨fun x => (hmarked x).trans ?_, fun r => Table.mem_delete.trans ?_, fun p => ?_, fun e => ?_,
      fun p => ?_, fun i => ?_⟩ <;> simp [htype, hamends, IsVm, targetForgotten, marked, messageDeleted]
  | some row =>
    have htype : targetType n hash = some row.messageType := by rw [targetType, hrow]; rfl
    obtain ⟨ps, ts, hpins⟩ := pinsForgotten_eq hash content.address row.message ctx
      (marked hash message.itemHash content.reason n)
    rw [hashForgotten, hrow, Option.map_some, targetForgotten, hpins]
    change HashGone hash n (messageDeleted hash (derivedDeleted hash row.messageType
      (cascaded hash row.messageType ctx _)))
    cases ht : row.messageType with
    | post =>
      rw [ht] at htype
      have hamends : cascadedAmends n hash = amendsOf hash n := if_pos htype
      have hgone := amendsForgotten_gone hash (amendsOf hash n)
        { marked hash message.itemHash content.reason n with filePins := ps, fileTagsV2 := ts }
      obtain ⟨ms, qs, fs, cs, hrest⟩ := hgone.rest
      refine ⟨fun x => (hgone.forgotten x).trans ?_, fun r => Table.mem_delete.trans ?_,
        fun p => Table.mem_delete.trans ?_, fun e => ?_, fun p => ?_, fun i => ?_⟩
      · rw [hamends, ← or_assoc]
        exact or_congr_left (hmarked x)
      · rw [hamends]
        exact (and_congr_left fun _ => hgone.messages r).trans (by simp only [marked]; tauto)
      · rw [hamends]
        exact (and_congr_left fun _ => hgone.posts p).trans (by simp only [marked, htype]; tauto)
      · have he := congrArg Node.aggregateElements hrest
        refine (iff_of_eq (congrArg (e ∈ ·) he)).trans ?_
        simp [htype, marked]
      · have he := congrArg Node.programs hrest
        refine (iff_of_eq (congrArg (p ∈ ·) he)).trans ?_
        simp [htype, marked, IsVm]
      · have he := congrArg Node.instances hrest
        refine (iff_of_eq (congrArg (i ∈ ·) he)).trans ?_
        simp [htype, marked, IsVm]
    | aggregate =>
      rw [ht] at htype
      have hamends : cascadedAmends n hash = [] := by rw [cascadedAmends, htype]; rfl
      obtain ⟨as, has⟩ := elementForgotten_eq hash ctx
        { marked hash message.itemHash content.reason n with filePins := ps, fileTagsV2 := ts }
      rw [cascaded, has]
      refine ⟨fun x => (hmarked x).trans ?_, fun r => Table.mem_delete.trans ?_, fun p => ?_, fun e => ?_,
        fun p => ?_, fun i => ?_⟩ <;>
        simp [htype, hamends, IsVm, derivedDeleted, derivedRowsDeleted, elementDeleted, marked, messageDeleted]
    | program | «instance» =>
      rw [ht] at htype
      have hamends : cascadedAmends n hash = [] := by rw [cascadedAmends, htype]; rfl
      refine ⟨fun x => (hmarked x).trans ?_, fun r => Table.mem_delete.trans ?_, fun p => ?_, fun e => ?_,
        fun p => ?_, fun i => ?_⟩ <;>
        simp [htype, hamends, IsVm, cascaded, vmUpdatesDeleted, vmDataDeleted, derivedDeleted, derivedRowsDeleted,
          marked, messageDeleted, and_assoc]
    | store | forget =>
      rw [ht] at htype
      have hamends : cascadedAmends n hash = [] := by rw [cascadedAmends, htype]; rfl
      refine ⟨fun x => (hmarked x).trans ?_, fun r => Table.mem_delete.trans ?_, fun p => ?_, fun e => ?_,
        fun p => ?_, fun i => ?_⟩ <;>
        simp [htype, hamends, IsVm, cascaded, derivedDeleted, derivedRowsDeleted, marked, messageDeleted]

/-! ## What is left of the pins -/

/-- A pin goes with the hash: as the pin of that STORE message, else as a pin of a file of that hash. -/
def Dropped (n : Node) (hash : ItemHash) (p : FilePinRecord) : Prop :=
  if targetType n hash = some .store then p.messageHash = some hash else p.itemHash = hash

/-- What forgetting a hash for `address` leaves of the pins. -/
structure PinsDropped (hash : ItemHash) (address : Address) (n n' : Node) : Prop where
  active : ∀ p : FilePinRecord, p.Active → (p ∈ n'.filePins ↔ p ∈ n.filePins ∧ ¬ Dropped n hash p)
  grace : ∀ p ∈ n'.filePins, ¬ p.Active → p ∈ n.filePins ∨ ¬ HasActivePin n' p.itemHash
  others : ∀ p ∈ n.filePins, ¬ Dropped n hash p → p.owner ≠ address → p ∈ n'.filePins

theorem storeReleased_filePins (hash : ItemHash) (address : Address) (target : Message) :
    (storeReleased hash address target ctx n).filePins = n.filePins.delete (·.messageHash = some hash) := by
  obtain ⟨ts, hts⟩ := tagRefreshed_eq ctx.order (StoreHandler.makeFileTag ctx.env address
    (storeTarget ctx.env hash target).2 (storeTarget ctx.env hash target).1) address
    { n with filePins := n.filePins.delete (·.messageHash = some hash) }
  exact congrArg Node.filePins hts

/-- A grace period pin for a file without active pins changes no active pin, and no pin of anyone else. -/
theorem graced_dropped (now : Timestamp) {fileHash : ItemHash} (address : Address)
    (hnone : ¬ HasActivePin n fileHash) :
    (∀ p : FilePinRecord, p.Active → (p ∈ (graced now fileHash address n).filePins ↔ p ∈ n.filePins)) ∧
      (∀ p ∈ (graced now fileHash address n).filePins, ¬ p.Active → p ∈ n.filePins ∨ p.itemHash = fileHash) ∧
      ∀ p ∈ n.filePins, p.owner ≠ address → p ∈ (graced now fileHash address n).filePins := by
  simp only [graced, Table.mem_upsert]
  refine ⟨fun p ha => ⟨?_, fun hp => .inl ⟨hp, fun hkey => ?_⟩⟩, ?_, fun p hp howner => .inl ⟨hp, fun hkey => ?_⟩⟩
  · rintro (⟨hp, -⟩ | ⟨s, hs, hkey, rfl⟩ | ⟨rfl, -⟩)
    · exact hp
    · exact absurd ⟨s, hs, congrArg Prod.fst hkey, ha⟩ hnone
    · exact absurd rfl ha
  · exact hnone ⟨p, hp, congrArg Prod.fst hkey, ha⟩
  · rintro p (⟨hp, -⟩ | ⟨s, -, hkey, rfl⟩ | ⟨rfl, -⟩) -
    · exact .inl hp
    · exact .inr (congrArg Prod.fst hkey)
    · exact .inr rfl
  · exact howner (congrArg Prod.snd hkey)

theorem pinsForgotten_dropped (ctx : HandlerContext) (address : Address) {target : Message} {t : MessageType}
    (htype : targetType n hash = some t) (htarget : target.messageType = t) :
    PinsDropped hash address n (pinsForgotten hash address target ctx n) := by
  unfold pinsForgotten
  split_ifs with hstore
  · have hdropped : ∀ p, Dropped n hash p ↔ p.messageHash = some hash := fun p => by
      rw [Dropped, if_pos (by rw [htype, ← htarget, hstore])]
    have hreleased : ∀ p, p ∈ (storeReleased hash address target ctx n).filePins ↔
        p ∈ n.filePins ∧ ¬ Dropped n hash p := by
      intro p
      rw [storeReleased_filePins, Table.mem_delete, hdropped]
    simp only [storeForgotten]
    split_ifs with hactive
    · exact ⟨fun p _ => hreleased p, fun p hp _ => .inl ((hreleased p).1 hp).1,
        fun p hp hd _ => (hreleased p).2 ⟨hp, hd⟩⟩
    · obtain ⟨hsame, hgrace, hothers⟩ := graced_dropped ctx.now address hactive
      refine ⟨fun p ha => (hsame p ha).trans (hreleased p), fun p hp hg => ?_,
        fun p hp hd howner => hothers p ((hreleased p).2 ⟨hp, hd⟩) howner⟩
      refine (hgrace p hp hg).imp (fun hp => ((hreleased p).1 hp).1) ?_
      rintro hfile ⟨q, hq, hhash, ha⟩
      exact hactive ⟨q, (hsame q ha).1 hq, hhash.trans hfile, ha⟩
  · have hdropped : ∀ p, Dropped n hash p ↔ p.itemHash = hash := fun p => by
      rw [Dropped, if_neg (by rw [htype, ← htarget]; simpa using hstore)]
    exact ⟨fun p _ => by rw [hdropped]; exact Table.mem_delete, fun p hp _ => .inl (Table.mem_delete.1 hp).1,
      fun p hp hd _ => Table.mem_delete.2 ⟨hp, fun he => hd ((hdropped p).2 he)⟩⟩

theorem cascaded_filePins (hash : ItemHash) (t : MessageType) : (cascaded hash t ctx n).filePins = n.filePins := by
  cases t with
  | post =>
    obtain ⟨_, _, _, _, h⟩ := (amendsForgotten_gone hash (amendsOf hash n) n).rest
    rw [cascaded, h]
  | aggregate =>
    obtain ⟨as, h⟩ := elementForgotten_eq hash ctx n
    rw [cascaded, h, elementDeleted]
  | store | program | «instance» | forget => rfl

theorem derivedDeleted_filePins (hash : ItemHash) (t : MessageType) : (derivedDeleted hash t n).filePins = n.filePins := by
  cases t <;> rfl

/-- **Forgetting a hash** drops the pins of the STORE message, else those of a file of that hash, and keeps
a file without active pins for the grace period. -/
theorem hashForgotten_dropped (message : Message) (content : ForgetContent) (ctx : HandlerContext) (n : Node)
    (hash : ItemHash) :
    PinsDropped hash content.address n (hashForgotten message content ctx n hash) := by
  rw [hashForgotten]
  cases hrow : n.messages.find? hash with
  | none =>
    have hdropped : ∀ p, Dropped n hash p ↔ p.itemHash = hash := fun p => by
      rw [Dropped, targetType, hrow, if_neg (by simp)]
    refine ⟨fun p _ => Table.mem_delete.trans ?_, fun p hp _ => .inl (Table.mem_delete.1 hp).1,
      fun p hp hd _ => Table.mem_delete.2 ⟨hp, fun he => hd ((hdropped p).2 he)⟩⟩
    rw [hdropped]
    rfl
  | some row =>
    have htype : targetType (marked hash message.itemHash content.reason n) hash = some row.message.messageType :=
      congrArg (Option.map MessageRow.messageType) hrow
    have h := pinsForgotten_dropped ctx content.address htype rfl
    have hpins : (messageDeleted hash (targetForgotten hash content.address (some row.message) ctx
        (marked hash message.itemHash content.reason n))).filePins = (pinsForgotten hash content.address
        row.message ctx (marked hash message.itemHash content.reason n)).filePins := by
      simp only [messageDeleted, targetForgotten, derivedDeleted_filePins, cascaded_filePins]
    refine ⟨fun p ha => ?_, fun p hp hg => ?_, fun p hp hd howner => ?_⟩
    · rw [Option.map_some, hpins]
      exact h.active p ha
    · rw [Option.map_some, hpins] at hp
      refine (h.grace p hp hg).imp_right fun hno hyes => hno ?_
      rwa [HasActivePin, Option.map_some, hpins] at hyes
    · rw [Option.map_some, hpins]
      exact h.others p hp hd howner

/-! ## When a FORGET message is accepted -/

variable {message : Message} {content : ForgetContent}

/-- The hash is that of a stored message of the sender, not forgotten and used by no virtual machine. -/
structure Forgettable (message : Message) (ctx : HandlerContext) (n : Node) (hash : ItemHash) : Prop where
  stored : ∃ r ∈ n.messages, r.itemHash = hash ∧ r.messageType ≠ .forget ∧
    ctx.env.SameAddress r.sender message.sender
  fresh : ¬ Forgotten n hash
  unused : (∀ p ∈ n.programs, p.codeRef ≠ hash ∧ p.runtimeRef ≠ hash) ∧ ∀ i ∈ n.instances, i.rootfsRef ≠ hash

theorem Forgettable.exec_validateHash (h : Forgettable message ctx n hash) :
    Exec (validateHash message ctx hash).run n (.ok ()) n := by
  obtain ⟨r, hr, hhash, htype, hsender⟩ := h.stored
  have hfind : n.messages.find? hash = some r := Table.find?_eq_some.2 ⟨hr, hhash⟩
  have hforget : Exec (isForgetMessage hash).run n (.ok false) n := by
    rw [isForgetMessage, getMessage, exec_db_query_bind_ok, hfind]
    exact exec_pure_ok.2 ⟨(decide_eq_false htype).symm, rfl⟩
  have hnew : Exec (db (getForgottenHashes [hash])).run n (.ok []) n := by
    refine exec_db_ok.2 (exec_query_ok.2 ⟨(List.filter_eq_nil_iff.2 fun x hx he => ?_).symm, rfl⟩)
    obtain ⟨q, hq, rfl⟩ := List.mem_map.1 hx
    exact h.fresh ⟨q, hq, by simpa using he⟩
  have howned : Exec (checkOwnership hash message.sender ctx).run n (.ok true) n := by
    rw [checkOwnership, getMessage, exec_db_query_bind_ok, hfind]
    exact exec_pure_ok.2 ⟨(decide_eq_true hsender).symm, rfl⟩
  have hvms : Exec (checkVmDependencies hash ctx).run n (.ok none) n := by
    rw [checkVmDependencies, getDependentVms, exec_db_query_bind_ok]
    refine exec_pure_ok.2 ⟨?_, rfl⟩
    have hnone : ∀ x, x ∉ ctx.order.scan ((n.programs.rows.filter fun p => p.codeRef = hash ∨
        p.runtimeRef = hash).map ProgramRow.itemHash ++ (n.instances.rows.filter fun i =>
          i.rootfsRef = hash).map InstanceRow.itemHash).dedup := by
      intro x hx
      rw [SqlOrder.mem_scan, List.mem_dedup, List.mem_append, List.mem_map, List.mem_map] at hx
      rcases hx with ⟨p, hp, -⟩ | ⟨i, hi, -⟩
      · obtain ⟨hp, href⟩ := List.mem_filter.1 hp
        rcases of_decide_eq_true href with href | href
        · exact (h.unused.1 p hp).1 href
        · exact (h.unused.1 p hp).2 href
      · obtain ⟨hi, href⟩ := List.mem_filter.1 hi
        exact h.unused.2 i hi (of_decide_eq_true href)
    rw [List.eq_nil_iff_forall_not_mem.2 hnone]
    rfl
  unfold validateHash
  refine exec_bind_ok.2 ⟨false, n, hforget, exec_bind_ok.2 ⟨[], n, hnew, exec_bind_ok.2 ⟨true, n, howned, ?_⟩⟩⟩
  exact exec_bind_ok.2 ⟨none, n, hvms, exec_pure_ok.2 ⟨rfl, rfl⟩⟩

/-- A FORGET of forgettable hashes, signed and sent by its own address. -/
structure Acceptable (message : Message) (ctx : HandlerContext) (content : ForgetContent) (n : Node) : Prop where
  parsed : ∃ s, message.itemContent = some s ∧ ctx.env.fromStr ForgetContent.decode s = .ok content ∧
    (ctx.trustedSource = true ∨ ctx.env.contentStr? s "address" = some content.address)
  listed : content.hashes ≠ []
  signed : message.verifySignature ctx.env = .ok true
  forgettable : ∀ hash ∈ content.hashes, Forgettable message ctx n hash
  own : ctx.trustedSource = true ∨ ctx.env.SameAddress message.sender content.address

theorem Acceptable.exec_validate (h : Acceptable message ctx content n) :
    Exec (validate message ctx).run n (.ok ()) n := by
  have hhashes : ∀ hashes : List ItemHash, (∀ hash ∈ hashes, Forgettable message ctx n hash) →
      Exec (forEach (validateHash message ctx) hashes).run n (.ok ()) n := by
    intro hashes
    induction hashes with
    | nil => exact fun _ => exec_pure_ok.2 ⟨rfl, rfl⟩
    | cons hash hashes ih =>
      intro hall
      refine exec_bind_ok.2 ⟨(), n, (hall hash List.mem_cons_self).exec_validateHash, ih fun x hx => ?_⟩
      exact hall x (List.mem_cons_of_mem _ hx)
  obtain ⟨s, hs, hdecode, -⟩ := h.parsed
  refine exec_fromExcept_bind_ok.2 ⟨content, parseContent_ok.2 ⟨s, hs, hdecode⟩, ?_⟩
  rw [if_neg (by simpa using h.listed)]
  refine exec_fromExcept_bind_ok.2 ⟨(), ?_, hhashes content.hashes h.forgettable⟩
  rw [checkSignature, h.signed]

/-- **An acceptable FORGET message forgets its hashes.** -/
theorem Acceptable.exec_processMessage (h : Acceptable message ctx content n)
    (htype : message.messageType = .forget) :
    Exec (processMessage message ctx) n .processed (hashesForgotten message content ctx content.hashes n) := by
  obtain ⟨s, hs, hdecode, haddr⟩ := h.parsed
  rw [exec_processMessage_processed, htype]
  refine exec_run_ok.2 ⟨n, n, n, h.exec_validate, ?_, exec_pure_ok.2 ⟨rfl, rfl⟩, ?_⟩
  · unfold MessageHandler.permissionStage
    split_ifs with htrusted
    · exact exec_pure_ok.2 ⟨rfl, rfl⟩
    · have haddr' := haddr.resolve_left htrusted
      have hown := h.own.resolve_left htrusted
      show Exec (checkPermissions message ctx).run n (.ok ()) n
      simp only [checkPermissions, hs, Option.bind_some, haddr', requireAuthorization, if_pos hown]
      exact exec_pure_ok.2 ⟨rfl, rfl⟩
  · exact exec_process_ok.2 ⟨content, parseContent_ok.2 ⟨s, hs, hdecode⟩, rfl⟩

/-! ## When a FORGET message is rejected -/

theorem exec_validateHash_forgotten (hgone : n.messages.find? hash = none) (h : Forgotten n hash) :
    Exec (validateHash message ctx hash).run n (.error (.duplicate s!"Content already forgotten: {hash}")) n := by
  have hforget : Exec (isForgetMessage hash).run n (.ok false) n := by
    rw [isForgetMessage, getMessage, exec_db_query_bind_ok, hgone]
    exact exec_pure_ok.2 ⟨rfl, rfl⟩
  obtain ⟨r, hr, hhash⟩ := h
  have hfound : hash ∈ (n.forgottenMessages.rows.map ForgottenRow.itemHash).filter fun x => decide (x ∈ [hash]) := by
    refine List.mem_filter.2 ⟨List.mem_map.2 ⟨r, hr, hhash⟩, ?_⟩
    simp
  unfold validateHash
  refine exec_bind_error.2 (.inr ⟨false, n, hforget, exec_bind_error.2 (.inr ⟨_, n, exec_db_ok.2
    (exec_query_ok.2 ⟨rfl, rfl⟩), ?_⟩)⟩)
  rw [if_pos]
  · exact exec_throw_error.2 ⟨rfl, rfl⟩
  · rw [List.isEmpty_iff]
    exact List.ne_nil_of_mem hfound

/-- **A FORGET message whose first hash is forgotten is rejected**, also when it is delivered again. -/
theorem exec_validate_forgotten {content : ForgetContent} {hashes : List ItemHash}
    (hparsed : ∃ s, message.itemContent = some s ∧ ctx.env.fromStr ForgetContent.decode s = .ok content)
    (hhashes : content.hashes = hash :: hashes) (hsigned : message.verifySignature ctx.env = .ok true)
    (hgone : n.messages.find? hash = none) (h : Forgotten n hash) :
    Exec (validate message ctx).run n (.error (.duplicate s!"Content already forgotten: {hash}")) n := by
  unfold validate
  refine exec_bind_error.2 (.inr ⟨content, n, ?_, ?_⟩)
  · exact exec_fromExcept.2 ⟨(parseContent_ok.2 hparsed).symm, rfl⟩
  have hchecked : Exec (fromExcept (checkSignature message ctx) : Db HandlerError Unit).run n (.ok ()) n := by
    refine exec_fromExcept.2 ⟨?_, rfl⟩
    rw [checkSignature, hsigned]
  rw [hhashes, if_neg (by simp)]
  exact exec_bind_error.2 (.inr ⟨(), n, hchecked, exec_bind_error.2 (.inl (exec_validateHash_forgotten hgone h))⟩)

end AlephCore.ForgetHandler
