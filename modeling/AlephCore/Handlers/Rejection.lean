import AlephCore.Handlers.StoreSpec
import AlephCore.Handlers.ForgetSpec
import AlephCore.Handlers.PostSpec
import AlephCore.Handlers.Stages
import AlephCore.Handlers.VmSpec
import AlephCore.Handlers.PostPermissions
import AlephCore.Lib.Faults

/-!
# Rejection — what a rejected message leaves behind

Every error of a handler rejects the message, also a refused statement.  The handlers write without a
transaction, so what they have written before the refused statement stays: a rejected message leaves no trace
only if the refused statement comes before the first write that changes something.
-/

namespace AlephCore

open ProgE Prog

/-- The tables that the handlers write are the same. -/
structure SameTables (n n' : Node) : Prop where
  files : n'.files = n.files
  filePins : n'.filePins = n.filePins
  fileTagsV2 : n'.fileTagsV2 = n.fileTagsV2
  posts : n'.posts = n.posts
  aggregates : n'.aggregates = n.aggregates
  aggregateElements : n'.aggregateElements = n.aggregateElements
  programs : n'.programs = n.programs
  instances : n'.instances = n.instances
  vmMachineVolumes : n'.vmMachineVolumes = n.vmMachineVolumes
  vmVersions : n'.vmVersions = n.vmVersions
  accountCosts : n'.accountCosts = n.accountCosts
  forgottenMessages : n'.forgottenMessages = n.forgottenMessages
  messages : n'.messages = n.messages

theorem SameTables.refl (n : Node) : SameTables n n := by constructor <;> rfl

variable {message : Message} {ctx : HandlerContext} {n n' : Node} {faults : List (Option DbError)} {e : HandlerError}

/-- A row that is written before the refused statement is a trace, if it was not there. -/
theorem sameTables_iff_refused {I : Node → Prop} {i : ℕ} (hnew : ¬ I n) (hsame : SameTables n n' → (I n' ↔ I n))
    (h : (Refused faults i ∧ n' = n) ∨ ¬ Refused faults i ∧ I n') : SameTables n n' ↔ Refused faults i := by
  rcases h with ⟨hrefused, rfl⟩ | ⟨hgranted, hwritten⟩
  · exact iff_of_true (.refl _) hrefused
  · exact iff_of_false (fun hs => hnew ((hsame hs).1 hwritten)) hgranted

/-! ## Aggregates -/

namespace AggregateHandler

/-- The element of a message is stored. -/
def ElementStored (hash : ItemHash) (n : Node) : Prop := ∃ e ∈ n.aggregateElements, e.itemHash = hash

theorem moves_rebuild {hash : ItemHash} (address : Address) (key : String) :
    Moves (fun n n' => ElementStored hash n → ElementStored hash n') (rebuildAggregateFromElements address key).run := by
  refine moves_bind (moves_mapErr (moves_sql fun n h => h)) fun elements => ?_
  split_ifs
  · exact moves_pure ()
  · exact moves_mapErr (moves_execute fun n h => h)

/-- What follows the insertion of the element keeps it. -/
theorem moves_insertAggregate {hash : ItemHash} (e : AggregateElement) :
    Moves (fun n n' => ElementStored hash n → ElementStored hash n') (do
      let rowsAffected ← db (insertAggregate (firstRow e))
      if rowsAffected = 0 then updateExisting e else pure ()).run := by
  refine moves_bind (moves_mapErr (moves_sql fun n h => h)) fun rowsAffected => ?_
  split_ifs
  · refine moves_bind (moves_mapErr (moves_sql fun n h => h)) fun existing => ?_
    split
    · exact moves_pure ()
    · unfold mergeExisting
      split_ifs
      · exact moves_pure ()
      · exact moves_mapErr (moves_execute fun n h => h)
      · refine moves_bind (moves_mapErr (moves_sql fun n h => h)) fun count => ?_
        split_ifs
        · exact moves_mapErr (moves_execute fun n h => h)
        · exact moves_rebuild _ _
  · exact moves_pure ()

theorem exec_validate_parsed (h : Exec (validate message ctx).run n (.ok ()) n') :
    ∃ content, parseContent ctx.env AggregateContent.decode (fun e => e) message = .ok content := by
  obtain ⟨content, hparse, -⟩ := exec_fromExcept_bind_ok.1 h
  exact ⟨content, parseContent_text hparse⟩

/-- **An AGGREGATE message that fails** leaves its element, unless this was refused. -/
theorem sameTables_iff (hvalidate : Exec (validate message ctx).run n (.ok ()) n)
    (hnew : ¬ ElementStored message.itemHash n) (h : (process message ctx).run.runWith faults n = (.error e, n')) :
    SameTables n n' ↔ Refused faults 0 := by
  obtain ⟨content, hparse⟩ := exec_validate_parsed hvalidate
  unfold process at h
  rw [hparse] at h
  have hwritten : ElementStored message.itemHash (storeElement (elementOf message content) n) := by
    unfold storeElement
    split_ifs with hstored
    · exact hstored
    · exact ⟨elementOf message content, List.mem_append_right _ (List.mem_singleton_self _), rfl⟩
  refine sameTables_iff_refused hnew (fun hsame => ?_)
    (runWith_execute_bind_keeps h hwritten (moves_insertAggregate (elementOf message content)))
  rw [ElementStored, hsame.aggregateElements, ElementStored]

end AggregateHandler

/-! ## Posts -/

namespace PostHandler

/-- The row of a post is stored. -/
def PostStored (hash : ItemHash) (n : Node) : Prop := ∃ p ∈ n.posts, p.itemHash = hash

/-- A refused look-up of the original is passed over. -/
theorem runWith_originalOf (targetRef : ItemHash) (n : Node) (faults : List (Option DbError))
    {q : ItemHash → Db HandlerError Unit} :
    ∃ originalHash, (originalOf targetRef >>= q).run.runWith faults n = (q originalHash).run.runWith faults.tail n := by
  by_cases hrefused : Refused faults 0
  · obtain ⟨-, hd⟩ : ∃ _ : DbError, (originalOf targetRef >>= q).run.runWith faults n =
        (q targetRef).run.runWith faults.tail n := runWith_refused hrefused
    exact ⟨targetRef, hd⟩
  · cases hfind : n.posts.find? targetRef with
    | none =>
      refine ⟨targetRef, (runWith_granted hrefused).trans ?_⟩
      beta_reduce
      rw [hfind]
      rfl
    | some target =>
      refine ⟨target.originalItemHash.getD target.itemHash, (runWith_granted hrefused).trans ?_⟩
      beta_reduce
      rw [hfind]
      rfl

theorem moves_updateLatestAmend {hash : ItemHash} (originalHash amendHash : ItemHash) :
    Moves (fun n n' => PostStored hash n → PostStored hash n') (db (updateLatestAmend originalHash amendHash)).run := by
  refine moves_mapErr (moves_execute fun n h => ?_)
  refine (Table.exists_key_update ?_ (P := fun k => k = hash)).2 h
  exact fun _ => rfl

/-- **An amend that fails** leaves its row, unless this was refused; an original has one statement. -/
theorem sameTables_iff (hvalidate : Exec (validate message ctx).run n (.ok ()) n)
    (hnew : ¬ PostStored message.itemHash n) (h : (process message ctx).run.runWith faults n = (.error e, n')) :
    SameTables n n' ↔ ∀ content, parseContent ctx.env PostContent.decode (fun e => e) message = .ok content →
      isAmend ctx.env content.postType = true → Refused faults 1 := by
  unfold process at h
  cases hparse : parseContent ctx.env PostContent.decode (fun e => e) message with
  | error e' =>
    rw [hparse] at h
    have hsame : n' = n := (congrArg Prod.snd h).symm
    rw [hsame]
    refine iff_of_true (.refl n) fun content hcontent => ?_
    cases hcontent
  | ok content =>
    have hbind : ∀ q : PostContent → Db HandlerError Unit,
        (fromExcept (Except.ok content) >>= q).run.runWith faults n = (q content).run.runWith faults n := fun _ => rfl
    rw [hparse, hbind] at h
    simp only [Except.ok.injEq, forall_eq']
    split_ifs at h with hamend
    · obtain ⟨-, targetRef, href, -⟩ := exec_validate_amend hvalidate (parseContent_ok.1 hparse) hamend
      simp only [href] at h
      obtain ⟨originalHash, horiginal⟩ := runWith_originalOf targetRef n faults
        (q := fun originalHash => do
          db (insertPost (recordOf message content (some originalHash)))
          db (updateLatestAmend originalHash message.itemHash))
      have hinsert := horiginal.symm.trans h
      have hwritten : PostStored message.itemHash
          { n with posts := n.posts.insertNew (recordOf message content (some originalHash)) } :=
        (Table.exists_key_insertNew (P := fun k => k = message.itemHash)).2 (.inr rfl)
      have hkept := runWith_execute_bind_keeps hinsert hwritten (moves_updateLatestAmend originalHash message.itemHash)
      rw [refused_tail] at hkept
      rw [forall_prop_of_true hamend]
      refine sameTables_iff_refused hnew (fun hsame => ?_) hkept
      rw [PostStored, hsame.posts, PostStored]
    · obtain ⟨-, rfl⟩ := runWith_execute_error h
      exact iff_of_true (.refl _) fun h' => absurd h' hamend

end PostHandler

/-! ## Virtual machines -/

namespace VmCommon

/-- The rows of the virtual machines are the same. -/
def SameVms (n n' : Node) : Prop := n'.programs = n.programs ∧ n'.instances = n.instances

theorem moves_storeVm {itemHash : ItemHash} {address : Address} {volumes : List VolumeInfo} {replaces : Option ItemHash}
    {time : Timestamp} {costs : Option (List AccountCostRecord)} :
    Moves SameVms (storeVm itemHash address volumes replaces time costs).run := by
  have hvolumes : Moves SameVms (storeVolumes itemHash volumes).run := by
    unfold storeVolumes
    split_ifs
    · exact moves_pure ()
    · exact moves_mapErr (moves_forEach fun volume _ => moves_execute fun n => ⟨rfl, rfl⟩)
  have hcosts : Moves SameVms (storeCosts costs).run := by
    match costs with
    | none => exact moves_pure ()
    | some [] => exact moves_pure ()
    | some (_ :: _) => exact moves_mapErr (moves_forEach fun cost _ => moves_execute fun n => ⟨rfl, rfl⟩)
  exact moves_bind hvolumes fun _ => moves_bind (moves_mapErr (moves_execute fun n => ⟨rfl, rfl⟩)) fun _ => hcosts

theorem moves_storeVm_keeps {I : Node → Prop} (hI : ∀ n n', SameVms n n' → I n → I n') {itemHash : ItemHash}
    {address : Address} {volumes : List VolumeInfo} {replaces : Option ItemHash} {time : Timestamp}
    {costs : Option (List AccountCostRecord)} :
    Moves (fun n n' => I n → I n') (storeVm itemHash address volumes replaces time costs).run :=
  moves_storeVm.mono hI

end VmCommon

namespace ProgramHandler

def ProgramStored (hash : ItemHash) (n : Node) : Prop := ∃ p ∈ n.programs, p.itemHash = hash

/-- **A program that fails** leaves its row, unless this was refused. -/
theorem sameTables_iff (hvalidate : Exec (validate message ctx).run n (.ok ()) n)
    (hnew : ¬ ProgramStored message.itemHash n) (h : (process message ctx).run.runWith faults n = (.error e, n')) :
    SameTables n n' ↔ Refused faults 0 := by
  obtain ⟨content, hparse, -⟩ := exec_validate_ok.1 hvalidate
  unfold process at h
  rw [hparse] at h
  have hwritten : ProgramStored message.itemHash { n with programs := n.programs.insertNew (rowOf message content) } :=
    (Table.exists_key_insertNew (P := fun k => k = message.itemHash)).2 (.inr rfl)
  refine sameTables_iff_refused hnew (fun hsame => ?_)
    (runWith_execute_bind_keeps h hwritten (VmCommon.moves_storeVm_keeps fun n n' hsame hold => ?_))
  · rw [ProgramStored, hsame.programs, ProgramStored]
  · rwa [ProgramStored, hsame.1]

end ProgramHandler

namespace InstanceHandler

def InstanceStored (hash : ItemHash) (n : Node) : Prop := ∃ i ∈ n.instances, i.itemHash = hash

/-- **An instance that fails** leaves its row, unless this was refused. -/
theorem sameTables_iff (hvalidate : Exec (validate message ctx).run n (.ok ()) n)
    (hnew : ¬ InstanceStored message.itemHash n) (h : (process message ctx).run.runWith faults n = (.error e, n')) :
    SameTables n n' ↔ Refused faults 0 := by
  obtain ⟨content, hparse, -⟩ := exec_validate_valid hvalidate
  unfold process at h
  rw [hparse] at h
  have hwritten : InstanceStored message.itemHash
      { n with instances := n.instances.insertNew (rowOf message content) } :=
    (Table.exists_key_insertNew (P := fun k => k = message.itemHash)).2 (.inr rfl)
  refine sameTables_iff_refused hnew (fun hsame => ?_)
    (runWith_execute_bind_keeps h hwritten (VmCommon.moves_storeVm_keeps fun n n' hsame hold => ?_))
  · rw [InstanceStored, hsame.instances, InstanceStored]
  · rwa [InstanceStored, hsame.2]

end InstanceHandler

/-! ## Forgetting -/

namespace ForgetHandler

variable {hash x : ItemHash}

/-- What is forgotten stays forgotten. -/
def KeepsForgotten (x : ItemHash) (n n' : Node) : Prop := Forgotten n x → Forgotten n' x

theorem moves_markForgotten (forgetHash : ItemHash) (reason : Option String) :
    Moves (KeepsForgotten x) (PgDatabase.markForgotten hash forgetHash reason).run :=
  moves_execute fun _ h => forgotten_insertNew.2 (.inl h)

theorem moves_forgetPins (address : Address) (target : Message) :
    Moves (KeepsForgotten x) (forgetPins hash address target ctx).run := by
  have hstore : Moves (KeepsForgotten x) (processStoreForget hash address target ctx).run := by
    unfold processStoreForget
    refine moves_bind (moves_mapErr (moves_execute fun _ h => h)) fun _ => ?_
    refine moves_bind (moves_mapErr ?_) fun _ => moves_bind (moves_mapErr (moves_sql fun _ h => h)) fun active => ?_
    · refine moves_bind (moves_sql fun _ h => h) fun newest => ?_
      split <;> exact moves_execute fun _ h => h
    · split_ifs
      · refine moves_mapErr (moves_sql fun n h => ?_)
        split_ifs <;> exact h
      · exact moves_pure ()
  unfold forgetPins
  split_ifs
  · exact hstore
  · exact moves_mapErr (moves_execute fun _ h => h)

theorem moves_deleteDerivedRows (type : MessageType) :
    Moves (KeepsForgotten x) (PgDatabase.deleteDerivedRows hash type).run := by
  have hdelete : ∀ {f : Node → Node}, (∀ n, (f n).forgottenMessages = n.forgottenMessages) →
      Moves (KeepsForgotten x) (execute f : Db DbError Unit).run := fun hf => moves_execute fun n h => by
    rwa [Forgotten, hf n]
  cases type with
  | post | aggregate => exact hdelete fun _ => rfl
  | program | «instance» =>
    exact moves_bind (hdelete fun _ => rfl) fun _ => moves_bind (hdelete fun _ => rfl) fun _ =>
      moves_bind (hdelete fun _ => rfl) fun _ => hdelete fun _ => rfl
  | store | forget => exact moves_pure ()

theorem moves_deleteDerivedData (type : MessageType) :
    Moves (KeepsForgotten x) (PgDatabase.deleteDerivedData hash type).run :=
  moves_bind (moves_deleteDerivedRows type) fun _ => moves_execute fun _ h => h

theorem moves_cascadeForget (type : MessageType) :
    Moves (KeepsForgotten x) (cascadeForget hash type ctx).run := by
  have hvm : Moves (KeepsForgotten x) (do
      let _ ← db (PgDatabase.deleteVmUpdates hash)
      db (PgDatabase.deleteAccountCosts hash)).run := by
    refine moves_bind (moves_mapErr ?_) fun _ => moves_mapErr (moves_execute fun _ h => h)
    exact moves_bind (moves_sql fun _ h => h) fun _ => moves_bind (moves_sql fun _ h => h) fun _ => moves_pure _
  cases type with
  | post =>
    refine moves_bind (moves_mapErr (moves_sql fun _ h => h)) fun amends => moves_forEach fun amend _ => ?_
    exact moves_bind (moves_mapErr (moves_markForgotten _ _)) fun _ =>
      moves_bind (moves_mapErr (moves_deleteDerivedData .post)) fun _ => moves_mapErr (moves_execute fun _ h => h)
  | aggregate =>
    refine moves_bind (moves_mapErr (moves_sql fun _ h => h)) fun info =>
      moves_bind (moves_mapErr (moves_execute fun _ h => h)) fun _ => ?_
    split
    · exact moves_pure ()
    · refine moves_bind (moves_mapErr (moves_sql fun _ h => h)) fun remaining => ?_
      split_ifs
      · exact moves_mapErr (moves_execute fun _ h => h)
      · refine moves_bind (moves_mapErr (moves_sql fun _ h => h)) fun elements => ?_
        split_ifs
        · exact moves_pure ()
        · exact moves_mapErr (moves_execute fun _ h => h)
  | program => exact hvm
  | «instance» => exact hvm
  | store => exact moves_pure ()
  | forget => exact moves_pure ()

theorem moves_forgetTarget (address : Address) (target : Option Message) :
    Moves (KeepsForgotten x) (forgetTarget hash address target ctx).run := by
  cases target with
  | none => exact moves_mapErr (moves_execute fun _ h => h)
  | some target =>
    exact moves_bind (moves_forgetPins address target) fun _ => moves_bind (moves_cascadeForget _) fun _ =>
      moves_mapErr (moves_deleteDerivedData _)

theorem moves_forgetHash (message : Message) (content : ForgetContent) :
    Moves (KeepsForgotten x) (forgetHash message content ctx hash).run :=
  moves_bind (moves_mapErr (moves_sql fun _ h => h)) fun target =>
    moves_bind (moves_mapErr (moves_markForgotten _ _)) fun _ =>
      moves_bind (moves_forgetTarget content.address target) fun _ => moves_mapErr (moves_execute fun _ h => h)

/-- **A FORGET that fails** leaves its first hash forgotten, unless the look-up or the mark was refused. -/
theorem sameTables_iff (hvalidate : Exec (validate message ctx).run n (.ok ()) n)
    (h : (process message ctx).run.runWith faults n = (.error e, n')) :
    SameTables n n' ↔ Refused faults 0 ∨ Refused faults 1 := by
  obtain ⟨content, hparse, -⟩ := exec_fromExcept_bind_ok.1 hvalidate
  have hparse' : parseContent ctx.env ForgetContent.decode (fun e => e) message = .ok content :=
    parseContent_text hparse
  obtain ⟨hlisted, hvalid⟩ := exec_validate_ok hparse' hvalidate
  unfold process at h
  rw [hparse'] at h
  obtain ⟨hash, hashes, hcons⟩ := List.exists_cons_of_ne_nil hlisted
  have hnew : ¬ Forgotten n hash := fun ⟨r, hr, he⟩ =>
    (hvalid hash (by rw [hcons]; exact List.mem_cons_self)).2 r hr he
  have hfirst : (forEach (forgetHash message content ctx) (hash :: hashes)).run.runWith faults n = (.error e, n') := by
    rw [← hcons]
    exact h
  unfold forEach forgetHash at hfirst
  rw [PgDatabase.getMessage, query, db, sql_bind_assoc] at hfirst
  rcases runWith_query_bind_error hfirst with ⟨hrefused, rfl⟩ | ⟨hgranted, hmark⟩
  · exact iff_of_true (.refl _) (.inl hrefused)
  · rw [or_iff_right hgranted]
    rw [PgDatabase.markForgotten, execute, db, sql_bind_assoc] at hmark
    have hkept := runWith_execute_bind_keeps (I := fun n => Forgotten n hash) hmark
      (forgotten_insertNew.2 (.inr rfl)) (moves_bind (moves_bind (moves_forgetTarget content.address _) fun _ =>
        moves_mapErr (moves_execute fun _ h => h)) fun _ => moves_forEach fun x _ => moves_forgetHash message content)
    rw [refused_tail] at hkept
    refine sameTables_iff_refused (I := fun n => Forgotten n hash) hnew (fun hsame => ?_) hkept
    rw [Forgotten, hsame.forgottenMessages, Forgotten]

end ForgetHandler

/-! ## Storing files -/

namespace StoreHandler

variable {content : StoreContent}

def fileWritten (content : StoreContent) (n : Node) : Node :=
  { n with
    files := n.files.upsert ⟨content.itemHash, asI64 (content.size.getD 0), .file⟩
      (fun f => { f with size := asI64 (content.size.getD 0), fileType := .file }) (refiled_hash content) }

def pinWritten (pin : FilePinRecord) (n : Node) : Node :=
  { n with filePins := n.filePins.upsert pin (typedUpdate pin) (typedUpdate_key pin) }

def tagWritten (message : Message) (content : StoreContent) (ctx : HandlerContext) (n : Node) : Node :=
  let tag := tagOf ctx.env message content
  { n with
    fileTagsV2 := n.fileTagsV2.upsert tag
      (fun t => { t with fileHash := tag.fileHash, lastUpdated := tag.lastUpdated }) (retagged_tag tag) }

def costWritten (message : Message) (content : StoreContent) (n : Node) : Node :=
  { n with accountCosts := charged message content n }

/-- What the statements write that come before the raw insert. -/
def writes (message : Message) (content : StoreContent) (ctx : HandlerContext) : List (Node → Node) :=
  [fileWritten content, pinWritten (pinOf message content ctx.now), tagWritten message content ctx,
    costWritten message content]

/-- The statement at position `i` is refused, or it is the first insert of the pin and meets one of another
type. -/
def StopsAt (message : Message) (content : StoreContent) (ctx : HandlerContext) (n : Node)
    (faults : List (Option DbError)) (i : ℕ) : Prop :=
  Refused faults i ∨ (i = 1 ∧ PgDatabase.PinClash (pinOf message content ctx.now) n)

/-- The statements before the one that fails write what is there already. -/
def Untouched (message : Message) (content : StoreContent) (ctx : HandlerContext) (n : Node)
    (faults : List (Option DbError)) : Prop :=
  ∃ i, StopsAt message content ctx n faults i ∧ ∀ w ∈ (writes message content ctx).take i, w n = n

/-- The node after the first `i` writes. -/
def written (message : Message) (content : StoreContent) (ctx : HandlerContext) (i : ℕ) (n : Node) : Node :=
  ((writes message content ctx).take i).foldl (fun n w => w n) n

theorem fileWritten_eq : fileWritten content n = n ↔ (fileWritten content n).files = n.files :=
  ⟨congrArg Node.files, fun h => by show { n with files := (fileWritten content n).files } = n; rw [h]⟩

theorem pinWritten_eq {pin : FilePinRecord} : pinWritten pin n = n ↔ (pinWritten pin n).filePins = n.filePins :=
  ⟨congrArg Node.filePins, fun h => by show { n with filePins := (pinWritten pin n).filePins } = n; rw [h]⟩

theorem tagWritten_eq :
    tagWritten message content ctx n = n ↔ (tagWritten message content ctx n).fileTagsV2 = n.fileTagsV2 :=
  ⟨congrArg Node.fileTagsV2,
    fun h => by show { n with fileTagsV2 := (tagWritten message content ctx n).fileTagsV2 } = n; rw [h]⟩

theorem costWritten_eq :
    costWritten message content n = n ↔ (costWritten message content n).accountCosts = n.accountCosts :=
  ⟨congrArg Node.accountCosts,
    fun h => by show { n with accountCosts := (costWritten message content n).accountCosts } = n; rw [h]⟩

/-- Each write has a table of its own, so all of them together change nothing only if each of them does. -/
theorem sameTables_written {i : ℕ} (hi : i ≤ 4) :
    SameTables n (written message content ctx i n) ↔ ∀ w ∈ (writes message content ctx).take i, w n = n := by
  constructor
  · intro hsame w hw
    match i, hi with
    | 0, _ => cases hw
    | 1, _ =>
      obtain rfl := List.mem_singleton.1 hw
      exact fileWritten_eq.2 hsame.files
    | 2, _ =>
      simp only [writes, List.take_succ_cons, List.take_zero, List.mem_cons, List.not_mem_nil, or_false] at hw
      obtain rfl | rfl := hw
      · exact fileWritten_eq.2 hsame.files
      · exact pinWritten_eq.2 hsame.filePins
    | 3, _ =>
      simp only [writes, List.take_succ_cons, List.take_zero, List.mem_cons, List.not_mem_nil, or_false] at hw
      obtain rfl | rfl | rfl := hw
      · exact fileWritten_eq.2 hsame.files
      · exact pinWritten_eq.2 hsame.filePins
      · exact tagWritten_eq.2 hsame.fileTagsV2
    | 4, _ =>
      simp only [writes, List.take_succ_cons, List.take_zero, List.mem_cons, List.not_mem_nil, or_false] at hw
      obtain rfl | rfl | rfl | rfl := hw
      · exact fileWritten_eq.2 hsame.files
      · exact pinWritten_eq.2 hsame.filePins
      · exact tagWritten_eq.2 hsame.fileTagsV2
      · exact costWritten_eq.2 hsame.accountCosts
  · intro hidle
    have hall : ∀ ws : List (Node → Node), (∀ w ∈ ws, w n = n) → ws.foldl (fun n w => w n) n = n := by
      intro ws
      induction ws with
      | nil => exact fun _ => rfl
      | cons w ws ih =>
        intro h
        rw [List.foldl_cons, h w List.mem_cons_self]
        exact ih fun v hv => h v (List.mem_cons_of_mem _ hv)
    rw [written, hall _ hidle]
    exact .refl n

/-- The first insert of the pin fails because it is refused or meets a pin of another type, or what follows fails. -/
theorem runWith_insertPin_error {pin : FilePinRecord} {q : Unit → Db HandlerError Unit}
    (h : (db (PgDatabase.insertFilePinTyped pin) >>= q).run.runWith faults n = (.error e, n')) :
    ((Refused faults 0 ∨ PgDatabase.PinClash pin n) ∧ n' = n) ∨
      ¬ (Refused faults 0 ∨ PgDatabase.PinClash pin n) ∧
        (q ()).run.runWith faults.tail (pinWritten pin n) = (.error e, n') := by
  by_cases hrefused : Refused faults 0
  · obtain ⟨d, hd⟩ : ∃ d, (db (PgDatabase.insertFilePinTyped pin) >>= q).run.runWith faults n =
        (.error (.database d), n) := runWith_sql_refused hrefused
    exact .inl ⟨.inl hrefused, congrArg Prod.snd (h.symm.trans hd)⟩
  · by_cases hclash : PgDatabase.PinClash pin n
    · have hd : (db (PgDatabase.insertFilePinTyped pin) >>= q).run.runWith faults n =
          (.error (.database PgDatabase.duplicateKey), n) := runWith_sql_error hrefused (if_pos hclash)
      exact .inl ⟨.inr hclash, congrArg Prod.snd (h.symm.trans hd)⟩
    · have hok : (db (PgDatabase.insertFilePinTyped pin) >>= q).run.runWith faults n =
          (q ()).run.runWith faults.tail (pinWritten pin n) := runWith_sql_ok hrefused (if_neg hclash)
      exact .inr ⟨not_or.2 ⟨hrefused, hclash⟩, hok.symm.trans h⟩

/-- The costs of a STORE message with a payment are written in one statement. -/
theorem runWith_storeCosts_error {payment : PaymentInfo} {q : Unit → Db HandlerError Unit}
    (hpayment : content.payment = some payment)
    (h : (storeCosts message content >>= q).run.runWith faults n = (.error e, n')) :
    (Refused faults 0 ∧ n' = n) ∨
      ¬ Refused faults 0 ∧ (q ()).run.runWith faults.tail (costWritten message content n) = (.error e, n') := by
  rw [storeCosts, hpayment] at h
  by_cases hrefused : Refused faults 0
  · obtain ⟨d, hd⟩ : ∃ d, (db (PgDatabase.storeAccountCosts [costOf message content payment]) >>= q).run.runWith
        faults n = (.error (.database d), n) := runWith_refused hrefused
    exact .inl ⟨hrefused, congrArg Prod.snd (h.symm.trans hd)⟩
  · have hok : (db (PgDatabase.storeAccountCosts [costOf message content payment]) >>= q).run.runWith faults n =
        (q ()).run.runWith faults.tail (costWritten message content n) := by
      refine (runWith_granted hrefused).trans ?_
      rw [costWritten, charged, hpayment]
      rfl
    exact .inr ⟨hrefused, hok.symm.trans h⟩

/-- **A STORE message that fails** has written what comes before the first statement that fails. -/
theorem exists_stopsAt
    (hparse : parseContent ctx.env StoreContent.decode (fun e => e) message = .ok content)
    (h : (process message ctx).run.runWith faults n = (.error e, n')) :
    ∃ i ≤ 4, StopsAt message content ctx n faults i ∧ (∀ j < i, ¬ StopsAt message content ctx n faults j) ∧
      n' = written message content ctx i n := by
  unfold process at h
  rw [hparse] at h
  rcases runWith_execute_bind_error h with ⟨hrefused, rfl⟩ | ⟨hfirst, h1⟩
  · exact ⟨0, by omega, .inl hrefused, fun j hj => absurd hj (Nat.not_lt_zero j), rfl⟩
  rcases runWith_insertPin_error h1 with ⟨hstops, rfl⟩ | ⟨hpin, h2⟩
  · refine ⟨1, by omega, ?_, fun j hj => ?_, rfl⟩
    · exact hstops.imp refused_tail.1 fun hclash => ⟨rfl, hclash⟩
    · obtain rfl : j = 0 := by omega
      exact not_or.2 ⟨hfirst, fun hclash => absurd hclash.1 (by omega)⟩
  have hbefore : ∀ j < 2, ¬ StopsAt message content ctx n faults j := by
    intro j hj
    obtain rfl | rfl : j = 0 ∨ j = 1 := by omega
    · exact not_or.2 ⟨hfirst, fun hclash => absurd hclash.1 (by omega)⟩
    · exact not_or.2 ⟨fun hr => hpin (.inl (refused_tail.2 hr)), fun hclash => hpin (.inr hclash.2)⟩
  have hlater : ∀ {k}, 2 ≤ k → ¬ Refused faults k → ¬ StopsAt message content ctx n faults k := by
    intro k hk hgranted
    exact not_or.2 ⟨hgranted, fun hclash => absurd hclash.1 (by omega)⟩
  rcases runWith_execute_bind_error h2 with ⟨hrefused, rfl⟩ | ⟨htag, h3⟩
  · exact ⟨2, by omega, .inl (refused_tail.1 (refused_tail.1 hrefused)), hbefore, rfl⟩
  rw [refused_tail, refused_tail] at htag
  have hthree : ∀ j < 3, ¬ StopsAt message content ctx n faults j := by
    intro j hj
    by_cases hj2 : j < 2
    · exact hbefore j hj2
    · obtain rfl : j = 2 := by omega
      exact hlater (by omega) htag
  cases hpayment : content.payment with
  | none =>
    rw [storeCosts, hpayment] at h3
    obtain ⟨hrefused, rfl⟩ := runWith_execute_error h3
    exact ⟨3, by omega, .inl (refused_tail.1 (refused_tail.1 (refused_tail.1 hrefused))), hthree, rfl⟩
  | some payment =>
    rcases runWith_storeCosts_error hpayment h3 with ⟨hrefused, rfl⟩ | ⟨hcost, h4⟩
    · exact ⟨3, by omega, .inl (refused_tail.1 (refused_tail.1 (refused_tail.1 hrefused))), hthree, rfl⟩
    · obtain ⟨hrefused, rfl⟩ := runWith_execute_error h4
      rw [refused_tail, refused_tail, refused_tail] at hcost
      rw [refused_tail, refused_tail, refused_tail, refused_tail] at hrefused
      refine ⟨4, by omega, .inl hrefused, fun j hj => ?_, rfl⟩
      by_cases hj3 : j < 3
      · exact hthree j hj3
      · obtain rfl : j = 3 := by omega
        exact hlater (by omega) hcost

theorem sameTables_iff (hparse : parseContent ctx.env StoreContent.decode (fun e => e) message = .ok content)
    (h : (process message ctx).run.runWith faults n = (.error e, n')) :
    SameTables n n' ↔ Untouched message content ctx n faults := by
  obtain ⟨i, hi, hstops, hfirst, rfl⟩ := exists_stopsAt hparse h
  rw [sameTables_written hi]
  constructor
  · exact fun hidle => ⟨i, hstops, hidle⟩
  · rintro ⟨j, hj, hidle⟩ w hw
    have hle : i ≤ j := not_lt.1 fun hlt => hfirst j hlt hj
    exact hidle w (List.take_subset_take_left _ hle hw)

end StoreHandler

/-! ## All handlers -/

/-- No row of a post, an element or a virtual machine is stored under the hash. -/
structure New (n : Node) (hash : ItemHash) : Prop where
  element : ¬ AggregateHandler.ElementStored hash n
  post : ¬ PostHandler.PostStored hash n
  program : ¬ ProgramHandler.ProgramStored hash n
  vm : ¬ InstanceHandler.InstanceStored hash n

/-- The statement that fails comes before the first one that changes something. -/
def Harmless (message : Message) (ctx : HandlerContext) (n : Node) (faults : List (Option DbError)) : Prop :=
  match message.messageType with
  | .aggregate | .program | .instance => Refused faults 0
  | .post => ∀ content, parseContent ctx.env PostContent.decode (fun e => e) message = .ok content →
      PostHandler.isAmend ctx.env content.postType = true → Refused faults 1
  | .store => ∀ content, parseContent ctx.env StoreContent.decode (fun e => e) message = .ok content →
      StoreHandler.Untouched message content ctx n faults
  | .forget => Refused faults 0 ∨ Refused faults 1

theorem sameTables_iff_harmless (hnew : New n message.itemHash)
    (hvalidate : Exec ((handlerOf message.messageType).validate message ctx).run n (.ok ()) n)
    (h : ((handlerOf message.messageType).process message ctx).run.runWith faults n = (.error e, n')) :
    SameTables n n' ↔ Harmless message ctx n faults := by
  unfold Harmless
  cases htype : message.messageType with
  | aggregate =>
    rw [htype] at hvalidate h
    exact AggregateHandler.sameTables_iff hvalidate hnew.element h
  | post =>
    rw [htype] at hvalidate h
    exact PostHandler.sameTables_iff hvalidate hnew.post h
  | store =>
    rw [htype] at hvalidate h
    obtain ⟨content, hparse, -⟩ := exec_fromExcept_bind_ok.1 hvalidate
    have hparse' : parseContent ctx.env StoreContent.decode (fun e => e) message = .ok content :=
      parseContent_text hparse
    simp only [hparse', Except.ok.injEq, forall_eq']
    exact StoreHandler.sameTables_iff hparse' h
  | program =>
    rw [htype] at hvalidate h
    exact ProgramHandler.sameTables_iff hvalidate hnew.program h
  | «instance» =>
    rw [htype] at hvalidate h
    exact InstanceHandler.sameTables_iff hvalidate hnew.vm h
  | forget =>
    rw [htype] at hvalidate h
    exact ForgetHandler.sameTables_iff hvalidate h

/-- A message that passes the checks and fails to be processed is rejected. -/
theorem exec_processMessage_rejected
    (hvalidate : Exec ((handlerOf message.messageType).validate message ctx).run n (.ok ()) n)
    (hpermitted : Exec ((handlerOf message.messageType).permissionStage message ctx).run n (.ok ()) n)
    (hbalance : Exec ((handlerOf message.messageType).checkBalance message ctx).run n (.ok ()) n)
    (h : ((handlerOf message.messageType).process message ctx).run.runWith faults n = (.error e, n')) :
    Exec (processMessage message ctx) n (.rejected e.errorCode e.toString) n' := by
  have hprocess := exec_iff_runWith.2 ⟨_, h⟩
  refine exec_bind.2 ⟨.error e, n', ?_, exec_pure.2 ⟨rfl, rfl⟩⟩
  refine exec_bind_error.2 (.inr ⟨(), n, hvalidate, exec_bind_error.2 (.inr ⟨(), n, hpermitted, ?_⟩)⟩)
  exact exec_bind_error.2 (.inr ⟨(), n, hbalance, hprocess⟩)

/-- **A message whose processing fails is rejected, and leaves no trace exactly if the statement that fails comes
before the first one that changes something.** -/
theorem rejected_traceless_iff {message : Message} {ctx : HandlerContext} {n n' : Node}
    {faults : List (Option DbError)} {e : HandlerError} (hnew : New n message.itemHash)
    (hvalidate : Exec ((handlerOf message.messageType).validate message ctx).run n (.ok ()) n)
    (hpermitted : Exec ((handlerOf message.messageType).permissionStage message ctx).run n (.ok ()) n)
    (hbalance : Exec ((handlerOf message.messageType).checkBalance message ctx).run n (.ok ()) n)
    (h : ((handlerOf message.messageType).process message ctx).run.runWith faults n = (.error e, n')) :
    Exec (processMessage message ctx) n (.rejected e.errorCode e.toString) n' ∧
      (SameTables n n' ↔ Harmless message ctx n faults) :=
  ⟨exec_processMessage_rejected hvalidate hpermitted hbalance h, sameTables_iff_harmless hnew hvalidate h⟩

/-! ### An amend whose second write is refused -/

section RefusedAmend

open PostHandler

/-- The look-up and the insertion go through, and the update of the original is refused; or the insertion is. -/
def updateRefused : List (Option DbError) := [none, none, some "connection closed"]

def insertRefused : List (Option DbError) := [none, some "connection closed"]

/-- The node after that. -/
def amendRejected (faults : List (Option DbError)) : Node :=
  ((process (amendMessage "amend") noteCtx).run.runWith faults (noteNode .empty channelFilter)).2

example : (amendRejected updateRefused).posts.rows.map PostRecord.itemHash =
    [noteMessage.itemHash, (amendMessage "amend").itemHash] := by decide +kernel

theorem process_amend (faults : List (Option DbError)) (h : faults ∈ [updateRefused, insertRefused]) :
    (process (amendMessage "amend") noteCtx).run.runWith faults (noteNode .empty channelFilter) =
      (.error (.database "connection closed"), amendRejected faults) := by
  have hfails : ((process (amendMessage "amend") noteCtx).run.runWith faults (noteNode .empty channelFilter)).1 =
      .error (.database "connection closed") := by
    simp only [List.mem_cons, List.not_mem_nil, or_false] at h
    obtain rfl | rfl := h
    · decide +kernel
    · decide +kernel
  rw [amendRejected, ← hfails]

theorem new_amend : New (noteNode .empty channelFilter) (amendMessage "amend").itemHash := by
  refine ⟨?_, ?_, ?_, ?_⟩
  · rintro ⟨e, he, -⟩
    cases he
  · rintro ⟨p, hp, he⟩
    obtain rfl := List.mem_singleton.1 hp
    exact absurd he (by decide +kernel)
  · rintro ⟨p, hp, -⟩
    cases hp
  · rintro ⟨i, hi, -⟩
    cases hi

theorem exec_permitted_amend :
    Exec ((handlerOf .post).permissionStage (amendMessage "amend") noteCtx).run (noteNode .empty channelFilter) (.ok ())
      (noteNode .empty channelFilter) := by
  have hpermitted : Exec (PostHandler.checkPermissions (amendMessage "amend") noteCtx).run
      (noteNode .empty channelFilter) (.ok ()) (noteNode .empty channelFilter) := by
    refine exec_permitted_noteNode (by simp) none ?_ (authorizes_channel.2 rfl)
    refine exec_bind_ok.2 ⟨none, _, ?_, exec_pure_ok.2 ⟨rfl, rfl⟩⟩
    rw [exec_mapErr_ok, PgDatabase.getMessage, exec_query_ok]
    exact ⟨rfl, rfl⟩
  have huntrusted : ¬ noteCtx.trustedSource = true := by decide
  unfold MessageHandler.permissionStage
  rw [if_neg huntrusted]
  exact hpermitted

theorem exec_validate_amend :
    Exec ((handlerOf .post).validate (amendMessage "amend") noteCtx).run (noteNode .empty channelFilter) (.ok ())
      (noteNode .empty channelFilter) := by
  have hvalidate : Exec (PostHandler.validate (amendMessage "amend") noteCtx).run (noteNode .empty channelFilter)
      (.ok ()) (noteNode .empty channelFilter) := exec_validate_noteNode (by simp)
  exact hvalidate

theorem exec_balance_amend :
    Exec ((handlerOf .post).checkBalance (amendMessage "amend") noteCtx).run (noteNode .empty channelFilter) (.ok ())
      (noteNode .empty channelFilter) := by
  refine exec_pure_ok.2 ?_
  exact ⟨rfl, rfl⟩

/-- The amend leaves no trace if its insertion is refused. -/
theorem insertRefused_traceless : SameTables (noteNode .empty channelFilter) (amendRejected insertRefused) := by
  have hprocess := process_amend insertRefused (by simp)
  obtain ⟨-, hiff⟩ := rejected_traceless_iff new_amend exec_validate_amend exec_permitted_amend
    exec_balance_amend hprocess
  exact hiff.2 fun _ _ _ => by decide

/-- The amend is rejected although its row stays, if the update of the original is refused. -/
theorem updateRefused_trace :
    Exec (processMessage (amendMessage "amend") noteCtx) (noteNode .empty channelFilter)
        (.rejected .internalError "Database error: connection closed") (amendRejected updateRefused) ∧
      PostStored (amendMessage "amend").itemHash (amendRejected updateRefused) ∧
        ¬ SameTables (noteNode .empty channelFilter) (amendRejected updateRefused) := by
  have hprocess := process_amend updateRefused (by simp)
  have hstored : PostStored (amendMessage "amend").itemHash (amendRejected updateRefused) := by
    have hrow : (amendMessage "amend").itemHash ∈ (amendRejected updateRefused).posts.rows.map PostRecord.itemHash := by
      decide +kernel
    obtain ⟨p, hp, he⟩ := List.mem_map.1 hrow
    exact ⟨p, hp, he⟩
  have hrejected := @exec_processMessage_rejected (amendMessage "amend") noteCtx _ _ updateRefused
    (.database "connection closed") exec_validate_amend exec_permitted_amend exec_balance_amend hprocess
  have htext : (HandlerError.database "connection closed").toString = "Database error: connection closed" := by
    decide +kernel
  rw [htext] at hrejected
  refine ⟨hrejected, hstored, fun hsame => new_amend.post ?_⟩
  rwa [PostStored, hsame.posts] at hstored

end RefusedAmend

end AlephCore
