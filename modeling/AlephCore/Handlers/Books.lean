import AlephCore.Handlers.ForgetSpec
import AlephCore.Handlers.Stages
import AlephCore.Lib.Guarantee

/-!
# Books — the tables of the processor that handlers touch

The pending, rejected, stored and forgotten messages are the books of the processor.  Of these the handlers
change none, but for FORGET: it marks hashes forgotten, and deletes a stored message only after its hash has
been marked.  The posts are changed by the handler of posts and where FORGET deletes one.
-/

namespace AlephCore

open ProgE Prog

/-- The books are the same. -/
structure SameBooks (n n' : Node) : Prop where
  pendingMessages : n'.pendingMessages = n.pendingMessages
  rejectedMessages : n'.rejectedMessages = n.rejectedMessages
  messages : n'.messages = n.messages
  forgottenMessages : n'.forgottenMessages = n.forgottenMessages

/-- The books and the posts are the same. -/
structure SamePosts (n n' : Node) : Prop extends SameBooks n n' where
  posts : n'.posts = n.posts

instance : Std.Refl SameBooks := ⟨fun _ => ⟨rfl, rfl, rfl, rfl⟩⟩

instance : Std.Refl SamePosts := ⟨fun _ => ⟨⟨rfl, rfl, rfl, rfl⟩, rfl⟩⟩

theorem moves_books {α : Type} {p : Prog Node DbError α} (h : Moves SamePosts p) : Moves SameBooks p :=
  h.mono fun _ _ => SamePosts.toSameBooks

variable {message : Message} {ctx : HandlerContext} {hash : ItemHash}

theorem Reads.samePosts {α : Type} {p : Db HandlerError α} (h : Reads p) : Moves SamePosts p.run := by
  refine Moves.mono h ?_
  rintro n _ rfl
  exact refl_of SamePosts n

/-! ## Aggregates, posts and files -/

namespace AggregateHandler

theorem moves_rebuild_posts (address : Address) (key : String) :
    Moves SamePosts (rebuildAggregateFromElements address key).run := by
  refine moves_bind (moves_mapErr (moves_query _)) fun elements => ?_
  split_ifs
  · exact moves_pure ()
  · exact moves_mapErr (moves_execute fun _ => ⟨⟨rfl, rfl, rfl, rfl⟩, rfl⟩)

theorem moves_updateExisting_posts (e : AggregateElement) : Moves SamePosts (updateExisting e).run := by
  refine moves_bind (moves_mapErr (moves_query _)) fun existing => ?_
  split
  · exact moves_pure ()
  · unfold mergeExisting
    split_ifs
    · exact moves_pure ()
    · exact moves_mapErr (moves_execute fun _ => ⟨⟨rfl, rfl, rfl, rfl⟩, rfl⟩)
    · refine moves_bind (moves_mapErr (moves_query _)) fun count => ?_
      split_ifs
      · exact moves_mapErr (moves_execute fun _ => ⟨⟨rfl, rfl, rfl, rfl⟩, rfl⟩)
      · exact moves_rebuild_posts _ _

theorem moves_process_posts : Moves SamePosts (process message ctx).run := by
  refine moves_bind (moves_fromExcept _) fun content => moves_bind (moves_mapErr (moves_execute fun n => ?_)) fun _ => ?_
  · unfold storeElement
    split_ifs <;> exact ⟨⟨rfl, rfl, rfl, rfl⟩, rfl⟩
  · refine moves_bind (moves_mapErr (moves_sql fun _ => ⟨⟨rfl, rfl, rfl, rfl⟩, rfl⟩)) fun rowsAffected => ?_
    split_ifs
    · exact moves_updateExisting_posts _
    · exact moves_pure ()

end AggregateHandler

theorem PostHandler.moves_process_books : Moves SameBooks (PostHandler.process message ctx).run := by
  have hinsert : ∀ r, Moves SameBooks (db (PostHandler.insertPost r)).run := fun r =>
    moves_mapErr (moves_execute fun _ => ⟨rfl, rfl, rfl, rfl⟩)
  refine moves_bind (moves_fromExcept _) fun content => ?_
  split_ifs
  · split
    · exact moves_throw _
    · refine moves_bind ?_ fun originalHash => moves_bind (hinsert _) fun _ =>
        moves_mapErr (moves_execute fun _ => ⟨rfl, rfl, rfl, rfl⟩)
      refine moves_bind (moves_attempt (moves_query _)) fun target => ?_
      split <;> exact moves_pure _
  · exact hinsert _

theorem PgDatabase.moves_insertPin_posts (pin : FilePinRecord) (f : FilePinRecord → FilePinRecord)
    (hf : ∀ p, ((f p).itemHash, (f p).owner) = (p.itemHash, p.owner)) :
    Moves SamePosts (PgDatabase.insertPin pin f hf).run := by
  refine moves_sql fun n => ?_
  split_ifs <;> exact ⟨⟨rfl, rfl, rfl, rfl⟩, rfl⟩

theorem PgDatabase.moves_storeAccountCosts_posts (costs : List AccountCostRecord) :
    Moves SamePosts (PgDatabase.storeAccountCosts costs).run :=
  moves_forEach fun _ _ => moves_execute fun _ => ⟨⟨rfl, rfl, rfl, rfl⟩, rfl⟩

theorem StoreHandler.moves_process_posts : Moves SamePosts (StoreHandler.process message ctx).run := by
  refine moves_bind (moves_fromExcept _) fun content => ?_
  refine moves_bind (moves_mapErr (moves_execute fun _ => ⟨⟨rfl, rfl, rfl, rfl⟩, rfl⟩)) fun _ => ?_
  refine moves_bind (moves_mapErr (PgDatabase.moves_insertPin_posts _ _ _)) fun _ => ?_
  refine moves_bind (moves_mapErr (moves_execute fun _ => ⟨⟨rfl, rfl, rfl, rfl⟩, rfl⟩)) fun _ => ?_
  refine moves_bind ?_ fun _ => moves_mapErr (moves_execute fun _ => ⟨⟨rfl, rfl, rfl, rfl⟩, rfl⟩)
  unfold StoreHandler.storeCosts
  split
  · exact moves_mapErr (PgDatabase.moves_storeAccountCosts_posts _)
  · exact moves_pure ()

/-! ## Virtual machines -/

theorem VmCommon.moves_storeVm_posts {address : Address} {volumes : List VolumeInfo} {replaces : Option ItemHash}
    {time : Timestamp} {costs : Option (List AccountCostRecord)} :
    Moves SamePosts (VmCommon.storeVm hash address volumes replaces time costs).run := by
  have hvolumes : Moves SamePosts (VmCommon.storeVolumes hash volumes).run := by
    unfold VmCommon.storeVolumes
    split_ifs
    · exact moves_pure ()
    · exact moves_mapErr (moves_forEach fun volume _ => moves_execute fun _ => ⟨⟨rfl, rfl, rfl, rfl⟩, rfl⟩)
  refine moves_bind hvolumes fun _ => moves_bind (moves_mapErr (moves_execute fun _ => ⟨⟨rfl, rfl, rfl, rfl⟩, rfl⟩)) fun _ => ?_
  unfold VmCommon.storeCosts
  split
  · split_ifs
    · exact moves_pure ()
    · exact moves_mapErr (PgDatabase.moves_storeAccountCosts_posts _)
  · exact moves_pure ()

theorem ProgramHandler.moves_process_posts : Moves SamePosts (ProgramHandler.process message ctx).run :=
  moves_bind (moves_fromExcept _) fun _ =>
    moves_bind (moves_mapErr (moves_execute fun _ => ⟨⟨rfl, rfl, rfl, rfl⟩, rfl⟩)) fun _ => VmCommon.moves_storeVm_posts

theorem InstanceHandler.moves_process_posts : Moves SamePosts (InstanceHandler.process message ctx).run :=
  moves_bind (moves_fromExcept _) fun _ =>
    moves_bind (moves_mapErr (moves_execute fun _ => ⟨⟨rfl, rfl, rfl, rfl⟩, rfl⟩)) fun _ => VmCommon.moves_storeVm_posts

/-! ## Forgetting -/

namespace PgDatabase

theorem moves_deleteDerivedRows_posts {type : MessageType} (h : type ≠ .post) :
    Moves SamePosts (deleteDerivedRows hash type).run := by
  have hdelete : ∀ {f : Node → Node}, (∀ n, SamePosts n (f n)) →
      Moves SamePosts (execute f : Db DbError Unit).run := fun hf => moves_execute hf
  cases type with
  | post => exact absurd rfl h
  | aggregate => exact hdelete fun _ => ⟨⟨rfl, rfl, rfl, rfl⟩, rfl⟩
  | program | «instance» =>
    exact moves_bind (hdelete fun _ => ⟨⟨rfl, rfl, rfl, rfl⟩, rfl⟩) fun _ =>
      moves_bind (hdelete fun _ => ⟨⟨rfl, rfl, rfl, rfl⟩, rfl⟩) fun _ =>
        moves_bind (hdelete fun _ => ⟨⟨rfl, rfl, rfl, rfl⟩, rfl⟩) fun _ =>
          hdelete fun _ => ⟨⟨rfl, rfl, rfl, rfl⟩, rfl⟩
  | store | forget => exact moves_pure ()

theorem moves_deleteChainTxs_posts : Moves SamePosts (deleteChainTxs hash).run :=
  moves_execute fun _ => ⟨⟨rfl, rfl, rfl, rfl⟩, rfl⟩

theorem moves_deleteDerivedData_posts {type : MessageType} (h : type ≠ .post) :
    Moves SamePosts (deleteDerivedData hash type).run :=
  moves_bind (moves_deleteDerivedRows_posts h) fun _ => moves_deleteChainTxs_posts

theorem moves_deleteDerivedData_books (type : MessageType) : Moves SameBooks (deleteDerivedData hash type).run := by
  by_cases h : type = .post
  · subst h
    exact moves_bind (moves_execute fun _ => ⟨rfl, rfl, rfl, rfl⟩) fun _ => moves_books moves_deleteChainTxs_posts
  · exact moves_books (moves_deleteDerivedData_posts h)

end PgDatabase

namespace ForgetHandler

theorem moves_forgetPins_posts (address : Address) (target : Message) :
    Moves SamePosts (forgetPins hash address target ctx).run := by
  have hstore : Moves SamePosts (processStoreForget hash address target ctx).run := by
    refine moves_bind (moves_mapErr (moves_execute fun _ => ⟨⟨rfl, rfl, rfl, rfl⟩, rfl⟩)) fun _ => ?_
    refine moves_bind (moves_mapErr ?_) fun _ => moves_bind (moves_mapErr (moves_query _)) fun active => ?_
    · refine moves_bind (moves_query _) fun newest => ?_
      split <;> exact moves_execute fun _ => ⟨⟨rfl, rfl, rfl, rfl⟩, rfl⟩
    · split_ifs
      · exact moves_mapErr (PgDatabase.moves_insertPin_posts _ _ _)
      · exact moves_pure ()
  unfold forgetPins
  split_ifs
  · exact hstore
  · exact moves_mapErr (moves_execute fun _ => ⟨⟨rfl, rfl, rfl, rfl⟩, rfl⟩)

theorem moves_forgetElement_posts : Moves SamePosts (forgetElement hash ctx).run := by
  refine moves_bind (moves_mapErr (moves_query _)) fun info =>
    moves_bind (moves_mapErr (moves_execute fun _ => ⟨⟨rfl, rfl, rfl, rfl⟩, rfl⟩)) fun _ => ?_
  split
  · exact moves_pure ()
  · refine moves_bind (moves_mapErr (moves_query _)) fun remaining => ?_
    split_ifs
    · exact moves_mapErr (moves_execute fun _ => ⟨⟨rfl, rfl, rfl, rfl⟩, rfl⟩)
    · exact AggregateHandler.moves_rebuild_posts _ _

/-- A virtual machine loses its amendments and its costs. -/
theorem moves_vm_posts : Moves SamePosts (do
    let _ ← db (PgDatabase.deleteVmUpdates hash)
    db (PgDatabase.deleteAccountCosts hash)).run := by
  refine moves_bind (moves_mapErr ?_) fun _ => moves_mapErr (moves_execute fun _ => ⟨⟨rfl, rfl, rfl, rfl⟩, rfl⟩)
  exact moves_bind (moves_sql fun _ => ⟨⟨rfl, rfl, rfl, rfl⟩, rfl⟩) fun _ =>
    moves_bind (moves_sql fun _ => ⟨⟨rfl, rfl, rfl, rfl⟩, rfl⟩) fun _ => moves_pure _

end ForgetHandler

/-! ## A handler beside others -/

open ForgetHandler

/-- The books change as a handler may change them that marks certain hashes only, and what is forgotten stays so. -/
structure MarksBooks (c : Contract Node) (may : ItemHash → Node → Prop) : Prop where
  same : ∀ {n n'}, SameBooks n n' → c.guar n n'
  marks : ∀ n r, may r.itemHash n → c.guar n { n with forgottenMessages := n.forgottenMessages.insertNew r }
  drops : ∀ {n x}, Forgotten n x → c.guar n { n with messages := n.messages.delete (·.itemHash = x) }
  others : ∀ x, c.Stable fun n => Forgotten n x
  own : ∀ {n n' x}, c.guar n n' → Forgotten n x → Forgotten n' x
  mayOthers : ∀ x, c.Stable (may x)
  mayOwn : ∀ {n n' x}, c.guar n n' → may x n → may x n'

/-- The hash may be marked at any time, and so may the amends of its post. -/
def MayForget (c : Contract Node) (may : ItemHash → Node → Prop) (hash : ItemHash) : Prop :=
  ∀ n, c.given n → may hash n ∧ ∀ p ∈ n.posts, p.originalItemHash = some hash → may p.itemHash n

/-- What a FORGET lists may be forgotten. -/
def MayForgetListed (c : Contract Node) (may : ItemHash → Node → Prop) (env : Env) (message : Message) : Prop :=
  ∀ content, parseContent env ForgetContent.decode (fun e => e) message = .ok content →
    ∀ hash ∈ content.hashes, MayForget c may hash

namespace MarksBooks

variable {c : Contract Node} {may : ItemHash → Node → Prop} (hc : MarksBooks c may) {α : Type} {n : Node} {x : ItemHash}
include hc

/-- A program that leaves the books alone, beside what is forgotten. -/
theorem of_moves {p : Prog Node DbError α} (h : Moves SameBooks p) (hx : Forgotten n x) :
    Assures c (fun _ n => Forgotten n x) p n :=
  h.assures (hc.others x) (fun _ _ hs _ hsame => ⟨hc.same hsame, hc.own (hc.same hsame) hs⟩) hx

theorem of_moves_true {p : Prog Node DbError α} (h : Moves SameBooks p) : Assures c (fun _ _ => True) p n :=
  h.assures (fun _ _ _ _ => trivial) (fun _ _ _ _ hsame => ⟨hc.same hsame, trivial⟩) trivial

/-- Once a hash is marked it is forgotten. -/
theorem assures_markForgotten (hmay : ∀ t, c.rely n t → c.given t → may x t) (forgetHash : ItemHash)
    (reason : Option String) :
    Assures c (fun r n => ∀ u, r = .ok u → Forgotten n x) (db (PgDatabase.markForgotten x forgetHash reason)).run n := by
  refine assures_mapErr (fun r s t hst h u hu => hc.others x s t hst (h u hu)) ?_
  refine assures_sql (fun r s t hst h u hu => hc.others x s t hst (h u hu)) fun t hnt hgiven => ?_
  refine ⟨hc.marks _ _ (hmay t hnt hgiven), fun _ _ => ?_, ?_⟩
  · exact forgotten_insertNew.2 (.inr rfl)
  · rintro e _ ⟨⟩

theorem assures_deleteMessage (hx : Forgotten n x) : Assures c (fun _ _ => True) (db (PgDatabase.deleteMessage x)).run n := by
  refine assures_mapErr (fun _ _ _ _ _ => trivial) ?_
  refine assures_sql (fun _ _ _ _ _ => trivial) fun t hnt _ => ⟨hc.drops (hc.others x n t hnt hx), trivial, fun _ => trivial⟩

/-- **A marked hash** may be worked on, and its message deleted in the end. -/
theorem assures_marked (hmay : ∀ t, c.rely n t → c.given t → may x t) {p : Db HandlerError Unit}
    (h : ∀ n, Forgotten n x → Assures c (fun _ n => Forgotten n x) p.run n) {forgetHash : ItemHash}
    {reason : Option String} : Assures c (fun _ _ => True) (do
      db (PgDatabase.markForgotten x forgetHash reason)
      p
      db (PgDatabase.deleteMessage x)).run n := by
  refine assures_bind (hc.assures_markForgotten hmay forgetHash reason) (fun u t ht => ?_) fun _ _ _ _ _ => trivial
  exact assures_bind (h t (ht u rfl)) (fun _ t ht => hc.assures_deleteMessage ht) fun _ _ _ _ _ => trivial

theorem assures_forgetAmend {amendHash : ItemHash} (hmay : may amendHash n) :
    Assures c (fun _ _ => True) (forgetAmend hash amendHash).run n :=
  hc.assures_marked (fun t hnt _ => hc.mayOthers amendHash n t hnt hmay) fun _ hx =>
    hc.of_moves (moves_mapErr (PgDatabase.moves_deleteDerivedData_books .post)) hx

/-- What is forgotten stays so during any program that keeps the promise. -/
theorem stays {p : Prog Node DbError α} (h : Assures c (fun _ _ => True) p n) (hx : Forgotten n x) :
    Assures c (fun _ n => Forgotten n x) p n :=
  (h.frame (hc.others x) (fun _ _ hguar hs => hc.own hguar hs) hx).mono fun _ _ ht => ht.2

/-- The amends that are found may be marked. -/
theorem assures_amendHashes (hmay : MayForget c may hash) :
    Assures c (IfOk fun amends n => ∀ amend ∈ amends, may amend n) (db (amendHashes hash)).run n := by
  have hstable : ∀ amends : List ItemHash, c.Stable fun n => ∀ amend ∈ amends, may amend n :=
    fun amends s t hst h amend hamend => hc.mayOthers amend s t hst (h amend hamend)
  refine assures_mapErr (stable_ifOk hstable) ((assures_query_ifOk hstable fun t _ hgiven amend hamend => ?_).mono ?_)
  · obtain ⟨p, hp, rfl⟩ := List.mem_map.1 hamend
    obtain ⟨hp, horiginal⟩ := List.mem_filter.1 hp
    exact (hmay t hgiven).2 p hp (of_decide_eq_true horiginal)
  · rintro (e | amends) t h
    · exact ifOk_error
    · exact ifOk_ok.2 (ifOk_ok.1 h)

theorem assures_cascadeForget (hmay : MayForget c may hash) (type : MessageType) :
    Assures c (fun _ _ => True) (cascadeForget hash type ctx).run n := by
  cases type with
  | post =>
    refine assures_bind (hc.assures_amendHashes hmay) (fun amends t hamends => ?_) fun _ _ _ _ _ => trivial
    have hloop : Assures c (fun _ n => ∀ amend ∈ amends, may amend n) (forEach (forgetAmend hash) amends).run t := by
      refine assures_forEach (fun s t hst h amend hamend => hc.mayOthers amend s t hst (h amend hamend))
        (fun amend hamend t ht => ?_) (ifOk_ok.1 hamends)
      refine ((hc.assures_forgetAmend (ht amend hamend)).frame ?_ ?_ ht).mono fun _ _ ht => ht.2
      · exact fun s t hst h amend hamend => hc.mayOthers amend s t hst (h amend hamend)
      · exact fun s t hguar h amend hamend => hc.mayOwn hguar (h amend hamend)
    exact hloop.mono fun _ _ _ => trivial
  | aggregate => exact hc.of_moves_true (moves_books moves_forgetElement_posts)
  | program | «instance» => exact hc.of_moves_true (moves_books moves_vm_posts)
  | store | forget => exact hc.of_moves_true (moves_pure ())

theorem assures_forgetTarget (hmay : MayForget c may hash) (address : Address) (target : Option Message) :
    Assures c (fun _ _ => True) (forgetTarget hash address target ctx).run n := by
  cases target with
  | none => exact hc.of_moves_true (moves_mapErr (moves_execute fun _ => ⟨rfl, rfl, rfl, rfl⟩))
  | some target =>
    refine assures_bind (hc.of_moves_true (moves_books (moves_forgetPins_posts address target))) (fun _ t _ => ?_)
      fun _ _ _ _ _ => trivial
    refine assures_bind (hc.assures_cascadeForget hmay _) (fun _ t _ => ?_) fun _ _ _ _ _ => trivial
    exact hc.of_moves_true (moves_mapErr (PgDatabase.moves_deleteDerivedData_books _))

/-- **A FORGET** deletes the messages of hashes it has marked. -/
theorem assures_process_forget (hmay : MayForgetListed c may ctx.env message) :
    Assures c (fun _ _ => True) (ForgetHandler.process message ctx).run n := by
  have hprocess : Assures c (IfOk fun _ _ => True) (ForgetHandler.process message ctx).run n := by
    refine assures_fromExcept_bind fun content hparse => ?_
    have hloop : Assures c (fun _ _ => True) (forEach (forgetHash message content ctx) content.hashes).run n := by
      refine assures_forEach (J := fun _ => True) (fun _ _ _ _ => trivial) (fun hash hhash t _ => ?_) trivial
      refine assures_bind (hc.of_moves_true (moves_mapErr (moves_query _))) (fun target t _ => ?_) fun _ _ _ _ _ => trivial
      have hlisted := hmay content hparse hash hhash
      exact hc.assures_marked (fun t _ hgiven => (hlisted t hgiven).1) fun _ hx =>
        hc.stays (hc.assures_forgetTarget hlisted content.address target) hx
    exact hloop.mono fun _ _ _ _ _ => trivial
  exact hprocess.mono fun _ _ _ => trivial

theorem assures_process (t : MessageType) (hmay : t = .forget → MayForgetListed c may ctx.env message) :
    Assures c (fun _ _ => True) ((handlerOf t).process message ctx).run n := by
  cases t with
  | aggregate => exact hc.of_moves_true (moves_books AggregateHandler.moves_process_posts)
  | post => exact hc.of_moves_true PostHandler.moves_process_books
  | store => exact hc.of_moves_true (moves_books StoreHandler.moves_process_posts)
  | program => exact hc.of_moves_true (moves_books ProgramHandler.moves_process_posts)
  | «instance» => exact hc.of_moves_true (moves_books InstanceHandler.moves_process_posts)
  | forget => exact hc.assures_process_forget (hmay rfl)

/-- **Every handler keeps the books**, if its hashes may be marked. -/
theorem assures_processMessage (hmay : message.messageType = .forget → MayForgetListed c may ctx.env message) :
    Assures c (fun _ _ => True) (processMessage message ctx) n := by
  have hreads : ∀ {p : Db HandlerError Unit} {n : Node}, Reads p → Assures c (fun _ _ => True) p.run n :=
    fun hp => hc.of_moves_true (moves_books hp.samePosts)
  have hrun : Assures c (fun _ _ => True) ((handlerOf message.messageType).run message ctx).run n := by
    refine assures_bind (hreads (checks_stage_validate _).moves) (fun _ _ _ => ?_) fun _ _ _ _ _ => trivial
    refine assures_bind (hreads (reads_permissionStage _)) (fun _ _ _ => ?_) fun _ _ _ _ _ => trivial
    refine assures_bind (hreads (checks_stage_checkBalance _).moves) (fun _ _ _ => ?_) fun _ _ _ _ _ => trivial
    exact hc.assures_process message.messageType hmay
  refine Assures.bind (hrun.mono fun r t _ => ?_)
  cases r with
  | ok u => exact fun _ _ => trivial
  | error e => exact fun _ _ => trivial

end MarksBooks

/-- The books change as a handler may change them, and what is forgotten stays so. -/
structure KeepsBooks (c : Contract Node) : Prop where
  same : ∀ {n n'}, SameBooks n n' → c.guar n n'
  marks : ∀ n r, c.guar n { n with forgottenMessages := n.forgottenMessages.insertNew r }
  drops : ∀ {n x}, Forgotten n x → c.guar n { n with messages := n.messages.delete (·.itemHash = x) }
  others : ∀ x, c.Stable fun n => Forgotten n x
  own : ∀ {n n' x}, c.guar n n' → Forgotten n x → Forgotten n' x

namespace KeepsBooks

variable {c : Contract Node} (hc : KeepsBooks c) {n : Node}
include hc

theorem marksBooks : MarksBooks c fun _ _ => True :=
  ⟨hc.same, fun n r _ => hc.marks n r, hc.drops, hc.others, hc.own, fun _ _ _ _ _ => trivial, fun _ _ => trivial⟩

/-- **Every handler keeps the books.** -/
theorem assures_processMessage : Assures c (fun _ _ => True) (processMessage message ctx) n :=
  hc.marksBooks.assures_processMessage fun _ _ _ _ _ _ _ => ⟨trivial, fun _ _ _ => trivial⟩

end KeepsBooks

end AlephCore
