import AlephCore.Handlers.Books
import AlephCore.Handlers.FailClosed

/-!
# PostForest — every amend belongs to a stored original

An amend names a stored post that is no amend and has the same address, and other posts name none.  The handlers
keep that statement by statement: an amend is stored while its original is there, and FORGET deletes the amends of
a post before the post.
-/

namespace AlephCore.PostHandler

open ProgE Prog ForgetHandler

abbrev PostTable := Table PostRecord PostRecord.itemHash

/-- Posts that are no amends are roots, and amends hang on roots of the same address. -/
structure PostForest (env : Env) (posts : PostTable) : Prop where
  plain : ∀ p ∈ posts, isAmend env p.postType = false → p.originalItemHash = none
  rooted : ∀ p ∈ posts, isAmend env p.postType = true → ∃ q ∈ posts, p.originalItemHash = some q.itemHash ∧
    isAmend env q.postType = false ∧ env.SameAddress q.address p.address

variable {env : Env} {posts posts' : PostTable} {n n' : Node} {message : Message} {ctx : HandlerContext}
  {hash : ItemHash}

/-! ## What is done to the table -/

namespace PostForest

theorem amend_of_original (h : PostForest env posts) {p : PostRecord} (hp : p ∈ posts) {o : ItemHash}
    (ho : p.originalItemHash = some o) : isAmend env p.postType = true := by
  by_contra hplain
  rw [h.plain p hp (Bool.eq_false_of_not_eq_true hplain)] at ho
  cases ho

theorem insert_plain (h : PostForest env posts) {r : PostRecord} (htype : isAmend env r.postType = false)
    (hnone : r.originalItemHash = none) : PostForest env (posts.insertNew r) := by
  constructor
  · intro p hp hplain
    rcases Table.mem_insertNew.1 hp with hp | ⟨rfl, -⟩
    · exact h.plain p hp hplain
    · exact hnone
  · intro p hp hamend
    rcases Table.mem_insertNew.1 hp with hp | ⟨rfl, -⟩
    · obtain ⟨q, hq, hroot⟩ := h.rooted p hp hamend
      exact ⟨q, Table.mem_insertNew.2 (.inl hq), hroot⟩
    · rw [htype] at hamend
      cases hamend

theorem insert_amend (h : PostForest env posts) {r q : PostRecord} (htype : isAmend env r.postType = true)
    (hq : q ∈ posts) (horiginal : r.originalItemHash = some q.itemHash) (hplain : isAmend env q.postType = false)
    (hsame : env.SameAddress q.address r.address) : PostForest env (posts.insertNew r) := by
  constructor
  · intro p hp hp'
    rcases Table.mem_insertNew.1 hp with hp | ⟨rfl, -⟩
    · exact h.plain p hp hp'
    · rw [htype] at hp'
      cases hp'
  · intro p hp hamend
    rcases Table.mem_insertNew.1 hp with hp | ⟨rfl, -⟩
    · obtain ⟨q, hq, hroot⟩ := h.rooted p hp hamend
      exact ⟨q, Table.mem_insertNew.2 (.inl hq), hroot⟩
    · exact ⟨q, Table.mem_insertNew.2 (.inl hq), horiginal, hplain, hsame⟩

/-- The latest amend of a post does not matter here. -/
theorem update_latest (h : PostForest env posts) (originalHash amendHash : ItemHash) :
    PostForest env (posts.update (·.itemHash = originalHash) fun p => { p with latestAmend := some amendHash }) := by
  -- every row of one table has its counterpart in the other, up to the latest amend
  have hold : ∀ p ∈ posts.update (·.itemHash = originalHash) fun p => { p with latestAmend := some amendHash },
      ∃ q ∈ posts, p = q ∨ p = { q with latestAmend := some amendHash } := by
    intro p hp
    rcases Table.mem_update.1 hp with ⟨hp, -⟩ | ⟨q, hq, -, rfl⟩
    · exact ⟨p, hp, .inl rfl⟩
    · exact ⟨q, hq, .inr rfl⟩
  have hnew : ∀ q ∈ posts, ∃ p ∈ posts.update (·.itemHash = originalHash) fun p =>
      { p with latestAmend := some amendHash }, p = q ∨ p = { q with latestAmend := some amendHash } := by
    intro q hq
    by_cases he : q.itemHash = originalHash
    · exact ⟨_, Table.mem_update.2 (.inr ⟨q, hq, he, rfl⟩), .inr rfl⟩
    · exact ⟨q, Table.mem_update.2 (.inl ⟨hq, he⟩), .inl rfl⟩
  constructor
  · intro p hp hplain
    obtain ⟨q, hq, rfl | rfl⟩ := hold p hp
    · exact h.plain p hq hplain
    · exact h.plain q hq hplain
  · intro p hp hamend
    obtain ⟨q, hq, hpq⟩ := hold p hp
    have hamend' : isAmend env q.postType = true := by
      rcases hpq with rfl | rfl <;> exact hamend
    obtain ⟨o, ho, horiginal, hplain, hsame⟩ := h.rooted q hq hamend'
    obtain ⟨o', ho', hoo⟩ := hnew o ho
    refine ⟨o', ho', ?_⟩
    rcases hpq with rfl | rfl <;> rcases hoo with rfl | rfl <;> exact ⟨horiginal, hplain, hsame⟩

/-- A post without amends may go. -/
theorem delete (h : PostForest env posts) (hnone : ∀ p ∈ posts, p.originalItemHash ≠ some hash) :
    PostForest env (posts.delete (·.itemHash = hash)) := by
  constructor
  · exact fun p hp => h.plain p (Table.mem_delete.1 hp).1
  · intro p hp hamend
    have hkept := (Table.mem_delete.1 hp).1
    obtain ⟨q, hq, horiginal, hroot⟩ := h.rooted p hkept hamend
    refine ⟨q, Table.mem_delete.2 ⟨hq, fun he => ?_⟩, horiginal, hroot⟩
    exact hnone p hkept (horiginal.trans (congrArg some he))

/-- And so may an amend: it is the original of none. -/
theorem delete_amend (h : PostForest env posts) (hamend : ∀ p ∈ posts, p.itemHash = hash → isAmend env p.postType = true) :
    PostForest env (posts.delete (·.itemHash = hash)) := by
  refine h.delete fun p hp horiginal => ?_
  obtain ⟨q, hq, hpq, hplain, -⟩ := h.rooted p hp (h.amend_of_original hp horiginal)
  have hhash : q.itemHash = hash := Option.some.inj (hpq.symm.trans horiginal)
  rw [hamend q hq hhash] at hplain
  cases hplain

end PostForest

/-! ## Statement by statement -/

/-- The program runs alone, and every statement of it keeps the forest. -/
abbrev kept (env : Env) : Contract Node := .alone fun n => PostForest env n.posts

/-- Statements that leave the posts alone. -/
theorem assures_elsewhere {α : Type} {p : Prog Node DbError α} {J : PostTable → Prop}
    (h : Moves (fun n n' : Node => n'.posts = n.posts) p) (hs : J n.posts) :
    Assures (kept env) (fun _ n => J n.posts) p n := by
  refine h.assures stable_alone (fun s t hJ _ heq => ⟨fun hforest => ?_, ?_⟩) hs
  · show PostForest env t.posts
    rw [heq]
    exact hforest
  · show J t.posts
    rw [heq]
    exact hJ

theorem assures_samePosts {α : Type} {p : Prog Node DbError α} {J : PostTable → Prop} (h : Moves SamePosts p)
    (hs : J n.posts) : Assures (kept env) (fun _ n => J n.posts) p n :=
  assures_elsewhere (h.mono fun _ _ => SamePosts.posts) hs

theorem ifOk_of {ε α : Type} {J : Node → Prop} {p : Prog Node DbError (Except ε α)}
    (h : Assures (kept env) (fun _ n => J n) p n) : Assures (kept env) (IfOk fun _ n => J n) p n :=
  h.mono fun _ _ hJ _ _ => hJ

theorem moves_execute_posts {f : Node → Node} (h : ∀ n, (f n).posts = n.posts) :
    Moves (fun n n' : Node => n'.posts = n.posts) (db (execute f)).run := moves_mapErr (moves_execute h)

/-- The deletion of a post, where that keeps the forest. -/
theorem assures_deletePost (hkeeps : PostForest env n.posts → PostForest env (n.posts.delete (·.itemHash = hash))) :
    Assures (kept env) (IfOk fun _ n' => n'.posts = n.posts.delete (·.itemHash = hash))
      (db (PgDatabase.deleteDerivedData hash .post)).run n := by
  refine assures_mapErr_ifOk (fun _ => stable_alone) (assures_bind_ifOk (P := fun _ n' => n'.posts =
    n.posts.delete (·.itemHash = hash)) (assures_execute_ifOk stable_alone ?_) fun u t ht => ?_)
  · rintro _ rfl -
    exact ⟨hkeeps, rfl⟩
  · exact ifOk_of (assures_samePosts (J := fun posts => posts = n.posts.delete (·.itemHash = hash))
      PgDatabase.moves_deleteChainTxs_posts ht)

/-! ### What FORGET does -/

section Forgetting

variable {amendHash : ItemHash}

/-- Forgetting an amend removes its row. -/
theorem assures_forgetAmend
    (hkeeps : PostForest env n.posts → PostForest env (n.posts.delete (·.itemHash = amendHash))) :
    Assures (kept env) (IfOk fun _ n' => n'.posts = n.posts.delete (·.itemHash = amendHash))
      (forgetAmend hash amendHash).run n := by
  refine assures_bind_ifOk (P := fun _ n' => n'.posts = n.posts) ?_ fun _ t ht => ?_
  · exact ifOk_of (assures_elsewhere (J := fun posts => posts = n.posts) (moves_execute_posts fun _ => rfl) rfl)
  · refine assures_bind_ifOk (P := fun _ n' => n'.posts = n.posts.delete (·.itemHash = amendHash)) ?_ fun _ u hu => ?_
    · rw [← ht] at hkeeps ⊢
      exact assures_deletePost hkeeps
    · exact ifOk_of (assures_elsewhere (J := fun posts => posts = n.posts.delete (·.itemHash = amendHash))
        (moves_execute_posts fun _ => rfl) hu)

/-- **The amends on a list** are all gone in the end. -/
theorem assures_forgetAmends {amends : List ItemHash}
    (hamends : ∀ p ∈ n.posts, p.itemHash ∈ amends → isAmend env p.postType = true) :
    Assures (kept env) (IfOk fun _ n' => ∀ p ∈ n'.posts, p ∈ n.posts ∧ p.itemHash ∉ amends)
      (forEach (forgetAmend hash) amends).run n := by
  induction amends generalizing n with
  | nil => exact assures_pure_ifOk stable_alone fun p hp => ⟨hp, List.not_mem_nil⟩
  | cons a amends ih =>
    have hkeeps : PostForest env n.posts → PostForest env (n.posts.delete (·.itemHash = a)) :=
      fun h => h.delete_amend fun p hp he => hamends p hp (he ▸ List.mem_cons_self)
    refine assures_bind_ifOk (assures_forgetAmend hkeeps) fun _ t ht => ?_
    have hsub : ∀ p ∈ t.posts, p ∈ n.posts ∧ p.itemHash ≠ a := fun p hp => Table.mem_delete.1 (ht ▸ hp)
    have hrest := ih fun p hp hmem => hamends p (hsub p hp).1 (List.mem_cons_of_mem _ hmem)
    refine hrest.mono fun r u hr => fun u' hok p hp => ?_
    obtain ⟨hp, hnot⟩ := hr u' hok p hp
    exact ⟨(hsub p hp).1, fun hmem => (List.mem_cons.1 hmem).elim (hsub p hp).2 hnot⟩

/-- A post goes after its amends. -/
theorem assures_forgetPost (hforest : PostForest env n.posts) :
    Assures (kept env) (fun _ _ => True) (do
      cascadeForget hash .post ctx
      db (PgDatabase.deleteDerivedData hash .post)).run n := by
  have hcascade : Assures (kept env) (IfOk fun _ n' => ∀ p ∈ n'.posts, p.originalItemHash ≠ some hash)
      (cascadeForget hash .post ctx).run n := by
    refine assures_bind_ifOk (P := fun amends n' => n'.posts = n.posts ∧
      ∀ p ∈ n.posts, p.itemHash ∈ amends ↔ p.originalItemHash = some hash) ?_ fun amends t ht => ?_
    · refine assures_mapErr_ifOk (fun _ => stable_alone) (assures_query_ifOk (fun _ => stable_alone) ?_)
      rintro _ rfl -
      refine ⟨rfl, fun p hp => ?_⟩
      rw [List.mem_map]
      constructor
      · rintro ⟨q, hq, he⟩
        obtain ⟨hq, horiginal⟩ := List.mem_filter.1 hq
        rw [← Table.eq_of_key hq hp he]
        exact of_decide_eq_true horiginal
      · exact fun horiginal => ⟨p, List.mem_filter.2 ⟨hp, decide_eq_true horiginal⟩, rfl⟩
    · obtain ⟨hposts, hamends⟩ := ht
      rw [← hposts] at hamends hforest
      refine (assures_forgetAmends fun p hp hmem => ?_).mono fun r u hr => fun u' hok p hp horiginal => ?_
      · exact hforest.amend_of_original hp ((hamends p hp).1 hmem)
      · obtain ⟨hp, hnot⟩ := hr u' hok p hp
        exact hnot ((hamends p hp).2 horiginal)
  refine assures_bind hcascade (fun _ t ht => ?_) fun _ _ _ _ _ => trivial
  exact (assures_deletePost fun h => h.delete (ht _ rfl)).mono fun _ _ _ => trivial

/-- What goes with a stored message. -/
theorem assures_forgetMessage {address : Address} {target : Message} (hforest : PostForest env n.posts) :
    Assures (kept env) (fun _ _ => True) (forgetMessage hash address target ctx).run n := by
  refine assures_bind (assures_samePosts (moves_forgetPins_posts address target) hforest) (fun _ t ht => ?_)
    fun _ _ _ _ _ => trivial
  by_cases htype : target.messageType = .post
  · rw [htype]
    exact assures_forgetPost ht
  · have hcascade : Moves SamePosts (cascadeForget hash target.messageType ctx).run := by
      cases htarget : target.messageType with
      | post => exact absurd htarget htype
      | aggregate => exact moves_forgetElement_posts
      | program | «instance» => exact moves_vm_posts
      | store | forget => exact moves_pure ()
    have hdelete : Moves SamePosts (db (PgDatabase.deleteDerivedData hash target.messageType)).run :=
      moves_mapErr (PgDatabase.moves_deleteDerivedData_posts htype)
    exact assures_samePosts (J := fun _ => True) (moves_bind hcascade fun _ => hdelete) trivial

/-- **FORGET** keeps the forest, statement by statement. -/
theorem assures_process_forget (hforest : PostForest env n.posts) :
    Assures (kept env) (fun _ _ => True) (ForgetHandler.process message ctx).run n := by
  have hstays : ∀ {n : Node} {p : Prog Node DbError (Except HandlerError Unit)}, PostForest env n.posts →
      Assures (kept env) (fun _ _ => True) p n → Assures (kept env) (fun _ n => PostForest env n.posts) p n :=
    fun hn h => (h.frame stable_alone (fun _ _ hguar => hguar) hn).mono fun _ _ hpost => hpost.2
  refine assures_bind (assures_samePosts (moves_fromExcept _) hforest) (fun content t ht => ?_) fun _ _ _ _ _ => trivial
  refine (assures_forEach stable_alone (fun hash _ u hu => hstays hu ?_) ht).mono fun _ _ _ => trivial
  refine assures_bind (assures_samePosts (moves_mapErr (moves_query _)) hu) (fun target v hv => ?_)
    fun _ _ _ _ _ => trivial
  refine assures_bind (assures_elsewhere (moves_execute_posts fun _ => rfl) hv) (fun _ w hw => ?_)
    fun _ _ _ _ _ => trivial
  have htarget : Assures (kept env) (fun _ _ => True) (forgetTarget hash content.address target ctx).run w := by
    cases target with
    | none => exact assures_elsewhere (J := fun _ => True) (moves_execute_posts fun _ => rfl) trivial
    | some target => exact assures_forgetMessage hw
  refine assures_bind htarget (fun _ w' _ => ?_) fun _ _ _ _ _ => trivial
  exact assures_elsewhere (J := fun _ => True) (moves_execute_posts fun _ => rfl) trivial

end Forgetting

/-! ### What the handler of posts does -/

/-- The message may be stored: if it is an amend, a post that is no amend and has its address is there. -/
def Rooted (message : Message) (ctx : HandlerContext) (posts : PostTable) : Prop :=
  ∀ content, parseContent ctx.env PostContent.decode (fun e => e) message = .ok content →
    isAmend ctx.env content.postType = true → ∀ targetRef, content.ref_ = some targetRef →
      ∃ target ∈ posts, target.itemHash = targetRef ∧ isAmend ctx.env target.postType = false ∧
        ctx.env.SameAddress target.address content.address

theorem assures_insertPost {r : PostRecord} (h : PostForest env n.posts → PostForest env (n.posts.insertNew r)) :
    Assures (kept env) (fun _ _ => True) (db (insertPost r)).run n := by
  refine assures_mapErr (fun _ => stable_alone) (assures_sql (fun _ => stable_alone) ?_)
  rintro _ rfl -
  exact ⟨h, trivial, fun _ => trivial⟩

theorem assures_updateLatestAmend {originalHash amendHash : ItemHash} :
    Assures (kept env) (fun _ _ => True) (db (updateLatestAmend originalHash amendHash)).run n := by
  refine assures_mapErr (fun _ => stable_alone) (assures_sql (fun _ => stable_alone) ?_)
  rintro _ rfl -
  exact ⟨fun h => h.update_latest originalHash amendHash, trivial, fun _ => trivial⟩

/-- **A post** that may be stored keeps the forest, statement by statement. -/
theorem assures_process_post (hforest : PostForest ctx.env n.posts) (hroot : Rooted message ctx n.posts) :
    Assures (kept ctx.env) (fun _ _ => True) (process message ctx).run n := by
  suffices Assures (kept ctx.env) (IfOk fun _ _ => True) (process message ctx).run n from this.mono fun _ _ _ => trivial
  refine assures_fromExcept_bind fun content hparse => ?_
  split_ifs with hamend
  · cases href : content.ref_ with
    | none => exact assures_pure stable_alone fun _ _ => trivial
    | some targetRef =>
      obtain ⟨target, htarget, hhash, hplain, hsame⟩ := hroot content hparse hamend targetRef href
      have hfind : n.posts.find? targetRef = some target := Table.find?_eq_some.2 ⟨htarget, hhash⟩
      have hreads : Moves (fun n n' : Node => n = n') (originalOf targetRef).run := by
        refine moves_bind (moves_attempt (moves_query _)) fun found => ?_
        split <;> exact moves_pure _
      refine assures_bind (assures_reads hreads) (fun originalHash t ht => ?_) fun _ _ _ _ _ _ _ => trivial
      obtain ⟨rfl, hexec⟩ := ht
      have horiginal : originalHash = target.itemHash := by
        have hroots := (exec_originalOf_ok.1 hexec).1
        simp only [originalHashOf, hfind, hforest.plain target htarget hplain, Option.getD_none] at hroots
        exact hroots.elim id fun h => h.trans hhash.symm
      refine (assures_bind (assures_insertPost fun h => ?_) (fun _ _ _ => assures_updateLatestAmend)
        fun _ _ _ _ _ => trivial).mono fun _ _ _ => fun _ _ => trivial
      rw [horiginal]
      exact h.insert_amend hamend htarget rfl hplain hsame
  · have hplain : isAmend ctx.env content.postType = false := Bool.eq_false_of_not_eq_true hamend
    exact (assures_insertPost fun h => h.insert_plain hplain rfl).mono fun _ _ _ => fun _ _ => trivial

/-- What passes the checks, with every read answered, may be stored. -/
theorem rooted_of_checks (htype : message.messageType = .post) (huntrusted : ctx.trustedSource = false)
    (hrun : ((handlerOf message.messageType).checks message ctx).run.run n = (.ok (), n')) :
    Rooted message ctx n.posts := by
  intro content hparse hamend targetRef href
  obtain ⟨hvalidate, t, hstage⟩ := run_checks_ok hrun
  have hparsed := parseContent_ok.1 hparse
  rw [htype] at hvalidate hstage
  obtain ⟨-, targetRef', href', target, htarget, hhash, hplain⟩ := exec_validate_amend hvalidate hparsed hamend
  obtain rfl := Option.some.inj (href.symm.trans href')
  rw [MessageHandler.permissionStage, huntrusted, if_neg Bool.false_ne_true] at hstage
  exact ⟨target, htarget, hhash, hplain, run_checkPermissions_amend hparsed href hamend hstage target htarget hhash⟩

/-! ## Runs -/

/-- A message that is not from a trusted source is processed, or something else happens.  The reads of its checks
are answered; its process stage may be broken off anywhere, by a statement that fails or because the node stops. -/
inductive PostStep (env : Env) (n : Node) : Node → Prop
  | processed {n' : Node} (message : Message) (ctx : HandlerContext) (henv : ctx.env = env)
      (huntrusted : ctx.trustedSource = false)
      (hchecks : (((handlerOf message.messageType).checks message ctx).run.run n).1 = .ok ())
      (hprocess : Reach ((handlerOf message.messageType).process message ctx).run n n') : PostStep env n n'
  | others {n' : Node} (hposts : n'.posts = n.posts) : PostStep env n n'

/-- The processing of a message in which no statement fails is such a step, whether it is accepted or not. -/
theorem postStep_processMessage (henv : ctx.env = env) (huntrusted : ctx.trustedSource = false) :
    PostStep env n ((processMessage message ctx).run n).2 := by
  rw [processMessage_eq, run_bind]
  have hexec := exec_run ((handlerOf message.messageType).checks message ctx).run n
  rcases hchecks : ((handlerOf message.messageType).checks message ctx).run.run n with ⟨r, t⟩
  rw [hchecks] at hexec
  obtain rfl := (reads_checks _).exec hexec
  cases r with
  | error e => exact .others rfl
  | ok u =>
    refine .processed message ctx henv huntrusted (congrArg Prod.fst hchecks) ?_
    show Reach _ t ((afterChecks message ctx (.ok ())).run t).2
    rw [afterChecks, run_bind]
    have hprocess := (exec_run ((handlerOf message.messageType).process message ctx).run t).reach
    rcases hrun : ((handlerOf message.messageType).process message ctx).run.run t with ⟨r, t'⟩
    rw [hrun] at hprocess
    cases r <;> exact hprocess

theorem PostStep.forest (h : PostStep env n n') (hforest : PostForest env n.posts) : PostForest env n'.posts := by
  cases h with
  | others hposts =>
    rw [hposts]
    exact hforest
  | processed message ctx henv huntrusted hchecks hprocess =>
    subst henv
    have hassures : Assures (kept ctx.env) (fun _ _ => True)
        ((handlerOf message.messageType).process message ctx).run n := by
      rcases hrun : ((handlerOf message.messageType).checks message ctx).run.run n with ⟨r, t⟩
      obtain rfl : r = .ok () := by
        rw [hrun] at hchecks
        exact hchecks
      cases htype : message.messageType with
      | post => exact assures_process_post hforest (rooted_of_checks htype huntrusted hrun)
      | forget => exact assures_process_forget hforest
      | aggregate => exact assures_samePosts (J := fun _ => True) AggregateHandler.moves_process_posts trivial
      | store => exact assures_samePosts (J := fun _ => True) StoreHandler.moves_process_posts trivial
      | program => exact assures_samePosts (J := fun _ => True) ProgramHandler.moves_process_posts trivial
      | «instance» => exact assures_samePosts (J := fun _ => True) InstanceHandler.moves_process_posts trivial
    exact hassures.reach hprocess hforest

/-- **Amends hang on stored posts of the same address, and posts that are no amends on none**, in every state that
messages from untrusted sources lead to; so the look-up of the original of an amend ends after one step. -/
theorem postForest_of_run {n₀ : Node} (hempty : ∀ p, p ∉ n₀.posts)
    (hrun : Relation.ReflTransGen (PostStep env) n₀ n) :
    PostForest env n.posts ∧
      ∀ p ∈ n.posts, ∀ o, p.originalItemHash = some o → originalHashOf o n = o := by
  have hforest : PostForest env n.posts := by
    induction hrun with
    | refl => exact ⟨fun p hp => absurd hp (hempty p), fun p hp => absurd hp (hempty p)⟩
    | tail _ hstep ih => exact hstep.forest ih
  refine ⟨hforest, fun p hp o ho => ?_⟩
  obtain ⟨q, hq, horiginal, hplain, -⟩ := hforest.rooted p hp (hforest.amend_of_original hp ho)
  obtain rfl := Option.some.inj (horiginal.symm.trans ho)
  have hfind : n.posts.find? q.itemHash = some q := Table.find?_eq_some.2 ⟨hq, rfl⟩
  simp only [originalHashOf, hfind, hforest.plain q hq hplain, Option.getD_none]

/-! ### A note, and an amend of it by its author -/

section Author

/-- The amend with its author as the sender. -/
def authorAmend : Message := { amendMessage "amend" with sender := noteOwner }

/-- A post of its own sender passes the checks, if it is valid and, as an amend, has the address of its original. -/
theorem run_checks_post {content : PostContent} (htype : message.messageType = .post)
    (hvalidate : Exec (validate message ctx).run n (.ok ()) n) (hpermits : Permissions.Permits ctx.env n message)
    (hparse : ∃ s, message.itemContent = some s ∧ ctx.env.fromStr PostContent.decode s = .ok content)
    (hsame : ∀ target ∈ n.posts, content.ref_ = some target.itemHash →
      ctx.env.SameAddress target.address content.address) (huntrusted : ctx.trustedSource = false) :
    (((handlerOf message.messageType).checks message ctx).run.run n).1 = .ok () := by
  obtain ⟨s, hs, hdecode⟩ := hparse
  have hpermissions : (checkPermissions message ctx).run.run n = (.ok (), n) := by
    have hdefault : (AlephCore.checkPermissions message ctx).run.run n = (.ok (), n) :=
      checks_checkPermissions.run_ok (exec_checkPermissions_ok.2 ⟨rfl, hpermits⟩)
    rw [checkPermissions, run_bind_ok hdefault]
    simp only [hs, Option.map_some, hdecode]
    split
    · rename_i targetRef _ href
      rw [checkAmendAddress, run_bind_ok (run_attempt _ _)]
      simp only [PgDatabase.getPost, run_query]
      cases hfind : n.posts.find? targetRef with
      | none => rfl
      | some target =>
        obtain ⟨htarget, hhash⟩ := Table.find?_eq_some.1 hfind
        simp only [if_pos (hsame target htarget (href.trans (congrArg some hhash.symm)))]
        rfl
    · rfl
  have hvalid : (handler.validate message ctx).run.run n = (.ok (), n) := checks_validate.run_ok hvalidate
  have hstage : (handler.permissionStage message ctx).run.run n = (.ok (), n) := by
    rw [MessageHandler.permissionStage, huntrusted, if_neg Bool.false_ne_true]
    exact hpermissions
  have hrun : (handler.checks message ctx).run.run n = (.ok (), n) := by
    rw [MessageHandler.checks, run_bind_ok hvalid, run_bind_ok hstage]
    rfl
  rw [htype]
  exact congrArg Prod.fst hrun

example : isAmend noteCtx.env "amend" = true := by decide +kernel

/-- The forest of the note and the amend. -/
def noteAndAmend : Node :=
  amended noteHash (recordOf authorAmend (amendContent "amend") (some noteHash))
    (posted (recordOf noteMessage noteContent none) .empty)

theorem decode_note : noteCtx.env.fromStr PostContent.decode noteText = .ok noteContent := by decide +kernel

theorem postStep_note : PostStep noteCtx.env .empty (posted (recordOf noteMessage noteContent none) .empty) := by
  have haddress : noteCtx.env.contentStr? noteText "address" = some noteOwner := by decide +kernel
  have horiginal : Original noteMessage noteCtx noteContent :=
    ⟨⟨noteText, rfl, decode_note, .inr haddress⟩, by decide, by decide +kernel, .inr rfl⟩
  have hpermits : Permissions.Permits noteCtx.env .empty noteMessage :=
    (Permissions.permits_iff rfl haddress).2 (.inl rfl)
  have hnone : ∀ target ∈ Node.empty.posts, noteContent.ref_ = some target.itemHash →
      noteCtx.env.SameAddress target.address noteContent.address := fun _ h => absurd h List.not_mem_nil
  have hchecks := run_checks_post rfl horiginal.exec_validate hpermits ⟨noteText, rfl, decode_note⟩ hnone rfl
  have hprocess : Exec (process noteMessage noteCtx).run .empty (.ok ())
      (posted (recordOf noteMessage noteContent none) .empty) := horiginal.exec_process
  exact .processed noteMessage noteCtx rfl rfl hchecks hprocess.reach

theorem postStep_amend :
    PostStep noteCtx.env (posted (recordOf noteMessage noteContent none) .empty) noteAndAmend := by
  obtain ⟨hjson, hdecode, hamend⟩ := decode_amend (show "amend" ∈ ["amend", "Amend"] by simp)
  have haddress : noteCtx.env.contentStr? (amendText "amend") "address" = some noteOwner := by decide +kernel
  have hlookup : AmendLookup authorAmend noteCtx (posted (recordOf noteMessage noteContent none) .empty)
      (amendContent "amend") noteHash :=
    { isPost := rfl, untrusted := rfl, typed := by decide, amend := hamend, names := rfl
      parsed := ⟨amendText "amend", rfl, by rw [Env.fromStr, hjson]; exact hdecode⟩
      original := ⟨_, List.mem_singleton_self _, rfl, by decide +kernel⟩
      permitted := (Permissions.permits_iff rfl haddress).2 (.inl rfl) }
  have hsame : ∀ target ∈ (posted (recordOf noteMessage noteContent none) .empty).posts,
      (amendContent "amend").ref_ = some target.itemHash →
        noteCtx.env.SameAddress target.address (amendContent "amend").address := by
    intro target htarget _
    rw [List.mem_singleton.1 htarget]
    rfl
  have hchecks := run_checks_post rfl hlookup.exec_validate hlookup.permitted hlookup.parsed hsame rfl
  have hprocess : Exec (process authorAmend noteCtx).run (posted (recordOf noteMessage noteContent none) .empty)
      (.ok ()) noteAndAmend :=
    exec_process_ok.2 ⟨_, parseContent_ok.2 hlookup.parsed, .inr ⟨hamend, noteHash, rfl, noteHash, .inr rfl, rfl⟩⟩
  exact .processed authorAmend noteCtx rfl rfl hchecks hprocess.reach

/-- The amend is stored beside the note. -/
theorem noteAndAmend_forest :
    noteAndAmend.posts.rows.map (fun p => (p.itemHash, p.originalItemHash)) =
        [(noteHash, none), (authorAmend.itemHash, some noteHash)] ∧
      PostForest noteCtx.env noteAndAmend.posts := by
  have hrun : Relation.ReflTransGen (PostStep noteCtx.env) .empty noteAndAmend :=
    (Relation.ReflTransGen.single postStep_note).tail postStep_amend
  exact ⟨by decide +kernel, (postForest_of_run (fun _ => List.not_mem_nil) hrun).1⟩

end Author

end AlephCore.PostHandler
