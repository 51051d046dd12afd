import AlephCore.Handlers.Process

/-!
# PostSpec — what a post does, and when an original post is accepted

An original post adds its row; an amend adds its row and becomes the latest amend of its original.  An
original post that can be read, has a type and is sent by its own address (or comes from a trusted source)
is accepted from every state.
-/

namespace AlephCore.PostHandler

open ProgE Prog

/-! ## The effect of processing -/

section Effect

variable {message : Message} {ctx : HandlerContext} {n n' : Node} {u : Unit}

/-- The original that the look-up through the target gives. -/
def originalHashOf (targetRef : ItemHash) (n : Node) : ItemHash :=
  match n.posts.find? targetRef with
  | some target => target.originalItemHash.getD target.itemHash
  | none => targetRef

/-- A look-up that is refused gives the target itself. -/
theorem exec_originalOf_ok {targetRef originalHash : ItemHash} :
    Exec (originalOf targetRef).run n (.ok originalHash) n' ↔
      (originalHash = originalHashOf targetRef n ∨ originalHash = targetRef) ∧ n' = n := by
  unfold originalOf originalHashOf
  rw [exec_bind_ok]
  simp only [exec_attempt_ok]
  constructor
  · rintro ⟨r, t, hr, h⟩
    cases r with
    | ok target =>
      obtain ⟨rfl, rfl⟩ := exec_query_ok.1 hr
      cases htarget : t.posts.find? targetRef with
      | none =>
        rw [htarget] at h
        obtain ⟨rfl, rfl⟩ := exec_pure_ok.1 h
        exact ⟨.inl rfl, rfl⟩
      | some target =>
        rw [htarget] at h
        obtain ⟨rfl, rfl⟩ := exec_pure_ok.1 h
        exact ⟨.inl rfl, rfl⟩
    | error e =>
      obtain rfl := exec_query_error.1 hr
      obtain ⟨rfl, rfl⟩ := exec_pure_ok.1 h
      exact ⟨.inr rfl, rfl⟩
  · rintro ⟨rfl | rfl, rfl⟩
    · refine ⟨.ok (n'.posts.find? targetRef), n', exec_query_ok.2 ⟨rfl, rfl⟩, ?_⟩
      cases htarget : n'.posts.find? targetRef <;> exact exec_pure_ok.2 ⟨rfl, rfl⟩
    · exact ⟨.error "", n', exec_query_error.2 rfl, exec_pure_ok.2 ⟨rfl, rfl⟩⟩

/-- The node with a post more. -/
def posted (record : PostRecord) (n : Node) : Node := { n with posts := n.posts.insertNew record }

/-- The node with an amend more, which is the latest of its original. -/
def amended (originalHash : ItemHash) (record : PostRecord) (n : Node) : Node :=
  { n with
    posts := (n.posts.insertNew record).update (·.itemHash = originalHash) fun p =>
      { p with latestAmend := some record.itemHash } }

/-- **Processing a post** adds it, as an original or as an amend. -/
theorem exec_process_ok :
    Exec (process message ctx).run n (.ok u) n' ↔
      ∃ content, parseContent ctx.env PostContent.decode (fun e => e) message = .ok content ∧
        ((isAmend ctx.env content.postType = false ∧ n' = posted (recordOf message content none) n) ∨
        (isAmend ctx.env content.postType = true ∧ ∃ targetRef, content.ref_ = some targetRef ∧
          ∃ originalHash, (originalHash = originalHashOf targetRef n ∨ originalHash = targetRef) ∧
            n' = amended originalHash (recordOf message content (some originalHash)) n)) := by
  unfold process
  rw [exec_fromExcept_bind_ok]
  refine exists_congr fun content => and_congr_right fun _ => ?_
  cases hamend : isAmend ctx.env content.postType with
  | false =>
    rw [if_neg Bool.false_ne_true, exec_db_ok, insertPost, exec_execute_ok]
    simp [posted]
  | true =>
    rw [if_pos rfl]
    cases href : content.ref_ with
    | none => simp
    | some targetRef =>
      simp only [exec_bind_ok, exec_originalOf_ok, insertPost, updateLatestAmend, exec_db_ok, exec_execute_ok]
      constructor
      · rintro ⟨originalHash, _, ⟨horiginal, rfl⟩, _, _, rfl, rfl⟩
        exact .inr ⟨trivial, targetRef, rfl, originalHash, horiginal, rfl⟩
      · rintro (⟨h, -⟩ | ⟨-, targetRef', htarget, originalHash, horiginal, rfl⟩)
        · cases h
        · obtain rfl := Option.some.inj htarget
          exact ⟨originalHash, n, ⟨horiginal, rfl⟩, (), _, rfl, rfl⟩

end Effect

/-! ## Original posts -/

/-- An original post `content` that its sender may publish. -/
structure Original (message : Message) (ctx : HandlerContext) (content : PostContent) : Prop where
  parsed : ∃ s, message.itemContent = some s ∧ ctx.env.fromStr PostContent.decode s = .ok content ∧
    (ctx.trustedSource = true ∨ ctx.env.contentStr? s "address" = some content.address)
  typed : content.postType ≠ ""
  notAmend : isAmend ctx.env content.postType = false
  own : ctx.trustedSource = true ∨ ctx.env.SameAddress message.sender content.address

variable {message : Message} {ctx : HandlerContext} {content : PostContent} {n : Node}

theorem Original.parseContent (h : Original message ctx content) (t : String → String) :
    AlephCore.parseContent ctx.env PostContent.decode t message = .ok content := by
  obtain ⟨s, hs, hc, -⟩ := h.parsed
  exact parseContent_ok.2 ⟨s, hs, hc⟩

theorem Original.exec_validate (h : Original message ctx content) :
    Exec (validate message ctx).run n (.ok ()) n := by
  unfold validate
  refine exec_fromExcept_bind_ok.2 ⟨content, h.parseContent _, ?_⟩
  rw [if_neg h.typed, h.notAmend, if_neg Bool.false_ne_true]
  exact exec_pure_ok.2 ⟨rfl, rfl⟩

theorem Original.exec_permissionStage (h : Original message ctx content) :
    Exec (handler.permissionStage message ctx).run n (.ok ()) n := by
  unfold MessageHandler.permissionStage
  split_ifs with htrusted
  · exact exec_pure_ok.2 ⟨rfl, rfl⟩
  · obtain ⟨s, hs, hc, haddr⟩ := h.parsed
    have haddr' := haddr.resolve_left htrusted
    have hown := h.own.resolve_left htrusted
    refine exec_bind_ok.2 ⟨(), n, ?_, ?_⟩
    · simp only [AlephCore.checkPermissions, hs, Option.bind_some, haddr', requireAuthorization, if_pos hown]
      exact exec_pure_ok.2 ⟨rfl, rfl⟩
    · simp only [hs, Option.map_some, hc, h.notAmend]
      exact exec_pure_ok.2 ⟨rfl, rfl⟩

theorem Original.exec_process (h : Original message ctx content) :
    Exec (process message ctx).run n (.ok ())
      { n with posts := n.posts.insertNew (recordOf message content none) } := by
  unfold process
  refine exec_fromExcept_bind_ok.2 ⟨content, h.parseContent _, ?_⟩
  rw [h.notAmend, if_neg Bool.false_ne_true, exec_db_ok, insertPost, exec_execute_ok]

/-- **An original post of its own sender is accepted.** -/
theorem Original.exec_processMessage (h : Original message ctx content)
    (htype : message.messageType = .post) :
    Exec (processMessage message ctx) n .processed
      { n with posts := n.posts.insertNew (recordOf message content none) } := by
  rw [exec_processMessage_processed, htype]
  exact exec_run_ok.2 ⟨n, n, n, h.exec_validate, h.exec_permissionStage, exec_pure_ok.2 ⟨rfl, rfl⟩,
    h.exec_process⟩

/-- **An amend of a stored original from a trusted source is accepted.** -/
theorem exec_processMessage_amend {targetRef : ItemHash} {target : PostRecord}
    (htype : message.messageType = .post)
    (hparse : ∃ s, message.itemContent = some s ∧ ctx.env.fromStr PostContent.decode s = .ok content)
    (htyped : content.postType ≠ "") (hamend : isAmend ctx.env content.postType = true)
    (href : content.ref_ = some targetRef) (htarget : target ∈ n.posts)
    (hhash : target.itemHash = targetRef) (hplain : isAmend ctx.env target.postType = false) (htrusted : ctx.trustedSource = true) :
    Exec (processMessage message ctx) n .processed
      (amended (originalHashOf targetRef n) (recordOf message content (some (originalHashOf targetRef n))) n) := by
  have hcontent : ∀ t, AlephCore.parseContent ctx.env PostContent.decode t message = .ok content :=
    fun t => parseContent_ok.2 hparse
  have hfind : n.posts.find? targetRef = some target := Table.find?_eq_some.2 ⟨htarget, hhash⟩
  rw [exec_processMessage_processed, htype]
  refine exec_run_ok.2 ⟨n, n, n, ?_, ?_, exec_pure_ok.2 ⟨rfl, rfl⟩, ?_⟩
  · refine exec_fromExcept_bind_ok.2 ⟨content, hcontent _, ?_⟩
    rw [if_neg htyped, if_pos hamend]
    simp only [validateAmend, href, PgDatabase.getPost, exec_db_query_bind_ok, hfind, hplain]
    exact exec_pure_ok.2 ⟨rfl, rfl⟩
  · show Exec (handler.permissionStage message ctx).run n (.ok ()) n
    rw [MessageHandler.permissionStage, if_pos htrusted]
    exact exec_pure_ok.2 ⟨rfl, rfl⟩
  · exact exec_process_ok.2 ⟨content, hcontent _, .inr ⟨hamend, targetRef, href, _, .inl rfl, rfl⟩⟩

end AlephCore.PostHandler
