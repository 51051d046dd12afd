import AlephCore.Jobs.BackfillSpec
import AlephCore.Jobs.CrashSafety
import AlephCore.Jobs.LatestAmends

/-!
# BackfillPosts — the backfill agrees with the handlers

Posts that were accepted one after another, the amends of each in the order of their times, and of which some rows are
missing: the backfill gives every one of them its original and its latest amend back.  It makes a row of every other
stored post as well, accepted or not, so there must be none.
-/

namespace AlephCore.Backfill

open ProgE Prog Env PostHandler MessageProcessor

/-! ## Accepting posts in order -/

section Accepting

variable {env : Env} {message : Message} {ms : List Message} {n₀ n n' : Node}

/-- An amend is newer than the stored amends of its post. -/
def NewestAmend (env : Env) (message : Message) (n : Node) : Prop :=
  ∀ content, parseContent env PostContent.decode (fun e => e) message = .ok content →
    isAmend env content.postType = true → ∀ q ∈ n.posts, q.originalItemHash = content.ref_ → q.time < content.time

/-- POST messages that are accepted one after another, the amends of each post in the order of their times. -/
inductive AcceptedInOrder (env : Env) (n₀ : Node) : List Message → Node → Prop
  | nil : AcceptedInOrder env n₀ [] n₀
  | snoc {ms : List Message} {message : Message} {n n' : Node} (h : AcceptedInOrder env n₀ ms n)
      (htype : message.messageType = .post) (hdelivered : Delivered env message n n')
      (hnewest : NewestAmend env message n) : AcceptedInOrder env n₀ (ms ++ [message]) n'

/-- The row is the one of the message, up to its latest amend. -/
def RowOf (env : Env) (message : Message) (q : PostRecord) : Prop :=
  ∃ content, parseContent env PostContent.decode (fun e => e) message = .ok content ∧
    q.itemHash = message.itemHash ∧ q.postType = content.postType ∧ q.time = content.time ∧
    q.originalItemHash = if isAmend env content.postType = true then content.ref_ else none

/-- What holds of the posts after each message. -/
structure Ordered (env : Env) (ms : List Message) (n : Node) : Prop where
  attached : AmendsAttached env n
  latest : LatestAmends n
  plain : ∀ p ∈ n.posts, p.originalItemHash ≠ none → p.latestAmend = none
  distinct : ∀ p ∈ n.posts, ∀ q ∈ n.posts, p.originalItemHash ≠ none → p.originalItemHash = q.originalItemHash →
    p.time = q.time → p = q
  rowOf : ∀ q ∈ n.posts, ∃ message ∈ ms, RowOf env message q
  row : ∀ message ∈ ms, ∃ q ∈ n.posts, RowOf env message q

/-- A post that is accepted, as its row is added. -/
theorem delivered_post (h : Delivered env message n n') (htype : message.messageType = .post)
    (hattached : AmendsAttached env n) :
    ∃ content, parseContent env PostContent.decode (fun e => e) message = .ok content ∧
      ((isAmend env content.postType = false ∧ n'.posts = (posted (recordOf message content none) n).posts) ∨
      (isAmend env content.postType = true ∧ ∃ target ∈ n.posts, content.ref_ = some target.itemHash ∧
        target.originalItemHash = none ∧
          n'.posts = (amended target.itemHash (recordOf message content (some target.itemHash)) n).posts)) := by
  obtain ⟨ctx, rfl, receptionTime, n₁, heffect, rfl⟩ := h.accepted.effect
  cases heffect with
  | post content _ hparse horiginal => exact ⟨content, hparse, .inl ⟨horiginal, rfl⟩⟩
  | amend content originalHash target _ hparse hamend htarget href hplain horiginal =>
    have hnone : target.originalItemHash = none := (hattached.typed target htarget).2 hplain
    obtain rfl : originalHash = target.itemHash := by
      rw [hnone] at horiginal
      exact horiginal.elim id id
    exact ⟨content, hparse, .inr ⟨hamend, target, htarget, href, hnone, rfl⟩⟩
  | aggregate content htype' => rw [htype'] at htype; cases htype
  | store content htype' => rw [htype'] at htype; cases htype
  | program content htype' => rw [htype'] at htype; cases htype
  | «instance» content htype' => rw [htype'] at htype; cases htype
  | forget content htype' => rw [htype'] at htype; cases htype

theorem NewestAmend.keepsLatest (h : NewestAmend env message n) (htype : message.messageType = .post) :
    KeepsLatest env message n := by
  refine ⟨fun _ content hparse hamend q hq href => (h content hparse hamend q hq href).le, fun hforget => ?_⟩
  rw [htype] at hforget
  cases hforget

/-- **One post** keeps all that. -/
theorem Ordered.snoc (h : Ordered env ms n) (htype : message.messageType = .post) (hd : Delivered env message n n')
    (hnewest : NewestAmend env message n) : Ordered env (ms ++ [message]) n' := by
  obtain ⟨hattached', hlatest'⟩ := hd.latest h.attached h.latest
  have hnew : ∀ p ∈ n.posts, p.itemHash ≠ message.itemHash := hd.fresh.posts
  obtain ⟨content, hparse, ⟨horiginal, hposts⟩ | ⟨hamend, target, htarget, href, hplain, hposts⟩⟩ :=
    delivered_post hd htype h.attached
  · have hmem : ∀ q, q ∈ n'.posts ↔ q ∈ n.posts ∨ q = recordOf message content none := by
      intro q
      rw [hposts]
      exact mem_insertNew_fresh hnew
    have hrow : RowOf env message (recordOf message content none) := by
      refine ⟨content, hparse, rfl, rfl, rfl, ?_⟩
      rw [horiginal]
      rfl
    refine ⟨hattached', hlatest'.2 (hnewest.keepsLatest htype), fun p hp hsome => ?_,
      fun p hp q hq hsome he htime => ?_, fun q hq => ?_, fun m hm => ?_⟩
    · rcases (hmem p).1 hp with hp | rfl
      · exact h.plain p hp hsome
      · rfl
    · rcases (hmem p).1 hp with hp | rfl
      · rcases (hmem q).1 hq with hq | rfl
        · exact h.distinct p hp q hq hsome he htime
        · exact absurd he hsome
      · exact absurd rfl hsome
    · rcases (hmem q).1 hq with hq | rfl
      · obtain ⟨m, hm, hrowOf⟩ := h.rowOf q hq
        exact ⟨m, List.mem_append_left _ hm, hrowOf⟩
      · exact ⟨message, List.mem_append_right _ (List.mem_singleton_self _), hrow⟩
    · rcases List.mem_append.1 hm with hm | hm
      · obtain ⟨q, hq, hrowOf⟩ := h.row m hm
        exact ⟨q, (hmem q).2 (.inl hq), hrowOf⟩
      · obtain rfl := List.mem_singleton.1 hm
        exact ⟨_, (hmem _).2 (.inr rfl), hrow⟩
  · set r := recordOf message content (some target.itemHash) with hr
    have hmem : ∀ q, q ∈ n'.posts ↔ ((q ∈ n.posts ∨ q = r) ∧ q.itemHash ≠ target.itemHash) ∨
        q = { target with latestAmend := some r.itemHash } := by
      intro q
      rw [hposts]
      exact mem_amended_of_target hnew htarget
    have hrow : RowOf env message r := by
      refine ⟨content, hparse, rfl, rfl, rfl, ?_⟩
      rw [if_pos hamend, href]
      rfl
    have hnewer : ∀ q ∈ n.posts, q.originalItemHash = r.originalItemHash → q.time < r.time := fun q hq he =>
      hnewest content hparse hamend q hq (he.trans href.symm)
    refine ⟨hattached', hlatest'.2 (hnewest.keepsLatest htype), fun p hp hsome => ?_,
      fun p hp q hq hsome he htime => ?_, fun q hq => ?_, fun m hm => ?_⟩
    · rcases (hmem p).1 hp with ⟨hp | rfl, -⟩ | rfl
      · exact h.plain p hp hsome
      · rfl
      · exact absurd hplain hsome
    · rcases (hmem p).1 hp with ⟨hp | rfl, -⟩ | rfl
      · rcases (hmem q).1 hq with ⟨hq | rfl, -⟩ | rfl
        · exact h.distinct p hp q hq hsome he htime
        · exact absurd htime (hnewer p hp he).ne
        · exact absurd (he.trans hplain) hsome
      · rcases (hmem q).1 hq with ⟨hq | rfl, -⟩ | rfl
        · exact absurd htime.symm (hnewer q hq he.symm).ne
        · rfl
        · exact absurd (he.trans hplain) hsome
      · exact absurd hplain hsome
    · rcases (hmem q).1 hq with ⟨hq | rfl, -⟩ | rfl
      · obtain ⟨m, hm, hrowOf⟩ := h.rowOf q hq
        exact ⟨m, List.mem_append_left _ hm, hrowOf⟩
      · exact ⟨message, List.mem_append_right _ (List.mem_singleton_self _), hrow⟩
      · obtain ⟨m, hm, hrowOf⟩ := h.rowOf target htarget
        exact ⟨m, List.mem_append_left _ hm, hrowOf⟩
    · rcases List.mem_append.1 hm with hm | hm
      · obtain ⟨q, hq, hrowOf⟩ := h.row m hm
        by_cases he : q.itemHash = target.itemHash
        · obtain rfl := Table.eq_of_key hq htarget he
          exact ⟨_, (hmem _).2 (.inr rfl), hrowOf⟩
        · exact ⟨q, (hmem q).2 (.inl ⟨.inl hq, he⟩), hrowOf⟩
      · obtain rfl := List.mem_singleton.1 hm
        exact ⟨r, (hmem r).2 (.inl ⟨.inr rfl, fun he => hnew target htarget he.symm⟩), hrow⟩

/-- **Posts that are accepted in order** name their originals and their newest amends. -/
theorem AcceptedInOrder.ordered (hempty : ∀ p, p ∉ n₀.posts) (h : AcceptedInOrder env n₀ ms n) :
    Ordered env ms n := by
  induction h with
  | nil => exact ⟨⟨fun p hp => absurd hp (hempty p), fun p hp => absurd hp (hempty p)⟩,
      fun o ho => absurd ho (hempty o), fun p hp => absurd hp (hempty p), fun p hp => absurd hp (hempty p),
      fun q hq => absurd hq (hempty q), fun m hm => absurd hm List.not_mem_nil⟩
  | snoc _ htype hdelivered hnewest ih => exact ih.snoc htype hdelivered hnewest

end Accepting

/-! ## The row a message makes -/

section Row

variable {env : Env} {message : Message} {content : PostContent} {r : MessageRow}

/-- Where serde finds a string, a number, `null` or nothing in a text, the cast finds the same. -/
def CastsAlike (env : Env) (s : String) : Prop :=
  ∀ x, env.parseJson s = .ok x → ∃ jb, env.jsonb s = .ok jb ∧ ∀ k,
    (∀ t, x.get? k = some (.str t) → jb.get? k = some (.str t)) ∧
    (∀ q, x.get? k = some (.num q) → ∃ q', jb.get? k = some (.num q') ∧ q'.toRat = q.toRat) ∧
    (x.get? k = some .null → jb.get? k = some .null) ∧ (x.get? k = none → jb.get? k = none)

/-- A POST message is stored with its content, an object, and a positive time. -/
structure StoredInline (env : Env) (message : Message) (r : MessageRow) : Prop where
  itemHash : r.itemHash = message.itemHash
  messageType : r.messageType = .post
  positive : 0 < r.time
  content : ∃ s, s ≠ "" ∧ message.itemContent = some s ∧ r.itemContent = some s ∧ CastsAlike env s ∧
    ∃ fs, env.parseJson s = .ok (.obj fs)

/-- The fields of a post as `Value::get` finds them, the missing `ref` included. -/
theorem get?_of_decode {fs : List (String × Json)} (h : PostContent.decode (.obj fs) = .ok content) :
    (Json.obj fs).get? "address" = some (.str content.address) ∧
      (Json.obj fs).get? "type" = some (.str content.postType) ∧
      (content.ref_ = none → (Json.obj fs).get? "ref" = none ∨ (Json.obj fs).get? "ref" = some .null) ∧
      (∀ x, content.ref_ = some x → (Json.obj fs).get? "ref" = some (.str x)) ∧
      ∃ q, (Json.obj fs).get? "time" = some (.num q) ∧ q.toRat = content.time := by
  obtain ⟨s, hs, h⟩ := Serde.bind_ok.1 h
  obtain ⟨address, haddress, h⟩ := Serde.bind_ok.1 h
  obtain ⟨postType, htype, h⟩ := Serde.bind_ok.1 h
  obtain ⟨value, -, h⟩ := Serde.bind_ok.1 h
  obtain ⟨ref_, href, h⟩ := Serde.bind_ok.1 h
  obtain ⟨time, htime, h⟩ := Serde.bind_ok.1 h
  obtain rfl := Except.ok.inj h
  have hget : ∀ {k : String} (i : Nat), k ∈ ["address", "type", "content", "ref", "time"] →
      s.get? k i = (Json.obj fs).get? k := fun i hk => Serde.get?_of_asStruct hs hk i
  refine ⟨?_, ?_, ?_, ?_, ?_⟩
  · rw [← hget 0 (by simp)]
    exact Serde.Source.required_asString haddress
  · rw [← hget 1 (by simp)]
    exact Serde.Source.required_asString htype
  · rintro rfl
    rw [← hget 3 (by simp)]
    exact Serde.Source.optional_asString_none href
  · rintro x rfl
    rw [← hget 3 (by simp)]
    exact Serde.Source.optional_asString href
  · rw [← hget 4 (by simp)]
    exact Serde.Source.required_asF64 htime

/-- **The row that the backfill makes** of an accepted post is the one the handler made. -/
theorem StoredInline.postOf (h : StoredInline env message r)
    (hparse : parseContent env PostContent.decode (fun e => e) message = .ok content) :
    ∃ p, postOf env r = .ok (some p) ∧ p.postType = content.postType ∧ p.time = content.time ∧
      p.originalItemHash = if isAmend env content.postType = true then content.ref_ else none := by
  obtain ⟨s, hne, hs, hrs, halike, fs, hfs⟩ := h.content
  obtain ⟨s', hs', hdecode⟩ := parseContent_ok.1 hparse
  obtain rfl := Option.some.inj (hs.symm.trans hs')
  rw [fromStr, hfs] at hdecode
  obtain ⟨haddress, htype, hnoref, href, q, hq, htime⟩ := get?_of_decode hdecode
  obtain ⟨jb, hjb, hfields⟩ := halike _ hfs
  have haddress' : env.jsonbGetText jb "address" = some content.address := by
    rw [jsonbGetText, (hfields "address").1 _ haddress]
  have htype' : env.jsonbGetText jb "type" = some content.postType := by
    rw [jsonbGetText, (hfields "type").1 _ htype]
  have href' : env.jsonbGetText jb "ref" = content.ref_ := by
    cases hr : content.ref_ with
    | some x => rw [jsonbGetText, (hfields "ref").1 _ (href x hr)]
    | none =>
      rcases hnoref hr with hnone | hnull
      · rw [jsonbGetText, (hfields "ref").2.2.2 hnone]
      · rw [jsonbGetText, (hfields "ref").2.2.1 hnull]
  obtain ⟨q', hq', hsame⟩ := (hfields "time").2.1 q hq
  have htime' : contentTime env r jb = .ok content.time := by
    rw [contentTime, jsonbGetFloat, hq', ← htime, ← hsame]
    rfl
  have hcast : contentJsonb env r = .ok jb := by
    rw [contentJsonb, hrs]
    exact hjb
  refine ⟨{ itemHash := r.itemHash, address := content.address, postType := content.postType, ref_ := content.ref_,
            content := contentValue jb, channel := r.channel, time := content.time,
            originalItemHash := if env.toLowercase content.postType = "amend" then content.ref_ else none,
            latestAmend := none }, ?_, rfl, rfl, ?_⟩
  · rw [Backfill.postOf, hcast]
    show (contentTime env r jb >>= fun time => _) = _
    rw [htime']
    show Except.ok _ = _
    rw [haddress', htype', href']
    rfl
  · rw [isAmend]
    simp only [decide_eq_true_eq]

end Row

/-! ## Agreement -/

section Agreement

variable {ctx : BackfillContext} {ms : List Message} {N n s : Node} {p q : PostRecord}

/-- A row the backfill leaves and one the handlers made: the latest amend may be missing. -/
structure SamePost (p q : PostRecord) : Prop where
  itemHash : p.itemHash = q.itemHash
  postType : p.postType = q.postType
  original : p.originalItemHash = q.originalItemHash
  time : p.time = q.time
  latest : p.latestAmend = q.latestAmend ∨ p.latestAmend = none

/-- The posts of the two tables correspond. -/
structure SamePosts (s N : Node) : Prop where
  left : ∀ p ∈ s.posts, ∃ q ∈ N.posts, SamePost p q
  right : ∀ q ∈ N.posts, ∃ p ∈ s.posts, SamePost p q

/-- **The missing rows come back**, each as the handler made it. -/
theorem Filled.samePosts (h : Filled ctx.env n s) (hordered : Ordered ctx.env ms N)
    (hmissing : ∀ p ∈ n.posts, p ∈ N.posts) (hstored : ∀ m ∈ ms, ∃ r ∈ n.messages, StoredInline ctx.env m r)
    (hothers : ∀ r p, Makes ctx.env n r p → ∃ m ∈ ms, m.itemHash = r.itemHash) : SamePosts s N := by
  have hmade : ∀ m ∈ ms, ∀ r, StoredInline ctx.env m r → ∀ q ∈ N.posts, RowOf ctx.env m q →
      ∃ p, postOf ctx.env r = .ok (some p) ∧ SamePost p q := by
    rintro m hm r hr q - ⟨content, hparse, hhash, htype, htime, horiginal⟩
    obtain ⟨p, hp, hptype, hptime, hporiginal⟩ := hr.postOf hparse
    obtain ⟨-, -, -, -, hphash, -, hplatest⟩ := postOf_eq_some hp
    exact ⟨p, hp, hphash.trans (hr.itemHash.trans hhash.symm), hptype.trans htype.symm,
      hporiginal.trans horiginal.symm, hptime.trans htime.symm, .inr hplatest⟩
  refine ⟨fun p hp => ?_, fun q hq => ?_⟩
  · rcases (h.rows p).1 hp with hp | ⟨r, hr⟩
    · exact ⟨p, hmissing p hp, rfl, rfl, rfl, rfl, .inl rfl⟩
    · obtain ⟨m, hm, he⟩ := hothers r p hr
      obtain ⟨r', hr', hinline⟩ := hstored m hm
      obtain rfl := Table.eq_of_key hr.stored hr' (he.symm.trans hinline.itemHash.symm)
      obtain ⟨q, hq, hrow⟩ := hordered.row m hm
      obtain ⟨p', hp', hsame⟩ := hmade m hm r hinline q hq hrow
      obtain rfl := Option.some.inj (Except.ok.inj (hr.makes.symm.trans hp'))
      exact ⟨q, hq, hsame⟩
  · obtain ⟨m, hm, hrow⟩ := hordered.rowOf q hq
    obtain ⟨r, hr, hinline⟩ := hstored m hm
    obtain ⟨p, hp, hsame⟩ := hmade m hm r hinline q hq hrow
    by_cases hthere : r.itemHash ∈ n.posts.rows.map PostRecord.itemHash
    · obtain ⟨p', hp', he⟩ := List.mem_map.1 hthere
      have hhash : p'.itemHash = q.itemHash := by
        obtain ⟨content, -, hhash, -⟩ := hrow
        rw [he, hinline.itemHash, hhash]
      obtain rfl := Table.eq_of_key (hmissing p' hp') hq hhash
      exact ⟨p', (h.rows p').2 (.inl hp'), rfl, rfl, rfl, rfl, .inl rfl⟩
    · obtain ⟨content, hne, -, hcontent, -⟩ := hinline.content
      exact ⟨p, (h.rows p).2 (.inr ⟨r, hr, ⟨hinline.messageType, ⟨content, hcontent, hne⟩, hthere⟩, hinline.positive, hp⟩),
        hsame⟩

/-- The amends that name a post in the one table are those that name it in the other. -/
theorem SamePosts.naming (h : SamePosts s N) {a : PostRecord} {itemHash : ItemHash}
    (ha : a ∈ naming ctx.env s itemHash) : ∃ b ∈ amendsStored N itemHash, SamePost a b := by
  obtain ⟨ha, -, hname⟩ := ha
  obtain ⟨b, hb, hsame⟩ := h.left a ha
  exact ⟨b, ⟨hb, hsame.original.symm.trans hname⟩, hsame⟩

theorem SamePosts.amends (h : SamePosts s N) (hordered : Ordered ctx.env ms N) {b : PostRecord} {itemHash : ItemHash}
    (hb : b ∈ amendsStored N itemHash) : ∃ a ∈ Backfill.naming ctx.env s itemHash, SamePost a b := by
  obtain ⟨hb, hname⟩ := hb
  obtain ⟨a, ha, hsame⟩ := h.right b hb
  have hamend : isAmend ctx.env b.postType = true := by
    rw [← Bool.not_eq_false]
    intro hfalse
    rw [(hordered.attached.typed b hb).2 hfalse] at hname
    cases hname
  refine ⟨a, ⟨ha, ?_, hsame.original.trans hname⟩, hsame⟩
  rw [hsame.postType]
  exact of_decide_eq_true hamend

/-- **The newest amend that the backfill finds** is the latest amend that the handlers left. -/
theorem SamePosts.latest (h : SamePosts s N) (hordered : Ordered ctx.env ms N) (hq : q ∈ N.posts)
    (hsame : SamePost p q) : (latestAmendOf ctx s p).or p.latestAmend = q.latestAmend := by
  rcases hname : q.originalItemHash with - | o
  · rcases hordered.latest q hq hname with ⟨hnone, hempty⟩ | ⟨b, hb, hmax⟩
    · -- no amend, in neither of them
      have hnothing : latestAmendOf ctx s p = none := by
        rcases latestAmendOf_spec ctx s p with ⟨hnone, -⟩ | ⟨a, -, hmax⟩
        · exact hnone
        · obtain ⟨b, hb, -⟩ := h.naming hmax.1
          rw [hsame.itemHash, hempty] at hb
          exact absurd hb (Set.notMem_empty b)
      rw [hnothing, Option.none_or, hnone]
      exact hsame.latest.elim (·.trans hnone) id
    · -- the newest in the one is the newest in the other, since no two have the same time
      obtain ⟨a₀, ha₀, hsame₀⟩ := h.amends hordered hmax.1
      rw [← hsame.itemHash] at ha₀
      rcases latestAmendOf_spec ctx s p with ⟨-, hempty⟩ | ⟨a, ha, hmax'⟩
      · rw [hempty] at ha₀
        exact absurd ha₀ (Set.notMem_empty a₀)
      · obtain ⟨b', hb', hsame'⟩ := h.naming hmax'.1
        rw [hsame.itemHash] at hb'
        have htime : b'.time = b.time := by
          refine le_antisymm (hmax.2 b' hb') ?_
          rw [← hsame₀.time, ← hsame'.time]
          exact hmax'.2 a₀ ha₀
        have hb'name : b'.originalItemHash ≠ none := by
          rw [hb'.2]
          exact Option.some_ne_none _
        obtain rfl := hordered.distinct b' hb'.1 b hmax.1.1 hb'name (hb'.2.trans hmax.1.2.symm) htime
        rw [ha, Option.some_or, hb, hsame'.itemHash]
  · -- an amend is not amended
    have hnone : q.latestAmend = none := hordered.plain q hq (by rw [hname]; exact Option.some_ne_none o)
    have hnothing : latestAmendOf ctx s p = none := by
      rcases latestAmendOf_spec ctx s p with ⟨hnone, -⟩ | ⟨a, -, hmax⟩
      · exact hnone
      · obtain ⟨b, hb, -⟩ := h.naming hmax.1
        obtain ⟨q', hq', he, hplain⟩ := hordered.attached.attached b hb.1 _ hb.2
        obtain rfl := Table.eq_of_key hq' hq (he.trans hsame.itemHash)
        rw [hplain] at hname
        cases hname
    rw [hnothing, Option.none_or, hnone]
    exact hsame.latest.elim (·.trans hnone) id

/-- The message waits, or was rejected. -/
def Unaccepted (n : Node) (itemHash : ItemHash) : Prop :=
  (∃ p ∈ n.pendingMessages, p.itemHash = itemHash) ∨ ∃ p ∈ n.rejectedMessages, p.itemHash = itemHash

/-- What an amend changes about the posts. -/
def amendState (p : PostRecord) : Option ItemHash × Option ItemHash := (p.originalItemHash, p.latestAmend)

/-- After the backfill of `n`, every message has the original and the latest amend that the handlers left in `N`, and
no message that waits or was rejected has a row. -/
def BackfillAgrees (ctx : BackfillContext) (ms : List Message) (N n : Node) : Prop :=
  ((backfillPosts ctx).run.run n).1 = .ok () ∧
    (∀ m ∈ ms, (((backfillPosts ctx).run.run n).2.posts.find? m.itemHash).map amendState =
      (N.posts.find? m.itemHash).map amendState) ∧
    ∀ p ∈ ((backfillPosts ctx).run.run n).2.posts, (∀ m ∈ ms, m.itemHash ≠ p.itemHash) → ¬ Unaccepted n p.itemHash

/-- **The backfill makes the row of every stored POST message that has none**, accepted or not, and no other; if all
of them were accepted in order, it agrees with the handlers. -/
theorem backfillPosts_agrees (hcast : Castable ctx.env n) (hties : NoSplitTies ctx .post n)
    (hrounds : left .post 0 n < backfillBatchSize * ctx.rounds) :
    (∀ itemHash, (∃ p ∈ ((backfillPosts ctx).run.run n).2.posts, p.itemHash = itemHash) ↔
      (∃ p ∈ n.posts, p.itemHash = itemHash) ∨ ∃ r p, Makes ctx.env n r p ∧ r.itemHash = itemHash) ∧
    ∀ {n₀ N : Node} {ms : List Message}, (∀ p, p ∉ n₀.posts) → AcceptedInOrder ctx.env n₀ ms N →
      (∀ p ∈ n.posts, p ∈ N.posts) → (∀ m ∈ ms, ∃ r ∈ n.messages, StoredInline ctx.env m r) →
      (∀ r p, Makes ctx.env n r p → ∃ m ∈ ms, m.itemHash = r.itemHash) → BackfillAgrees ctx ms N n := by
  obtain ⟨s, hfilled, hrun⟩ := run_backfillPosts hcast hties hrounds
  unfold BackfillAgrees
  rw [hrun]
  refine ⟨fun itemHash => ?_, fun hempty haccepted hmissing hstored hothers => ?_⟩
  · have hhashes : (∃ p ∈ (amendsNamed ctx s).posts, p.itemHash = itemHash) ↔ ∃ p ∈ s.posts, p.itemHash = itemHash := by
      constructor
      · rintro ⟨q, hq, he⟩
        obtain ⟨p, hp, rfl⟩ := mem_amendsNamed.1 hq
        exact ⟨p, hp, he⟩
      · rintro ⟨p, hp, he⟩
        exact ⟨_, mem_amendsNamed.2 ⟨p, hp, rfl⟩, he⟩
    refine hhashes.trans ⟨?_, ?_⟩
    · rintro ⟨p, hp, he⟩
      rcases (hfilled.rows p).1 hp with hp | ⟨r, hr⟩
      · exact .inl ⟨p, hp, he⟩
      · exact .inr ⟨r, p, hr, hr.itemHash.symm.trans he⟩
    · rintro (⟨p, hp, he⟩ | ⟨r, p, hr, he⟩)
      · exact ⟨p, (hfilled.rows p).2 (.inl hp), he⟩
      · exact ⟨p, (hfilled.rows p).2 (.inr ⟨r, hr⟩), hr.itemHash.trans he⟩
  · have hordered := haccepted.ordered hempty
    have hsame := hfilled.samePosts hordered hmissing hstored hothers
    refine ⟨rfl, fun m hm => ?_, fun p' hp' hnone => ?_⟩
    · obtain ⟨q, hq, hrow⟩ := hordered.row m hm
      obtain ⟨p, hp, hpq⟩ := hsame.right q hq
      have hhash : q.itemHash = m.itemHash := by
        obtain ⟨content, -, hhash, -⟩ := hrow
        exact hhash
      have hleft : (amendsNamed ctx s).posts.find? m.itemHash =
          some { p with latestAmend := (latestAmendOf ctx s p).or p.latestAmend } :=
        Table.find?_eq_some.2 ⟨mem_amendsNamed.2 ⟨p, hp, rfl⟩, hpq.itemHash.trans hhash⟩
      rw [hleft, Table.find?_eq_some.2 ⟨hq, hhash⟩, Option.map_some, Option.map_some, amendState, amendState,
        hsame.latest hordered hq hpq, hpq.original]
    · obtain ⟨p, hp, rfl⟩ := mem_amendsNamed.1 hp'
      obtain ⟨q, hq, hpq⟩ := hsame.left p hp
      obtain ⟨m, hm, content, -, hhash, -⟩ := hordered.rowOf q hq
      exact absurd (hhash.symm.trans hpq.itemHash.symm) (hnone m hm)

end Agreement

/-! ### A note, its revision, and a revision that still waits -/

section Note

variable {ctx : BackfillContext} {n : Node}

/-- With less messages than a batch takes there is nothing to split. -/
theorem left_le_length {t : MessageType} {lastTime : Timestamp} : left t lastTime n ≤ n.messages.rows.length :=
  List.countP_le_length

theorem noSplitTies_of_short {t : MessageType} (h : n.messages.rows.length < backfillBatchSize) :
    NoSplitTies ctx t n := by
  intro lastTime time _ hcursor
  have hless := left_of_next hcursor
  have hle : left t lastTime n ≤ n.messages.rows.length := left_le_length
  omega

theorem castsAlike_ofTables {docs : List (String × Json)} {digests : List (String × String)}
    {signatures : List (String × String × String)} (s : String) :
    CastsAlike (.ofTables docs digests signatures) s := by
  intro x hx
  have hjsonb : (ofTables docs digests signatures).jsonb s = .ok x := by
    simp only [ofTables] at hx ⊢
    cases hdoc : (docs.find? fun d => decide (d.1 = s)).map Prod.snd with
    | none =>
      rw [hdoc] at hx
      cases hx
    | some y =>
      rw [hdoc] at hx
      exact hx
  exact ⟨x, hjsonb, fun k => ⟨fun t h => h, fun q h => ⟨q, h, rfl⟩, fun h => h, fun h => h⟩⟩

def noteBackfill : BackfillContext := ⟨revisionCtx.env, .stored, 1⟩

example : noteBackfill.env.toLowercase "AMEND" = "amend" := by decide +kernel

theorem note_accepted : AcceptedInOrder noteBackfill.env .empty [note] noted :=
  .snoc .nil rfl delivered_note fun _ _ _ _ hq => absurd hq List.not_mem_nil

theorem revision_accepted :
    AcceptedInOrder noteBackfill.env .empty [note, firstRevision] (revised firstRevision 1700000100 noted) := by
  refine .snoc note_accepted rfl delivered_firstRevision fun content hparse _ q hq href => ?_
  obtain ⟨s, hs, hdecode⟩ := parseContent_ok.1 hparse
  obtain rfl := Option.some.inj hs
  obtain rfl := Except.ok.inj (fromStr_firstRevision.symm.trans hdecode)
  obtain rfl := List.mem_singleton.1 hq
  cases href

/-- The node after the note and its revision, with no posts left. -/
def noteMissing : Node := { revised firstRevision 1700000100 noted with posts := .empty }

theorem noteMissing_stored : ∀ m ∈ [note, firstRevision], ∃ r ∈ noteMissing.messages, StoredInline noteBackfill.env m r := by
  intro m hm
  have hrows : ∀ m ∈ [note, firstRevision], processedRow revisionCtx.env m 1700000300 ∈ noteMissing.messages.rows := by
    decide +kernel
  have hpositive : ∀ m ∈ [note, firstRevision], 0 < (processedRow revisionCtx.env m 1700000300).time := by
    decide +kernel
  have hnote : noteBackfill.env.parseJson noteText = .ok (.obj noteFields) := by decide +kernel
  have hrevision : noteBackfill.env.parseJson (revisionText "1700000100") = .ok (.obj (revisionFields 1700000100)) := by
    decide +kernel
  refine ⟨_, hrows m hm, rfl, ?_, hpositive m hm, ?_⟩
  · rcases List.mem_cons.1 hm with rfl | hm
    · rfl
    · obtain rfl := List.mem_singleton.1 hm
      rfl
  · rcases List.mem_cons.1 hm with rfl | hm
    · exact ⟨noteText, by decide +kernel, rfl, rfl, castsAlike_ofTables _, _, hnote⟩
    · obtain rfl := List.mem_singleton.1 hm
      exact ⟨revisionText "1700000100", by decide +kernel, rfl, rfl, castsAlike_ofTables _, _, hrevision⟩

/-- Both posts come back. -/
theorem noteMissing_agrees :
    BackfillAgrees noteBackfill [note, firstRevision] (revised firstRevision 1700000100 noted) noteMissing := by
  have hshort : noteMissing.messages.rows.length < backfillBatchSize := by decide +kernel
  have hcast : Castable noteBackfill.env noteMissing := by
    have hall : ∀ r ∈ noteMissing.messages.rows, (postOf noteBackfill.env r).isOk = true := by decide +kernel
    intro r hr _ _
    cases hpost : postOf noteBackfill.env r with
    | ok o => exact ⟨o, rfl⟩
    | error e =>
      have hok := hall r hr
      rw [hpost] at hok
      cases hok
  have hhashes : ∀ r ∈ noteMissing.messages.rows, ∃ m ∈ [note, firstRevision], m.itemHash = r.itemHash := by
    decide +kernel
  refine (backfillPosts_agrees hcast (noSplitTies_of_short hshort) ?_).2 (fun _ => List.not_mem_nil)
    revision_accepted (fun p hp => absurd hp List.not_mem_nil) noteMissing_stored fun r p hr => hhashes r hr.stored
  refine lt_of_le_of_lt left_le_length ?_
  exact hshort

/-- A revision as the chain delivers it. -/
def syncedRevision : Message := { firstRevision with itemType := .inline }

/-- The node after the note, with a revision that has been synced and waits. -/
def revisionWaits : Node := ChainSync.chunkDone ⟨.stored, 1700000300, fun _ => none⟩ noted [syncedRevision]

/-- The waiting revision gets a row, and becomes the latest amend of the note. -/
theorem revisionWaits_not_agrees :
    AcceptedInOrder noteBackfill.env .empty [note] noted ∧ (∀ p ∈ revisionWaits.posts, p ∈ noted.posts) ∧
      Unaccepted revisionWaits syncedRevision.itemHash ∧
      (((backfillPosts noteBackfill).run.run revisionWaits).2.posts.find? noteHash).map amendState =
        some (none, some syncedRevision.itemHash) ∧
      ¬ BackfillAgrees noteBackfill [note] noted revisionWaits := by
  have hwaits : ∃ p ∈ revisionWaits.pendingMessages.rows, p.itemHash = syncedRevision.itemHash := by decide +kernel
  have hlatest : (((backfillPosts noteBackfill).run.run revisionWaits).2.posts.find? noteHash).map amendState =
      some (none, some syncedRevision.itemHash) := by decide +kernel
  refine ⟨note_accepted, fun p hp => hp, .inl hwaits, hlatest, fun hagrees => ?_⟩
  have hnote := hagrees.2.1 note (List.mem_singleton_self note)
  have hleft : (noted.posts.find? note.itemHash).map amendState = some (none, none) := by decide +kernel
  rw [hleft] at hnote
  exact absurd (hlatest.symm.trans hnote) (by decide)

end Note

end AlephCore.Backfill
