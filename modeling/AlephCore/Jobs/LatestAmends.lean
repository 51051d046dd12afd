import AlephCore.Jobs.Delivery
import AlephCore.Lib.Latest

/-!
# LatestAmends — the latest amend of a post

An original post should name the newest of its stored amends.  An accepted amend always becomes the latest,
and a forgotten one stays the latest: the posts are right as long as amends arrive in the order of their times
and the latest one is not forgotten before its original.
-/

namespace AlephCore.MessageProcessor

open Prog ForgetHandler PostHandler

/-! ## The invariant -/

/-- The stored amends of a post. -/
def amendsStored (n : Node) (original : ItemHash) : Set PostRecord :=
  {p | p ∈ n.posts ∧ p.originalItemHash = some original}

/-- A post without amends has no latest amend; any other one names its newest. -/
def LatestAmendOf (n : Node) (o : PostRecord) : Prop :=
  (o.latestAmend = none ∧ amendsStored n o.itemHash = ∅) ∨
    ∃ a, o.latestAmend = some a.itemHash ∧ IsLatest PostRecord.time (amendsStored n o.itemHash) a

/-- Every original post names the newest of its amends. -/
def LatestAmends (n : Node) : Prop :=
  ∀ o ∈ n.posts, o.originalItemHash = none → LatestAmendOf n o

/-- Amends are the posts with an original, and their originals are stored. -/
structure AmendsAttached (env : Env) (n : Node) : Prop where
  typed : ∀ p ∈ n.posts, p.originalItemHash = none ↔ isAmend env p.postType = false
  attached : ∀ p ∈ n.posts, ∀ o, p.originalItemHash = some o →
    ∃ q ∈ n.posts, q.itemHash = o ∧ q.originalItemHash = none

/-- An amend is not older than the amends of its original, and a FORGET takes the latest amend of a post only
together with the post. -/
structure KeepsLatest (env : Env) (message : Message) (n : Node) : Prop where
  timely : message.messageType = .post → ∀ content,
    parseContent env PostContent.decode (fun e => e) message = .ok content →
      isAmend env content.postType = true →
        ∀ q ∈ n.posts, q.originalItemHash = content.ref_ → q.time ≤ content.time
  spared : message.messageType = .forget → ∀ content,
    parseContent env ForgetContent.decode (fun e => e) message = .ok content →
      ∀ o ∈ n.posts, o.originalItemHash = none → (∀ t ∈ targets n [] content.hashes, ¬ t.TakesPost o) →
        ∀ a ∈ n.posts, o.latestAmend = some a.itemHash → ∀ t ∈ targets n [] content.hashes, ¬ t.TakesPost a

variable {env : Env} {message : Message} {ctx : HandlerContext} {n n' : Node}

/-! ## One message -/

theorem latestAmends_congr (h : n'.posts = n.posts) : LatestAmends n' ↔ LatestAmends n := by
  unfold LatestAmends LatestAmendOf amendsStored
  rw [h]

theorem AmendsAttached.congr (hattached : AmendsAttached env n) (h : n'.posts = n.posts) :
    AmendsAttached env n' := by
  obtain ⟨htyped, hattached⟩ := hattached
  exact ⟨by rwa [h], by rwa [h]⟩

/-- A message that is neither a post nor a FORGET has nothing to keep. -/
theorem KeepsLatest.of_type (hpost : message.messageType ≠ .post) (hforget : message.messageType ≠ .forget) :
    KeepsLatest env message n :=
  ⟨fun h => absurd h hpost, fun h => absurd h hforget⟩

/-- An original post. -/
theorem posted_latest {r : PostRecord} (hfresh : ∀ p ∈ n.posts, p.itemHash ≠ r.itemHash)
    (horiginal : r.originalItemHash = none) (hlatest : r.latestAmend = none)
    (htype : isAmend env r.postType = false) (hattached : AmendsAttached env n) (h : LatestAmends n) :
    AmendsAttached env (posted r n) ∧ LatestAmends (posted r n) := by
  have hposts : ∀ p, p ∈ (posted r n).posts ↔ p ∈ n.posts ∨ p = r := fun p => mem_insertNew_fresh hfresh
  have hamends : ∀ o, amendsStored (posted r n) o = amendsStored n o := by
    intro o
    ext p
    constructor
    · rintro ⟨hp, ho⟩
      rcases (hposts p).1 hp with hp | rfl
      · exact ⟨hp, ho⟩
      · rw [horiginal] at ho
        cases ho
    · rintro ⟨hp, ho⟩
      exact ⟨(hposts p).2 (.inl hp), ho⟩
  refine ⟨⟨fun p hp => ?_, fun p hp o ho => ?_⟩, fun o ho hnone => ?_⟩
  · rcases (hposts p).1 hp with hp | rfl
    · exact hattached.typed p hp
    · exact iff_of_true horiginal htype
  · rcases (hposts p).1 hp with hp | rfl
    · obtain ⟨q, hq, hqo⟩ := hattached.attached p hp o ho
      exact ⟨q, (hposts q).2 (.inl hq), hqo⟩
    · rw [horiginal] at ho
      cases ho
  · rw [LatestAmendOf, hamends]
    rcases (hposts o).1 ho with ho | rfl
    · exact h o ho hnone
    · refine .inl ⟨hlatest, Set.eq_empty_of_forall_notMem ?_⟩
      rintro p ⟨hp, hpo⟩
      obtain ⟨q, hq, hqo, -⟩ := hattached.attached p hp _ hpo
      exact hfresh q hq hqo

/-- An amend becomes the latest of its original, whatever its time. -/
theorem amended_latest {r target : PostRecord} (hfresh : ∀ p ∈ n.posts, p.itemHash ≠ r.itemHash)
    (htarget : target ∈ n.posts) (hplain : target.originalItemHash = none)
    (horiginal : r.originalItemHash = some target.itemHash) (htype : isAmend env r.postType = true)
    (hattached : AmendsAttached env n) (h : LatestAmends n) :
    AmendsAttached env (amended target.itemHash r n) ∧
      (LatestAmends (amended target.itemHash r n) ↔
        ∀ q ∈ n.posts, q.originalItemHash = some target.itemHash → q.time ≤ r.time) := by
  -- Only the row of the original changes, and it is no amend.
  have hposts : ∀ p, p ∈ (amended target.itemHash r n).posts ↔
      ((p ∈ n.posts ∨ p = r) ∧ p.itemHash ≠ target.itemHash) ∨
        p = { target with latestAmend := some r.itemHash } := fun p => mem_amended_of_target hfresh htarget
  have hnot : ∀ p ∈ n.posts, ∀ o, p.originalItemHash = some o → p.itemHash ≠ target.itemHash := by
    rintro p hp o ho he
    rw [Table.eq_of_key hp htarget he, hplain] at ho
    cases ho
  have hrow : r ∈ (amended target.itemHash r n).posts :=
    (hposts r).2 (.inl ⟨.inr rfl, fun he => hfresh target htarget he.symm⟩)
  have hamends : ∀ o, amendsStored (amended target.itemHash r n) o =
      {p | p ∈ amendsStored n o ∨ p = r ∧ o = target.itemHash} := by
    intro o
    ext p
    constructor
    · rintro ⟨hp, ho⟩
      rcases (hposts p).1 hp with ⟨hp | rfl, -⟩ | rfl
      · exact .inl ⟨hp, ho⟩
      · exact .inr ⟨rfl, Option.some.inj (ho.symm.trans horiginal)⟩
      · rw [show ({ target with latestAmend := some r.itemHash } : PostRecord).originalItemHash = none from hplain]
          at ho
        cases ho
    · rintro (⟨hp, ho⟩ | ⟨rfl, rfl⟩)
      · exact ⟨(hposts p).2 (.inl ⟨.inl hp, hnot p hp o ho⟩), ho⟩
      · exact ⟨hrow, horiginal⟩
  have hself : amendsStored (amended target.itemHash r n) target.itemHash =
      insert r (amendsStored n target.itemHash) := by
    rw [hamends]
    ext p
    constructor
    · rintro (hp | ⟨rfl, -⟩)
      · exact Set.mem_insert_of_mem _ hp
      · exact Set.mem_insert _ _
    · rintro (rfl | hp)
      · exact .inr ⟨rfl, rfl⟩
      · exact .inl hp
  refine ⟨⟨fun p hp => ?_, fun p hp o ho => ?_⟩, ?_, fun htimely o ho hnone => ?_⟩
  · rcases (hposts p).1 hp with ⟨hp | rfl, -⟩ | rfl
    · exact hattached.typed p hp
    · rw [horiginal, htype]
      simp
    · exact hattached.typed target htarget
  · have hq : ∃ q ∈ n.posts, q.itemHash = o ∧ q.originalItemHash = none := by
      rcases (hposts p).1 hp with ⟨hp | rfl, -⟩ | rfl
      · exact hattached.attached p hp o ho
      · rw [horiginal] at ho
        exact ⟨target, htarget, Option.some.inj ho, hplain⟩
      · exact hattached.attached target htarget o ho
    obtain ⟨q, hq, rfl, hqo⟩ := hq
    by_cases he : q.itemHash = target.itemHash
    · exact ⟨_, (hposts _).2 (.inr rfl), he.symm, hplain⟩
    · exact ⟨q, (hposts q).2 (.inl ⟨.inl hq, he⟩), rfl, hqo⟩
  · intro hlatest q hq hqo
    rcases hlatest _ ((hposts _).2 (.inr rfl)) hplain with ⟨hnone, -⟩ | ⟨a, ha, hmax⟩
    · cases hnone
    · have hmax' : IsLatest PostRecord.time (insert r (amendsStored n target.itemHash)) a := hself ▸ hmax
      obtain rfl : a = r := Table.eq_of_key hmax.1.1 hrow (Option.some.inj ha).symm
      exact IsLatest.insert_self_iff.1 hmax' q ⟨hq, hqo⟩
  · rcases (hposts o).1 ho with ⟨ho | rfl, hne⟩ | rfl
    · rw [LatestAmendOf, hamends]
      have hsame : {p | p ∈ amendsStored n o.itemHash ∨ p = r ∧ o.itemHash = target.itemHash} =
          amendsStored n o.itemHash := by
        ext p
        exact or_iff_left fun hp => hne hp.2
      rw [hsame]
      exact h o ho hnone
    · rw [horiginal] at hnone
      cases hnone
    · refine .inr ⟨r, rfl, ?_⟩
      rw [show ({ target with latestAmend := some r.itemHash } : PostRecord).itemHash = target.itemHash from rfl,
        hself]
      exact IsLatest.insert_self_iff.2 fun q hq => htimely q hq.1 hq.2

/-- A FORGET only takes posts away, an original together with its amends. -/
theorem forgotten_latest {ts : List Target} {gone : List ItemHash} (hgone : TargetsGone ts gone n n')
    (hattached : AmendsAttached env n) (h : LatestAmends n) :
    AmendsAttached env n' ∧
      (LatestAmends n' ↔ ∀ o ∈ n.posts, o.originalItemHash = none → (∀ t ∈ ts, ¬ t.TakesPost o) →
        ∀ a ∈ n.posts, o.latestAmend = some a.itemHash → ∀ t ∈ ts, ¬ t.TakesPost a) := by
  have hsub : ∀ o, amendsStored n' o ⊆ amendsStored n o := fun o p hp => ⟨((hgone.posts p).1 hp.1).1, hp.2⟩
  refine ⟨⟨fun p hp => hattached.typed p ((hgone.posts p).1 hp).1, fun p hp o ho => ?_⟩, ?_, ?_⟩
  · obtain ⟨hp, hleft⟩ := (hgone.posts p).1 hp
    obtain ⟨q, hq, rfl, hqo⟩ := hattached.attached p hp o ho
    refine ⟨q, (hgone.posts q).2 ⟨hq, ?_⟩, rfl, hqo⟩
    rintro t ht ⟨htype, hown | horig⟩
    · exact hleft t ht ⟨htype, .inr (ho.trans (congrArg some hown))⟩
    · rw [hqo] at horig
      cases horig
  · intro hlatest o ho hnone hstays a ha hname
    rcases hlatest o ((hgone.posts o).2 ⟨ho, hstays⟩) hnone with ⟨hno, -⟩ | ⟨b, hb, hmax⟩
    · rw [hno] at hname
      cases hname
    · obtain ⟨hb', hleft⟩ := (hgone.posts b).1 hmax.1.1
      obtain rfl : b = a := Table.eq_of_key hb' ha (Option.some.inj (hb.symm.trans hname))
      exact hleft
  · intro hspared o ho hnone
    obtain ⟨ho, hstays⟩ := (hgone.posts o).1 ho
    rcases h o ho hnone with ⟨hno, hempty⟩ | ⟨a, ha, hmax⟩
    · exact .inl ⟨hno, Set.subset_eq_empty (hsub o.itemHash) hempty⟩
    · refine .inr ⟨a, ha, hmax.subset (hsub o.itemHash) ⟨?_, hmax.1.2⟩⟩
      exact (hgone.posts a).2 ⟨hmax.1.1, hspared o ho hnone hstays a hmax.1.1 ha⟩

/-- **One message** keeps the amends attached, and every latest amend right exactly if it is timely and
spares the latest amends. -/
theorem Delivered.latest (h : Delivered env message n n') (hattached : AmendsAttached env n)
    (hlatest : LatestAmends n) :
    AmendsAttached env n' ∧ (LatestAmends n' ↔ KeepsLatest env message n) := by
  obtain ⟨ctx, rfl, receptionTime, n₁, heffect, rfl⟩ := h.accepted.effect
  have hposts : ∀ {m : Node}, (stored ctx.env message receptionTime m).posts = m.posts := rfl
  rw [latestAmends_congr hposts]
  suffices AmendsAttached ctx.env n₁ ∧ (LatestAmends n₁ ↔ KeepsLatest ctx.env message n) from
    ⟨this.1.congr hposts, this.2⟩
  have hsame : n₁.posts = n.posts → message.messageType ≠ .post → message.messageType ≠ .forget →
      AmendsAttached ctx.env n₁ ∧ (LatestAmends n₁ ↔ KeepsLatest ctx.env message n) := fun he hpost hforget =>
    ⟨hattached.congr he, iff_of_true ((latestAmends_congr he).2 hlatest) (.of_type hpost hforget)⟩
  cases heffect with
  | aggregate content htype =>
    refine hsame ?_ (by simp [htype]) (by simp [htype])
    obtain ⟨as, has⟩ := processed_eq (AggregateHandler.elementOf message content) n
    rw [has, AggregateHandler.storeElement]
    split_ifs <;> rfl
  | store content htype hparse hclash => exact hsame rfl (by simp [htype]) (by simp [htype])
  | program content htype hparse hvalid => exact hsame rfl (by simp [htype]) (by simp [htype])
  | «instance» content htype hparse hvalid => exact hsame rfl (by simp [htype]) (by simp [htype])
  | post content htype hparse horiginal =>
    obtain ⟨hattached', hlatest'⟩ := posted_latest (r := recordOf message content none) h.fresh.posts rfl rfl
      horiginal hattached hlatest
    refine ⟨hattached', iff_of_true hlatest' ⟨fun _ content' hparse' hamend => ?_, fun hforget => ?_⟩⟩
    · obtain rfl := Except.ok.inj (hparse.symm.trans hparse')
      rw [horiginal] at hamend
      cases hamend
    · rw [htype] at hforget
      cases hforget
  | amend content originalHash target htype hparse hamend htarget href hplain horiginal =>
    have hnone : target.originalItemHash = none := (hattached.typed target htarget).2 hplain
    obtain rfl : originalHash = target.itemHash := by
      rw [hnone] at horiginal
      exact horiginal.elim id id
    obtain ⟨hattached', hiff⟩ := amended_latest (r := recordOf message content (some target.itemHash))
      h.fresh.posts htarget hnone rfl hamend hattached hlatest
    refine ⟨hattached', hiff.trans ⟨fun htimely => ⟨fun _ content' hparse' _ q hq hqo => ?_, fun hforget => ?_⟩,
      fun hkeeps q hq hqo => hkeeps.timely htype content hparse hamend q hq (hqo.trans href.symm)⟩⟩
    · obtain rfl := Except.ok.inj (hparse.symm.trans hparse')
      exact htimely q hq (hqo.trans href)
    · rw [htype] at hforget
      cases hforget
  | forget content htype hparse hvalidate =>
    obtain ⟨hattached', hiff⟩ := forgotten_latest
      (hashesForgotten_gone message content ctx content.hashes n) hattached hlatest
    refine ⟨hattached', hiff.trans ⟨fun hspared => ⟨fun hpost => ?_, fun _ content' hparse' => ?_⟩,
      fun hkeeps => hkeeps.spared htype content hparse⟩⟩
    · rw [htype] at hpost
      cases hpost
    · obtain rfl := Except.ok.inj (hparse.symm.trans hparse')
      exact hspared

/-! ## Runs -/

/-- A message is accepted that keeps the latest amends. -/
def AmendStep (env : Env) (n n' : Node) : Prop :=
  ∃ message, Delivered env message n n' ∧ KeepsLatest env message n

/-- **In a run whose amends arrive in order and whose FORGETs spare the latest amends, every original post names
its newest amend**; and the next message keeps that so exactly if it meets the condition as well. -/
theorem latestAmends_of_run {n₀ : Node} (hempty : ∀ p, p ∉ n₀.posts)
    (hrun : Relation.ReflTransGen (AmendStep env) n₀ n) :
    LatestAmends n ∧ ∀ message n', Delivered env message n n' →
      (LatestAmends n' ↔ KeepsLatest env message n) := by
  have hinv : AmendsAttached env n ∧ LatestAmends n := by
    induction hrun with
    | refl => exact ⟨⟨fun p hp => absurd hp (hempty p), fun p hp => absurd hp (hempty p)⟩,
        fun o ho => absurd ho (hempty o)⟩
    | tail _ hstep ih =>
      obtain ⟨message, hdelivered, hkeeps⟩ := hstep
      obtain ⟨hattached, hiff⟩ := hdelivered.latest ih.1 ih.2
      exact ⟨hattached, hiff.2 hkeeps⟩
  exact ⟨hinv.2, fun message n' hdelivered => (hdelivered.latest hinv.1 hinv.2).2⟩

/-! ### A note and two revisions of it -/

section Revisions

/-- A revision of the note. -/
def revisionText (time : String) : String :=
  "\x7b\"address\":\"" ++ noteOwner ++ "\",\"type\":\"amend\",\"ref\":\"" ++ noteHash ++
    "\",\"content\":\x7b\x7d,\"time\":" ++ time ++ "\x7d"

def revisionFields (time : Int) : List (String × Json) :=
  [("address", .str noteOwner), ("type", .str "amend"), ("ref", .str noteHash), ("content", .obj []),
    ("time", .num (.int time))]

def revisionContent (time : Timestamp) : PostContent :=
  ⟨noteOwner, "amend", Value.emptyObject, some noteHash, time⟩

def revisionCtx : ProcessorContext where
  env := .ofTables [(noteText, .obj noteFields), (revisionText "1700000100", .obj (revisionFields 1700000100)),
    (revisionText "1700000200", .obj (revisionFields 1700000200))] [] []
  order := .stored
  now := 1700000300
  cost := none
  ipfsGet := fun _ => .error "not found"

def note : Message := { noteMessage with itemType := .storage }

/-- A message with that content. -/
def revision (hash : ItemHash) (text : String) : Message :=
  { note with itemHash := hash, itemContent := some text }

def firstRevision : Message :=
  revision "ecc08f6edcc9ebf41f8a08771e8bfed297a0eda99725ea598b272aafae53b010" (revisionText "1700000100")

def secondRevision : Message :=
  revision "3fbd65025f2828a0f8b99b593419ab74ecbbf38a4594196f7811e678c9fc2dea" (revisionText "1700000200")

/-- The node after the note, and after a revision. -/
def noted : Node := stored revisionCtx.env note 1700000300 (posted (recordOf note noteContent none) .empty)

def revised (message : Message) (time : Timestamp) (n : Node) : Node :=
  stored revisionCtx.env message 1700000300
    (amended noteHash (recordOf message (revisionContent time) (some noteHash)) n)

example : (recordOf note noteContent none).postType = "note" := by decide +kernel

theorem fromStr_note : revisionCtx.env.fromStr PostContent.decode noteText = .ok noteContent := by
  decide +kernel

theorem fromStr_firstRevision :
    revisionCtx.env.fromStr PostContent.decode (revisionText "1700000100") = .ok (revisionContent 1700000100) := by
  decide +kernel

theorem fromStr_secondRevision :
    revisionCtx.env.fromStr PostContent.decode (revisionText "1700000200") = .ok (revisionContent 1700000200) := by
  decide +kernel

theorem not_isAmend_note : isAmend revisionCtx.env "note" = false := by decide +kernel

theorem isAmend_amend : isAmend revisionCtx.env "amend" = true := by decide +kernel

example : noted.posts.rows.map PostRecord.itemHash = [noteHash] := by decide +kernel

theorem delivered_note : Delivered revisionCtx.env note .empty noted := by
  have horiginal : Original note (createHandlerContext revisionCtx true) noteContent :=
    ⟨⟨noteText, rfl, fromStr_note, .inl rfl⟩, by decide, not_isAmend_note, .inl rfl⟩
  exact ⟨by decide +kernel, accepted_of_trusted _ rfl rfl (horiginal.exec_processMessage rfl)⟩

theorem delivered_revision {hash : ItemHash} {text : String} {time : Timestamp} {target : PostRecord}
    (hdecode : revisionCtx.env.fromStr PostContent.decode text = .ok (revisionContent time))
    (hfresh : Fresh n hash) (htarget : target ∈ n.posts) (hhash : target.itemHash = noteHash)
    (hnone : target.originalItemHash = none) (htype : target.postType = "note") :
    Delivered revisionCtx.env (revision hash text) n (revised (revision hash text) time n) := by
  have hfind : n.posts.find? noteHash = some target := Table.find?_eq_some.2 ⟨htarget, hhash⟩
  have horiginal : originalHashOf noteHash n = noteHash := by
    simp only [originalHashOf, hfind, hnone, hhash, Option.getD_none]
  have hexec : Exec (processMessage (revision hash text) (createHandlerContext revisionCtx true)) n .processed
      (amended (originalHashOf noteHash n) (recordOf (revision hash text) (revisionContent time)
        (some (originalHashOf noteHash n))) n) :=
    exec_processMessage_amend rfl ⟨text, rfl, hdecode⟩ (show "amend" ≠ "" by decide) isAmend_amend rfl htarget
      hhash (by rw [htype]; exact not_isAmend_note) rfl
  rw [horiginal] at hexec
  exact ⟨hfresh, accepted_of_trusted _ rfl rfl hexec⟩

/-- The first revision, on top of the note. -/
theorem delivered_firstRevision :
    Delivered revisionCtx.env firstRevision noted (revised firstRevision 1700000100 noted) :=
  delivered_revision fromStr_firstRevision (by decide +kernel) (List.mem_singleton_self _) rfl rfl rfl

theorem delivered_secondRevision :
    Delivered revisionCtx.env secondRevision noted (revised secondRevision 1700000200 noted) :=
  delivered_revision fromStr_secondRevision (by decide +kernel) (List.mem_singleton_self _) rfl rfl rfl

theorem keepsLatest_note : KeepsLatest revisionCtx.env note .empty := by
  refine ⟨fun _ content _ _ q hq => absurd hq List.not_mem_nil, fun hforget => nomatch hforget⟩

theorem keepsLatest_firstRevision : KeepsLatest revisionCtx.env firstRevision noted := by
  refine ⟨fun _ content hparse _ q hq hqo => ?_, fun hforget => nomatch hforget⟩
  obtain ⟨s, hs, hdecode⟩ := parseContent_ok.1 hparse
  obtain rfl := Option.some.inj hs
  obtain rfl := Except.ok.inj (fromStr_firstRevision.symm.trans hdecode)
  obtain rfl := List.mem_singleton.1 hq
  cases hqo

/-- The note names its only revision. -/
theorem firstRevision_latest : LatestAmends (revised firstRevision 1700000100 noted) :=
  (latestAmends_of_run (fun _ => List.not_mem_nil)
    ((Relation.ReflTransGen.single ⟨note, delivered_note, keepsLatest_note⟩).tail
      ⟨firstRevision, delivered_firstRevision, keepsLatest_firstRevision⟩)).1

/-- The older revision, coming second, takes over from the newer one. -/
theorem firstRevision_not_latest :
    Delivered revisionCtx.env note .empty noted ∧
      Delivered revisionCtx.env secondRevision noted (revised secondRevision 1700000200 noted) ∧
      Delivered revisionCtx.env firstRevision (revised secondRevision 1700000200 noted)
        (revised firstRevision 1700000100 (revised secondRevision 1700000200 noted)) ∧
      ¬ LatestAmends (revised firstRevision 1700000100 (revised secondRevision 1700000200 noted)) := by
  have hnote : { recordOf note noteContent none with latestAmend := some secondRevision.itemHash } ∈
      (revised secondRevision 1700000200 noted).posts := by decide +kernel
  refine ⟨delivered_note, delivered_secondRevision,
    delivered_revision fromStr_firstRevision (by decide +kernel) hnote rfl rfl rfl, fun hlatest => ?_⟩
  have hposts : ∀ p ∈ (revised firstRevision 1700000100 (revised secondRevision 1700000200 noted)).posts.rows,
      p.itemHash = firstRevision.itemHash → p.time = 1700000100 := by decide +kernel
  have hnewer : recordOf secondRevision (revisionContent 1700000200) (some noteHash) ∈
      (revised firstRevision 1700000100 (revised secondRevision 1700000200 noted)).posts := by decide +kernel
  have hnamed : { recordOf note noteContent none with latestAmend := some firstRevision.itemHash } ∈
      (revised firstRevision 1700000100 (revised secondRevision 1700000200 noted)).posts := by decide +kernel
  rcases hlatest _ hnamed rfl with ⟨hnone, -⟩ | ⟨a, ha, hmax⟩
  · cases hnone
  · have htime := hposts a hmax.1.1 (Option.some.inj ha).symm
    have hle : (1700000200 : Timestamp) ≤ a.time := hmax.2 _ ⟨hnewer, rfl⟩
    rw [htime] at hle
    exact absurd hle (by decide +kernel)

end Revisions

end AlephCore.MessageProcessor
