import AlephCore.Jobs.LatestAmends
import AlephCore.Lib.Faults
import AlephCore.Web.Posts

/-!
# PostListing — what the listing of posts shows

A listing should have one entry for each original post, with the content of its latest amend.  Since no statement
writes the column `amends`, an amend is listed like an original: the listing is right as long as no amend is stored.
-/

namespace AlephCore.Web

open ProgE Prog ForgetHandler PostHandler MessageProcessor

/-! ## The intended listing -/

/-- What an entry says: the post it is about, and the hash and the content it shows. -/
structure PostEntry where
  originalItemHash : ItemHash
  itemHash : ItemHash
  content : Value

def PostResponseV0.entry (r : PostResponseV0) : PostEntry := ⟨r.originalItemHash, r.itemHash, r.content⟩

def PostResponseV1.entry (r : PostResponseV1) : PostEntry := ⟨r.originalItemHash, r.itemHash, r.content⟩

/-- The entry of a joined row. -/
def JoinedPost.entry (row : JoinedPost) : PostEntry :=
  ⟨row.p.itemHash, row.coalesce PostRecord.itemHash, row.coalesce PostRecord.content⟩

/-- The stored posts that are no amends. -/
def originals (n : Node) : List PostRecord := n.posts.rows.filter fun p => decide (p.originalItemHash = none)

/-- The entry shows the latest stored amend of the post, or the post itself if it has none. -/
def ShowsLatest (n : Node) (o : PostRecord) (e : PostEntry) : Prop :=
  (amendsStored n o.itemHash = ∅ ∧ e.itemHash = o.itemHash ∧ e.content = o.content) ∨
    ∃ a, IsLatest PostRecord.time (amendsStored n o.itemHash) a ∧ e.itemHash = a.itemHash ∧ e.content = a.content

/-- One entry for each original, which shows its latest amend, and their number. -/
structure ListsPosts (n : Node) (entries : List PostEntry) (total : Nat) : Prop where
  once : (entries.map PostEntry.originalItemHash).Perm ((originals n).map PostRecord.itemHash)
  latest : ∀ e ∈ entries, ∀ o ∈ originals n, e.originalItemHash = o.itemHash → ShowsLatest n o e
  total : total = (originals n).length

/-- No filter of the request has a value. -/
structure Unfiltered (q : PostsQuery) : Prop where
  values : ∀ values ∈ [q.addresses, q.channels, q.types, q.refs, q.tags, q.hashes],
    (values.map parseCsvParam).getD [] = []
  startDate : q.startDate = none
  endDate : q.endDate = none

/-- The first page has room for `k` posts. -/
def HasRoomV0 (q : PostsQuery) (k : Nat) : Prop :=
  postsUnlimited q = true ∨ pageOf q = 1 ∧ k ≤ (perPageV0 q).toNat

def HasRoomV1 (q : PostsQuery) (k : Nat) : Prop := pageOf q = 1 ∧ k ≤ (perPageV1 q).toNat

variable {db : PostsDb} {q : PostsQuery} {n n' : Node}

/-! ## What the handlers return -/

/-- The entries of a page are those of the rows that the query returns. -/
theorem run_getPosts (db : PostsDb) (q : PostsQuery) (n : Node) :
    ∃ page, (getPosts db q).run.run n = (.ok page, n) ∧ page.paginationTotal = (selectPosts q n).length ∧
      page.posts.map PostResponseV0.entry = (if postsUnlimited q then sortedPosts db q (sortColumn .time q.sortBy) n
        else limitOffset q (perPageV0 q) (sortedPosts db q (sortColumn .time q.sortBy) n)).map JoinedPost.entry := by
  unfold getPosts
  rw [run_bind_ok (run_orDefault _ _ n), run_bind_ok (run_orDefault _ _ n)]
  obtain ⟨found, hfound⟩ := run_fetchConfirmations (((if postsUnlimited q then
    sortedPosts db q (sortColumn .time q.sortBy) n else limitOffset q (perPageV0 q)
      (sortedPosts db q (sortColumn .time q.sortBy) n)).map fun row => row.coalesce PostRecord.itemHash).toChunks 10000) n
  rw [run_bind_ok hfound]
  refine ⟨_, rfl, rfl, ?_⟩
  rw [List.map_map]
  rfl

theorem run_getPostsV1 (db : PostsDb) (q : PostsQuery) (n : Node) :
    ∃ page, (getPostsV1 db q).run.run n = (.ok page, n) ∧ page.paginationTotal = (selectPosts q n).length ∧
      page.posts.map PostResponseV1.entry =
        (limitOffset q (perPageV1 q) (sortedPosts db q (sortColumn .createdAt q.sortBy) n)).map JoinedPost.entry := by
  unfold getPostsV1
  rw [run_bind_ok (run_orDefault _ _ n), run_bind_ok (run_orDefault _ _ n)]
  refine ⟨_, rfl, rfl, ?_⟩
  rw [List.map_map]
  rfl

/-- **Without filters every stored post is selected**, amends as well. -/
theorem Unfiltered.selectPosts_eq (h : Unfiltered q) (n : Node) : selectPosts q n = n.posts.rows.map (joinPost n) := by
  have hin : ∀ values ∈ [q.addresses, q.channels, q.types, q.refs, q.tags, q.hashes], ∀ column,
      columnIn values column = true := by
    intro values hvalues column
    rw [columnIn, h.values values hvalues]
    rfl
  have htag : ∀ content, hasTag q.tags content = true := by
    intro content
    rw [hasTag, h.values q.tags (by simp)]
    rfl
  refine List.filter_eq_self.2 fun row _ => ?_
  rw [selected, hin _ (by simp), hin _ (by simp), hin _ (by simp), hin _ (by simp), hin _ (by simp), h.startDate,
    h.endDate, htag]
  rfl

/-- The first page is everything if it has room for it. -/
theorem limitOffset_eq {α : Type} {perPage : UInt32} {rows : List α} (hpage : pageOf q = 1)
    (hroom : rows.length ≤ perPage.toNat) : limitOffset q perPage rows = rows := by
  have hoffset : ((pageOf q - 1) * perPage).toNat = 0 := by
    rw [hpage, UInt32.sub_self, UInt32.zero_mul]
    rfl
  rw [limitOffset, hoffset, List.drop_zero, List.take_of_length_le hroom]

theorem sortedPosts_perm (h : Unfiltered q) (column : SortColumn) :
    (sortedPosts db q column n).Perm (n.posts.rows.map (joinPost n)) := by
  unfold sortedPosts
  rw [← h.selectPosts_eq n]
  exact List.perm_insertionSort _ _

theorem length_sortedPosts (h : Unfiltered q) (column : SortColumn) :
    (sortedPosts db q column n).length = n.posts.rows.length := by
  rw [(sortedPosts_perm h column).length_eq, List.length_map]

/-! ## A listing of originals -/

/-- A post that the latest amend of another names is an amend itself. -/
def NamesAmends (n : Node) : Prop :=
  ∀ o ∈ n.posts, ∀ h, o.latestAmend = some h →
    (∃ a ∈ n.posts, a.itemHash = h ∧ a.originalItemHash ≠ none) ∨ Forgotten n h ∧ ∀ p ∈ n.posts, p.itemHash ≠ h

theorem originals_eq (hnone : ∀ p ∈ n.posts, p.originalItemHash = none) : originals n = n.posts.rows :=
  List.filter_eq_self.2 fun p hp => decide_eq_true (hnone p hp)

/-- The total counts the originals only if there is nothing else. -/
theorem forall_original (h : n.posts.rows.length = (originals n).length) :
    ∀ p ∈ n.posts, p.originalItemHash = none := by
  intro p hp
  have hall := List.length_filter_eq_length_iff.1 h.symm p hp
  exact of_decide_eq_true hall

theorem JoinedPost.coalesce_none {α : Type} (row : JoinedPost) (h : row.a = none) (f : PostRecord → α) :
    row.coalesce f = f row.p := by
  rw [JoinedPost.coalesce, h]
  rfl

/-- Without amends a post is joined with none. -/
theorem joinPost_original (hnames : NamesAmends n) (hnone : ∀ p ∈ n.posts, p.originalItemHash = none)
    {o : PostRecord} (ho : o ∈ n.posts) : (joinPost n o).a = none := by
  show o.latestAmend.bind n.posts.find? = none
  cases hlatest : o.latestAmend with
  | none => rfl
  | some h =>
    rw [Option.bind_some]
    rcases hnames o ho h hlatest with ⟨a, ha, -, hamend⟩ | ⟨-, hgone⟩
    · exact absurd (hnone a ha) hamend
    · exact Table.find?_eq_none.2 hgone

/-- **Without amends all the rows, in any order, are the intended listing.** -/
theorem listsPosts_of_perm (hnames : NamesAmends n) (hnone : ∀ p ∈ n.posts, p.originalItemHash = none)
    {rows : List JoinedPost} (hrows : rows.Perm (n.posts.rows.map (joinPost n))) :
    ListsPosts n (rows.map JoinedPost.entry) n.posts.rows.length := by
  refine ⟨?_, fun e he o ho hhash => ?_, by rw [originals_eq hnone]⟩
  · rw [originals_eq hnone, List.map_map]
    have hperm := hrows.map (PostEntry.originalItemHash ∘ JoinedPost.entry)
    rw [List.map_map] at hperm
    exact hperm
  · obtain ⟨row, hrow, rfl⟩ := List.mem_map.1 he
    obtain ⟨p, hp, rfl⟩ := List.mem_map.1 (hrows.mem_iff.1 hrow)
    have ho' : o ∈ n.posts := (List.mem_filter.1 ho).1
    obtain rfl : p = o := Table.eq_of_key hp ho' hhash
    refine .inl ⟨Set.eq_empty_of_forall_notMem fun a ha => ?_, ?_, ?_⟩
    · have hamend := hnone a ha.1
      rw [ha.2] at hamend
      cases hamend
    · exact (joinPost n p).coalesce_none (joinPost_original hnames hnone hp) PostRecord.itemHash
    · exact (joinPost n p).coalesce_none (joinPost_original hnames hnone hp) PostRecord.content

/-! ## One message -/

theorem NamesAmends.congr (h : NamesAmends n) (hposts : n'.posts = n.posts)
    (hforgotten : ∀ x, Forgotten n x → Forgotten n' x) : NamesAmends n' := by
  intro o ho hash hlatest
  rw [hposts] at ho ⊢
  rcases h o ho hash hlatest with hamend | ⟨hgone, hnone⟩
  · exact .inl hamend
  · exact .inr ⟨hforgotten hash hgone, hnone⟩

/-- A new post that names no amend, among the old ones whose rows may change but not their hashes and originals. -/
theorem NamesAmends.add (h : NamesAmends n) {r : PostRecord} (hfresh : ¬ Forgotten n r.itemHash)
    (hforgotten : ∀ x, Forgotten n x → Forgotten n' x)
    (hkept : ∀ p, p ∈ n.posts ∨ p = r → ∃ p' ∈ n'.posts, p'.itemHash = p.itemHash ∧
      p'.originalItemHash = p.originalItemHash)
    (hnew : ∀ p' ∈ n'.posts, ∃ p, (p ∈ n.posts ∨ p = r) ∧ p'.itemHash = p.itemHash)
    (hlatest : ∀ p' ∈ n'.posts, ∀ h, p'.latestAmend = some h →
      (∃ p ∈ n.posts, p.latestAmend = some h) ∨ h = r.itemHash ∧ r.originalItemHash ≠ none) : NamesAmends n' := by
  intro o ho hash hname
  rcases hlatest o ho hash hname with ⟨p, hp, hp'⟩ | ⟨rfl, hamend⟩
  · rcases h p hp hash hp' with ⟨a, ha, rfl, hamend⟩ | ⟨hgone, hnone⟩
    · obtain ⟨a', ha', hhash, horiginal⟩ := hkept a (.inl ha)
      exact .inl ⟨a', ha', hhash, horiginal ▸ hamend⟩
    · refine .inr ⟨hforgotten hash hgone, fun q' hq' he => ?_⟩
      obtain ⟨q, hq | rfl, hhash⟩ := hnew q' hq'
      · exact hnone q hq (hhash.symm.trans he)
      · rw [hhash] at he
        exact hfresh (he ▸ hgone)
  · obtain ⟨r', hr', hhash, horiginal⟩ := hkept r (.inr rfl)
    exact .inl ⟨r', hr', hhash, horiginal ▸ hamend⟩

theorem NamesAmends.posted (h : NamesAmends n) {r : PostRecord} (hfresh : ¬ Forgotten n r.itemHash)
    (hrows : ∀ p ∈ n.posts, p.itemHash ≠ r.itemHash) (hlatest : r.latestAmend = none) :
    NamesAmends (PostHandler.posted r n) := by
  have hposts : ∀ p, p ∈ (PostHandler.posted r n).posts ↔ p ∈ n.posts ∨ p = r := fun p => mem_insertNew_fresh hrows
  refine h.add hfresh (fun x hx => hx) (fun p hp => ⟨p, (hposts p).2 hp, rfl, rfl⟩)
    (fun p hp => ⟨p, (hposts p).1 hp, rfl⟩) fun p hp hash hname => ?_
  rcases (hposts p).1 hp with hp | rfl
  · exact .inl ⟨p, hp, hname⟩
  · rw [hlatest] at hname
    cases hname

theorem NamesAmends.amended (h : NamesAmends n) {r : PostRecord} {originalHash : ItemHash}
    (hfresh : ¬ Forgotten n r.itemHash) (hrows : ∀ p ∈ n.posts, p.itemHash ≠ r.itemHash)
    (hlatest : r.latestAmend = none) (hamend : r.originalItemHash ≠ none) :
    NamesAmends (PostHandler.amended originalHash r n) := by
  have hposts : ∀ p', p' ∈ (PostHandler.amended originalHash r n).posts ↔
      ((p' ∈ n.posts ∨ p' = r) ∧ p'.itemHash ≠ originalHash) ∨
        ∃ p, (p ∈ n.posts ∨ p = r) ∧ p.itemHash = originalHash ∧ p' = { p with latestAmend := some r.itemHash } :=
    fun p' => mem_amended hrows
  refine h.add hfresh (fun x hx => hx) (fun p hp => ?_) (fun p' hp' => ?_) fun p' hp' hash hname => ?_
  · by_cases he : p.itemHash = originalHash
    · exact ⟨_, (hposts _).2 (.inr ⟨p, hp, he, rfl⟩), rfl, rfl⟩
    · exact ⟨p, (hposts p).2 (.inl ⟨hp, he⟩), rfl, rfl⟩
  · rcases (hposts p').1 hp' with ⟨hp, -⟩ | ⟨p, hp, -, rfl⟩
    · exact ⟨p', hp, rfl⟩
    · exact ⟨p, hp, rfl⟩
  · rcases (hposts p').1 hp' with ⟨hp | rfl, -⟩ | ⟨p, hp, -, rfl⟩
    · exact .inl ⟨p', hp, hname⟩
    · rw [hlatest] at hname
      cases hname
    · exact .inr ⟨(Option.some.inj hname).symm, hamend⟩

/-- A post that a FORGET takes is forgotten, so nothing comes back under its hash. -/
theorem NamesAmends.forget (h : NamesAmends n) {ts : List Target} {gone : List ItemHash}
    (hgone : TargetsGone ts gone n n') : NamesAmends n' := by
  intro o ho hash hname
  rcases h o ((hgone.posts o).1 ho).1 hash hname with ⟨a, ha, rfl, hamend⟩ | ⟨hforgotten, hnone⟩
  · by_cases htaken : ∃ t ∈ ts, t.TakesPost a
    · refine .inr ⟨(hgone.forgotten _).2 (.inr (hgone.lost a ha htaken)), fun p hp he => ?_⟩
      obtain ⟨hp, hleft⟩ := (hgone.posts p).1 hp
      obtain ⟨t, ht, htakes⟩ := htaken
      exact hleft t ht (Table.eq_of_key ha hp he.symm ▸ htakes)
    · push Not at htaken
      exact .inl ⟨a, (hgone.posts a).2 ⟨ha, htaken⟩, rfl, hamend⟩
  · exact .inr ⟨(hgone.forgotten hash).2 (.inl hforgotten), fun p hp => hnone p ((hgone.posts p).1 hp).1⟩

/-- **Every accepted message** keeps it that a latest amend which is stored is an amend. -/
theorem NamesAmends.delivered {env : Env} {message : Message} (h : NamesAmends n)
    (hd : Delivered env message n n') : NamesAmends n' := by
  obtain ⟨ctx, rfl, receptionTime, n₁, heffect, rfl⟩ := hd.accepted.effect
  suffices hn₁ : NamesAmends n₁ from hn₁.congr rfl fun x hx => hx
  cases heffect with
  | aggregate content htype =>
    obtain ⟨as, has⟩ := processed_eq (AggregateHandler.elementOf message content) n
    rw [has, AggregateHandler.storeElement]
    split_ifs
    · exact h.congr rfl fun x hx => hx
    · exact h.congr rfl fun x hx => hx
  | post content htype hparse horiginal => exact h.posted hd.fresh.2 hd.fresh.posts rfl
  | amend content originalHash target htype =>
    exact h.amended hd.fresh.2 hd.fresh.posts rfl (Option.some_ne_none _)
  | store content htype hparse hclash => exact h.congr rfl fun x hx => hx
  | program content htype hparse hvalid => exact h.congr rfl fun x hx => hx
  | «instance» content htype hparse hvalid => exact h.congr rfl fun x hx => hx
  | forget content htype hparse hvalidate =>
    exact h.forget (hashesForgotten_gone message content ctx content.hashes n)

/-! ## Runs -/

/-- **In every state that a run of accepted messages reaches, an unfiltered listing with room for the originals is
the intended one exactly if no amend is stored.** -/
theorem listsPosts_iff {env : Env} {n₀ : Node} (hempty : ∀ p, p ∉ n₀.posts)
    (hrun : Relation.ReflTransGen (fun s t => ∃ message, Delivered env message s t) n₀ n) (hq : Unfiltered q) :
    (HasRoomV0 q (originals n).length → ∃ page, (getPosts db q).run.run n = (.ok page, n) ∧
      (ListsPosts n (page.posts.map PostResponseV0.entry) page.paginationTotal ↔
        ∀ p ∈ n.posts, p.originalItemHash = none)) ∧
    (HasRoomV1 q (originals n).length → ∃ page, (getPostsV1 db q).run.run n = (.ok page, n) ∧
      (ListsPosts n (page.posts.map PostResponseV1.entry) page.paginationTotal ↔
        ∀ p ∈ n.posts, p.originalItemHash = none)) := by
  have hnames : NamesAmends n := by
    induction hrun with
    | refl => exact fun o ho => absurd ho (hempty o)
    | tail _ hstep ih =>
      obtain ⟨message, hdelivered⟩ := hstep
      exact ih.delivered hdelivered
  have htotal : (selectPosts q n).length = n.posts.rows.length := by
    rw [hq.selectPosts_eq, List.length_map]
  have hlists : ∀ {entries : List PostEntry} {rows : List JoinedPost},
      entries = rows.map JoinedPost.entry →
      ((∀ p ∈ n.posts, p.originalItemHash = none) → rows.Perm (n.posts.rows.map (joinPost n))) →
      (ListsPosts n entries (selectPosts q n).length ↔ ∀ p ∈ n.posts, p.originalItemHash = none) := by
    rintro entries rows rfl hperm
    rw [htotal]
    exact ⟨fun h => forall_original h.total, fun hnone => listsPosts_of_perm hnames hnone (hperm hnone)⟩
  constructor
  · intro hroom
    obtain ⟨page, hpage, htotal', hentries⟩ := run_getPosts db q n
    refine ⟨page, hpage, ?_⟩
    rw [htotal']
    refine hlists hentries fun hnone => ?_
    split_ifs with hunlimited
    · exact sortedPosts_perm hq _
    · obtain ⟨hfirst, hle⟩ := hroom.resolve_left hunlimited
      rw [limitOffset_eq hfirst (by rwa [length_sortedPosts hq, ← originals_eq hnone])]
      exact sortedPosts_perm hq _
  · rintro ⟨hfirst, hle⟩
    obtain ⟨page, hpage, htotal', hentries⟩ := run_getPostsV1 db q n
    refine ⟨page, hpage, ?_⟩
    rw [htotal']
    refine hlists hentries fun hnone => ?_
    rw [limitOffset_eq hfirst (by rwa [length_sortedPosts hq, ← originals_eq hnone])]
    exact sortedPosts_perm hq _

/-! ### A note and its revision -/

section Revision

/-- The request without any parameters. -/
def plainQuery : PostsQuery := ⟨none, none, none, none, none, none, none, none, none, none, none, none, none, none⟩

/-- A database where all rows were created at once. -/
def plainDb : PostsDb where
  createdAt _ := 1700000300
  earliestConfirmation _ := none
  collate x y := decide (x ≤ y)
  toRfc3339 _ := "2023-11-14T22:18:20+00:00"

theorem plainQuery_unfiltered : Unfiltered plainQuery := by
  refine ⟨fun values hvalues => ?_, rfl, rfl⟩
  obtain rfl : values = none := by simpa [plainQuery] using hvalues
  rfl

/-- The note alone is listed as it should be. -/
theorem noted_listed : ∃ page, (getPosts plainDb plainQuery).run.run noted = (.ok page, noted) ∧
    ListsPosts noted (page.posts.map PostResponseV0.entry) page.paginationTotal := by
  have hroom : HasRoomV0 plainQuery (originals noted).length := by
    refine .inr ⟨rfl, ?_⟩
    decide +kernel
  have hnone : ∀ p ∈ noted.posts, p.originalItemHash = none := by
    intro p hp
    obtain rfl := List.mem_singleton.1 hp
    rfl
  obtain ⟨page, hpage, hiff⟩ := (listsPosts_iff (fun _ => List.not_mem_nil)
    (.single ⟨note, delivered_note⟩) plainQuery_unfiltered).1 hroom
  exact ⟨page, hpage, hiff.2 hnone⟩

/-- The node with the note and its revision. -/
def revisedNote : Node := revised firstRevision 1700000100 noted

example : revisedNote.posts.rows.map PostRecord.itemHash = [noteHash, firstRevision.itemHash] := by decide +kernel

theorem length_revisedNote : (selectPosts plainQuery revisedNote).length = 2 := by
  rw [plainQuery_unfiltered.selectPosts_eq, List.length_map]
  decide +kernel

theorem length_originals_revisedNote : (originals revisedNote).length = 1 := by decide +kernel

theorem not_listsPosts_revisedNote {entries : List PostEntry} {total : Nat} (htotal : total = 2) :
    ¬ ListsPosts revisedNote entries total := by
  intro h
  have hlength := h.total
  rw [htotal, length_originals_revisedNote] at hlength
  omega

/-- **The revision is listed beside the note**, and the total counts it, in both versions. -/
theorem revision_listed :
    (Delivered revisionCtx.env note .empty noted ∧ Delivered revisionCtx.env firstRevision noted revisedNote) ∧
    (∃ page, (getPosts plainDb plainQuery).run.run revisedNote = (.ok page, revisedNote) ∧
      page.paginationTotal = 2 ∧ (originals revisedNote).length = 1 ∧
      firstRevision.itemHash ∈ (page.posts.map PostResponseV0.entry).map PostEntry.originalItemHash ∧
      ¬ ListsPosts revisedNote (page.posts.map PostResponseV0.entry) page.paginationTotal) ∧
    ∃ page, (getPostsV1 plainDb plainQuery).run.run revisedNote = (.ok page, revisedNote) ∧
      page.paginationTotal = 2 ∧
      ¬ ListsPosts revisedNote (page.posts.map PostResponseV1.entry) page.paginationTotal := by
  refine ⟨⟨delivered_note, delivered_firstRevision⟩, ?_, ?_⟩
  · obtain ⟨page, hpage, htotal, hentries⟩ := run_getPosts plainDb plainQuery revisedNote
    rw [length_revisedNote] at htotal
    refine ⟨page, hpage, htotal, length_originals_revisedNote, ?_, not_listsPosts_revisedNote htotal⟩
    have hroom : (sortedPosts plainDb plainQuery (sortColumn .time plainQuery.sortBy) revisedNote).length ≤
        (perPageV0 plainQuery).toNat := by
      rw [length_sortedPosts plainQuery_unfiltered]
      decide +kernel
    have hrow : recordOf firstRevision (revisionContent 1700000100) (some noteHash) ∈ revisedNote.posts.rows := by
      decide +kernel
    have hlimited : postsUnlimited plainQuery = false := by decide
    rw [hentries, hlimited, if_neg Bool.false_ne_true, limitOffset_eq rfl hroom, List.map_map]
    exact List.mem_map.2 ⟨joinPost revisedNote (recordOf firstRevision (revisionContent 1700000100) (some noteHash)),
      (sortedPosts_perm plainQuery_unfiltered _).mem_iff.2 (List.mem_map_of_mem hrow), rfl⟩
  · obtain ⟨page, hpage, htotal, -⟩ := run_getPostsV1 plainDb plainQuery revisedNote
    rw [length_revisedNote] at htotal
    exact ⟨page, hpage, htotal, not_listsPosts_revisedNote htotal⟩

end Revision

end AlephCore.Web
