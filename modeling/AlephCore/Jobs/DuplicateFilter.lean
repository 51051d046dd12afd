import AlephCore.Jobs.LatestAmends

/-!
# DuplicateFilter — which messages a batch drops as duplicates

A batch drops the pending messages whose hash is that of derived data.  This recognises a message that is
processed if its derived data carries its own hash: that of a STORE message carries the hash of the file, and a
FORGET has none.
-/

namespace AlephCore.MessageProcessor

open ProgE Prog ForgetHandler PostHandler

/-! ## What the filter should report -/

/-- A node, and the hashes of the messages it has processed. -/
structure Processing where
  node : Node
  processed : List ItemHash

/-- Of any hashes the filter reports those of the messages that are processed and not forgotten. -/
def ExactFilter (s : Processing) : Prop :=
  ∀ hashes reported n, Exec (batchCheckDuplicates hashes).run s.node (.ok reported) n →
    ∀ h ∈ hashes, h ∈ reported ↔ h ∈ s.processed ∧ ¬ Forgotten s.node h

/-- A message is taken and accepted. -/
structure Processed (env : Env) (message : Message) (s s' : Processing) : Prop where
  delivered : Delivered env message s.node s'.node
  processed : s'.processed = message.itemHash :: s.processed

/-- The derived data of the message carries its hash. -/
structure CarriesHash (env : Env) (message : Message) : Prop where
  kept : message.messageType ≠ .forget
  own : message.messageType = .store → ∀ content,
    parseContent env StoreContent.decode (fun e => e) message = .ok content → content.itemHash = message.itemHash

/-- Stored messages are processed, and so are those whose hash is that of a stored file. -/
structure RowsProcessed (env : Env) (s : Processing) : Prop where
  rows : ∀ r ∈ s.node.messages, r.itemHash ∈ s.processed
  files : ∀ r ∈ s.node.messages, r.messageType = .store →
    (storeTarget env r.itemHash r.message).1 ∈ s.processed

variable {env : Env} {message : Message} {n n' : Node} {s s' : Processing}

/-- **The filter looks at the derived data.** -/
theorem exactFilter_iff :
    ExactFilter s ↔ ∀ h, h ∈ derivedHashes s.node ↔ h ∈ s.processed ∧ ¬ Forgotten s.node h := by
  have hreported : ∀ {hashes reported n}, Exec (batchCheckDuplicates hashes).run s.node (.ok reported) n ↔
      reported = (hashes.filter fun h => decide (h ∈ derivedHashes s.node)) ∧ n = s.node := by
    intro hashes reported n
    unfold batchCheckDuplicates
    split_ifs with hempty
    · obtain rfl := List.isEmpty_iff.1 hempty
      exact exec_pure_ok
    · exact exec_query_ok
  constructor
  · intro h hash
    have hone := h [hash] _ _ (hreported.2 ⟨rfl, rfl⟩) hash (List.mem_singleton.2 rfl)
    rw [List.mem_filter, decide_eq_true_eq] at hone
    exact (and_iff_right (List.mem_singleton.2 rfl)).symm.trans hone
  · rintro h hashes reported n hexec hash hmem
    obtain ⟨rfl, rfl⟩ := hreported.1 hexec
    rw [List.mem_filter, decide_eq_true_eq, and_iff_right hmem]
    exact h hash

/-! ## What a message adds -/

theorem exists_storeElement (e : AggregateElement) (n : Node) (x : ItemHash) :
    (∃ d ∈ (AggregateHandler.storeElement e n).aggregateElements, d.itemHash = x) ↔
      (∃ d ∈ n.aggregateElements, d.itemHash = x) ∨ e.itemHash = x := by
  unfold AggregateHandler.storeElement
  split_ifs with h
  · obtain ⟨d, hd, he⟩ := h
    refine (or_iff_left_of_imp ?_).symm
    rintro rfl
    exact ⟨d, hd, he⟩
  · simp only [List.mem_append, List.mem_singleton, or_and_right, exists_or, exists_eq_left]

theorem exists_pinned (pin : FilePinRecord) (n : Node) (x : ItemHash) :
    (∃ p ∈ StoreHandler.pinned pin n, p.itemHash = x) ↔ (∃ p ∈ n.filePins, p.itemHash = x) ∨ pin.itemHash = x := by
  have hfirst : (∃ p ∈ n.filePins.upsert pin (StoreHandler.typedUpdate pin), p.itemHash = x) ↔
      (∃ p ∈ n.filePins, p.itemHash = x) ∨ pin.itemHash = x :=
    Table.exists_key_upsert (P := fun k : ItemHash × Address => k.1 = x)
  have htwice : (∃ p ∈ StoreHandler.pinned pin n, p.itemHash = x) ↔
      (∃ p ∈ n.filePins.upsert pin (StoreHandler.typedUpdate pin), p.itemHash = x) ∨ pin.itemHash = x :=
    Table.exists_key_upsert (P := fun k : ItemHash × Address => k.1 = x)
  rw [htwice, hfirst, or_assoc, or_self]

theorem or_inner {A B C D : Prop} : A ∨ (B ∨ D) ∨ C ↔ (A ∨ B ∨ C) ∨ D := by
  rw [or_right_comm, ← or_assoc]

/-- **A message that is no FORGET** adds one hash to those of derived data, which is its own if its derived data
carries it. -/
theorem Effect.derived {ctx : HandlerContext} (h : Effect message ctx n n') (htype : message.messageType ≠ .forget) :
    ∃ name, (CarriesHash ctx.env message ↔ name = message.itemHash) ∧
      (∀ x, x ∈ derivedHashes n' ↔ x ∈ derivedHashes n ∨ x = name) ∧
        n'.forgottenMessages = n.forgottenMessages ∧ n'.messages = n.messages := by
  have hown : message.messageType ≠ .store → (CarriesHash ctx.env message ↔ message.itemHash = message.itemHash) :=
    fun hstore => iff_of_true ⟨htype, fun he => absurd he hstore⟩ rfl
  cases h with
  | aggregate content htype =>
    obtain ⟨as, es, hes, he⟩ : ∃ as es, es = (AggregateHandler.storeElement
        (AggregateHandler.elementOf message content) n).aggregateElements ∧
          AggregateHandler.processed (AggregateHandler.elementOf message content) n =
            { n with aggregates := as, aggregateElements := es } := by
      obtain ⟨as, has⟩ := processed_eq (AggregateHandler.elementOf message content) n
      refine ⟨as, _, rfl, has.trans ?_⟩
      unfold AggregateHandler.storeElement
      split_ifs <;> rfl
    refine ⟨message.itemHash, hown (by simp [htype]), fun x => ?_, by rw [he], by rw [he]⟩
    have helements : (∃ d ∈ es, d.itemHash = x) ↔ (∃ d ∈ n.aggregateElements, d.itemHash = x) ∨ message.itemHash = x :=
      hes ▸ exists_storeElement (AggregateHandler.elementOf message content) n x
    rw [he, mem_derivedHashes, mem_derivedHashes, eq_comm (a := x)]
    exact (or_congr_right (or_congr_left helements)).trans or_inner
  | post content htype hparse horiginal =>
    refine ⟨message.itemHash, hown (by simp [htype]), fun x => ?_, rfl, rfl⟩
    have hposts : (∃ p ∈ n.posts.insertNew (recordOf message content none), p.itemHash = x) ↔
        (∃ p ∈ n.posts, p.itemHash = x) ∨ message.itemHash = x :=
      Table.exists_key_insertNew (P := fun k => k = x)
    rw [mem_derivedHashes, mem_derivedHashes, eq_comm (a := x)]
    exact (or_congr_left hposts).trans or_right_comm
  | amend content originalHash target htype hparse hamend htarget href hplain horiginal =>
    refine ⟨message.itemHash, hown (by simp [htype]), fun x => ?_, rfl, rfl⟩
    have hposts : (∃ p ∈ (amended originalHash (recordOf message content (some originalHash))
        n).posts, p.itemHash = x) ↔ (∃ p ∈ n.posts, p.itemHash = x) ∨ message.itemHash = x := by
      refine (Table.exists_key_update ?_ (P := fun k => k = x)).trans
        (Table.exists_key_insertNew (P := fun k => k = x))
      exact fun _ => rfl
    rw [mem_derivedHashes, mem_derivedHashes, eq_comm (a := x)]
    exact (or_congr_left hposts).trans or_right_comm
  | store content htype hparse hclash =>
    refine ⟨content.itemHash, ⟨fun hcarries => hcarries.own htype content hparse, fun hname => ?_⟩, fun x => ?_,
      rfl, rfl⟩
    · refine ⟨by simp [htype], fun _ content' hparse' => ?_⟩
      obtain rfl := Except.ok.inj (hparse.symm.trans hparse')
      exact hname
    · have hpins := exists_pinned (StoreHandler.pinOf message content ctx.now) n x
      rw [mem_derivedHashes, mem_derivedHashes, eq_comm (a := x), or_assoc]
      exact (or_congr_right ((or_congr_right (or_congr_left hpins)).trans or_inner))
  | program content htype hparse hvalid =>
    refine ⟨message.itemHash, hown (by simp [htype]), fun x => ?_, rfl, rfl⟩
    have hprograms : (∃ p ∈ n.programs.insertNew (ProgramHandler.rowOf message content), p.itemHash = x) ↔
        (∃ p ∈ n.programs, p.itemHash = x) ∨ message.itemHash = x :=
      Table.exists_key_insertNew (P := fun k => k = x)
    rw [mem_derivedHashes, mem_derivedHashes, eq_comm (a := x), or_assoc, or_assoc]
    exact or_congr_right (or_congr_right ((or_congr_right (or_congr_left hprograms)).trans or_inner))
  | «instance» content htype hparse hvalid =>
    refine ⟨message.itemHash, hown (by simp [htype]), fun x => ?_, rfl, rfl⟩
    have hinstances : (∃ i ∈ n.instances.insertNew (InstanceHandler.rowOf message content), i.itemHash = x) ↔
        (∃ i ∈ n.instances, i.itemHash = x) ∨ message.itemHash = x :=
      Table.exists_key_insertNew (P := fun k => k = x)
    rw [mem_derivedHashes, mem_derivedHashes, eq_comm (a := x), or_assoc, or_assoc, or_assoc, or_assoc]
    exact or_congr_right (or_congr_right (or_congr_right (or_congr_right hinstances)))
  | forget content hforget => exact absurd hforget htype

/-! ## What a FORGET leaves -/

variable {content : ForgetContent} {ctx : HandlerContext} {x : ItemHash}

/-- The only pins that a FORGET adds are those of the files of STORE messages. -/
def PinKnown (env : Env) (n : Node) (x : ItemHash) : Prop :=
  (∃ p ∈ n.filePins, p.itemHash = x) ∨
    ∃ r ∈ n.messages, r.messageType = .store ∧ (storeTarget env r.itemHash r.message).1 = x

theorem storeForgotten_pin {hash : ItemHash} {address : Address} {target : Message}
    (h : ∃ p ∈ (storeForgotten hash address target ctx n).filePins, p.itemHash = x) :
    (∃ p ∈ n.filePins, p.itemHash = x) ∨ (storeTarget ctx.env hash target).1 = x := by
  have hreleased : (∃ p ∈ (storeReleased hash address target ctx n).filePins, p.itemHash = x) →
      ∃ p ∈ n.filePins, p.itemHash = x := by
    rw [storeReleased_filePins]
    rintro ⟨p, hp, he⟩
    exact ⟨p, (Table.mem_delete.1 hp).1, he⟩
  simp only [storeForgotten] at h
  split_ifs at h
  · exact .inl (hreleased h)
  · exact ((Table.exists_key_upsert (P := fun k : ItemHash × Address => k.1 = x)).1 h).imp_left hreleased

theorem hashForgotten_pin {hash : ItemHash}
    (h : ∃ p ∈ (hashForgotten message content ctx n hash).filePins, p.itemHash = x) : PinKnown ctx.env n x := by
  have hdeleted : ∀ {m : Node}, (∃ p ∈ m.filePins.delete fun p => p.itemHash = hash, p.itemHash = x) →
      ∃ p ∈ m.filePins, p.itemHash = x := by
    rintro m ⟨p, hp, he⟩
    exact ⟨p, (Table.mem_delete.1 hp).1, he⟩
  unfold hashForgotten at h
  cases hrow : n.messages.find? hash with
  | none =>
    rw [hrow] at h
    exact .inl (hdeleted h)
  | some row =>
    obtain ⟨hmem, rfl⟩ := Table.find?_eq_some.1 hrow
    rw [hrow] at h
    simp only [Option.map_some, messageDeleted, targetForgotten, derivedDeleted_filePins, cascaded_filePins,
      pinsForgotten] at h
    split_ifs at h with htype
    · exact (storeForgotten_pin h).imp_right fun he => ⟨row, hmem, htype, he⟩
    · exact .inl (hdeleted h)

/-- **A FORGET** adds no pins but those of files of stored STORE messages. -/
theorem hashesForgotten_pin {hashes : List ItemHash}
    (h : ∃ p ∈ (hashesForgotten message content ctx hashes n).filePins, p.itemHash = x) : PinKnown ctx.env n x := by
  induction hashes generalizing n with
  | nil => exact .inl h
  | cons hash hashes ih =>
    rcases ih h with hpin | ⟨r, hr, htype, he⟩
    · exact hashForgotten_pin hpin
    · have hold : r ∈ n.messages := (((hashForgotten_gone message content ctx n hash).messages r).1 hr).1
      exact .inr ⟨r, hold, htype, he⟩

/-- What is gone is listed, or an amend of a listed post. -/
theorem mem_of_mem_goneAfter {gone hashes : List ItemHash} (h : x ∈ goneAfter n gone hashes) :
    x ∈ gone ∨ x ∈ hashes ∨ ∃ p ∈ n.posts, p.itemHash = x := by
  induction hashes generalizing gone with
  | nil => exact .inl h
  | cons hash hashes ih =>
    rcases ih h with hgone | hlisted | hpost
    · unfold goneWith at hgone
      rcases List.mem_append.1 hgone with hwith | hgone
      · rcases List.mem_cons.1 hwith with rfl | hamend
        · exact .inr (.inl List.mem_cons_self)
        · split_ifs at hamend
          · obtain ⟨p, hp, he⟩ := List.mem_map.1 hamend
            exact .inr (.inr ⟨p, (List.mem_filter.1 hp).1, he⟩)
          · cases hamend
      · exact .inl hgone
    · exact .inr (.inl (List.mem_cons_of_mem _ hlisted))
    · exact .inr (.inr hpost)

/-- **After a FORGET** its own hash is neither that of derived data nor forgotten, if no stored message has it
and no stored file. -/
theorem forget_unrecognised (hparse : parseContent ctx.env ForgetContent.decode (fun e => e) message = .ok content)
    (hvalidate : Exec (ForgetHandler.validate message ctx).run n (.ok ()) n) (hfresh : Fresh n message.itemHash)
    (hrows : ∀ r ∈ n.messages, r.itemHash ≠ message.itemHash)
    (hfiles : ∀ r ∈ n.messages, r.messageType = .store →
      (storeTarget ctx.env r.itemHash r.message).1 ≠ message.itemHash) :
    message.itemHash ∉ derivedHashes (hashesForgotten message content ctx content.hashes n) ∧
      ¬ Forgotten (hashesForgotten message content ctx content.hashes n) message.itemHash := by
  have hgone := hashesForgotten_gone message content ctx content.hashes n
  have hpins : ∀ p ∈ n.filePins, p.itemHash ≠ message.itemHash :=
    fun p hp he => hfresh.1 (mem_derivedHashes.2 (.inr (.inr (.inl ⟨p, hp, he⟩))))
  constructor
  · rw [mem_derivedHashes]
    rintro (⟨p, hp, he⟩ | ⟨e, he, heq⟩ | hpin | ⟨p, hp, he⟩ | ⟨i, hi, he⟩)
    · exact hfresh.posts p ((hgone.posts p).1 hp).1 he
    · exact hfresh.1 (mem_derivedHashes.2 (.inr (.inl ⟨e, ((hgone.elements e).1 he).1, heq⟩)))
    · rcases hashesForgotten_pin hpin with ⟨p, hp, he⟩ | ⟨r, hr, htype, he⟩
      · exact hpins p hp he
      · exact hfiles r hr htype he
    · exact hfresh.programs p ((hgone.programs p).1 hp).1 he
    · exact hfresh.instances i ((hgone.instances i).1 hi).1 he
  · rw [hgone.forgotten]
    rintro (hforgotten | hmem)
    · exact hfresh.2 hforgotten
    · rcases mem_of_mem_goneAfter hmem with hnil | hlisted | ⟨p, hp, he⟩
      · cases hnil
      · rcases ((exec_validate_ok hparse hvalidate).2 _ hlisted).1 with ⟨r, hr, he⟩ | ⟨p, hp, he⟩ | ⟨p, hp, he⟩
        · exact hrows r hr he
        · exact hpins p hp he
        · exact hfresh.posts p hp he
      · exact hfresh.posts p hp he

/-! ## Runs -/

/-- A message that is new is stored in a row of its own. -/
theorem mem_messages_stored {receptionTime : Timestamp} {r : MessageRow}
    (hrows : ∀ q ∈ n.messages, q.itemHash ≠ message.itemHash) :
    r ∈ (stored env message receptionTime n).messages ↔ r ∈ n.messages ∨ r = processedRow env message receptionTime := by
  refine Table.mem_upsert.trans ⟨?_, ?_⟩
  · rintro (⟨hr, -⟩ | ⟨q, hq, he, -⟩ | ⟨rfl, -⟩)
    · exact .inl hr
    · exact absurd he (hrows q hq)
    · exact .inr rfl
  · rintro (hr | rfl)
    · exact .inl ⟨hr, hrows r hr⟩
    · exact .inr (.inr ⟨rfl, hrows⟩)

/-- The file of a STORE message that carries its hash has this hash. -/
theorem CarriesHash.storeTarget (h : CarriesHash env message) (htype : message.messageType = .store)
    (receptionTime : Timestamp) :
    (ForgetHandler.storeTarget env message.itemHash (processedRow env message receptionTime).message).1 =
      message.itemHash := by
  unfold ForgetHandler.storeTarget
  split
  · rename_i content hcontent
    obtain ⟨text, htext, hdecode⟩ := Option.map_eq_some_iff.1 hcontent
    exact h.own htype content (parseContent_ok.2 ⟨text, htext, hdecode⟩)
  · rfl

/-- **One message** keeps the filter exact if and only if its derived data carries its hash. -/
theorem Processed.exactFilter (h : Processed env message s s') (hknown : RowsProcessed env s) (hexact : ExactFilter s) :
    (ExactFilter s' ↔ CarriesHash env message) ∧ (CarriesHash env message → RowsProcessed env s') := by
  obtain ⟨hdelivered, hprocessed⟩ := h
  obtain ⟨ctx, rfl, receptionTime, n₁, heffect, hnode⟩ := hdelivered.accepted.effect
  have hfresh := hdelivered.fresh
  have hnew : message.itemHash ∉ s.processed :=
    fun hmem => hfresh.1 ((exactFilter_iff.1 hexact _).2 ⟨hmem, hfresh.2⟩)
  have hrows : ∀ r ∈ s.node.messages, r.itemHash ≠ message.itemHash :=
    fun r hr he => hnew (he ▸ hknown.rows r hr)
  have hderived : ∀ x, x ∈ derivedHashes s'.node ↔ x ∈ derivedHashes n₁ := fun x => by rw [hnode]; rfl
  have hforgotten : ∀ x, Forgotten s'.node x ↔ Forgotten n₁ x := fun x => by rw [hnode]; rfl
  by_cases htype : message.messageType = .forget
  · have hno : ¬ CarriesHash ctx.env message := fun hcarries => hcarries.kept htype
    refine ⟨iff_of_false (fun hexact' => ?_) hno, fun hcarries => absurd hcarries hno⟩
    obtain ⟨content, hparse, hvalidate, rfl⟩ : ∃ content,
        parseContent ctx.env ForgetContent.decode (fun e => e) message = .ok content ∧
          Exec (ForgetHandler.validate message ctx).run s.node (.ok ()) s.node ∧
            n₁ = hashesForgotten message content ctx content.hashes s.node := by
      cases heffect with
      | forget content _ hparse hvalidate => exact ⟨content, hparse, hvalidate, rfl⟩
      | _ => simp_all
    obtain ⟨hunderived, hleft⟩ := forget_unrecognised hparse hvalidate hfresh hrows
      fun r hr hstore he => hnew (he ▸ hknown.files r hr hstore)
    refine hunderived ((hderived _).1 ((exactFilter_iff.1 hexact' _).2 ⟨?_, ?_⟩))
    · rw [hprocessed]
      exact List.mem_cons_self
    · rwa [hforgotten]
  · obtain ⟨name, hname, hadds, hkept, hmessages⟩ := heffect.derived htype
    have hfilter : ExactFilter s' ↔ ∀ x, x ∈ derivedHashes s.node ∨ x = name ↔
        (x = message.itemHash ∨ x ∈ s.processed) ∧ ¬ Forgotten s.node x := by
      rw [exactFilter_iff]
      refine forall_congr' fun x => ?_
      rw [hderived, hadds, hforgotten, hprocessed, List.mem_cons, Forgotten, hkept]
      exact Iff.rfl
    rw [hfilter, hname]
    refine ⟨⟨fun hiff => ?_, fun he x => ?_⟩, fun he => ?_⟩
    · exact (((hiff message.itemHash).2 ⟨.inl rfl, hfresh.2⟩).resolve_left hfresh.1).symm
    · rw [he, exactFilter_iff.1 hexact x]
      constructor
      · rintro (⟨hx, hleft⟩ | rfl)
        · exact ⟨.inr hx, hleft⟩
        · exact ⟨.inl rfl, hfresh.2⟩
      · rintro ⟨rfl | hx, hleft⟩
        · exact .inr rfl
        · exact .inl ⟨hx, hleft⟩
    · have hcarries := hname.2 he
      have hmem : ∀ r, r ∈ s'.node.messages ↔ r ∈ s.node.messages ∨ r = processedRow ctx.env message receptionTime := by
        intro r
        rw [hnode, mem_messages_stored (by rwa [hmessages]), hmessages]
      refine ⟨fun r hr => ?_, fun r hr hstore => ?_⟩
      · rw [hprocessed]
        rcases (hmem r).1 hr with hr | rfl
        · exact List.mem_cons_of_mem _ (hknown.rows r hr)
        · exact List.mem_cons_self
      · rw [hprocessed]
        rcases (hmem r).1 hr with hr | rfl
        · exact List.mem_cons_of_mem _ (hknown.files r hr hstore)
        · have hfile := hcarries.storeTarget hstore receptionTime
          exact List.mem_cons.2 (.inl hfile)

/-- A message is accepted whose derived data carries its hash. -/
def FilterStep (env : Env) (s s' : Processing) : Prop :=
  ∃ message, Processed env message s s' ∧ CarriesHash env message

/-- **In a run whose messages carry their hashes to their derived data the filter is exact**; and the next message
keeps that so exactly if it is one of them as well. -/
theorem exactFilter_of_run {n₀ : Node} (hempty : ∀ h, h ∉ derivedHashes n₀) (hmessages : ∀ r, r ∉ n₀.messages)
    (hrun : Relation.ReflTransGen (FilterStep env) ⟨n₀, []⟩ s) :
    ExactFilter s ∧ ∀ message s', Processed env message s s' → (ExactFilter s' ↔ CarriesHash env message) := by
  have hinv : RowsProcessed env s ∧ ExactFilter s := by
    induction hrun with
    | refl =>
      refine ⟨⟨fun r hr => absurd hr (hmessages r), fun r hr => absurd hr (hmessages r)⟩, exactFilter_iff.2 fun h => ?_⟩
      exact iff_of_false (hempty h) fun hmem => List.not_mem_nil hmem.1
    | tail _ hstep ih =>
      obtain ⟨message, hprocessed, hcarries⟩ := hstep
      obtain ⟨hiff, hknown⟩ := hprocessed.exactFilter ih.1 ih.2
      exact ⟨hknown hcarries, hiff.2 hcarries⟩
  exact ⟨hinv.2, fun message s' hprocessed => (hprocessed.exactFilter hinv.1 hinv.2).1⟩

/-! ### A file with the hash of a message -/

section Masking

def maskingText : String :=
  "\x7b\"address\":\"" ++ noteDelegate ++ "\",\"item_type\":\"storage\",\"item_hash\":\"" ++ noteHash ++
    "\",\"time\":1700000000\x7d"

def maskingHash : ItemHash := "9e08369aeb24d71b8dbba68edcff3765e16f4bab9e62ce97400d960184139d15"

/-- A STORE message whose file has the hash of the note, by someone else. -/
def maskingStore : Message where
  messageType := .store
  chain := .eth
  sender := noteDelegate
  signature := ""
  itemType := .storage
  itemHash := maskingHash
  itemContent := some maskingText
  channel := none
  time := 1700000000

def maskingCtx : ProcessorContext where
  env := .ofTables [(maskingText, .obj [("address", .str noteDelegate), ("item_type", .str "storage"),
    ("item_hash", .str noteHash), ("time", .num (.int 1700000000))])] [] []
  order := .stored
  now := 1700000300
  cost := none
  ipfsGet := fun _ => .error "not found"

def maskingContent : StoreContent := ⟨noteDelegate, .storage, noteHash, none, none, none, none, 1700000000⟩

/-- The node after that message. -/
def masked : Node :=
  stored maskingCtx.env maskingStore 1700000300
    (StoreHandler.recorded maskingStore maskingContent (createHandlerContext maskingCtx true) .empty)

example : masked.filePins.rows.map FilePinRecord.itemHash = [noteHash] := by decide +kernel

theorem fromStr_masking : maskingCtx.env.fromStr StoreContent.decode maskingText = .ok maskingContent := by
  decide +kernel

theorem processed_masking : Processed maskingCtx.env maskingStore ⟨.empty, []⟩ ⟨masked, [maskingHash]⟩ := by
  have hplain : StoreHandler.Plain maskingStore (createHandlerContext maskingCtx true) maskingContent := by
    refine ⟨⟨_, rfl, fromStr_masking⟩, ?_, ?_, rfl, Nat.zero_le _, .inl rfl⟩
    · show noteHash ≠ ""
      decide +kernel
    · show StoreHandler.validateItemTypeHash .storage noteHash = .ok ()
      decide +kernel
  exact ⟨⟨by decide +kernel, accepted_of_trusted _ rfl rfl
    (hplain.exec_processMessage rfl fun ⟨_, hp, _⟩ => absurd hp List.not_mem_nil)⟩, rfl⟩

theorem processed_note : Processed revisionCtx.env note ⟨.empty, []⟩ ⟨noted, [noteHash]⟩ :=
  ⟨delivered_note, rfl⟩

/-- After the note alone the filter is exact. -/
theorem noted_exactFilter : ExactFilter ⟨noted, [noteHash]⟩ := by
  have hcarries : CarriesHash revisionCtx.env note := ⟨by decide, fun hstore => absurd hstore (by decide)⟩
  refine (exactFilter_of_run (fun h hmem => List.not_mem_nil hmem)
    (fun r hr => absurd hr List.not_mem_nil) (.single ⟨note, processed_note, hcarries⟩)).1

/-- The note is dropped unprocessed, and the STORE message is not recognised when it is delivered again. -/
theorem masked_not_exactFilter :
    Processed maskingCtx.env maskingStore ⟨.empty, []⟩ ⟨masked, [maskingHash]⟩ ∧
      Exec (batchCheckDuplicates [noteHash, maskingHash]).run masked (.ok [noteHash]) masked ∧
        noteHash ∉ [maskingHash] ∧ ¬ Forgotten masked maskingHash ∧ ¬ ExactFilter ⟨masked, [maskingHash]⟩ := by
  have hreported : Exec (batchCheckDuplicates [noteHash, maskingHash]).run masked (.ok [noteHash]) masked := by
    refine exec_query_ok.2 ⟨?_, rfl⟩
    decide +kernel
  have hother : noteHash ∉ [maskingHash] := by decide +kernel
  refine ⟨processed_masking, hreported, hother, by decide +kernel, fun hexact => hother ?_⟩
  have hiff := hexact _ _ _ hreported noteHash List.mem_cons_self
  exact (hiff.1 List.mem_cons_self).1

end Masking

end AlephCore.MessageProcessor
