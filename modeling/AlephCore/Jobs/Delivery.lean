import AlephCore.Jobs.PinTracking
import AlephCore.Handlers.ForgetList
import AlephCore.Handlers.PostPermissions
import AlephCore.Handlers.PostSpec
import AlephCore.Handlers.VmSpec

/-!
# Delivery — one accepted message after another

What an accepted message does to the node, in one case for each kind of message, and the steps of a node that
is given one message after another: a message that has derived data or is forgotten is dropped, any other one
may be accepted.
-/

namespace AlephCore.MessageProcessor

open ProgE Prog

/-! ## The effect of a message -/

/-- What the process stage of an accepted message makes of the node. -/
inductive Effect (message : Message) (ctx : HandlerContext) (n : Node) : Node → Prop
  | aggregate (content : AggregateContent) (htype : message.messageType = .aggregate) :
      Effect message ctx n (AggregateHandler.processed (AggregateHandler.elementOf message content) n)
  | post (content : PostContent) (htype : message.messageType = .post)
      (hparse : parseContent ctx.env PostContent.decode (fun e => e) message = .ok content)
      (horiginal : PostHandler.isAmend ctx.env content.postType = false) :
      Effect message ctx n (PostHandler.posted (PostHandler.recordOf message content none) n)
  | amend (content : PostContent) (originalHash : ItemHash) (target : PostRecord)
      (htype : message.messageType = .post)
      (hparse : parseContent ctx.env PostContent.decode (fun e => e) message = .ok content)
      (hamend : PostHandler.isAmend ctx.env content.postType = true)
      (htarget : target ∈ n.posts) (href : content.ref_ = some target.itemHash)
      (hplain : PostHandler.isAmend ctx.env target.postType = false)
      (horiginal : originalHash = target.originalItemHash.getD target.itemHash ∨
        originalHash = target.itemHash) :
      Effect message ctx n
        (PostHandler.amended originalHash (PostHandler.recordOf message content (some originalHash)) n)
  | store (content : StoreContent) (htype : message.messageType = .store)
      (hparse : parseContent ctx.env StoreContent.decode (fun e => e) message = .ok content)
      (hclash : ¬ PgDatabase.PinClash (StoreHandler.pinOf message content ctx.now) n) :
      Effect message ctx n (StoreHandler.recorded message content ctx n)
  | program (content : ProgramContent) (htype : message.messageType = .program)
      (hparse : ProgramHandler.parseContent ctx.env message = .ok content)
      (hvalid : ProgramHandler.Valid content n) :
      Effect message ctx n (ProgramHandler.recorded message content ctx n)
  | instance (content : InstanceContent) (htype : message.messageType = .instance)
      (hparse : InstanceHandler.parseContent ctx.env message = .ok content)
      (hvalid : InstanceHandler.Valid content n) :
      Effect message ctx n (InstanceHandler.recorded message content ctx n)
  | forget (content : ForgetContent) (htype : message.messageType = .forget)
      (hparse : parseContent ctx.env ForgetContent.decode (fun e => e) message = .ok content)
      (hvalidate : Exec (ForgetHandler.validate message ctx).run n (.ok ()) n) :
      Effect message ctx n (ForgetHandler.hashesForgotten message content ctx content.hashes n)

variable {env : Env} {message : Message} {n n' : Node}

/-- **An accepted message** has one of these effects, and is stored. -/
theorem AcceptedBy.effect {ctx : ProcessorContext} (h : AcceptedBy ctx message n n') :
    ∃ trustedSource receptionTime n₁, Effect message (createHandlerContext ctx trustedSource) n n₁ ∧
      n' = stored ctx.env message receptionTime n₁ := by
  obtain ⟨trustedSource, hctx, rfl, hvalidate, -, receptionTime, n₁, hprocess, rfl⟩ := h.stages
  refine ⟨trustedSource, receptionTime, n₁, ?_, rfl⟩
  cases htype : message.messageType with
  | aggregate =>
    rw [htype] at hprocess
    obtain ⟨content, -, hprocess⟩ := exec_fromExcept_bind_ok.1 hprocess
    obtain rfl := AggregateHandler.exec_processElement_ok.1 hprocess
    exact .aggregate content htype
  | post =>
    rw [htype] at hprocess hvalidate
    obtain ⟨content, hparse, ⟨horiginal, rfl⟩ | ⟨hamend, targetRef, href, originalHash, horiginal, rfl⟩⟩ :=
      PostHandler.exec_process_ok.1 hprocess
    · exact .post content htype hparse horiginal
    · obtain ⟨s, hs, hdecode⟩ := parseContent_ok.1 hparse
      obtain ⟨-, ref', href', target, htarget, rfl, hplain⟩ :=
        PostHandler.exec_validate_amend hvalidate ⟨s, hs, hdecode⟩ hamend
      obtain rfl := Option.some.inj (href.symm.trans href')
      have hfind : n.posts.find? target.itemHash = some target := Table.find?_eq_some.2 ⟨htarget, rfl⟩
      rw [PostHandler.originalHashOf, hfind] at horiginal
      exact .amend content originalHash target htype hparse hamend htarget href hplain horiginal
  | store =>
    rw [htype] at hprocess
    obtain ⟨content, hparse, hclash, rfl⟩ := StoreHandler.exec_process_ok.1 hprocess
    exact .store content htype hparse hclash
  | program =>
    rw [htype] at hprocess hvalidate
    obtain ⟨content, hparse, rfl⟩ := ProgramHandler.exec_process_ok.1 hprocess
    obtain ⟨content', hparse', hvalid, -⟩ := ProgramHandler.exec_validate_ok.1 hvalidate
    obtain rfl := Except.ok.inj (hparse.symm.trans hparse')
    exact .program content htype hparse hvalid
  | «instance» =>
    rw [htype] at hprocess hvalidate
    obtain ⟨content, hparse, rfl⟩ := InstanceHandler.exec_process_ok.1 hprocess
    obtain ⟨content', hparse', hvalid⟩ := InstanceHandler.exec_validate_valid hvalidate
    obtain rfl := Except.ok.inj (hparse.symm.trans hparse')
    exact .instance content htype hparse hvalid
  | forget =>
    rw [htype] at hprocess hvalidate
    obtain ⟨content, hparse, rfl⟩ := ForgetHandler.exec_process_ok.1 hprocess
    exact .forget content htype hparse hvalidate

theorem Accepted.effect (h : Accepted env message n n') :
    ∃ ctx : HandlerContext, ctx.env = env ∧ ∃ receptionTime n₁, Effect message ctx n n₁ ∧
      n' = stored env message receptionTime n₁ := by
  obtain ⟨ctx, rfl, hby⟩ := accepted_iff.1 h
  obtain ⟨trustedSource, receptionTime, n₁, heffect, rfl⟩ := hby.effect
  exact ⟨_, rfl, receptionTime, n₁, heffect, rfl⟩

/-- **The rows once the message is stored**: under its hash the old row with a property that a refresh keeps, else
its own. -/
theorem exists_row_stored {receptionTime : Timestamp} {hash : ItemHash} {P : MessageRow → Prop}
    (hP : ∀ new old, P (refreshRow new old) ↔ P old) :
    (∃ r ∈ (stored env message receptionTime n).messages, r.itemHash = hash ∧ P r) ↔
      (∃ r ∈ n.messages, r.itemHash = hash ∧ P r) ∨
        (message.itemHash = hash ∧ P (processedRow env message receptionTime) ∧
          ∀ r ∈ n.messages, r.itemHash ≠ hash) := by
  constructor
  · rintro ⟨r, hr, hhash, hprop⟩
    rcases Table.mem_upsert.1 hr with ⟨hr, -⟩ | ⟨s, hs, -, rfl⟩ | ⟨rfl, hnone⟩
    · exact .inl ⟨r, hr, hhash, hprop⟩
    · exact .inl ⟨s, hs, hhash, (hP _ s).1 hprop⟩
    · exact .inr ⟨hhash, hprop, fun s hs he => hnone s hs (he.trans hhash.symm)⟩
  · rintro (⟨r, hr, rfl, hprop⟩ | ⟨rfl, hprop, hnone⟩)
    · by_cases he : r.itemHash = message.itemHash
      · exact ⟨_, Table.mem_upsert.2 (.inr (.inl ⟨r, hr, he, rfl⟩)), rfl, (hP _ r).2 hprop⟩
      · exact ⟨r, Table.mem_upsert.2 (.inl ⟨hr, he⟩), rfl, hprop⟩
    · exact ⟨_, Table.mem_upsert.2 (.inr (.inr ⟨rfl, hnone⟩)), rfl, hprop⟩

/-- A message is accepted. -/
def AcceptStep (env : Env) (n n' : Node) : Prop := ∃ message, Accepted env message n n'

/-! ## Messages one after another -/

/-- The batch does not drop the message at once: it has no derived data, and is not forgotten. -/
def Fresh (n : Node) (itemHash : ItemHash) : Prop :=
  itemHash ∉ derivedHashes n ∧ ¬ ForgetHandler.Forgotten n itemHash

instance (n : Node) (itemHash : ItemHash) : Decidable (Fresh n itemHash) :=
  inferInstanceAs (Decidable (_ ∧ _))

/-- A message is taken and accepted. -/
structure Delivered (env : Env) (message : Message) (n n' : Node) : Prop where
  fresh : Fresh n message.itemHash
  accepted : Accepted env message n n'

/-- A message is taken and accepted by a node with these services. -/
structure DeliveredBy (ctx : ProcessorContext) (message : Message) (n n' : Node) : Prop where
  fresh : Fresh n message.itemHash
  accepted : AcceptedBy ctx message n n'

/-- A message is taken and accepted, whichever it is. -/
def DeliveryStep (env : Env) (n n' : Node) : Prop := ∃ message, Delivered env message n n'

theorem DeliveredBy.delivered {ctx : ProcessorContext} (h : DeliveredBy ctx message n n') :
    Delivered ctx.env message n n' :=
  ⟨h.fresh, accepted_iff.2 ⟨ctx, rfl, h.accepted⟩⟩

theorem mem_derivedHashes {h : ItemHash} :
    h ∈ derivedHashes n ↔ (∃ p ∈ n.posts, p.itemHash = h) ∨ (∃ e ∈ n.aggregateElements, e.itemHash = h) ∨
      (∃ p ∈ n.filePins, p.itemHash = h) ∨ (∃ p ∈ n.programs, p.itemHash = h) ∨
      ∃ i ∈ n.instances, i.itemHash = h := by
  simp only [derivedHashes, List.mem_append, List.mem_map, or_assoc, Table.mem_def]

/-- Nothing derived is stored under a fresh hash. -/
theorem Fresh.posts (h : Fresh n message.itemHash) : ∀ p ∈ n.posts, p.itemHash ≠ message.itemHash :=
  fun p hp he => h.1 (mem_derivedHashes.2 (.inl ⟨p, hp, he⟩))

theorem Fresh.programs (h : Fresh n message.itemHash) : ∀ p ∈ n.programs, p.itemHash ≠ message.itemHash :=
  fun p hp he => h.1 (mem_derivedHashes.2 (.inr (.inr (.inr (.inl ⟨p, hp, he⟩)))))

theorem Fresh.instances (h : Fresh n message.itemHash) : ∀ i ∈ n.instances, i.itemHash ≠ message.itemHash :=
  fun i hi he => h.1 (mem_derivedHashes.2 (.inr (.inr (.inr (.inr ⟨i, hi, he⟩)))))

/-- Only aggregates and their elements change with a handled element. -/
theorem processed_eq (e : AggregateElement) (n : Node) :
    ∃ as, AggregateHandler.processed e n = { AggregateHandler.storeElement e n with aggregates := as } := by
  unfold AggregateHandler.processed
  split
  · exact ⟨_, rfl⟩
  · unfold AggregateHandler.merged AggregateHandler.rebuild
    split_ifs <;> exact ⟨_, rfl⟩

/-- A new row is the one that is inserted. -/
theorem mem_insertNew_fresh {ρ : Type} {key : ρ → ItemHash} {t : Table ρ key} {r q : ρ}
    (h : ∀ s ∈ t, key s ≠ key r) : q ∈ t.insertNew r ↔ q ∈ t ∨ q = r := by
  rw [Table.mem_insertNew]
  exact or_congr_right (and_iff_left h)

/-- An amend adds its row and changes that of its original. -/
theorem mem_amended {r p' : PostRecord} {originalHash : ItemHash} (hfresh : ∀ p ∈ n.posts, p.itemHash ≠ r.itemHash) :
    p' ∈ (PostHandler.amended originalHash r n).posts ↔
      ((p' ∈ n.posts ∨ p' = r) ∧ p'.itemHash ≠ originalHash) ∨
        ∃ p, (p ∈ n.posts ∨ p = r) ∧ p.itemHash = originalHash ∧ p' = { p with latestAmend := some r.itemHash } := by
  have hinsert : ∀ p, p ∈ n.posts.insertNew r ↔ p ∈ n.posts ∨ p = r := fun p => mem_insertNew_fresh hfresh
  simp only [PostHandler.amended, Table.mem_update, hinsert]

theorem mem_amended_of_target {r target p' : PostRecord} (hfresh : ∀ p ∈ n.posts, p.itemHash ≠ r.itemHash)
    (htarget : target ∈ n.posts) :
    p' ∈ (PostHandler.amended target.itemHash r n).posts ↔
      ((p' ∈ n.posts ∨ p' = r) ∧ p'.itemHash ≠ target.itemHash) ∨ p' = { target with latestAmend := some r.itemHash } := by
  rw [mem_amended hfresh]
  refine or_congr_right ?_
  constructor
  · rintro ⟨s, hs | rfl, he, rfl⟩
    · rw [Table.eq_of_key hs htarget he]
    · exact absurd he.symm (hfresh target htarget)
  · rintro rfl
    exact ⟨target, .inl htarget, rfl, rfl⟩

end AlephCore.MessageProcessor
