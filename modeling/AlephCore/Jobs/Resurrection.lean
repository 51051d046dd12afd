import AlephCore.Jobs.DerivedRows
import AlephCore.Jobs.MessageLog

/-!
# Resurrection — what is forgotten and comes back

A forgotten hash has no row left, and the processor takes no message of it again.  The chain sync does: it stores every
message that it is given, forgotten or not, and the backfill derives rows from what it has stored.
-/

namespace AlephCore.Resurrection

open ProgE Prog MessageProcessor ForgetHandler

variable {env : Env} {message : Message} {n n' : Node} {x : ItemHash}

/-- Nothing is stored under a forgotten hash. -/
structure NoneResurrected (n : Node) : Prop where
  messages : ∀ r ∈ n.messages, ¬ Forgotten n r.itemHash
  posts : ∀ p ∈ n.posts, ¬ Forgotten n p.itemHash
  elements : ∀ e ∈ n.aggregateElements, ¬ Forgotten n e.itemHash
  programs : ∀ p ∈ n.programs, ¬ Forgotten n p.itemHash
  instances : ∀ i ∈ n.instances, ¬ Forgotten n i.itemHash

/-- No message is stored under a forgotten hash, and every derived row has its message. -/
structure Buried (n : Node) : Prop where
  owned : RowsOwned n
  messages : ∀ r ∈ n.messages, ¬ Forgotten n r.itemHash

theorem Buried.noneResurrected (h : Buried n) : NoneResurrected n := by
  have hrow : ∀ t x, HasRow n t x → ¬ Forgotten n x := by
    intro t x hrow
    obtain ⟨r, hr, rfl, -⟩ := h.owned t x hrow
    exact h.messages r hr
  exact ⟨h.messages, fun p hp => hrow .post _ ⟨p, hp, rfl⟩, fun e he => hrow .aggregate _ ⟨e, he, rfl⟩,
    fun p hp => hrow .program _ ⟨p, hp, rfl⟩, fun i hi => hrow .instance _ ⟨i, hi, rfl⟩⟩

/-- The rows are made from stored messages. -/
theorem Buried.rows (h : Buried n) (hforgotten : n'.forgottenMessages = n.forgottenMessages)
    (hmessages : n'.messages = n.messages) (hrows : ∀ t x, HasRow n' t x → HasRow n t x ∨ HasMessage n t x) :
    Buried n' := by
  refine ⟨fun t x hrow => ?_, fun r hr => ?_⟩
  · rw [HasMessage, hmessages]
    exact (hrows t x hrow).elim (h.owned t x) id
  · rw [hmessages] at hr
    rw [Forgotten, hforgotten]
    exact h.messages r hr

/-- The messages stay, and no new one is forgotten. -/
theorem Buried.stores {t : Table MessageRow MessageRow.itemHash} (h : Buried n)
    (hkept : ∀ ty x, HasMessage n ty x → HasMessage { n with messages := t } ty x)
    (hnew : ∀ r ∈ t, (∃ q ∈ n.messages, q.itemHash = r.itemHash) ∨ ¬ Forgotten n r.itemHash) :
    Buried { n with messages := t } := by
  refine ⟨fun ty x hrow => hkept ty x (h.owned ty x ?_), fun r hr => ?_⟩
  · cases ty <;> exact hrow
  · rcases hnew r hr with ⟨q, hq, hhash⟩ | hfresh
    · rw [← hhash]
      exact h.messages q hq
    · exact hfresh

/-! ## Accepted messages -/

/-- What is asked of a message that is accepted: it is fresh, and unless it is a STORE, no message of another type is
stored under its hash. -/
structure Admits (message : Message) (n : Node) : Prop where
  fresh : Fresh n message.itemHash
  storedAs : message.messageType ≠ .store → ∀ r ∈ n.messages, r.itemHash = message.itemHash →
    r.messageType = message.messageType

theorem hasRow_stored {receptionTime : Timestamp} {t : MessageType} :
    HasRow (stored env message receptionTime n) t x ↔ HasRow n t x := by
  cases t <;> exact Iff.rfl

/-- A message that is not forgotten is stored. -/
theorem messages_stored {receptionTime : Timestamp} (h : ∀ r ∈ n.messages, ¬ Forgotten n r.itemHash)
    (hfresh : ¬ Forgotten n message.itemHash) :
    ∀ r ∈ (stored env message receptionTime n).messages, ¬ Forgotten n r.itemHash := by
  intro r hr
  obtain ⟨q, hq, hhash, -⟩ | ⟨hhash, -⟩ := (exists_row_stored (P := fun _ => True) fun _ _ => Iff.rfl).1
    ⟨r, hr, rfl, trivial⟩
  · rw [← hhash]
    exact h q hq
  · rw [← hhash]
    exact hfresh

theorem not_forget_of_validateHash {ctx : HandlerContext} (h : Exec (validateHash message ctx x).run n (.ok ()) n') :
    ∀ r ∈ n.messages, r.itemHash = x → r.messageType ≠ .forget := by
  obtain ⟨isForget, n₁, hforget, hold⟩ := exec_bind_ok.1 h
  intro r hr hhash htype
  have hfind : n.messages.find? x = some r := Table.find?_eq_some.2 ⟨hr, hhash⟩
  rw [isForgetMessage, PgDatabase.getMessage, exec_db_query_bind_ok, hfind] at hforget
  obtain ⟨rfl, -⟩ := exec_pure_ok.1 hforget
  have hfound : r.message.messageType = .forget := htype
  rw [if_pos (decide_eq_true hfound)] at hold
  exact exec_throw_ok hold

/-- **A FORGET that passes** does not list its own hash. -/
theorem not_listed_of_validate {ctx : HandlerContext} {content : ForgetContent}
    (hparse : parseContent ctx.env ForgetContent.decode (fun e => e) message = .ok content)
    (hvalidate : Exec (ForgetHandler.validate message ctx).run n (.ok ()) n) (hadmits : Admits message n)
    (hforget : message.messageType = .forget) : message.itemHash ∉ content.hashes := by
  intro hmem
  rcases ((exec_validate_ok hparse hvalidate).2 _ hmem).1 with ⟨r, hr, hhash⟩ | hpin | ⟨p, hp, hhash⟩
  · obtain ⟨content', hparse', hlisted⟩ := exec_fromExcept_bind_ok.1 hvalidate
    obtain rfl := Except.ok.inj ((parseContent_text hparse).symm.trans hparse')
    split_ifs at hlisted with hempty
    · exact exec_throw_ok hlisted
    · obtain ⟨-, -, hhashes⟩ := exec_fromExcept_bind_ok.1 hlisted
      have hnot := not_forget_of_validateHash (((exec_forEach_checks checks_validateHash).1 hhashes).2 _ hmem)
      have hstore : message.messageType ≠ .store := by
        rw [hforget]
        decide
      exact hnot r hr hhash ((hadmits.storedAs hstore r hr hhash).trans hforget)
  · exact hadmits.fresh.1 (mem_derivedHashes.2 (.inr (.inr (.inl hpin))))
  · exact hadmits.fresh.posts p hp hhash

/-- **A FORGET** marks what it deletes, and is stored itself. -/
theorem Buried.forgets {ctx : HandlerContext} {content : ForgetContent} {receptionTime : Timestamp} (h : Buried n)
    (hfresh : Fresh n message.itemHash) (hlisted : message.itemHash ∉ content.hashes) :
    Buried (stored env message receptionTime (hashesForgotten message content ctx content.hashes n)) := by
  have hgone := hashesForgotten_gone message content ctx content.hashes n
  have howned := h.owned.forget hgone
  have hself : message.itemHash ∉ goneAfter n [] content.hashes := by
    intro hmem
    rcases target_of_gone hmem List.not_mem_nil with htarget | ⟨t, -, -, hamend⟩
    · exact hlisted (hash_mem_of_mem_targets htarget).1
    · obtain ⟨p, hp, -, hhash⟩ := mem_amendsOf.1 hamend
      exact hfresh.posts p hp hhash
  refine ⟨fun t x hrow => hasMessage_stored.2 (.inl (howned t x (hasRow_stored.1 hrow))),
    messages_stored (fun r hr hforgotten => ?_) fun hforgotten => ?_⟩
  · obtain ⟨hr, hleft⟩ := (hgone.messages r).1 hr
    exact ((hgone.forgotten _).1 hforgotten).elim (h.messages r hr) hleft
  · exact ((hgone.forgotten _).1 hforgotten).elim hfresh.2 hself

/-- **One message**: its row is made, and then it is stored. -/
theorem Buried.accepted (h : Buried n) (haccepted : Accepted env message n n') (hadmits : Admits message n) :
    Buried n' := by
  obtain ⟨ctx, rfl, receptionTime, n₁, heffect, rfl⟩ := haccepted.effect
  by_cases hforget : message.messageType = .forget
  · obtain ⟨content, hparse, hvalidate, rfl⟩ := heffect.forgets hforget
    exact h.forgets hadmits.fresh (not_listed_of_validate hparse hvalidate hadmits hforget)
  · obtain ⟨hmessages, hforgotten, hrows⟩ := heffect.rows hforget
    have hmarks : ∀ y, Forgotten n₁ y ↔ Forgotten n y := by
      intro y
      rw [Forgotten, hforgotten, Forgotten]
    refine ⟨fun t x hrow => ?_, messages_stored (fun r hr => ?_) ?_⟩
    · have hrow := hasRow_stored.1 hrow
      have hderives := derives_of_hasRow hrow
      rw [hasMessage_stored, HasMessage, hmessages]
      rcases (hrows t hderives x).1 hrow with hold | ⟨rfl, rfl⟩
      · exact .inl (h.owned t x hold)
      · by_cases hclash : ∃ r ∈ n.messages, r.itemHash = message.itemHash
        · obtain ⟨r, hr, hhash⟩ := hclash
          exact .inl ⟨r, hr, hhash, hadmits.storedAs hderives.1 r hr hhash⟩
        · exact .inr ⟨rfl, rfl, fun r hr hhash => hclash ⟨r, hr, hhash⟩⟩
    · rw [hmessages] at hr
      rw [hmarks]
      exact h.messages r hr
    · rw [hmarks]
      exact hadmits.fresh.2

/-! ## The chain sync -/

/-- **A chunk** without forgotten messages. -/
theorem Buried.synced {chunk : List Message} (h : Buried n) (hsynced : Synced chunk n n')
    (hchunk : ∀ m ∈ chunk, ¬ Forgotten n m.itemHash) : Buried n' := by
  have hlog := keepsLog_disturbance (T := 0) (.synced chunk hsynced)
  rw [hsynced.eq] at hlog ⊢
  refine h.stores (fun ty x => ?_) fun r hr => ?_
  · rintro ⟨r, hr, rfl, rfl⟩
    obtain ⟨s, hs, hcompletes⟩ := (hlog.messages r hr).resolve_left (h.messages r hr)
    exact ⟨s, hs, hcompletes.itemHash, hcompletes.messageType⟩
  · rcases mem_insertMessages hr with ⟨q, hq, hhash, -⟩ | ⟨m, hm, hhash⟩
    · exact .inl ⟨q, hq, hhash⟩
    · exact .inr (hhash ▸ hchunk m hm)

/-! ## The backfill -/

section Backfilled

open Backfill

variable {ctx : BackfillContext} {ρ : Type} {t : MessageType} {hashOf : ρ → ItemHash}

/-- The rows stay owned and the messages buried. -/
def KeepsBuried (n n' : Node) : Prop := Buried n → Buried n'

instance : IsPreorder Node KeepsBuried where
  refl _ := fun h => h
  trans _ _ _ h h' := fun hn => h' (h hn)

/-- At most one row is added. -/
structure Inserts (t : MessageType) (x : ItemHash) (n n' : Node) : Prop where
  forgotten : n'.forgottenMessages = n.forgottenMessages
  messages : n'.messages = n.messages
  rows : ∀ ty y, HasRow n' ty y → HasRow n ty y ∨ (ty = t ∧ y = x)

theorem buried_foldl {insert : ρ → Node → Node} (hinsert : ∀ r n, Inserts t (hashOf r) n (insert r n)) {rs : List ρ}
    (hrs : ∀ r ∈ rs, HasMessage n t (hashOf r)) (h : Buried n) : Buried (rs.foldl (fun n r => insert r n) n) := by
  induction rs generalizing n with
  | nil => exact h
  | cons r rs ih =>
    have hfirst := hinsert r n
    refine ih (fun r' hr' => ?_) (h.rows hfirst.forgotten hfirst.messages fun ty y hrow => ?_)
    · rw [HasMessage, hfirst.messages]
      exact hrs r' (List.mem_cons_of_mem _ hr')
    · rcases hfirst.rows ty y hrow with hold | ⟨rfl, rfl⟩
      · exact .inl hold
      · exact .inr (hrs r List.mem_cons_self)

/-- The rows of a batch are made from messages of the type. -/
theorem hasMessage_of_batch {make : MessageRow → Cast (Option ρ)}
    (hmake : ∀ r p, make r = .ok (some p) → hashOf p = r.itemHash) {derived : List ItemHash} {lastTime : Timestamp}
    {ps : List ρ}
    (hps : ((rawBatch ctx t derived lastTime n).mapM make).map (fun ps => ps.filterMap id) = .ok ps) :
    ∀ p ∈ ps, HasMessage n t (hashOf p) := by
  intro p hp
  cases hrows : (rawBatch ctx t derived lastTime n).mapM make with
  | error e =>
    rw [hrows] at hps
    cases hps
  | ok rows =>
    rw [hrows] at hps
    obtain rfl := Except.ok.inj hps
    obtain ⟨o, ho, rfl⟩ := List.mem_filterMap.1 hp
    obtain ⟨r, hr, hmade⟩ := ((Serde.mem_of_mapM hrows).2 _).1 ho
    obtain ⟨hr, hmissing, -⟩ := mem_sortedAfter.1 (List.mem_of_mem_take hr)
    exact ⟨r, hr, (hmake r _ hmade).symm, hmissing.1⟩

/-- The rows of the virtual machines are made from messages of the type. -/
theorem hasMessage_of_missingVms {make : MessageRow → Cast ρ} (hmake : ∀ r p, make r = .ok p → hashOf p = r.itemHash)
    {derived : List ItemHash} {ps : List ρ} (hps : (missingVms ctx t derived n).mapM make = .ok ps) :
    ∀ p ∈ ps, HasMessage n t (hashOf p) := by
  intro p hp
  obtain ⟨r, hr, hmade⟩ := ((Serde.mem_of_mapM hps).2 p).1 hp
  obtain ⟨hr, hmissing⟩ := List.mem_filter.1 hr
  exact ⟨r, ctx.order.mem_scan.1 hr, (hmake r p hmade).symm, (of_decide_eq_true hmissing).1⟩

theorem itemHash_of_postOf {r : MessageRow} {p : PostRecord} (h : postOf env r = .ok (some p)) :
    p.itemHash = r.itemHash := by
  obtain ⟨jb, -, -, -, hhash, -⟩ := postOf_eq_some h
  exact hhash

theorem itemHash_of_instanceOf {r : MessageRow} {i : InstanceRow} (h : instanceOf env r = .ok i) :
    i.itemHash = r.itemHash := by
  obtain ⟨jb, -, h⟩ := Serde.bind_ok.1 h
  obtain ⟨rootfsRef, -, h⟩ := Serde.bind_ok.1 h
  obtain ⟨allowAmend, -, h⟩ := Serde.bind_ok.1 h
  obtain ⟨time, -, h⟩ := Serde.bind_ok.1 h
  obtain rfl := Except.ok.inj h
  rfl

theorem itemHash_of_programOf {r : MessageRow} {p : ProgramRow} (h : programOf env r = .ok p) :
    p.itemHash = r.itemHash := by
  obtain ⟨jb, -, h⟩ := Serde.bind_ok.1 h
  obtain ⟨codeRef, -, h⟩ := Serde.bind_ok.1 h
  obtain ⟨runtimeRef, -, h⟩ := Serde.bind_ok.1 h
  obtain ⟨allowAmend, -, h⟩ := Serde.bind_ok.1 h
  obtain ⟨time, -, h⟩ := Serde.bind_ok.1 h
  obtain rfl := Except.ok.inj h
  rfl

theorem inserts_post (p : PostRecord) (n : Node) :
    Inserts .post p.itemHash n { n with posts := n.posts.insertNew p } := by
  have hown : ∀ y, HasRow { n with posts := n.posts.insertNew p } .post y ↔
      HasRow n .post y ∨ p.itemHash = y :=
    exists_itemHash_insertNew n.posts p
  refine ⟨rfl, rfl, fun ty y => (hasRow_insert hown (fun ty hty y => ?_) ty y).1⟩
  cases ty <;> first | exact absurd rfl hty | exact Iff.rfl

theorem inserts_instance (i : InstanceRow) (n : Node) :
    Inserts .instance i.itemHash n { n with instances := n.instances.insertNew i } := by
  have hown : ∀ y, HasRow { n with instances := n.instances.insertNew i } .instance y ↔
      HasRow n .instance y ∨ i.itemHash = y :=
    exists_itemHash_insertNew n.instances i
  refine ⟨rfl, rfl, fun ty y => (hasRow_insert hown (fun ty hty y => ?_) ty y).1⟩
  cases ty <;> first | exact absurd rfl hty | exact Iff.rfl

theorem inserts_program (p : ProgramRow) (n : Node) :
    Inserts .program p.itemHash n { n with programs := n.programs.insertNew p } := by
  have hown : ∀ y, HasRow { n with programs := n.programs.insertNew p } .program y ↔
      HasRow n .program y ∨ p.itemHash = y :=
    exists_itemHash_insertNew n.programs p
  refine ⟨rfl, rfl, fun ty y => (hasRow_insert hown (fun ty hty y => ?_) ty y).1⟩
  cases ty <;> first | exact absurd rfl hty | exact Iff.rfl

theorem inserts_element (e : AggregateElement) (n : Node) :
    Inserts .aggregate e.itemHash n (AggregateHandler.storeElement e n) := by
  have hother : ∀ ty, ty ≠ .aggregate → ∀ y, HasRow (AggregateHandler.storeElement e n) ty y ↔ HasRow n ty y := by
    intro ty hty y
    rw [AggregateHandler.storeElement]
    cases ty <;> first | exact absurd rfl hty | split_ifs <;> exact Iff.rfl
  refine ⟨?_, ?_, fun ty y => (hasRow_insert (hasRow_element e n) hother ty y).1⟩
  · rw [AggregateHandler.storeElement]
    split_ifs <;> rfl
  · rw [AggregateHandler.storeElement]
    split_ifs <;> rfl

/-- A batch of the denormalization changes columns only. -/
theorem buried_denormStep (lastTime : Timestamp) : Moves KeepsBuried (denormStep ctx lastTime).run := by
  refine moves_sql fun n h => ?_
  dsimp only
  cases hjbs : (denormBatch ctx lastTime n).mapM fun r => (contentJsonb ctx.env r).map fun jb => (r.itemHash, jb) with
  | error e => exact h
  | ok jbs =>
    refine h.stores (fun ty x => ?_) fun r hr => .inl ?_
    · rintro ⟨r, hr, rfl, rfl⟩
      obtain ⟨s, hs, hrewrites, -⟩ := mem_foldl_denormRow ctx.env jbs hr
      exact ⟨s, hs, hrewrites.itemHash, hrewrites.messageType⟩
    · clear hjbs
      have hback : ∀ {t : Table MessageRow MessageRow.itemHash},
          r ∈ jbs.foldl (fun t x => t.update (·.itemHash = x.1) (denormRow ctx.env x.2)) t →
            ∃ q ∈ t, q.itemHash = r.itemHash := by
        clear hr
        induction jbs with
        | nil => exact fun hr => ⟨r, hr, rfl⟩
        | cons x jbs ih =>
          intro t hr
          rw [List.foldl_cons] at hr
          have hkey : ∀ q, (denormRow ctx.env x.2 q).itemHash = q.itemHash := fun _ => rfl
          exact (Table.exists_key_update hkey (P := fun k => k = r.itemHash)).1 (ih hr)
      exact hback hr

theorem buried_updateStatus : Moves KeepsBuried updateStatus.run := by
  refine moves_execute fun n h => h.stores (fun ty x => ?_) fun r hr => .inl ?_
  · rintro ⟨r, hr, rfl, rfl⟩
    by_cases hstatus : r.status = ""
    · refine ⟨{ r with status := "processed" }, ?_, rfl, rfl⟩
      rw [Table.mem_update]
      exact .inr ⟨r, hr, hstatus, rfl⟩
    · refine ⟨r, ?_, rfl, rfl⟩
      rw [Table.mem_update]
      exact .inl ⟨hr, hstatus⟩
  · have hkey : ∀ q : MessageRow, ({ q with status := "processed" } : MessageRow).itemHash = q.itemHash := fun _ => rfl
    exact (Table.exists_key_update hkey (P := fun k => k = r.itemHash)).1 ⟨r, hr, rfl⟩

theorem buried_updateLatestAmends : Moves KeepsBuried (updateLatestAmends ctx).run := by
  refine moves_execute fun n h => h.rows rfl rfl fun ty y hrow => .inl ?_
  cases ty with
  | post => exact (Table.exists_key_update (amendNamed_itemHash ctx n) (P := fun k => k = y)).1 hrow
  | aggregate => exact hrow
  | program => exact hrow
  | «instance» => exact hrow
  | store => exact hrow
  | forget => exact hrow

theorem buried_markAggregates : Moves KeepsBuried (markAggregates ctx).run := by
  refine moves_execute fun n h => h.rows rfl rfl fun ty y hrow => .inl ?_
  cases ty <;> exact hrow

/-- **The backfill** derives rows from stored messages only. -/
theorem buried_runStartupBackfill : Moves KeepsBuried (runStartupBackfill ctx).run := by
  have hinsertPosts : ∀ time, Moves KeepsBuried (insertPosts ctx time).run := fun _ =>
    moves_insertRows fun n ps hps =>
      buried_foldl inserts_post (hasMessage_of_batch (fun _ _ => itemHash_of_postOf) hps)
  have hinsertElements : ∀ time, Moves KeepsBuried (insertElements ctx time).run := fun _ =>
    moves_insertRows fun n es hes =>
      buried_foldl inserts_element (hasMessage_of_batch (fun _ _ => itemHash_of_elementOf) hes)
  have hinstances : Moves KeepsBuried (backfillInstances ctx).run := moves_insertRows fun n is his =>
    buried_foldl inserts_instance (hasMessage_of_missingVms (fun _ _ => itemHash_of_instanceOf) his)
  have hprograms : Moves KeepsBuried (backfillPrograms ctx).run := moves_insertRows fun n ps hps =>
    buried_foldl inserts_program (hasMessage_of_missingVms (fun _ _ => itemHash_of_programOf) hps)
  exact moves_runStartupBackfill hinsertPosts buried_updateLatestAmends hinsertElements buried_markAggregates
    hinstances hprograms buried_denormStep buried_updateStatus

end Backfilled

/-! ## Runs -/

/-- What happens in a step. -/
inductive Event where
  | accepts (message : Message)
  | syncs (chunk : List Message)
  | backfills
  | elsewhere

inductive Step (env : Env) (n : Node) : Event → Node → Prop
  /-- A message is accepted; a FORGET is one of them. -/
  | accepts {message : Message} {n' : Node} (h : Accepted env message n n') : Step env n (.accepts message) n'
  /-- A chunk from a chain is inserted. -/
  | syncs {chunk : List Message} {n' : Node} (h : Synced chunk n n') : Step env n (.syncs chunk) n'
  /-- The startup backfill issues a statement. -/
  | backfills (ctx : Backfill.BackfillContext) {n' : Node} (h : Issues (Backfill.runStartupBackfill ctx).run n n') :
      Step env n .backfills n'
  /-- Anything that does not write to these tables: insertion into the queue and rejections among others. -/
  | elsewhere {n' : Node} (hforgotten : n'.forgottenMessages = n.forgottenMessages)
      (hmessages : n'.messages = n.messages) (hposts : n'.posts = n.posts)
      (helements : n'.aggregateElements = n.aggregateElements) (hprograms : n'.programs = n.programs)
      (hinstances : n'.instances = n.instances) : Step env n .elsewhere n'

/-- What is asked of a step, in the state before it. -/
def Careful (n : Node) : Event → Prop
  | .accepts message => Admits message n
  | .syncs chunk => ∀ m ∈ chunk, ¬ Forgotten n m.itemHash
  | _ => True

/-- **One careful step** leaves the dead buried. -/
theorem Buried.step {event : Event} (h : Buried n) (hstep : Step env n event n') (hcareful : Careful n event) :
    Buried n' := by
  cases hstep with
  | accepts haccepted => exact h.accepted haccepted hcareful
  | syncs hsynced => exact h.synced hsynced hcareful
  | backfills ctx hissues => exact buried_runStartupBackfill.issues hissues h
  | elsewhere hforgotten hmessages hposts helements hprograms hinstances =>
    refine h.rows hforgotten hmessages fun ty y hrow => .inl ?_
    cases ty with
    | post =>
      rw [HasRow, hposts] at hrow
      exact hrow
    | aggregate =>
      rw [HasRow, helements] at hrow
      exact hrow
    | program =>
      rw [HasRow, hprograms] at hrow
      exact hrow
    | «instance» =>
      rw [HasRow, hinstances] at hrow
      exact hrow
    | store => exact hrow
    | forget => exact hrow

/-- **Nothing comes back** in a run of careful steps. -/
theorem noneResurrected_of_run
    (hrun : Relation.ReflTransGen (fun n n' => ∃ event, Step env n event n' ∧ Careful n event) .empty n) :
    NoneResurrected n := by
  suffices hburied : Buried n from hburied.noneResurrected
  induction hrun with
  | refl => exact ⟨rowsMatch_empty.owned, fun r hr => absurd hr List.not_mem_nil⟩
  | tail _ hstep ih =>
    obtain ⟨event, hstep, hcareful⟩ := hstep
    exact ih.step hstep hcareful

/-! ### An amendment that is forgotten, and synced again -/

section Resurrected

/-- The node once the amendment is forgotten. -/
def amendmentGone : Node := afterForgetting forgetAmendment amendmentHash withAmendment

/-- The hash of the message is new. -/
theorem Admits.of_new {ctx : ProcessorContext} (h : DeliveredBy ctx message n n')
    (hnew : ∀ r ∈ n.messages, r.itemHash ≠ message.itemHash) : Admits message n :=
  ⟨h.fresh, fun _ r hr hhash => absurd hhash (hnew r hr)⟩

theorem step_delivered {ctx : ProcessorContext} (h : DeliveredBy ctx message n n') :
    Step ctx.env n (.accepts message) n' := .accepts h.delivered.accepted

/-- The FORGET of the amendment leaves nothing of it. -/
theorem amendmentGone_noneResurrected : NoneResurrected amendmentGone := by
  have hprogram : ∀ r ∈ fileStored.messages.rows, r.itemHash ≠ programHash := by decide +kernel
  have hamendment : ∀ r ∈ withProgram.messages.rows, r.itemHash ≠ amendmentHash := by decide +kernel
  have hforget : ∀ r ∈ withAmendment.messages.rows, r.itemHash ≠ forgetAmendment.itemHash := by decide +kernel
  exact noneResurrected_of_run ((((Relation.ReflTransGen.single
    ⟨_, step_delivered delivered_store, .of_new delivered_store fun _ hr => absurd hr List.not_mem_nil⟩).tail
    ⟨_, step_delivered delivered_firstProgram, .of_new delivered_firstProgram hprogram⟩).tail
    ⟨_, step_delivered delivered_amendment, .of_new delivered_amendment hamendment⟩).tail
    ⟨_, step_delivered delivered_forgetAmendment, .of_new delivered_forgetAmendment hforget⟩)

/-- A chain brings the amendment again. -/
def amendmentBack : Node :=
  { amendmentGone with messages := ChainSync.insertMessage amendmentGone.messages amendment }

/-- It is forgotten, and stored. -/
theorem amendment_resurrected :
    ¬ ∀ (env : Env) (n : Node), Relation.ReflTransGen (fun n n' => ∃ event, Step env n event n') .empty n →
      NoneResurrected n := by
  intro h
  have hrun : Relation.ReflTransGen (fun n n' => ∃ event, Step vmCtx.env n event n') .empty amendmentBack :=
    ((((Relation.ReflTransGen.single ⟨_, step_delivered delivered_store⟩).tail
      ⟨_, step_delivered delivered_firstProgram⟩).tail ⟨_, step_delivered delivered_amendment⟩).tail
      ⟨_, step_delivered delivered_forgetAmendment⟩).tail ⟨_, .syncs (synced_one amendment)⟩
  have hstored : ∃ r ∈ amendmentBack.messages.rows, r.itemHash = amendmentHash := by decide +kernel
  have hforgotten : Forgotten amendmentBack amendmentHash := by decide +kernel
  obtain ⟨r, hr, hhash⟩ := hstored
  exact (h vmCtx.env amendmentBack hrun).messages r hr (hhash ▸ hforgotten)

end Resurrected

end AlephCore.Resurrection
