import AlephCore.Jobs.OneStatus
import AlephCore.Services.FetchedContent

/-!
# StrandedContent — contents that are stored, and messages that are never processed

The content of a shell is stored by one statement, and the message is queued by another: the content-fetch loop
inserts a pending row, the job that asks the gateway only updates one.  Neither looks at a row again that has a
content.  So a message is stranded when its content is stored and the queueing is refused, cut off, or finds no
pending row, and when a batch drops the pending row of a message that it has not processed.
-/

namespace AlephCore.StrandedContent

open ProgE Prog ForgetHandler MessageProcessor
open ContentFetch (Unfetched FailureCounts ContentFetchContext rowJson requeue requeued setContent storeFetchedContent
  queueForProcessing tick)
open ChainSync (rebuildPending resolveAndUpdateContent)

/-! ## Where a fetched message stands -/

/-- A message of type `storage` or `ipfs` that has received a content. -/
def Fetched (r : MessageRow) : Prop :=
  (r.itemType = .storage ∨ r.itemType = .ipfs) ∧ ∃ content, r.itemContent = some content ∧ content ≠ ""

/-- A handler has processed the message or it was rejected; only what was processed has a reception time. -/
def Handled (n : Node) (h : ItemHash) : Prop :=
  (∃ r ∈ n.messages, r.itemHash = h ∧ r.receptionTime.isSome) ∨ Rejected n h

/-- A pending row that the processor will pick up, with the content of the message. -/
def Carried (n : Node) (r : MessageRow) : Prop :=
  ∃ p ∈ n.pendingMessages, p.itemHash = r.itemHash ∧ p.retries < maxRetries ∧ isBlacklisted p = false ∧
    ∃ message, Message.decode p.message = .ok message ∧ message.itemContent = r.itemContent

/-- The message of the hash, if it has received a content, is not stranded. -/
def Safe (n : Node) (h : ItemHash) : Prop :=
  ∀ r ∈ n.messages, r.itemHash = h → Fetched r → Handled n h ∨ Carried n r ∨ Unfetched r

/-! ## The jobs -/

/-- What is left of a job beside the processor. -/
abbrev Job := Prog Node DbError (Except DbError Unit)

/-- A tick of the content-fetch loop, or a background task that asks the gateway. -/
inductive Starts : Job → Prop
  | fetches (ctx : ContentFetchContext) (servers : List String) (failures : FailureCounts) :
      Starts (tick ctx servers failures >>= fun _ => pure ()).run
  | resolves (now : Timestamp) (contents : List (ItemHash × Option String)) :
      Starts (resolveAndUpdateContent now contents).run

/-- The next statement of the job inserts a pending row, or overwrites it. -/
def Requeues (h : ItemHash) (job : Job) : Prop :=
  ∃ (ctx : ContentFetchContext) (q : Except DbError Unit → Job), job = (queueForProcessing ctx h).run >>= q

/-- The next statement of the job overwrites a pending row. -/
def Rebuilds (h : ItemHash) (job : Job) : Prop :=
  ∃ (now : Timestamp) (q : Except DbError Unit → Job), job = (rebuildPending now h).run >>= q

/-- The job is about to queue the message, whose content it has stored. -/
def Queues (h : ItemHash) (job : Job) : Prop := Requeues h job ∨ Rebuilds h job

/-- The processor, and the other jobs that are running. -/
structure System where
  node : Node
  phase : Phase
  jobs : List Job

/-- Shells are stored, and messages queued. -/
def Arrives (n n' : Node) : Prop :=
  Queued n n' ∨ ∃ chunk, (∀ m ∈ chunk, m.itemContent = none) ∧ Synced chunk n n'

inductive Event where
  | processor
  | arrival
  | start
  | granted (job : Job)
  | refused (job : Job) (others : List Job)
  | stop

/-- One step: a statement of the processor or of another job is executed or refused, or the node stops. -/
inductive Step : Event → System → System → Prop
  | processor {n n' : Node} {phase phase' : Phase} {jobs : List Job}
      (h : MessageProcessor.Step (fun _ _ => False) ⟨n, phase⟩ ⟨n', phase'⟩) :
      Step .processor ⟨n, phase, jobs⟩ ⟨n', phase', jobs⟩
  | arrival {n n' : Node} {phase : Phase} {jobs : List Job} (h : Arrives n n') :
      Step .arrival ⟨n, phase, jobs⟩ ⟨n', phase, jobs⟩
  | start {n : Node} {phase : Phase} {jobs : List Job} {job : Job} (h : Starts job) :
      Step .start ⟨n, phase, jobs⟩ ⟨n, phase, job :: jobs⟩
  | granted {ρ : Type} {n : Node} {phase : Phase} {js ks : List Job} (f : Node → Except DbError ρ × Node)
      (k : Except DbError ρ → Job) :
      Step (.granted (.stmt f k)) ⟨n, phase, js ++ .stmt f k :: ks⟩ ⟨(f n).2, phase, js ++ k (f n).1 :: ks⟩
  | refused {ρ : Type} {n : Node} {phase : Phase} {js ks : List Job} (f : Node → Except DbError ρ × Node)
      (k : Except DbError ρ → Job) (e : DbError) :
      Step (.refused (.stmt f k) (js ++ ks)) ⟨n, phase, js ++ .stmt f k :: ks⟩ ⟨n, phase, js ++ k (.error e) :: ks⟩
  | stop {n : Node} {phase : Phase} {jobs : List Job} : Step .stop ⟨n, phase, jobs⟩ ⟨n, .idle, []⟩

/-- The message is not stranded, or a job is about to queue it. -/
def Settled (h : ItemHash) (s : System) : Prop := Safe s.node h ∨ ∃ job ∈ s.jobs, Queues h job

/-! ## When nothing is stranded -/

/-- What the batch drops at once, and what is forgotten, has been handled if it has a content. -/
def DropsHandled (b : Batch) (n : Node) : Prop :=
  ∀ r ∈ n.messages, Fetched r → r.itemHash ∈ b.toDelete ∨ Forgotten n r.itemHash → Handled n r.itemHash

/-- A message that is queued will be picked up: its sender is not blacklisted, and there is a pending row to
overwrite. -/
def QueuesSafely (h : ItemHash) (job : Job) (n : Node) : Prop :=
  ∀ r ∈ n.messages, r.itemHash = h → Fetched r →
    Handled n h ∨ r.sender ∉ blacklistedAddresses ∧ (Rebuilds h job → ∃ p ∈ n.pendingMessages, p.itemHash = h)

/-- The condition on the state before a step. -/
def Guard : Event → System → Prop
  | .processor, s => ∀ ctx b results p, s.phase = .settling ctx b results p → DropsHandled b s.node
  | .arrival, _ => True
  | .start, _ => True
  | .granted job, s => ∀ h, Queues h job → QueuesSafely h job s.node
  | .refused job others, s => ∀ h, Queues h job → Settled h ⟨s.node, s.phase, others⟩
  | .stop, s => ∀ job ∈ s.jobs, ∀ h, Queues h job → Safe s.node h

/-- A step that meets the condition. -/
def Careful (s s' : System) : Prop := ∃ e, Step e s s' ∧ Guard e s

variable {h x : ItemHash} {n n' : Node}

/-! ## What a statement keeps -/

/-- The message is handled, or was forgotten. -/
def Decided (n : Node) (h : ItemHash) : Prop := Handled n h ∨ Forgotten n h

/-- What others do beside the processor, and it beside them. -/
structure Heeds (h : ItemHash) (n n' : Node) : Prop where
  forgotten : ∀ x, Forgotten n x → Forgotten n' x
  decided : Decided n h → Decided n' h
  named : (∀ p ∈ n.pendingMessages, p.Named) → ∀ p ∈ n'.pendingMessages, p.Named

theorem Heeds.refl (n : Node) : Heeds h n n := ⟨fun _ hx => hx, fun hd => hd, fun hp => hp⟩

theorem Heeds.trans {n₁ n₂ n₃ : Node} (h₁ : Heeds h n₁ n₂) (h₂ : Heeds h n₂ n₃) : Heeds h n₁ n₃ where
  forgotten x hx := h₂.forgotten x (h₁.forgotten x hx)
  decided hd := h₂.decided (h₁.decided hd)
  named hp := h₂.named (h₁.named hp)

/-- The books of the message grow, or its row is deleted once it is forgotten. -/
theorem heeds_of (hhandled : Handled n h → Decided n' h) (hforgotten : ∀ x, Forgotten n x → Forgotten n' x)
    (hnamed : (∀ p ∈ n.pendingMessages, p.Named) → ∀ p ∈ n'.pendingMessages, p.Named) : Heeds h n n' := by
  refine ⟨hforgotten, ?_, hnamed⟩
  rintro (hd | hf)
  · exact hhandled hd
  · exact .inr (hforgotten h hf)

/-- No content is received, what is handled stays so, and so do the pending rows. -/
theorem Safe.of_rows (hs : Safe n h) (hrows : ∀ r ∈ n'.messages, r.itemHash = h → Fetched r → r ∈ n.messages)
    (hhandled : Handled n h → Handled n' h) (hcarried : ∀ r ∈ n.messages, r.itemHash = h → Carried n r → Carried n' r) :
    Safe n' h := by
  intro r hr he hfetched
  have hold := hrows r hr he hfetched
  rcases hs r hold he hfetched with hd | hc | hu
  · exact .inl (hhandled hd)
  · exact .inr (.inl (hcarried r hold he hc))
  · exact .inr (.inr hu)

theorem carried_mono {r : MessageRow} (hpending : ∀ p ∈ n.pendingMessages, p.itemHash = r.itemHash → p ∈ n'.pendingMessages)
    (hc : Carried n r) : Carried n' r := by
  obtain ⟨p, hp, he, hrest⟩ := hc
  exact ⟨p, hpending p hp he, he, hrest⟩

/-! ### The other jobs -/

theorem mem_setContent {content : String} {r : MessageRow} :
    r ∈ (setContent x content n).messages ↔ (r ∈ n.messages ∧ ¬ (r.itemHash = x ∧ r.itemContent = none)) ∨
      ∃ q ∈ n.messages, (q.itemHash = x ∧ q.itemContent = none) ∧ r = { q with itemContent := some content } := by
  rw [setContent, Table.mem_update]

theorem handled_setContent {content : String} (hd : Handled n h) : Handled (setContent x content n) h := by
  refine hd.imp_left ?_
  rintro ⟨r, hr, he, htime⟩
  by_cases hrow : r.itemHash = x ∧ r.itemContent = none
  · exact ⟨_, mem_setContent.2 (.inr ⟨r, hr, hrow, rfl⟩), he, htime⟩
  · exact ⟨r, mem_setContent.2 (.inl ⟨hr, hrow⟩), he, htime⟩

theorem heeds_setContent (content : String) : Heeds h n (setContent x content n) :=
  heeds_of (fun hd => .inl (handled_setContent hd)) (fun _ hx => hx) fun hp => hp

/-- The content of another message is stored, or an empty one. -/
theorem Safe.setContent {content : String} (hs : Safe n h) (hother : x = h → content = "") :
    Safe (setContent x content n) h := by
  refine hs.of_rows (fun r hr he hfetched => ?_) handled_setContent fun _ _ _ hc => hc
  rcases mem_setContent.1 hr with ⟨hr, -⟩ | ⟨q, -, ⟨hq, -⟩, rfl⟩
  · exact hr
  · obtain ⟨-, _, hcontent, hne⟩ := hfetched
    obtain rfl := Option.some.inj hcontent
    exact absurd (hother (hq.symm.trans he)) hne

/-- The message of a row is queued. -/
theorem carried_row {r : MessageRow} {p : PendingMessageDb} (hp : p ∈ n.pendingMessages) (he : p.itemHash = r.itemHash)
    (hmessage : p.message = rowJson r) (hretries : p.retries = 0) (hsender : r.sender ∉ blacklistedAddresses) :
    Carried n r := by
  refine ⟨p, hp, he, ?_, ?_, ContentFetch.rowMessage r, ?_, rfl⟩
  · rw [hretries]
    decide
  · have hfound : p.message.getStr? "sender" = some r.sender := hmessage ▸ rfl
    rw [isBlacklisted, hfound, Bool.eq_false_iff]
    exact fun hmem => hsender (List.contains_iff_mem.1 hmem)
  · rw [hmessage, ContentFetch.decode_rowJson]

theorem named_row {r : MessageRow} {p : PendingMessageDb} (he : p.itemHash = r.itemHash)
    (hmessage : p.message = rowJson r) : p.Named := by
  intro m hm
  rw [hmessage, ContentFetch.decode_rowJson] at hm
  rw [← Except.ok.inj hm, he]
  rfl

/-- The pending row of a hash is written from the stored row; `present` says when there is one afterwards. -/
structure Overwrites (x : ItemHash) (present : Prop) (r : MessageRow) (n n' : Node) : Prop where
  row : r ∈ n.messages ∧ r.itemHash = x
  books : n' = { n with pendingMessages := n'.pendingMessages }
  others : ∀ p ∈ n.pendingMessages, p.itemHash ≠ x → p ∈ n'.pendingMessages
  written : ∀ p ∈ n'.pendingMessages, p ∈ n.pendingMessages ∧ p.itemHash ≠ x ∨
    p.itemHash = x ∧ p.message = rowJson r ∧ p.retries = 0
  exists_row : present → ∃ p ∈ n'.pendingMessages, p.itemHash = x

namespace Overwrites

variable {present : Prop} {row : MessageRow} (ho : Overwrites x present row n n')
include ho

theorem handled (hd : Handled n h) : Handled n' h := by
  rw [ho.books]
  exact hd

theorem heeds : Heeds h n n' := by
  refine heeds_of (fun hd => .inl (ho.handled hd)) (fun y hy => ?_) fun hnamed p hp => ?_
  · rw [ho.books]
    exact hy
  · rcases ho.written p hp with ⟨hp, -⟩ | ⟨he, hmessage, -⟩
    · exact hnamed p hp
    · exact named_row (he.trans ho.row.2.symm) hmessage

/-- Another message is queued. -/
theorem safe_other (hne : x ≠ h) (hs : Safe n h) : Safe n' h := by
  refine hs.of_rows (fun r hr _ _ => ?_) ho.handled fun r _ he => carried_mono fun p hp hpe => ?_
  · rw [ho.books] at hr
    exact hr
  · exact ho.others p hp fun hpx => hne (hpx.symm.trans (hpe.trans he))

/-- **The message itself is queued**: it will be picked up. -/
theorem safe_own (hsafe : ∀ r ∈ n.messages, r.itemHash = x → Fetched r →
    Handled n x ∨ r.sender ∉ blacklistedAddresses ∧ present) : Safe n' x := by
  intro r hr he hfetched
  have hold : r ∈ n.messages := by
    rw [ho.books] at hr
    exact hr
  rcases hsafe r hold he hfetched with hd | ⟨hsender, hpresent⟩
  · exact .inl (ho.handled hd)
  · obtain ⟨p, hp, hpe⟩ := ho.exists_row hpresent
    rcases ho.written p hp with ⟨-, hne⟩ | ⟨-, hmessage, hretries⟩
    · exact absurd hpe hne
    · obtain rfl := Table.eq_of_key hold ho.row.1 (he.trans ho.row.2.symm)
      exact .inr (.inl (carried_row hp (hpe.trans he.symm) hmessage hretries hsender))

end Overwrites

theorem requeue_cases (now : Timestamp) (x : ItemHash) (n : Node) :
    ((∀ r ∈ n.messages, r.itemHash ≠ x) ∧ requeue now x n = n) ∨
      ∃ r, Overwrites x True r n (requeue now x n) := by
  unfold requeue
  cases hfind : n.messages.find? x with
  | none => exact .inl ⟨Table.find?_eq_none.1 hfind, rfl⟩
  | some r =>
    obtain ⟨hr, rfl⟩ := Table.find?_eq_some.1 hfind
    refine .inr ⟨r, ⟨hr, rfl⟩, rfl, fun p hp hne => ?_, fun p hp => ?_, fun _ => ?_⟩
    · exact Table.mem_upsert.2 (.inl ⟨hp, hne⟩)
    · rcases Table.mem_upsert.1 hp with hold | ⟨q, -, hq, rfl⟩ | ⟨rfl, -⟩
      · exact .inl hold
      · exact .inr ⟨hq, rfl, rfl⟩
      · exact .inr ⟨rfl, rfl, rfl⟩
    · exact (Table.exists_key_upsert (P := fun k => k = r.itemHash)).2 (.inr rfl)

/-- The state after the statement that updates the pending row. -/
def rebuilt (now : Timestamp) (x : ItemHash) (n : Node) : Node := ((rebuildPending now x).run.run n).2

theorem rebuilt_cases (now : Timestamp) (x : ItemHash) (n : Node) :
    ((∀ r ∈ n.messages, r.itemHash ≠ x) ∧ rebuilt now x n = n) ∨
      ∃ r, Overwrites x (∃ p ∈ n.pendingMessages, p.itemHash = x) r n (rebuilt now x n) := by
  unfold rebuilt rebuildPending
  rw [run_sql]
  cases hfind : n.messages.find? x with
  | none => exact .inl ⟨Table.find?_eq_none.1 hfind, rfl⟩
  | some r =>
    obtain ⟨hr, rfl⟩ := Table.find?_eq_some.1 hfind
    refine .inr ⟨r, ⟨hr, rfl⟩, rfl, fun p hp hne => ?_, fun p hp => ?_, fun hpresent => ?_⟩
    · simp only [Table.mem_update]
      exact .inl ⟨hp, hne⟩
    · simp only [Table.mem_update] at hp
      rcases hp with hold | ⟨q, -, hq, rfl⟩
      · exact .inl hold
      · exact .inr ⟨hq, rfl, rfl⟩
    · obtain ⟨p, hp, he⟩ := hpresent
      refine ⟨{ p with message := rowJson r, fetched := true, nextAttempt := now, retries := 0 }, ?_, he⟩
      simp only [Table.mem_update]
      exact .inr ⟨p, hp, he, rfl⟩

/-- Shells change no row that is stored. -/
theorem stored_insertMessages {chunk : List Message} (hshells : ∀ m ∈ chunk, m.itemContent = none)
    {t : Table MessageRow MessageRow.itemHash} {r : MessageRow} (hr : r ∈ t) :
    r ∈ chunk.foldl ChainSync.insertMessage t := by
  induction chunk generalizing t with
  | nil => exact hr
  | cons m chunk ih =>
    refine ih (fun m' hm' => hshells m' (List.mem_cons_of_mem _ hm')) (Table.mem_upsert.2 ?_)
    by_cases he : r.itemHash = m.itemHash
    · refine .inr (.inl ⟨r, hr, he, ?_⟩)
      rw [hshells m List.mem_cons_self, Option.or_none]
    · exact .inl ⟨hr, he⟩

/-- They have no content. -/
theorem fetched_insertMessages {chunk : List Message} (hshells : ∀ m ∈ chunk, m.itemContent = none)
    {t : Table MessageRow MessageRow.itemHash} {r : MessageRow} (hr : r ∈ chunk.foldl ChainSync.insertMessage t)
    (hfetched : Fetched r) : r ∈ t := by
  induction chunk generalizing t with
  | nil => exact hr
  | cons m chunk ih =>
    have hshell := hshells m List.mem_cons_self
    rcases Table.mem_upsert.1 (ih (fun m' hm' => hshells m' (List.mem_cons_of_mem _ hm')) hr) with
      ⟨hold, -⟩ | ⟨q, hq, -, rfl⟩ | ⟨rfl, -⟩
    · exact hold
    · rwa [hshell, Option.or_none]
    · obtain ⟨-, content, hcontent, -⟩ := hfetched
      rw [ChainSync.syncedRow, hshell] at hcontent
      cases hcontent

/-- A pending row is inserted or nothing is stored but shells. -/
theorem arrives_keeps (ha : Arrives n n') : Heeds h n n' ∧ (Safe n h → Safe n' h) := by
  have hinsertion : Insertion n n' := ha.imp_right fun ⟨chunk, _, hsynced⟩ => ⟨chunk, hsynced⟩
  obtain ⟨hkeeps, hpending⟩ := keeps_insertion (h := h) hinsertion
  have hcarried : ∀ r, Carried n r → Carried n' r := fun r => carried_mono fun p hp _ => hpending p hp
  rcases ha with hqueued | ⟨chunk, hshells, hsynced⟩
  · have hbooks : n'.messages = n.messages ∧ n'.rejectedMessages = n.rejectedMessages := by
      cases hqueued with
      | received now json message hdecode hexec =>
        obtain rfl := exec_execute_ok.1 hexec
        exact ⟨rfl, rfl⟩
      | synced sync messages hexec =>
        unfold ChainSync.queueMessagesForProcessing at hexec
        split_ifs at hexec
        · obtain ⟨-, rfl⟩ := exec_pure_ok.1 hexec
          exact ⟨rfl, rfl⟩
        · obtain rfl := exec_execute_ok.1 hexec
          exact ⟨rfl, rfl⟩
    have hhandled : Handled n h → Handled n' h := by
      rw [Handled, Handled, hbooks.1, rejected_congr hbooks.2]
      exact fun hd => hd
    refine ⟨heeds_of (fun hd => .inl (hhandled hd)) hkeeps.forgotten hkeeps.named, fun hs => ?_⟩
    refine hs.of_rows (fun r hr _ _ => ?_) hhandled fun r _ _ => hcarried r
    rwa [hbooks.1] at hr
  · have hhandled : Handled n h → Handled n' h := by
      rw [hsynced.eq]
      refine Or.imp_left ?_
      rintro ⟨r, hr, he, htime⟩
      exact ⟨r, stored_insertMessages hshells hr, he, htime⟩
    refine ⟨heeds_of (fun hd => .inl (hhandled hd)) hkeeps.forgotten hkeeps.named, fun hs => ?_⟩
    refine hs.of_rows (fun r hr _ hfetched => ?_) hhandled fun r _ _ => hcarried r
    rw [hsynced.eq] at hr
    exact fetched_insertMessages hshells hr hfetched

/-- What the statements of the other jobs do. -/
inductive Disturbs (n : Node) : Node → Prop
  | arrives {n' : Node} (h : Arrives n n') : Disturbs n n'
  | stores (x : ItemHash) (content : String) : Disturbs n (setContent x content n)
  | requeues (now : Timestamp) (x : ItemHash) : Disturbs n (requeue now x n)
  | rebuilds (now : Timestamp) (x : ItemHash) : Disturbs n (rebuilt now x n)

theorem Disturbs.heeds (hd : Disturbs n n') : Heeds h n n' := by
  cases hd with
  | arrives ha => exact (arrives_keeps ha).1
  | stores x content => exact heeds_setContent content
  | requeues now x =>
    rcases requeue_cases now x n with ⟨-, hsame⟩ | ⟨r, ho⟩
    · rw [hsame]
      exact .refl n
    · exact ho.heeds
  | rebuilds now x =>
    rcases rebuilt_cases now x n with ⟨-, hsame⟩ | ⟨r, ho⟩
    · rw [hsame]
      exact .refl n
    · exact ho.heeds

/-! ### The processor -/

/-- Its statements strand no message, beside anything the other jobs do. -/
def contentContract (h : ItemHash) (given : Node → Prop) : Contract Node where
  given := given
  rely := Heeds h
  guar n n' := Heeds h n n' ∧ (Safe n h → Safe n' h)
  rely_refl := .refl
  rely_trans := .trans
  guar_refl n := ⟨.refl n, fun hs => hs⟩

/-- The pending row of the message may be deleted. -/
def Droppable (h : ItemHash) (n : Node) : Prop := ∀ r ∈ n.messages, r.itemHash = h → Fetched r → Handled n h

section Processor

variable {given : Node → Prop}

theorem handled_sameBooks (hsame : SameBooks n n') : Handled n h → Handled n' h := by
  rw [Handled, Handled, hsame.messages, rejected_congr hsame.rejectedMessages]
  exact fun hd => hd

theorem keeps_sameBooks (hsame : SameBooks n n') : (contentContract h given).guar n n' := by
  refine ⟨heeds_of (fun hd => .inl (handled_sameBooks hsame hd)) (fun x hx => ?_) ?_, fun hs => ?_⟩
  · exact (forgotten_congr hsame.forgottenMessages).2 hx
  · rw [hsame.pendingMessages]
    exact fun hp => hp
  · refine hs.of_rows (fun r hr _ _ => ?_) (handled_sameBooks hsame) fun r _ _ => carried_mono fun p hp _ => ?_
    · rwa [hsame.messages] at hr
    · rwa [hsame.pendingMessages]

/-- A forgotten message is deleted. -/
theorem keeps_dropped (hx : Forgotten n x) :
    (contentContract h given).guar n { n with messages := n.messages.delete (·.itemHash = x) } := by
  have hhandled : x ≠ h → Handled n h → Handled { n with messages := n.messages.delete (·.itemHash = x) } h := by
    intro hne
    refine Or.imp_left ?_
    rintro ⟨r, hr, rfl, htime⟩
    exact ⟨r, Table.mem_delete.2 ⟨hr, fun he => hne he.symm⟩, rfl, htime⟩
  refine ⟨heeds_of (fun hd => ?_) (fun _ hf => hf) fun hp => hp, fun hs r hr he hfetched => ?_⟩
  · by_cases hxh : x = h
    · exact .inr (hxh ▸ hx)
    · exact .inl (hhandled hxh hd)
  · obtain ⟨hold, hne⟩ := Table.mem_delete.1 hr
    rcases hs r hold he hfetched with hd | hrest
    · exact .inl (hhandled (fun hxh => hne (he.trans hxh.symm)) hd)
    · exact .inr hrest

/-- **A processed message is stored.** -/
theorem keeps_stored (env : Env) (message : Message) (receptionTime : Timestamp) :
    (contentContract h given).guar n (stored env message receptionTime n) ∧
      (message.itemHash = h → Decided (stored env message receptionTime n) h) := by
  have hown : message.itemHash = h → Handled (stored env message receptionTime n) h := by
    rintro rfl
    by_cases hrow : ∃ r ∈ n.messages, r.itemHash = message.itemHash
    · obtain ⟨r, hr, he⟩ := hrow
      refine .inl ⟨_, Table.mem_upsert.2 (.inr (.inl ⟨r, hr, he, rfl⟩)), he, ?_⟩
      show (r.receptionTime.or (some receptionTime)).isSome
      rw [Option.isSome_or, Option.isSome_some, Bool.or_true]
    · refine .inl ⟨_, Table.mem_upsert.2 (.inr (.inr ⟨rfl, fun r hr he => hrow ⟨r, hr, he⟩⟩)), rfl, rfl⟩
  have hhandled : Handled n h → Handled (stored env message receptionTime n) h := by
    by_cases hmessage : message.itemHash = h
    · exact fun _ => hown hmessage
    · refine Or.imp_left ?_
      rintro ⟨r, hr, he, htime⟩
      exact ⟨r, Table.mem_upsert.2 (.inl ⟨hr, fun hk => hmessage (hk.symm.trans he)⟩), he, htime⟩
  refine ⟨⟨heeds_of (fun hd => .inl (hhandled hd)) (fun _ hx => hx) fun hp => hp, fun hs r hr he hfetched => ?_⟩,
    fun he => .inl (hown he)⟩
  by_cases hmessage : message.itemHash = h
  · exact .inl (hown hmessage)
  · rcases Table.mem_upsert.1 hr with ⟨hold, -⟩ | ⟨q, -, hq, rfl⟩ | ⟨rfl, -⟩
    · exact (hs r hold he hfetched).imp_left hhandled
    · exact absurd (hq.symm.trans he) hmessage
    · exact absurd he hmessage

/-- A pending row stays, with its message and few enough retries. -/
theorem keeps_postponed {f : PendingMessageDb → PendingMessageDb} (hf : ∀ p, (f p).itemHash = p.itemHash)
    (hmessage : ∀ p, (f p).message = p.message)
    (hretries : ∀ p, p.retries < maxRetries → (f p).retries < maxRetries) :
    (contentContract h given).guar n
      { n with pendingMessages := n.pendingMessages.update (·.itemHash = x) f hf } := by
  refine ⟨heeds_of .inl (fun _ hx => hx) (named_update n hf hmessage), fun hs => ?_⟩
  refine hs.of_rows (fun r hr _ _ => hr) (fun hd => hd) fun r _ _ hc => ?_
  obtain ⟨p, hp, he, hfew, hsender, hcontent⟩ := hc
  by_cases hpx : p.itemHash = x
  · refine ⟨f p, ?_, (hf p).trans he, hretries p hfew, ?_, ?_⟩
    · simp only [Table.mem_update]
      exact .inr ⟨p, hp, hpx, rfl⟩
    · rwa [isBlacklisted, hmessage]
    · rwa [hmessage]
  · refine ⟨p, ?_, he, hfew, hsender, hcontent⟩
    simp only [Table.mem_update]
    exact .inl ⟨hp, hpx⟩

theorem keepsBooks_content : KeepsBooks (contentContract h given) where
  same := keeps_sameBooks
  marks n r := by
    refine ⟨heeds_of .inl (fun x hx => forgotten_insertNew.2 (.inl hx)) fun hp => hp, fun hs => ?_⟩
    exact hs.of_rows (fun r hr _ _ => hr) (fun hd => hd) fun _ _ _ hc => hc
  drops := keeps_dropped
  others x _ _ hst hx := hst.forgotten x hx
  own hguar hx := hguar.1.forgotten _ hx

theorem tracksTask_content : TracksTask (contentContract h given) h fun n => Decided n h where
  books := keepsBooks_content
  stable _ _ hst hd := hst.decided hd
  stores _ env message receptionTime := keeps_stored env message receptionTime
  postpones _ _ _ hf hmessage hretries := keeps_postponed hf hmessage fun p hp => (hretries p).symm ▸ hp

/-- **Settling** drops no pending row of a message that has a content and is not handled. -/
theorem tracksSettling_content {b : Batch} :
    TracksSettling (contentContract h (DropsHandled b)) h (fun n => Decided n h) (Droppable h) where
  stable _ _ hst hd := hst.decided hd
  own hguar hd := hguar.1.decided hd
  postpones _ _ _ hf hmessage hretries := keeps_postponed hf hmessage fun p _ => hretries p
  rejects n row f hf := by
    have hhandled : Handled n h → Handled { n with rejectedMessages := n.rejectedMessages.upsert row f hf } h :=
      Or.imp_right fun hr => rejected_upsert.2 (.inl hr)
    refine ⟨⟨heeds_of (fun hd => .inl (hhandled hd)) (fun _ hx => hx) fun hp => hp, fun hs => ?_⟩, fun he => ?_⟩
    · exact hs.of_rows (fun r hr _ _ => hr) hhandled fun _ _ _ hc => hc
    · exact .inl (.inr (rejected_upsert.2 (.inr he)))
  deletes n d hdecidable hd := by
    refine ⟨heeds_of .inl (fun _ hx => hx) (named_delete n), fun hs r hr he hfetched => ?_⟩
    rcases hs r hr he hfetched with hhandled | ⟨p, hp, hpe, hcarried⟩ | hunfetched
    · exact .inl hhandled
    · by_cases hdp : d p
      · exact .inl (hd p hdp (hpe.trans he) r hr he hfetched)
      · exact .inr (.inl ⟨p, Table.mem_delete.2 ⟨hp, hdp⟩, hpe, hcarried⟩)
    · exact .inr (.inr hunfetched)
  may_of_done n hgiven hdone r hr he hfetched := by
    rcases hdone with hhandled | hforgotten
    · exact hhandled
    · rw [← he] at hforgotten ⊢
      exact hgiven r hr hfetched (.inr hforgotten)

/-- Of a due message nothing is found out but its name. -/
def namedFindings (h : ItemHash) (ctx : ProcessorContext) :
    Findings ctx (contentContract h fun n => ∀ p ∈ n.pendingMessages, p.Named) where
  seen p _ := p.Named
  derived _ _ _ := True
  forgotten _ _ _ := True
  stable_seen _ _ _ hs := hs
  stable_derived _ _ _ _ := trivial
  stable_forgotten _ _ _ _ := trivial
  sees hgiven hp := hgiven _ (mem_duePending hp).1
  findsDerived _ _ := trivial
  findsForgotten _ _ := trivial
  records {n n'} hst := by
    have hkeeps : (contentContract h fun n => ∀ p ∈ n.pendingMessages, p.Named).guar n n' :=
      keeps_sameBooks (OnlyChainTxs.sameBooks hst)
    exact ⟨hkeeps, hkeeps.1⟩

end Processor

/-- While results are settled the batch drops only what is handled. -/
def dropGuard : Duty → Node → Prop
  | .taking _, _ => True
  | .working _ _, _ => True
  | .settling _ b _, n => DropsHandled b n

/-- What the stages of a batch keep of one message. -/
def keepsContent (h : ItemHash) : Supervision Disturbs dropGuard where
  inv n := ∀ p ∈ n.pendingMessages, p.Named
  contract
    | .taking _ => contentContract h fun n => ∀ p ∈ n.pendingMessages, p.Named
    | .working _ _ => contentContract h fun _ => True
    | .settling _ b _ => contentContract h (DropsHandled b)
  taken b _ := ∀ p ∈ b.messages, p.Named
  ended := EndsDone h fun n => Decided n h
  given {d n} hinv hguard := by
    cases d with
    | taking ctx => exact hinv
    | working ctx b => trivial
    | settling ctx b results => exact hguard
  kept {d n n'} hinv hguar := by
    have hheeds : Heeds h n n' := by cases d <;> exact hguar.1
    exact hheeds.named hinv
  undisturbed {n n'} hinv hother := by
    refine ⟨(hother.heeds (h := h)).named hinv, fun d => ?_⟩
    cases d <;> exact hother.heeds
  shared hguar := hguar.1
  stable _ _ _ ht := ht
  take _ := by
    refine (namedFindings h _).assures_takeBatch.mono fun r t hr b hb => ?_
    obtain ⟨ps, dup, forgotten, rfl, -, -, hall⟩ := hr b hb
    exact fun p hp => (hall p (mem_messages_classify hp).1).1
  work ht p hp := tracksTask_content.assures_processSingleMessage (ht p hp)
  timeout := endsDone_ne nofun
  settle _ hr := tracksSettling_content.assures_settle (J := fun _ => True) (fun _ _ _ _ => trivial)
    (fun _ _ _ _ => trivial) (fun t hgiven _ hmem r hrow he hfetched => by
      rw [← he] at hmem ⊢
      exact hgiven r hrow hfetched (.inl hmem)) trivial fun r hmem => (hr r hmem).2

/-- **A statement of the processor** strands no message. -/
theorem safe_processor {w w' : World} (hholds : (keepsContent h).Holds w)
    (hstep : Watched (fun _ _ => False) dropGuard w w') (hs : Safe w.node h) : Safe w'.node h := by
  rcases hholds.promise hstep with hsame | ⟨u, hguar⟩
  · rwa [hsame]
  · cases u <;> exact hguar.2 hs

/-! ## What a job does -/

/-- The statements of a job come in this order: a row is queued when, and only when, its content has just been stored.
The index is the message the job is about to queue. -/
inductive Orderly {α : Type} : Option ItemHash → Prog Node DbError α → Prop
  | done (a : α) : Orderly none (.pure a)
  | reads {ρ : Type} (f : Node → ρ) {k : Except DbError ρ → Prog Node DbError α} (hk : ∀ r, Orderly none (k r)) :
      Orderly none (.stmt (fun n => (.ok (f n), n)) k)
  | marks (x : ItemHash) {k : Except DbError Unit → Prog Node DbError α} (hk : ∀ r, Orderly none (k r)) :
      Orderly none (.stmt (fun n => (.ok (), setContent x "" n)) k)
  | stores (x : ItemHash) (content : String) {k : Except DbError Unit → Prog Node DbError α}
      (hstored : Orderly (some x) (k (.ok ()))) (hrefused : ∀ e, Orderly none (k (.error e))) :
      Orderly none (.stmt (fun n => (.ok (), setContent x content n)) k)
  | requeues (ctx : ContentFetchContext) (x : ItemHash) {k : Except DbError Unit → Prog Node DbError α}
      {p : Prog Node DbError α} (hp : p = (queueForProcessing ctx x).run >>= k) (hk : ∀ r, Orderly none (k r)) :
      Orderly (some x) p
  | rebuilds (now : Timestamp) (x : ItemHash) {k : Except DbError Unit → Prog Node DbError α}
      {p : Prog Node DbError α} (hp : p = (rebuildPending now x).run >>= k) (hk : ∀ r, Orderly none (k r)) :
      Orderly (some x) p

section Orderly

variable {α β ε : Type} {o : Option ItemHash}

theorem Orderly.bind {p : Prog Node DbError α} {q : α → Prog Node DbError β} (hp : Orderly o p)
    (hq : ∀ a, Orderly none (q a)) : Orderly o (p >>= q) := by
  induction hp with
  | done a => exact hq a
  | reads f _ ih => exact .reads f ih
  | marks x _ ih => exact .marks x ih
  | stores x content _ _ hstored hrefused => exact .stores x content hstored hrefused
  | @requeues ctx x k p hp _ ih => exact .requeues ctx x (k := fun r => k r >>= q) (by rw [hp]; rfl) ih
  | @rebuilds now x k p hp _ ih => exact .rebuilds now x (k := fun r => k r >>= q) (by rw [hp]; rfl) ih

theorem orderly_bind {p : ProgE Node DbError ε α} {q : α → ProgE Node DbError ε β} (hp : Orderly o p.run)
    (hq : ∀ a, Orderly none (q a).run) : Orderly o (p >>= q).run := by
  rw [ExceptT.run_bind]
  refine hp.bind fun r => ?_
  cases r with
  | ok a => exact hq a
  | error e => exact .done _

/-- Storing and queueing, by the content-fetch loop. -/
theorem orderly_saveContent (ctx : ContentFetchContext) (failures : FailureCounts) (content : String) :
    Orderly none (ContentFetch.saveContent ctx failures x content).run := by
  have hqueue : Orderly (some x) (do ProgE.ignore (queueForProcessing ctx x); pure (failures.remove x) :
      Db DbError FailureCounts).run := .requeues ctx x (k := fun _ => .pure (.ok (failures.remove x))) rfl fun _ => .done _
  exact .stores x content hqueue fun _ => .done _

/-- Storing and queueing, by the job that asks the gateway. -/
theorem orderly_resolveOne (now : Timestamp) (content : String) :
    Orderly none (ChainSync.resolveOne now x content).run := by
  have hqueue : Orderly (some x) (ProgE.ignore (rebuildPending now x) : Db DbError Unit).run :=
    .rebuilds now x (k := fun _ => .pure (.ok ())) rfl fun _ => .done _
  exact .stores x content hqueue fun _ => .done _

theorem orderly_handleResult (ctx : ContentFetchContext) (failures : FailureCounts) (result : Except String String) :
    Orderly none (ContentFetch.handleResult ctx failures x result).run := by
  cases result with
  | ok content => exact orderly_saveContent ctx failures content
  | error e =>
    show Orderly none (ContentFetch.countFailure failures x).run
    unfold ContentFetch.countFailure
    simp only
    split_ifs
    · exact .marks x fun _ => .done _
    · exact .done _

theorem orderly_handleResults (ctx : ContentFetchContext) (servers : List String) (failures : FailureCounts)
    (items : List (ItemHash × ItemType)) :
    Orderly none (ContentFetch.handleResults ctx servers failures items).run := by
  induction items generalizing failures with
  | nil => exact .done _
  | cons item items ih => exact orderly_bind (orderly_handleResult ctx failures _) fun failures => ih failures

/-- **Every job** queues what it stores, at once. -/
theorem Starts.orderly {job : Job} (hjob : Starts job) : Orderly none job := by
  cases hjob with
  | fetches ctx servers failures =>
    refine orderly_bind ?_ fun _ => .done _
    refine orderly_bind (.reads _ fun r => .done _) fun unfetched => ?_
    split
    · exact .done _
    · exact orderly_bind (orderly_handleResults ctx servers failures unfetched) fun _ => .done _
  | resolves now contents =>
    induction contents with
    | nil => exact .done _
    | cons entry contents ih =>
      obtain ⟨x, content⟩ := entry
      cases content with
      | none => exact ih
      | some content => exact orderly_bind (orderly_resolveOne now content) fun _ => ih

theorem Orderly.queues {job : Job} (hjob : Orderly (some x) job) : Queues x job := by
  cases hjob with
  | requeues ctx _ hp _ => exact .inl ⟨ctx, _, hp⟩
  | rebuilds now _ hp _ => exact .inr ⟨now, _, hp⟩

/-- Whatever a refused statement leaves of the job, nothing was stored. -/
theorem Orderly.refused {ρ : Type} {f : Node → Except DbError ρ × Node} {k : Except DbError ρ → Prog Node DbError α}
    (hjob : Orderly o (.stmt f k)) (e : DbError) : Orderly none (k (.error e)) := by
  cases hjob with
  | reads f hk => exact hk _
  | marks x hk => exact hk _
  | stores x content _ hrefused => exact hrefused e
  | requeues ctx x hp hk =>
    cases hp
    exact hk _
  | rebuilds now x hp hk =>
    cases hp
    exact hk _

end Orderly

section Granted

variable {ρ : Type} {f : Node → Except DbError ρ × Node} {k : Except DbError ρ → Job}

/-- **The message is queued.** -/
theorem Queues.safe (hjob : Queues h (.stmt f k)) (hsafe : QueuesSafely h (.stmt f k) n) : Safe (f n).2 h := by
  rcases hjob with ⟨ctx, q, hp⟩ | ⟨now, q, hp⟩
  · cases hp
    show Safe (requeue ctx.now h n) h
    rcases requeue_cases ctx.now h n with ⟨hnone, hsame⟩ | ⟨r, ho⟩
    · rw [hsame]
      exact fun r hr he => absurd he (hnone r hr)
    · exact ho.safe_own fun r hr he hfetched => (hsafe r hr he hfetched).imp_right fun hqueued => ⟨hqueued.1, trivial⟩
  · have hrebuilds : Rebuilds h (.stmt f k) := ⟨now, q, hp⟩
    cases hp
    show Safe (rebuilt now h n) h
    rcases rebuilt_cases now h n with ⟨hnone, hsame⟩ | ⟨r, ho⟩
    · rw [hsame]
      exact fun r hr he => absurd he (hnone r hr)
    · exact ho.safe_own fun r hr he hfetched =>
        (hsafe r hr he hfetched).imp_right fun hqueued => ⟨hqueued.1, hqueued.2 hrebuilds⟩

/-- **A statement of a job** strands no other message, and the job is about to queue what it has stored. -/
theorem Orderly.granted {o : Option ItemHash} (hjob : Orderly o (.stmt f k))
    (hsafe : ∀ h, Queues h (.stmt f k) → QueuesSafely h (.stmt f k) n) :
    ((f n).2 = n ∨ Disturbs n (f n).2) ∧
      ∃ o', Orderly o' (k (f n).1) ∧ ∀ h, Safe n h → Safe (f n).2 h ∨ o' = some h := by
  have hqueues : ∀ x, o = some x → Queues x (.stmt f k) := fun x hx => (hx ▸ hjob).queues
  cases hjob with
  | reads f hk => exact ⟨.inl rfl, none, hk _, fun h hs => .inl hs⟩
  | marks x hk => exact ⟨.inr (.stores x ""), none, hk _, fun h hs => .inl (hs.setContent fun _ => rfl)⟩
  | stores x content hstored hrefused =>
    refine ⟨.inr (.stores x content), some x, hstored, fun h hs => ?_⟩
    by_cases hx : x = h
    · exact .inr (congrArg some hx)
    · exact .inl (hs.setContent fun he => absurd he hx)
  | requeues ctx x hp hk =>
    have hown := (hqueues x rfl).safe (hsafe x (hqueues x rfl))
    cases hp
    refine ⟨.inr (.requeues ctx.now x), none, hk _, fun h hs => .inl ?_⟩
    by_cases hx : x = h
    · exact hx ▸ hown
    · show Safe (requeue ctx.now x n) h
      rcases requeue_cases ctx.now x n with ⟨-, hsame⟩ | ⟨r, ho⟩
      · rwa [hsame]
      · exact ho.safe_other hx hs
  | rebuilds now x hp hk =>
    have hown := (hqueues x rfl).safe (hsafe x (hqueues x rfl))
    cases hp
    refine ⟨.inr (.rebuilds now x), none, hk _, fun h hs => .inl ?_⟩
    by_cases hx : x = h
    · exact hx ▸ hown
    · show Safe (rebuilt now x n) h
      rcases rebuilt_cases now x n with ⟨-, hsame⟩ | ⟨r, ho⟩
      · rwa [hsame]
      · exact ho.safe_other hx hs

end Granted

/-! ## Runs -/

/-- What holds in every state of a run. -/
structure Invariant (h : ItemHash) (s : System) : Prop where
  holds : (keepsContent h).Holds ⟨s.node, s.phase⟩
  orderly : ∀ job ∈ s.jobs, ∃ o, Orderly o job
  settled : Settled h s

/-- The other jobs, and what is left of one that has issued a statement. -/
theorem orderly_next {js ks : List Job} {job job' : Job} (hjobs : ∀ j ∈ js ++ job :: ks, ∃ o, Orderly o j)
    (hjob : ∃ o, Orderly o job') : ∀ j ∈ js ++ job' :: ks, ∃ o, Orderly o j := by
  intro j hj
  rcases List.mem_append.1 hj with hj | hj
  · exact hjobs j (List.mem_append_left _ hj)
  · rcases List.mem_cons.1 hj with rfl | hj
    · exact hjob
    · exact hjobs j (List.mem_append_right _ (List.mem_cons_of_mem _ hj))

/-- **A step that meets the condition** keeps the invariant. -/
theorem Invariant.step {s s' : System} (hs : Invariant h s) (hstep : Careful s s') : Invariant h s' := by
  obtain ⟨hholds, horderly, hsettled⟩ := hs
  obtain ⟨e, hstep, hguard⟩ := hstep
  cases hstep with
  | @processor n n' phase phase' jobs hprocessor =>
    have hwatched : Watched (fun _ _ => False) dropGuard ⟨n, phase⟩ ⟨n', phase'⟩ := by
      refine ⟨hprocessor, fun d hd => ?_⟩
      cases phase with
      | idle => cases hd
      | taking ctx p => cases hd; trivial
      | working ctx b tasks => cases hd; trivial
      | settling ctx b results p =>
        cases hd
        exact hguard ctx b results p rfl
    refine ⟨hholds.step ⟨hprocessor.mono fun _ _ hf => hf.elim, hwatched.2⟩, horderly, ?_⟩
    exact hsettled.imp_left (safe_processor hholds hwatched)
  | arrival ha =>
    exact ⟨hholds.beside (.arrives ha), horderly, hsettled.imp_left (arrives_keeps ha).2⟩
  | start hjob =>
    refine ⟨hholds, fun j hj => ?_, hsettled.imp_right fun ⟨j, hj, hq⟩ => ⟨j, List.mem_cons_of_mem _ hj, hq⟩⟩
    rcases List.mem_cons.1 hj with rfl | hj
    · exact ⟨none, hjob.orderly⟩
    · exact horderly j hj
  | @granted ρ n phase js ks f k =>
    obtain ⟨o, hjob⟩ := horderly _ (List.mem_append_right js List.mem_cons_self)
    obtain ⟨hnode, o', hnext, hkept⟩ := hjob.granted hguard
    refine ⟨?_, orderly_next horderly ⟨o', hnext⟩, ?_⟩
    · rcases hnode with hsame | hdisturbs
      · show (keepsContent h).Holds ⟨(f n).2, phase⟩
        rwa [hsame]
      · exact hholds.beside hdisturbs
    · rcases hsettled with hsafe | ⟨j, hj, hqueues⟩
      · rcases hkept h hsafe with hsafe | rfl
        · exact .inl hsafe
        · exact .inr ⟨_, List.mem_append_right js List.mem_cons_self, hnext.queues⟩
      · -- the job that was about to queue the message has done so, or another one still is
        rcases List.mem_append.1 hj with hj | hj
        · exact .inr ⟨j, List.mem_append_left _ hj, hqueues⟩
        · rcases List.mem_cons.1 hj with rfl | hj
          · exact .inl (hqueues.safe (hguard h hqueues))
          · exact .inr ⟨j, List.mem_append_right _ (List.mem_cons_of_mem _ hj), hqueues⟩
  | @refused ρ n phase js ks f k e =>
    obtain ⟨o, hjob⟩ := horderly _ (List.mem_append_right js List.mem_cons_self)
    refine ⟨hholds, orderly_next horderly ⟨none, hjob.refused e⟩, ?_⟩
    have hothers : Settled h ⟨n, phase, js ++ ks⟩ := by
      rcases hsettled with hsafe | ⟨j, hj, hqueues⟩
      · exact .inl hsafe
      · rcases List.mem_append.1 hj with hj | hj
        · exact .inr ⟨j, List.mem_append_left _ hj, hqueues⟩
        · rcases List.mem_cons.1 hj with rfl | hj
          · exact hguard h hqueues
          · exact .inr ⟨j, List.mem_append_right _ hj, hqueues⟩
    refine hothers.imp_right fun ⟨j, hj, hqueues⟩ => ⟨j, ?_, hqueues⟩
    rcases List.mem_append.1 hj with hj | hj
    · exact List.mem_append_left _ hj
    · exact List.mem_append_right _ (List.mem_cons_of_mem _ hj)
  | stop =>
    refine ⟨⟨hholds.1, trivial⟩, fun j hj => absurd hj List.not_mem_nil, .inl ?_⟩
    rcases hsettled with hsafe | ⟨j, hj, hqueues⟩
    · exact hsafe
    · exact hguard j hj h hqueues

/-- **No fetched message is stranded** in a run whose steps meet the condition: whatever is refused and wherever the
node stops, every message that has received a content is handled or carried, or a job is about to queue it. -/
theorem settled_of_run {n₀ : Node} {s : System} (hnamed : ∀ p ∈ n₀.pendingMessages, p.Named)
    (hsafe : ∀ h, Safe n₀ h) (hrun : Relation.ReflTransGen Careful ⟨n₀, .idle, []⟩ s) (h : ItemHash) : Settled h s := by
  have hinvariant : Invariant h s := by
    induction hrun with
    | refl => exact ⟨Supervision.holds_idle hnamed, fun j hj => absurd hj List.not_mem_nil, .inl (hsafe h)⟩
    | tail _ hstep ih => exact ih.step hstep
  exact hinvariant.settled

/-! ### A note that is never processed -/

section Refused

/-- The states of a job whose statements are all executed. -/
def visited : Job → Node → List Node
  | .pure _, n => [n]
  | .stmt f k, n => n :: visited (k (f n).1) (f n).2

theorem run_granted {phase : Phase} {job : Job} (hguard : ∀ t ∈ visited job n, ∀ h j, QueuesSafely h j t) :
    Relation.ReflTransGen Careful ⟨n, phase, [job]⟩ ⟨(job.run n).2, phase, [.pure (job.run n).1]⟩ := by
  induction job generalizing n with
  | pure a => exact .refl
  | @stmt ρ f k ih =>
    refine .head ⟨_, @Step.granted ρ _ _ [] [] f k, fun h _ => hguard n List.mem_cons_self h _⟩ ?_
    exact ih _ fun t ht => hguard t (List.mem_cons_of_mem _ ht)

theorem run_exec {phase : Phase} {job : Job} {r : Except DbError Unit} (hexec : Exec job n r n') :
    Relation.ReflTransGen (fun s s' => ∃ e, Step e s s') ⟨n, phase, [job]⟩ ⟨n', phase, [.pure r]⟩ := by
  induction hexec with
  | pure a n => exact .refl
  | @step ρ f k n n' r _ ih => exact .head ⟨_, @Step.granted ρ _ _ [] [] f k⟩ ih
  | @refused ρ f k n n' r e _ ih => exact .head ⟨_, @Step.refused ρ _ _ [] [] f k e⟩ ih

/-- A job that has ended queues nothing. -/
theorem not_settled_ended {phase : Phase} {r : Except DbError Unit} (hs : ¬ Safe n h) :
    ¬ Settled h ⟨n, phase, [.pure r]⟩ := by
  rintro (hsafe | ⟨j, hj, hqueues⟩)
  · exact hs hsafe
  · rw [List.mem_singleton.1 hj] at hqueues
    rcases hqueues with ⟨ctx, q, hp⟩ | ⟨now, q, hp⟩ <;> cases hp

/-- IPFS has the note, and no peer answers. -/
def noteCtx : ContentFetchContext := { ContentFetch.forgedCtx with http := fun _ _ _ => .error "connection refused" }

/-- A tick of the content-fetch loop. -/
def noteJob : Job := (tick noteCtx ["http://10.0.0.7:4024"] [] >>= fun _ => pure ()).run

/-- The note as it comes from a chain. -/
def noteShell : Message := ContentFetch.rowMessage ContentFetch.noteRow

/-- Its content is stored, and the statement that queues it is refused. -/
def strandedNode : Node := (noteJob.runWith [none, none, some "connection closed"] ContentFetch.noteNode).2

/-- Nothing is refused, and the shell had been queued. -/
def shellNode : Node := { ContentFetch.noteNode with
  pendingMessages := Table.empty.insertNew (ChainSync.queued ⟨.stored, 1700000010, fun _ => none⟩ noteShell) }

example : strandedNode.pendingMessages.rows = [] := by decide +kernel

theorem synced_note : Arrives .empty ContentFetch.noteNode := by
  refine .inr ⟨[noteShell], fun m hm => ?_, [noteShell], exec_sql_ok.2 rfl⟩
  rw [List.mem_singleton.1 hm]
  rfl

theorem queued_note : Arrives ContentFetch.noteNode shellNode :=
  .inl (.synced ⟨.stored, 1700000010, fun _ => none⟩ [noteShell] (exec_execute_ok.2 rfl))

/-- A note that is fetched and queued. -/
theorem shellNode_settled :
    Settled ContentFetch.noteRow.itemHash ⟨(noteJob.run shellNode).2, .idle, [.pure (noteJob.run shellNode).1]⟩ := by
  have hguard : ∀ t ∈ visited noteJob shellNode, ∀ r ∈ t.messages.rows, r.sender ∉ blacklistedAddresses ∧
      ∃ p ∈ t.pendingMessages.rows, p.itemHash = r.itemHash := by decide +kernel
  have hnamed : ∀ p ∈ Node.empty.pendingMessages, p.Named := fun p hp => absurd hp List.not_mem_nil
  have hsafe : ∀ h, Safe .empty h := fun h r hr => absurd hr List.not_mem_nil
  have hrun : Relation.ReflTransGen Careful ⟨.empty, .idle, []⟩ ⟨shellNode, .idle, [noteJob]⟩ :=
    .head ⟨_, .arrival synced_note, trivial⟩ (.head ⟨_, .arrival queued_note, trivial⟩
      (.single ⟨_, .start (.fetches _ _ _), trivial⟩))
  refine settled_of_run hnamed hsafe (hrun.trans (run_granted fun t ht h j r hr he _ => .inr ?_)) _
  obtain ⟨hsender, hpending⟩ := hguard t ht r hr
  exact ⟨hsender, fun _ => he ▸ hpending⟩

/-- The queueing is refused: the note has its content, and is neither processed, rejected nor pending. -/
theorem strandedNode_stranded :
    Relation.ReflTransGen (fun s s' => ∃ e, Step e s s') ⟨.empty, .idle, []⟩
        ⟨strandedNode, .idle, [.pure (noteJob.runWith [none, none, some "connection closed"] ContentFetch.noteNode).1]⟩ ∧
      (∃ r ∈ strandedNode.messages, r.itemHash = ContentFetch.noteRow.itemHash ∧ Fetched r) ∧
      ¬ Settled ContentFetch.noteRow.itemHash ⟨strandedNode, .idle,
        [.pure (noteJob.runWith [none, none, some "connection closed"] ContentFetch.noteNode).1]⟩ := by
  have hrow : ∃ r ∈ strandedNode.messages.rows, r.itemHash = ContentFetch.noteRow.itemHash ∧
      r.itemType = .ipfs ∧ r.itemContent = some (ContentFetch.noteText "hello") ∧ r.receptionTime = none := by
    decide +kernel
  have hpending : strandedNode.pendingMessages.rows = [] := by decide +kernel
  have hrejected : strandedNode.rejectedMessages.rows = [] := by decide +kernel
  have hsingle : strandedNode.messages.rows.length = 1 := by decide +kernel
  obtain ⟨r, hr, he, htype, hcontent, htime⟩ := hrow
  have hfetched : Fetched r := ⟨.inr htype, _, hcontent, by decide +kernel⟩
  have hstart : Starts noteJob := .fetches _ _ _
  refine ⟨.head ⟨_, .arrival synced_note⟩ (.head ⟨_, .start hstart⟩ (run_exec (exec_runWith noteJob _ _))),
    ⟨r, hr, he, hfetched⟩, not_settled_ended fun hsafe => ?_⟩
  rcases hsafe r hr he hfetched with (⟨q, hq, -, hqtime⟩ | ⟨q, hq, -⟩) | ⟨p, hp, -⟩ | hunfetched
  · obtain ⟨only, honly⟩ := List.length_eq_one_iff.1 hsingle
    rw [Table.mem_def, honly, List.mem_singleton] at hq
    rw [honly, List.mem_singleton] at hr
    rw [hq, ← hr, htime] at hqtime
    cases hqtime
  · rw [Table.mem_def, hrejected] at hq
    cases hq
  · rw [Table.mem_def, hpending] at hp
    cases hp
  · rw [hunfetched.1] at hcontent
    cases hcontent

end Refused

end AlephCore.StrandedContent
