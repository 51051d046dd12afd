import AlephCore.Jobs.AccountCosts

/-!
# DerivedRows — the rows made from messages, beside the messages

A post, an aggregate element, a program or an instance should be stored exactly as long as its message is.  A
FORGET keeps it so for posts and elements; of the amendments of a virtual machine it deletes the rows and leaves
the messages.  The amendments themselves never form chains, and none outlives what it amends.
-/

namespace AlephCore.MessageProcessor

open Prog ForgetHandler PgDatabase

variable {env : Env} {message : Message} {n n' : Node} {hash : ItemHash}

/-! ## Amendments -/

section DepthOne

variable {ρ : Type} {key : ρ → ItemHash} {replaces : ρ → Option ItemHash} {t t' : Table ρ key} {r : ρ}

/-- Every row that replaces another has it in the table, and that one replaces none. -/
def DepthOne (replaces : ρ → Option ItemHash) (t : Table ρ key) : Prop :=
  ∀ r ∈ t, ∀ v, replaces r = some v → ∃ q ∈ t, key q = v ∧ replaces q = none

theorem DepthOne.insertNew (h : DepthOne replaces t)
    (hr : ∀ v, replaces r = some v → ∃ q ∈ t, key q = v ∧ replaces q = none) : DepthOne replaces (t.insertNew r) := by
  intro r' hr' v hv
  have horiginal : ∃ q ∈ t, key q = v ∧ replaces q = none := by
    rcases Table.mem_insertNew.1 hr' with hr' | ⟨rfl, -⟩
    · exact h r' hr' v hv
    · exact hr v hv
  obtain ⟨q, hq, hkey, hnone⟩ := horiginal
  exact ⟨q, Table.mem_insertNew.2 (.inl hq), hkey, hnone⟩

/-- Rows may go if an original goes with its amendments only. -/
theorem DepthOne.gone (h : DepthOne replaces t) {taken : ρ → Prop} (hmem : ∀ r, r ∈ t' ↔ r ∈ t ∧ ¬ taken r)
    (htaken : ∀ q, taken q → replaces q = none → ∀ r, replaces r = some (key q) → taken r) : DepthOne replaces t' := by
  intro r hr v hv
  obtain ⟨hr, hleft⟩ := (hmem r).1 hr
  obtain ⟨q, hq, rfl, hnone⟩ := h r hr v hv
  exact ⟨q, (hmem q).2 ⟨hq, fun hq => hleft (htaken q hq hnone r hv)⟩, rfl, hnone⟩

end DepthOne

/-- No program amends an amendment or what is not stored, and no instance does. -/
structure AmendmentsFlat (n : Node) : Prop where
  programs : DepthOne ProgramRow.replaces n.programs
  instances : DepthOne InstanceRow.replaces n.instances

/-- **One message**: the original is stored when its amendment is, and goes with it. -/
theorem Accepted.amendmentsFlat (h : Accepted env message n n') (hflat : AmendmentsFlat n) : AmendmentsFlat n' := by
  obtain ⟨ctx, rfl, receptionTime, n₁, heffect, rfl⟩ := h.effect
  suffices hn₁ : AmendmentsFlat n₁ from ⟨hn₁.programs, hn₁.instances⟩
  cases heffect with
  | aggregate content htype =>
    obtain ⟨as, has⟩ := processed_eq (AggregateHandler.elementOf message content) n
    rw [has, AggregateHandler.storeElement]
    split_ifs
    · exact ⟨hflat.programs, hflat.instances⟩
    · exact ⟨hflat.programs, hflat.instances⟩
  | post content htype hparse horiginal => exact ⟨hflat.programs, hflat.instances⟩
  | amend content originalHash target htype => exact ⟨hflat.programs, hflat.instances⟩
  | store content htype hparse hclash => exact ⟨hflat.programs, hflat.instances⟩
  | program content htype hparse hvalid =>
    exact ⟨hflat.programs.insertNew fun v hv => (hvalid.replaces v hv).1, hflat.instances⟩
  | «instance» content htype hparse hvalid =>
    exact ⟨hflat.programs, hflat.instances.insertNew fun v hv => (hvalid.replaces v hv).1⟩
  | forget content htype hparse hvalidate =>
    have hgone := hashesForgotten_gone message content ctx content.hashes n
    refine ⟨?_, ?_⟩
    · have hmem : ∀ p, p ∈ (hashesForgotten message content ctx content.hashes n).programs ↔ p ∈ n.programs ∧
          ¬ ∃ t ∈ targets n [] content.hashes, t.TakesProgram p := by
        intro p
        rw [hgone.programs p]
        push Not
        exact Iff.rfl
      refine hflat.programs.gone hmem ?_
      rintro q ⟨t, ht, ⟨-, hreplaces⟩ | ⟨htype, hhash⟩⟩ hnone p hp
      · rw [hnone] at hreplaces
        cases hreplaces
      · exact ⟨t, ht, .inl ⟨.inl htype, hhash ▸ hp⟩⟩
    · have hmem : ∀ i, i ∈ (hashesForgotten message content ctx content.hashes n).instances ↔ i ∈ n.instances ∧
          ¬ ∃ t ∈ targets n [] content.hashes, t.TakesInstance i := by
        intro i
        rw [hgone.instances i]
        push Not
        exact Iff.rfl
      refine hflat.instances.gone hmem ?_
      rintro q ⟨t, ht, ⟨-, hreplaces⟩ | ⟨htype, hhash⟩⟩ hnone i hi
      · rw [hnone] at hreplaces
        cases hreplaces
      · exact ⟨t, ht, .inl ⟨.inr htype, hhash ▸ hi⟩⟩

/-- **In every run, what a stored program or instance replaces is stored beside it, and replaces none.** -/
theorem amendmentsFlat_of_run {n₀ : Node} (hempty : ∀ v, v ∉ vms n₀)
    (hrun : Relation.ReflTransGen (AcceptStep env) n₀ n) : AmendmentsFlat n := by
  induction hrun with
  | refl =>
    refine ⟨fun p hp => ?_, fun i hi => ?_⟩
    · exact absurd (.inl ⟨p, hp, rfl⟩) (hempty (.ofProgram p))
    · exact absurd (.inr ⟨i, hi, rfl⟩) (hempty (.ofInstance i))
  | tail _ hstep ih =>
    obtain ⟨message, haccepted⟩ := hstep
    exact haccepted.amendmentsFlat ih

theorem amendment_flat : AmendmentsFlat withAmendment :=
  amendmentsFlat_of_run empty_not_mem_vms (((Relation.ReflTransGen.single
    ⟨_, delivered_store.delivered.accepted⟩).tail ⟨_, delivered_firstProgram.delivered.accepted⟩).tail
      ⟨_, delivered_amendment.delivered.accepted⟩)

/-! ## Rows and messages -/

/-- A derived row of the type is stored under the hash. -/
def HasRow (n : Node) : MessageType → ItemHash → Prop
  | .post, hash => ∃ p ∈ n.posts, p.itemHash = hash
  | .aggregate, hash => ∃ e ∈ n.aggregateElements, e.itemHash = hash
  | .program, hash => ∃ p ∈ n.programs, p.itemHash = hash
  | .instance, hash => ∃ i ∈ n.instances, i.itemHash = hash
  | .store, _ | .forget, _ => False

/-- The types whose messages have a row of their own. -/
def Derives (t : MessageType) : Prop := t ≠ .store ∧ t ≠ .forget

instance (t : MessageType) : Decidable (Derives t) := inferInstanceAs (Decidable (_ ∧ _))

/-- A message of the type is stored under the hash. -/
def HasMessage (n : Node) (t : MessageType) (hash : ItemHash) : Prop :=
  ∃ r ∈ n.messages, r.itemHash = hash ∧ r.messageType = t

/-- The hashes of the derived rows are those of the messages, type by type. -/
def RowsMatch (n : Node) : Prop := ∀ t, Derives t → ∀ hash, HasRow n t hash ↔ HasMessage n t hash

/-- Each derived row has a message of its type. -/
def RowsOwned (n : Node) : Prop := ∀ t hash, HasRow n t hash → HasMessage n t hash

theorem derives_of_hasRow {t : MessageType} (h : HasRow n t hash) : Derives t := by
  refine ⟨?_, ?_⟩
  · rintro rfl
    exact h
  · rintro rfl
    exact h

theorem RowsMatch.owned (h : RowsMatch n) : RowsOwned n := fun t hash hrow => (h t (derives_of_hasRow hrow) hash).1 hrow

/-- No message of another type is stored under the hash of one that gets a row, and a FORGET of a virtual machine
lists the amendments of it as well. -/
structure KeepsRows (env : Env) (message : Message) (n : Node) : Prop where
  storedAs : Derives message.messageType → ∀ r ∈ n.messages, r.itemHash = message.itemHash →
    r.messageType = message.messageType
  listed : message.messageType = .forget → ∀ content,
    parseContent env ForgetContent.decode (fun e => e) message = .ok content →
      ∀ hash ∈ content.hashes, HasMessage n .program hash ∨ HasMessage n .instance hash →
        ∀ v ∈ vms n, v.replaces = some hash → v.itemHash ∈ content.hashes

theorem HasMessage.unique {t t' : MessageType} (h : HasMessage n t hash) (h' : HasMessage n t' hash) : t = t' := by
  obtain ⟨r, hr, hhash, rfl⟩ := h
  obtain ⟨r', hr', hhash', rfl⟩ := h'
  rw [Table.eq_of_key hr hr' (hhash.trans hhash'.symm)]

theorem hasMessage_iff {t : MessageType} : HasMessage n t hash ↔ targetType n hash = some t := by
  rw [targetType, Option.map_eq_some_iff]
  simp only [Table.find?_eq_some, HasMessage, and_assoc]

theorem HasRow.mem_derivedHashes {t : MessageType} (h : HasRow n t hash) : hash ∈ derivedHashes n := by
  rw [MessageProcessor.mem_derivedHashes]
  cases t with
  | post => exact .inl h
  | aggregate => exact .inr (.inl h)
  | program => exact .inr (.inr (.inr (.inl h)))
  | «instance» => exact .inr (.inr (.inr (.inr h)))
  | store => exact absurd h id
  | forget => exact absurd h id

/-! ### A message that gets a row -/

/-- What is stored once the message is: under its hash the old type, else its own. -/
theorem hasMessage_stored {receptionTime : Timestamp} {t : MessageType} :
    HasMessage (stored env message receptionTime n) t hash ↔
      HasMessage n t hash ∨
        (message.itemHash = hash ∧ message.messageType = t ∧ ∀ r ∈ n.messages, r.itemHash ≠ hash) :=
  exists_row_stored fun _ _ => Iff.rfl

/-- A new row of one type, and the rows of the others as they were. -/
theorem hasRow_insert {n₁ : Node} {own : MessageType} {new : ItemHash}
    (hown : ∀ hash, HasRow n₁ own hash ↔ HasRow n own hash ∨ new = hash)
    (hother : ∀ t, t ≠ own → ∀ hash, HasRow n₁ t hash ↔ HasRow n t hash) (t : MessageType) (hash : ItemHash) :
    HasRow n₁ t hash ↔ HasRow n t hash ∨ (t = own ∧ hash = new) := by
  by_cases ht : t = own
  · subst ht
    rw [hown hash]
    exact or_congr_right ⟨fun he => ⟨rfl, he.symm⟩, fun he => he.2.symm⟩
  · rw [hother t ht hash]
    exact (or_iff_left fun h => ht h.1).symm

theorem exists_itemHash_insertNew {ρ : Type} {key : ρ → ItemHash} (t : Table ρ key) (r : ρ) (hash : ItemHash) :
    (∃ q ∈ t.insertNew r, key q = hash) ↔ (∃ q ∈ t, key q = hash) ∨ key r = hash :=
  Table.exists_key_insertNew (P := fun k => k = hash)

theorem hasRow_element (e : AggregateElement) (n : Node) (hash : ItemHash) :
    HasRow (AggregateHandler.storeElement e n) .aggregate hash ↔ HasRow n .aggregate hash ∨ e.itemHash = hash := by
  unfold AggregateHandler.storeElement
  split_ifs with hclash
  · refine (or_iff_left_of_imp ?_).symm
    rintro rfl
    exact hclash
  · show (∃ e' ∈ n.aggregateElements ++ [e], e'.itemHash = hash) ↔ _
    simp only [List.mem_append, List.mem_singleton, or_and_right, exists_or, exists_eq_left]
    exact Iff.rfl

theorem hasRow_amended (originalHash : ItemHash) (r : PostRecord) (n : Node) (hash : ItemHash) :
    HasRow (PostHandler.amended originalHash r n) .post hash ↔ HasRow n .post hash ∨ r.itemHash = hash := by
  have hlatest : ∀ p : PostRecord, ({ p with latestAmend := some r.itemHash } : PostRecord).itemHash = p.itemHash :=
    fun _ => rfl
  have hupdate : HasRow (PostHandler.amended originalHash r n) .post hash ↔
      ∃ p ∈ n.posts.insertNew r, p.itemHash = hash :=
    Table.exists_key_update hlatest (P := fun k => k = hash)
  exact hupdate.trans (exists_itemHash_insertNew n.posts r hash)

/-- **A message that gets its row** keeps the match exactly if it is stored with its type. -/
theorem RowsMatch.recorded {n₁ : Node} {receptionTime : Timestamp} (h : RowsMatch n) (hfresh : Fresh n message.itemHash)
    (hderives : Derives message.messageType) (hmessages : n₁.messages = n.messages)
    (hrows : ∀ t, Derives t → ∀ hash, HasRow n₁ t hash ↔
      HasRow n t hash ∨ (t = message.messageType ∧ hash = message.itemHash)) :
    RowsMatch (stored env message receptionTime n₁) ↔
      ∀ r ∈ n.messages, r.itemHash = message.itemHash → r.messageType = message.messageType := by
  have hsame : ∀ t hash, HasMessage n₁ t hash ↔ HasMessage n t hash := by
    intro t hash
    unfold HasMessage
    rw [hmessages]
  have hkept : ∀ t hash, HasRow (stored env message receptionTime n₁) t hash ↔ HasRow n₁ t hash := by
    intro t hash
    cases t <;> exact Iff.rfl
  have hnorow : ∀ t, ¬ HasRow n t message.itemHash := fun t hrow => hfresh.1 hrow.mem_derivedHashes
  constructor
  · intro hmatch r hr hhash
    have hrow : HasRow (stored env message receptionTime n₁) message.messageType message.itemHash :=
      (hkept _ _).2 ((hrows _ hderives _).2 (.inr ⟨rfl, rfl⟩))
    have hmessage : HasMessage (stored env message receptionTime n₁) r.messageType message.itemHash :=
      hasMessage_stored.2 (.inl ((hsame _ _).2 ⟨r, hr, hhash, rfl⟩))
    exact hmessage.unique ((hmatch _ hderives _).1 hrow)
  · intro hstoredAs t ht hash
    rw [hkept, hrows t ht, hasMessage_stored, hsame, hmessages, h t ht]
    refine ⟨?_, ?_⟩
    · rintro (hmessage | ⟨rfl, rfl⟩)
      · exact .inl hmessage
      · by_cases hclash : ∃ r ∈ n.messages, r.itemHash = message.itemHash
        · obtain ⟨r, hr, hhash⟩ := hclash
          exact .inl ⟨r, hr, hhash, hstoredAs r hr hhash⟩
        · exact .inr ⟨rfl, rfl, fun r hr hhash => hclash ⟨r, hr, hhash⟩⟩
    · rintro (hmessage | ⟨rfl, rfl, -⟩)
      · exact .inl hmessage
      · exact .inr ⟨rfl, rfl⟩

/-- A message without a row of its own does not matter. -/
theorem rowsMatch_stored {receptionTime : Timestamp} (hderives : ¬ Derives message.messageType) :
    RowsMatch (stored env message receptionTime n) ↔ RowsMatch n := by
  refine forall_congr' fun t => imp_congr_right fun ht => forall_congr' fun hash => ?_
  have hno : ¬ (message.itemHash = hash ∧ message.messageType = t ∧ ∀ r ∈ n.messages, r.itemHash ≠ hash) :=
    fun h => hderives (h.2.1 ▸ ht)
  rw [hasMessage_stored, or_iff_left hno]
  have hkept : HasRow (stored env message receptionTime n) t hash ↔ HasRow n t hash := by
    cases t <;> exact Iff.rfl
  rw [hkept]

/-! ### A FORGET -/

/-- A message that is gone was listed, or is an amend of a listed post. -/
theorem target_of_gone {gone hashes : List ItemHash} (h : hash ∈ goneAfter n gone hashes) (hnot : hash ∉ gone) :
    ⟨hash, targetType n hash⟩ ∈ targets n gone hashes ∨
      ∃ t ∈ targets n gone hashes, t.type = some .post ∧ hash ∈ amendsOf t.hash n := by
  induction hashes generalizing gone with
  | nil => exact absurd h hnot
  | cons first hashes ih =>
    rw [targets]
    by_cases hwith : hash ∈ goneWith n gone first
    · rw [goneWith, List.cons_append, List.mem_cons, List.mem_append] at hwith
      rcases hwith with rfl | hamend | hgone
      · left
        rw [typeFound, if_neg hnot]
        exact List.mem_cons_self
      · by_cases htype : typeFound n gone first = some .post
        · rw [if_pos htype] at hamend
          exact .inr ⟨_, List.mem_cons_self, htype, hamend⟩
        · rw [if_neg htype] at hamend
          exact absurd hamend List.not_mem_nil
      · exact absurd hgone hnot
    · rcases ih h hwith with htarget | ⟨t, ht, hpost⟩
      · exact .inl (List.mem_cons_of_mem _ htarget)
      · exact .inr ⟨t, List.mem_cons_of_mem _ ht, hpost⟩

theorem mem_amendsOf {amend : ItemHash} :
    amend ∈ amendsOf hash n ↔ ∃ p ∈ n.posts, p.originalItemHash = some hash ∧ p.itemHash = amend := by
  simp only [amendsOf, List.mem_map, List.mem_filter, decide_eq_true_eq, Table.mem_def, and_assoc]

/-- What is gone and no post was listed with its type. -/
theorem RowsOwned.target_of_gone (h : RowsOwned n) {hashes : List ItemHash} {t : MessageType}
    (hgone : hash ∈ goneAfter n [] hashes) (hmessage : HasMessage n t hash) (ht : t ≠ .post) :
    ⟨hash, some t⟩ ∈ targets n [] hashes := by
  have htype := hasMessage_iff.1 hmessage
  rcases MessageProcessor.target_of_gone hgone List.not_mem_nil with htarget | ⟨t', -, -, hamend⟩
  · rwa [htype] at htarget
  · obtain ⟨p, hp, -, hhash⟩ := mem_amendsOf.1 hamend
    have hpost : HasMessage n .post hash := h .post hash ⟨p, hp, hhash⟩
    exact absurd (hmessage.unique hpost) ht

/-- A target of a type has a message of it. -/
theorem hasMessage_of_target {gone hashes : List ItemHash} {t : Target} {ty : MessageType}
    (h : t ∈ targets n gone hashes) (htype : t.type = some ty) : HasMessage n ty t.hash := by
  rcases (hash_mem_of_mem_targets h).2 with hnone | hfound
  · rw [hnone] at htype
    cases htype
  · exact hasMessage_iff.2 (hfound.symm.trans htype)

/-- The virtual machines are the rows of the two types. -/
theorem hasRow_iff_vm {t : MessageType} (ht : t = .program ∨ t = .instance) :
    HasRow n t hash ↔ ∃ v ∈ vms n, v.type = t ∧ v.itemHash = hash := by
  rcases ht with rfl | rfl
  · constructor
    · rintro ⟨p, hp, rfl⟩
      exact ⟨.ofProgram p, .inl ⟨p, hp, rfl⟩, rfl, rfl⟩
    · rintro ⟨v, ⟨p, hp, rfl⟩ | ⟨i, hi, rfl⟩, htype, rfl⟩
      · exact ⟨p, hp, rfl⟩
      · cases htype
  · constructor
    · rintro ⟨i, hi, rfl⟩
      exact ⟨.ofInstance i, .inr ⟨i, hi, rfl⟩, rfl, rfl⟩
    · rintro ⟨v, ⟨p, hp, rfl⟩ | ⟨i, hi, rfl⟩, htype, rfl⟩
      · cases htype
      · exact ⟨i, hi, rfl⟩

theorem vm_unique {v w : Vm} (hv : v ∈ vms n) (hw : w ∈ vms n) (htype : v.type = w.type)
    (hhash : v.itemHash = w.itemHash) : v = w := by
  rcases hv with ⟨p, hp, rfl⟩ | ⟨i, hi, rfl⟩
  · rcases hw with ⟨q, hq, rfl⟩ | ⟨j, hj, rfl⟩
    · exact congrArg Vm.ofProgram (Table.eq_of_key hp hq hhash)
    · cases htype
  · rcases hw with ⟨q, hq, rfl⟩ | ⟨j, hj, rfl⟩
    · cases htype
    · exact congrArg Vm.ofInstance (Table.eq_of_key hi hj hhash)

theorem vm_type {v : Vm} (hv : v ∈ vms n) : v.type = .program ∨ v.type = .instance :=
  (isVm_of_mem_vms hv).imp (fun h => Option.some.inj h) fun h => Option.some.inj h

theorem RowsOwned.hasMessage_vm (h : RowsOwned n) {v : Vm} (hv : v ∈ vms n) :
    HasMessage n v.type v.itemHash ∧ v.type ≠ .post := by
  have hrow : HasRow n v.type v.itemHash := (hasRow_iff_vm (vm_type hv)).2 ⟨v, hv, rfl, rfl⟩
  rcases vm_type hv with htype | htype
  · rw [htype] at hrow ⊢
    exact ⟨h .program _ hrow, by decide⟩
  · rw [htype] at hrow ⊢
    exact ⟨h .instance _ hrow, by decide⟩

section Forget

variable {hashes : List ItemHash}

/-- Posts and elements go exactly with their messages. -/
theorem RowsOwned.takesPost_iff (h : RowsOwned n)
    (hgone : TargetsGone (targets n [] hashes) (goneAfter n [] hashes) n n') {p : PostRecord} (hp : p ∈ n.posts) :
    (∃ t ∈ targets n [] hashes, t.TakesPost p) ↔ p.itemHash ∈ goneAfter n [] hashes := by
  refine ⟨hgone.lost p hp, fun hmem => ?_⟩
  have hmessage : HasMessage n .post p.itemHash := h .post _ ⟨p, hp, rfl⟩
  rcases MessageProcessor.target_of_gone hmem List.not_mem_nil with htarget | ⟨t, ht, htype, hamend⟩
  · rw [hasMessage_iff.1 hmessage] at htarget
    exact ⟨_, htarget, rfl, .inl rfl⟩
  · obtain ⟨q, hq, horiginal, hhash⟩ := mem_amendsOf.1 hamend
    obtain rfl := Table.eq_of_key hq hp hhash
    exact ⟨t, ht, htype, .inr horiginal⟩

theorem RowsOwned.takesElement_iff (h : RowsOwned n) {e : AggregateElement} (he : e ∈ n.aggregateElements) :
    (∃ t ∈ targets n [] hashes, t.TakesElement e) ↔ e.itemHash ∈ goneAfter n [] hashes := by
  constructor
  · rintro ⟨t, ht, -, hhash⟩
    rw [hhash]
    exact mem_goneAfter (hash_mem_of_mem_targets ht).1
  · intro hmem
    have hmessage : HasMessage n .aggregate e.itemHash := h .aggregate _ ⟨e, he, rfl⟩
    exact ⟨_, h.target_of_gone hmem hmessage (by decide), rfl, rfl⟩

/-- A virtual machine is taken with its message, or with what it replaces. -/
theorem RowsOwned.takenBy_iff (h : RowsOwned n) {v : Vm} (hv : v ∈ vms n) :
    (∃ t ∈ targets n [] hashes, v.TakenBy t) ↔ v.itemHash ∈ goneAfter n [] hashes ∨
      ∃ hash ∈ hashes, (HasMessage n .program hash ∨ HasMessage n .instance hash) ∧ v.replaces = some hash := by
  have hmessage := h.hasMessage_vm hv
  constructor
  · rintro ⟨t, ht, ⟨hvm, hreplaces⟩ | ⟨-, hhash⟩⟩
    · right
      refine ⟨t.hash, (hash_mem_of_mem_targets ht).1, ?_, hreplaces⟩
      exact hvm.imp (fun htype => hasMessage_of_target ht htype) fun htype => hasMessage_of_target ht htype
    · left
      rw [hhash]
      exact mem_goneAfter (hash_mem_of_mem_targets ht).1
  · rintro (hmem | ⟨hash, hhash, hvm, hreplaces⟩)
    · exact ⟨_, h.target_of_gone hmem hmessage.1 hmessage.2, .inr ⟨rfl, rfl⟩⟩
    · have hmem : hash ∈ goneAfter n [] hashes := mem_goneAfter hhash
      rcases hvm with hprogram | hinstance
      · exact ⟨_, h.target_of_gone hmem hprogram (by decide), .inl ⟨.inl rfl, hreplaces⟩⟩
      · exact ⟨_, h.target_of_gone hmem hinstance (by decide), .inl ⟨.inr rfl, hreplaces⟩⟩

/-- What is gone and is no post's was listed. -/
theorem RowsOwned.listed_of_gone (h : RowsOwned n) {t : MessageType} (hgone : hash ∈ goneAfter n [] hashes)
    (hmessage : HasMessage n t hash) (ht : t ≠ .post) : hash ∈ hashes :=
  (hash_mem_of_mem_targets (h.target_of_gone hgone hmessage ht)).1

theorem hasMessage_gone (hgone : TargetsGone (targets n [] hashes) (goneAfter n [] hashes) n n') (t : MessageType)
    (hash : ItemHash) : HasMessage n' t hash ↔ HasMessage n t hash ∧ hash ∉ goneAfter n [] hashes := by
  constructor
  · rintro ⟨r, hr, rfl, htype⟩
    obtain ⟨hr, hleft⟩ := (hgone.messages r).1 hr
    exact ⟨⟨r, hr, rfl, htype⟩, hleft⟩
  · rintro ⟨⟨r, hr, rfl, htype⟩, hleft⟩
    exact ⟨r, (hgone.messages r).2 ⟨hr, hleft⟩, rfl, htype⟩

/-- What is left of the rows is not gone. -/
theorem RowsOwned.hasRow_gone (h : RowsOwned n)
    (hgone : TargetsGone (targets n [] hashes) (goneAfter n [] hashes) n n') {t : MessageType}
    (hrow : HasRow n' t hash) : HasRow n t hash ∧ hash ∉ goneAfter n [] hashes := by
  have hvm : t = .program ∨ t = .instance → HasRow n t hash ∧ hash ∉ goneAfter n [] hashes := by
    intro htype
    obtain ⟨v, hv, hvtype, rfl⟩ := (hasRow_iff_vm htype).1 hrow
    obtain ⟨hv, hstays⟩ := (mem_vms_gone hgone v).1 hv
    refine ⟨(hasRow_iff_vm htype).2 ⟨v, hv, hvtype, rfl⟩, fun hmem => ?_⟩
    obtain ⟨t', ht', htaken⟩ := (h.takenBy_iff hv).2 (.inl hmem)
    exact hstays t' ht' htaken
  cases t with
  | post =>
    obtain ⟨p, hp, rfl⟩ := hrow
    obtain ⟨hp, hstays⟩ := (hgone.posts p).1 hp
    refine ⟨⟨p, hp, rfl⟩, fun hmem => ?_⟩
    obtain ⟨t, ht, htakes⟩ := (h.takesPost_iff hgone hp).2 hmem
    exact hstays t ht htakes
  | aggregate =>
    obtain ⟨e, he, rfl⟩ := hrow
    obtain ⟨he, hstays⟩ := (hgone.elements e).1 he
    refine ⟨⟨e, he, rfl⟩, fun hmem => ?_⟩
    obtain ⟨t, ht, htakes⟩ := (h.takesElement_iff he).2 hmem
    exact hstays t ht htakes
  | program => exact hvm (.inl rfl)
  | «instance» => exact hvm (.inr rfl)
  | store => exact absurd hrow id
  | forget => exact absurd hrow id

/-- A FORGET leaves no row without its message. -/
theorem RowsOwned.forget (h : RowsOwned n)
    (hgone : TargetsGone (targets n [] hashes) (goneAfter n [] hashes) n n') : RowsOwned n' := by
  intro t hash hrow
  obtain ⟨hrow, hleft⟩ := h.hasRow_gone hgone hrow
  exact (hasMessage_gone hgone t hash).2 ⟨h t hash hrow, hleft⟩

/-- **A FORGET** keeps the match exactly if it lists the amendments of every virtual machine it lists. -/
theorem RowsMatch.forget (h : RowsMatch n)
    (hgone : TargetsGone (targets n [] hashes) (goneAfter n [] hashes) n n') :
    RowsMatch n' ↔ ∀ hash ∈ hashes, HasMessage n .program hash ∨ HasMessage n .instance hash →
      ∀ v ∈ vms n, v.replaces = some hash → v.itemHash ∈ hashes := by
  have hmessages := hasMessage_gone hgone
  have hvms := mem_vms_gone hgone
  constructor
  · intro hmatch hash hhash hvm v hv hreplaces
    by_contra hnot
    obtain ⟨hmessage, hpost⟩ := h.owned.hasMessage_vm hv
    -- The message of the amendment stays, so its row does, and yet it is taken.
    have hleft : v.itemHash ∉ goneAfter n [] hashes := fun hmem => hnot (h.owned.listed_of_gone hmem hmessage hpost)
    have hderives : Derives v.type := by
      rcases vm_type hv with htype | htype <;> rw [htype] <;> decide
    have hrow := (hmatch v.type hderives v.itemHash).2 ((hmessages _ _).2 ⟨hmessage, hleft⟩)
    obtain ⟨w, hw, htype, hwhash⟩ := (hasRow_iff_vm (vm_type hv)).1 hrow
    obtain ⟨hw, hstays⟩ := (hvms w).1 hw
    obtain rfl := vm_unique hw hv htype hwhash
    obtain ⟨t, ht, htaken⟩ := (h.owned.takenBy_iff hw).2 (.inr ⟨hash, hhash, hvm, hreplaces⟩)
    exact hstays t ht htaken
  · intro hlisted t ht hash
    rw [hmessages, ← h t ht hash]
    refine ⟨h.owned.hasRow_gone hgone, ?_⟩
    have hvm : t = .program ∨ t = .instance → HasRow n t hash ∧ hash ∉ goneAfter n [] hashes → HasRow n' t hash := by
      rintro htype ⟨hrow, hleft⟩
      obtain ⟨v, hv, hvtype, rfl⟩ := (hasRow_iff_vm htype).1 hrow
      refine (hasRow_iff_vm htype).2 ⟨v, (hvms v).2 ⟨hv, fun t' ht' htaken => hleft ?_⟩, hvtype, rfl⟩
      rcases (h.owned.takenBy_iff hv).1 ⟨t', ht', htaken⟩ with hmem | ⟨hash, hhash, hvm, hreplaces⟩
      · exact hmem
      · exact mem_goneAfter (hlisted hash hhash hvm v hv hreplaces)
    cases t with
    | post =>
      rintro ⟨⟨p, hp, rfl⟩, hleft⟩
      exact ⟨p, (hgone.posts p).2 ⟨hp, fun t ht htakes =>
        hleft ((h.owned.takesPost_iff hgone hp).1 ⟨t, ht, htakes⟩)⟩, rfl⟩
    | aggregate =>
      rintro ⟨⟨e, he, rfl⟩, hleft⟩
      exact ⟨e, (hgone.elements e).2 ⟨he, fun t ht htakes =>
        hleft ((h.owned.takesElement_iff he).1 ⟨t, ht, htakes⟩)⟩, rfl⟩
    | program => exact hvm (.inl rfl)
    | «instance» => exact hvm (.inr rfl)
    | store => exact absurd rfl ht.1
    | forget => exact absurd rfl ht.2

end Forget

/-! ### Runs -/

/-- A message that is no FORGET has at most one row made, under its hash. -/
theorem Effect.rows {ctx : HandlerContext} {n₁ : Node} (h : Effect message ctx n n₁)
    (hforget : message.messageType ≠ .forget) :
    n₁.messages = n.messages ∧ n₁.forgottenMessages = n.forgottenMessages ∧
      ∀ t, Derives t → ∀ hash, HasRow n₁ t hash ↔
        HasRow n t hash ∨ (t = message.messageType ∧ hash = message.itemHash) := by
  cases h with
  | aggregate content htype =>
    obtain ⟨as, has⟩ := processed_eq (AggregateHandler.elementOf message content) n
    have hown : ∀ hash, HasRow (AggregateHandler.processed (AggregateHandler.elementOf message content) n) .aggregate
        hash ↔ HasRow n .aggregate hash ∨ message.itemHash = hash := by
      rw [has]
      exact hasRow_element (AggregateHandler.elementOf message content) n
    have hother : ∀ t, t ≠ .aggregate → ∀ hash,
        HasRow (AggregateHandler.processed (AggregateHandler.elementOf message content) n) t hash ↔
          HasRow n t hash := by
      intro t ht hash
      rw [has, AggregateHandler.storeElement]
      cases t <;> first | exact absurd rfl ht | split_ifs <;> exact Iff.rfl
    refine ⟨?_, ?_, fun t _ hash => ?_⟩
    · rw [has, AggregateHandler.storeElement]
      split_ifs <;> rfl
    · rw [has, AggregateHandler.storeElement]
      split_ifs <;> rfl
    · rw [htype]
      exact hasRow_insert hown hother t hash
  | post content htype hparse horiginal =>
    refine ⟨rfl, rfl, fun t _ hash => ?_⟩
    rw [htype]
    have hown : ∀ hash, HasRow (PostHandler.posted (PostHandler.recordOf message content none) n) .post hash ↔
        HasRow n .post hash ∨ message.itemHash = hash :=
      exists_itemHash_insertNew n.posts (PostHandler.recordOf message content none)
    refine hasRow_insert hown (fun t ht hash => ?_) t hash
    cases t <;> first | exact absurd rfl ht | exact Iff.rfl
  | amend content originalHash target htype hparse hamend htarget href hplain horiginal =>
    refine ⟨rfl, rfl, fun t _ hash => ?_⟩
    rw [htype]
    have hown : ∀ hash, HasRow
        (PostHandler.amended originalHash (PostHandler.recordOf message content (some originalHash)) n) .post hash ↔
          HasRow n .post hash ∨ message.itemHash = hash :=
      hasRow_amended originalHash (PostHandler.recordOf message content (some originalHash)) n
    refine hasRow_insert hown (fun t ht hash => ?_) t hash
    cases t <;> first | exact absurd rfl ht | exact Iff.rfl
  | store content htype hparse hclash =>
    refine ⟨rfl, rfl, fun t ht hash => ?_⟩
    have hnot : ¬ (t = message.messageType ∧ hash = message.itemHash) := fun h => ht.1 (h.1.trans htype)
    rw [or_iff_left hnot]
    cases t <;> exact Iff.rfl
  | program content htype hparse hvalid =>
    refine ⟨rfl, rfl, fun t _ hash => ?_⟩
    rw [htype]
    have hown : ∀ hash, HasRow (ProgramHandler.recorded message content ctx n) .program hash ↔
        HasRow n .program hash ∨ message.itemHash = hash :=
      exists_itemHash_insertNew n.programs (ProgramHandler.rowOf message content)
    refine hasRow_insert hown (fun t ht hash => ?_) t hash
    cases t <;> first | exact absurd rfl ht | exact Iff.rfl
  | «instance» content htype hparse hvalid =>
    refine ⟨rfl, rfl, fun t _ hash => ?_⟩
    rw [htype]
    have hown : ∀ hash, HasRow (InstanceHandler.recorded message content ctx n) .instance hash ↔
        HasRow n .instance hash ∨ message.itemHash = hash :=
      exists_itemHash_insertNew n.instances (InstanceHandler.rowOf message content)
    refine hasRow_insert hown (fun t ht hash => ?_) t hash
    cases t <;> first | exact absurd rfl ht | exact Iff.rfl
  | forget content htype hparse hvalidate => exact absurd htype hforget

/-- A FORGET that passes its checks forgets what it lists. -/
theorem Effect.forgets {ctx : HandlerContext} {n₁ : Node} (h : Effect message ctx n n₁)
    (hforget : message.messageType = .forget) :
    ∃ content, parseContent ctx.env ForgetContent.decode (fun e => e) message = .ok content ∧
      Exec (ForgetHandler.validate message ctx).run n (.ok ()) n ∧
      n₁ = hashesForgotten message content ctx content.hashes n := by
  cases h with
  | aggregate content htype => exact absurd (htype.symm.trans hforget) (by decide)
  | post content htype hparse horiginal => exact absurd (htype.symm.trans hforget) (by decide)
  | amend content originalHash target htype hparse hamend htarget href hplain horiginal =>
    exact absurd (htype.symm.trans hforget) (by decide)
  | store content htype hparse hclash => exact absurd (htype.symm.trans hforget) (by decide)
  | program content htype hparse hvalid => exact absurd (htype.symm.trans hforget) (by decide)
  | «instance» content htype hparse hvalid => exact absurd (htype.symm.trans hforget) (by decide)
  | forget content htype hparse hvalidate => exact ⟨content, hparse, hvalidate, rfl⟩

/-- **One message** keeps rows and messages together exactly under `KeepsRows`. -/
theorem Delivered.rowsMatch (h : Delivered env message n n') (hmatch : RowsMatch n) :
    RowsMatch n' ↔ KeepsRows env message n := by
  obtain ⟨ctx, rfl, receptionTime, n₁, heffect, rfl⟩ := h.accepted.effect
  by_cases hforget : message.messageType = .forget
  · have hderives : ¬ Derives message.messageType := fun hd => hd.2 hforget
    obtain ⟨content, hparse, -, rfl⟩ := heffect.forgets hforget
    refine (rowsMatch_stored hderives).trans ((hmatch.forget
      (hashesForgotten_gone message content ctx content.hashes n)).trans ⟨fun hlisted => ?_, fun hkeeps => ?_⟩)
    · refine ⟨fun hd => absurd hd hderives, fun _ content' hparse' => ?_⟩
      obtain rfl := Except.ok.inj (hparse.symm.trans hparse')
      exact hlisted
    · exact hkeeps.listed hforget content hparse
  · obtain ⟨hmessages, -, hrows⟩ := heffect.rows hforget
    by_cases hderives : Derives message.messageType
    · exact (hmatch.recorded h.fresh hderives hmessages hrows).trans
        ⟨fun hstoredAs => ⟨fun _ => hstoredAs, fun hf => absurd hf hforget⟩, fun hkeeps => hkeeps.storedAs hderives⟩
    · refine (rowsMatch_stored hderives).trans (iff_of_true (fun t ht hash => ?_)
        ⟨fun hd => absurd hd hderives, fun hf => absurd hf hforget⟩)
      have hnot : ¬ (t = message.messageType ∧ hash = message.itemHash) := fun h => hderives (h.1 ▸ ht)
      rw [hrows t ht, or_iff_left hnot, hmatch t ht, HasMessage, HasMessage, hmessages]

/-- A message is accepted that keeps rows and messages together. -/
def RowsStep (env : Env) (n n' : Node) : Prop := ∃ message, Delivered env message n n' ∧ KeepsRows env message n

/-- **In a run whose messages keep their rows, the rows of the four derived tables are those of the messages**; the
next message keeps that so exactly if it meets the condition as well. -/
theorem rowsMatch_of_run {n₀ : Node} (hmatch : RowsMatch n₀) (hrun : Relation.ReflTransGen (RowsStep env) n₀ n) :
    RowsMatch n ∧ ∀ message n', Delivered env message n n' → (RowsMatch n' ↔ KeepsRows env message n) := by
  have hinv : RowsMatch n := by
    induction hrun with
    | refl => exact hmatch
    | tail _ hstep ih =>
      obtain ⟨message, hdelivered, hkeeps⟩ := hstep
      exact (hdelivered.rowsMatch ih).2 hkeeps
  exact ⟨hinv, fun message n' hdelivered => hdelivered.rowsMatch hinv⟩

theorem rowsMatch_empty : RowsMatch .empty := by
  intro t ht hash
  refine iff_of_false (fun hrow => ?_) ?_
  · exact absurd hrow.mem_derivedHashes List.not_mem_nil
  · rintro ⟨r, hr, -⟩
    exact absurd hr List.not_mem_nil

/-! ### A program, its amendment, and the FORGET of one of them -/

section Amended

/-- The hash of the message is new. -/
theorem KeepsRows.of_new (hnew : ∀ r ∈ n.messages, r.itemHash ≠ message.itemHash)
    (htype : message.messageType ≠ .forget) : KeepsRows env message n :=
  ⟨fun _ r hr hhash => absurd hhash (hnew r hr), fun hforget => absurd hforget htype⟩

example : fileStored.messages.rows.map MessageRow.itemHash = [firstHash] := by decide +kernel

/-- The FORGET of the amendment takes its message and its row. -/
theorem amendment_rowsMatch : RowsMatch (afterForgetting forgetAmendment amendmentHash withAmendment) := by
  have hprogram : ∀ r ∈ fileStored.messages.rows, r.itemHash ≠ programHash := by decide +kernel
  have hamendment : ∀ r ∈ withProgram.messages.rows, r.itemHash ≠ amendmentHash := by decide +kernel
  have hflat : ∀ p ∈ withAmendment.programs.rows, p.replaces ≠ some amendmentHash := by decide +kernel
  have hforget : KeepsRows vmCtx.env forgetAmendment withAmendment := by
    refine ⟨fun hderives => absurd rfl hderives.2, fun _ content hparse hash hhash _ v hv hreplaces => ?_⟩
    obtain ⟨s, hs, hdecode⟩ := parseContent_ok.1 hparse
    obtain rfl := Option.some.inj hs
    obtain rfl := Except.ok.inj ((fromStr_forget (by decide +kernel)).symm.trans hdecode)
    obtain rfl := List.mem_singleton.1 hhash
    rcases hv with ⟨p, hp, rfl⟩ | ⟨i, hi, rfl⟩
    · exact absurd hreplaces (hflat p hp)
    · exact absurd hi List.not_mem_nil
  have hrun : Relation.ReflTransGen (RowsStep vmCtx.env) .empty
      (afterForgetting forgetAmendment amendmentHash withAmendment) :=
    (((Relation.ReflTransGen.single
      ⟨_, delivered_store.delivered, .of_new (fun _ hr => absurd hr List.not_mem_nil) (by decide)⟩).tail
      ⟨_, delivered_firstProgram.delivered, .of_new hprogram (by decide)⟩).tail
      ⟨_, delivered_amendment.delivered, .of_new hamendment (by decide)⟩).tail
      ⟨_, delivered_forgetAmendment.delivered, hforget⟩
  exact (rowsMatch_of_run rowsMatch_empty hrun).1

/-- The FORGET of the program takes the row of the amendment along and leaves its message. -/
theorem amendment_message_left :
    RowsMatch .empty ∧ DeliveredBy vmCtx firstStore .empty fileStored ∧
      DeliveredBy vmCtx firstProgram fileStored withProgram ∧
      DeliveredBy vmCtx amendment withProgram withAmendment ∧
      DeliveredBy vmCtx forgetProgram withAmendment (afterForgetting forgetProgram programHash withAmendment) ∧
      ¬ RowsMatch (afterForgetting forgetProgram programHash withAmendment) := by
  have hmessage : ∃ r ∈ (afterForgetting forgetProgram programHash withAmendment).messages.rows,
      r.itemHash = amendmentHash ∧ r.messageType = .program := by decide +kernel
  have hrow : ∀ p ∈ (afterForgetting forgetProgram programHash withAmendment).programs.rows,
      p.itemHash ≠ amendmentHash := by decide +kernel
  refine ⟨rowsMatch_empty, delivered_store, delivered_firstProgram, delivered_amendment,
    delivered_forgetProgramAmended, fun hmatch => ?_⟩
  obtain ⟨p, hp, hhash⟩ := (hmatch .program (by decide) amendmentHash).2 hmessage
  exact hrow p hp hhash

end Amended

end AlephCore.MessageProcessor
