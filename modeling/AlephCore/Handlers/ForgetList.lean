import AlephCore.Handlers.ForgetSpec

/-!
# ForgetList — what forgetting a list of hashes takes away

A FORGET finds each of its hashes with the type of the message stored under it, unless that message has gone
with an earlier hash.  These types decide which rows go: `Takes…` says so for one hash, and
`hashesForgotten_gone` that a row is left if none of the hashes takes it.
-/

namespace AlephCore.ForgetHandler

open ProgE Prog PgDatabase

/-! ## One hash -/

/-- A listed hash, and the type of the message found under it. -/
structure Target where
  hash : ItemHash
  type : Option MessageType
  deriving DecidableEq

namespace Target

/-- A post goes with its own hash, and an amend with that of its original. -/
def TakesPost (t : Target) (p : PostRecord) : Prop :=
  t.type = some .post ∧ (p.itemHash = t.hash ∨ p.originalItemHash = some t.hash)

def TakesElement (t : Target) (e : AggregateElement) : Prop :=
  t.type = some .aggregate ∧ e.itemHash = t.hash

/-- A virtual machine goes with its own hash, and an amendment with the hash it replaces. -/
def TakesProgram (t : Target) (p : ProgramRow) : Prop :=
  (IsVm t.type ∧ p.replaces = some t.hash) ∨ (t.type = some .program ∧ p.itemHash = t.hash)

def TakesInstance (t : Target) (i : InstanceRow) : Prop :=
  (IsVm t.type ∧ i.replaces = some t.hash) ∨ (t.type = some .instance ∧ i.itemHash = t.hash)

/-- The version, the volumes and the costs go with the hash of the virtual machine. -/
def TakesVmData (t : Target) (hash : ItemHash) : Prop := IsVm t.type ∧ hash = t.hash

/-- A pin goes with the STORE message that holds it; any other hash takes the pins of a file of that hash. -/
def TakesPin (t : Target) (p : FilePinRecord) : Prop :=
  if t.type = some .store then p.messageHash = some t.hash else p.itemHash = t.hash

end Target

/-! ## The targets of a list -/

/-- The type of the message under the hash, unless it is gone. -/
def typeFound (n : Node) (gone : List ItemHash) (hash : ItemHash) : Option MessageType :=
  if hash ∈ gone then none else targetType n hash

/-- The messages that are gone after the hash has been forgotten. -/
def goneWith (n : Node) (gone : List ItemHash) (hash : ItemHash) : List ItemHash :=
  hash :: (if typeFound n gone hash = some .post then amendsOf hash n else []) ++ gone

/-- The targets of a FORGET of the hashes. -/
def targets (n : Node) : List ItemHash → List ItemHash → List Target
  | _, [] => []
  | gone, hash :: hashes => ⟨hash, typeFound n gone hash⟩ :: targets n (goneWith n gone hash) hashes

/-- The messages that are gone after the hashes have been forgotten. -/
def goneAfter (n : Node) : List ItemHash → List ItemHash → List ItemHash
  | gone, [] => gone
  | gone, hash :: hashes => goneAfter n (goneWith n gone hash) hashes

variable {n m m' : Node} {hash : ItemHash} {ctx : HandlerContext}

/-! ## The data of virtual machines -/

/-- What forgetting a hash leaves of the data beside the rows of the virtual machines. -/
structure VmDataGone (hash : ItemHash) (n n' : Node) : Prop where
  versions : ∀ v, v ∈ n'.vmVersions ↔ v ∈ n.vmVersions ∧ ¬ (IsVm (targetType n hash) ∧ v.vmHash = hash)
  costs : ∀ c, c ∈ n'.accountCosts ↔ c ∈ n.accountCosts ∧ ¬ (IsVm (targetType n hash) ∧ c.itemHash = hash)
  volumes : ∀ v, v ∈ n'.vmMachineVolumes ↔
    v ∈ n.vmMachineVolumes ∧ ¬ (IsVm (targetType n hash) ∧ v.vmHash = hash)

/-- Versions, costs and volumes are those of the virtual machines alone. -/
theorem VmDataGone.of_not_isVm {n' : Node} (htype : ¬ IsVm (targetType n hash))
    (hversions : n'.vmVersions = n.vmVersions) (hcosts : n'.accountCosts = n.accountCosts)
    (hvolumes : n'.vmMachineVolumes = n.vmMachineVolumes) : VmDataGone hash n n' := by
  refine ⟨fun v => ?_, fun c => ?_, fun v => ?_⟩
  · rw [hversions]
    exact (and_iff_left fun h => htype h.1).symm
  · rw [hcosts]
    exact (and_iff_left fun h => htype h.1).symm
  · rw [hvolumes]
    exact (and_iff_left fun h => htype h.1).symm

theorem hashForgotten_vmData (message : Message) (content : ForgetContent) (ctx : HandlerContext) (n : Node)
    (hash : ItemHash) : VmDataGone hash n (hashForgotten message content ctx n hash) := by
  cases hrow : n.messages.find? hash with
  | none =>
    have htype : targetType n hash = none := by rw [targetType, hrow]; rfl
    rw [hashForgotten, hrow]
    exact .of_not_isVm (by simp [htype, IsVm]) rfl rfl rfl
  | some row =>
    have htype : targetType n hash = some row.messageType := by rw [targetType, hrow]; rfl
    obtain ⟨ps, ts, hpins⟩ := pinsForgotten_eq hash content.address row.message ctx
      (marked hash message.itemHash content.reason n)
    rw [hashForgotten, hrow, Option.map_some, targetForgotten, hpins]
    change VmDataGone hash n (messageDeleted hash (derivedDeleted hash row.messageType
      (cascaded hash row.messageType ctx _)))
    cases ht : row.messageType with
    | post =>
      obtain ⟨ms, qs, fs, cs, hrest⟩ := (amendsForgotten_gone hash (amendsOf hash n)
        { marked hash message.itemHash content.reason n with filePins := ps, fileTagsV2 := ts }).rest
      have hversions := congrArg Node.vmVersions hrest
      have hcosts := congrArg Node.accountCosts hrest
      have hvolumes := congrArg Node.vmMachineVolumes hrest
      exact .of_not_isVm (by simp [htype, ht, IsVm]) hversions hcosts hvolumes
    | aggregate =>
      obtain ⟨as, has⟩ := elementForgotten_eq hash ctx
        { marked hash message.itemHash content.reason n with filePins := ps, fileTagsV2 := ts }
      rw [cascaded, has]
      exact .of_not_isVm (by simp [htype, ht, IsVm]) rfl rfl rfl
    | store | forget => exact .of_not_isVm (by simp [htype, ht, IsVm]) rfl rfl rfl
    | program | «instance» =>
      refine ⟨fun v => ?_, fun c => ?_, fun v => ?_⟩ <;>
        simp [htype, ht, IsVm, cascaded, vmUpdatesDeleted, vmDataDeleted, derivedDeleted, derivedRowsDeleted,
          marked, messageDeleted]

/-! ## What is left after the list -/

/-- The rows that none of the targets takes are left, and the messages that are not gone. -/
structure TargetsGone (ts : List Target) (gone : List ItemHash) (n m : Node) : Prop where
  messages : ∀ r, r ∈ m.messages ↔ r ∈ n.messages ∧ r.itemHash ∉ gone
  forgotten : ∀ x, Forgotten m x ↔ Forgotten n x ∨ x ∈ gone
  posts : ∀ p, p ∈ m.posts ↔ p ∈ n.posts ∧ ∀ t ∈ ts, ¬ t.TakesPost p
  elements : ∀ e, e ∈ m.aggregateElements ↔ e ∈ n.aggregateElements ∧ ∀ t ∈ ts, ¬ t.TakesElement e
  programs : ∀ p, p ∈ m.programs ↔ p ∈ n.programs ∧ ∀ t ∈ ts, ¬ t.TakesProgram p
  instances : ∀ i, i ∈ m.instances ↔ i ∈ n.instances ∧ ∀ t ∈ ts, ¬ t.TakesInstance i
  versions : ∀ v, v ∈ m.vmVersions ↔ v ∈ n.vmVersions ∧ ∀ t ∈ ts, ¬ t.TakesVmData v.vmHash
  costs : ∀ c, c ∈ m.accountCosts ↔ c ∈ n.accountCosts ∧ ∀ t ∈ ts, ¬ t.TakesVmData c.itemHash
  volumes : ∀ v, v ∈ m.vmMachineVolumes ↔ v ∈ n.vmMachineVolumes ∧ ∀ t ∈ ts, ¬ t.TakesVmData v.vmHash
  pins : ∀ p : FilePinRecord, p.Active → (p ∈ m.filePins ↔ p ∈ n.filePins ∧ ∀ t ∈ ts, ¬ t.TakesPin p)
  /-- An amend that has gone with its original has taken its message along. -/
  lost : ∀ p ∈ n.posts, (∃ t ∈ ts, t.TakesPost p) → p.itemHash ∈ gone

theorem TargetsGone.refl (n : Node) : TargetsGone [] [] n n := by
  constructor <;> simp

variable {ts : List Target} {gone : List ItemHash}

theorem TargetsGone.typeFound_eq (h : TargetsGone ts gone n m) (hash : ItemHash) :
    typeFound n gone hash = targetType m hash := by
  unfold typeFound
  have hrow : ∀ r, r ∈ m.messages ∧ r.itemHash = hash ↔ (r ∈ n.messages ∧ r.itemHash = hash) ∧ hash ∉ gone := by
    intro r
    rw [h.messages]
    constructor
    · rintro ⟨⟨hr, hg⟩, rfl⟩
      exact ⟨⟨hr, rfl⟩, hg⟩
    · rintro ⟨⟨hr, rfl⟩, hg⟩
      exact ⟨⟨hr, hg⟩, rfl⟩
  split_ifs with hg
  · have hnone : m.messages.find? hash = none :=
      Table.find?_eq_none.2 fun r hr he => ((hrow r).1 ⟨hr, he⟩).2 hg
    rw [targetType, hnone]
    rfl
  · have hsame : n.messages.find? hash = m.messages.find? hash := by
      refine Option.ext fun r => ?_
      rw [Table.find?_eq_some, Table.find?_eq_some, hrow, and_iff_left hg]
    rw [targetType, targetType, hsame]

/-- The amends that go with a hash now are those that were there at first, or are gone. -/
theorem TargetsGone.mem_goneWith (h : TargetsGone ts gone n m) (hash x : ItemHash) :
    x ∈ goneWith n gone hash ↔ x ∈ gone ∨ x = hash ∨ x ∈ cascadedAmends m hash := by
  unfold goneWith cascadedAmends
  rw [h.typeFound_eq]
  split_ifs with ht
  · have hamends : ∀ k : Node, x ∈ amendsOf hash k ↔ ∃ p ∈ k.posts, p.originalItemHash = some hash ∧ p.itemHash = x := by
      intro k
      simp only [amendsOf, List.mem_map, List.mem_filter, decide_eq_true_eq, Table.mem_def, and_assoc]
    rw [List.mem_append, List.mem_cons, hamends, hamends]
    constructor
    · rintro ((rfl | ⟨p, hp, horig, rfl⟩) | hx)
      · exact .inr (.inl rfl)
      · by_cases htaken : ∃ t ∈ ts, t.TakesPost p
        · exact .inl (h.lost p hp htaken)
        · push Not at htaken
          exact .inr (.inr ⟨p, (h.posts p).2 ⟨hp, htaken⟩, horig, rfl⟩)
      · exact .inl hx
    · rintro (hx | rfl | ⟨p, hp, horig, rfl⟩)
      · exact .inr hx
      · exact .inl (.inl rfl)
      · exact .inl (.inr ⟨p, ((h.posts p).1 hp).1, horig, rfl⟩)
  · simp only [List.mem_append, List.mem_cons, List.not_mem_nil, or_false]
    exact or_comm

/-- A further target only has to spare what the earlier ones have left. -/
theorem forall_snoc {α : Type} {P : α → Prop} {t : α} {ts : List α} :
    (∀ s ∈ ts ++ [t], P s) ↔ (∀ s ∈ ts, P s) ∧ P t := by
  rw [List.forall_mem_append, List.forall_mem_singleton]

theorem TargetsGone.forget (h : TargetsGone ts gone n m) (hgone : HashGone hash m m') (hvm : VmDataGone hash m m')
    {address : Address} (hpins : PinsDropped hash address m m') :
    TargetsGone (ts ++ [⟨hash, typeFound n gone hash⟩]) (goneWith n gone hash) n m' := by
  rw [h.typeFound_eq]
  have hamends : ∀ p ∈ m.posts, targetType m hash = some .post →
      (p.itemHash ∈ cascadedAmends m hash ↔ p.originalItemHash = some hash) := by
    intro p hp ht
    rw [cascadedAmends, if_pos ht, amendsOf, List.mem_map]
    constructor
    · rintro ⟨q, hq, he⟩
      obtain ⟨hq, horig⟩ := List.mem_filter.1 hq
      obtain rfl := Table.eq_of_key hq hp he
      exact of_decide_eq_true horig
    · intro horig
      exact ⟨p, List.mem_filter.2 ⟨hp, decide_eq_true horig⟩, rfl⟩
  have hpost : ∀ p ∈ m.posts, (p.itemHash ∉ cascadedAmends m hash ∧
      ¬ (targetType m hash = some .post ∧ p.itemHash = hash)) ↔
        ¬ Target.TakesPost ⟨hash, targetType m hash⟩ p := by
    intro p hp
    by_cases ht : targetType m hash = some .post
    · rw [hamends p hp ht]
      simp only [Target.TakesPost, ht, true_and, not_or]
      exact and_comm
    · simp [Target.TakesPost, cascadedAmends, ht]
  refine ⟨fun r => ?_, fun x => ?_, fun p => ?_, fun e => ?_, fun p => ?_, fun i => ?_, fun v => ?_, fun c => ?_,
    fun v => ?_, fun p ha => ?_, ?_⟩
  · rw [hgone.messages, h.messages, h.mem_goneWith, not_or, not_or, and_assoc]
  · rw [hgone.forgotten, h.forgotten, h.mem_goneWith, or_assoc]
  · refine (hgone.posts p).trans ((and_congr_right (hpost p)).trans ?_)
    rw [h.posts, forall_snoc, and_assoc]
  · rw [hgone.elements, h.elements, forall_snoc, and_assoc]
    rfl
  · rw [hgone.programs, h.programs, forall_snoc, and_assoc, ← not_or]
    rfl
  · rw [hgone.instances, h.instances, forall_snoc, and_assoc, ← not_or]
    rfl
  · rw [hvm.versions, h.versions, forall_snoc, and_assoc]
    rfl
  · rw [hvm.costs, h.costs, forall_snoc, and_assoc]
    rfl
  · rw [hvm.volumes, h.volumes, forall_snoc, and_assoc]
    rfl
  · rw [hpins.active p ha, h.pins p ha, forall_snoc, and_assoc]
    rfl
  · rintro p hp ⟨t, ht, htakes⟩
    rw [h.mem_goneWith]
    by_cases hlost : ∃ t ∈ ts, t.TakesPost p
    · exact .inl (h.lost p hp hlost)
    · push Not at hlost
      have hp' : p ∈ m.posts := (h.posts p).2 ⟨hp, hlost⟩
      rcases List.mem_append.1 ht with ht | ht
      · exact absurd htakes (hlost t ht)
      · obtain rfl := List.mem_singleton.1 ht
        obtain ⟨htype, hown | horig⟩ := htakes
        · exact .inr (.inl hown)
        · exact .inr (.inr ((hamends p hp' htype).2 horig))

theorem TargetsGone.forgetAll (message : Message) (content : ForgetContent) (ctx : HandlerContext)
    (hashes : List ItemHash) (h : TargetsGone ts gone n m) :
    TargetsGone (ts ++ targets n gone hashes) (goneAfter n gone hashes) n
      (hashesForgotten message content ctx hashes m) := by
  induction hashes generalizing ts gone m with
  | nil => simpa [targets, goneAfter, hashesForgotten] using h
  | cons hash hashes ih =>
    have hnext := ih (h.forget (hashForgotten_gone message content ctx m hash)
      (hashForgotten_vmData message content ctx m hash) (hashForgotten_dropped message content ctx m hash))
    rw [List.append_assoc, List.singleton_append] at hnext
    exact hnext

/-- **Forgetting a list of hashes** takes the rows that one of its targets takes. -/
theorem hashesForgotten_gone (message : Message) (content : ForgetContent) (ctx : HandlerContext)
    (hashes : List ItemHash) (n : Node) :
    TargetsGone (targets n [] hashes) (goneAfter n [] hashes) n (hashesForgotten message content ctx hashes n) :=
  (TargetsGone.refl n).forgetAll message content ctx hashes

/-! ## The targets themselves -/

theorem mem_goneAfter_of_mem {hashes : List ItemHash} {x : ItemHash} (h : x ∈ gone) :
    x ∈ goneAfter n gone hashes := by
  induction hashes generalizing gone with
  | nil => exact h
  | cons hash hashes ih => exact ih (List.mem_append_right _ h)

/-- The message of a listed hash is gone. -/
theorem mem_goneAfter {hashes : List ItemHash} (h : hash ∈ hashes) : hash ∈ goneAfter n gone hashes := by
  induction hashes generalizing gone with
  | nil => cases h
  | cons head hashes ih =>
    rcases List.mem_cons.1 h with rfl | h
    · have hgone : hash ∈ goneWith n gone hash := List.mem_append_left _ List.mem_cons_self
      show hash ∈ goneAfter n (goneWith n gone hash) hashes
      exact mem_goneAfter_of_mem hgone
    · exact ih h

theorem hash_mem_of_mem_targets {hashes : List ItemHash} {t : Target} (h : t ∈ targets n gone hashes) :
    t.hash ∈ hashes ∧ (t.type = none ∨ t.type = targetType n t.hash) := by
  induction hashes generalizing gone with
  | nil => cases h
  | cons head hashes ih =>
    rcases List.mem_cons.1 h with rfl | h
    · refine ⟨List.mem_cons_self, ?_⟩
      unfold typeFound
      split_ifs
      · exact .inl rfl
      · exact .inr rfl
    · exact ⟨List.mem_cons_of_mem _ (ih h).1, (ih h).2⟩

end AlephCore.ForgetHandler
