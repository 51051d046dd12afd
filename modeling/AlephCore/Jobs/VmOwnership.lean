import AlephCore.Handlers.FailClosed
import AlephCore.Jobs.AccountCosts
import AlephCore.Jobs.VmOwners

/-!
# VmOwnership — the owners of a virtual machine in three tables

A stored program or instance has an owner column, its virtual machine has one in the version row, and every cost
of it names an owner.  The first is the sender of the message; the others come from the address in the content,
and the version row keeps the address that came first.  They agree as long as senders act for themselves and
amendments have the address of what they amend.
-/

namespace AlephCore.MessageProcessor

open ProgE Prog ForgetHandler PgDatabase

/-! ## Agreement -/

/-- The stored virtual machines, with their owner columns. -/
def ownedVms (n : Node) : Set (Address × Vm) :=
  {x | (∃ p ∈ n.programs, x = (p.owner, .ofProgram p)) ∨ ∃ i ∈ n.instances, x = (i.owner, .ofInstance i)}

/-- The last accepted virtual machine under a hash; the last message comes first. -/
def lastVm (ms : List Message) (hash : ItemHash) : Option Message :=
  ms.find? fun m => decide (m.itemHash = hash ∧ (m.messageType = .program ∨ m.messageType = .instance))

/-- The owner is the address in the content, that of the version row of the virtual machine or of what it
replaces, and that of every cost. -/
structure OwnerAgrees (env : Env) (ms : List Message) (n : Node) (owner : Address) (v : Vm) : Prop where
  content : ∃ m terms, lastVm ms v.itemHash = some m ∧ HasTerms env m terms ∧ env.SameAddress owner terms.address
  version : ∃ row ∈ n.vmVersions, row.vmHash = v.replaces.getD v.itemHash ∧ env.SameAddress owner row.owner
  costs : ∀ c ∈ n.accountCosts, c.itemHash = v.itemHash → env.SameAddress owner c.owner

/-- After these messages the owner of every stored virtual machine agrees. -/
def OwnersAgree (env : Env) (ms : List Message) (n : Node) : Prop := ∀ x ∈ ownedVms n, OwnerAgrees env ms n x.1 x.2

/-- A virtual machine is sent by its own address, which is that of the version row it falls under and of the costs
already recorded under its hash; a FORGET takes a version row only together with what falls under it. -/
structure KeepsOwners (env : Env) (message : Message) (n : Node) : Prop where
  own : ∀ terms, HasTerms env message terms → env.SameAddress message.sender terms.address
  versions : ∀ terms, HasTerms env message terms → ∀ row ∈ n.vmVersions,
    row.vmHash = terms.replaces.getD message.itemHash → env.SameAddress terms.address row.owner
  costs : ∀ terms, HasTerms env message terms → ∀ c ∈ n.accountCosts, c.itemHash = message.itemHash →
    env.SameAddress terms.address c.owner
  spared : message.messageType = .forget → ∀ content,
    parseContent env ForgetContent.decode (fun e => e) message = .ok content →
      ∀ v ∈ vms n, (∀ t ∈ targets n [] content.hashes, ¬ v.TakenBy t) →
        ∀ t ∈ targets n [] content.hashes, ¬ t.TakesVmData (v.replaces.getD v.itemHash)

variable {env : Env} {message : Message} {ms : List Message} {n n' : Node} {hash : ItemHash}

theorem vms_of_ownedVms {x : Address × Vm} (h : x ∈ ownedVms n) : x.2 ∈ vms n := by
  rcases h with ⟨p, hp, rfl⟩ | ⟨i, hi, rfl⟩
  · exact .inl ⟨p, hp, rfl⟩
  · exact .inr ⟨i, hi, rfl⟩

theorem ownedVms_congr (hprograms : n'.programs = n.programs) (hinstances : n'.instances = n.instances) :
    ownedVms n' = ownedVms n := by
  rw [ownedVms, ownedVms, hprograms, hinstances]

theorem HasTerms.isVm {terms : VmTerms} (h : HasTerms env message terms) :
    message.messageType = .program ∨ message.messageType = .instance := by
  cases h with
  | program content htype => exact .inl htype
  | «instance» content htype => exact .inr htype

/-- A message says one thing. -/
theorem HasTerms.unique {terms terms' : VmTerms} (h : HasTerms env message terms) (h' : HasTerms env message terms') :
    terms = terms' := by
  cases h with
  | program content htype hparse =>
    cases h' with
    | program content' htype' hparse' =>
      obtain rfl := Except.ok.inj (hparse.symm.trans hparse')
      rfl
    | «instance» content' htype' => exact absurd (htype.symm.trans htype') (by decide)
  | «instance» content htype hparse =>
    cases h' with
    | program content' htype' => exact absurd (htype.symm.trans htype') (by decide)
    | «instance» content' htype' hparse' =>
      obtain rfl := Except.ok.inj (hparse.symm.trans hparse')
      rfl

theorem lastVm_cons_self (h : message.messageType = .program ∨ message.messageType = .instance) :
    lastVm (message :: ms) message.itemHash = some message :=
  List.find?_cons_of_pos (by simpa using h)

theorem lastVm_cons (h : message.itemHash = hash → message.messageType ≠ .program ∧ message.messageType ≠ .instance) :
    lastVm (message :: ms) hash = lastVm ms hash := by
  refine List.find?_cons_of_neg ?_
  rw [decide_eq_true_eq]
  rintro ⟨he, htype⟩
  exact htype.elim (h he).1 (h he).2

/-- A message that stores no virtual machine, and leaves their rows and owners alone. -/
theorem OwnersAgree.elsewhere (h : OwnersAgree env ms n) (hprogram : message.messageType ≠ .program)
    (hinstance : message.messageType ≠ .instance) (hvms : ownedVms n' = ownedVms n)
    (hversions : n'.vmVersions = n.vmVersions)
    (hcosts : ∀ c ∈ n'.accountCosts, ∀ v ∈ vms n, c.itemHash = v.itemHash →
      ∃ d ∈ n.accountCosts, d.itemHash = c.itemHash ∧ d.owner = c.owner) : OwnersAgree env (message :: ms) n' := by
  intro x hx
  rw [hvms] at hx
  obtain ⟨hcontent, hversion, hown⟩ := h x hx
  refine ⟨?_, ?_, fun c hc he => ?_⟩
  · rwa [lastVm_cons fun _ => ⟨hprogram, hinstance⟩]
  · rwa [hversions]
  · obtain ⟨d, hd, hhash, howner⟩ := hcosts c hc x.2 (vms_of_ownedVms hx) he
    rw [← howner]
    exact hown d hd (hhash.trans he)

/-- The version rows after an upsert have the owners they had; a new one has that of the content. -/
theorem versionSet_owner {owner : Address} {currentVersion vmHash : ItemHash} {time : Timestamp} :
    (∀ row ∈ n.vmVersions, ∃ row' ∈ versionSet vmHash owner currentVersion time n,
      row'.vmHash = row.vmHash ∧ row'.owner = row.owner) ∧
    ∀ row' ∈ versionSet vmHash owner currentVersion time n,
      (∃ row ∈ n.vmVersions, row'.vmHash = row.vmHash ∧ row'.owner = row.owner) ∨
        row'.vmHash = vmHash ∧ row'.owner = owner ∧ ∀ row ∈ n.vmVersions, row.vmHash ≠ vmHash := by
  refine ⟨fun row hrow => ?_, fun row' hrow' => ?_⟩
  · by_cases he : row.vmHash = vmHash
    · exact ⟨_, Table.mem_upsert.2 (.inr (.inl ⟨row, hrow, he, rfl⟩)), rfl, rfl⟩
    · exact ⟨row, Table.mem_upsert.2 (.inl ⟨hrow, he⟩), rfl, rfl⟩
  · rcases Table.mem_upsert.1 hrow' with ⟨hrow, -⟩ | ⟨row, hrow, -, rfl⟩ | ⟨rfl, hnone⟩
    · exact .inl ⟨row', hrow, rfl, rfl⟩
    · exact .inl ⟨row, hrow, rfl, rfl⟩
    · exact .inr ⟨rfl, rfl, hnone⟩

/-- There is a version row for the hash afterwards. -/
theorem exists_versionSet {owner : Address} {currentVersion vmHash : ItemHash} {time : Timestamp} :
    ∃ row ∈ versionSet vmHash owner currentVersion time n, row.vmHash = vmHash := by
  by_cases hrow : ∃ row ∈ n.vmVersions, row.vmHash = vmHash
  · obtain ⟨row, hrow, he⟩ := hrow
    exact ⟨_, Table.mem_upsert.2 (.inr (.inl ⟨row, hrow, he, rfl⟩)), he⟩
  · push Not at hrow
    exact ⟨_, Table.mem_upsert.2 (.inr (.inr ⟨rfl, hrow⟩)), rfl⟩

/-- **A new virtual machine** keeps the agreement exactly if its sender, its content, the version row and the costs
that are there agree. -/
theorem OwnersAgree.store (h : OwnersAgree env ms n) {terms : VmTerms} {v : Vm} {time : Timestamp}
    {costs : List AccountCostRecord} (hterms : HasTerms env message terms) (hhash : v.itemHash = message.itemHash)
    (hreplaces : v.replaces = terms.replaces) (hfresh : ∀ w ∈ vms n, w.itemHash ≠ message.itemHash)
    (hvms : ∀ x, x ∈ ownedVms n' ↔ x ∈ ownedVms n ∨ x = (message.sender, v))
    (hversions : n'.vmVersions =
      versionSet (terms.replaces.getD message.itemHash) terms.address message.itemHash time n)
    (hcosts : n'.accountCosts = costsStored costs n.accountCosts)
    (howned : ∀ c ∈ costs, c.itemHash = message.itemHash ∧ c.owner = terms.address) :
    OwnersAgree env (message :: ms) n' ↔ KeepsOwners env message n := by
  constructor
  · intro hagree
    obtain ⟨hcontent, hversion, hcost⟩ := hagree _ ((hvms _).2 (.inr rfl))
    have hown : env.SameAddress message.sender terms.address := by
      obtain ⟨m, terms', hm, hterms', hsame⟩ := hcontent
      rw [hhash, lastVm_cons_self hterms.isVm] at hm
      obtain rfl := Option.some.inj hm
      rwa [hterms.unique hterms']
    refine ⟨?_, ?_, ?_, ?_⟩
    · intro terms' hterms'
      rwa [← hterms.unique hterms']
    · intro terms' hterms' row hrow he
      obtain rfl := hterms.unique hterms'
      obtain ⟨row', hrow', hvm, howner⟩ := hversion
      obtain ⟨row'', hrow'', hvm'', howner''⟩ := versionSet_owner.1 row hrow
      rw [← hversions] at hrow''
      have hsame : row' = row'' := by
        refine Table.eq_of_key hrow' hrow'' (hvm.trans ?_)
        rw [hvm'', he, hreplaces, hhash]
      rw [← howner'', ← hsame]
      exact hown.symm.trans howner
    · intro terms' hterms' c hc he
      obtain rfl := hterms.unique hterms'
      obtain ⟨d, hd, hdhash, hdowner⟩ := exists_mem_costsStored costs hc
      rw [← hcosts] at hd
      rw [← hdowner]
      exact hown.symm.trans (hcost d hd (hdhash.trans (he.trans hhash.symm)))
    · intro hforget
      rcases hterms.isVm with htype | htype
      · exact absurd (htype.symm.trans hforget) (by decide)
      · exact absurd (htype.symm.trans hforget) (by decide)
  · intro hkeeps x hx
    have hown := hkeeps.own terms hterms
    rcases (hvms x).1 hx with hold | rfl
    · -- what was there keeps its version row and its costs
      obtain ⟨hcontent, ⟨row, hrow, hvm, howner⟩, hcost⟩ := h x hold
      have hne := hfresh x.2 (vms_of_ownedVms hold)
      refine ⟨?_, ?_, fun c hc he => ?_⟩
      · rwa [lastVm_cons fun he => absurd he.symm hne]
      · obtain ⟨row', hrow', hvm', howner'⟩ := versionSet_owner.1 row hrow
        rw [← hversions] at hrow'
        exact ⟨row', hrow', hvm'.trans hvm, howner' ▸ howner⟩
      · rw [hcosts] at hc
        rcases of_mem_costsStored hc with ⟨d, hd, hdhash, hdowner⟩ | ⟨d, hd, hdhash, -⟩
        · rw [← hdowner]
          exact hcost d hd (hdhash.trans he)
        · exact absurd (he.symm.trans (hdhash.symm.trans (howned d hd).1)) hne
    · refine ⟨⟨message, terms, ?_, hterms, hown⟩, ?_, fun c hc he => ?_⟩
      · show lastVm (message :: ms) v.itemHash = some message
        rw [hhash]
        exact lastVm_cons_self hterms.isVm
      · obtain ⟨row', hrow', hvm'⟩ : ∃ row ∈ versionSet (terms.replaces.getD message.itemHash) terms.address
            message.itemHash time n, row.vmHash = terms.replaces.getD message.itemHash := exists_versionSet
        refine ⟨row', hversions ▸ hrow', ?_, ?_⟩
        · show row'.vmHash = v.replaces.getD v.itemHash
          rw [hvm', hreplaces, hhash]
        · rcases versionSet_owner.2 row' hrow' with ⟨row, hrow, hvm, howner⟩ | ⟨-, howner, -⟩
          · rw [howner]
            exact hown.trans (hkeeps.versions terms hterms row hrow (hvm.symm.trans hvm'))
          · rw [howner]
            exact hown
      · rw [hcosts] at hc
        rcases of_mem_costsStored hc with ⟨d, hd, hdhash, hdowner⟩ | ⟨d, hd, -, hdowner⟩
        · rw [← hdowner]
          exact hown.trans (hkeeps.costs terms hterms d hd (hdhash.trans (he.trans hhash)))
        · rw [← hdowner, (howned d hd).2]
          exact hown

/-- The owned virtual machines once a program is recorded, and once an instance is. -/
theorem mem_ownedVms_program {content : ProgramContent} {ctx : HandlerContext} {receptionTime : Timestamp}
    (hfresh : Fresh n message.itemHash) {x : Address × Vm} :
    x ∈ ownedVms (stored env message receptionTime (ProgramHandler.recorded message content ctx n)) ↔
      x ∈ ownedVms n ∨ x = (message.sender, .ofProgram (ProgramHandler.rowOf message content)) := by
  have hrow : ∀ p, p ∈ (ProgramHandler.recorded message content ctx n).programs ↔
      p ∈ n.programs ∨ p = ProgramHandler.rowOf message content :=
    fun p => mem_insertNew_fresh hfresh.programs
  constructor
  · rintro (⟨p, hp, rfl⟩ | hi)
    · rcases (hrow p).1 hp with hp | rfl
      · exact .inl (.inl ⟨p, hp, rfl⟩)
      · exact .inr rfl
    · exact .inl (.inr hi)
  · rintro ((⟨p, hp, rfl⟩ | hi) | rfl)
    · exact .inl ⟨p, (hrow p).2 (.inl hp), rfl⟩
    · exact .inr hi
    · exact .inl ⟨_, (hrow _).2 (.inr rfl), rfl⟩

theorem mem_ownedVms_instance {content : InstanceContent} {ctx : HandlerContext} {receptionTime : Timestamp}
    (hfresh : Fresh n message.itemHash) {x : Address × Vm} :
    x ∈ ownedVms (stored env message receptionTime (InstanceHandler.recorded message content ctx n)) ↔
      x ∈ ownedVms n ∨ x = (message.sender, .ofInstance (InstanceHandler.rowOf message content)) := by
  have hrow : ∀ i, i ∈ (InstanceHandler.recorded message content ctx n).instances ↔
      i ∈ n.instances ∨ i = InstanceHandler.rowOf message content :=
    fun i => mem_insertNew_fresh hfresh.instances
  constructor
  · rintro (hp | ⟨i, hi, rfl⟩)
    · exact .inl (.inl hp)
    · rcases (hrow i).1 hi with hi | rfl
      · exact .inl (.inr ⟨i, hi, rfl⟩)
      · exact .inr rfl
  · rintro ((hp | ⟨i, hi, rfl⟩) | rfl)
    · exact .inl hp
    · exact .inr ⟨i, (hrow i).2 (.inl hi), rfl⟩
    · exact .inr ⟨_, (hrow _).2 (.inr rfl), rfl⟩

/-- What a FORGET leaves of the owned virtual machines. -/
theorem mem_ownedVms_gone {ts : List Target} {gone : List ItemHash} (hgone : TargetsGone ts gone n n')
    (x : Address × Vm) : x ∈ ownedVms n' ↔ x ∈ ownedVms n ∧ ∀ t ∈ ts, ¬ x.2.TakenBy t := by
  constructor
  · rintro (⟨p, hp, rfl⟩ | ⟨i, hi, rfl⟩)
    · obtain ⟨hp, hleft⟩ := (hgone.programs p).1 hp
      exact ⟨.inl ⟨p, hp, rfl⟩, hleft⟩
    · obtain ⟨hi, hleft⟩ := (hgone.instances i).1 hi
      exact ⟨.inr ⟨i, hi, rfl⟩, hleft⟩
  · rintro ⟨⟨p, hp, rfl⟩ | ⟨i, hi, rfl⟩, hleft⟩
    · exact .inl ⟨p, (hgone.programs p).2 ⟨hp, hleft⟩, rfl⟩
    · exact .inr ⟨i, (hgone.instances i).2 ⟨hi, hleft⟩, rfl⟩

theorem exists_owned {v : Vm} (hv : v ∈ vms n) : ∃ owner, (owner, v) ∈ ownedVms n := by
  rcases hv with ⟨p, hp, rfl⟩ | ⟨i, hi, rfl⟩
  · exact ⟨_, .inl ⟨p, hp, rfl⟩⟩
  · exact ⟨_, .inr ⟨i, hi, rfl⟩⟩

/-- **A FORGET** keeps the agreement exactly if no version row goes without what falls under it. -/
theorem OwnersAgree.forget (h : OwnersAgree env ms n) (htype : message.messageType = .forget) {ts : List Target}
    {gone : List ItemHash} (hgone : TargetsGone ts gone n n') :
    OwnersAgree env (message :: ms) n' ↔ ∀ v ∈ vms n, (∀ t ∈ ts, ¬ v.TakenBy t) →
      ∀ t ∈ ts, ¬ t.TakesVmData (v.replaces.getD v.itemHash) := by
  have hlast : ∀ hash, lastVm (message :: ms) hash = lastVm ms hash := fun hash =>
    lastVm_cons fun _ => by simp [htype]
  constructor
  · intro hagree v hv hleft
    obtain ⟨owner, howned⟩ := exists_owned hv
    obtain ⟨-, ⟨row, hrow, hvm, -⟩, -⟩ := hagree _ ((mem_ownedVms_gone hgone _).2 ⟨howned, hleft⟩)
    rw [← hvm]
    exact ((hgone.versions row).1 hrow).2
  · intro hspared x hx
    obtain ⟨hx, hleft⟩ := (mem_ownedVms_gone hgone x).1 hx
    obtain ⟨hcontent, ⟨row, hrow, hvm, howner⟩, hcost⟩ := h x hx
    refine ⟨?_, ⟨row, (hgone.versions row).2 ⟨hrow, ?_⟩, hvm, howner⟩, fun c hc => hcost c ((hgone.costs c).1 hc).1⟩
    · rwa [hlast]
    · rw [hvm]
      exact hspared x.2 (vms_of_ownedVms hx) hleft

/-- A message without a virtual machine, and no FORGET, has nothing to keep. -/
theorem KeepsOwners.of_type (hprogram : message.messageType ≠ .program) (hinstance : message.messageType ≠ .instance)
    (hforget : message.messageType ≠ .forget) : KeepsOwners env message n := by
  have hnone : ∀ terms, ¬ HasTerms env message terms := fun terms h => h.isVm.elim hprogram hinstance
  exact ⟨fun terms h => absurd h (hnone terms), fun terms h => absurd h (hnone terms),
    fun terms h => absurd h (hnone terms), fun h => absurd h hforget⟩

/-- **One message** keeps the agreement exactly if it meets the condition; the cost service is that of the node, or
none. -/
theorem DeliveredBy.ownersAgree {ctx : ProcessorContext} (h : DeliveredBy ctx message n n')
    (hservice : ctx.cost = none ∨ ctx.cost = some .new) (hagree : OwnersAgree ctx.env ms n) :
    OwnersAgree ctx.env (message :: ms) n' ↔ KeepsOwners ctx.env message n := by
  obtain ⟨trustedSource, receptionTime, n₁, heffect, rfl⟩ := h.accepted.effect
  have helsewhere : message.messageType ≠ .program → message.messageType ≠ .instance →
      message.messageType ≠ .forget → n₁.programs = n.programs → n₁.instances = n.instances →
      n₁.vmVersions = n.vmVersions → (∀ c ∈ n₁.accountCosts, ∀ v ∈ vms n, c.itemHash = v.itemHash →
        ∃ d ∈ n.accountCosts, d.itemHash = c.itemHash ∧ d.owner = c.owner) →
      (OwnersAgree ctx.env (message :: ms) (stored ctx.env message receptionTime n₁) ↔
        KeepsOwners ctx.env message n) := by
    intro hprogram hinstance hforget hprograms hinstances hversions hcosts
    exact iff_of_true (hagree.elsewhere hprogram hinstance (ownedVms_congr hprograms hinstances) hversions hcosts)
      (.of_type hprogram hinstance hforget)
  cases heffect with
  | aggregate content htype =>
    obtain ⟨as, has⟩ := processed_eq (AggregateHandler.elementOf message content) n
    obtain ⟨hprograms, hinstances, hversions, hcosts⟩ :
        (AggregateHandler.processed (AggregateHandler.elementOf message content) n).programs = n.programs ∧
          (AggregateHandler.processed (AggregateHandler.elementOf message content) n).instances = n.instances ∧
          (AggregateHandler.processed (AggregateHandler.elementOf message content) n).vmVersions = n.vmVersions ∧
          (AggregateHandler.processed (AggregateHandler.elementOf message content) n).accountCosts =
            n.accountCosts := by
      rw [has, AggregateHandler.storeElement]
      split_ifs <;> exact ⟨rfl, rfl, rfl, rfl⟩
    exact helsewhere (by simp [htype]) (by simp [htype]) (by simp [htype]) hprograms hinstances hversions
      fun c hc _ _ _ => ⟨c, hcosts ▸ hc, rfl, rfl⟩
  | post content htype hparse horiginal =>
    exact helsewhere (by simp [htype]) (by simp [htype]) (by simp [htype]) rfl rfl rfl
      fun c hc _ _ _ => ⟨c, hc, rfl, rfl⟩
  | amend content originalHash target htype =>
    exact helsewhere (by simp [htype]) (by simp [htype]) (by simp [htype]) rfl rfl rfl
      fun c hc _ _ _ => ⟨c, hc, rfl, rfl⟩
  | store content htype hparse hclash =>
    refine helsewhere (by simp [htype]) (by simp [htype]) (by simp [htype]) rfl rfl rfl fun c hc v hv he => ?_
    rcases of_mem_charged hc with hold | ⟨-, hnew⟩
    · exact hold
    · exact absurd (he.symm.trans hnew) (h.fresh.vms v hv)
  | program content htype hparse hvalid =>
    have hterms : HasTerms ctx.env message ⟨content.address, content.allowAmend, content.replaces⟩ :=
      .program content htype hparse
    refine hagree.store (v := .ofProgram (ProgramHandler.rowOf message content)) hterms rfl rfl h.fresh.vms
      (fun x => mem_ownedVms_program h.fresh) rfl rfl fun c hc => ?_
    rcases hservice with hnone | hsome
    · simp [ProgramHandler.costs, createHandlerContext, hnone] at hc
    · simp only [ProgramHandler.costs, createHandlerContext, hsome, Option.map_some, Option.getD_some] at hc
      exact ⟨CostService.programCosts_itemHash c hc, CostService.bill_programCosts.owned c hc⟩
  | «instance» content htype hparse hvalid =>
    have hterms : HasTerms ctx.env message ⟨content.address, content.allowAmend, content.replaces⟩ :=
      .instance content htype hparse
    refine hagree.store (v := .ofInstance (InstanceHandler.rowOf message content)) hterms rfl rfl h.fresh.vms
      (fun x => mem_ownedVms_instance h.fresh) rfl rfl fun c hc => ?_
    rcases hservice with hnone | hsome
    · simp [InstanceHandler.costs, createHandlerContext, hnone] at hc
    · simp only [InstanceHandler.costs, createHandlerContext, hsome, Option.map_some, Option.getD_some] at hc
      exact ⟨CostService.instanceCosts_itemHash c hc, CostService.bill_instanceCosts.owned c hc⟩
  | forget content htype hparse hvalidate =>
    have hgone := hashesForgotten_gone message content (createHandlerContext ctx trustedSource) content.hashes n
    have hforget := hagree.forget htype hgone
    refine (Iff.trans ?_ hforget).trans ⟨fun hspared => ⟨?_, ?_, ?_, fun _ content' hparse' => ?_⟩,
      fun hkeeps => hkeeps.spared htype content hparse⟩
    · exact ⟨fun h x hx => ⟨(h x hx).content, (h x hx).version, (h x hx).costs⟩,
        fun h x hx => ⟨(h x hx).content, (h x hx).version, (h x hx).costs⟩⟩
    · exact fun terms hterms => absurd hterms.isVm (by simp [htype])
    · exact fun terms hterms => absurd hterms.isVm (by simp [htype])
    · exact fun terms hterms => absurd hterms.isVm (by simp [htype])
    · obtain rfl := Except.ok.inj (hparse.symm.trans hparse')
      exact hspared

/-! ## Runs -/

/-- A message is accepted, by a node with the cost service or without one, that keeps the owners in agreement. -/
def OwnerStep (env : Env) (x y : List Message × Node) : Prop :=
  ∃ ctx message, ctx.env = env ∧ (ctx.cost = none ∨ ctx.cost = some .new) ∧ DeliveredBy ctx message x.2 y.2 ∧
    y.1 = message :: x.1 ∧ KeepsOwners env message x.2

/-- **In a run whose virtual machines are sent by their own addresses, and amended by the addresses they have, the
owner columns, the version rows and the costs agree**; the next message keeps that so exactly if it meets the
condition as well. -/
theorem ownersAgree_of_run {n₀ : Node} (hempty : ∀ v, v ∉ vms n₀)
    (hrun : Relation.ReflTransGen (OwnerStep env) ([], n₀) (ms, n)) :
    OwnersAgree env ms n ∧ ∀ ctx message n', ctx.env = env → (ctx.cost = none ∨ ctx.cost = some .new) →
      DeliveredBy ctx message n n' → (OwnersAgree env (message :: ms) n' ↔ KeepsOwners env message n) := by
  have hinv : ∀ y, Relation.ReflTransGen (OwnerStep env) ([], n₀) y → OwnersAgree env y.1 y.2 := by
    intro y hy
    induction hy with
    | refl => exact fun x hx => absurd (vms_of_ownedVms hx) (hempty x.2)
    | tail _ hstep ih =>
      obtain ⟨ctx, message, rfl, hservice, hdelivered, hms, hkeeps⟩ := hstep
      rw [hms]
      exact (hdelivered.ownersAgree hservice ih).2 hkeeps
  refine ⟨hinv _ hrun, ?_⟩
  rintro ctx message n' rfl hservice hdelivered
  exact hdelivered.ownersAgree hservice (hinv _ hrun)

/-! ### The owner's program, and a delegate's -/

section Delegated

theorem firstProgram_terms : HasTerms vmCtx.env firstProgram ⟨fileOwner, true, none⟩ :=
  .program (programContent none 1700000010) rfl (parseContent_ok.2 ⟨_, rfl, fromStr_firstProgram⟩)

/-- The owner stores the file and a program that runs it. -/
theorem withProgram_ownersAgree : OwnersAgree vmCtx.env [firstProgram, firstStore] withProgram := by
  have hkeeps : KeepsOwners vmCtx.env firstProgram fileStored := by
    refine ⟨fun terms h => ?_, fun terms h row hrow => ?_, fun terms h c hc => ?_, fun htype => ?_⟩
    · rw [h.unique firstProgram_terms]
      rfl
    · exact absurd hrow (show row ∉ fileStored.vmVersions.rows from List.not_mem_nil)
    · exact absurd hc (show c ∉ fileStored.accountCosts.rows from List.not_mem_nil)
    · exact absurd htype (by decide)
  have hstore : KeepsOwners vmCtx.env firstStore .empty := .of_type (by decide) (by decide) (by decide)
  have hfirst : OwnerStep vmCtx.env ([], .empty) ([firstStore], fileStored) :=
    ⟨vmCtx, firstStore, rfl, .inr rfl, delivered_store, rfl, hstore⟩
  have hsecond : OwnerStep vmCtx.env ([firstStore], fileStored) ([firstProgram, firstStore], withProgram) :=
    ⟨vmCtx, firstProgram, rfl, .inr rfl, delivered_firstProgram, rfl, hkeeps⟩
  exact (ownersAgree_of_run empty_not_mem_vms ((Relation.ReflTransGen.single hfirst).tail hsecond)).1

def vmDelegate : Address := "0x0D0d7F290fA600cfC6a6aE2Ef69a8be4c8bAFF1B"

/-- The owner lets the delegate send messages. -/
def delegationText : String :=
  "\x7b\"address\":\"" ++ fileOwner ++ "\",\"key\":\"security\",\"content\":\x7b\"authorizations\":[\x7b\"address\":\"" ++
    vmDelegate ++ "\"\x7d]\x7d,\"time\":1700000000\x7d"

def delegationJson : Json := .obj [("authorizations", .arr [.obj [("address", .str vmDelegate)]])]

def delegationContent : AggregateContent := ⟨fileOwner, "security", delegationJson.toValue, 1700000000⟩

def delegation : Message :=
  ownerMessage .aggregate "a5d24de29d9805eb1fb95c36097207b6f27cdc71dcd56b7a3c143749f1f7935d" delegationText

/-- The program of the owner, sent and signed by the delegate. -/
def delegatedProgram : Message :=
  { firstProgram with
    sender := vmDelegate
    itemType := .inline
    signature := "0xf5023a60c14a0e8f2a551979cea6265d1ddb8171c90c97b19d7aedeb2150220c32c4d8e4f0b88bd03cc09febd89f1d3c6c" ++
      "f42fc21c5382f22924899d101f26f91b" }

def delegatedCtx : ProcessorContext where
  env := .ofTables [(storeText "1700000000", storeJson 1700000000),
      (delegationText, .obj [("address", .str fileOwner), ("key", .str "security"), ("content", delegationJson),
        ("time", .num (.int 1700000000))]),
      (firstProgramText, .obj (programFields [] 1700000010))]
    [(firstProgramText, programHash)]
    [("ETH\n" ++ vmDelegate ++ "\nPROGRAM\n" ++ programHash, delegatedProgram.signature, vmDelegate)]
  order := .stored
  now := 1700000200
  cost := some .new
  ipfsGet := fun _ => .error "not found"

example : delegatedProgram.verifySignature delegatedCtx.env = .ok true := by decide +kernel

/-- The node with the file, with the delegation, and with the program. -/
def delegatedFile : Node := stored delegatedCtx.env firstStore 1700000200
  (StoreHandler.recorded firstStore (storeContent 1700000000) (createHandlerContext delegatedCtx true) .empty)

def delegatedNode : Node := stored delegatedCtx.env delegation 1700000200
  (AggregateHandler.processed (AggregateHandler.elementOf delegation delegationContent) delegatedFile)

def delegatedVm : Node := stored delegatedCtx.env delegatedProgram 1700000200
  (ProgramHandler.recorded delegatedProgram (programContent none 1700000010)
    (createHandlerContext delegatedCtx false) delegatedNode)

theorem delivered_delegatedFile : DeliveredBy delegatedCtx firstStore .empty delegatedFile :=
  delivered_store_by (by decide +kernel)

theorem delivered_delegation : DeliveredBy delegatedCtx delegation delegatedFile delegatedNode := by
  have hparse : ∀ {f : String → String}, parseContent delegatedCtx.env AggregateContent.decode f delegation =
      .ok delegationContent := parseContent_ok.2 ⟨delegationText, rfl, by decide +kernel⟩
  refine ⟨by decide +kernel, acceptedBy_of_trusted _ rfl rfl ?_⟩
  refine exec_processMessage_stages.2 ⟨?_, exec_pure_ok.2 ⟨rfl, rfl⟩, exec_pure_ok.2 ⟨rfl, rfl⟩, ?_⟩
  · refine exec_fromExcept_bind_ok.2 ⟨delegationContent, hparse, ?_⟩
    rw [if_neg (show delegationContent.key ≠ "" by decide)]
    exact exec_pure_ok.2 ⟨rfl, rfl⟩
  · exact exec_fromExcept_bind_ok.2 ⟨delegationContent, hparse, AggregateHandler.exec_processElement_ok.2 rfl⟩

example : delegatedNode.messages.rows.map MessageRow.itemHash = [firstStore.itemHash, delegation.itemHash] := by
  decide +kernel

/-- An entry without filters lets its address send every message. -/
theorem matches_unfiltered {sender : Address} :
    Permissions.SecurityAuthorization.matches env ⟨sender, none, [], [], [], []⟩ sender message = true := by
  simp [Permissions.SecurityAuthorization.matches, Env.SameAddress]

theorem delegatedNode_authorizes :
    Permissions.Authorizes delegatedCtx.env delegatedNode fileOwner vmDelegate delegatedProgram := by
  have hrow : ⟨fileOwner, "security", delegationJson.toValue, 1700000000, false, some delegation.itemHash⟩ ∈
      delegatedNode.aggregates.rows := by decide +kernel
  have hdecode : Permissions.decodeAuthorizations delegationJson.toValue.json =
      .ok [⟨vmDelegate, none, [], [], [], []⟩] := by decide +kernel
  exact ⟨_, hrow, rfl, _, hdecode, _, List.mem_singleton_self _, matches_unfiltered⟩

theorem delegatedNode_permits : Permissions.Permits delegatedCtx.env delegatedNode delegatedProgram := by
  have haddress : delegatedCtx.env.contentStr? firstProgramText "address" = some fileOwner := by decide +kernel
  have hjson : delegatedCtx.env.parseJson firstProgramText = .ok (.obj (programFields [] 1700000010)) := by
    decide +kernel
  have htarget : Permissions.amendTargetOf delegatedCtx.env delegatedNode delegatedProgram
      (.obj (programFields [] 1700000010)) = none := by
    rw [Permissions.amendTargetOf, if_neg fun h => absurd h.1 (by decide)]
  refine (Permissions.permits_iff rfl haddress).2 (.inr ⟨_, hjson, ?_⟩)
  rw [htarget]
  exact delegatedNode_authorizes

theorem delegatedProgram_unrejected : rejection delegatedCtx false delegatedProgram = none := by
  have hsignature : delegatedProgram.verifySignature delegatedCtx.env = .ok true := by decide +kernel
  have hhash : delegatedProgram.verifyItemHash delegatedCtx.env = .ok true := by
    have hdigest : delegatedCtx.env.sha256Hex firstProgramText.toUTF8 = programHash := by
      simp only [delegatedCtx, Env.ofTables_sha256Hex]
      decide +kernel
    show Except.ok (decide (delegatedCtx.env.sha256Hex firstProgramText.toUTF8 = programHash)) = _
    rw [hdigest, decide_eq_true rfl]
  have hinline : delegatedProgram.itemType = .inline := rfl
  rw [rejection, signatureRejection, hashRejection, if_neg Bool.false_ne_true, hsignature, if_pos hinline, hhash]
  rfl

example : delegatedVm.programs.rows.map ProgramRow.itemHash = [delegatedProgram.itemHash] := by decide +kernel

theorem fromStr_delegatedProgram :
    delegatedCtx.env.fromStr ProgramContent.decode firstProgramText = .ok (programContent none 1700000010) := by
  decide +kernel

/-- The program of the delegate passes all checks of an untrusted message. -/
theorem delivered_delegatedProgram : DeliveredBy delegatedCtx delegatedProgram delegatedNode delegatedVm := by
  have hpermitted : Exec (ProgramHandler.handler.permissionStage delegatedProgram
      (createHandlerContext delegatedCtx false)).run delegatedNode (.ok ()) delegatedNode :=
    exec_permissionStage_permitted rfl delegatedNode_permits
  have hvalid : ProgramHandler.Valid (programContent none 1700000010) delegatedNode :=
    programContent_valid (by decide +kernel) fun o ho => nomatch ho
  have hparse : ProgramHandler.parseContent delegatedCtx.env delegatedProgram = .ok (programContent none 1700000010) :=
    parseContent_ok.2 ⟨_, rfl, fromStr_delegatedProgram⟩
  exact ⟨by decide +kernel, acceptedBy_of_unrejected _ rfl delegatedProgram_unrejected
    (ProgramHandler.exec_processMessage rfl hparse hvalid rfl hpermitted)⟩

/-- **The program of an authorized delegate has two owners**: its row names the delegate, its version row and its
content the owner. -/
theorem delegate_owns :
    DeliveredBy delegatedCtx firstStore .empty delegatedFile ∧
      DeliveredBy delegatedCtx delegation delegatedFile delegatedNode ∧
      Permissions.Authorizes delegatedCtx.env delegatedNode fileOwner vmDelegate delegatedProgram ∧
      DeliveredBy delegatedCtx delegatedProgram delegatedNode delegatedVm ∧
      ¬ OwnersAgree delegatedCtx.env [delegatedProgram, delegation, firstStore] delegatedVm := by
  refine ⟨delivered_delegatedFile, delivered_delegation, delegatedNode_authorizes, delivered_delegatedProgram, ?_⟩
  intro hagree
  have hrow : ProgramHandler.rowOf delegatedProgram (programContent none 1700000010) ∈ delegatedVm.programs.rows := by
    decide +kernel
  have hversions : ∀ row ∈ delegatedVm.vmVersions.rows, ¬ delegatedCtx.env.SameAddress vmDelegate row.owner := by
    decide +kernel
  obtain ⟨-, ⟨row, hmem, -, hsame⟩, -⟩ := hagree _ (.inl ⟨_, hrow, rfl⟩)
  exact hversions row hmem hsame

end Delegated

end AlephCore.MessageProcessor
