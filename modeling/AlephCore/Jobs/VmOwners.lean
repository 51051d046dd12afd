import AlephCore.Jobs.VmVersions

/-!
# VmOwners — who may amend a virtual machine

`validate_amendment` asks whether a virtual machine may be amended, and the permission check whether the sender
may act for the address of the amendment.  Nothing compares that address with the owner in the version row: a
virtual machine that allows amendments can be amended by every address, one that does not by none.
-/

namespace AlephCore.MessageProcessor

open ProgE Prog Serde ForgetHandler PgDatabase

/-! ## What virtual machines say -/

/-- What the content of a PROGRAM or INSTANCE message says about amendments. -/
structure VmTerms where
  address : Address
  allowAmend : Bool
  replaces : Option ItemHash

/-- A PROGRAM or INSTANCE message, and what it says. -/
inductive HasTerms (env : Env) (message : Message) : VmTerms → Prop
  | program (content : ProgramContent) (htype : message.messageType = .program)
      (hparse : ProgramHandler.parseContent env message = .ok content) :
      HasTerms env message ⟨content.address, content.allowAmend, content.replaces⟩
  | instance (content : InstanceContent) (htype : message.messageType = .instance)
      (hparse : InstanceHandler.parseContent env message = .ok content) :
      HasTerms env message ⟨content.address, content.allowAmend, content.replaces⟩

/-- The message is a virtual machine that allows amendments. -/
def AllowsAmend (env : Env) (message : Message) : Prop := ∃ terms, HasTerms env message terms ∧ terms.allowAmend = true

/-- The message passes the checks of its handler. -/
structure PassesChecks (message : Message) (ctx : HandlerContext) (n : Node) : Prop where
  valid : Exec ((handlerOf message.messageType).validate message ctx).run n (.ok ()) n
  permitted : Exec ((handlerOf message.messageType).checkPermissions message ctx).run n (.ok ()) n
  covered : Exec ((handlerOf message.messageType).checkBalance message ctx).run n (.ok ()) n

/-- An amendment by a stranger: the content of the message under the address of another sender, at any time and
without a payment. -/
inductive Imitates (env : Env) (message amendment : Message) : Prop
  | program (content : ProgramContent) (time : Timestamp) (htype : message.messageType = .program)
      (hparse : ProgramHandler.parseContent env message = .ok content) (htype' : amendment.messageType = .program)
      (hparse' : ProgramHandler.parseContent env amendment = .ok { content with
        address := amendment.sender, replaces := some message.itemHash, payment := none, time })
      (hstranger : ¬ env.SameAddress amendment.sender content.address)
  | instance (content : InstanceContent) (time : Timestamp) (htype : message.messageType = .instance)
      (hparse : InstanceHandler.parseContent env message = .ok content) (htype' : amendment.messageType = .instance)
      (hparse' : InstanceHandler.parseContent env amendment = .ok { content with
        address := amendment.sender, replaces := some message.itemHash, payment := none, time })
      (hstranger : ¬ env.SameAddress amendment.sender content.address)

/-! ## Who decides -/

/-- An untrusted amendment that passes has the address of the owner, and no other message changes a current
version. -/
structure OwnersDecide (env : Env) (n : Node) : Prop where
  amends : ∀ message (ctx : HandlerContext), ctx.env = env → PassesChecks message ctx n →
    ∀ terms, HasTerms env message terms → ∀ v, terms.replaces = some v →
      ∃ row ∈ n.vmVersions, row.vmHash = v ∧ env.SameAddress terms.address row.owner
  changes : ∀ message n', Delivered env message n n' → ∀ row ∈ n.vmVersions, ∀ row' ∈ n'.vmVersions,
    row'.vmHash = row.vmHash → row'.currentVersion ≠ row.currentVersion →
      ∃ terms, HasTerms env message terms ∧ env.SameAddress terms.address row.owner

/-- No stored virtual machine allows amendments, and every version row is that of a stored original. -/
structure Closed (n : Node) : Prop where
  programs : ∀ p ∈ n.programs, p.allowAmend = false
  instances : ∀ i ∈ n.instances, i.allowAmend = false
  rooted : ∀ row ∈ n.vmVersions, ∃ v ∈ vms n, v.itemHash = row.vmHash ∧ v.replaces = none

variable {env : Env} {message amendment : Message} {ctx : HandlerContext} {n n' : Node}

theorem Closed.not_amendAllowed (h : Closed n) (v : ItemHash) : amendAllowed v n ≠ some true := by
  have hfound : ∀ hash, ((n.instances.find? hash).map InstanceRow.allowAmend).or
      ((n.programs.find? hash).map ProgramRow.allowAmend) ≠ some true := by
    intro hash
    cases hi : n.instances.find? hash with
    | some i => simp [h.instances i (Table.find?_eq_some.1 hi).1]
    | none =>
      cases hp : n.programs.find? hash with
      | some p => simp [h.programs p (Table.find?_eq_some.1 hp).1]
      | none => simp
  unfold amendAllowed
  cases n.vmVersions.find? v with
  | none => simp
  | some row =>
    cases hcurrent : row.currentVersion with
    | none => simpa only [hcurrent] using hfound v
    | some currentVersion => simpa only [hcurrent] using hfound currentVersion

/-- What a valid virtual machine replaces allows it. -/
theorem PassesChecks.amendAllowed (h : PassesChecks message ctx n) {terms : VmTerms}
    (hterms : HasTerms ctx.env message terms) {v : ItemHash} (hv : terms.replaces = some v) :
    amendAllowed v n = some true := by
  have hvalid := h.valid
  cases hterms with
  | program content htype hparse =>
    rw [htype] at hvalid
    obtain ⟨content', hparse', hvalid, -⟩ := ProgramHandler.exec_validate_ok.1 hvalid
    obtain rfl := Except.ok.inj (hparse.symm.trans hparse')
    exact (hvalid.replaces v hv).2
  | «instance» content htype hparse =>
    rw [htype] at hvalid
    obtain ⟨content', hparse', hvalid⟩ := InstanceHandler.exec_validate_valid hvalid
    obtain rfl := Except.ok.inj (hparse.symm.trans hparse')
    exact (hvalid.replaces v hv).2

/-- An untrusted message that passes the checks is processed. -/
theorem PassesChecks.processed (h : PassesChecks message ctx n) (huntrusted : ctx.trustedSource = false)
    (hprocess : Exec ((handlerOf message.messageType).process message ctx).run n (.ok ()) n') :
    Exec (processMessage message ctx) n .processed n' := by
  refine exec_processMessage_stages.2 ⟨h.valid, ?_, h.covered, hprocess⟩
  unfold MessageHandler.permissionStage
  rw [if_neg (by simp [huntrusted])]
  exact h.permitted

/-! ## One message -/

theorem Closed.congr (h : Closed n) (hprograms : n'.programs = n.programs) (hinstances : n'.instances = n.instances)
    (hversions : n'.vmVersions = n.vmVersions) : Closed n' := by
  have hvms : vms n' = vms n := by rw [vms, vms, hprograms, hinstances]
  refine ⟨?_, ?_, ?_⟩
  · rw [hprograms]
    exact h.programs
  · rw [hinstances]
    exact h.instances
  · rw [hversions, hvms]
    exact h.rooted

/-- **A FORGET** takes the version row of a virtual machine with it. -/
theorem Closed.forget (h : Closed n) {ts : List Target} {gone : List ItemHash} (hgone : TargetsGone ts gone n n') :
    Closed n' := by
  refine ⟨fun p hp => h.programs p ((hgone.programs p).1 hp).1,
    fun i hi => h.instances i ((hgone.instances i).1 hi).1, fun row hrow => ?_⟩
  obtain ⟨hrow, hstays⟩ := (hgone.versions row).1 hrow
  obtain ⟨v, hv, hhash, hnone⟩ := h.rooted row hrow
  refine ⟨v, (mem_vms_gone hgone v).2 ⟨hv, ?_⟩, hhash, hnone⟩
  rintro t ht (⟨-, hreplaces⟩ | ⟨htype, hthash⟩)
  · rw [hnone] at hreplaces
    cases hreplaces
  · exact hstays t ht ⟨htype ▸ isVm_of_mem_vms hv, hhash.symm.trans hthash⟩

/-- The version row of a new original. -/
theorem mem_versionSet_fresh {owner : Address} {time : Timestamp} {hash : ItemHash}
    (hnorow : ∀ row ∈ n.vmVersions, row.vmHash ≠ hash) {row : VmVersionRow} :
    row ∈ versionSet hash owner hash time n ↔ row ∈ n.vmVersions ∨ row = ⟨hash, owner, some hash, some time⟩ := by
  refine Table.mem_upsert.trans ⟨?_, ?_⟩
  · rintro (⟨hrow, -⟩ | ⟨s, hs, he, -⟩ | ⟨rfl, -⟩)
    · exact .inl hrow
    · exact absurd he (hnorow s hs)
    · exact .inr rfl
  · rintro (hrow | rfl)
    · exact .inl ⟨hrow, hnorow row hrow⟩
    · exact .inr (.inr ⟨rfl, hnorow⟩)

theorem Closed.norow (h : Closed n) (hfresh : Fresh n message.itemHash) :
    ∀ row ∈ n.vmVersions, row.vmHash ≠ message.itemHash := by
  intro row hrow he
  obtain ⟨v, hv, hhash, -⟩ := h.rooted row hrow
  exact hfresh.vms v hv (hhash.trans he)

/-- What an accepted message makes of a node whose virtual machines allow no amendments: nothing that concerns
them, or a new original. -/
inductive Outcome (env : Env) (message : Message) (n n' : Node) : Prop
  | kept (hprogram : message.messageType ≠ .program) (hinstance : message.messageType ≠ .instance)
      (hclosed : Closed n') (hversions : ∀ row ∈ n'.vmVersions, row ∈ n.vmVersions)
  | program (content : ProgramContent) (ctx : HandlerContext) (henv : ctx.env = env)
      (htype : message.messageType = .program) (hparse : ProgramHandler.parseContent env message = .ok content)
      (hvalid : ProgramHandler.Valid content n) (hnone : content.replaces = none)
      (receptionTime : Timestamp)
      (heq : n' = stored env message receptionTime (ProgramHandler.recorded message content ctx n))
  | instance (content : InstanceContent) (ctx : HandlerContext) (henv : ctx.env = env)
      (htype : message.messageType = .instance) (hparse : InstanceHandler.parseContent env message = .ok content)
      (hvalid : Exec (InstanceHandler.validate message ctx).run n (.ok ()) n) (hnone : content.replaces = none)
      (receptionTime : Timestamp)
      (heq : n' = stored env message receptionTime (InstanceHandler.recorded message content ctx n))

/-- **An accepted message keeps all virtual machines closed, or stores an original.** -/
theorem Closed.outcome (h : Closed n) (hd : Delivered env message n n') : Outcome env message n n' := by
  obtain ⟨ctx, rfl, hby⟩ := accepted_iff.1 hd.accepted
  obtain ⟨trustedSource, hctx, hctxeq, hvalidate, -, receptionTime, n₁, hprocess, hstored⟩ := hby.stages
  have henv : hctx.env = ctx.env := by rw [hctxeq]; rfl
  by_cases hprogram : message.messageType = .program
  · rw [hprogram] at hvalidate hprocess
    obtain ⟨content, hparse, hvalid, -⟩ := ProgramHandler.exec_validate_ok.1 hvalidate
    obtain ⟨content', hparse', rfl⟩ := ProgramHandler.exec_process_ok.1 hprocess
    obtain rfl := Except.ok.inj (hparse.symm.trans hparse')
    refine .program content hctx henv hprogram (henv ▸ hparse) hvalid ?_ receptionTime hstored
    exact Option.eq_none_iff_forall_ne_some.2 fun v hv => h.not_amendAllowed v (hvalid.replaces v hv).2
  by_cases hinstance : message.messageType = .instance
  · rw [hinstance] at hvalidate hprocess
    obtain ⟨content, hparse, hvalid⟩ := InstanceHandler.exec_validate_valid hvalidate
    obtain ⟨content', hparse', rfl⟩ := InstanceHandler.exec_process_ok.1 hprocess
    obtain rfl := Except.ok.inj (hparse.symm.trans hparse')
    refine .instance content hctx henv hinstance (henv ▸ hparse) hvalidate ?_ receptionTime hstored
    exact Option.eq_none_iff_forall_ne_some.2 fun v hv => h.not_amendAllowed v (hvalid.replaces v hv).2
  -- No other message stores a virtual machine.
  have hkept : ∀ {receptionTime n₁}, Closed n₁ → (∀ row ∈ n₁.vmVersions, row ∈ n.vmVersions) →
      Outcome ctx.env message n (stored ctx.env message receptionTime n₁) := fun hclosed hrows =>
    .kept hprogram hinstance (hclosed.congr rfl rfl rfl) hrows
  obtain ⟨trustedSource', receptionTime', n₂, heffect, rfl⟩ := hby.effect
  cases heffect with
  | aggregate content htype =>
    obtain ⟨as, has⟩ := processed_eq (AggregateHandler.elementOf message content) n
    rw [has, AggregateHandler.storeElement]
    split_ifs <;> exact hkept (h.congr rfl rfl rfl) fun _ hrow => hrow
  | post content htype hparse horiginal => exact hkept (h.congr rfl rfl rfl) fun _ hrow => hrow
  | amend content originalHash target htype => exact hkept (h.congr rfl rfl rfl) fun _ hrow => hrow
  | store content htype hparse hclash => exact hkept (h.congr rfl rfl rfl) fun _ hrow => hrow
  | program content htype hparse hvalid => exact absurd htype hprogram
  | «instance» content htype hparse hvalid => exact absurd htype hinstance
  | forget content htype hparse hvalidate =>
    have hgone := hashesForgotten_gone message content (createHandlerContext ctx trustedSource') content.hashes n
    exact hkept (h.forget hgone) fun row hrow => ((hgone.versions row).1 hrow).1

/-- A version row afterwards is one from before, or that of the message. -/
theorem Outcome.versions (hout : Outcome env message n n') {row : VmVersionRow} (hrow : row ∈ n'.vmVersions) :
    row ∈ n.vmVersions ∨ row.vmHash = message.itemHash := by
  have hset : ∀ {owner : Address} {time : Timestamp} {replaces : Option ItemHash}, replaces = none →
      row ∈ versionSet (replaces.getD message.itemHash) owner message.itemHash time n →
      row ∈ n.vmVersions ∨ row.vmHash = message.itemHash := by
    rintro owner time _ rfl hmem
    rcases Table.mem_upsert.1 hmem with ⟨hrow, -⟩ | ⟨s, -, he, rfl⟩ | ⟨rfl, -⟩
    · exact .inl hrow
    · exact .inr he
    · exact .inr rfl
  cases hout with
  | kept hprogram hinstance hclosed hversions => exact .inl (hversions row hrow)
  | program content ctx henv htype hparse hvalid hnone receptionTime heq =>
    subst heq
    exact hset hnone hrow
  | «instance» content ctx henv htype hparse hvalid hnone receptionTime heq =>
    subst heq
    exact hset hnone hrow

theorem Closed.ownersDecide (h : Closed n) : OwnersDecide env n := by
  refine ⟨fun message ctx henv hpasses terms hterms v hv => ?_,
    fun message n' hd row hrow row' hrow' hhash hne => ?_⟩
  · subst henv
    exact absurd (hpasses.amendAllowed hterms hv) (h.not_amendAllowed v)
  · rcases (h.outcome hd).versions hrow' with hold | hnew
    · rw [Table.eq_of_key hold hrow hhash] at hne
      exact absurd rfl hne
    · exact absurd (hhash.symm.trans hnew) (h.norow hd.fresh row hrow)

/-- A new original keeps all closed if the rows do. -/
theorem Closed.store (h : Closed n) (hfresh : Fresh n message.itemHash) {v : Vm} {owner : Address} {time : Timestamp}
    (hhash : v.itemHash = message.itemHash) (hnone : v.replaces = none) (hvms : vms n' = insert v (vms n))
    (hversions : n'.vmVersions = versionSet message.itemHash owner message.itemHash time n)
    (hprograms : ∀ p ∈ n'.programs, p.allowAmend = false) (hinstances : ∀ i ∈ n'.instances, i.allowAmend = false) :
    Closed n' := by
  refine ⟨hprograms, hinstances, fun row hrow => ?_⟩
  rw [hversions, mem_versionSet_fresh (h.norow hfresh)] at hrow
  rw [hvms]
  rcases hrow with hrow | rfl
  · obtain ⟨w, hw, hrest⟩ := h.rooted row hrow
    exact ⟨w, Set.mem_insert_of_mem _ hw, hrest⟩
  · exact ⟨v, Set.mem_insert _ _, hhash, hnone⟩

/-- **An accepted message that allows no amendments keeps all virtual machines closed.** -/
theorem Closed.delivered (h : Closed n) (hd : Delivered env message n n') (hallow : ¬ AllowsAmend env message) :
    Closed n' := by
  cases h.outcome hd with
  | kept hprogram hinstance hclosed => exact hclosed
  | program content ctx henv htype hparse hvalid hnone receptionTime heq =>
    have hfixed : content.allowAmend = false := by
      rw [← Bool.not_eq_true]
      exact fun ha => hallow ⟨_, .program content htype hparse, ha⟩
    have hversions : (ProgramHandler.recorded message content ctx n).vmVersions =
        versionSet message.itemHash content.address message.itemHash content.time n := by
      rw [ProgramHandler.recorded, hnone]
      rfl
    subst heq
    refine h.store hd.fresh rfl hnone (vms_recorded_program ctx hd.fresh) hversions (fun p hp => ?_) h.instances
    rcases (mem_insertNew_fresh hd.fresh.programs).1 hp with hp | rfl
    · exact h.programs p hp
    · exact hfixed
  | «instance» content ctx henv htype hparse hvalid hnone receptionTime heq =>
    have hfixed : content.allowAmend = false := by
      rw [← Bool.not_eq_true]
      exact fun ha => hallow ⟨_, .instance content htype hparse, ha⟩
    have hversions : (InstanceHandler.recorded message content ctx n).vmVersions =
        versionSet message.itemHash content.address message.itemHash content.time n := by
      rw [InstanceHandler.recorded, hnone]
      rfl
    subst heq
    refine h.store hd.fresh rfl hnone (vms_recorded_instance ctx hd.fresh) hversions h.programs (fun i hi => ?_)
    rcases (mem_insertNew_fresh hd.fresh.instances).1 hi with hi | rfl
    · exact h.instances i hi
    · exact hfixed

/-! ## Strangers -/

/-- Whether a new original may be amended is what its own row says. -/
theorem amendAllowed_fresh {hash : ItemHash} {owner : Address} {time : Timestamp}
    (hnorow : ∀ row ∈ n.vmVersions, row.vmHash ≠ hash)
    (hversions : n'.vmVersions = versionSet hash owner hash time n) :
    amendAllowed hash n' = ((n'.instances.find? hash).map InstanceRow.allowAmend).or
      ((n'.programs.find? hash).map ProgramRow.allowAmend) := by
  have hfind : n'.vmVersions.find? hash = some ⟨hash, owner, some hash, some time⟩ := by
    rw [hversions]
    exact Table.find?_eq_some.2 ⟨(mem_versionSet_fresh hnorow).2 (.inr rfl), rfl⟩
  unfold amendAllowed
  simp only [hfind]

/-- The terms of a message are its own. -/
theorem AllowsAmend.program {content : ProgramContent} (hallow : AllowsAmend env message)
    (htype : message.messageType = .program) (hparse : ProgramHandler.parseContent env message = .ok content) :
    content.allowAmend = true := by
  obtain ⟨terms, hterms, hallow⟩ := hallow
  cases hterms with
  | program content' _ hparse' =>
    obtain rfl := Except.ok.inj (hparse.symm.trans hparse')
    exact hallow
  | «instance» content' htype' =>
    rw [htype] at htype'
    cases htype'

theorem AllowsAmend.instance {content : InstanceContent} (hallow : AllowsAmend env message)
    (htype : message.messageType = .instance) (hparse : InstanceHandler.parseContent env message = .ok content) :
    content.allowAmend = true := by
  obtain ⟨terms, hterms, hallow⟩ := hallow
  cases hterms with
  | program content' htype' =>
    rw [htype] at htype'
    cases htype'
  | «instance» content' _ hparse' =>
    obtain rfl := Except.ok.inj (hparse.symm.trans hparse')
    exact hallow

/-- **A stranger's amendment of a new original that allows amendments passes all checks**, and the version row
names another owner. -/
theorem Closed.imitation_passes (h : Closed n) (hd : Delivered env message n n') (hallow : AllowsAmend env message)
    (himitates : Imitates env message amendment) {ctx : HandlerContext} (henv : ctx.env = env) :
    PassesChecks amendment ctx n' := by
  subst henv
  cases himitates with
  | program content time htype hparse htype' hparse' hstranger =>
    have hallowed := hallow.program htype hparse
    cases h.outcome hd with
    | kept hprogram => exact absurd htype hprogram
    | program content' ctx' henv' htype'' hparse'' hvalid hnone receptionTime heq =>
      obtain rfl := Except.ok.inj (hparse.symm.trans hparse'')
      have hversions : n'.vmVersions =
          versionSet message.itemHash content.address message.itemHash content.time n := by
        rw [heq, ProgramHandler.recorded, hnone]
        rfl
      have hrow : ProgramHandler.rowOf message content ∈ n'.programs := by
        rw [heq]
        exact (mem_insertNew_fresh hd.fresh.programs).2 (.inr rfl)
      have hamendable : amendAllowed message.itemHash n' = some true := by
        have hinstance : n'.instances.find? message.itemHash = none := by
          rw [heq]
          exact Table.find?_eq_none.2 hd.fresh.instances
        have hprogram : n'.programs.find? message.itemHash = some (ProgramHandler.rowOf message content) :=
          Table.find?_eq_some.2 ⟨hrow, rfl⟩
        rw [amendAllowed_fresh (h.norow hd.fresh) hversions, hinstance, hprogram]
        exact congrArg some hallowed
      have hvalid' : ProgramHandler.Valid { content with
          address := amendment.sender, replaces := some message.itemHash, payment := none, time } n' := by
        subst heq
        refine ⟨hvalid.memory, hvalid.vcpus, hvalid.pinned, hvalid.tagged, fun o ho => ?_⟩
        obtain rfl := Option.some.inj ho
        exact ⟨⟨_, hrow, rfl, hnone⟩, hamendable⟩
      refine ⟨?_, ?_, ?_⟩
      · rw [htype']
        exact ProgramHandler.exec_validate_ok.2 ⟨_, hparse', hvalid', rfl⟩
      · rw [htype']
        exact exec_checkPermissions_self hparse' ProgramContent.address_of_decode rfl
      · rw [htype']
        exact exec_fromExcept_bind_ok.2 ⟨_, hparse', exec_pure_ok.2 ⟨rfl, rfl⟩⟩
    | «instance» content' ctx' henv' htype'' =>
      rw [htype] at htype''
      cases htype''
  | «instance» content time htype hparse htype' hparse' hstranger =>
    have hallowed := hallow.instance htype hparse
    cases h.outcome hd with
    | kept hprogram hinstance => exact absurd htype hinstance
    | program content' ctx' henv' htype'' =>
      rw [htype] at htype''
      cases htype''
    | «instance» content' ctx' henv' htype'' hparse'' hvalidate hnone receptionTime heq =>
      obtain rfl := Except.ok.inj (hparse.symm.trans hparse'')
      obtain ⟨content', hparse₀, hmemory, hvcpus, hsize, hvalid, -⟩ := InstanceHandler.exec_validate_ok.1 hvalidate
      rw [henv'] at hparse₀
      obtain rfl := Except.ok.inj (hparse.symm.trans hparse₀)
      have hversions : n'.vmVersions =
          versionSet message.itemHash content.address message.itemHash content.time n := by
        rw [heq, InstanceHandler.recorded, hnone]
        rfl
      have hrow : InstanceHandler.rowOf message content ∈ n'.instances := by
        rw [heq]
        exact (mem_insertNew_fresh hd.fresh.instances).2 (.inr rfl)
      have hamendable : amendAllowed message.itemHash n' = some true := by
        have hinstance : n'.instances.find? message.itemHash = some (InstanceHandler.rowOf message content) :=
          Table.find?_eq_some.2 ⟨hrow, rfl⟩
        rw [amendAllowed_fresh (h.norow hd.fresh) hversions, hinstance]
        exact congrArg some hallowed
      have hsize' : Exec (VmCommon.validateParentVolumeSize content.rootfs.parent.ref_ content.rootfs.sizeMib).run n'
          (.ok ()) n' := by
        rw [heq]
        exact VmCommon.exec_validateParentVolumeSize_congr (n := n) rfl hsize
      have hvalid' : InstanceHandler.Valid { content with
          address := amendment.sender, replaces := some message.itemHash, payment := none, time } n' := by
        subst heq
        refine ⟨hvalid.pinned, hvalid.tagged, fun o ho => ?_⟩
        obtain rfl := Option.some.inj ho
        exact ⟨⟨_, hrow, rfl, hnone⟩, hamendable⟩
      refine ⟨?_, ?_, ?_⟩
      · rw [htype']
        exact InstanceHandler.exec_validate_ok.2 ⟨_, hparse', hmemory, hvcpus, hsize', hvalid', rfl⟩
      · rw [htype']
        exact exec_checkPermissions_self hparse' InstanceContent.address_of_decode rfl
      · rw [htype']
        exact exec_fromExcept_bind_ok.2 ⟨_, hparse', exec_pure_ok.2 ⟨rfl, rfl⟩⟩

/-- The version row of a new original names its address. -/
theorem Outcome.owner (hout : Outcome env message n n') (hnorow : ∀ row ∈ n.vmVersions, row.vmHash ≠ message.itemHash)
    {terms : VmTerms} (hterms : HasTerms env message terms) {row : VmVersionRow} (hrow : row ∈ n'.vmVersions)
    (hhash : row.vmHash = message.itemHash) : row.owner = terms.address := by
  have hset : ∀ {owner : Address} {time : Timestamp} {replaces : Option ItemHash}, replaces = none →
      row ∈ versionSet (replaces.getD message.itemHash) owner message.itemHash time n → row.owner = owner := by
    rintro owner time _ rfl hmem
    rcases (mem_versionSet_fresh hnorow).1 hmem with hold | rfl
    · exact absurd hhash (hnorow row hold)
    · rfl
  cases hterms with
  | program content htype hparse =>
    cases hout with
    | kept hprogram => exact absurd htype hprogram
    | program content' ctx henv htype' hparse' hvalid hnone receptionTime heq =>
      obtain rfl := Except.ok.inj (hparse.symm.trans hparse')
      subst heq
      exact hset hnone hrow
    | «instance» content' ctx henv htype' =>
      rw [htype] at htype'
      cases htype'
  | «instance» content htype hparse =>
    cases hout with
    | kept hprogram hinstance => exact absurd htype hinstance
    | program content' ctx henv htype' =>
      rw [htype] at htype'
      cases htype'
    | «instance» content' ctx henv htype' hparse' hvalidate hnone receptionTime heq =>
      obtain rfl := Except.ok.inj (hparse.symm.trans hparse')
      subst heq
      exact hset hnone hrow

/-- What a stranger's amendment says. -/
theorem Imitates.terms (h : Imitates env message amendment) :
    ∃ terms terms', HasTerms env message terms ∧ HasTerms env amendment terms' ∧
      terms'.replaces = some message.itemHash ∧ ¬ env.SameAddress terms'.address terms.address := by
  cases h with
  | program content time htype hparse htype' hparse' hstranger =>
    exact ⟨_, _, .program content htype hparse, .program _ htype' hparse', rfl, hstranger⟩
  | «instance» content time htype hparse htype' hparse' hstranger =>
    exact ⟨_, _, .instance content htype hparse, .instance _ htype' hparse', rfl, hstranger⟩

/-- **Where a new original allows amendments, its owner does not decide**: a stranger's amendment passes. -/
theorem Closed.not_ownersDecide (h : Closed n) (hd : Delivered env message n n') (hallow : AllowsAmend env message)
    (himitates : Imitates env message amendment) : ¬ OwnersDecide env n' := by
  intro hdecide
  obtain ⟨terms, terms', hterms, hterms', hreplaces, hstranger⟩ := himitates.terms
  have hpasses : PassesChecks amendment (.ofEnv env) n' := h.imitation_passes hd hallow himitates rfl
  obtain ⟨row, hrow, hhash, hsame⟩ := hdecide.amends amendment (.ofEnv env) rfl hpasses terms' hterms' _ hreplaces
  rw [(h.outcome hd).owner (h.norow hd.fresh) hterms hrow hhash] at hsame
  exact hstranger hsame

/-! ## Runs -/

/-- A message is accepted that allows no amendments. -/
def ClosedStep (env : Env) (n n' : Node) : Prop := ∃ message, Delivered env message n n' ∧ ¬ AllowsAmend env message

/-- **In a run whose virtual machines allow no amendments the owners decide** about the version rows; the next
message keeps that if it allows none, and not if it allows them and a stranger can write the same content. -/
theorem ownersDecide_of_run {n₀ : Node} (hempty : ∀ v, v ∉ vms n₀) (hnoversions : ∀ row, row ∉ n₀.vmVersions)
    (hrun : Relation.ReflTransGen (ClosedStep env) n₀ n) :
    OwnersDecide env n ∧ ∀ message n', Delivered env message n n' →
      (¬ AllowsAmend env message → OwnersDecide env n') ∧
      (AllowsAmend env message → ∀ amendment, Imitates env message amendment → ¬ OwnersDecide env n') := by
  have hclosed : Closed n := by
    induction hrun with
    | refl =>
      exact ⟨fun p hp => absurd (.inl ⟨p, hp, rfl⟩) (hempty (.ofProgram p)),
        fun i hi => absurd (.inr ⟨i, hi, rfl⟩) (hempty (.ofInstance i)), fun row hrow => absurd hrow (hnoversions row)⟩
    | tail _ hstep ih =>
      obtain ⟨message, hdelivered, hallow⟩ := hstep
      exact ih.delivered hdelivered hallow
  refine ⟨hclosed.ownersDecide, fun message n' hd => ⟨fun hallow => (hclosed.delivered hd hallow).ownersDecide, ?_⟩⟩
  exact fun hallow amendment himitates => hclosed.not_ownersDecide hd hallow himitates

/-! ### A program and a rival -/

section Rival

def rival : Address := "0x18B3B1ba17961B39cAb821D63943F69a48F8869D"

def rivalHash : ItemHash := "7580be9fb56643b322c9a6e834f4053d3b159136b4303bfe21e12f293c610803"

/-- The text of the program as an amendment by the rival. -/
def rivalText : String :=
  "\x7b\"address\":\"" ++ rival ++ "\",\"runtime\":\x7b\"ref\":\"" ++ file ++
    "\",\"use_latest\":false\x7d,\"code\":\x7b\"encoding\":\"zip\",\"entrypoint\":\"main:app\",\"ref\":\"" ++ file ++
    "\",\"use_latest\":false\x7d,\"resources\":\x7b\"memory\":128,\"vcpus\":1\x7d,\"replaces\":\"" ++ programHash ++
    "\",\"time\":1700000020\x7d"

def rivalContent : ProgramContent := { programContent (some programHash) 1700000020 with address := rival }

/-- The rival's message, with the rival's signature. -/
def rivalAmendment : Message where
  messageType := .program
  chain := .eth
  sender := rival
  signature := "0x39a6c8b1da381af3d7d87a219782726b28b0e20c20aa2834a14fcae3a2f93fa11da8c33ff7ca98b1bab8592977e508eb3998" ++
    "c4363099aee2d7c87673fac322aa1c"
  itemType := .inline
  itemHash := rivalHash
  itemContent := some rivalText
  channel := none
  time := 1700000020

def rivalCtx : ProcessorContext where
  env := .ofTables [(storeText "1700000000", storeJson 1700000000),
      (firstProgramText, .obj (programFields [] 1700000010)),
      (rivalText, .obj (("address", .str rival) :: (programFields [("replaces", .str programHash)] 1700000020).tail))]
    [(rivalText, rivalHash)] [("ETH\n" ++ rival ++ "\nPROGRAM\n" ++ rivalHash, rivalAmendment.signature, rival)]
  order := .stored
  now := 1700000200
  cost := some .new
  ipfsGet := fun _ => .error "not found"

example : rivalAmendment.verifySignature rivalCtx.env = .ok true := by decide +kernel

/-- The node with the file, and with the program on top. -/
def rivalFile : Node := stored rivalCtx.env firstStore 1700000200
  (StoreHandler.recorded firstStore (storeContent 1700000000) (createHandlerContext rivalCtx true) .empty)

def rivalProgram : Node := stored rivalCtx.env firstProgram 1700000200
  (ProgramHandler.recorded firstProgram (programContent none 1700000010) (createHandlerContext rivalCtx true)
    rivalFile)

theorem delivered_rivalFile : DeliveredBy rivalCtx firstStore .empty rivalFile :=
  delivered_store_by (by decide +kernel)

theorem fromStr_rivalProgram :
    rivalCtx.env.fromStr ProgramContent.decode firstProgramText = .ok (programContent none 1700000010) := by
  decide +kernel

theorem delivered_rivalProgram : DeliveredBy rivalCtx firstProgram rivalFile rivalProgram :=
  delivered_program_by fromStr_rivalProgram (by decide +kernel) (by decide +kernel) fun o ho => nomatch ho

example : rivalProgram.vmVersions.rows.map VmVersionRow.owner = [fileOwner] := by decide +kernel

/-- The STORE message concerns no virtual machine. -/
theorem rivalFileRun : Relation.ReflTransGen (ClosedStep rivalCtx.env) .empty rivalFile := by
  refine .single ⟨firstStore, delivered_rivalFile.delivered, ?_⟩
  rintro ⟨terms, ⟨content, htype, -⟩ | ⟨content, htype, -⟩, -⟩
  · cases htype
  · cases htype

theorem fromStr_rivalAmendment : rivalCtx.env.fromStr ProgramContent.decode rivalText = .ok rivalContent := by
  decide +kernel

theorem rivalAmendment_imitates : Imitates rivalCtx.env firstProgram rivalAmendment := by
  refine .program (programContent none 1700000010) 1700000020 rfl ?_ rfl ?_ ?_
  · exact parseContent_ok.2 ⟨_, rfl, fromStr_rivalProgram⟩
  · exact parseContent_ok.2 ⟨_, rfl, fromStr_rivalAmendment⟩
  · show ¬ rivalCtx.env.SameAddress rival fileOwner
    decide +kernel

theorem firstProgram_allowsAmend : AllowsAmend rivalCtx.env firstProgram :=
  ⟨_, .program (programContent none 1700000010) rfl (parseContent_ok.2 ⟨_, rfl, fromStr_rivalProgram⟩), rfl⟩

/-- With the file alone the owners decide, and the program ends that. -/
theorem rivalFile_ownersDecide : OwnersDecide rivalCtx.env rivalFile ∧ ¬ OwnersDecide rivalCtx.env rivalProgram := by
  obtain ⟨hdecide, hnext⟩ := ownersDecide_of_run empty_not_mem_vms (fun _ => List.not_mem_nil) rivalFileRun
  exact ⟨hdecide, (hnext firstProgram rivalProgram delivered_rivalProgram.delivered).2 firstProgram_allowsAmend
    rivalAmendment rivalAmendment_imitates⟩

/-- The node with the amendment on top. -/
def rivalAmended : Node :=
  ProgramHandler.recorded rivalAmendment rivalContent (createHandlerContext rivalCtx false) rivalProgram

theorem rivalFile_closed : Closed rivalFile := by
  refine Closed.delivered ⟨?_, ?_, ?_⟩ delivered_rivalFile.delivered ?_
  · exact fun p hp => absurd hp List.not_mem_nil
  · exact fun i hi => absurd hi List.not_mem_nil
  · exact fun row hrow => absurd hrow List.not_mem_nil
  · rintro ⟨terms, ⟨content, htype, -⟩ | ⟨content, htype, -⟩, -⟩
    · cases htype
    · cases htype

theorem rivalAmendment_passes : PassesChecks rivalAmendment (createHandlerContext rivalCtx false) rivalProgram :=
  rivalFile_closed.imitation_passes delivered_rivalProgram.delivered firstProgram_allowsAmend
    rivalAmendment_imitates rfl

theorem rivalAmendment_processed : Exec (processMessage rivalAmendment (createHandlerContext rivalCtx false))
    rivalProgram .processed rivalAmended := by
  have htype : rivalAmendment.messageType = .program := rfl
  refine rivalAmendment_passes.processed rfl ?_
  rw [htype]
  exact ProgramHandler.exec_process_ok.2 ⟨rivalContent, parseContent_ok.2 ⟨_, rfl, fromStr_rivalAmendment⟩, rfl⟩

/-- The rival's amendment passes all checks of an untrusted message and becomes the current version of the program,
which the version row says is another's. -/
theorem rival_amends :
    (∃ n, DeliveredBy rivalCtx firstStore .empty n ∧ DeliveredBy rivalCtx firstProgram n rivalProgram) ∧
      PassesChecks rivalAmendment (createHandlerContext rivalCtx false) rivalProgram ∧
      HasTerms rivalCtx.env rivalAmendment ⟨rival, true, some programHash⟩ ∧
      (¬ ∃ row ∈ rivalProgram.vmVersions, row.vmHash = programHash ∧ rivalCtx.env.SameAddress rival row.owner) ∧
      Exec (processMessage rivalAmendment (createHandlerContext rivalCtx false)) rivalProgram .processed rivalAmended ∧
      ∃ row ∈ rivalAmended.vmVersions, row.vmHash = programHash ∧ row.currentVersion = some rivalHash := by
  have howner : ¬ ∃ row ∈ rivalProgram.vmVersions.rows, row.vmHash = programHash ∧
      rivalCtx.env.SameAddress rival row.owner := by decide +kernel
  have hcurrent : ∃ row ∈ rivalAmended.vmVersions.rows, row.vmHash = programHash ∧
      row.currentVersion = some rivalHash := by decide +kernel
  exact ⟨⟨_, delivered_rivalFile, delivered_rivalProgram⟩, rivalAmendment_passes,
    .program rivalContent rfl (parseContent_ok.2 ⟨_, rfl, fromStr_rivalAmendment⟩), howner, rivalAmendment_processed,
    hcurrent⟩

end Rival

end AlephCore.MessageProcessor
