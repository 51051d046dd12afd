import AlephCore.Jobs.VmVersions

/-!
# AccountCosts — the costs of what is stored

A cost row should be that of a stored STORE message, program or instance.  A FORGET deletes the costs of the
programs and instances it lists, but not those of a STORE message, nor those of the amendments that go with
their original.
-/

namespace AlephCore.MessageProcessor

open ProgE Prog ForgetHandler

/-! ## Live costs -/

/-- Under the hash a STORE message that is not gone, or a virtual machine that none of the targets takes, is
stored. -/
def LiveBeside (ts : List Target) (gone : List ItemHash) (n : Node) (hash : ItemHash) : Prop :=
  (∃ r ∈ n.messages, r.itemHash = hash ∧ r.messageType = .store ∧ hash ∉ gone) ∨
    (∃ p ∈ n.programs, p.itemHash = hash ∧ ∀ t ∈ ts, ¬ t.TakesProgram p) ∨
    ∃ i ∈ n.instances, i.itemHash = hash ∧ ∀ t ∈ ts, ¬ t.TakesInstance i

/-- A STORE message, a program or an instance is stored under the hash. -/
def Live (n : Node) (hash : ItemHash) : Prop := LiveBeside [] [] n hash

/-- Every cost is that of something stored. -/
def LiveCosts (n : Node) : Prop := ∀ c ∈ n.accountCosts, Live n c.itemHash

open Classical in
/-- What an address pays for what is stored. -/
noncomputable def liveTotal (n : Node) (address : Address) (paymentType : String) : ℚ :=
  (((n.accountCosts.rows.filter fun c => Live n c.itemHash).filter fun c =>
    c.owner = address ∧ c.paymentType = paymentType).map fun c =>
      if paymentType = "credit" then c.costCredit else c.costHold).sum

/-- A STORE message with a payment is not stored under the row of another type, and a FORGET leaves, for every
cost that it does not delete, what the cost is for. -/
structure KeepsCostsLive (env : Env) (message : Message) (n : Node) : Prop where
  storedAs : message.messageType = .store → ∀ content,
    parseContent env StoreContent.decode (fun e => e) message = .ok content → content.payment ≠ none →
      ∀ r ∈ n.messages, r.itemHash = message.itemHash → r.messageType = .store
  spared : message.messageType = .forget → ∀ content,
    parseContent env ForgetContent.decode (fun e => e) message = .ok content →
      ∀ c ∈ n.accountCosts, (∀ t ∈ targets n [] content.hashes, ¬ t.TakesVmData c.itemHash) →
        LiveBeside (targets n [] content.hashes) (goneAfter n [] content.hashes) n c.itemHash

variable {env : Env} {message : Message} {n n' : Node} {hash : ItemHash}

theorem live_iff : Live n hash ↔ (∃ r ∈ n.messages, r.itemHash = hash ∧ r.messageType = .store) ∨
    (∃ p ∈ n.programs, p.itemHash = hash) ∨ ∃ i ∈ n.instances, i.itemHash = hash := by
  simp [Live, LiveBeside]

/-- What the total of an address counts is live. -/
theorem total_live (h : LiveCosts n) {address : Address} {paymentType : String} {total : ℚ}
    (hexec : Exec (PgDatabase.getTotalCostForAddress address paymentType).run n (.ok total) n') :
    total = liveTotal n address paymentType := by
  obtain ⟨rfl, -⟩ := exec_query_ok.1 hexec
  classical
  have hall : (n.accountCosts.rows.filter fun c => Live n c.itemHash) = n.accountCosts.rows := by
    refine List.filter_eq_self.2 fun c hc => ?_
    simpa using h c hc
  unfold liveTotal
  simp only [hall]

/-! ## One message -/

/-- The STORE rows once the message is stored itself. -/
theorem storeRow_stored (env : Env) (message : Message) (receptionTime : Timestamp) (n : Node)
    (hash : ItemHash) :
    (∃ r ∈ (stored env message receptionTime n).messages, r.itemHash = hash ∧ r.messageType = .store) ↔
      (∃ r ∈ n.messages, r.itemHash = hash ∧ r.messageType = .store) ∨
        (message.itemHash = hash ∧ message.messageType = .store ∧ ∀ r ∈ n.messages, r.itemHash ≠ hash) :=
  exists_row_stored fun _ _ => Iff.rfl

/-- Storing a message that is no STORE message changes nothing here. -/
theorem liveCosts_stored (receptionTime : Timestamp) (htype : message.messageType ≠ .store) :
    LiveCosts (stored env message receptionTime n) ↔ LiveCosts n := by
  refine forall_congr' fun c => imp_congr_right fun _ => ?_
  rw [live_iff, live_iff, storeRow_stored]
  have hno : ¬ (message.itemHash = c.itemHash ∧ message.messageType = .store ∧
      ∀ r ∈ n.messages, r.itemHash ≠ c.itemHash) := fun h => htype h.2.1
  rw [or_iff_left hno]
  exact Iff.rfl

theorem liveCosts_congr (hmessages : n'.messages = n.messages) (hprograms : n'.programs = n.programs)
    (hinstances : n'.instances = n.instances) (hcosts : n'.accountCosts = n.accountCosts) :
    LiveCosts n' ↔ LiveCosts n := by
  unfold LiveCosts
  simp only [live_iff, hmessages, hprograms, hinstances, hcosts]

/-- The costs of a STORE message are its own, if it has a payment. -/
theorem of_mem_charged {content : StoreContent} {c : AccountCostRecord}
    (h : c ∈ StoreHandler.charged message content n) :
    (∃ d ∈ n.accountCosts, d.itemHash = c.itemHash ∧ d.owner = c.owner) ∨
      (content.payment ≠ none ∧ c.itemHash = message.itemHash) := by
  unfold StoreHandler.charged at h
  cases hpayment : content.payment with
  | none =>
    rw [hpayment] at h
    exact .inl ⟨c, h, rfl, rfl⟩
  | some payment =>
    rw [hpayment] at h
    rcases Table.mem_upsert.1 h with ⟨h, -⟩ | ⟨s, hs, -, rfl⟩ | ⟨rfl, -⟩
    · exact .inl ⟨c, h, rfl, rfl⟩
    · exact .inl ⟨s, hs, rfl, rfl⟩
    · exact .inr ⟨by simp, rfl⟩

theorem exists_charged (message : Message) (n : Node) {content : StoreContent} (h : content.payment ≠ none) :
    ∃ c ∈ StoreHandler.charged message content n, c.itemHash = message.itemHash := by
  obtain ⟨payment, hpayment⟩ := Option.ne_none_iff_exists'.1 h
  unfold StoreHandler.charged
  rw [hpayment]
  by_cases hclash : ∃ s ∈ n.accountCosts, (s.owner, s.itemHash, s.costType, s.name) =
      ((StoreHandler.costOf message content payment).owner, (StoreHandler.costOf message content payment).itemHash,
        (StoreHandler.costOf message content payment).costType, (StoreHandler.costOf message content payment).name)
  · obtain ⟨s, hs, hkey⟩ := hclash
    exact ⟨_, Table.mem_upsert.2 (.inr (.inl ⟨s, hs, hkey, rfl⟩)), congrArg (fun k => k.2.1) hkey⟩
  · push Not at hclash
    exact ⟨_, Table.mem_upsert.2 (.inr (.inr ⟨rfl, hclash⟩)), rfl⟩

/-- **A STORE message** keeps the costs live exactly if no row of another type has its hash. -/
theorem LiveCosts.store (h : LiveCosts n) {ctx : HandlerContext} {content : StoreContent}
    (receptionTime : Timestamp) (hfresh : Fresh n message.itemHash) (htype : message.messageType = .store) :
    LiveCosts (stored env message receptionTime (StoreHandler.recorded message content ctx n)) ↔
      (content.payment ≠ none → ∀ r ∈ n.messages, r.itemHash = message.itemHash → r.messageType = .store) := by
  have hlive : ∀ hash, Live (stored env message receptionTime (StoreHandler.recorded message content ctx n)) hash ↔
      Live n hash ∨ (message.itemHash = hash ∧ ∀ r ∈ n.messages, r.itemHash ≠ hash) := by
    intro hash
    have hrow : (∃ r ∈ (stored env message receptionTime (StoreHandler.recorded message content ctx n)).messages,
        r.itemHash = hash ∧ r.messageType = .store) ↔
        (∃ r ∈ n.messages, r.itemHash = hash ∧ r.messageType = .store) ∨
          (message.itemHash = hash ∧ message.messageType = .store ∧ ∀ r ∈ n.messages, r.itemHash ≠ hash) :=
      storeRow_stored env message receptionTime (StoreHandler.recorded message content ctx n) hash
    rw [live_iff, live_iff, hrow]
    simp only [htype, true_and]
    exact or_right_comm
  constructor
  · intro hn' hpayment r hr hhash
    obtain ⟨c, hc, he⟩ := exists_charged message n hpayment
    rcases (hlive c.itemHash).1 (hn' c hc) with hold | ⟨-, hnone⟩
    · rcases live_iff.1 hold with ⟨s, hs, hshash, hstype⟩ | ⟨p, hp, hphash⟩ | ⟨i, hi, hihash⟩
      · rwa [Table.eq_of_key hr hs (hhash.trans (he.symm.trans hshash.symm))]
      · exact absurd (hphash.trans he) (hfresh.programs p hp)
      · exact absurd (hihash.trans he) (hfresh.instances i hi)
    · exact absurd (hhash.trans he.symm) (hnone r hr)
  · intro hstored c hc
    refine (hlive c.itemHash).2 ?_
    rcases of_mem_charged hc with ⟨d, hd, he, -⟩ | ⟨hpayment, he⟩
    · exact .inl (he ▸ h d hd)
    · by_cases hrow : ∃ r ∈ n.messages, r.itemHash = c.itemHash
      · obtain ⟨r, hr, hhash⟩ := hrow
        exact .inl (live_iff.2 (.inl ⟨r, hr, hhash, hstored hpayment r hr (hhash.trans he)⟩))
      · push Not at hrow
        exact .inr ⟨he.symm, hrow⟩

/-- **A program or an instance** keeps the costs live: the new ones are its own. -/
theorem LiveCosts.storeVm (h : LiveCosts n) (hash : ItemHash) {costs : List AccountCostRecord}
    (hmessages : n'.messages = n.messages) (hprograms : ∀ p ∈ n.programs, p ∈ n'.programs)
    (hinstances : ∀ i ∈ n.instances, i ∈ n'.instances)
    (hnew : (∃ p ∈ n'.programs, p.itemHash = hash) ∨ ∃ i ∈ n'.instances, i.itemHash = hash)
    (hcosts : n'.accountCosts = PgDatabase.costsStored costs n.accountCosts)
    (hown : ∀ c ∈ costs, c.itemHash = hash) : LiveCosts n' := by
  intro c hc
  rw [hcosts] at hc
  rcases PgDatabase.of_mem_costsStored hc with ⟨d, hd, he, -⟩ | ⟨d, hd, he, -⟩
  · rw [← he, live_iff]
    rcases live_iff.1 (h d hd) with ⟨r, hr, hrow⟩ | ⟨p, hp, hhash⟩ | ⟨i, hi, hhash⟩
    · exact .inl ⟨r, hmessages ▸ hr, hrow⟩
    · exact .inr (.inl ⟨p, hprograms p hp, hhash⟩)
    · exact .inr (.inr ⟨i, hinstances i hi, hhash⟩)
  · rw [← he, hown d hd, live_iff]
    exact .inr hnew

/-- **A FORGET** keeps the costs live exactly if it leaves what the costs are for that it does not delete. -/
theorem liveCosts_forget {ts : List Target} {gone : List ItemHash} (hgone : TargetsGone ts gone n n') :
    LiveCosts n' ↔ ∀ c ∈ n.accountCosts, (∀ t ∈ ts, ¬ t.TakesVmData c.itemHash) →
      LiveBeside ts gone n c.itemHash := by
  have hlive : ∀ hash, Live n' hash ↔ LiveBeside ts gone n hash := by
    intro hash
    rw [live_iff, LiveBeside]
    refine or_congr ⟨?_, ?_⟩ (or_congr ⟨?_, ?_⟩ ⟨?_, ?_⟩)
    · rintro ⟨r, hr, rfl, htype⟩
      obtain ⟨hr, hleft⟩ := (hgone.messages r).1 hr
      exact ⟨r, hr, rfl, htype, hleft⟩
    · rintro ⟨r, hr, rfl, htype, hleft⟩
      exact ⟨r, (hgone.messages r).2 ⟨hr, hleft⟩, rfl, htype⟩
    · rintro ⟨p, hp, hhash⟩
      obtain ⟨hp, hleft⟩ := (hgone.programs p).1 hp
      exact ⟨p, hp, hhash, hleft⟩
    · rintro ⟨p, hp, hhash, hleft⟩
      exact ⟨p, (hgone.programs p).2 ⟨hp, hleft⟩, hhash⟩
    · rintro ⟨i, hi, hhash⟩
      obtain ⟨hi, hleft⟩ := (hgone.instances i).1 hi
      exact ⟨i, hi, hhash, hleft⟩
    · rintro ⟨i, hi, hhash, hleft⟩
      exact ⟨i, (hgone.instances i).2 ⟨hi, hleft⟩, hhash⟩
  constructor
  · intro h c hc hstays
    exact (hlive c.itemHash).1 (h c ((hgone.costs c).2 ⟨hc, hstays⟩))
  · intro h c hc
    obtain ⟨hc, hstays⟩ := (hgone.costs c).1 hc
    exact (hlive c.itemHash).2 (h c hc hstays)

/-- **One message** keeps the costs live exactly if it meets the condition; the cost service is that of the node,
or none. -/
theorem DeliveredBy.liveCosts {ctx : ProcessorContext} (h : DeliveredBy ctx message n n')
    (hservice : ctx.cost = none ∨ ctx.cost = some .new) (hlive : LiveCosts n) :
    LiveCosts n' ↔ KeepsCostsLive ctx.env message n := by
  obtain ⟨trustedSource, receptionTime, n₁, heffect, rfl⟩ := h.accepted.effect
  -- Anything else has no condition to meet.
  have hkeeps : message.messageType ≠ .store → message.messageType ≠ .forget → LiveCosts n₁ →
      (LiveCosts (stored ctx.env message receptionTime n₁) ↔ KeepsCostsLive ctx.env message n) :=
    fun hstore hforget hn₁ => iff_of_true ((liveCosts_stored receptionTime hstore).2 hn₁)
      ⟨fun h => absurd h hstore, fun h => absurd h hforget⟩
  cases heffect with
  | aggregate content htype =>
    obtain ⟨as, has⟩ := processed_eq (AggregateHandler.elementOf message content) n
    refine hkeeps (by simp [htype]) (by simp [htype]) ?_
    rw [has, AggregateHandler.storeElement]
    split_ifs <;> exact (liveCosts_congr rfl rfl rfl rfl).2 hlive
  | post content htype hparse horiginal =>
    exact hkeeps (by simp [htype]) (by simp [htype]) ((liveCosts_congr rfl rfl rfl rfl).2 hlive)
  | amend content originalHash target htype =>
    exact hkeeps (by simp [htype]) (by simp [htype]) ((liveCosts_congr rfl rfl rfl rfl).2 hlive)
  | store content htype hparse hclash =>
    refine (hlive.store receptionTime h.fresh htype).trans ⟨fun hstored => ⟨fun _ content' hparse' => ?_, ?_⟩,
      fun hk => hk.storedAs htype content hparse⟩
    · obtain rfl := Except.ok.inj (hparse.symm.trans hparse')
      exact hstored
    · exact fun hforget => absurd (htype.symm.trans hforget) (by decide)
  | program content htype hparse hvalid =>
    have hrow : ∀ p, p ∈ n.programs.insertNew (ProgramHandler.rowOf message content) ↔
        p ∈ n.programs ∨ p = ProgramHandler.rowOf message content :=
      fun p => mem_insertNew_fresh h.fresh.programs
    refine hkeeps (by simp [htype]) (by simp [htype]) (hlive.storeVm message.itemHash rfl
      (fun p hp => (hrow p).2 (.inl hp)) (fun i hi => hi) (.inl ⟨_, (hrow _).2 (.inr rfl), rfl⟩) rfl fun c hc => ?_)
    rcases hservice with hnone | hsome
    · simp [ProgramHandler.costs, createHandlerContext, hnone] at hc
    · simp only [ProgramHandler.costs, createHandlerContext, hsome, Option.map_some, Option.getD_some] at hc
      exact CostService.programCosts_itemHash c hc
  | «instance» content htype hparse hvalid =>
    have hrow : ∀ i, i ∈ n.instances.insertNew (InstanceHandler.rowOf message content) ↔
        i ∈ n.instances ∨ i = InstanceHandler.rowOf message content :=
      fun i => mem_insertNew_fresh h.fresh.instances
    refine hkeeps (by simp [htype]) (by simp [htype]) (hlive.storeVm message.itemHash rfl
      (fun p hp => hp) (fun i hi => (hrow i).2 (.inl hi)) (.inr ⟨_, (hrow _).2 (.inr rfl), rfl⟩) rfl fun c hc => ?_)
    rcases hservice with hnone | hsome
    · simp [InstanceHandler.costs, createHandlerContext, hnone] at hc
    · simp only [InstanceHandler.costs, createHandlerContext, hsome, Option.map_some, Option.getD_some] at hc
      exact CostService.instanceCosts_itemHash c hc
  | forget content htype hparse hvalidate =>
    rw [liveCosts_stored receptionTime (by simp [htype]),
      liveCosts_forget (hashesForgotten_gone message content _ content.hashes n)]
    refine ⟨fun hspared => ⟨?_, fun _ content' hparse' => ?_⟩, fun hk => hk.spared htype content hparse⟩
    · exact fun hstore => absurd (htype.symm.trans hstore) (by decide)
    · obtain rfl := Except.ok.inj (hparse.symm.trans hparse')
      exact hspared

/-! ## Runs -/

/-- A message is accepted, by a node with the cost service or without one, that keeps the costs live. -/
def CostStep (env : Env) (n n' : Node) : Prop :=
  ∃ ctx message, ctx.env = env ∧ (ctx.cost = none ∨ ctx.cost = some .new) ∧ DeliveredBy ctx message n n' ∧
    KeepsCostsLive env message n

section Amended

example : withAmendment.accountCosts.rows.any (·.itemHash = amendmentHash) := by decide +kernel

theorem delivered_forgetProgramAmended :
    DeliveredBy vmCtx forgetProgram withAmendment (afterForgetting forgetProgram programHash withAmendment) := by
  refine delivered_forget (by decide +kernel) (by decide +kernel) (by decide +kernel) ⟨?_, by decide +kernel, ?_, ?_⟩
  · exact ⟨processedRow vmCtx.env firstProgram 1700000200, by decide +kernel, rfl, by decide, rfl⟩
  · have hrefs : ∀ p ∈ withAmendment.programs.rows, p.codeRef ≠ programHash ∧ p.runtimeRef ≠ programHash := by
      decide +kernel
    exact hrefs
  · exact fun i hi => absurd hi List.not_mem_nil

theorem storeText_unpaid : KeepsCostsLive vmCtx.env firstStore .empty := by
  refine ⟨fun _ content hparse hpayment => ?_, fun hforget => nomatch hforget⟩
  obtain ⟨s, hs, hdecode⟩ := parseContent_ok.1 hparse
  obtain rfl := Option.some.inj hs
  obtain rfl := Except.ok.inj (fromStr_store.symm.trans hdecode)
  exact absurd rfl hpayment

end Amended

end AlephCore.MessageProcessor
