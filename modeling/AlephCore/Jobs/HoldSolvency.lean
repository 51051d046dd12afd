import AlephCore.Jobs.AccountCosts
import Mathlib.Algebra.Order.BigOperators.Group.List
import Mathlib.Tactic.Linarith

/-!
# HoldSolvency — what an address holds and what it pays

A message that is charged on hold should fit into the ETH balance of its address.  The handlers compare the costs
with that balance only for virtual machines with payment details, and for large files with payment details on
Ethereum whose address has a balance; whatever else is charged on hold is not compared.
-/

namespace AlephCore.MessageProcessor

open ProgE Prog PgDatabase

/-! ## Totals -/

/-- What a cost adds to the hold total of an address. -/
def holdOf (address : Address) (c : AccountCostRecord) : ℚ :=
  if c.owner = address ∧ c.paymentType = "hold" then c.costHold else 0

/-- The hold total of an address. -/
def holdTotal (n : Node) (address : Address) : ℚ := (n.accountCosts.rows.map (holdOf address)).sum

/-- The hold total that is left if costs under these keys are replaced. -/
def holdBeside (n : Node) (address : Address) (costs : List AccountCostRecord) : ℚ :=
  (n.accountCosts.rows.map fun c =>
    if CostService.costKey c ∈ costs.map CostService.costKey then 0 else holdOf address c).sum

/-- The ETH balance of an address, zero without a row. -/
def ethBalance (n : Node) (address : Address) : ℚ :=
  ((n.balances.find? (address, "ETH")).map BalanceRow.balance).getD 0

variable {env : Env} {message : Message} {n n' : Node} {address : Address} {costs : List AccountCostRecord}
  {paymentType : String}

theorem exec_holdTotal {total : ℚ} :
    Exec (getTotalCostForAddress address "hold").run n (.ok total) n' ↔ total = holdTotal n address ∧ n' = n := by
  unfold getTotalCostForAddress holdTotal
  rw [exec_query_ok]
  have hsum : ∀ l : List AccountCostRecord,
      ((l.filter fun c => c.owner = address ∧ c.paymentType = "hold").map fun c =>
        if "hold" = "credit" then c.costCredit else c.costHold).sum = (l.map (holdOf address)).sum := by
    intro l
    induction l with
    | nil => rfl
    | cons c l ih =>
      by_cases hc : c.owner = address ∧ c.paymentType = "hold"
      · rw [List.filter_cons_of_pos (by simpa using hc), List.map_cons, List.map_cons, List.sum_cons,
          List.sum_cons, ih, holdOf, if_pos hc, if_neg (by decide)]
      · rw [List.filter_cons_of_neg (by simpa using hc), List.map_cons, List.sum_cons, ih, holdOf, if_neg hc, zero_add]
  rw [hsum]

/-- **The total after costs are stored**: what they do not replace, and they. -/
theorem sum_holdOf_costsStored {t : Table AccountCostRecord fun c => (c.owner, c.itemHash, c.costType, c.name)}
    (hnodup : (costs.map CostService.costKey).Nodup) :
    ((costsStored costs t).rows.map (holdOf address)).sum =
      (t.rows.map fun c => if CostService.costKey c ∈ costs.map CostService.costKey then 0 else holdOf address c).sum +
        (costs.map (holdOf address)).sum := by
  refine sum_costsStored (fun cost s hs => ?_) hnodup
  have howner : s.owner = cost.owner := congrArg Prod.fst hs
  simp only [holdOf, costUpdate, howner]

/-- No cost is negative. -/
def CostsNonneg (n : Node) : Prop := ∀ c ∈ n.accountCosts, 0 ≤ c.costHold

theorem holdOf_nonneg {c : AccountCostRecord} (h : 0 ≤ c.costHold) : 0 ≤ holdOf address c := by
  unfold holdOf
  split_ifs
  · exact h
  · exact le_refl 0

theorem holdBeside_le (h : CostsNonneg n) : holdBeside n address costs ≤ holdTotal n address := by
  refine List.sum_le_sum fun c hc => ?_
  split_ifs
  · exact holdOf_nonneg (h c hc)
  · exact le_refl _

/-! ## What a message is charged -/

/-- The costs that an accepted message records, and the address it records them for. -/
inductive Charged (env : Env) (message : Message) : Address → List AccountCostRecord → Prop
  | store (content : StoreContent) (htype : message.messageType = .store)
      (hparse : parseContent env StoreContent.decode (fun e => e) message = .ok content) :
      Charged env message content.address (content.payment.map (StoreHandler.costOf message content)).toList
  | program (content : ProgramContent) (htype : message.messageType = .program)
      (hparse : ProgramHandler.parseContent env message = .ok content) :
      Charged env message content.address (CostService.programCosts message.itemHash content)
  | instance (content : InstanceContent) (htype : message.messageType = .instance)
      (hparse : InstanceHandler.parseContent env message = .ok content) :
      Charged env message content.address (CostService.instanceCosts message.itemHash content)

/-- Some of the costs are paid by holding. -/
def OnHold (costs : List AccountCostRecord) : Prop := ∃ c ∈ costs, c.paymentType = "hold"

instance (costs : List AccountCostRecord) : Decidable (OnHold costs) :=
  inferInstanceAs (Decidable (∃ c ∈ costs, _))

/-- **A charge is a bill**: costs of one address and payment type, none negative, no two under one key. -/
theorem Charged.bill (h : Charged env message address costs) :
    ∃ paymentType, CostService.Bill address paymentType costs := by
  cases h with
  | store content htype hparse =>
    cases hpayment : content.payment with
    | none => exact ⟨"hold", CostService.bill_nil⟩
    | some payment =>
      refine ⟨payment.paymentType.toString, CostService.bill_nil.cons rfl rfl ?_ (by simp)⟩
      exact CostService.storageHolding_nonneg _
  | program content htype hparse => exact ⟨_, CostService.bill_programCosts⟩
  | «instance» content htype hparse => exact ⟨_, CostService.bill_instanceCosts⟩

/-- A bill on hold adds up to its hold costs, any other one to nothing. -/
theorem sum_bill (h : CostService.Bill address paymentType costs) : (costs.map (holdOf address)).sum =
    if paymentType = "hold" then (costs.map AccountCostRecord.costHold).sum else 0 := by
  split_ifs with hhold
  · refine congrArg List.sum (List.map_congr_left fun c hc => ?_)
    rw [holdOf, if_pos ⟨h.owned c hc, (h.paid c hc).trans hhold⟩]
  · refine List.sum_eq_zero fun q hq => ?_
    obtain ⟨c, hc, rfl⟩ := List.mem_map.1 hq
    rw [holdOf, if_neg fun hboth => hhold ((h.paid c hc).symm.trans hboth.2)]

/-- The effect of an accepted message on the costs and the balances. -/
theorem AcceptedBy.charged {ctx : ProcessorContext} (h : AcceptedBy ctx message n n') (hservice : ctx.cost = some .new)
    (hcharged : Charged ctx.env message address costs) :
    n'.accountCosts = costsStored costs n.accountCosts ∧ n'.balances = n.balances := by
  obtain ⟨trustedSource, hctx, rfl, -, -, receptionTime, n₁, hprocess, rfl⟩ := h.stages
  cases hcharged with
  | store content htype hparse =>
    rw [htype] at hprocess
    obtain ⟨content', hparse', -, rfl⟩ := StoreHandler.exec_process_ok.1 hprocess
    obtain rfl := Except.ok.inj (hparse.symm.trans hparse')
    refine ⟨?_, rfl⟩
    show StoreHandler.charged message content n = _
    unfold StoreHandler.charged
    cases content.payment with
    | none => rfl
    | some payment => rfl
  | program content htype hparse =>
    rw [htype] at hprocess
    obtain ⟨content', hparse', rfl⟩ := ProgramHandler.exec_process_ok.1 hprocess
    obtain rfl := Except.ok.inj (hparse.symm.trans hparse')
    refine ⟨?_, rfl⟩
    show costsStored ((ProgramHandler.costs message content _).getD []) n.accountCosts = _
    rw [ProgramHandler.costs, createHandlerContext, hservice]
    rfl
  | «instance» content htype hparse =>
    rw [htype] at hprocess
    obtain ⟨content', hparse', rfl⟩ := InstanceHandler.exec_process_ok.1 hprocess
    obtain rfl := Except.ok.inj (hparse.symm.trans hparse')
    refine ⟨?_, rfl⟩
    show costsStored ((InstanceHandler.costs message content _).getD []) n.accountCosts = _
    rw [InstanceHandler.costs, createHandlerContext, hservice]
    rfl

/-- **The hold total after an accepted message**: what it does not replace, and its own hold costs. -/
theorem AcceptedBy.holdTotal_eq {ctx : ProcessorContext} (h : AcceptedBy ctx message n n')
    (hservice : ctx.cost = some .new) (hcharged : Charged ctx.env message address costs) :
    holdTotal n' address = holdBeside n address costs +
      if OnHold costs then (costs.map AccountCostRecord.costHold).sum else 0 := by
  obtain ⟨paymentType, hbill⟩ := hcharged.bill
  have hhold : OnHold costs ↔ costs ≠ [] ∧ paymentType = "hold" := by
    constructor
    · rintro ⟨c, hc, hpaid⟩
      exact ⟨List.ne_nil_of_mem hc, (hbill.paid c hc).symm.trans hpaid⟩
    · rintro ⟨hne, rfl⟩
      obtain ⟨c, hc⟩ := List.exists_mem_of_ne_nil costs hne
      exact ⟨c, hc, hbill.paid c hc⟩
  rw [holdTotal, (h.charged hservice hcharged).1, sum_holdOf_costsStored hbill.nodup, sum_bill hbill]
  refine congrArg (holdBeside n address costs + ·) ?_
  simp only [hhold]
  by_cases hne : costs = []
  · simp [hne]
  · simp [hne]

theorem AcceptedBy.ethBalance_eq {ctx : ProcessorContext} (h : AcceptedBy ctx message n n')
    (hservice : ctx.cost = some .new) (hcharged : Charged ctx.env message address costs) (a : Address) :
    ethBalance n' a = ethBalance n a := by
  rw [ethBalance, (h.charged hservice hcharged).2]
  rfl

/-- The new costs are not negative, nor are those that stay. -/
theorem AcceptedBy.costsNonneg {ctx : ProcessorContext} (h : AcceptedBy ctx message n n')
    (hservice : ctx.cost = some .new) (hcharged : Charged ctx.env message address costs) (hnonneg : CostsNonneg n) :
    CostsNonneg n' := by
  obtain ⟨paymentType, hbill⟩ := hcharged.bill
  have hstored : ∀ {costs : List AccountCostRecord}
      {t : Table AccountCostRecord fun c => (c.owner, c.itemHash, c.costType, c.name)}, (∀ c ∈ costs, 0 ≤ c.costHold) →
      (∀ c ∈ t, 0 ≤ c.costHold) → ∀ c ∈ costsStored costs t, 0 ≤ c.costHold := by
    intro costs
    induction costs with
    | nil => exact fun _ ht => ht
    | cons cost costs ih =>
      intro t hcosts ht
      obtain ⟨hcost, hcosts⟩ := List.forall_mem_cons.1 hcosts
      refine ih hcosts fun c hc => ?_
      rcases Table.mem_upsert.1 hc with ⟨hc, -⟩ | ⟨s, -, -, rfl⟩ | ⟨rfl, -⟩
      · exact ht c hc
      · exact hcost
      · exact hcost
  intro c hc
  rw [(h.charged hservice hcharged).1] at hc
  exact hstored hbill.nonneg hnonneg c hc

/-! ## What is checked -/

/-- The handler compares the costs with the ETH balance. -/
inductive Checked (env : Env) (message : Message) (n : Node) : Prop
  | store (content : StoreContent) (payment : PaymentInfo) (htype : message.messageType = .store)
      (hparse : parseContent env StoreContent.decode (fun e => e) message = .ok content)
      (hpayment : content.payment = some payment) (hhold : payment.paymentType = .hold)
      (hchain : payment.chain = .eth) (hlarge : StoreHandler.maxFreeFileSize < content.size.getD 0)
      (hbalance : n.balances.find? (content.address, "ETH") ≠ none)
  | program (content : ProgramContent) (payment : PaymentInfo) (htype : message.messageType = .program)
      (hparse : ProgramHandler.parseContent env message = .ok content)
      (hpayment : content.payment = some payment) (hhold : payment.paymentType = .hold)
  | instance (content : InstanceContent) (payment : PaymentInfo) (htype : message.messageType = .instance)
      (hparse : InstanceHandler.parseContent env message = .ok content)
      (hpayment : content.payment = some payment) (hhold : payment.paymentType = .hold)

/-- The costs fit into the balance beside those they do not replace. -/
def Fits (n : Node) (address : Address) (costs : List AccountCostRecord) : Prop :=
  holdBeside n address costs + (costs.map AccountCostRecord.costHold).sum ≤ ethBalance n address

theorem exec_validateBalance_hold {cost : ℚ}
    (h : Exec (VmCommon.validateBalance address .hold cost).run n (.ok ()) n') :
    holdTotal n address + cost ≤ ethBalance n address := by
  unfold VmCommon.validateBalance getBalance at h
  simp only at h
  rw [exec_db_query_bind_ok] at h
  obtain ⟨existing, n₁, hexisting, hcheck⟩ := exec_bind_ok.1 h
  obtain ⟨rfl, rfl⟩ := exec_holdTotal.1 (exec_db_ok.1 hexisting)
  split_ifs at hcheck with hless
  · exact absurd hcheck exec_throw_ok
  · exact not_lt.1 hless

/-- **A checked message that passes** fits on top of all that is paid by holding. -/
theorem Checked.le {ctx : HandlerContext} (h : Checked ctx.env message n) (hservice : ctx.cost = some .new)
    (hcovered : Exec ((handlerOf message.messageType).checkBalance message ctx).run n (.ok ()) n)
    (hcharged : Charged ctx.env message address costs) :
    holdTotal n address + (costs.map AccountCostRecord.costHold).sum ≤ ethBalance n address := by
  cases hcharged with
  | store content htype hparse =>
    cases h with
    | store content' payment _ hparse' hpayment hhold hchain hlarge hbalance =>
      obtain rfl := Except.ok.inj (hparse.symm.trans hparse')
      rw [htype] at hcovered
      obtain ⟨content', hparse', hcheck⟩ := exec_fromExcept_bind_ok.1 hcovered
      obtain rfl := Except.ok.inj (hparse.symm.trans hparse')
      obtain ⟨balance, hbalance⟩ := Option.ne_none_iff_exists'.1 hbalance
      have hchain : payment.chain.toString = "ETH" := by rw [hchain]; rfl
      rw [if_neg (not_le.2 hlarge)] at hcheck
      simp only [hpayment, hhold, hchain] at hcheck
      rw [getBalance, exec_db_query_bind_ok, hbalance] at hcheck
      simp only [Option.map_some] at hcheck
      obtain ⟨existing, n₁, hexisting, hcheck⟩ := exec_bind_ok.1 hcheck
      obtain ⟨rfl, rfl⟩ := exec_holdTotal.1 (exec_db_ok.1 hexisting)
      split_ifs at hcheck with hless
      · exact absurd hcheck exec_throw_ok
      · rw [ethBalance, hbalance, hpayment]
        simpa [StoreHandler.costOf] using not_lt.1 hless
    | program content' payment htype' =>
      rw [htype] at htype'
      cases htype'
    | «instance» content' payment htype' =>
      rw [htype] at htype'
      cases htype'
  | program content htype hparse =>
    cases h with
    | store content' payment htype' =>
      rw [htype] at htype'
      cases htype'
    | program content' payment _ hparse' hpayment hhold =>
      obtain rfl := Except.ok.inj (hparse.symm.trans hparse')
      rw [htype] at hcovered
      obtain ⟨content', hparse', hcheck⟩ := exec_fromExcept_bind_ok.1 hcovered
      obtain rfl := Except.ok.inj (hparse.symm.trans hparse')
      rw [hpayment, ProgramHandler.costs, hservice, Option.map_some, VmCommon.checkBalance, hhold] at hcheck
      exact exec_validateBalance_hold hcheck
    | «instance» content' payment htype' =>
      rw [htype] at htype'
      cases htype'
  | «instance» content htype hparse =>
    cases h with
    | store content' payment htype' =>
      rw [htype] at htype'
      cases htype'
    | program content' payment htype' =>
      rw [htype] at htype'
      cases htype'
    | «instance» content' payment _ hparse' hpayment hhold =>
      obtain rfl := Except.ok.inj (hparse.symm.trans hparse')
      rw [htype] at hcovered
      obtain ⟨content', hparse', hcheck⟩ := exec_fromExcept_bind_ok.1 hcovered
      obtain rfl := Except.ok.inj (hparse.symm.trans hparse')
      rw [hpayment, InstanceHandler.costs, hservice, Option.map_some, VmCommon.checkBalance, hhold] at hcheck
      exact exec_validateBalance_hold hcheck

/-- The balance check that an accepted message has passed. -/
theorem AcceptedBy.covered {ctx : ProcessorContext} (h : AcceptedBy ctx message n n') :
    ∃ trustedSource, Exec ((handlerOf message.messageType).checkBalance message
      (createHandlerContext ctx trustedSource)).run n (.ok ()) n := by
  obtain ⟨pending, received, hacts, hexec⟩ := h
  obtain ⟨received', message', hacts', -, n₁, hprocess, rfl⟩ := exec_processSingleMessage_processed.1 hexec
  obtain ⟨rfl, rfl⟩ := hacts.unique hacts'
  exact ⟨pending.trustedSource, (exec_processMessage_stages.1 hprocess).2.2.1⟩

/-- **An accepted message leaves what is paid by holding within the balance** exactly if it was checked or fits
anyway. -/
theorem AcceptedBy.solvent_iff {ctx : ProcessorContext} (h : AcceptedBy ctx message n n')
    (hservice : ctx.cost = some .new) (hcharged : Charged ctx.env message address costs) (hhold : OnHold costs)
    (hnonneg : CostsNonneg n) :
    holdTotal n' address ≤ ethBalance n' address ↔ Checked ctx.env message n ∨ Fits n address costs := by
  have hfits : holdTotal n' address ≤ ethBalance n' address ↔ Fits n address costs := by
    rw [h.holdTotal_eq hservice hcharged, h.ethBalance_eq hservice hcharged, if_pos hhold]
    rfl
  rw [hfits]
  refine ⟨.inr, fun hcondition => hcondition.elim (fun hchecked => ?_) id⟩
  obtain ⟨trustedSource, hcovered⟩ := h.covered
  have hle := Checked.le hchecked hservice hcovered hcharged
  have hbeside : holdBeside n address costs ≤ holdTotal n address := holdBeside_le hnonneg
  exact le_trans (by linarith) hle

/-! ## Runs -/

/-- A STORE, PROGRAM or INSTANCE message of the address is accepted by a node with the cost service. -/
structure Charging (env : Env) (address : Address) (message : Message) (costs : List AccountCostRecord)
    (n n' : Node) : Prop where
  accepted : ∃ ctx : ProcessorContext, ctx.env = env ∧ ctx.cost = some .new ∧ AcceptedBy ctx message n n'
  charged : Charged env message address costs

/-- A message of the address is accepted that, if it is paid by holding, is checked or fits. -/
def HoldStep (env : Env) (address : Address) (n n' : Node) : Prop :=
  ∃ message costs, Charging env address message costs n n' ∧
    (OnHold costs → Checked env message n ∨ Fits n address costs)

section Unpaid

theorem parse_store :
    parseContent vmCtx.env StoreContent.decode (fun e => e) firstStore = .ok (storeContent 1700000000) :=
  parseContent_ok.2 ⟨_, rfl, fromStr_store⟩

theorem parse_firstProgram :
    ProgramHandler.parseContent vmCtx.env firstProgram = .ok (programContent none 1700000010) :=
  parseContent_ok.2 ⟨_, rfl, fromStr_firstProgram⟩

/-- The costs of the program. -/
def firstProgramCosts : List AccountCostRecord :=
  CostService.programCosts programHash (programContent none 1700000010)

theorem charging_store : Charging vmCtx.env fileOwner firstStore [] .empty fileStored :=
  ⟨⟨vmCtx, rfl, rfl, delivered_store.accepted⟩, .store (storeContent 1700000000) rfl parse_store⟩

theorem charging_firstProgram : Charging vmCtx.env fileOwner firstProgram firstProgramCosts fileStored withProgram :=
  ⟨⟨vmCtx, rfl, rfl, delivered_firstProgram.accepted⟩,
    .program (programContent none 1700000010) rfl parse_firstProgram⟩

theorem firstProgramCosts_onHold : OnHold firstProgramCosts := by decide +kernel

theorem not_checked_firstProgram : ¬ Checked vmCtx.env firstProgram fileStored := by
  rintro (⟨content, payment, htype, -⟩ | ⟨content, payment, -, hparse, hpayment, -⟩ | ⟨content, payment, htype, -⟩)
  · cases htype
  · obtain rfl := Except.ok.inj (parse_firstProgram.symm.trans hparse)
    cases hpayment
  · cases htype

end Unpaid

end AlephCore.MessageProcessor
