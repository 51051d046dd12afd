import AlephCore.Handlers.VmSpec
import AlephCore.Services.Cost

/-!
# CreditBalance — what a virtual machine paid by credit is checked against

The rule for credit is that the balance covers a day of the costs per second, those that the address has and those of
the message.  The costs of the address are summed up over the credit column; the costs of the message are summed up
over the hold column, whatever the payment type, and the check compares the mixture with the balance.
-/

namespace AlephCore

open ProgE Prog

/-! ## Reads that may be refused -/

/-- A result that is no database error comes from what follows the read. -/
theorem exec_db_query_bind {α β : Type} {f : Node → α} {q : α → Db HandlerError β} {n n' : Node}
    {r : Except HandlerError β} (hr : ∀ d, r ≠ .error (.database d)) :
    Exec (db (query f) >>= q).run n r n' ↔ Exec (q (f n)).run n r n' := by
  cases r with
  | ok b => exact exec_db_query_bind_ok
  | error e =>
    rw [exec_bind_error]
    constructor
    · rintro (h | ⟨a, t, h, hrest⟩)
      · obtain ⟨d, rfl, -⟩ := exec_mapErr_error.1 h
        exact absurd rfl (hr d)
      · obtain ⟨rfl, rfl⟩ := exec_query_ok.1 (exec_db_ok.1 h)
        exact hrest
    · intro h
      exact .inr ⟨f n, n, exec_db_ok.2 (exec_query_ok.2 ⟨rfl, rfl⟩), h⟩

theorem exec_fromExcept_ok_bind {ε α β : Type} {a : α} {q : α → Db ε β} {n n' : Node} {r : Except ε β} :
    Exec (fromExcept (.ok a) >>= q).run n r n' ↔ Exec (q a).run n r n' := Iff.rfl

namespace VmCommon

/-! ## The rule -/

/-- The credit balance of an address, zero without a row. -/
def creditBalance (n : Node) (address : Address) : ℚ :=
  ((n.creditBalances.find? address).map CreditBalanceRow.balance).getD 0

/-- The credit costs of what an address pays by credit. -/
def creditTotal (n : Node) (address : Address) : ℚ :=
  ((n.accountCosts.rows.filter fun c => c.owner = address ∧ c.paymentType = "credit").map
    AccountCostRecord.costCredit).sum

/-- A day of the costs of the address and of the message, the latter counted in a column. -/
def dayCost (column : AccountCostRecord → ℚ) (n : Node) (address : Address) (costs : List AccountCostRecord) : ℚ :=
  (creditTotal n address + (costs.map column).sum) * 86400

/-- A virtual machine that the address pays by credit, and its costs. -/
inductive PaidByCredit (message : Message) (ctx : HandlerContext) : Address → List AccountCostRecord → Prop
  | program (content : ProgramContent) (payment : PaymentInfo) (service : CostService)
      (htype : message.messageType = .program)
      (hparse : ProgramHandler.parseContent ctx.env message = .ok content)
      (hpayment : content.payment = some payment) (hcredit : payment.paymentType = .credit)
      (hservice : ctx.cost = some service) :
      PaidByCredit message ctx content.address (service.calculateProgramCosts message.itemHash content)
  | instance (content : InstanceContent) (payment : PaymentInfo) (service : CostService)
      (htype : message.messageType = .instance)
      (hparse : InstanceHandler.parseContent ctx.env message = .ok content)
      (hpayment : content.payment = some payment) (hcredit : payment.paymentType = .credit)
      (hservice : ctx.cost = some service) :
      PaidByCredit message ctx content.address (service.calculateInstanceCosts message.itemHash content)

/-- `check_balance` accepts the message. -/
def BalanceAccepted (n : Node) (message : Message) (ctx : HandlerContext) : Prop :=
  ∃ n', Exec ((handlerOf message.messageType).checkBalance message ctx).run n (.ok ()) n'

/-- `check_balance` refuses it for insufficient credit. -/
def CreditRefused (n : Node) (message : Message) (ctx : HandlerContext) : Prop :=
  ∃ n', Exec ((handlerOf message.messageType).checkBalance message ctx).run n (.error .insufficientCredit) n'

/-- What is accepted is covered by a day of the credit costs, and what is covered is not refused. -/
structure KeepsCreditRule (n : Node) (message : Message) (ctx : HandlerContext) (address : Address)
    (costs : List AccountCostRecord) : Prop where
  accepted : BalanceAccepted n message ctx → dayCost AccountCostRecord.costCredit n address costs ≤ creditBalance n address
  covered : dayCost AccountCostRecord.costCredit n address costs ≤ creditBalance n address → ¬ CreditRefused n message ctx

/-! ## The check -/

variable {n n' : Node} {message : Message} {ctx : HandlerContext} {address : Address} {costs : List AccountCostRecord}
  {cost : ℚ}

/-- Once both totals are read the check is a comparison. -/
theorem exec_validateBalance_credit {r : Except HandlerError Unit} (hr : ∀ d, r ≠ .error (.database d)) :
    Exec (validateBalance address .credit cost).run n r n' ↔
      Exec (if creditBalance n address < (creditTotal n address + cost) * 86400 then throw .insufficientCredit
        else pure () : Db HandlerError Unit).run n r n' := by
  unfold validateBalance PgDatabase.getCreditBalance PgDatabase.getTotalCostForAddress
  dsimp only
  rw [exec_db_query_bind hr, exec_db_query_bind hr]
  exact Iff.rfl

theorem exec_validateBalance_credit_ok :
    Exec (validateBalance address .credit cost).run n (.ok ()) n' ↔
      (creditTotal n address + cost) * 86400 ≤ creditBalance n address ∧ n' = n := by
  rw [exec_validateBalance_credit fun d h => by cases h]
  split_ifs with hless
  · exact iff_of_false exec_throw_ok fun h => absurd hless (not_lt.2 h.1)
  · rw [exec_pure_ok]
    exact ⟨fun h => ⟨not_lt.1 hless, h.2⟩, fun h => ⟨rfl, h.2⟩⟩

theorem exec_validateBalance_credit_refused :
    Exec (validateBalance address .credit cost).run n (.error .insufficientCredit) n' ↔
      creditBalance n address < (creditTotal n address + cost) * 86400 ∧ n' = n := by
  rw [exec_validateBalance_credit fun d h => by cases h]
  split_ifs with hless
  · rw [exec_throw_error]
    exact ⟨fun h => ⟨hless, h.2⟩, fun h => ⟨rfl, h.2⟩⟩
  · exact iff_of_false exec_pure_error fun h => hless h.1

/-- The check of either handler is the credit check of the hold costs. -/
theorem PaidByCredit.exec_checkBalance (h : PaidByCredit message ctx address costs) {r : Except HandlerError Unit} :
    Exec ((handlerOf message.messageType).checkBalance message ctx).run n r n' ↔
      Exec (validateBalance address .credit (costs.map AccountCostRecord.costHold).sum).run n r n' := by
  cases h with
  | program content payment service htype hparse hpayment hcredit hservice =>
    have hcheck : ProgramHandler.checkBalance message ctx =
        fromExcept (ProgramHandler.parseContent ctx.env message) >>= fun content =>
          VmCommon.checkBalance content.address content.payment (ProgramHandler.costs message content ctx) := rfl
    have hhandler : (handlerOf .program).checkBalance = ProgramHandler.checkBalance := rfl
    rw [htype, hhandler, hcheck, hparse, exec_fromExcept_ok_bind, hpayment, ProgramHandler.costs, hservice,
      Option.map_some, VmCommon.checkBalance, hcredit]
  | «instance» content payment service htype hparse hpayment hcredit hservice =>
    have hcheck : InstanceHandler.checkBalance message ctx =
        fromExcept (InstanceHandler.parseContent ctx.env message) >>= fun content =>
          VmCommon.checkBalance content.address content.payment (InstanceHandler.costs message content ctx) := rfl
    have hhandler : (handlerOf .instance).checkBalance = InstanceHandler.checkBalance := rfl
    rw [htype, hhandler, hcheck, hparse, exec_fromExcept_ok_bind, hpayment, InstanceHandler.costs, hservice,
      Option.map_some, VmCommon.checkBalance, hcredit]

theorem PaidByCredit.accepted_iff (h : PaidByCredit message ctx address costs) :
    BalanceAccepted n message ctx ↔ dayCost AccountCostRecord.costHold n address costs ≤ creditBalance n address := by
  unfold BalanceAccepted
  simp only [h.exec_checkBalance, exec_validateBalance_credit_ok]
  exact ⟨fun ⟨_, hle, _⟩ => hle, fun hle => ⟨n, hle, rfl⟩⟩

theorem PaidByCredit.refused_iff (h : PaidByCredit message ctx address costs) :
    CreditRefused n message ctx ↔ creditBalance n address < dayCost AccountCostRecord.costHold n address costs := by
  unfold CreditRefused
  simp only [h.exec_checkBalance, exec_validateBalance_credit_refused]
  exact ⟨fun ⟨_, hlt, _⟩ => hlt, fun hlt => ⟨n, hlt, rfl⟩⟩

/-- **The credit rule is kept** exactly if the balance does not lie between a day of the hold costs and a day of the
credit costs. -/
theorem PaidByCredit.keepsCreditRule_iff (h : PaidByCredit message ctx address costs) :
    KeepsCreditRule n message ctx address costs ↔
      ¬ (min (dayCost AccountCostRecord.costHold n address costs) (dayCost AccountCostRecord.costCredit n address costs) ≤
          creditBalance n address ∧
        creditBalance n address <
          max (dayCost AccountCostRecord.costHold n address costs)
            (dayCost AccountCostRecord.costCredit n address costs)) := by
  have hrule : KeepsCreditRule n message ctx address costs ↔
      (dayCost AccountCostRecord.costHold n address costs ≤ creditBalance n address ↔
        dayCost AccountCostRecord.costCredit n address costs ≤ creditBalance n address) := by
    constructor
    · rintro ⟨haccepted, hcovered⟩
      refine ⟨fun hle => haccepted (h.accepted_iff.2 hle), fun hle => ?_⟩
      by_contra hlt
      exact hcovered hle (h.refused_iff.2 (not_le.1 hlt))
    · intro hiff
      exact ⟨fun hacc => hiff.1 (h.accepted_iff.1 hacc),
        fun hle hrefused => absurd (h.refused_iff.1 hrefused) (not_lt.2 (hiff.2 hle))⟩
  rw [hrule, min_le_iff, lt_max_iff]
  constructor
  · rintro hiff ⟨hmin, hmax⟩
    rcases hmax with hlt | hlt
    · exact absurd (hmin.elim id hiff.2) (not_le.2 hlt)
    · exact absurd (hmin.elim hiff.1 id) (not_le.2 hlt)
  · intro hnot
    constructor
    · intro hle
      by_contra hlt
      exact hnot ⟨.inl hle, .inr (not_le.1 hlt)⟩
    · intro hle
      by_contra hlt
      exact hnot ⟨.inr hle, .inl (not_le.1 hlt)⟩

/-! ### A small instance -/

section Small

/-- An instance of one compute unit, paid by credit. -/
def creditJson : Json := .obj
  [("address", .str "0xpayer"),
    ("rootfs", .obj [("parent", .obj [("ref", .str "image"), ("use_latest", .bool false)]),
      ("persistence", .str "host"), ("size_mib", .num (.int 0))]),
    ("resources", .obj [("vcpus", .num (.int 1)), ("memory", .num (.int 2048)), ("seconds", .num (.int 30))]),
    ("payment", .obj [("chain", .str "ETH"), ("type", .str "credit")]),
    ("time", .num (.int 1700000000))]

def creditMessage : Message where
  messageType := .instance
  chain := .eth
  sender := "0xpayer"
  signature := ""
  itemType := .inline
  itemHash := "vm"
  itemContent := some "vm"
  channel := none
  time := 1700000000

def creditCtx : HandlerContext := ⟨Env.ofTables [("vm", creditJson)] [] [], .stored, 1700000000, some .new, false⟩

def creditContent : InstanceContent where
  address := "0xpayer"
  allowAmend := true
  rootfs := ⟨⟨"image", false⟩, "host", 0⟩
  resources := ⟨2048, 1, 30⟩
  environment := none
  metadata := none
  vars := none
  volumes := []
  authorizedKeys := []
  payment := some ⟨.eth, .credit, none⟩
  requirements := none
  replaces := none
  time := 1700000000

def creditCosts : List AccountCostRecord := CostService.instanceCosts "vm" creditContent

/-- A node where the address has that much credit. -/
def creditNode (balance : ℚ) : Node := { (.empty : Node) with creditBalances := Table.empty.insertNew ⟨"0xpayer", balance⟩ }

theorem paidByCredit_small : PaidByCredit creditMessage creditCtx "0xpayer" creditCosts := by
  have hparse : InstanceHandler.parseContent creditCtx.env creditMessage = .ok creditContent := by decide +kernel
  exact .instance creditContent ⟨.eth, .credit, none⟩ .new rfl hparse rfl rfl rfl

/-- **A hundred credits** are enough for a day of 95.04, the hold costs, although the credit costs of the day are
950.40. -/
theorem hundred_credits_accepted :
    PaidByCredit creditMessage creditCtx "0xpayer" creditCosts ∧
      BalanceAccepted (creditNode 100) creditMessage creditCtx ∧
        ¬ dayCost AccountCostRecord.costCredit (creditNode 100) "0xpayer" creditCosts ≤
          creditBalance (creditNode 100) "0xpayer" := by
  refine ⟨paidByCredit_small, paidByCredit_small.accepted_iff.2 ?_, ?_⟩
  · decide +kernel
  · decide +kernel

/-- A thousand credits cover both. -/
theorem thousand_credits_keep : KeepsCreditRule (creditNode 1000) creditMessage creditCtx "0xpayer" creditCosts :=
  paidByCredit_small.keepsCreditRule_iff.2 (by decide +kernel)

end Small

end VmCommon

end AlephCore
