import AlephCore.Handlers.Context
import Mathlib.Data.List.Sigma
import Mathlib.Tactic.NormNum

/-!
# Cost — the cost records of virtual machines

Mirrors `calculate_instance_costs` and `calculate_program_costs` of `services/cost.rs`, with the default
prices they use.
-/

namespace AlephCore.CostService

/-! ## Default prices -/

/-- Storage holding cost per MiB per hour. -/
def storageHolding : ℚ := 16 / 1000000000

/-- Storage credit cost per MiB per hour. -/
def storageCredit : ℚ := 33 / 10000

/-- Compute holding cost per unit per hour. -/
def computeHolding : ℚ := 11 / 10000

/-- Compute credit cost per unit per hour. -/
def computeCredit : ℚ := 11 / 1000

/-! ## Records -/

/-- A compute unit is 2048 MiB and one vCPU; the sum saturates at 32 bits. -/
def calculateComputeUnits (memoryMib vcpus : Nat) : Nat :=
  max (min (memoryMib + 2047) (2 ^ 32 - 1) / 2048) vcpus

def paymentTypeOf (payment : Option PaymentInfo) : String :=
  (payment.map fun p => p.paymentType.toString).getD "hold"

/-- The cost of running. -/
def executionCost (owner : Address) (itemHash : ItemHash) (payment : Option PaymentInfo)
    (resources : VmResources) : AccountCostRecord :=
  let computeUnits : ℚ := calculateComputeUnits resources.memory resources.vcpus
  { owner, itemHash, costType := "EXECUTION", name := "execution", refHash := none,
    paymentType := paymentTypeOf payment, costHold := computeHolding * computeUnits, costStream := 0,
    costCredit := computeCredit * computeUnits }

/-- The cost of storage of that size. -/
def storageCost (owner : Address) (itemHash : ItemHash) (payment : Option PaymentInfo)
    (costType name : String) (refHash : Option ItemHash) (sizeMib : Nat) : AccountCostRecord :=
  { owner, itemHash, costType, name, refHash, paymentType := paymentTypeOf payment,
    costHold := storageHolding * sizeMib, costStream := 0, costCredit := storageCredit * sizeMib }

/-- The cost type, size and reference of a volume. -/
def volumeParts : VolumeSource → String × Nat × Option ItemHash
  | .immutable ref_ _ => ("EXECUTION_VOLUME_IMMUTABLE", 0, some ref_)
  | .persistent _ _ sizeMib => ("EXECUTION_VOLUME_PERSISTENT", sizeMib, none)
  | .ephemeral _ sizeMib => ("EXECUTION_VOLUME_EPHEMERAL", sizeMib, none)

/-- Machine volume costs. -/
def volumeCosts (owner : Address) (itemHash : ItemHash) (payment : Option PaymentInfo)
    (volumes : List VolumeInfo) : List AccountCostRecord :=
  volumes.zipIdx.map fun (vol, i) =>
    let (costType, size, refHash) := volumeParts vol.source
    storageCost owner itemHash payment costType s!"volume_{i}" refHash size

/-- Calculate costs for an instance message. -/
def instanceCosts (itemHash : ItemHash) (content : InstanceContent) : List AccountCostRecord :=
  executionCost content.address itemHash content.payment content.resources ::
    storageCost content.address itemHash content.payment "EXECUTION_INSTANCE_VOLUME_ROOTFS" "rootfs"
      (some content.rootfs.parent.ref_) content.rootfs.sizeMib ::
    volumeCosts content.address itemHash content.payment content.volumes

/-- Calculate costs for a program message. -/
def programCosts (itemHash : ItemHash) (content : ProgramContent) : List AccountCostRecord :=
  executionCost content.address itemHash content.payment content.resources ::
    volumeCosts content.address itemHash content.payment content.volumes

/-- The cost service of the node. -/
def new : CostService := ⟨instanceCosts, programCosts⟩

/-! ## Every record is one of the message -/

variable {itemHash : ItemHash}

theorem volumeCosts_itemHash {owner : Address} {payment : Option PaymentInfo} {volumes : List VolumeInfo} :
    ∀ c ∈ volumeCosts owner itemHash payment volumes, c.itemHash = itemHash := by
  intro c hc
  obtain ⟨v, -, rfl⟩ := List.mem_map.1 hc
  rfl

theorem programCosts_itemHash {content : ProgramContent} :
    ∀ c ∈ programCosts itemHash content, c.itemHash = itemHash := by
  intro c hc
  rcases List.mem_cons.1 hc with rfl | hc
  · rfl
  · exact volumeCosts_itemHash c hc

theorem instanceCosts_itemHash {content : InstanceContent} :
    ∀ c ∈ instanceCosts itemHash content, c.itemHash = itemHash := by
  intro c hc
  rcases List.mem_cons.1 hc with rfl | hc
  · rfl
  · rcases List.mem_cons.1 hc with rfl | hc
    · rfl
    · exact volumeCosts_itemHash c hc

/-- The key of a cost. -/
def costKey (c : AccountCostRecord) : Address × ItemHash × String × String := (c.owner, c.itemHash, c.costType, c.name)

/-- Costs of one owner, of one payment type, none of them negative and no two under one key. -/
structure Bill (owner : Address) (paymentType : String) (costs : List AccountCostRecord) : Prop where
  owned : ∀ c ∈ costs, c.owner = owner
  paid : ∀ c ∈ costs, c.paymentType = paymentType
  nonneg : ∀ c ∈ costs, 0 ≤ c.costHold
  nodup : (costs.map costKey).Nodup

variable {owner : Address} {payment : Option PaymentInfo} {paymentType : String} {c : AccountCostRecord}
  {costs : List AccountCostRecord}

theorem bill_nil : Bill owner paymentType [] := ⟨by simp, by simp, by simp, List.nodup_nil⟩

/-- One more cost, of a type of its own. -/
theorem Bill.cons (h : Bill owner paymentType costs) (howner : c.owner = owner) (hpaid : c.paymentType = paymentType)
    (hnonneg : 0 ≤ c.costHold) (hnew : ∀ d ∈ costs, d.costType ≠ c.costType) : Bill owner paymentType (c :: costs) := by
  refine ⟨?_, ?_, ?_, List.nodup_cons.2 ⟨fun hmem => ?_, h.nodup⟩⟩
  · exact List.forall_mem_cons.2 ⟨howner, h.owned⟩
  · exact List.forall_mem_cons.2 ⟨hpaid, h.paid⟩
  · exact List.forall_mem_cons.2 ⟨hnonneg, h.nonneg⟩
  · obtain ⟨d, hd, he⟩ := List.mem_map.1 hmem
    exact hnew d hd (congrArg (fun k => k.2.2.1) he)

theorem computeHolding_nonneg (units : ℕ) : 0 ≤ computeHolding * units :=
  mul_nonneg (by norm_num [computeHolding]) (Nat.cast_nonneg units)

theorem storageHolding_nonneg (sizeMib : ℕ) : 0 ≤ storageHolding * sizeMib :=
  mul_nonneg (by norm_num [storageHolding]) (Nat.cast_nonneg sizeMib)

/-- Volumes are numbered. -/
theorem volumeName_injective : Function.Injective fun i : Nat => s!"volume_{i}" := by
  intro i j h
  have hrepr : (toString i).toList = (toString j).toList := by
    have hlist := congrArg String.toList h
    simpa using hlist
  have hdigits : Nat.toDigits 10 i = Nat.toDigits 10 j := by simpa [Nat.repr] using hrepr
  rw [← Nat.ofDigitChars_ten_toDigits (n := i), hdigits, Nat.ofDigitChars_ten_toDigits]

theorem volumeCosts_costType {volumes : List VolumeInfo} (h : c ∈ volumeCosts owner itemHash payment volumes) :
    c.costType ∈ ["EXECUTION_VOLUME_IMMUTABLE", "EXECUTION_VOLUME_PERSISTENT", "EXECUTION_VOLUME_EPHEMERAL"] := by
  obtain ⟨v, -, rfl⟩ := List.mem_map.1 h
  cases hsource : v.1.source <;> simp [volumeParts, storageCost, hsource]

theorem bill_volumeCosts {volumes : List VolumeInfo} :
    Bill owner (paymentTypeOf payment) (volumeCosts owner itemHash payment volumes) := by
  refine ⟨fun c hc => ?_, fun c hc => ?_, fun c hc => ?_, ?_⟩
  · obtain ⟨v, -, rfl⟩ := List.mem_map.1 hc
    rfl
  · obtain ⟨v, -, rfl⟩ := List.mem_map.1 hc
    rfl
  · obtain ⟨v, -, rfl⟩ := List.mem_map.1 hc
    exact storageHolding_nonneg _
  · have hnames : ((volumeCosts owner itemHash payment volumes).map AccountCostRecord.name) =
        (volumes.zipIdx.map Prod.snd).map fun i => s!"volume_{i}" := by
      rw [volumeCosts, List.map_map, List.map_map]
      rfl
    have hnodup : ((volumeCosts owner itemHash payment volumes).map AccountCostRecord.name).Nodup := by
      rw [hnames]
      exact (List.nodup_zipIdx_map_snd _).map volumeName_injective
    refine List.Nodup.of_map (fun k => k.2.2.2) ?_
    rw [List.map_map]
    exact hnodup

theorem bill_programCosts {content : ProgramContent} :
    Bill content.address (paymentTypeOf content.payment) (programCosts itemHash content) := by
  refine bill_volumeCosts.cons rfl rfl (computeHolding_nonneg _) fun d hd he => ?_
  have htype := volumeCosts_costType hd
  rw [he] at htype
  simp [executionCost] at htype

theorem bill_instanceCosts {content : InstanceContent} :
    Bill content.address (paymentTypeOf content.payment) (instanceCosts itemHash content) := by
  have hvolumes : ∀ d ∈ volumeCosts content.address itemHash content.payment content.volumes,
      d.costType ≠ "EXECUTION_INSTANCE_VOLUME_ROOTFS" ∧ d.costType ≠ "EXECUTION" := by
    intro d hd
    have htype := volumeCosts_costType hd
    simp only [List.mem_cons, List.not_mem_nil, or_false] at htype
    rcases htype with he | he | he <;> rw [he] <;> decide
  refine Bill.cons (bill_volumeCosts.cons rfl rfl (storageHolding_nonneg _) fun d hd => (hvolumes d hd).1) rfl rfl
    (computeHolding_nonneg _) fun d hd => ?_
  rcases List.mem_cons.1 hd with rfl | hd
  · show "EXECUTION_INSTANCE_VOLUME_ROOTFS" ≠ "EXECUTION"
    decide
  · exact (hvolumes d hd).2

end AlephCore.CostService
