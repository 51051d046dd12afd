import AlephCore.Handlers.VmSpec
import AlephCore.Lib.FixedDecimal
import AlephCore.Services.Cost
import Mathlib.Algebra.BigOperators.Ring.Finset
import Mathlib.Order.Bounds.Defs

/-!
# DeclaredCosts — what a virtual machine is charged for what it declares

The hold costs of a content are those of its compute units and of the storage it declares: the records have keys of
their own, so the upsert merges none, and each amount is a product that a decimal holds exactly.  The compute units
are the least that cover memory and processors, except where the rounding of the memory saturates.
-/

namespace AlephCore

namespace CostService

open PgDatabase

/-! ## Compute units -/

/-- The numbers of units that cover the resources: 2048 MiB and one processor each. -/
def covering (memoryMib vcpus : Nat) : Set Nat := {u | memoryMib ≤ 2048 * u ∧ vcpus ≤ u}

/-- **The compute units are the least that cover the resources** exactly if the rounding does not saturate or the
processors need as many units anyway. -/
theorem calculateComputeUnits_isLeast_iff {memoryMib vcpus : Nat} (hmemory : memoryMib < 2 ^ 32) :
    IsLeast (covering memoryMib vcpus) (calculateComputeUnits memoryMib vcpus) ↔
      memoryMib ≤ 2 ^ 32 - 2048 ∨ 2097152 ≤ vcpus := by
  unfold calculateComputeUnits
  constructor
  · intro h
    by_contra hnot
    have hcovers : memoryMib ≤ 2048 * max (min (memoryMib + 2047) (2 ^ 32 - 1) / 2048) vcpus := h.1.1
    rw [min_eq_right (by omega)] at hcovers
    omega
  · intro h
    refine ⟨⟨?_, le_max_right _ _⟩, ?_⟩
    · rcases h with h | h
      · rw [min_eq_left (by omega)]
        have hle := le_max_left ((memoryMib + 2047) / 2048) vcpus
        omega
      · have hle := le_max_right (min (memoryMib + 2047) (2 ^ 32 - 1) / 2048) vcpus
        omega
    · rintro u ⟨hu, hvcpus⟩
      have hle := min_le_left (memoryMib + 2047) (2 ^ 32 - 1)
      exact max_le (by omega) hvcpus

/-! ## Prices -/

/-- The default prices, as decimals. -/
def storageHoldingPrice : FixedDecimal := ⟨16, 9, by omega, by omega⟩

def storageCreditPrice : FixedDecimal := ⟨33, 4, by omega, by omega⟩

def computeHoldingPrice : FixedDecimal := ⟨11, 4, by omega, by omega⟩

def computeCreditPrice : FixedDecimal := ⟨11, 3, by omega, by omega⟩

/-- The amount is the product of the price and a number of 32 bits, and the product does not overflow, however
decimals that do not fit are rounded. -/
def Charges (price : FixedDecimal) (units : UInt32) (amount : ℚ) : Prop :=
  ∀ round, ∃ d, price.mul round (.ofU32 units) = some d ∧ d.value = amount

theorem charges_mul {price : FixedDecimal} {rate : ℚ} (hvalue : price.value = rate) (hsmall : price.mantissa < 2 ^ 64)
    {units : Nat} (hunits : units < 2 ^ 32) : Charges price units.toUInt32 (rate * units) := by
  intro round
  obtain ⟨d, hd, he⟩ : ∃ d, price.mul round (.ofU32 units.toUInt32) = some d ∧
      d.value = price.value * units.toUInt32.toNat := FixedDecimal.mul_ofU32 hsmall units.toUInt32
  refine ⟨d, hd, ?_⟩
  rw [he, hvalue, Nat.toUInt32_eq, UInt32.toNat_ofNat', Nat.mod_eq_of_lt hunits]

/-- A record whose amounts are products of a holding and a credit price with one number. -/
def Exact (c : AccountCostRecord) : Prop :=
  ∃ units, (Charges computeHoldingPrice units c.costHold ∧ Charges computeCreditPrice units c.costCredit) ∨
    (Charges storageHoldingPrice units c.costHold ∧ Charges storageCreditPrice units c.costCredit)

theorem storageHoldingPrice_value : storageHoldingPrice.value = storageHolding := by
  norm_num [FixedDecimal.value, storageHoldingPrice, storageHolding]

theorem storageCreditPrice_value : storageCreditPrice.value = storageCredit := by
  norm_num [FixedDecimal.value, storageCreditPrice, storageCredit]

theorem computeHoldingPrice_value : computeHoldingPrice.value = computeHolding := by
  norm_num [FixedDecimal.value, computeHoldingPrice, computeHolding]

theorem computeCreditPrice_value : computeCreditPrice.value = computeCredit := by
  norm_num [FixedDecimal.value, computeCreditPrice, computeCredit]

variable {owner : Address} {itemHash : ItemHash} {payment : Option PaymentInfo} {resources : VmResources}
  {costs : List AccountCostRecord}

theorem exact_storageCost {costType name : String} {refHash : Option ItemHash} {sizeMib : Nat}
    (hsize : sizeMib < 2 ^ 32) : Exact (storageCost owner itemHash payment costType name refHash sizeMib) :=
  ⟨sizeMib.toUInt32, .inr ⟨charges_mul storageHoldingPrice_value (by decide) hsize,
    charges_mul storageCreditPrice_value (by decide) hsize⟩⟩

theorem exact_executionCost (hvcpus : resources.vcpus < 2 ^ 32) :
    Exact (executionCost owner itemHash payment resources) := by
  have hunits : calculateComputeUnits resources.memory resources.vcpus < 2 ^ 32 := by
    have hle := min_le_right (resources.memory + 2047) (2 ^ 32 - 1)
    unfold calculateComputeUnits
    exact max_lt (by omega) hvcpus
  exact ⟨_, .inl ⟨charges_mul computeHoldingPrice_value (by decide) hunits,
    charges_mul computeCreditPrice_value (by decide) hunits⟩⟩

/-! ## Declared storage -/

/-- The size that a volume declares; an immutable one declares none. -/
def declaredSize (v : VolumeInfo) : Nat :=
  match v.source with
  | .immutable _ _ => 0
  | .persistent _ _ sizeMib => sizeMib
  | .ephemeral _ sizeMib => sizeMib

def declaredSizes (volumes : List VolumeInfo) : Nat := (volumes.map declaredSize).sum

theorem volumeParts_size (v : VolumeInfo) : (volumeParts v.source).2.1 = declaredSize v := by
  unfold volumeParts declaredSize
  cases v.source with
  | ephemeral _ _ => rfl
  | persistent _ _ _ => rfl
  | immutable _ _ => rfl

/-- The record of each volume. -/
theorem volumeCosts_eq (volumes : List VolumeInfo) :
    volumeCosts owner itemHash payment volumes = volumes.zipIdx.map fun p =>
      storageCost owner itemHash payment (volumeParts p.1.source).1 s!"volume_{p.2}" (volumeParts p.1.source).2.2
        (declaredSize p.1) := by
  refine List.map_congr_left fun p _ => ?_
  rw [← volumeParts_size]

theorem exact_volumeCosts {volumes : List VolumeInfo} (hsizes : ∀ v ∈ volumes, declaredSize v < 2 ^ 32) :
    ∀ c ∈ volumeCosts owner itemHash payment volumes, Exact c := by
  intro c hc
  rw [volumeCosts_eq] at hc
  obtain ⟨p, hp, rfl⟩ := List.mem_map.1 hc
  exact exact_storageCost (hsizes p.1 (List.fst_mem_of_mem_zipIdx hp))

theorem sum_volumeCosts (volumes : List VolumeInfo) :
    ((volumeCosts owner itemHash payment volumes).map AccountCostRecord.costHold).sum =
      storageHolding * declaredSizes volumes := by
  have hholds : (volumeCosts owner itemHash payment volumes).map AccountCostRecord.costHold =
      (volumes.zipIdx.map Prod.fst).map fun v => storageHolding * declaredSize v := by
    rw [volumeCosts_eq, List.map_map, List.map_map]
    rfl
  rw [hholds, List.zipIdx_map_fst, declaredSizes, List.sum_map_mul_left, Nat.cast_list_sum, List.map_map]
  rfl

/-! ## Contents -/

open Serde in
theorem yields_declaredSize : Yields VolumeInfo.decode fun v => declaredSize v < 2 ^ 32 := by
  have hsource : ∀ x source, VolumeSource.decode x = .ok source → ∀ mount comment,
      declaredSize ⟨mount, comment, source⟩ < 2 ^ 32 := by
    intro x source h mount comment
    unfold VolumeSource.decode at h
    split at h
    · rename_i v hv
      obtain rfl := Except.ok.inj h
      obtain ⟨s, -, hv⟩ := bind_ok.1 hv
      obtain ⟨ephemeral, -, hv⟩ := bind_ok.1 hv
      obtain ⟨sizeMib, hsize, hv⟩ := bind_ok.1 hv
      obtain rfl := Except.ok.inj hv
      exact yields_asUInt.required hsize
    · rename_i v hv _
      obtain rfl := Except.ok.inj h
      obtain ⟨s, -, hv⟩ := bind_ok.1 hv
      obtain ⟨persistence, -, hv⟩ := bind_ok.1 hv
      obtain ⟨name, -, hv⟩ := bind_ok.1 hv
      obtain ⟨sizeMib, hsize, hv⟩ := bind_ok.1 hv
      obtain rfl := Except.ok.inj hv
      exact yields_asUInt.required hsize
    · rename_i v hv _ _
      obtain rfl := Except.ok.inj h
      obtain ⟨s, -, hv⟩ := bind_ok.1 hv
      obtain ⟨ref_, -, hv⟩ := bind_ok.1 hv
      obtain ⟨useLatest, -, hv⟩ := bind_ok.1 hv
      obtain rfl := Except.ok.inj hv
      exact Nat.two_pow_pos 32
    · cases h
  intro x v h
  cases x with
  | obj fs =>
    obtain ⟨s, -, h⟩ := bind_ok.1 h
    obtain ⟨mount, -, h⟩ := bind_ok.1 h
    obtain ⟨comment, -, h⟩ := bind_ok.1 h
    obtain ⟨source, hdecode, h⟩ := bind_ok.1 h
    obtain rfl := Except.ok.inj h
    exact hsource _ _ hdecode _ _
  | _ => cases h

open Serde in
theorem yields_rootfsSize : Yields RootfsInfo.decode fun r => r.sizeMib < 2 ^ 32 := by
  intro x r h
  obtain ⟨s, -, h⟩ := bind_ok.1 h
  obtain ⟨parent, -, h⟩ := bind_ok.1 h
  obtain ⟨persistence, -, h⟩ := bind_ok.1 h
  obtain ⟨sizeMib, hsize, h⟩ := bind_ok.1 h
  obtain rfl := Except.ok.inj h
  exact yields_asUInt.required hsize

open Serde in
theorem yields_vcpus : Yields VmResources.decode fun r => r.vcpus < 2 ^ 32 := by
  intro x r h
  obtain ⟨s, -, h⟩ := bind_ok.1 h
  obtain ⟨memory, -, h⟩ := bind_ok.1 h
  obtain ⟨vcpus, hvcpus, h⟩ := bind_ok.1 h
  obtain ⟨seconds, -, h⟩ := bind_ok.1 h
  obtain rfl := Except.ok.inj h
  exact yields_asUInt.required hvcpus

open Serde in
theorem yields_instanceSizes : Yields InstanceContent.decode fun content =>
    content.resources.vcpus < 2 ^ 32 ∧ content.rootfs.sizeMib < 2 ^ 32 ∧
      ∀ v ∈ content.volumes, declaredSize v < 2 ^ 32 := by
  intro x content h
  obtain ⟨s, -, h⟩ := bind_ok.1 h
  iterate 2 obtain ⟨_, -, h⟩ := bind_ok.1 h
  obtain ⟨rootfs, hrootfs, h⟩ := bind_ok.1 h
  obtain ⟨resources, hresources, h⟩ := bind_ok.1 h
  iterate 3 obtain ⟨_, -, h⟩ := bind_ok.1 h
  obtain ⟨volumes, hvolumes, h⟩ := bind_ok.1 h
  iterate 5 obtain ⟨_, -, h⟩ := bind_ok.1 h
  obtain rfl := Except.ok.inj h
  exact ⟨yields_vcpus.required hresources, yields_rootfsSize.required hrootfs,
    yields_declaredSize.asVec.withDefault (fun _ hv => absurd hv List.not_mem_nil) hvolumes⟩

open Serde in
theorem yields_programSizes : Yields ProgramContent.decode fun content =>
    content.resources.vcpus < 2 ^ 32 ∧ ∀ v ∈ content.volumes, declaredSize v < 2 ^ 32 := by
  intro x content h
  obtain ⟨s, -, h⟩ := bind_ok.1 h
  iterate 4 obtain ⟨_, -, h⟩ := bind_ok.1 h
  obtain ⟨resources, hresources, h⟩ := bind_ok.1 h
  iterate 3 obtain ⟨_, -, h⟩ := bind_ok.1 h
  obtain ⟨volumes, hvolumes, h⟩ := bind_ok.1 h
  iterate 6 obtain ⟨_, -, h⟩ := bind_ok.1 h
  obtain rfl := Except.ok.inj h
  exact ⟨yields_vcpus.required hresources,
    yields_declaredSize.asVec.withDefault (fun _ hv => absurd hv List.not_mem_nil) hvolumes⟩

theorem sum_instanceCosts {content : InstanceContent} :
    ((instanceCosts itemHash content).map AccountCostRecord.costHold).sum =
      computeHolding * calculateComputeUnits content.resources.memory content.resources.vcpus +
        storageHolding * (content.rootfs.sizeMib + declaredSizes content.volumes : ℕ) := by
  rw [instanceCosts, List.map_cons, List.map_cons, List.sum_cons, List.sum_cons, sum_volumeCosts, Nat.cast_add, mul_add]
  rfl

theorem sum_programCosts {content : ProgramContent} :
    ((programCosts itemHash content).map AccountCostRecord.costHold).sum =
      computeHolding * calculateComputeUnits content.resources.memory content.resources.vcpus +
        storageHolding * declaredSizes content.volumes := by
  rw [programCosts, List.map_cons, List.sum_cons, sum_volumeCosts]
  rfl

/-- The records calculated for a content, with the resources and the storage in MiB that it declares. -/
inductive Billing (itemHash : ItemHash) : VmResources → Nat → List AccountCostRecord → Prop
  | instance (x : Json) (content : InstanceContent) (hdecode : InstanceContent.decode x = .ok content) :
      Billing itemHash content.resources (content.rootfs.sizeMib + declaredSizes content.volumes)
        (new.calculateInstanceCosts itemHash content)
  | program (x : Json) (content : ProgramContent) (hdecode : ProgramContent.decode x = .ok content) :
      Billing itemHash content.resources (declaredSizes content.volumes) (new.calculateProgramCosts itemHash content)

local instance lawfulCostKey : LawfulBEq (Address × ItemHash × String × String) := inferInstance

/-- What the records of these costs add up to in the table. -/
def keptTotal (costs : List AccountCostRecord) (n : Node) : ℚ :=
  (n.accountCosts.rows.map fun c => if costKey c ∈ costs.map costKey then c.costHold else 0).sum

/-- The records stored add up to the costs of the compute units and of the declared storage, and no amount of them
overflows a decimal. -/
structure CountsDeclared (resources : VmResources) (storageMib : Nat) (costs : List AccountCostRecord) : Prop where
  total : ∀ n n', Prog.Exec (storeAccountCosts costs).run n (.ok ()) n' →
    keptTotal costs n' = computeHolding * calculateComputeUnits resources.memory resources.vcpus +
      storageHolding * storageMib
  exact : ∀ c ∈ costs, Exact c

variable {storageMib : Nat}

/-- Costs under keys of their own are all kept. -/
theorem Bill.keptTotal_eq {paymentType : String} (h : Bill owner paymentType costs) {n n' : Node}
    (hstored : Prog.Exec (storeAccountCosts costs).run n (.ok ()) n') :
    keptTotal costs n' = (costs.map AccountCostRecord.costHold).sum := by
  obtain rfl := exec_storeAccountCosts_ok.1 hstored
  set w : AccountCostRecord → ℚ := fun c => if costKey c ∈ costs.map costKey then c.costHold else 0 with hw
  have hupdate : ∀ cost s : AccountCostRecord, (s.owner, s.itemHash, s.costType, s.name) =
      (cost.owner, cost.itemHash, cost.costType, cost.name) → w (costUpdate cost s) = w cost := by
    intro cost s hs
    have hkey : costKey (costUpdate cost s) = costKey cost := hs
    have hhold : (costUpdate cost s).costHold = cost.costHold := rfl
    rw [hw]
    simp only [hkey, hhold]
  have hold : (n.accountCosts.rows.map fun c => if costKey c ∈ costs.map costKey then 0 else w c).sum = 0 := by
    refine List.sum_eq_zero fun q hq => ?_
    obtain ⟨c, -, rfl⟩ := List.mem_map.1 hq
    rw [hw]
    split_ifs with hkey
    · rfl
    · exact if_neg hkey
  have hnew : costs.map w = costs.map AccountCostRecord.costHold :=
    List.map_congr_left fun c hc => if_pos (List.mem_map_of_mem hc)
  have hsum : keptTotal costs { n with accountCosts := costsStored costs n.accountCosts } =
      (n.accountCosts.rows.map fun c => if costKey c ∈ costs.map costKey then 0 else w c).sum + (costs.map w).sum :=
    sum_costsStored hupdate h.nodup
  rw [hsum, hold, hnew, zero_add]

/-- **Every content is charged what it declares.** -/
theorem Billing.countsDeclared (h : Billing itemHash resources storageMib costs) :
    CountsDeclared resources storageMib costs := by
  cases h with
  | «instance» x content hdecode =>
    have hsizes := yields_instanceSizes hdecode
    refine ⟨fun n n' hstored => ?_, ?_⟩
    · exact (bill_instanceCosts.keptTotal_eq hstored).trans sum_instanceCosts
    · refine List.forall_mem_cons.2 ⟨exact_executionCost hsizes.1, ?_⟩
      exact List.forall_mem_cons.2 ⟨exact_storageCost hsizes.2.1, exact_volumeCosts hsizes.2.2⟩
  | program x content hdecode =>
    have hsizes := yields_programSizes hdecode
    refine ⟨fun n n' hstored => ?_, ?_⟩
    · exact (bill_programCosts.keptTotal_eq hstored).trans sum_programCosts
    · exact List.forall_mem_cons.2 ⟨exact_executionCost hsizes.1, exact_volumeCosts hsizes.2⟩

/-- **Costs never under-count the declared resources**, except that the compute units are too few where the rounding
of the memory saturates and the processors do not need as many. -/
theorem declared_costs (memory vcpus : UInt32) :
    (IsLeast (covering memory.toNat vcpus.toNat) (calculateComputeUnits memory.toNat vcpus.toNat) ↔
      memory.toNat ≤ 2 ^ 32 - 2048 ∨ 2097152 ≤ vcpus.toNat) ∧
    ∀ itemHash resources storageMib costs, Billing itemHash resources storageMib costs →
      CountsDeclared resources storageMib costs :=
  ⟨calculateComputeUnits_isLeast_iff memory.toNat_lt, fun _ _ _ _ h => h.countsDeclared⟩

/-- **The largest memory** gets one unit less than covers it. -/
theorem largest_memory_undercounted :
    calculateComputeUnits (4294967295 : UInt32).toNat (1 : UInt32).toNat = 2097151 ∧
      ¬ IsLeast (covering (4294967295 : UInt32).toNat (1 : UInt32).toNat)
        (calculateComputeUnits (4294967295 : UInt32).toNat (1 : UInt32).toNat) := by
  refine ⟨by decide, fun h => ?_⟩
  have hcovers : (4294967295 : UInt32).toNat ≤
    2048 * calculateComputeUnits (4294967295 : UInt32).toNat (1 : UInt32).toNat := h.1.1
  exact absurd hcovers (by decide)

/-- A machine of 3000 MiB and one processor needs two units. -/
theorem two_units_least : IsLeast (covering (3000 : UInt32).toNat (1 : UInt32).toNat)
    (calculateComputeUnits (3000 : UInt32).toNat (1 : UInt32).toNat) :=
  (declared_costs 3000 1).1.2 (.inl (by decide))

end CostService

end AlephCore
