import AlephCore.Lib.Serde
import AlephCore.Lib.Table
import Mathlib.Algebra.Order.Ring.Nat
import Mathlib.Algebra.Order.Ring.Rat
import Mathlib.Data.List.Infix

/-!
# GpuTiers — which tier a graphics device belongs to

Mirrors the tiers of `services/cost.rs`.  The documentation promises a tier with that device id, else one whose id is
a prefix, else one by name.  The search asks for the first two at once, of the tiers in the order of a hash map; so
it keeps the promise only where at most one tier answers.
-/

namespace AlephCore

open Serde

/-! ## Tiers -/

/-- GPU tier information with device matching. -/
structure GpuTier where
  id : String
  name : String
  computeUnits : Nat
  vramGb : Nat
  multiplier : ℚ
  deviceIds : List String
  namePatterns : List String
  category : String
  deriving DecidableEq

namespace GpuTier

def defaultTierCategory : String := "standard"

/-- The decoder of decimals is that of the decimal library. -/
def decode (asDecimal : Decode ℚ) : Decode GpuTier := fun x => do
  let s ← asStruct ["id", "name", "compute_units", "vram_gb", "multiplier", "device_ids", "name_patterns", "category"] x
  let id ← s.required "id" 0 asString
  let name ← s.required "name" 1 asString
  let computeUnits ← s.required "compute_units" 2 (asUInt 32)
  let vramGb ← s.required "vram_gb" 3 (asUInt 32)
  let multiplier ← s.required "multiplier" 4 asDecimal
  let deviceIds ← s.withDefault "device_ids" 5 [] (asVec asString)
  let namePatterns ← s.withDefault "name_patterns" 6 [] (asVec asString)
  let category ← s.withDefault "category" 7 defaultTierCategory asString
  pure { id, name, computeUnits, vramGb, multiplier, deviceIds, namePatterns, category }

/-- `str::starts_with`. -/
def startsWith (s t : String) : Bool := t.toList.isPrefixOf s.toList

/-- `str::contains`. -/
def contains (s t : String) : Bool := s.toList.tails.any fun rest => t.toList.isPrefixOf rest

/-- Check if a GPU device matches this tier. -/
def «matches» (toLowercase : String → String) (tier : GpuTier) (deviceId deviceName : Option String) : Bool :=
  (deviceId.any fun id => tier.deviceIds.any fun tierId =>
      toLowercase id == toLowercase tierId || startsWith (toLowercase id) (toLowercase tierId)) ||
    deviceName.any fun name => tier.namePatterns.any fun pattern => contains (toLowercase name) (toLowercase pattern)

/-- Check if this is a premium tier. -/
def isPremium (toLowercase : String → String) (tier : GpuTier) : Bool :=
  tier.category == "premium" || 24 ≤ tier.vramGb || contains (toLowercase tier.name) "a100" ||
    contains (toLowercase tier.name) "h100" || contains (toLowercase tier.name) "a40"

end GpuTier

/-- The tiers of the cost service under their keys. -/
abbrev GpuTiers := Table (String × GpuTier) Prod.fst

namespace GpuTiers

/-- `HashMap::insert`. -/
def insert (tiers : GpuTiers) (key : String) (tier : GpuTier) : GpuTiers :=
  tiers.upsert (key, tier) fun entry => (entry.1, tier)

/-- Default GPU tiers with device ids. -/
def new : GpuTiers :=
  [⟨"nvidia-a100", "NVIDIA A100", 100, 40, 10, ["20b0", "20b2", "20bf", "20b5"], ["A100"], "premium"⟩,
    ⟨"nvidia-h100", "NVIDIA H100", 150, 80, 15, ["2330", "2331"], ["H100"], "premium"⟩,
    ⟨"nvidia-rtx4090", "NVIDIA RTX 4090", 60, 24, 8, ["2684"], ["RTX 4090", "4090"], "premium"⟩,
    ⟨"nvidia-rtx3090", "NVIDIA RTX 3090", 40, 24, 6, ["2204", "2208"], ["RTX 3090", "3090"], "premium"⟩,
    ⟨"nvidia-a40", "NVIDIA A40", 50, 48, 8, ["2235"], ["A40"], "premium"⟩,
    ⟨"nvidia-t4", "NVIDIA T4", 20, 16, 4, ["1eb8"], ["T4"], "standard"⟩,
    ⟨"nvidia-rtx3080", "NVIDIA RTX 3080", 25, 10, 5, ["2206", "2216"], ["RTX 3080", "3080"], "standard"⟩].foldl
    (fun (tiers : GpuTiers) (tier : GpuTier) => tiers.insert tier.id tier) .empty

/-- The tiers of the pricing aggregate; what cannot be decoded is skipped. -/
def updateFromAggregate (asDecimal : Decode ℚ) (tiers : GpuTiers) (aggregate : Value) : GpuTiers :=
  match aggregate.json.get? "gpu_tiers" with
  | some (.obj fs) => fs.foldl (fun tiers entry =>
      match GpuTier.decode asDecimal entry.2 with
      | .ok tier => tiers.insert entry.1 tier
      | .error _ => tiers) tiers
  | _ => tiers

/-- The tiers after the aggregates. -/
def after (asDecimal : Decode ℚ) (aggregates : List Value) : GpuTiers :=
  aggregates.foldl (updateFromAggregate asDecimal) new

def values (tiers : GpuTiers) : List GpuTier := tiers.rows.map Prod.snd

/-! ## The search -/

variable (toLowercase : String → String)

/-- Find GPU tier by device id or name, the tiers coming in some order. -/
def findGpuTierByDevice (order : List GpuTier) (deviceId deviceName : Option String) : Option GpuTier :=
  match deviceId.bind fun id => order.find? fun tier => tier.matches toLowercase (some id) none with
  | some tier => some tier
  | none => deviceName.bind fun name => order.find? fun tier => tier.matches toLowercase none (some name)

/-- The tier has that device id. -/
def HasDeviceId (deviceId : Option String) (tier : GpuTier) : Prop :=
  ∃ id, deviceId = some id ∧ ∃ tierId ∈ tier.deviceIds, toLowercase id = toLowercase tierId

/-- A device id of the tier is a prefix of that one. -/
def HasIdPrefix (deviceId : Option String) (tier : GpuTier) : Prop :=
  ∃ id, deviceId = some id ∧ ∃ tierId ∈ tier.deviceIds,
    List.IsPrefix (toLowercase tierId).toList (toLowercase id).toList

/-- A name pattern of the tier occurs in that name. -/
def HasName (deviceName : Option String) (tier : GpuTier) : Prop :=
  ∃ name, deviceName = some name ∧ ∃ pattern ∈ tier.namePatterns,
    List.IsInfix (toLowercase pattern).toList (toLowercase name).toList

/-- The documented priority, and independence of the order of the tiers. -/
structure FollowsPriority (tiers : GpuTiers) (deviceId deviceName : Option String) : Prop where
  exact : (∃ tier ∈ tiers.values, HasDeviceId toLowercase deviceId tier) → ∀ order, order.Perm tiers.values →
    ∃ tier ∈ tiers.values, findGpuTierByDevice toLowercase order deviceId deviceName = some tier ∧
      HasDeviceId toLowercase deviceId tier
  prefix_ : (∀ tier ∈ tiers.values, ¬ HasDeviceId toLowercase deviceId tier) →
    (∃ tier ∈ tiers.values, HasIdPrefix toLowercase deviceId tier) → ∀ order, order.Perm tiers.values →
      ∃ tier ∈ tiers.values, findGpuTierByDevice toLowercase order deviceId deviceName = some tier ∧
        HasIdPrefix toLowercase deviceId tier
  name : (∀ tier ∈ tiers.values, ¬ HasDeviceId toLowercase deviceId tier ∧ ¬ HasIdPrefix toLowercase deviceId tier) →
    (∃ tier ∈ tiers.values, HasName toLowercase deviceName tier) → ∀ order, order.Perm tiers.values →
      ∃ tier ∈ tiers.values, findGpuTierByDevice toLowercase order deviceId deviceName = some tier ∧
        HasName toLowercase deviceName tier
  none : ∀ order, order.Perm tiers.values → findGpuTierByDevice toLowercase order deviceId deviceName = none →
    ∀ tier ∈ tiers.values, ¬ HasDeviceId toLowercase deviceId tier ∧ ¬ HasIdPrefix toLowercase deviceId tier ∧
      ¬ HasName toLowercase deviceName tier
  stable : ∀ order order', order.Perm tiers.values → order'.Perm tiers.values →
    findGpuTierByDevice toLowercase order deviceId deviceName =
      findGpuTierByDevice toLowercase order' deviceId deviceName

/-- At most one tier answers to the device id, and if none does at most one to the name. -/
structure Unambiguous (tiers : GpuTiers) (deviceId deviceName : Option String) : Prop where
  byId : ∀ id ∈ deviceId, ∀ s ∈ tiers.values, ∀ t ∈ tiers.values,
    s.matches toLowercase (some id) none → t.matches toLowercase (some id) none → s = t
  byName : (∀ id ∈ deviceId, ∀ s ∈ tiers.values, ¬ s.matches toLowercase (some id) none) →
    ∀ name ∈ deviceName, ∀ s ∈ tiers.values, ∀ t ∈ tiers.values,
      s.matches toLowercase none (some name) → t.matches toLowercase none (some name) → s = t

variable {toLowercase} {tiers : GpuTiers} {tier : GpuTier} {deviceId deviceName : Option String} {id name : String}
  {order : List GpuTier}

theorem contains_iff {s t : String} : GpuTier.contains s t ↔ List.IsInfix t.toList s.toList := by
  unfold GpuTier.contains
  rw [List.any_eq_true, List.infix_iff_prefix_suffix]
  simp only [List.mem_tails, List.isPrefixOf_iff_prefix]
  exact exists_congr fun rest => and_comm

/-- An exact match is a prefix match. -/
theorem HasDeviceId.hasIdPrefix (h : HasDeviceId toLowercase deviceId tier) : HasIdPrefix toLowercase deviceId tier := by
  obtain ⟨id, hid, tierId, hmem, he⟩ := h
  exact ⟨id, hid, tierId, hmem, he ▸ List.prefix_refl _⟩

theorem matches_id_iff : tier.matches toLowercase (some id) none ↔ HasIdPrefix toLowercase (some id) tier := by
  have hmatch : tier.matches toLowercase (some id) none ↔ ∃ tierId ∈ tier.deviceIds,
      toLowercase id = toLowercase tierId ∨ List.IsPrefix (toLowercase tierId).toList (toLowercase id).toList := by
    simp [GpuTier.matches, GpuTier.startsWith]
  rw [hmatch]
  constructor
  · rintro ⟨tierId, hmem, he | hprefix⟩
    · exact ⟨id, rfl, tierId, hmem, he ▸ List.prefix_refl _⟩
    · exact ⟨id, rfl, tierId, hmem, hprefix⟩
  · rintro ⟨id', hid, tierId, hmem, hprefix⟩
    obtain rfl := Option.some.inj hid
    exact ⟨tierId, hmem, .inr hprefix⟩

theorem matches_name_iff : tier.matches toLowercase none (some name) ↔ HasName toLowercase (some name) tier := by
  have hmatch : tier.matches toLowercase none (some name) ↔ ∃ pattern ∈ tier.namePatterns,
      GpuTier.contains (toLowercase name) (toLowercase pattern) := by
    simp [GpuTier.matches]
  rw [hmatch]
  constructor
  · rintro ⟨pattern, hmem, hcontains⟩
    exact ⟨name, rfl, pattern, hmem, contains_iff.1 hcontains⟩
  · rintro ⟨name', hname, pattern, hmem, hinfix⟩
    obtain rfl := Option.some.inj hname
    exact ⟨pattern, hmem, contains_iff.2 hinfix⟩

/-! ## One search -/

/-- Where some tier answers to the device id, one of these is found. -/
theorem find_byId (h : ∃ s ∈ order, s.matches toLowercase (some id) none) :
    ∃ t ∈ order, findGpuTierByDevice toLowercase order (some id) deviceName = some t ∧
      t.matches toLowercase (some id) none := by
  cases hfind : order.find? fun tier => tier.matches toLowercase (some id) none with
  | none =>
    obtain ⟨s, hs, hmatch⟩ := h
    exact absurd hmatch (List.find?_eq_none.1 hfind s hs)
  | some t =>
    have hmatch := List.find?_some (p := fun tier : GpuTier => tier.matches toLowercase (some id) none) hfind
    refine ⟨t, List.mem_of_find?_eq_some hfind, ?_, hmatch⟩
    unfold findGpuTierByDevice
    rw [Option.bind_some, hfind]

/-- Where none does, the name decides. -/
theorem find_byName (h : ∀ id ∈ deviceId, ∀ s ∈ order, ¬ s.matches toLowercase (some id) none) :
    findGpuTierByDevice toLowercase order deviceId deviceName =
      deviceName.bind fun name => order.find? fun tier => tier.matches toLowercase none (some name) := by
  have hnone : (deviceId.bind fun id => order.find? fun tier => tier.matches toLowercase (some id) none) = none := by
    cases deviceId with
    | none => rfl
    | some id => exact List.find?_eq_none.2 (h id rfl)
  unfold findGpuTierByDevice
  rw [hnone]

/-- The first tier of an order is found if it answers. -/
theorem find_first_byId {rest : List GpuTier} (h : tier.matches toLowercase (some id) none) :
    findGpuTierByDevice toLowercase (tier :: rest) (some id) deviceName = some tier := by
  unfold findGpuTierByDevice
  rw [Option.bind_some, List.find?_cons_of_pos (p := fun tier : GpuTier => tier.matches toLowercase (some id) none) h]

theorem find_first_byName {rest : List GpuTier} (h : tier.matches toLowercase none (some name)) :
    ((tier :: rest).find? fun tier => tier.matches toLowercase none (some name)) = some tier :=
  List.find?_cons_of_pos (p := fun tier : GpuTier => tier.matches toLowercase none (some name)) h

/-- Some order begins with a given tier. -/
theorem exists_perm_cons (h : tier ∈ tiers.values) : ∃ rest, (tier :: rest).Perm tiers.values :=
  ⟨tiers.values.erase tier, (List.perm_cons_erase h).symm⟩

/-! ## The priority -/

theorem Unambiguous.followsPriority (h : Unambiguous toLowercase tiers deviceId deviceName) :
    FollowsPriority toLowercase tiers deviceId deviceName := by
  -- Where a tier answers to the device id, every order finds that tier.
  have hbyId : ∀ s ∈ tiers.values, HasIdPrefix toLowercase deviceId s → ∀ order, order.Perm tiers.values →
      findGpuTierByDevice toLowercase order deviceId deviceName = some s := by
    rintro s hs ⟨id, rfl, hprefix⟩ order hperm
    have hmatch := matches_id_iff.2 ⟨id, rfl, hprefix⟩
    obtain ⟨t, ht, hfind, hmatch'⟩ : ∃ t ∈ order, findGpuTierByDevice toLowercase order (some id) deviceName = some t ∧
        t.matches toLowercase (some id) none := find_byId ⟨s, hperm.mem_iff.2 hs, hmatch⟩
    rw [hfind, h.byId id rfl t (hperm.mem_iff.1 ht) s hs hmatch' hmatch]
  -- Where none does, every order finds the tier that answers to the name.
  have hnoId : (∀ s ∈ tiers.values, ¬ HasIdPrefix toLowercase deviceId s) → ∀ id ∈ deviceId, ∀ s ∈ tiers.values,
      ¬ s.matches toLowercase (some id) none := by
    rintro hnone id rfl s hs hmatch
    exact hnone s hs (matches_id_iff.1 hmatch)
  have hbyName : (∀ s ∈ tiers.values, ¬ HasIdPrefix toLowercase deviceId s) → ∀ s ∈ tiers.values,
      HasName toLowercase deviceName s → ∀ order, order.Perm tiers.values →
        findGpuTierByDevice toLowercase order deviceId deviceName = some s := by
    rintro hnone s hs ⟨name, rfl, hname⟩ order hperm
    have hmatch := matches_name_iff.2 ⟨name, rfl, hname⟩
    rw [find_byName fun id hid t ht => hnoId hnone id hid t (hperm.mem_iff.1 ht), Option.bind_some]
    cases hfind : order.find? fun tier => tier.matches toLowercase none (some name) with
    | none => exact absurd hmatch (List.find?_eq_none.1 hfind s (hperm.mem_iff.2 hs))
    | some t =>
      have ht := hperm.mem_iff.1 (List.mem_of_find?_eq_some hfind)
      have hmatch' := List.find?_some (p := fun tier : GpuTier => tier.matches toLowercase none (some name)) hfind
      rw [h.byName (hnoId hnone) name rfl t ht s hs hmatch' hmatch]
  have hbyNone : (∀ s ∈ tiers.values, ¬ HasIdPrefix toLowercase deviceId s) →
      (∀ s ∈ tiers.values, ¬ HasName toLowercase deviceName s) → ∀ order, order.Perm tiers.values →
        findGpuTierByDevice toLowercase order deviceId deviceName = none := by
    intro hnone hnoName order hperm
    rw [find_byName fun id hid t ht => hnoId hnone id hid t (hperm.mem_iff.1 ht), Option.bind_eq_none_iff]
    rintro name rfl
    exact List.find?_eq_none.2 fun t ht hmatch => hnoName t (hperm.mem_iff.1 ht) (matches_name_iff.1 hmatch)
  refine ⟨?_, ?_, ?_, ?_, ?_⟩
  · rintro ⟨s, hs, hexact⟩ order hperm
    exact ⟨s, hs, hbyId s hs hexact.hasIdPrefix order hperm, hexact⟩
  · rintro - ⟨s, hs, hprefix⟩ order hperm
    exact ⟨s, hs, hbyId s hs hprefix order hperm, hprefix⟩
  · rintro hnone ⟨s, hs, hname⟩ order hperm
    exact ⟨s, hs, hbyName (fun t ht => (hnone t ht).2) s hs hname order hperm, hname⟩
  · intro order hperm hfind s hs
    have hprefix : ∀ t ∈ tiers.values, ¬ HasIdPrefix toLowercase deviceId t := by
      intro t ht hprefix
      rw [hbyId t ht hprefix order hperm] at hfind
      cases hfind
    refine ⟨fun hexact => hprefix s hs hexact.hasIdPrefix, hprefix s hs, fun hname => ?_⟩
    rw [hbyName hprefix s hs hname order hperm] at hfind
    cases hfind
  · intro order order' hperm hperm'
    by_cases hid : ∃ s ∈ tiers.values, HasIdPrefix toLowercase deviceId s
    · obtain ⟨s, hs, hprefix⟩ := hid
      rw [hbyId s hs hprefix order hperm, hbyId s hs hprefix order' hperm']
    · push Not at hid
      by_cases hname : ∃ s ∈ tiers.values, HasName toLowercase deviceName s
      · obtain ⟨s, hs, hname⟩ := hname
        rw [hbyName hid s hs hname order hperm, hbyName hid s hs hname order' hperm']
      · push Not at hname
        rw [hbyNone hid hname order hperm, hbyNone hid hname order' hperm']

theorem FollowsPriority.unambiguous (h : FollowsPriority toLowercase tiers deviceId deviceName) :
    Unambiguous toLowercase tiers deviceId deviceName := by
  constructor
  · rintro id rfl s hs t ht hmatch hmatch'
    obtain ⟨rest, hrest⟩ := exists_perm_cons hs
    obtain ⟨rest', hrest'⟩ := exists_perm_cons ht
    have hstable := h.stable _ _ hrest hrest'
    rw [find_first_byId hmatch, find_first_byId hmatch'] at hstable
    exact Option.some.inj hstable
  · rintro hnone name rfl s hs t ht hmatch hmatch'
    obtain ⟨rest, hrest⟩ := exists_perm_cons hs
    obtain ⟨rest', hrest'⟩ := exists_perm_cons ht
    have hstable := h.stable _ _ hrest hrest'
    rw [find_byName fun id hid r hr => hnone id hid r (hrest.mem_iff.1 hr),
      find_byName fun id hid r hr => hnone id hid r (hrest'.mem_iff.1 hr), Option.bind_some, Option.bind_some,
      find_first_byName hmatch, find_first_byName hmatch'] at hstable
    exact Option.some.inj hstable

/-- **The documented priority is followed** exactly if no two tiers answer to the device id, and none or one does to the
name where no tier answers to the id. -/
theorem followsPriority_iff (asDecimal : Decode ℚ) (toLowercase : String → String) (aggregates : List Value)
    (deviceId deviceName : Option String) :
    FollowsPriority toLowercase (after asDecimal aggregates) deviceId deviceName ↔
      Unambiguous toLowercase (after asDecimal aggregates) deviceId deviceName :=
  ⟨FollowsPriority.unambiguous, Unambiguous.followsPriority⟩

/-! ### Two tiers for one device -/

section Prefix

/-- An aggregate with a tier for all devices whose id starts with `20b`. -/
def prefixAggregate : Value := (Json.obj [("gpu_tiers", .obj [("budget", .obj [("id", .str "budget"),
  ("name", .str "Budget"), ("compute_units", .num (.int 5)), ("vram_gb", .num (.int 8)), ("multiplier", .num (.int 2)),
  ("device_ids", .arr [.str "20b"])])])]).toValue

def budgetTier : GpuTier := ⟨"budget", "Budget", 5, 8, 2, ["20b"], [], "standard"⟩

/-- **The A100 has a tier with its device id**, and the search may return the budget tier. -/
theorem budget_before_a100 : ∃ order, order.Perm (after asF64 [prefixAggregate]).values ∧
    findGpuTierByDevice String.toLower order (some "20b0") none = some budgetTier ∧
      ¬ HasDeviceId String.toLower (some "20b0") budgetTier ∧
        ∃ tier ∈ (after asF64 [prefixAggregate]).values, HasDeviceId String.toLower (some "20b0") tier := by
  have hmem : budgetTier ∈ (after asF64 [prefixAggregate]).values := by decide +kernel
  obtain ⟨rest, hrest⟩ := exists_perm_cons hmem
  refine ⟨_, hrest, ?_, ?_, ?_⟩
  · have hmatch : budgetTier.matches String.toLower (some "20b0") none = true := by decide +kernel
    exact find_first_byId hmatch
  · rintro ⟨id, hid, tierId, htier, he⟩
    obtain rfl := Option.some.inj hid
    obtain rfl := List.mem_singleton.1 htier
    exact absurd he (by decide +kernel)
  · refine ⟨⟨"nvidia-a100", "NVIDIA A100", 100, 40, 10, ["20b0", "20b2", "20bf", "20b5"], ["A100"], "premium"⟩, ?_, ?_⟩
    · decide +kernel
    · exact ⟨"20b0", rfl, "20b0", List.mem_cons_self, rfl⟩

end Prefix

end GpuTiers

end AlephCore
