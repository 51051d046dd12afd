import AlephCore.Jobs.VmFiles
import AlephCore.Lib.Latest
import Mathlib.Order.WithBot

/-!
# VmVersions — the current version of a virtual machine

A version row should name the newest of a virtual machine and its amendments.  Storing keeps it so, in any
order; a FORGET of the current amendment deletes its row and leaves the version row pointing at nothing.
-/

namespace AlephCore.MessageProcessor

open Prog ForgetHandler PgDatabase

/-! ## Virtual machines -/

/-- A stored program or instance: its hash, the hash it replaces, and its time. -/
structure Vm where
  type : MessageType
  itemHash : ItemHash
  replaces : Option ItemHash
  time : WithBot Timestamp

namespace Vm

def ofProgram (p : ProgramRow) : Vm := ⟨.program, p.itemHash, p.replaces, p.time⟩

def ofInstance (i : InstanceRow) : Vm := ⟨.instance, i.itemHash, i.replaces, i.time⟩

/-- It goes with its own hash, and as an amendment with the hash it replaces. -/
def TakenBy (v : Vm) (t : Target) : Prop :=
  (IsVm t.type ∧ v.replaces = some t.hash) ∨ (t.type = some v.type ∧ v.itemHash = t.hash)

end Vm

/-- The stored virtual machines. -/
def vms (n : Node) : Set Vm :=
  {v | (∃ p ∈ n.programs, v = .ofProgram p) ∨ ∃ i ∈ n.instances, v = .ofInstance i}

/-- A virtual machine and its amendments. -/
def versionsOf (n : Node) (vmHash : ItemHash) : Set Vm :=
  {v | v ∈ vms n ∧ (v.itemHash = vmHash ∨ v.replaces = some vmHash)}

/-! ## The invariant -/

/-- Every version row names the newest stored version, and of every virtual machine that replaces none it is
known whether it may be amended. -/
structure CurrentVersions (n : Node) : Prop where
  current : ∀ row ∈ n.vmVersions, ∃ v, row.currentVersion = some v.itemHash ∧
    IsLatest Vm.time (versionsOf n row.vmHash) v
  known : ∀ v ∈ vms n, v.replaces = none → amendAllowed v.itemHash n ≠ none

/-- What the rows are besides: amendments have their originals, originals their version rows with the time of
the current version, and no two virtual machines a hash. -/
structure VersionsKept (n : Node) : Prop where
  attached : ∀ v ∈ vms n, ∀ o, v.replaces = some o → ∃ w ∈ vms n, w.itemHash = o ∧ w.replaces = none
  versioned : ∀ v ∈ vms n, v.replaces = none → ∃ row ∈ n.vmVersions, row.vmHash = v.itemHash
  timed : ∀ row ∈ n.vmVersions, ∃ v, row.currentVersion = some v.itemHash ∧ row.lastUpdated = v.time ∧
    IsLatest Vm.time (versionsOf n row.vmHash) v
  distinct : ∀ v ∈ vms n, ∀ w ∈ vms n, v.itemHash = w.itemHash → v = w

/-- A FORGET takes the current version of a virtual machine only together with the version row, and the version
row only together with the virtual machine. -/
def SparesVersions (env : Env) (message : Message) (n : Node) : Prop :=
  message.messageType = .forget → ∀ content,
    parseContent env ForgetContent.decode (fun e => e) message = .ok content →
      (∀ row ∈ n.vmVersions, (∀ t ∈ targets n [] content.hashes, ¬ t.TakesVmData row.vmHash) →
        ∀ v ∈ vms n, row.currentVersion = some v.itemHash →
          ∀ t ∈ targets n [] content.hashes, ¬ v.TakenBy t) ∧
      ∀ v ∈ vms n, v.replaces = none → (∀ t ∈ targets n [] content.hashes, ¬ v.TakenBy t) →
        ∀ t ∈ targets n [] content.hashes, ¬ t.TakesVmData v.itemHash

variable {env : Env} {message : Message} {n n' : Node} {vmHash : ItemHash}

theorem exists_program_or_instance {v : Vm} (hv : v ∈ vms n) :
    (∃ p ∈ n.programs, p.itemHash = v.itemHash) ∨ ∃ i ∈ n.instances, i.itemHash = v.itemHash := by
  rcases hv with ⟨p, hp, rfl⟩ | ⟨i, hi, rfl⟩
  · exact .inl ⟨p, hp, rfl⟩
  · exact .inr ⟨i, hi, rfl⟩

theorem find?_ne_none {ρ κ : Type} {key : ρ → κ} [DecidableEq κ] {t : Table ρ key} {k : κ} :
    t.find? k ≠ none ↔ ∃ r ∈ t, key r = k := by
  rw [Ne, Table.find?_eq_none]
  push Not
  rfl

/-- Of a virtual machine with a version row and a stored current version it is known. -/
theorem VersionsKept.amendAllowed_ne_none (h : VersionsKept n) {v : Vm} (hv : v ∈ vms n)
    (hnone : v.replaces = none) : amendAllowed v.itemHash n ≠ none := by
  obtain ⟨row, hrow, hhash⟩ := h.versioned v hv hnone
  obtain ⟨c, hc, -, hmax⟩ := h.timed row hrow
  have hfind : n.vmVersions.find? v.itemHash = some row := Table.find?_eq_some.2 ⟨hrow, hhash⟩
  simp only [amendAllowed, hfind, hc]
  rcases exists_program_or_instance hmax.1.1 with hp | hi
  · obtain ⟨p, hp⟩ := Option.ne_none_iff_exists'.1 (find?_ne_none.2 hp)
    rw [hp]
    cases n.instances.find? c.itemHash <;> simp
  · obtain ⟨i, hi⟩ := Option.ne_none_iff_exists'.1 (find?_ne_none.2 hi)
    rw [hi]
    simp

theorem VersionsKept.currentVersions (h : VersionsKept n) : CurrentVersions n := by
  refine ⟨fun row hrow => ?_, fun v hv hnone => h.amendAllowed_ne_none hv hnone⟩
  obtain ⟨v, hv, -, hmax⟩ := h.timed row hrow
  exact ⟨v, hv, hmax⟩

/-- Version rows are those of stored virtual machines. -/
theorem VersionsKept.exists_of_row (h : VersionsKept n) {row : VmVersionRow} (hrow : row ∈ n.vmVersions) :
    ∃ v ∈ vms n, v.itemHash = row.vmHash := by
  obtain ⟨v, -, -, hmax⟩ := h.timed row hrow
  rcases hmax.1.2 with hhash | hreplaces
  · exact ⟨v, hmax.1.1, hhash⟩
  · obtain ⟨w, hw, hhash, -⟩ := h.attached v hmax.1.1 _ hreplaces
    exact ⟨w, hw, hhash⟩

/-! ## One message -/

theorem VersionsKept.congr (h : VersionsKept n) (hprograms : n'.programs = n.programs)
    (hinstances : n'.instances = n.instances) (hversions : n'.vmVersions = n.vmVersions) : VersionsKept n' := by
  have hvms : vms n' = vms n := by rw [vms, vms, hprograms, hinstances]
  have hof : ∀ hash, versionsOf n' hash = versionsOf n hash := fun hash => by rw [versionsOf, versionsOf, hvms]
  refine ⟨?_, ?_, ?_, ?_⟩
  · rw [hvms]
    exact h.attached
  · rw [hvms, hversions]
    exact h.versioned
  · rw [hversions]
    simp only [hof]
    exact h.timed
  · rw [hvms]
    exact h.distinct

/-- **A new virtual machine** is the current version of the one it replaces, or of itself, unless a newer
version is. -/
theorem VersionsKept.store (h : VersionsKept n) {v : Vm} {owner : Address} {time : Timestamp}
    (hfresh : ∀ w ∈ vms n, w.itemHash ≠ v.itemHash) (htime : v.time = (time : WithBot Timestamp))
    (hreplaces : ∀ o, v.replaces = some o → ∃ w ∈ vms n, w.itemHash = o ∧ w.replaces = none)
    (hvms : vms n' = insert v (vms n))
    (hversions : n'.vmVersions = versionSet (v.replaces.getD v.itemHash) owner v.itemHash time n) :
    VersionsKept n' := by
  have hmem : ∀ w, w ∈ vms n' ↔ w = v ∨ w ∈ vms n := fun w => by rw [hvms, Set.mem_insert_iff]
  -- No version row and no amendment has the new hash.
  have hnorow : ∀ row ∈ n.vmVersions, row.vmHash ≠ v.itemHash := by
    intro row hrow he
    obtain ⟨w, hw, hhash⟩ := h.exists_of_row hrow
    exact hfresh w hw (hhash.trans he)
  have hnoamend : ∀ w ∈ vms n, w.replaces ≠ some v.itemHash := by
    intro w hw he
    obtain ⟨o, ho, hhash, -⟩ := h.attached w hw _ he
    exact hfresh o ho hhash
  have hof : ∀ hash, versionsOf n' hash =
      {w | w ∈ versionsOf n hash ∨ w = v ∧ (v.itemHash = hash ∨ v.replaces = some hash)} := by
    intro hash
    ext w
    constructor
    · rintro ⟨hw, hver⟩
      rcases (hmem w).1 hw with rfl | hw
      · exact .inr ⟨rfl, hver⟩
      · exact .inl ⟨hw, hver⟩
    · rintro (⟨hw, hver⟩ | ⟨rfl, hver⟩)
      · exact ⟨(hmem w).2 (.inr hw), hver⟩
      · exact ⟨(hmem w).2 (.inl rfl), hver⟩
  have hof_same : ∀ hash, v.itemHash ≠ hash → v.replaces ≠ some hash → versionsOf n' hash = versionsOf n hash := by
    intro hash hne hne'
    rw [hof]
    ext w
    exact or_iff_left fun hw => hw.2.elim hne hne'
  have hof_new : ∀ hash, v.replaces = some hash → versionsOf n' hash = insert v (versionsOf n hash) := by
    intro hash he
    rw [hof]
    ext w
    constructor
    · rintro (hw | ⟨rfl, -⟩)
      · exact Set.mem_insert_of_mem _ hw
      · exact Set.mem_insert _ _
    · rintro (rfl | hw)
      · exact .inr ⟨rfl, .inr he⟩
      · exact .inl hw
  have hrows : ∀ row, row ∈ n'.vmVersions ↔
      (row ∈ n.vmVersions ∧ row.vmHash ≠ v.replaces.getD v.itemHash) ∨
      (∃ s ∈ n.vmVersions, s.vmHash = v.replaces.getD v.itemHash ∧ row = { s with
        currentVersion := if s.lastUpdated.all (· < time) then some v.itemHash else s.currentVersion
        lastUpdated := if s.lastUpdated.all (· < time) then some time else s.lastUpdated }) ∨
      (row = ⟨v.replaces.getD v.itemHash, owner, some v.itemHash, some time⟩ ∧
        ∀ s ∈ n.vmVersions, s.vmHash ≠ v.replaces.getD v.itemHash) := by
    intro row
    rw [hversions]
    exact Table.mem_upsert
  refine ⟨fun w hw o ho => ?_, fun w hw hnone => ?_, fun row hrow => ?_, fun w hw w' hw' he => ?_⟩
  · have hold : ∃ u ∈ vms n, u.itemHash = o ∧ u.replaces = none := by
      rcases (hmem w).1 hw with rfl | hw
      · exact hreplaces o ho
      · exact h.attached w hw o ho
    obtain ⟨u, hu, huo⟩ := hold
    exact ⟨u, (hmem u).2 (.inr hu), huo⟩
  · rcases (hmem w).1 hw with rfl | hw
    · refine ⟨_, (hrows _).2 (.inr (.inr ⟨rfl, ?_⟩)), ?_⟩
      · rw [hnone]
        exact hnorow
      · rw [hnone]
        rfl
    · obtain ⟨row, hrow, hhash⟩ := h.versioned w hw hnone
      by_cases he : row.vmHash = v.replaces.getD v.itemHash
      · exact ⟨_, (hrows _).2 (.inr (.inl ⟨row, hrow, he, rfl⟩)), hhash⟩
      · exact ⟨row, (hrows row).2 (.inl ⟨hrow, he⟩), hhash⟩
  · rcases (hrows row).1 hrow with ⟨hrow, hne⟩ | ⟨s, hs, he, rfl⟩ | ⟨rfl, hnone⟩
    · -- The row of another virtual machine.
      obtain ⟨c, hc, hupdated, hmax⟩ := h.timed row hrow
      have hne' : v.replaces ≠ some row.vmHash := fun h' => hne (by rw [h']; rfl)
      exact ⟨c, hc, hupdated, by rwa [hof_same row.vmHash (hnorow row hrow).symm hne']⟩
    · -- The row of the virtual machine that is replaced.
      have hsome : v.replaces = some s.vmHash := by
        cases hr : v.replaces with
        | none =>
          rw [hr] at he
          exact absurd he (hnorow s hs)
        | some o =>
          rw [hr] at he
          exact congrArg some he.symm
      obtain ⟨c, hc, hupdated, hmax⟩ := h.timed s hs
      have hall : (s.lastUpdated.all (· < time)) = true ↔ c.time < v.time := by
        rw [hupdated, htime]
        cases hctime : c.time with
        | bot => simp [Option.all]
        | coe t => simp [Option.all]
      rw [hof_new s.vmHash hsome]
      by_cases hlt : c.time < v.time
      · rw [if_pos (hall.2 hlt), if_pos (hall.2 hlt)]
        exact ⟨v, rfl, htime.symm, hmax.insert_of_ge hlt.le⟩
      · rw [if_neg (mt hall.1 hlt), if_neg (mt hall.1 hlt)]
        exact ⟨c, hc, hupdated, hmax.insert_of_le (not_lt.1 hlt)⟩
    · -- A row of its own.
      refine ⟨v, rfl, htime.symm, ?_⟩
      cases hr : v.replaces with
      | some o =>
        obtain ⟨w, hw, hhash, hwnone⟩ := hreplaces o hr
        obtain ⟨row, hrow, hrowhash⟩ := h.versioned w hw hwnone
        rw [hr] at hnone
        exact absurd (hrowhash.trans hhash) (hnone row hrow)
      | none =>
        have honly : versionsOf n' v.itemHash = {v} := by
          rw [hof]
          ext w
          constructor
          · rintro (⟨hw, hver⟩ | ⟨rfl, -⟩)
            · exact absurd hver (not_or.2 ⟨hfresh w hw, hnoamend w hw⟩)
            · rfl
          · rintro rfl
            exact .inr ⟨rfl, .inl rfl⟩
        show IsLatest Vm.time (versionsOf n' v.itemHash) v
        rw [honly]
        exact .singleton v
  · rcases (hmem w).1 hw with rfl | hw
    · rcases (hmem w').1 hw' with rfl | hw'
      · rfl
      · exact absurd he.symm (hfresh w' hw')
    · rcases (hmem w').1 hw' with rfl | hw'
      · exact absurd he (hfresh w hw)
      · exact h.distinct w hw w' hw' he

theorem mem_vms_gone {ts : List Target} {gone : List ItemHash} (hgone : TargetsGone ts gone n n') (v : Vm) :
    v ∈ vms n' ↔ v ∈ vms n ∧ ∀ t ∈ ts, ¬ v.TakenBy t := by
  constructor
  · rintro (⟨p, hp, rfl⟩ | ⟨i, hi, rfl⟩)
    · obtain ⟨hp, hleft⟩ := (hgone.programs p).1 hp
      exact ⟨.inl ⟨p, hp, rfl⟩, hleft⟩
    · obtain ⟨hi, hleft⟩ := (hgone.instances i).1 hi
      exact ⟨.inr ⟨i, hi, rfl⟩, hleft⟩
  · rintro ⟨⟨p, hp, rfl⟩ | ⟨i, hi, rfl⟩, hleft⟩
    · exact .inl ⟨p, (hgone.programs p).2 ⟨hp, hleft⟩, rfl⟩
    · exact .inr ⟨i, (hgone.instances i).2 ⟨hi, hleft⟩, rfl⟩

/-- A stored virtual machine is a program or an instance. -/
theorem isVm_of_mem_vms {v : Vm} (hv : v ∈ vms n) : IsVm (some v.type) := by
  rcases hv with ⟨p, -, rfl⟩ | ⟨i, -, rfl⟩
  · exact .inl rfl
  · exact .inr rfl

/-- **A FORGET** keeps the versions exactly if it spares them. -/
theorem VersionsKept.forget (h : VersionsKept n) {ts : List Target} {gone : List ItemHash}
    (hgone : TargetsGone ts gone n n') :
    (VersionsKept n' ↔ CurrentVersions n') ∧ (CurrentVersions n' ↔
      (∀ row ∈ n.vmVersions, (∀ t ∈ ts, ¬ t.TakesVmData row.vmHash) →
        ∀ v ∈ vms n, row.currentVersion = some v.itemHash → ∀ t ∈ ts, ¬ v.TakenBy t) ∧
      ∀ v ∈ vms n, v.replaces = none → (∀ t ∈ ts, ¬ v.TakenBy t) → ∀ t ∈ ts, ¬ t.TakesVmData v.itemHash) := by
  have hmem := mem_vms_gone hgone
  have hsub : ∀ hash, versionsOf n' hash ⊆ versionsOf n hash :=
    fun hash v hv => ⟨((hmem v).1 hv.1).1, hv.2⟩
  have hspared : CurrentVersions n' →
      (∀ row ∈ n.vmVersions, (∀ t ∈ ts, ¬ t.TakesVmData row.vmHash) →
        ∀ v ∈ vms n, row.currentVersion = some v.itemHash → ∀ t ∈ ts, ¬ v.TakenBy t) ∧
      ∀ v ∈ vms n, v.replaces = none → (∀ t ∈ ts, ¬ v.TakenBy t) →
        ∀ t ∈ ts, ¬ t.TakesVmData v.itemHash := by
    intro hcurrent
    refine ⟨fun row hrow hstays v hv hname => ?_, fun v hv hnone hstays => ?_⟩
    · obtain ⟨c, hc, hmax⟩ := hcurrent.current row ((hgone.versions row).2 ⟨hrow, hstays⟩)
      obtain ⟨hc', hleft⟩ := (hmem c).1 hmax.1.1
      obtain rfl := h.distinct c hc' v hv (Option.some.inj (hc.symm.trans hname))
      exact hleft
    · have hknown := hcurrent.known v ((hmem v).2 ⟨hv, hstays⟩) hnone
      cases hfind : n'.vmVersions.find? v.itemHash with
      | none =>
        rw [amendAllowed, hfind] at hknown
        exact absurd rfl hknown
      | some row =>
        obtain ⟨hrow, hhash⟩ := Table.find?_eq_some.1 hfind
        rw [← hhash]
        exact ((hgone.versions row).1 hrow).2
  have hkept : (∀ row ∈ n.vmVersions, (∀ t ∈ ts, ¬ t.TakesVmData row.vmHash) →
        ∀ v ∈ vms n, row.currentVersion = some v.itemHash → ∀ t ∈ ts, ¬ v.TakenBy t) ∧
      (∀ v ∈ vms n, v.replaces = none → (∀ t ∈ ts, ¬ v.TakenBy t) →
        ∀ t ∈ ts, ¬ t.TakesVmData v.itemHash) → VersionsKept n' := by
    rintro ⟨hcurrent, hversion⟩
    refine ⟨fun v hv o ho => ?_, fun v hv hnone => ?_, fun row hrow => ?_, fun v hv w hw he => ?_⟩
    · obtain ⟨hv, hleft⟩ := (hmem v).1 hv
      obtain ⟨w, hw, rfl, hwnone⟩ := h.attached v hv o ho
      refine ⟨w, (hmem w).2 ⟨hw, ?_⟩, rfl, hwnone⟩
      -- What takes the original takes its amendments.
      rintro t ht (⟨-, hreplaces⟩ | ⟨htype, hhash⟩)
      · rw [hwnone] at hreplaces
        cases hreplaces
      · exact hleft t ht (.inl ⟨htype ▸ isVm_of_mem_vms hw, ho.trans (congrArg some hhash)⟩)
    · obtain ⟨hv, hleft⟩ := (hmem v).1 hv
      obtain ⟨row, hrow, hhash⟩ := h.versioned v hv hnone
      refine ⟨row, (hgone.versions row).2 ⟨hrow, ?_⟩, hhash⟩
      rw [hhash]
      exact hversion v hv hnone hleft
    · obtain ⟨hrow, hstays⟩ := (hgone.versions row).1 hrow
      obtain ⟨c, hc, hupdated, hmax⟩ := h.timed row hrow
      have hcmem : c ∈ vms n' := (hmem c).2 ⟨hmax.1.1, hcurrent row hrow hstays c hmax.1.1 hc⟩
      exact ⟨c, hc, hupdated, hmax.subset (hsub row.vmHash) ⟨hcmem, hmax.1.2⟩⟩
    · exact h.distinct v ((hmem v).1 hv).1 w ((hmem w).1 hw).1 he
  exact ⟨⟨VersionsKept.currentVersions, fun hcurrent => hkept (hspared hcurrent)⟩,
    hspared, fun hs => (hkept hs).currentVersions⟩

theorem Fresh.vms (h : Fresh n message.itemHash) : ∀ v ∈ vms n, v.itemHash ≠ message.itemHash := by
  rintro v (⟨p, hp, rfl⟩ | ⟨i, hi, rfl⟩)
  · exact h.programs p hp
  · exact h.instances i hi

/-- The virtual machines once a program is recorded, and once an instance is. -/
theorem vms_recorded_program {content : ProgramContent} (ctx : HandlerContext) (hfresh : Fresh n message.itemHash) :
    vms (ProgramHandler.recorded message content ctx n) =
      insert (.ofProgram (ProgramHandler.rowOf message content)) (vms n) := by
  ext v
  have hrow : ∀ p, p ∈ (ProgramHandler.recorded message content ctx n).programs ↔
      p ∈ n.programs ∨ p = ProgramHandler.rowOf message content :=
    fun p => mem_insertNew_fresh hfresh.programs
  constructor
  · rintro (⟨p, hp, rfl⟩ | hi)
    · rcases (hrow p).1 hp with hp | rfl
      · exact Set.mem_insert_of_mem _ (.inl ⟨p, hp, rfl⟩)
      · exact Set.mem_insert _ _
    · exact Set.mem_insert_of_mem _ (.inr hi)
  · rintro (rfl | ⟨p, hp, rfl⟩ | hi)
    · exact .inl ⟨_, (hrow _).2 (.inr rfl), rfl⟩
    · exact .inl ⟨p, (hrow p).2 (.inl hp), rfl⟩
    · exact .inr hi

theorem vms_recorded_instance {content : InstanceContent} (ctx : HandlerContext)
    (hfresh : Fresh n message.itemHash) : vms (InstanceHandler.recorded message content ctx n) =
      insert (.ofInstance (InstanceHandler.rowOf message content)) (vms n) := by
  ext v
  have hrow : ∀ i, i ∈ (InstanceHandler.recorded message content ctx n).instances ↔
      i ∈ n.instances ∨ i = InstanceHandler.rowOf message content :=
    fun i => mem_insertNew_fresh hfresh.instances
  constructor
  · rintro (hp | ⟨i, hi, rfl⟩)
    · exact Set.mem_insert_of_mem _ (.inl hp)
    · rcases (hrow i).1 hi with hi | rfl
      · exact Set.mem_insert_of_mem _ (.inr ⟨i, hi, rfl⟩)
      · exact Set.mem_insert _ _
  · rintro (rfl | hp | ⟨i, hi, rfl⟩)
    · exact .inr ⟨_, (hrow _).2 (.inr rfl), rfl⟩
    · exact .inl hp
    · exact .inr ⟨i, (hrow i).2 (.inl hi), rfl⟩

/-- **One message** keeps the versions exactly if it spares them. -/
theorem Delivered.versions (h : Delivered env message n n') (hkept : VersionsKept n) :
    (VersionsKept n' ↔ CurrentVersions n') ∧ (CurrentVersions n' ↔ SparesVersions env message n) := by
  obtain ⟨ctx, rfl, receptionTime, n₁, heffect, rfl⟩ := h.accepted.effect
  have hstored : (VersionsKept n₁ ↔ CurrentVersions n₁) ∧
      (CurrentVersions n₁ ↔ SparesVersions ctx.env message n) →
      (VersionsKept (stored ctx.env message receptionTime n₁) ↔
        CurrentVersions (stored ctx.env message receptionTime n₁)) ∧
      (CurrentVersions (stored ctx.env message receptionTime n₁) ↔ SparesVersions ctx.env message n) := by
    rintro ⟨hiff, hspares⟩
    have hsame : CurrentVersions (stored ctx.env message receptionTime n₁) ↔ CurrentVersions n₁ :=
      ⟨fun hc => ⟨hc.current, hc.known⟩, fun hc => ⟨hc.current, hc.known⟩⟩
    refine ⟨⟨VersionsKept.currentVersions, fun hc => ?_⟩, hsame.trans hspares⟩
    exact (hiff.2 (hsame.1 hc)).congr rfl rfl rfl
  refine hstored ?_
  -- Anything that keeps the versions has nothing to spare.
  have hkeeps : message.messageType ≠ .forget → VersionsKept n₁ →
      (VersionsKept n₁ ↔ CurrentVersions n₁) ∧ (CurrentVersions n₁ ↔ SparesVersions ctx.env message n) :=
    fun htype hn₁ => ⟨iff_of_true hn₁ hn₁.currentVersions,
      iff_of_true hn₁.currentVersions fun hforget => absurd hforget htype⟩
  cases heffect with
  | aggregate content htype =>
    obtain ⟨as, has⟩ := processed_eq (AggregateHandler.elementOf message content) n
    refine hkeeps (by simp [htype]) ?_
    rw [has, AggregateHandler.storeElement]
    split_ifs <;> exact hkept.congr rfl rfl rfl
  | post content htype hparse horiginal => exact hkeeps (by simp [htype]) (hkept.congr rfl rfl rfl)
  | amend content originalHash target htype => exact hkeeps (by simp [htype]) (hkept.congr rfl rfl rfl)
  | store content htype hparse hclash => exact hkeeps (by simp [htype]) (hkept.congr rfl rfl rfl)
  | program content htype hparse hvalid =>
    refine hkeeps (by simp [htype])
      (hkept.store h.fresh.vms rfl (fun o ho => ?_) (vms_recorded_program ctx h.fresh) rfl)
    obtain ⟨⟨p, hp, hhash, hnone⟩, -⟩ := hvalid.replaces o ho
    exact ⟨_, .inl ⟨p, hp, rfl⟩, hhash, hnone⟩
  | «instance» content htype hparse hvalid =>
    refine hkeeps (by simp [htype])
      (hkept.store h.fresh.vms rfl (fun o ho => ?_) (vms_recorded_instance ctx h.fresh) rfl)
    obtain ⟨⟨i, hi, hhash, hnone⟩, -⟩ := hvalid.replaces o ho
    exact ⟨_, .inr ⟨i, hi, rfl⟩, hhash, hnone⟩
  | forget content htype hparse hvalidate =>
    obtain ⟨hiff, hspared⟩ := hkept.forget (hashesForgotten_gone message content ctx content.hashes n)
    refine ⟨hiff, hspared.trans ⟨fun hs _ content' hparse' => ?_, fun hspares => hspares htype content hparse⟩⟩
    obtain rfl := Except.ok.inj (hparse.symm.trans hparse')
    exact hs

/-! ## Runs -/

/-- A message is accepted that spares the current versions. -/
def VersionStep (env : Env) (n n' : Node) : Prop :=
  ∃ message, Delivered env message n n' ∧ SparesVersions env message n

section Amended

/-- The node with the amendment on top. -/
def withAmendment : Node := programStored amendment (programContent (some programHash) 1700000020) withProgram

example : withAmendment.programs.rows.map ProgramRow.itemHash = [programHash, amendmentHash] := by decide +kernel

theorem delivered_amendment : DeliveredBy vmCtx amendment withProgram withAmendment := by
  refine delivered_program fromStr_amendment (by decide +kernel) (by decide +kernel) fun o ho => ?_
  obtain rfl := Option.some.inj ho
  refine ⟨⟨ProgramHandler.rowOf firstProgram (programContent none 1700000010), ?_, rfl, rfl⟩, by decide +kernel⟩
  show _ ∈ withProgram.programs
  decide +kernel

theorem delivered_forgetAmendment :
    DeliveredBy vmCtx forgetAmendment withAmendment
      (afterForgetting forgetAmendment amendmentHash withAmendment) := by
  refine delivered_forget (by decide +kernel) (by decide +kernel) (by decide +kernel) ⟨?_, by decide +kernel, ?_, ?_⟩
  · exact ⟨processedRow vmCtx.env amendment 1700000200, by decide +kernel, rfl, by decide, rfl⟩
  · have hrefs : ∀ p ∈ withAmendment.programs.rows, p.codeRef ≠ amendmentHash ∧ p.runtimeRef ≠ amendmentHash := by
      decide +kernel
    exact hrefs
  · exact fun i hi => absurd hi List.not_mem_nil

theorem amendmentRun : Relation.ReflTransGen (VersionStep vmCtx.env) .empty withAmendment := by
  have hstep : ∀ {m : Message} {n n' : Node}, m.messageType ≠ .forget → DeliveredBy vmCtx m n n' →
      VersionStep vmCtx.env n n' := fun htype h => ⟨_, h.delivered, fun hforget => absurd hforget htype⟩
  exact ((Relation.ReflTransGen.single (hstep (by decide) delivered_store)).tail
    (hstep (by decide) delivered_firstProgram)).tail (hstep (by decide) delivered_amendment)

theorem empty_not_mem_vms (v : Vm) : v ∉ vms .empty := by
  rintro (⟨p, hp, -⟩ | ⟨i, hi, -⟩)
  · exact absurd hp List.not_mem_nil
  · exact absurd hi List.not_mem_nil

end Amended

end AlephCore.MessageProcessor
