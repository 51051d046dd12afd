import AlephCore.Handlers.StoreSpec
import AlephCore.Handlers.Stages

/-!
# VmSpec — what an accepted program or instance does

Validation answers questions about the state, and processing has one effect: the row of the virtual machine,
its volumes, its version and its costs.
-/

namespace AlephCore

open ProgE Prog Serde

variable {n n' : Node} {u : Unit}

/-! ## What validation asks -/

namespace PgDatabase

/-- The answer of `isVmAmendAllowed`. -/
def amendAllowed (vmHash : ItemHash) (n : Node) : Option Bool :=
  match n.vmVersions.find? vmHash with
  | some version =>
    match version.currentVersion with
    | some currentVersion => ((n.instances.find? currentVersion).map InstanceRow.allowAmend).or
        ((n.programs.find? currentVersion).map ProgramRow.allowAmend)
    | none => ((n.instances.find? vmHash).map InstanceRow.allowAmend).or
        ((n.programs.find? vmHash).map ProgramRow.allowAmend)
  | none => none

theorem exec_isVmAmendAllowed_ok {vmHash : ItemHash} {r : Option Bool} :
    Exec (isVmAmendAllowed vmHash).run n (.ok r) n' ↔ r = amendAllowed vmHash n ∧ n' = n := by
  unfold isVmAmendAllowed amendAllowed
  rw [exec_query_bind_ok]
  cases n.vmVersions.find? vmHash with
  | none => exact exec_pure_ok
  | some version =>
    cases hcurrent : version.currentVersion with
    | none =>
      simp only [hcurrent]
      exact exec_query_ok
    | some currentVersion =>
      simp only [hcurrent, exec_query_bind_ok]
      cases n.instances.find? currentVersion with
      | none => exact exec_query_ok
      | some i => exact exec_pure_ok

theorem exec_missingRefs_ok {refs missing : List ItemHash} {column : Node → List ItemHash} :
    Exec (missingRefs refs column).run n (.ok missing) n' ↔
      missing = (refs.filter fun r => decide (r ∉ column n)) ∧ n' = n := by
  unfold missingRefs
  cases refs with
  | nil => exact exec_pure_ok
  | cons r refs => exact exec_query_ok

end PgDatabase

namespace VmCommon

/-- The file is pinned, in some way. -/
def RefPinned (n : Node) (ref_ : ItemHash) : Prop := ref_ ∈ n.filePins.rows.map FilePinRecord.itemHash

/-- The file has a tag. -/
def RefTagged (n : Node) (ref_ : ItemHash) : Prop := ref_ ∈ n.fileTags.rows.map FileTag.itemHash

theorem exec_validateVolumeRefs_ok {refs : List ItemHash × List ItemHash} :
    Exec (validateVolumeRefs refs).run n (.ok u) n' ↔
      (∀ r ∈ refs.1, RefPinned n r) ∧ (∀ r ∈ refs.2, RefTagged n r) ∧ n' = n := by
  have hnone : ∀ {rs column : List ItemHash}, ((rs.filter fun r => decide (r ∉ column)).isEmpty = true) ↔
      ∀ r ∈ rs, r ∈ column := by
    intro rs column
    rw [List.isEmpty_iff, List.filter_eq_nil_iff]
    simp
  unfold validateVolumeRefs
  split_ifs with hempty
  · rw [exec_pure_ok, List.isEmpty_iff.1 hempty.1, List.isEmpty_iff.1 hempty.2]
    simp
  · simp only [PgDatabase.checkVolumeRefsExist, exec_bind_ok, exec_db_ok, PgDatabase.exec_missingRefs_ok,
      exec_pure_ok, and_assoc]
    constructor
    · rintro ⟨_, _, ⟨_, _, rfl, rfl, _, _, rfl, rfl, rfl, rfl⟩, h⟩
      split_ifs at h with hmissing
      · exact ⟨hnone.1 hmissing.1, hnone.1 hmissing.2, (exec_pure_ok.1 h).2⟩
      · exact absurd h exec_throw_ok
    · rintro ⟨hpinned, htagged, rfl⟩
      refine ⟨_, _, ⟨_, _, rfl, rfl, _, _, rfl, rfl, rfl, rfl⟩, ?_⟩
      rw [if_pos ⟨hnone.2 hpinned, hnone.2 htagged⟩]
      exact exec_pure_ok.2 ⟨rfl, rfl⟩

theorem exec_validateAmendment_ok {replaces : ItemHash} {found : Option (Option ItemHash)}
    {original : Db DbError (Option (Option ItemHash))}
    (horiginal : ∀ r m, Exec original.run n (.ok r) m ↔ r = found ∧ m = n) :
    Exec (validateAmendment replaces original).run n (.ok u) n' ↔
      found = some none ∧ PgDatabase.amendAllowed replaces n = some true ∧ n' = n := by
  unfold validateAmendment
  rw [exec_bind_ok_of fun r m => exec_db_ok.trans (horiginal r m)]
  cases found with
  | none => simp
  | some replaced =>
    cases replaced with
    | some _ => simp
    | none =>
      simp only [exec_bind_ok_of fun r m => exec_db_ok.trans PgDatabase.exec_isVmAmendAllowed_ok]
      cases PgDatabase.amendAllowed replaces n with
      | none => simp
      | some allowed => cases allowed <;> simp

end VmCommon

/-- Only the files matter to the size check. -/
theorem VmCommon.exec_validateParentVolumeSize_congr {parentRef : ItemHash} {size : Nat} {m : Node}
    (hfiles : m.files = n.files) (h : Exec (validateParentVolumeSize parentRef size).run n (.ok u) n) :
    Exec (validateParentVolumeSize parentRef size).run m (.ok u) m := by
  unfold validateParentVolumeSize PgDatabase.getFile at h ⊢
  rw [exec_db_query_bind_ok] at h ⊢
  rw [hfiles]
  cases hfile : n.files.find? parentRef with
  | none => exact exec_pure_ok.2 ⟨rfl, rfl⟩
  | some file =>
    rw [hfile] at h
    simp only at h ⊢
    split_ifs at h ⊢ with hsmall
    · exact absurd h exec_throw_ok
    · exact exec_pure_ok.2 ⟨rfl, rfl⟩

/-! ## What processing stores -/

namespace PgDatabase

/-- `ON CONFLICT … DO UPDATE` of a cost. -/
def costUpdate (cost c : AccountCostRecord) : AccountCostRecord :=
  { c with
    refHash := cost.refHash
    paymentType := cost.paymentType
    costHold := cost.costHold
    costStream := cost.costStream
    costCredit := cost.costCredit }

/-- The costs after `storeAccountCosts`. -/
def costsStored (costs : List AccountCostRecord)
    (t : Table AccountCostRecord fun c => (c.owner, c.itemHash, c.costType, c.name)) :
    Table AccountCostRecord fun c => (c.owner, c.itemHash, c.costType, c.name) :=
  costs.foldl (fun t cost => t.upsert cost (costUpdate cost)) t

theorem exec_storeAccountCosts_ok {costs : List AccountCostRecord} :
    Exec (storeAccountCosts costs).run n (.ok u) n' ↔
      n' = { n with accountCosts := costsStored costs n.accountCosts } := by
  unfold storeAccountCosts
  induction costs generalizing n with
  | nil => simp [forEach, costsStored]
  | cons cost costs ih =>
    unfold forEach
    simp only [exec_bind_ok, exec_execute_ok, ih]
    constructor
    · rintro ⟨_, _, rfl, rfl⟩
      rfl
    · rintro rfl
      exact ⟨(), _, rfl, rfl⟩

/-- **A sum over the costs after they are stored**: what they do not replace, and they. -/
theorem sum_costsStored {M : Type} [AddCommMonoid M] {w : AccountCostRecord → M}
    (hw : ∀ cost s : AccountCostRecord, (s.owner, s.itemHash, s.costType, s.name) =
      (cost.owner, cost.itemHash, cost.costType, cost.name) → w (costUpdate cost s) = w cost)
    {costs : List AccountCostRecord} {t : Table AccountCostRecord fun c => (c.owner, c.itemHash, c.costType, c.name)}
    (hnodup : (costs.map fun c => (c.owner, c.itemHash, c.costType, c.name)).Nodup) :
    ((costsStored costs t).rows.map w).sum =
      (t.rows.map fun c => if (c.owner, c.itemHash, c.costType, c.name) ∈
        costs.map fun c => (c.owner, c.itemHash, c.costType, c.name) then 0 else w c).sum + (costs.map w).sum := by
  induction costs generalizing t with
  | nil => simp [costsStored]
  | cons cost costs ih =>
    obtain ⟨hnot, hnodup⟩ := List.nodup_cons.1 hnodup
    set v : AccountCostRecord → M := fun c => if (c.owner, c.itemHash, c.costType, c.name) ∈
      costs.map fun c => (c.owner, c.itemHash, c.costType, c.name) then 0 else w c with hv
    have hupsert : ((t.upsert cost (costUpdate cost)).rows.map v).sum =
        (t.rows.map fun c => if (c.owner, c.itemHash, c.costType, c.name) =
          (cost.owner, cost.itemHash, cost.costType, cost.name) then 0 else v c).sum + v cost := by
      refine Table.sum_upsert t fun s hs => ?_
      have hkey : ((costUpdate cost s).owner, (costUpdate cost s).itemHash, (costUpdate cost s).costType,
          (costUpdate cost s).name) = (cost.owner, cost.itemHash, cost.costType, cost.name) := hs
      rw [hv]
      simp only [hkey, hw cost s hs]
    have hcost : v cost = w cost := if_neg hnot
    have hfirst : (t.rows.map fun c => if (c.owner, c.itemHash, c.costType, c.name) ∈
          (cost :: costs).map fun c => (c.owner, c.itemHash, c.costType, c.name) then 0 else w c) =
        t.rows.map fun c => if (c.owner, c.itemHash, c.costType, c.name) =
          (cost.owner, cost.itemHash, cost.costType, cost.name) then 0 else v c := by
      refine List.map_congr_left fun c _ => ?_
      simp only [List.map_cons, List.mem_cons, hv]
      by_cases he : (c.owner, c.itemHash, c.costType, c.name) =
          (cost.owner, cost.itemHash, cost.costType, cost.name)
      · rw [if_pos (.inl he), if_pos he]
      · simp only [he, false_or, if_false]
    calc ((costsStored (cost :: costs) t).rows.map w).sum
        = ((t.upsert cost (costUpdate cost)).rows.map v).sum + (costs.map w).sum := ih hnodup
      _ = (t.rows.map fun c => if (c.owner, c.itemHash, c.costType, c.name) =
            (cost.owner, cost.itemHash, cost.costType, cost.name) then 0 else v c).sum + w cost +
            (costs.map w).sum := by rw [hupsert, hcost]
      _ = _ := by rw [hfirst, List.map_cons, List.sum_cons, add_assoc]

/-- A cost afterwards is of a message and an owner that had costs before, or have some now. -/
theorem of_mem_costsStored {costs : List AccountCostRecord}
    {t : Table AccountCostRecord fun c => (c.owner, c.itemHash, c.costType, c.name)} {c : AccountCostRecord}
    (h : c ∈ costsStored costs t) :
    (∃ d ∈ t, d.itemHash = c.itemHash ∧ d.owner = c.owner) ∨
      ∃ d ∈ costs, d.itemHash = c.itemHash ∧ d.owner = c.owner := by
  induction costs generalizing t with
  | nil => exact .inl ⟨c, h, rfl, rfl⟩
  | cons cost costs ih =>
    rcases ih h with ⟨d, hd, he⟩ | ⟨d, hd, he⟩
    · rcases Table.mem_upsert.1 hd with ⟨hd, -⟩ | ⟨s, hs, -, rfl⟩ | ⟨rfl, -⟩
      · exact .inl ⟨d, hd, he⟩
      · exact .inl ⟨s, hs, he⟩
      · exact .inr ⟨d, List.mem_cons_self, he⟩
    · exact .inr ⟨d, List.mem_cons_of_mem _ hd, he⟩

/-- Costs keep their message and their owner. -/
theorem exists_mem_costsStored (costs : List AccountCostRecord)
    {t : Table AccountCostRecord fun c => (c.owner, c.itemHash, c.costType, c.name)} {d : AccountCostRecord}
    (h : d ∈ t) : ∃ c ∈ costsStored costs t, c.itemHash = d.itemHash ∧ c.owner = d.owner := by
  induction costs generalizing t d with
  | nil => exact ⟨d, h, rfl, rfl⟩
  | cons cost costs ih =>
    by_cases hkey : (d.owner, d.itemHash, d.costType, d.name) =
        (cost.owner, cost.itemHash, cost.costType, cost.name)
    · exact ih (t := t.upsert cost (costUpdate cost)) (d := costUpdate cost d)
        (Table.mem_upsert.2 (.inr (.inl ⟨d, h, hkey, rfl⟩)))
    · exact ih (t := t.upsert cost (costUpdate cost)) (d := d) (Table.mem_upsert.2 (.inl ⟨h, hkey⟩))

theorem reversioned_vmHash (currentVersion : ItemHash) (time : Timestamp) (v : VmVersionRow) :
    ({ v with
        currentVersion := if v.lastUpdated.all (· < time) then some currentVersion else v.currentVersion
        lastUpdated := if v.lastUpdated.all (· < time) then some time else v.lastUpdated } : VmVersionRow).vmHash =
      v.vmHash := rfl

/-- The versions after `upsertVmVersion`. -/
def versionSet (vmHash : ItemHash) (owner : Address) (currentVersion : ItemHash) (time : Timestamp) (n : Node) :
    Table VmVersionRow VmVersionRow.vmHash :=
  n.vmVersions.upsert ⟨vmHash, owner, some currentVersion, some time⟩
    (fun v => { v with
      currentVersion := if v.lastUpdated.all (· < time) then some currentVersion else v.currentVersion
      lastUpdated := if v.lastUpdated.all (· < time) then some time else v.lastUpdated })
    (reversioned_vmHash currentVersion time)

theorem exec_storeVmVolumes_ok {vmHash : ItemHash} {volumes : List VolumeInfo} :
    Exec (storeVmVolumes vmHash volumes).run n (.ok u) n' ↔
      n' = { n with vmMachineVolumes := n.vmMachineVolumes ++ volumes.map (VmVolumeRow.mk vmHash) } := by
  unfold storeVmVolumes
  induction volumes generalizing n with
  | nil => simp [forEach]
  | cons volume volumes ih =>
    unfold forEach
    simp only [exec_bind_ok, exec_execute_ok, ih]
    constructor
    · rintro ⟨_, _, rfl, rfl⟩
      simp
    · rintro rfl
      exact ⟨(), _, rfl, by simp⟩

end PgDatabase

namespace VmCommon

open PgDatabase

/-- The effect of `storeVm`. -/
def vmStored (itemHash : ItemHash) (address : Address) (volumes : List VolumeInfo) (replaces : Option ItemHash)
    (time : Timestamp) (costs : Option (List AccountCostRecord)) (n : Node) : Node :=
  { n with
    vmMachineVolumes := n.vmMachineVolumes ++ volumes.map (VmVolumeRow.mk itemHash)
    vmVersions := versionSet (replaces.getD itemHash) address itemHash time n
    accountCosts := costsStored (costs.getD []) n.accountCosts }

theorem exec_storeVm_ok {itemHash : ItemHash} {address : Address} {volumes : List VolumeInfo}
    {replaces : Option ItemHash} {time : Timestamp} {costs : Option (List AccountCostRecord)} :
    Exec (storeVm itemHash address volumes replaces time costs).run n (.ok u) n' ↔
      n' = vmStored itemHash address volumes replaces time costs n := by
  have hvolumes : ∀ {n n' : Node} {u : Unit}, Exec (storeVolumes itemHash volumes).run n (.ok u) n' ↔
      n' = { n with vmMachineVolumes := n.vmMachineVolumes ++ volumes.map (VmVolumeRow.mk itemHash) } := by
    intro n n' u
    unfold storeVolumes
    cases volumes with
    | nil => simp
    | cons volume volumes => exact exec_db_ok.trans exec_storeVmVolumes_ok
  have hcosts : ∀ {n n' : Node} {u : Unit}, Exec (storeCosts costs).run n (.ok u) n' ↔
      n' = { n with accountCosts := costsStored (costs.getD []) n.accountCosts } := by
    intro n n' u
    match costs with
    | none => simp [storeCosts, costsStored]
    | some [] => simp [storeCosts, costsStored]
    | some (cost :: costs) => exact exec_db_ok.trans exec_storeAccountCosts_ok
  unfold storeVm
  simp only [upsertVmVersion, exec_bind_ok, hvolumes, exec_db_ok, exec_execute_ok, hcosts]
  constructor
  · rintro ⟨_, _, rfl, _, _, rfl, rfl⟩
    rfl
  · rintro rfl
    exact ⟨(), _, rfl, (), _, rfl, rfl⟩

end VmCommon

variable {message : Message} {ctx : HandlerContext}

/-! ## Who may send it -/

/-- The address that the permission check finds in a program, if it finds one, is its address. -/
theorem ProgramContent.address_of_decode {x : Json} {content : ProgramContent}
    (h : ProgramContent.decode x = .ok content) {a : Address} (ha : x.getStr? "address" = some a) :
    a = content.address := by
  obtain ⟨s, hs, h⟩ := bind_ok.1 h
  obtain ⟨address, haddress, h⟩ := bind_ok.1 h
  have hcontent : content.address = address := by
    iterate 14 obtain ⟨_, -, h⟩ := bind_ok.1 h
    obtain rfl := Except.ok.inj h
    rfl
  rw [hcontent]
  exact getStr?_of_required hs (by simp) haddress ha

theorem InstanceContent.address_of_decode {x : Json} {content : InstanceContent}
    (h : InstanceContent.decode x = .ok content) {a : Address} (ha : x.getStr? "address" = some a) :
    a = content.address := by
  obtain ⟨s, hs, h⟩ := bind_ok.1 h
  obtain ⟨address, haddress, h⟩ := bind_ok.1 h
  have hcontent : content.address = address := by
    iterate 12 obtain ⟨_, -, h⟩ := bind_ok.1 h
    obtain rfl := Except.ok.inj h
    rfl
  rw [hcontent]
  exact getStr?_of_required hs (by simp) haddress ha

/-- Who sends a message under the address in its content is permitted. -/
theorem exec_checkPermissions_self {α : Type} {d : Decode α} {t : String → String} {c : α} {address : α → Address}
    (hparse : parseContent ctx.env d t message = .ok c)
    (hd : ∀ {x : Json} {c : α}, d x = .ok c → ∀ {a}, x.getStr? "address" = some a → a = address c)
    (hsender : address c = message.sender) : Exec (checkPermissions message ctx).run n (.ok ()) n := by
  obtain ⟨s, hs, hdecode⟩ := parseContent_ok.1 hparse
  unfold checkPermissions
  rw [hs, Option.bind_some]
  cases haddress : ctx.env.contentStr? s "address" with
  | none => exact exec_pure_ok.2 ⟨rfl, rfl⟩
  | some a =>
    rw [Env.contentStr?, Env.fromStrValue?] at haddress
    rw [Env.fromStr] at hdecode
    cases hjson : ctx.env.parseJson s with
    | error e =>
      rw [hjson] at haddress
      cases haddress
    | ok x =>
      rw [hjson] at haddress hdecode
      have ha : a = message.sender := (hd hdecode haddress).trans hsender
      simp only [requireAuthorization, ha, Env.SameAddress.refl, if_true]
      exact exec_pure_ok.2 ⟨rfl, rfl⟩

namespace ProgramHandler

open VmCommon

/-- The files a program is built from. -/
def refs (content : ProgramContent) : List ItemHash × List ItemHash :=
  addRef content.runtime.ref_ content.runtime.useLatest
    (addRef content.code.ref_ content.code.useLatest (collectVolumeRefs content.volumes))

/-- A program that can be stored: its files are there, and what it replaces allows it. -/
structure Valid (content : ProgramContent) (n : Node) : Prop where
  memory : content.resources.memory ≠ 0
  vcpus : content.resources.vcpus ≠ 0
  pinned : ∀ r ∈ (refs content).1, RefPinned n r
  tagged : ∀ r ∈ (refs content).2, RefTagged n r
  replaces : ∀ o, content.replaces = some o →
    (∃ p ∈ n.programs, p.itemHash = o ∧ p.replaces = none) ∧ PgDatabase.amendAllowed o n = some true

theorem exec_validate_ok :
    Exec (validate message ctx).run n (.ok u) n' ↔
      ∃ content, parseContent ctx.env message = .ok content ∧ Valid content n ∧ n' = n := by
  have hrow : ∀ o, (n.programs.find? o).map ProgramRow.replaces = some none ↔
      ∃ p ∈ n.programs, p.itemHash = o ∧ p.replaces = none := by
    simp only [Option.map_eq_some_iff, Table.find?_eq_some, and_assoc, implies_true]
  have horiginal : ∀ o r m, Exec (do
      pure ((← PgDatabase.getProgram o).map ProgramRow.replaces) : Db DbError _).run n (.ok r) m ↔
        r = (n.programs.find? o).map ProgramRow.replaces ∧ m = n := by
    intro o r m
    rw [PgDatabase.getProgram, exec_query_bind_ok, exec_pure_ok]
  unfold validate
  rw [exec_fromExcept_bind_ok]
  refine exists_congr fun content => and_congr_right fun _ => ?_
  split_ifs with hmemory hvcpus
  · exact iff_of_false exec_throw_ok fun h => h.1.memory hmemory
  · exact iff_of_false exec_throw_ok fun h => h.1.vcpus hvcpus
  · simp only [exec_bind_ok, exec_validateVolumeRefs_ok]
    cases hreplaces : content.replaces with
    | none =>
      simp only [exec_pure_ok]
      constructor
      · rintro ⟨_, _, ⟨hpinned, htagged, rfl⟩, -, rfl⟩
        exact ⟨⟨hmemory, hvcpus, hpinned, htagged, fun o ho => by rw [hreplaces] at ho; cases ho⟩, rfl⟩
      · rintro ⟨h, rfl⟩
        exact ⟨(), n', ⟨h.pinned, h.tagged, rfl⟩, trivial, rfl⟩
    | some o =>
      constructor
      · rintro ⟨_, _, ⟨hpinned, htagged, rfl⟩, h⟩
        obtain ⟨hfound, hallowed, rfl⟩ := (exec_validateAmendment_ok (horiginal o)).1 h
        refine ⟨⟨hmemory, hvcpus, hpinned, htagged, fun o' ho' => ?_⟩, rfl⟩
        obtain rfl := Option.some.inj (hreplaces.symm.trans ho')
        exact ⟨(hrow o).1 hfound, hallowed⟩
      · rintro ⟨h, rfl⟩
        obtain ⟨hfound, hallowed⟩ := h.replaces o hreplaces
        exact ⟨(), n', ⟨h.pinned, h.tagged, rfl⟩,
          (exec_validateAmendment_ok (horiginal o)).2 ⟨(hrow o).2 hfound, hallowed, rfl⟩⟩

/-- The row of a program. -/
def rowOf (message : Message) (content : ProgramContent) : ProgramRow :=
  { itemHash := message.itemHash, owner := message.sender, codeRef := content.code.ref_,
    runtimeRef := content.runtime.ref_, allowAmend := content.allowAmend, replaces := content.replaces,
    time := some content.time }

/-- The node after a program has been processed. -/
def recorded (message : Message) (content : ProgramContent) (ctx : HandlerContext) (n : Node) : Node :=
  vmStored message.itemHash content.address content.volumes content.replaces content.time
    (costs message content ctx) { n with programs := n.programs.insertNew (rowOf message content) }

/-- **Processing a program** records it. -/
theorem exec_process_ok :
    Exec (process message ctx).run n (.ok u) n' ↔
      ∃ content, parseContent ctx.env message = .ok content ∧ n' = recorded message content ctx n := by
  unfold process
  rw [exec_fromExcept_bind_ok]
  refine exists_congr fun content => and_congr_right fun _ => ?_
  rw [PgDatabase.storeProgram, exec_db_execute_bind_ok]
  exact exec_storeVm_ok

/-- A program without payment needs no balance. -/
theorem exec_checkBalance_free {content : ProgramContent} (hparse : parseContent ctx.env message = .ok content)
    (hfree : content.payment = none) : Exec (checkBalance message ctx).run n (.ok ()) n := by
  refine exec_fromExcept_bind_ok.2 ⟨content, hparse, ?_⟩
  rw [hfree]
  exact exec_pure_ok.2 ⟨rfl, rfl⟩

/-- **A valid program without payment from a permitted sender is accepted.** -/
theorem exec_processMessage {content : ProgramContent} (htype : message.messageType = .program)
    (hparse : parseContent ctx.env message = .ok content) (hvalid : Valid content n)
    (hfree : content.payment = none) (hpermitted : Exec (handler.permissionStage message ctx).run n (.ok ()) n) :
    Exec (processMessage message ctx) n .processed (recorded message content ctx n) := by
  rw [exec_processMessage_processed, htype]
  exact exec_run_ok.2 ⟨n, n, n, exec_validate_ok.2 ⟨content, hparse, hvalid, rfl⟩, hpermitted,
    exec_checkBalance_free hparse hfree, exec_process_ok.2 ⟨content, hparse, rfl⟩⟩

end ProgramHandler

namespace InstanceHandler

open VmCommon

/-- The files an instance is built from. -/
def refs (content : InstanceContent) : List ItemHash × List ItemHash :=
  addRef content.rootfs.parent.ref_ content.rootfs.parent.useLatest (collectVolumeRefs content.volumes)

/-- What a valid instance replaces is a stored instance that allows it. -/
structure Valid (content : InstanceContent) (n : Node) : Prop where
  pinned : ∀ r ∈ (refs content).1, RefPinned n r
  tagged : ∀ r ∈ (refs content).2, RefTagged n r
  replaces : ∀ o, content.replaces = some o →
    (∃ i ∈ n.instances, i.itemHash = o ∧ i.replaces = none) ∧ PgDatabase.amendAllowed o n = some true

theorem exec_validate_ok :
    Exec (validate message ctx).run n (.ok u) n' ↔
      ∃ content, parseContent ctx.env message = .ok content ∧ content.resources.memory ≠ 0 ∧
        content.resources.vcpus ≠ 0 ∧
        Exec (validateParentVolumeSize content.rootfs.parent.ref_ content.rootfs.sizeMib).run n (.ok ()) n ∧
        Valid content n ∧ n' = n := by
  have hrow : ∀ o, (n.instances.find? o).map InstanceRow.replaces = some none ↔
      ∃ i ∈ n.instances, i.itemHash = o ∧ i.replaces = none := by
    simp only [Option.map_eq_some_iff, Table.find?_eq_some, and_assoc, implies_true]
  have horiginal : ∀ o r m, Exec (do
      pure ((← PgDatabase.getInstance o).map InstanceRow.replaces) : Db DbError _).run n (.ok r) m ↔
        r = (n.instances.find? o).map InstanceRow.replaces ∧ m = n := by
    intro o r m
    rw [PgDatabase.getInstance, exec_query_bind_ok, exec_pure_ok]
  unfold validate
  rw [exec_fromExcept_bind_ok]
  refine exists_congr fun content => and_congr_right fun _ => ?_
  split_ifs with hmemory hvcpus
  · exact iff_of_false exec_throw_ok fun h => h.1 hmemory
  · exact iff_of_false exec_throw_ok fun h => h.2.1 hvcpus
  · simp only [exec_bind_ok, exec_validateVolumeRefs_ok]
    constructor
    · rintro ⟨_, _, ⟨hpinned, htagged, rfl⟩, ⟨⟩, n₂, hsize, hamend⟩
      obtain rfl := (checks_validateParentVolumeSize _ _).unchanged hsize
      cases hreplaces : content.replaces with
      | none =>
        rw [hreplaces] at hamend
        obtain ⟨-, rfl⟩ := exec_pure_ok.1 hamend
        exact ⟨hmemory, hvcpus, hsize, ⟨hpinned, htagged, fun o ho => by rw [hreplaces] at ho; cases ho⟩, rfl⟩
      | some o =>
        rw [hreplaces] at hamend
        obtain ⟨hfound, hallowed, rfl⟩ := (exec_validateAmendment_ok (horiginal o)).1 hamend
        refine ⟨hmemory, hvcpus, hsize, ⟨hpinned, htagged, fun o' ho' => ?_⟩, rfl⟩
        obtain rfl := Option.some.inj (hreplaces.symm.trans ho')
        exact ⟨(hrow o).1 hfound, hallowed⟩
    · rintro ⟨-, -, hsize, hvalid, rfl⟩
      refine ⟨(), n', ⟨hvalid.pinned, hvalid.tagged, rfl⟩, (), n', hsize, ?_⟩
      cases hreplaces : content.replaces with
      | none => exact exec_pure_ok.2 ⟨rfl, rfl⟩
      | some o =>
        obtain ⟨hfound, hallowed⟩ := hvalid.replaces o hreplaces
        exact (exec_validateAmendment_ok (horiginal o)).2 ⟨(hrow o).2 hfound, hallowed, rfl⟩

theorem exec_validate_valid (h : Exec (validate message ctx).run n (.ok u) n') :
    ∃ content, parseContent ctx.env message = .ok content ∧ Valid content n := by
  obtain ⟨content, hparse, -, -, -, hvalid, -⟩ := exec_validate_ok.1 h
  exact ⟨content, hparse, hvalid⟩

/-- The row of an instance. -/
def rowOf (message : Message) (content : InstanceContent) : InstanceRow :=
  { itemHash := message.itemHash, owner := message.sender, rootfsRef := content.rootfs.parent.ref_,
    allowAmend := content.allowAmend, replaces := content.replaces, time := some content.time }

/-- The node after an instance has been processed. -/
def recorded (message : Message) (content : InstanceContent) (ctx : HandlerContext) (n : Node) : Node :=
  vmStored message.itemHash content.address content.volumes content.replaces content.time
    (costs message content ctx) { n with instances := n.instances.insertNew (rowOf message content) }

/-- **Processing an instance** records it. -/
theorem exec_process_ok :
    Exec (process message ctx).run n (.ok u) n' ↔
      ∃ content, parseContent ctx.env message = .ok content ∧ n' = recorded message content ctx n := by
  unfold process
  rw [exec_fromExcept_bind_ok]
  refine exists_congr fun content => and_congr_right fun _ => ?_
  rw [PgDatabase.storeInstance, exec_db_execute_bind_ok]
  exact exec_storeVm_ok

end InstanceHandler

end AlephCore
