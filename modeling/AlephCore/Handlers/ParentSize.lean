import AlephCore.Handlers.VmSpec
import AlephCore.Lib.Faults

/-!
# ParentSize — the size of a rootfs against the size its parent declares

`validate_parent_volume_size` rounds the size of the parent up to whole MiB by an addition in 64 bits.  The size is
what the STORE message of the parent declares, carried through a signed column; the column gives it back unchanged,
but the addition wraps for the last `2 ^ 20 - 1` sizes, and a parent of such a size lets every rootfs pass.
-/

namespace AlephCore

open ProgE Prog

/-! ## A size in the files table -/

/-- A `u64` survives the signed column. -/
theorem asU64_asI64 {size : Nat} (h : size < 2 ^ 64) : asU64 (asI64 size) = size := by
  unfold asU64 asI64
  have hmod : (size : Int).bmod (2 ^ 64) % 2 ^ 64 = size % 2 ^ 64 := Int.bmod_emod
  rw [hmod, Int.emod_eq_of_lt (by omega) (by omega), Int.toNat_natCast]

/-- A STORE message declares a `u64`, or no size. -/
theorem StoreContent.size_lt {x : Json} {content : StoreContent} (h : StoreContent.decode x = .ok content) :
    content.size.getD 0 < 2 ^ 64 := by
  obtain ⟨s, -, h⟩ := Serde.bind_ok.1 h
  obtain ⟨address, -, h⟩ := Serde.bind_ok.1 h
  obtain ⟨itemType, -, h⟩ := Serde.bind_ok.1 h
  obtain ⟨itemHash, -, h⟩ := Serde.bind_ok.1 h
  obtain ⟨size, hsize, h⟩ := Serde.bind_ok.1 h
  obtain ⟨contentType, -, h⟩ := Serde.bind_ok.1 h
  obtain ⟨ref_, -, h⟩ := Serde.bind_ok.1 h
  obtain ⟨payment, -, h⟩ := Serde.bind_ok.1 h
  obtain ⟨time, -, h⟩ := Serde.bind_ok.1 h
  obtain rfl := Except.ok.inj h
  show size.getD 0 < 2 ^ 64
  cases size with
  | none => exact Nat.two_pow_pos 64
  | some size => exact Serde.yields_asUInt.optional hsize size rfl

namespace VmCommon

variable {n n' : Node} {message : Message} {content : StoreContent} {ctx : HandlerContext}

/-! ## The check -/

/-- The check of the parent fails, no read being refused. -/
def RejectsParent (n : Node) (parentRef : ItemHash) (sizeMib : Nat) : Prop :=
  ((validateParentVolumeSize parentRef sizeMib).run.run n).1 ≠ .ok ()

/-- The size of the parent in MiB, as the code rounds it up. -/
def parentSizeMib (size : Nat) : Nat := (size + (1024 * 1024 - 1)) % 2 ^ 64 / (1024 * 1024)

theorem rejectsParent_iff {parentRef : ItemHash} {sizeMib : Nat} {file : FileRecord}
    (hfile : n.files.find? parentRef = some file) :
    RejectsParent n parentRef sizeMib ↔ sizeMib < parentSizeMib (asU64 file.size) := by
  have hrun : (validateParentVolumeSize parentRef sizeMib).run.run n =
      (if sizeMib < parentSizeMib (asU64 file.size) then
        (throw (.invalidContent (s!"Rootfs size_mib ({sizeMib}) is smaller than parent file " ++
          s!"size ({parentSizeMib (asU64 file.size)} MiB). The rootfs must be at least as large as its parent.")) :
          Db HandlerError Unit)
      else pure ()).run.run n := by
    have hget : (db (PgDatabase.getFile parentRef)).run.run n = (.ok (some file), n) := by
      rw [db, run_mapErr, PgDatabase.getFile, run_query, hfile]
      rfl
    exact run_bind_ok hget
  rw [RejectsParent, hrun]
  split_ifs with hsmall
  · refine iff_of_true (fun h => ?_) hsmall
    cases h
  · exact iff_of_false (fun h => h rfl) hsmall

/-- **Rounding is exact** as long as the addition does not wrap. -/
theorem lt_parentSizeMib_iff {size sizeMib : Nat} (hfits : size + (2 ^ 20 - 1) < 2 ^ 64) :
    sizeMib < parentSizeMib size ↔ sizeMib * 2 ^ 20 < size := by
  unfold parentSizeMib
  rw [Nat.mod_eq_of_lt (by omega)]
  omega

/-- A size whose rounding wraps counts as none. -/
theorem parentSizeMib_of_wrap {size : Nat} (hsize : size < 2 ^ 64) (hwraps : 2 ^ 64 ≤ size + (2 ^ 20 - 1)) :
    parentSizeMib size = 0 := by
  have hmod : (size + (1024 * 1024 - 1)) % 2 ^ 64 = size + (2 ^ 20 - 1) - 2 ^ 64 := by
    rw [Nat.mod_eq_sub_mod (by omega), Nat.mod_eq_of_lt (by omega)]
    omega
  rw [parentSizeMib, hmod]
  exact Nat.div_eq_of_lt (by omega)

/-- The file of a STORE message that has been processed, with the size it declares. -/
theorem find?_files_of_process
    (hparse : parseContent ctx.env StoreContent.decode (fun e => e) message = .ok content)
    (hprocess : Exec (StoreHandler.process message ctx).run n (.ok ()) n') :
    ∃ file, n'.files.find? content.itemHash = some file ∧ file.size = asI64 (content.size.getD 0) := by
  obtain ⟨content', hparse', -, rfl⟩ := StoreHandler.exec_process_ok.1 hprocess
  obtain rfl := Except.ok.inj (hparse.symm.trans hparse')
  have hfiles : (StoreHandler.recorded message content ctx n).files =
      n.files.upsert ⟨content.itemHash, asI64 (content.size.getD 0), .file⟩
        (fun f => { f with size := asI64 (content.size.getD 0), fileType := .file })
        (StoreHandler.refiled_hash content) := rfl
  rw [hfiles, Table.find?_upsert, if_pos rfl]
  generalize asI64 (content.size.getD 0) = size
  cases n.files.find? content.itemHash with
  | none => exact ⟨_, rfl, rfl⟩
  | some file => exact ⟨_, rfl, rfl⟩

/-- **The check compares the declared sizes** exactly if rounding up the size of the parent stays within 64 bits: a
rootfs of any size is then rejected just when it is smaller than its parent. -/
theorem rejects_smaller_iff (sizeMib : UInt32)
    (hparse : parseContent ctx.env StoreContent.decode (fun e => e) message = .ok content)
    (hprocess : Exec (StoreHandler.process message ctx).run n (.ok ()) n') :
    (RejectsParent n' content.itemHash sizeMib.toNat ↔ sizeMib.toNat * 2 ^ 20 < content.size.getD 0) ↔
      content.size.getD 0 + (2 ^ 20 - 1) < 2 ^ 64 := by
  have hsize : content.size.getD 0 < 2 ^ 64 := by
    obtain ⟨s, -, hdecode⟩ := parseContent_ok.1 hparse
    obtain ⟨x, -, hx⟩ := Serde.bind_ok.1 hdecode
    exact StoreContent.size_lt hx
  obtain ⟨file, hfile, hstored⟩ := find?_files_of_process hparse hprocess
  rw [rejectsParent_iff hfile, hstored, asU64_asI64 hsize]
  constructor
  · intro h
    by_contra hwraps
    have hmib := sizeMib.toNat_lt
    have hzero := parentSizeMib_of_wrap hsize (by omega)
    have hsmaller := h.2 (by omega)
    omega
  · exact fun hfits => lt_parentSizeMib_iff hfits

/-! ### A parent of the largest size -/

section Largest

def parentHash : ItemHash := "aaaaaaaaaaaaaaaaaaaaaaaaaaaaaaaaaaaaaaaaaaaaaaaaaaaaaaaaaaaaaaaa"

/-- The content of a STORE message that declares the size. -/
def declaring (size : Nat) : Json :=
  .obj [("address", .str "0xowner"), ("item_type", .str "storage"), ("item_hash", .str parentHash),
    ("size", .num (.int size)), ("time", .num (.int 1700000000))]

def declaringStore : Message where
  messageType := .store
  chain := .eth
  sender := "0xowner"
  signature := ""
  itemType := .inline
  itemHash := "declaring"
  itemContent := some "declaring"
  channel := none
  time := 1700000000

def declaringCtx (size : Nat) : HandlerContext :=
  ⟨Env.ofTables [("declaring", declaring size)] [] [], .stored, 1700000000, none, true⟩

def declaredContent (size : Nat) : StoreContent :=
  ⟨"0xowner", .storage, parentHash, some size, none, none, none, 1700000000⟩

/-- The node that has stored the file. -/
def declared (size : Nat) : Node :=
  StoreHandler.recorded declaringStore (declaredContent size) (declaringCtx size) .empty

theorem process_declaring {size : Nat}
    (hparse : parseContent (declaringCtx size).env StoreContent.decode (fun e => e) declaringStore =
      .ok (declaredContent size)) :
    Exec (StoreHandler.process declaringStore (declaringCtx size)).run .empty (.ok ()) (declared size) := by
  refine StoreHandler.exec_process_ok.2 ⟨_, hparse, ?_, rfl⟩
  rintro ⟨_, hp, _⟩
  exact List.not_mem_nil hp

theorem parse_largest : parseContent (declaringCtx (2 ^ 64 - 1)).env StoreContent.decode (fun e => e) declaringStore =
    .ok (declaredContent (2 ^ 64 - 1)) := by
  decide +kernel

/-- **A parent of `2 ^ 64 - 1` bytes** is stored, and a rootfs of 1 MiB passes the check against it. -/
theorem largest_parent_passes :
    Exec (StoreHandler.process declaringStore (declaringCtx (2 ^ 64 - 1))).run .empty (.ok ()) (declared (2 ^ 64 - 1)) ∧
      ¬ RejectsParent (declared (2 ^ 64 - 1)) parentHash 1 ∧ 1 * 2 ^ 20 < (declaredContent (2 ^ 64 - 1)).size.getD 0 := by
  have hprocess := process_declaring parse_largest
  obtain ⟨file, hfile, hsize⟩ := find?_files_of_process parse_largest hprocess
  refine ⟨hprocess, ?_, by decide⟩
  intro hrejects
  have hsmall := (rejectsParent_iff hfile).1 hrejects
  rw [hsize] at hsmall
  exact absurd hsmall (by decide)

/-- A parent of 3 MiB rejects a rootfs of 2 MiB. -/
theorem rejects_half : RejectsParent (declared (3 * 2 ^ 20)) parentHash 2 := by
  have hparse : parseContent (declaringCtx (3 * 2 ^ 20)).env StoreContent.decode (fun e => e) declaringStore =
      .ok (declaredContent (3 * 2 ^ 20)) := by decide +kernel
  exact ((rejects_smaller_iff 2 hparse (process_declaring hparse)).2 (by decide)).2 (by decide)

end Largest

end VmCommon

end AlephCore
