import AlephCore.Jobs.Delivery
import AlephCore.Services.Cost

/-!
# VmFiles — the files of virtual machines

A virtual machine names files; a FORGET names messages.  Its dependency check compares the two, so the FORGET of
a STORE message is let through, and takes the pin of a file that a virtual machine is built from.
-/

namespace AlephCore.MessageProcessor

open Prog ForgetHandler

/-! ## Files that are needed -/

/-- The volume is an immutable one, made from the file. -/
def MadeFrom (v : VmVolumeRow) (file : ItemHash) : Prop :=
  ∃ useLatest, v.volume.source = .immutable file useLatest

/-- A virtual machine that none of the targets takes names the file: as code or runtime, as its root file
system, or as an immutable volume. -/
def NeededBeside (ts : List Target) (n : Node) (file : ItemHash) : Prop :=
  (∃ p ∈ n.programs, (∀ t ∈ ts, ¬ t.TakesProgram p) ∧ (p.codeRef = file ∨ p.runtimeRef = file)) ∨
    (∃ i ∈ n.instances, (∀ t ∈ ts, ¬ t.TakesInstance i) ∧ i.rootfsRef = file) ∨
    ∃ v ∈ n.vmMachineVolumes, (∀ t ∈ ts, ¬ t.TakesVmData v.vmHash) ∧ MadeFrom v file ∧
      ((∃ p ∈ n.programs, (∀ t ∈ ts, ¬ t.TakesProgram p) ∧ p.itemHash = v.vmHash) ∨
        ∃ i ∈ n.instances, (∀ t ∈ ts, ¬ t.TakesInstance i) ∧ i.itemHash = v.vmHash)

/-- A stored virtual machine names the file. -/
def Needed (n : Node) (file : ItemHash) : Prop := NeededBeside [] n file

/-- A FORGET leaves each file that a virtual machine still needs one of its active pins: one whose message is
none of the listed STORE messages, and whose file is not listed itself. -/
def SparesVmFiles (env : Env) (message : Message) (n : Node) : Prop :=
  ∀ content, parseContent env ForgetContent.decode (fun e => e) message = .ok content →
    ∀ file, NeededBeside (targets n [] content.hashes) n file → HasActivePin n file →
      ∃ p ∈ n.filePins, p.itemHash = file ∧ p.Active ∧ ∀ t ∈ targets n [] content.hashes, ¬ t.TakesPin p

variable {env : Env} {message : Message} {n n' : Node} {ts : List Target} {gone : List ItemHash}

/-! ## A FORGET -/

/-- What is needed afterwards was needed before, beside the targets. -/
theorem needed_gone (hgone : TargetsGone ts gone n n') (file : ItemHash) :
    Needed n' file ↔ NeededBeside ts n file := by
  simp only [Needed, NeededBeside, hgone.programs, hgone.instances, hgone.volumes, List.not_mem_nil,
    false_implies, implies_true, true_and, and_assoc]

theorem hasActivePin_gone (hgone : TargetsGone ts gone n n') (file : ItemHash) :
    HasActivePin n' file ↔
      ∃ p ∈ n.filePins, p.itemHash = file ∧ p.Active ∧ ∀ t ∈ ts, ¬ t.TakesPin p := by
  constructor
  · rintro ⟨p, hp, hfile, ha⟩
    obtain ⟨hp, hleft⟩ := (hgone.pins p ha).1 hp
    exact ⟨p, hp, hfile, ha, hleft⟩
  · rintro ⟨p, hp, hfile, ha, hleft⟩
    exact ⟨p, (hgone.pins p ha).2 ⟨hp, hleft⟩, hfile, ha⟩

/-- **A FORGET leaves every file that a virtual machine needs an active pin** exactly if one of its pins is
taken by none of the targets. -/
theorem needed_pinned_iff (htype : message.messageType = .forget) (h : Accepted env message n n') :
    (∀ file, Needed n' file → HasActivePin n file → HasActivePin n' file) ↔ SparesVmFiles env message n := by
  obtain ⟨ctx, rfl, receptionTime, n₁, heffect, rfl⟩ := h.effect
  cases heffect with
  | forget content _ hparse hvalidate =>
    have hgone := hashesForgotten_gone message content ctx content.hashes n
    have hstored : ∀ file, (Needed (stored ctx.env message receptionTime
          (hashesForgotten message content ctx content.hashes n)) file ↔
        NeededBeside (targets n [] content.hashes) n file) ∧
        (HasActivePin (stored ctx.env message receptionTime
          (hashesForgotten message content ctx content.hashes n)) file ↔
        ∃ p ∈ n.filePins, p.itemHash = file ∧ p.Active ∧ ∀ t ∈ targets n [] content.hashes, ¬ t.TakesPin p) :=
      fun file => ⟨needed_gone hgone file, hasActivePin_gone hgone file⟩
    constructor
    · intro hkept content' hparse' file hneeded hpin
      obtain rfl := Except.ok.inj (hparse.symm.trans hparse')
      exact (hstored file).2.1 (hkept file ((hstored file).1.2 hneeded) hpin)
    · intro hspares file hneeded hpin
      exact (hstored file).2.2 (hspares content hparse file ((hstored file).1.1 hneeded) hpin)
  | aggregate content htype' => rw [htype'] at htype; cases htype
  | post content htype' => rw [htype'] at htype; cases htype
  | amend content originalHash target htype' => rw [htype'] at htype; cases htype
  | store content htype' => rw [htype'] at htype; cases htype
  | program content htype' => rw [htype'] at htype; cases htype
  | «instance» content htype' => rw [htype'] at htype; cases htype

/-! ### A program and the message of its file -/

section OneProgram

/-- The text of a program that runs the file, or of an amendment of it. -/
def programText (replaces time : String) : String :=
  "\x7b\"address\":\"" ++ fileOwner ++ "\",\"runtime\":\x7b\"ref\":\"" ++ file ++
    "\",\"use_latest\":false\x7d,\"code\":\x7b\"encoding\":\"zip\",\"entrypoint\":\"main:app\",\"ref\":\"" ++ file ++
    "\",\"use_latest\":false\x7d,\"resources\":\x7b\"memory\":128,\"vcpus\":1\x7d," ++ replaces ++ "\"time\":" ++
    time ++ "\x7d"

def programFields (replaces : List (String × Json)) (time : Int) : List (String × Json) :=
  [("address", .str fileOwner), ("runtime", .obj [("ref", .str file), ("use_latest", .bool false)]),
    ("code", .obj [("encoding", .str "zip"), ("entrypoint", .str "main:app"), ("ref", .str file),
      ("use_latest", .bool false)]),
    ("resources", .obj [("memory", .num (.int 128)), ("vcpus", .num (.int 1))])] ++ replaces ++
  [("time", .num (.int time))]

def programHash : ItemHash := "51ebdc8d2ae1174a19a884665eda57568dfc1a796985dd5b18fb3fc8113d3b8a"

def amendmentHash : ItemHash := "49aa19f6c13f0d62e949e3ab183c0746eee5a04b9253788aae8729e4bcf91e54"

def firstProgramText : String := programText "" "1700000010"

def amendmentText : String := programText ("\"replaces\":\"" ++ programHash ++ "\",") "1700000020"

/-- What they say. -/
def programContent (replaces : Option ItemHash) (time : Timestamp) : ProgramContent where
  address := fileOwner
  allowAmend := true
  runtime := ⟨file, false, none⟩
  code := ⟨"zip", "main:app", file, false⟩
  resources := ⟨128, 1, 30⟩
  environment := none
  metadata := none
  vars := none
  volumes := []
  payment := none
  requirements := none
  replaces := replaces
  data := none
  exportInfo := none
  time := time

/-- A message of the owner with that content. -/
def ownerMessage (messageType : MessageType) (hash : ItemHash) (text : String) : Message :=
  { firstStore with messageType, itemHash := hash, itemContent := some text }

def firstProgram : Message := ownerMessage .program programHash firstProgramText

def amendment : Message := ownerMessage .program amendmentHash amendmentText

/-- A FORGET of the program, and one of its amendment. -/
def forgetProgram : Message := forgetMessage programHash
  "8005fd5bf232e09bcd999b83a8cdaeff89f3e1120267535483b9b288a4ce926b"
  ("0xc5e54001d14c3dc095b8a6c66e5df61504b341433cd73281ffd7ebd3e725dff11879c97373a4f8bdd1496ea17c9a7964a5a2" ++
    "db3fa7d9cdcf82bc456b5ff5a71a1b")

def forgetAmendment : Message := forgetMessage amendmentHash
  "968377cf204be7aeaef1c86ea07ab2478c05186e058b7fee3e0436dbe6ac1984"
  ("0x07d0e0e30c6c6e982a08e7fb1e898ddad0292b08895944f76f590e2b0e6fb5aa0d6237a616a3ee2540cd87341e25731d6d11" ++
    "87115332a51ffac40e8d5d47963b1b")

def signatureOf (m : Message) : String × String × String :=
  ("ETH\n" ++ fileOwner ++ "\nFORGET\n" ++ m.itemHash, m.signature, fileOwner)

/-- A node that knows these messages, with a cost service. -/
def vmCtx : ProcessorContext where
  env := .ofTables [(storeText "1700000000", storeJson 1700000000),
      (firstProgramText, .obj (programFields [] 1700000010)),
      (amendmentText, .obj (programFields [("replaces", .str programHash)] 1700000020)),
      (forgetText firstHash, forgetJson firstHash), (forgetText programHash, forgetJson programHash),
      (forgetText amendmentHash, forgetJson amendmentHash)]
    [(forgetText firstHash, forgetFirst.itemHash), (forgetText programHash, forgetProgram.itemHash),
      (forgetText amendmentHash, forgetAmendment.itemHash)]
    [signatureOf forgetFirst, signatureOf forgetProgram, signatureOf forgetAmendment]
  order := .stored
  now := 1700000200
  cost := some .new
  ipfsGet := fun _ => .error "not found"

def vmHandlerCtx : HandlerContext := createHandlerContext vmCtx true

example : forgetProgram.verifySignature vmCtx.env = .ok true := by decide +kernel

theorem fromStr_store :
    vmCtx.env.fromStr StoreContent.decode (storeText "1700000000") = .ok (storeContent 1700000000) := by
  decide +kernel

theorem fromStr_firstProgram :
    vmCtx.env.fromStr ProgramContent.decode firstProgramText = .ok (programContent none 1700000010) := by
  decide +kernel

theorem fromStr_amendment :
    vmCtx.env.fromStr ProgramContent.decode amendmentText = .ok (programContent (some programHash) 1700000020) := by
  decide +kernel

theorem fromStr_forget {hash : ItemHash} (h : hash ∈ [firstHash, programHash, amendmentHash]) :
    vmCtx.env.fromStr ForgetContent.decode (forgetText hash) = .ok (forgetContent hash) := by
  simp only [List.mem_cons, List.not_mem_nil, or_false] at h
  obtain rfl | rfl | rfl := h
  · decide +kernel
  · decide +kernel
  · decide +kernel

/-- The node after the STORE message, after a program, and after a FORGET. -/
def fileStored : Node :=
  stored vmCtx.env firstStore 1700000200
    (StoreHandler.recorded firstStore (storeContent 1700000000) vmHandlerCtx .empty)

def programStored (message : Message) (content : ProgramContent) (n : Node) : Node :=
  stored vmCtx.env message 1700000200 (ProgramHandler.recorded message content vmHandlerCtx n)

def afterForgetting (message : Message) (hash : ItemHash) (n : Node) : Node :=
  stored vmCtx.env message 1700000200 (hashesForgotten message (forgetContent hash) vmHandlerCtx [hash] n)

section Deliver

variable {ctx : ProcessorContext}

theorem delivered_store_by
    (hdecode : ctx.env.fromStr StoreContent.decode (storeText "1700000000") = .ok (storeContent 1700000000)) :
    DeliveredBy ctx firstStore .empty (stored ctx.env firstStore 1700000200
      (StoreHandler.recorded firstStore (storeContent 1700000000) (createHandlerContext ctx true) .empty)) := by
  have hplain : StoreHandler.Plain firstStore (createHandlerContext ctx true) (storeContent 1700000000) := by
    refine ⟨⟨_, rfl, hdecode⟩, ?_, ?_, rfl, Nat.zero_le _, .inl rfl⟩
    · show file ≠ ""
      decide +kernel
    · show StoreHandler.validateItemTypeHash .ipfs file = .ok ()
      decide +kernel
  exact ⟨by decide +kernel, acceptedBy_of_trusted _ rfl rfl
    (hplain.exec_processMessage rfl fun ⟨_, hp, _⟩ => absurd hp List.not_mem_nil)⟩

/-- The program is valid where the file is pinned. -/
theorem programContent_valid {replaces : Option ItemHash} {time : Timestamp}
    (hpinned : file ∈ n.filePins.rows.map FilePinRecord.itemHash)
    (hreplaces : ∀ o, replaces = some o →
      (∃ p ∈ n.programs, p.itemHash = o ∧ p.replaces = none) ∧ PgDatabase.amendAllowed o n = some true) :
    ProgramHandler.Valid (programContent replaces time) n := by
  refine ⟨by simp [programContent], by simp [programContent], fun r hr => ?_, fun r hr => ?_, hreplaces⟩
  · have hfile : r ∈ [file, file] := hr
    obtain rfl : r = file := by simpa using hfile
    exact hpinned
  · exact absurd hr List.not_mem_nil

theorem delivered_program_by {hash : ItemHash} {text : String} {replaces : Option ItemHash} {time : Timestamp}
    (hdecode : ctx.env.fromStr ProgramContent.decode text = .ok (programContent replaces time))
    (hfresh : Fresh n hash) (hpinned : file ∈ n.filePins.rows.map FilePinRecord.itemHash)
    (hreplaces : ∀ o, replaces = some o →
      (∃ p ∈ n.programs, p.itemHash = o ∧ p.replaces = none) ∧ PgDatabase.amendAllowed o n = some true) :
    DeliveredBy ctx (ownerMessage .program hash text) n
      (stored ctx.env (ownerMessage .program hash text) 1700000200 (ProgramHandler.recorded
        (ownerMessage .program hash text) (programContent replaces time) (createHandlerContext ctx true) n)) :=
  ⟨hfresh, acceptedBy_of_trusted _ rfl rfl
    (ProgramHandler.exec_processMessage rfl (parseContent_ok.2 ⟨text, rfl, hdecode⟩)
      (programContent_valid hpinned hreplaces) rfl (exec_permissionStage_trusted rfl))⟩

end Deliver

theorem delivered_store : DeliveredBy vmCtx firstStore .empty fileStored := delivered_store_by fromStr_store

theorem delivered_program {hash : ItemHash} {text : String} {replaces : Option ItemHash} {time : Timestamp}
    (hdecode : vmCtx.env.fromStr ProgramContent.decode text = .ok (programContent replaces time))
    (hfresh : Fresh n hash) (hpinned : file ∈ n.filePins.rows.map FilePinRecord.itemHash)
    (hreplaces : ∀ o, replaces = some o →
      (∃ p ∈ n.programs, p.itemHash = o ∧ p.replaces = none) ∧ PgDatabase.amendAllowed o n = some true) :
    DeliveredBy vmCtx (ownerMessage .program hash text) n
      (programStored (ownerMessage .program hash text) (programContent replaces time) n) :=
  delivered_program_by hdecode hfresh hpinned hreplaces

theorem delivered_forget {hash itemHash : ItemHash} {signature : String}
    (hhash : hash ∈ [firstHash, programHash, amendmentHash])
    (hsigned : (forgetMessage hash itemHash signature).verifySignature vmCtx.env = .ok true)
    (hfresh : Fresh n itemHash)
    (hforgettable : Forgettable (forgetMessage hash itemHash signature) vmHandlerCtx n hash) :
    DeliveredBy vmCtx (forgetMessage hash itemHash signature) n
      (afterForgetting (forgetMessage hash itemHash signature) hash n) := by
  have hacceptable : Acceptable (forgetMessage hash itemHash signature) vmHandlerCtx (forgetContent hash) n := by
    refine ⟨⟨_, rfl, fromStr_forget hhash, .inl rfl⟩, List.cons_ne_nil _ _, hsigned, fun h hh => ?_, .inl rfl⟩
    rwa [List.mem_singleton.1 hh]
  exact ⟨hfresh, acceptedBy_of_trusted _ rfl rfl (hacceptable.exec_processMessage rfl)⟩

/-- The node with the file and the program. -/
def withProgram : Node := programStored firstProgram (programContent none 1700000010) fileStored

example : withProgram.programs.rows.map ProgramRow.codeRef = [file] := by decide +kernel

theorem delivered_firstProgram : DeliveredBy vmCtx firstProgram fileStored withProgram :=
  delivered_program fromStr_firstProgram (by decide +kernel) (by decide +kernel) fun o ho => nomatch ho

/-- The dependency check finds nothing: the program names the file, not its message. -/
theorem delivered_forgetFirst :
    DeliveredBy vmCtx forgetFirst withProgram (afterForgetting forgetFirst firstHash withProgram) := by
  refine delivered_forget (by decide +kernel) (by decide +kernel) (by decide +kernel) ⟨?_, by decide +kernel, ?_, ?_⟩
  · exact ⟨processedRow vmCtx.env firstStore 1700000200, by decide +kernel, rfl, by decide, rfl⟩
  · have hrefs : ∀ p ∈ withProgram.programs.rows, p.codeRef ≠ firstHash ∧ p.runtimeRef ≠ firstHash := by
      decide +kernel
    exact hrefs
  · exact fun i hi => absurd hi List.not_mem_nil

theorem delivered_forgetProgram :
    DeliveredBy vmCtx forgetProgram withProgram (afterForgetting forgetProgram programHash withProgram) := by
  refine delivered_forget (by decide +kernel) (by decide +kernel) (by decide +kernel) ⟨?_, by decide +kernel, ?_, ?_⟩
  · exact ⟨processedRow vmCtx.env firstProgram 1700000200, by decide +kernel, rfl, by decide, rfl⟩
  · have hrefs : ∀ p ∈ withProgram.programs.rows, p.codeRef ≠ programHash ∧ p.runtimeRef ≠ programHash := by
      decide +kernel
    exact hrefs
  · exact fun i hi => absurd hi List.not_mem_nil

/-- The FORGET of the program leaves the pins alone. -/
theorem forgetProgram_pinned :
    SparesVmFiles vmCtx.env forgetProgram withProgram ∧
      ∀ f, Needed (afterForgetting forgetProgram programHash withProgram) f → HasActivePin withProgram f →
        HasActivePin (afterForgetting forgetProgram programHash withProgram) f := by
  have hspares : SparesVmFiles vmCtx.env forgetProgram withProgram := by
    intro content hparse f _ hpin
    obtain ⟨s, hs, hdecode⟩ := parseContent_ok.1 hparse
    obtain rfl := Option.some.inj hs
    obtain rfl := Except.ok.inj ((fromStr_forget (by decide +kernel)).symm.trans hdecode)
    obtain ⟨p, hp, hfile, ha⟩ := hpin
    have hleft : ∀ p ∈ withProgram.filePins.rows, p.itemHash ≠ programHash := by decide +kernel
    refine ⟨p, hp, hfile, ha, fun t ht htakes => ?_⟩
    have htargets : targets withProgram [] [programHash] = [⟨programHash, some .program⟩] := by decide +kernel
    rw [show (forgetContent programHash).hashes = [programHash] from rfl, htargets, List.mem_singleton] at ht
    subst ht
    exact hleft p hp htakes
  exact ⟨hspares, (needed_pinned_iff rfl delivered_forgetProgram.delivered.accepted).2 hspares⟩

/-- The FORGET of the STORE message is accepted and takes the only pin of the file the program runs. -/
theorem forgetFirst_not_pinned :
    DeliveredBy vmCtx firstStore .empty fileStored ∧ DeliveredBy vmCtx firstProgram fileStored withProgram ∧
      DeliveredBy vmCtx forgetFirst withProgram (afterForgetting forgetFirst firstHash withProgram) ∧
      Needed (afterForgetting forgetFirst firstHash withProgram) file ∧ HasActivePin withProgram file ∧
      ¬ HasActivePin (afterForgetting forgetFirst firstHash withProgram) file := by
  have hprogram : ProgramHandler.rowOf firstProgram (programContent none 1700000010) ∈
      (afterForgetting forgetFirst firstHash withProgram).programs := by decide +kernel
  refine ⟨delivered_store, delivered_firstProgram, delivered_forgetFirst, .inl ⟨_, hprogram, by simp, .inl rfl⟩,
    by decide +kernel, by decide +kernel⟩

end OneProgram

end AlephCore.MessageProcessor
