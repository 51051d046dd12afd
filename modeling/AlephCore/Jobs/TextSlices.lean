import AlephCore.Handlers.VmSpec
import AlephCore.Jobs.P2pConsumer
import AlephCore.Services.StorageSafety

/-!
# TextSlices — byte ranges of texts that come from outside

Several places cut a text at a fixed number of bytes: the log lines of the virtual machine handlers, the excerpt of
a delivery that is no message, the directories of a stored content, and the search for addresses.  Such a cut ends
the task if a character straddles it.  Nothing on the way there excludes that: references to files are only compared
with stored ones, whose hashes may be any text of fifty bytes that starts with a `b`.
-/

namespace AlephCore

open UnixPath ProgE Prog Storage

/-! ## Cuts -/

namespace Storage

/-- A character of the text begins before the position and ends behind it. -/
def Straddles (k : Nat) (s : Text) : Prop :=
  ∃ a c b, s = a ++ c :: b ∧ byteLen a < k ∧ k < byteLen a + c.utf8Size

variable {s a b : Text} {k j : Nat} {c : Char}

theorem byteLen_cons : byteLen (c :: s) = c.utf8Size + byteLen s := by
  rw [byteLen, List.map_cons, List.sum_cons]
  rfl

theorem byteLen_append : byteLen (a ++ b) = byteLen a + byteLen b := by
  rw [byteLen, List.map_append, List.sum_append]
  rfl

theorem straddles_lt (h : Straddles k s) : k < byteLen s := by
  obtain ⟨a, c, b, rfl, -, hbehind⟩ := h
  rw [byteLen_append, byteLen_cons]
  omega

theorem straddles_cons (hfits : c.utf8Size ≤ k) : Straddles k (c :: s) ↔ Straddles (k - c.utf8Size) s := by
  constructor
  · rintro ⟨a, d, b, hs, hbefore, hbehind⟩
    cases a with
    | nil =>
      obtain ⟨rfl, rfl⟩ := List.cons.inj hs
      have hlen : byteLen [] = 0 := rfl
      omega
    | cons e a =>
      obtain ⟨rfl, rfl⟩ := List.cons.inj hs
      rw [byteLen_cons] at hbefore hbehind
      exact ⟨a, d, b, rfl, by omega, by omega⟩
  · rintro ⟨a, d, b, rfl, hbefore, hbehind⟩
    refine ⟨c :: a, d, b, rfl, ?_, ?_⟩
    · rw [byteLen_cons]
      omega
    · rw [byteLen_cons]
      omega

/-- **A cut fails** exactly where a character straddles it. -/
theorem splitAt_eq_none_iff (hk : k ≤ byteLen s) : splitAt k s = none ↔ Straddles k s := by
  induction s generalizing k with
  | nil =>
    have hlen : byteLen [] = 0 := rfl
    obtain rfl : k = 0 := by omega
    refine iff_of_false (fun h => ?_) fun h => ?_
    · cases h
    · have hlt := straddles_lt h
      omega
  | cons c s ih =>
    cases k with
    | zero =>
      refine iff_of_false (fun h => ?_) ?_
      · cases h
      · rintro ⟨a, d, b, -, hbefore, -⟩
        omega
    | succ k =>
      rw [splitAt]
      rw [byteLen_cons] at hk
      split_ifs with hfits
      · rw [Option.map_eq_none_iff, ih (by omega), straddles_cons hfits]
      · refine iff_of_true rfl ⟨[], c, s, rfl, ?_, ?_⟩
        · have hlen : byteLen [] = 0 := rfl
          omega
        · have hlen : byteLen [] = 0 := rfl
          omega

/-- Where a cut succeeds, what follows is cut where the whole is. -/
theorem byteLen_of_splitAt (h : splitAt k s = some (a, b)) : byteLen a = k := by
  induction s generalizing k a with
  | nil =>
    cases k with
    | zero =>
      rw [splitAt, Option.some.injEq, Prod.mk.injEq] at h
      rw [← h.1]
      rfl
    | succ k => cases h
  | cons c s ih =>
    cases k with
    | zero =>
      rw [splitAt, Option.some.injEq, Prod.mk.injEq] at h
      rw [← h.1]
      rfl
    | succ k =>
      rw [splitAt] at h
      split_ifs at h with hfits
      rw [Option.map_eq_some_iff] at h
      obtain ⟨⟨a', b'⟩, hrest, heq⟩ := h
      obtain ⟨rfl, rfl⟩ := Prod.mk.inj heq
      rw [byteLen_cons, ih hrest]
      omega

theorem straddles_append : Straddles (byteLen a + j) (a ++ b) ↔ Straddles j b := by
  induction a with
  | nil =>
    have hlen : byteLen [] = 0 := rfl
    rw [hlen, Nat.zero_add, List.nil_append]
  | cons c a ih =>
    rw [List.cons_append, byteLen_cons, straddles_cons (by omega), ← ih]
    have hsub : c.utf8Size + byteLen a + j - c.utf8Size = byteLen a + j := by omega
    rw [hsub]

/-- **A slice fails** exactly where a character straddles one of its ends. -/
theorem slice_eq_none_iff {i : Nat} (hlen : i + j ≤ byteLen s) :
    slice s i (i + j) = none ↔ Straddles i s ∨ Straddles (i + j) s := by
  unfold slice
  rw [Nat.add_sub_cancel_left]
  cases hfront : splitAt i s with
  | none => exact iff_of_true rfl (.inl ((splitAt_eq_none_iff (by omega)).1 hfront))
  | some p =>
    obtain ⟨front, rest⟩ := p
    have hfits : ¬ Straddles i s := by
      rw [← splitAt_eq_none_iff (by omega), hfront]
      exact Option.some_ne_none _
    obtain rfl := splitAt_eq hfront
    obtain rfl := byteLen_of_splitAt hfront
    rw [byteLen_append] at hlen
    rw [or_iff_right hfits, straddles_append, ← splitAt_eq_none_iff (by omega)]
    simp only [Option.bind_eq_bind, Option.bind_some]
    cases splitAt j rest with
    | none => exact iff_of_true rfl rfl
    | some q => exact iff_of_false (Option.some_ne_none _) (Option.some_ne_none _)

theorem not_straddles_zero : ¬ Straddles 0 s := by
  rintro ⟨a, c, b, -, hbefore, -⟩
  omega

/-- A prefix of at most `k` bytes. -/
theorem slice_prefix_eq_none_iff : slice s 0 (min k (byteLen s)) = none ↔ Straddles k s := by
  have hslice : slice s 0 (0 + min k (byteLen s)) = none ↔ Straddles 0 s ∨ Straddles (0 + min k (byteLen s)) s :=
    slice_eq_none_iff (by omega)
  rw [Nat.zero_add, or_iff_right not_straddles_zero] at hslice
  rw [hslice]
  by_cases hk : k ≤ byteLen s
  · rw [min_eq_left hk]
  · rw [min_eq_right (by omega)]
    refine iff_of_false (fun h => ?_) fun h => ?_
    · have hlt := straddles_lt h
      omega
    · have hlt := straddles_lt h
      omega

end Storage

/-! ## Log lines of the virtual machine handlers -/

/-- `tracing::info!` and `tracing::debug!`: the arguments are computed if the level is enabled. -/
def logged {α : Type} (enabled : Bool) (line : Option α) : Db (Panic ⊕ HandlerError) Unit :=
  if enabled then fromExcept (line.elim (.error (.inl ⟨⟩)) fun _ => .ok ()) else pure ()

/-- The first bytes of a text. -/
def excerpt (k : Nat) (s : String) : Option Text := slice s.toList 0 (min k (byteLen s.toList))

/-- The task ends in a panic. -/
def Panics (p : Db (Panic ⊕ HandlerError) Unit) (n : Node) : Prop := ∃ n', Exec p.run n (.error (.inl ⟨⟩)) n'

namespace ProgramHandler

/-- The excerpts in the line about a processed program. -/
def logLine (message : Message) (content : ProgramContent) : Option (Text × Text) := do
  let hash ← excerpt 16 message.itemHash
  let runtime ← excerpt 16 content.runtime.ref_
  some (hash, runtime)

/-- `process`, with its log line. -/
def processAndLog (info : Bool) (message : Message) (ctx : HandlerContext) : Db (Panic ⊕ HandlerError) Unit := do
  let content ← fromExcept ((parseContent ctx.env message).mapError .inr)
  mapErr .inr (process message ctx)
  logged info (logLine message content)

end ProgramHandler

namespace InstanceHandler

/-- The excerpt in the line about a processed instance. -/
def logLine (message : Message) : Option Text := excerpt 16 message.itemHash

/-- `process`, with its log line. -/
def processAndLog (info : Bool) (message : Message) (ctx : HandlerContext) : Db (Panic ⊕ HandlerError) Unit := do
  mapErr .inr (process message ctx)
  logged info (logLine message)

end InstanceHandler

variable {n n' : Node} {message : Message} {ctx : HandlerContext}

theorem excerpt_eq_none_iff {k : Nat} {s : String} : excerpt k s = none ↔ Straddles k s.toList :=
  slice_prefix_eq_none_iff

/-- After a step that can succeed only the log line may panic. -/
theorem panics_logged {α : Type} {p : Db HandlerError Unit} {enabled : Bool} {line : Option α}
    (hok : Exec p.run n (.ok ()) n') :
    Panics (do mapErr .inr p; logged enabled line) n ↔ enabled = true ∧ line = none := by
  unfold Panics logged
  constructor
  · rintro ⟨n₂, h⟩
    rcases exec_bind_error.1 h with h | ⟨u, n₁, -, h⟩
    · obtain ⟨e, he, -⟩ := exec_mapErr_error.1 h
      cases he
    · cases enabled with
      | false => exact absurd h exec_pure_error
      | true =>
        cases line with
        | none => exact ⟨rfl, rfl⟩
        | some a =>
          obtain ⟨he, -⟩ := exec_fromExcept.1 h
          cases he
  · rintro ⟨rfl, rfl⟩
    exact ⟨n', exec_bind_error.2 (.inr ⟨(), n', exec_mapErr_ok.2 hok, exec_fromExcept.2 ⟨rfl, rfl⟩⟩)⟩

theorem ProgramHandler.panics_iff {info : Bool} (hvalid : Exec (validate message ctx).run n (.ok ()) n') :
    Panics (processAndLog info message ctx) n ↔ info = true ∧ (Straddles 16 message.itemHash.toList ∨
      ∃ content, parseContent ctx.env message = .ok content ∧ Straddles 16 content.runtime.ref_.toList) := by
  obtain ⟨content, hparse, -, -⟩ := exec_validate_ok.1 hvalid
  have hprocess : Exec (process message ctx).run n (.ok ()) (recorded message content ctx n) :=
    exec_process_ok.2 ⟨content, hparse, rfl⟩
  have hrun : Panics (processAndLog info message ctx) n ↔
      Panics (do mapErr .inr (process message ctx); logged info (logLine message content)) n := by
    unfold processAndLog
    rw [hparse]
    exact Iff.rfl
  have hline : logLine message content = none ↔
      Straddles 16 message.itemHash.toList ∨ Straddles 16 content.runtime.ref_.toList := by
    rw [← excerpt_eq_none_iff, ← excerpt_eq_none_iff]
    unfold logLine
    cases excerpt 16 message.itemHash with
    | none => exact iff_of_true rfl (.inl rfl)
    | some hash =>
      cases excerpt 16 content.runtime.ref_ with
      | none => exact iff_of_true rfl (.inr rfl)
      | some runtime => simp
  rw [hrun, panics_logged hprocess, hline, hparse]
  simp only [Except.ok.injEq, exists_eq_left']

theorem InstanceHandler.panics_iff {info : Bool} (hvalid : Exec (validate message ctx).run n (.ok ()) n') :
    Panics (processAndLog info message ctx) n ↔ info = true ∧ Straddles 16 message.itemHash.toList := by
  obtain ⟨content, hparse, -⟩ := exec_validate_ok.1 hvalid
  have hprocess : Exec (process message ctx).run n (.ok ()) (recorded message content ctx n) :=
    exec_process_ok.2 ⟨content, hparse, rfl⟩
  exact (panics_logged hprocess).trans (and_congr_right fun _ => excerpt_eq_none_iff)

/-! ## A delivery that is no message -/

namespace P2pConsumer

/-- The text of a delivery, decoded where it can be. -/
def decodedText (ctx : P2pConsumerContext) (data : ByteArray) : Option String :=
  (String.fromUTF8? data).map fun raw => match ctx.urlDecode raw with
    | .ok s => s
    | .error _ => raw

/-- It is the text that the consumer parses. -/
theorem parseDelivery_eq (ctx : P2pConsumerContext) (data : ByteArray) :
    parseDelivery ctx data = (decodedText ctx data).bind fun s => (ctx.env.fromStr Message.decode s).toOption := by
  unfold parseDelivery decodedText
  cases String.fromUTF8? data with
  | none => rfl
  | some raw => rfl

/-- The line about a delivery that cannot be parsed, with its first 200 bytes, ends the consumer. -/
def ExcerptPanics (debug : Bool) (ctx : P2pConsumerContext) (data : ByteArray) : Prop :=
  ∃ s e, decodedText ctx data = some s ∧ ctx.env.fromStr Message.decode s = .error e ∧ debug = true ∧
    excerpt 200 s = none

end P2pConsumer

/-! ## The search for addresses -/

/-- `str::replace` of a character. -/
def replaceChar (c : Char) (by_ : Text) (s : Text) : Text := s.flatMap fun d => if d = c then by_ else [d]

/-- The pattern that the addresses are compared with: at most 66 bytes, the wildcards escaped. -/
def addressSearch (search : String) : Option Text :=
  (excerpt 66 search).map fun truncated =>
    "%".toList ++ replaceChar '_' "\\_".toList (replaceChar '%' "\\%".toList truncated) ++ "%".toList

/-! ## Where every cut succeeds -/

theorem LocalStorage.pathFor_eq_none_iff {storage : LocalStorage} {hash : Text} :
    storage.pathFor hash = none ↔ 4 ≤ byteLen hash ∧ (Straddles 2 hash ∨ Straddles 4 hash) := by
  unfold LocalStorage.pathFor
  by_cases hlong : 4 ≤ byteLen hash
  · rw [if_pos hlong]
    have hfirst : slice hash 0 (0 + 2) = none ↔ Straddles 0 hash ∨ Straddles (0 + 2) hash :=
      slice_eq_none_iff (by omega)
    have hsecond : slice hash 2 (2 + 2) = none ↔ Straddles 2 hash ∨ Straddles (2 + 2) hash :=
      slice_eq_none_iff (by omega)
    rw [Nat.zero_add, or_iff_right not_straddles_zero] at hfirst
    rw [and_iff_right hlong]
    cases hab : slice hash 0 2 with
    | none => exact iff_of_true rfl (.inl (hfirst.1 hab))
    | some a =>
      rw [← hsecond]
      cases slice hash 2 (2 + 2) with
      | none => exact iff_of_true rfl rfl
      | some b => simp
  · rw [if_neg hlong]
    exact iff_of_false (Option.some_ne_none _) fun h => hlong h.1

theorem StorageService.hashToPath_eq_none_iff {service : StorageService} {hash : Text} :
    service.hashToPath hash = none ↔ Straddles 2 hash := by
  rw [← slice_prefix_eq_none_iff]
  unfold StorageService.hashToPath
  cases slice hash 0 (min 2 (byteLen hash)) with
  | none => exact iff_of_true rfl rfl
  | some shard => exact iff_of_false (Option.some_ne_none _) (Option.some_ne_none _)

theorem addressSearch_eq_none_iff {search : String} : addressSearch search = none ↔ Straddles 66 search.toList := by
  rw [addressSearch, Option.map_eq_none_iff, excerpt_eq_none_iff]

theorem P2pConsumer.excerptPanics_iff {debug : Bool} {ctx : P2pConsumerContext} {data : ByteArray} :
    ExcerptPanics debug ctx data ↔ debug = true ∧ ∃ s e, decodedText ctx data = some s ∧
      ctx.env.fromStr Message.decode s = .error e ∧ Straddles 200 s.toList := by
  unfold ExcerptPanics
  simp only [excerpt_eq_none_iff]
  constructor
  · rintro ⟨s, e, hs, he, hdebug, hsplit⟩
    exact ⟨hdebug, s, e, hs, he, hsplit⟩
  · rintro ⟨hdebug, s, e, hs, he, hsplit⟩
    exact ⟨s, e, hs, he, hdebug, hsplit⟩

/-- **No slice panics** exactly where no character straddles the cut: the 16th byte of the hash and of the runtime in
the log lines, the 200th of a delivery, the second and the fourth of a stored content, and the 66th of a search. -/
theorem slices_iff (info debug : Bool) :
    (∀ n n' message ctx, Exec (ProgramHandler.validate message ctx).run n (.ok ()) n' →
      (¬ Panics (ProgramHandler.processAndLog info message ctx) n ↔
        (info = true → ¬ Straddles 16 message.itemHash.toList ∧ ∀ content,
          ProgramHandler.parseContent ctx.env message = .ok content → ¬ Straddles 16 content.runtime.ref_.toList))) ∧
    (∀ n n' message ctx, Exec (InstanceHandler.validate message ctx).run n (.ok ()) n' →
      (¬ Panics (InstanceHandler.processAndLog info message ctx) n ↔
        (info = true → ¬ Straddles 16 message.itemHash.toList))) ∧
    (∀ ctx data, ¬ P2pConsumer.ExcerptPanics debug ctx data ↔
      (debug = true → ∀ s e, P2pConsumer.decodedText ctx data = some s →
        ctx.env.fromStr Message.decode s = .error e → ¬ Straddles 200 s.toList)) ∧
    (∀ (storage : LocalStorage) hash, storage.pathFor hash ≠ none ↔
      (4 ≤ byteLen hash → ¬ Straddles 2 hash ∧ ¬ Straddles 4 hash)) ∧
    (∀ (service : StorageService) hash, service.hashToPath hash ≠ none ↔ ¬ Straddles 2 hash) ∧
    ∀ search, addressSearch search ≠ none ↔ ¬ Straddles 66 search.toList := by
  refine ⟨fun n n' message ctx hvalid => ?_, fun n n' message ctx hvalid => ?_, fun ctx data => ?_, fun storage hash => ?_, fun service hash => ?_, fun search => ?_⟩
  · rw [ProgramHandler.panics_iff hvalid, not_and, not_or, not_exists]
    simp only [not_and]
  · rw [InstanceHandler.panics_iff hvalid, not_and]
  · rw [P2pConsumer.excerptPanics_iff, not_and]
    simp only [not_exists, not_and]
  · rw [Ne, LocalStorage.pathFor_eq_none_iff, not_and, not_or]
  · rw [Ne, StorageService.hashToPath_eq_none_iff]
  · rw [Ne, addressSearch_eq_none_iff]

/-! ### A reference with an accent -/

section Accent

/-- A program built from a file, and the STORE message of that file. -/
def programOf (file : String) : Json := .obj
  [("address", .str "0xowner"),
    ("runtime", .obj [("ref", .str file), ("use_latest", .bool false)]),
    ("code", .obj [("encoding", .str "zip"), ("entrypoint", .str "main"), ("ref", .str file), ("use_latest", .bool false)]),
    ("resources", .obj [("vcpus", .num (.int 1)), ("memory", .num (.int 128))]),
    ("time", .num (.int 1700000001))]

def storeOf (file : String) : Json := .obj
  [("address", .str "0xowner"), ("item_type", .str "ipfs"), ("item_hash", .str file), ("time", .num (.int 1700000000))]

def inlineMessage (messageType : MessageType) (text : String) : Message where
  messageType := messageType
  chain := .eth
  sender := "0xowner"
  signature := ""
  itemType := .inline
  itemHash := "cccccccccccccccccccccccccccccccccccccccccccccccccccccccccccccccc"
  itemContent := some text
  channel := none
  time := 1700000000

def sliceCtx (file : String) : HandlerContext :=
  ⟨Env.ofTables [("program", programOf file), ("store", storeOf file)] [] [], .stored, 1700000000, none, false⟩

def storedContent (file : String) : StoreContent := ⟨"0xowner", .ipfs, file, none, none, none, none, 1700000000⟩

/-- The node that has stored the file. -/
def storedNode (file : String) : Node :=
  StoreHandler.recorded (inlineMessage .store "store") (storedContent file) (sliceCtx file) .empty

/-- Fifteen bytes, an accent that straddles the cut, and enough bytes for a reference. -/
def accented : String := "baaaaaaaaaaaaaaéaaaaaaaaaaaaaaaaaaaaaaaaaaaaaaaaaaaaaaaaaaaaaa"

def unaccented : String := "baaaaaaaaaaaaaaaaaaaaaaaaaaaaaaaaaaaaaaaaaaaaaaaaaaaaaaaaaaaaaaa"

example : excerpt 16 accented = none := by decide +kernel

theorem validate_accented :
    Exec (StoreHandler.validate (inlineMessage .store "store") (sliceCtx accented)).run .empty (.ok ()) .empty ∧
      Exec (StoreHandler.process (inlineMessage .store "store") (sliceCtx accented)).run .empty (.ok ())
        (storedNode accented) := by
  have hdecode : (sliceCtx accented).env.fromStr StoreContent.decode "store" = .ok (storedContent accented) := by
    decide +kernel
  constructor
  · refine StoreHandler.exec_validate_ok.2 ⟨storedContent accented, parseContent_ok.2 ⟨"store", rfl, hdecode⟩, ?_, ?_, ?_, rfl⟩
    · decide
    · decide +kernel
    · intro ref_ href
      cases href
  · refine StoreHandler.exec_process_ok.2 ⟨storedContent accented, parseContent_ok.2 ⟨"store", rfl, hdecode⟩, ?_, rfl⟩
    rintro ⟨_, hp, _⟩
    exact List.not_mem_nil hp

def programContentOf (file : String) : ProgramContent where
  address := "0xowner"
  allowAmend := true
  runtime := ⟨file, false, none⟩
  code := ⟨"zip", "main", file, false⟩
  resources := ⟨128, 1, 30⟩
  environment := none
  metadata := none
  vars := none
  volumes := []
  payment := none
  requirements := none
  replaces := none
  data := none
  exportInfo := none
  time := 1700000001

theorem validate_program {file : String}
    (hdecode : (sliceCtx file).env.fromStr ProgramContent.decode "program" = .ok (programContentOf file))
    (hpinned : VmCommon.RefPinned (storedNode file) file) :
    Exec (ProgramHandler.validate (inlineMessage .program "program") (sliceCtx file)).run (storedNode file) (.ok ())
      (storedNode file) := by
  refine ProgramHandler.exec_validate_ok.2 ⟨programContentOf file, parseContent_ok.2 ⟨"program", rfl, hdecode⟩, ?_, rfl⟩
  refine ⟨by simp [programContentOf], by simp [programContentOf], fun r hr => ?_, fun r hr => ?_, fun o ho => ?_⟩
  · have hfile : r ∈ [file, file] := hr
    obtain rfl : r = file := by simpa using hfile
    exact hpinned
  · exact absurd hr List.not_mem_nil
  · cases ho

theorem fromStr_accented :
    (sliceCtx accented).env.fromStr ProgramContent.decode "program" = .ok (programContentOf accented) := by
  decide +kernel

/-- **A program with an accent in its runtime** is accepted, and its log line panics. -/
theorem accented_panics :
    Exec (ProgramHandler.validate (inlineMessage .program "program") (sliceCtx accented)).run (storedNode accented)
        (.ok ()) (storedNode accented) ∧
      Panics (ProgramHandler.processAndLog true (inlineMessage .program "program") (sliceCtx accented))
        (storedNode accented) := by
  have hpinned : VmCommon.RefPinned (storedNode accented) accented := by
    unfold VmCommon.RefPinned
    decide +kernel
  have hvalid := validate_program fromStr_accented hpinned
  refine ⟨hvalid, (ProgramHandler.panics_iff hvalid).2 ⟨rfl, .inr ⟨programContentOf accented, ?_, ?_⟩⟩⟩
  · exact parseContent_ok.2 ⟨"program", rfl, fromStr_accented⟩
  · exact ⟨"baaaaaaaaaaaaaa".toList, 'é', "aaaaaaaaaaaaaaaaaaaaaaaaaaaaaaaaaaaaaaaaaaaaaa".toList, by decide +kernel,
      by decide +kernel, by decide +kernel⟩

/-- Without the accent it does not. -/
theorem unaccented_logged :
    ¬ Panics (ProgramHandler.processAndLog true (inlineMessage .program "program") (sliceCtx unaccented))
      (storedNode unaccented) := by
  have hpinned : VmCommon.RefPinned (storedNode unaccented) unaccented := by
    unfold VmCommon.RefPinned
    decide +kernel
  have hdecode : (sliceCtx unaccented).env.fromStr ProgramContent.decode "program" = .ok (programContentOf unaccented) := by
    decide +kernel
  refine ((slices_iff true true).1 _ _ _ _ (validate_program hdecode hpinned)).2 fun _ => ⟨?_, fun content hparse => ?_⟩
  · rw [← excerpt_eq_none_iff]
    decide +kernel
  · obtain rfl := Except.ok.inj ((parseContent_ok.2 ⟨"program", rfl, hdecode⟩).symm.trans hparse)
    rw [← excerpt_eq_none_iff]
    decide +kernel

end Accent

end AlephCore
