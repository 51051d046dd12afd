import AlephCore.Chains.Ethereum

/-!
# MultiChain — the loop that indexes all chains

Mirrors `run_chain_sync` of `chains/mod.rs`, one statement after another: in each pass over a chain the stored height
is read, the blocks up to the safe height are indexed in batches, the messages of a batch are stored one by one and
then the height.  What the indexer and the database answer comes with the event; the loop goes on after most failures.
-/

namespace AlephCore.MultiChain

open BlockRange Ethereum

/-- A call of `index_blocks` that has succeeded. -/
structure Indexed where
  fromBlock : Nat
  toBlock : Nat
  messages : List IndexedMessage

/-- What comes next in a pass. -/
inductive Work where
  /-- `index_blocks`, if there are blocks left. -/
  | indexing
  /-- `store_chain_message` for the rest of the messages, then `update_sync_state`. -/
  | storing (call : Indexed) (rest : List IndexedMessage)

/-- The work on one chain. -/
structure Pass where
  chain : Chain
  batchSize : Nat
  fromBlock : Nat
  safeHeight : Nat
  work : Work
  /-- The ranges the pass has left out and the messages it could not store; the source does not keep them. -/
  skipped : List (Nat × Nat)
  failed : List ItemHash

structure World where
  /-- `last_height` of `chain_sync_state`, for the messages of a chain. -/
  heights : Chain → Option Nat
  /-- Every hash that an insertion into `pending_messages` has put there or found. -/
  pending : List ItemHash
  /-- The successful calls of `index_blocks`; the source does not keep them. -/
  calls : Chain → List Indexed
  pass : Option Pass

/-- A statement of the loop, with the answers it gets. -/
inductive Event where
  /-- The next indexer: the stored height (which may be unreadable) and the height of the chain are asked for. -/
  | begin (chain : Chain) (batchSize confirmations : Nat) (readable : Bool) (height : Except ChainError Nat)
  | indexBlocks (answer : Except ChainError IndexResult)
  /-- `store_chain_message`: the outcomes of its two insertions. -/
  | storeChainMessage (pending chainTx : Bool)
  | updateSyncState (ok : Bool)
  /-- There are no blocks left. -/
  | finish

/-- `get_last_indexed_height(..).unwrap_or(0)`. -/
def World.lastHeight (w : World) (chain : Chain) (readable : Bool) : Nat :=
  if readable then (w.heights chain).getD 0 else 0

/-- Begin to work on a chain, unless it is synced. -/
def World.begin (w : World) (chain : Chain) (batchSize confirmations : Nat) (readable : Bool) :
    Except ChainError Nat → World
  | .error _ => w
  | .ok currentHeight =>
    let lastHeight := w.lastHeight chain readable
    let safeHeight := currentHeight - confirmations
    if safeHeight ≤ lastHeight then w
    else { w with pass := some ⟨chain, batchSize, lastHeight + 1, safeHeight, .indexing, [], []⟩ }

/-- Go on behind the range, or leave the pass after an error. -/
def World.index (w : World) (p : Pass) (toBlock : Nat) : Except ChainError IndexResult → World
  | .ok result =>
    let call : Indexed := ⟨p.fromBlock, toBlock, result.messages⟩
    { w with
      calls := Function.update w.calls p.chain (call :: w.calls p.chain)
      pass := some { p with work := .storing call result.messages } }
  | .error (.rateLimited _) =>
    { w with pass := some { p with fromBlock := toBlock + 1, skipped := (p.fromBlock, toBlock) :: p.skipped } }
  | .error _ => { w with pass := none }

/-- Store a message; an error is only logged.  The record in `chain_txs` comes second and is not read here. -/
def World.store (w : World) (p : Pass) (call : Indexed) (message : IndexedMessage) (rest : List IndexedMessage) :
    Bool → World
  | true => { w with
      pending := message.message.itemHash :: w.pending
      pass := some { p with work := .storing call rest } }
  | false => { w with
      pass := some { p with work := .storing call rest, failed := message.message.itemHash :: p.failed } }

/-- Update the height; an error is only logged. -/
def World.update (w : World) (p : Pass) (toBlock : Nat) (ok : Bool) : World :=
  { w with
    heights := if ok then Function.update w.heights p.chain (some toBlock) else w.heights
    pass := some { p with fromBlock := toBlock + 1, work := .indexing } }

/-- One statement, if it is the next one; a sum that overflows ends the task. -/
def World.step (w : World) : Event → Option World
  | .begin chain batchSize confirmations readable height =>
    match w.pass with
    | none => some (w.begin chain batchSize confirmations readable height)
    | some _ => none
  | .indexBlocks answer =>
    match w.pass with
    | some ⟨chain, batchSize, fromBlock, safeHeight, .indexing, skipped, failed⟩ =>
      if fromBlock ≤ safeHeight then
        (add fromBlock batchSize).map fun past =>
          w.index ⟨chain, batchSize, fromBlock, safeHeight, .indexing, skipped, failed⟩ (min (past - 1) safeHeight)
            answer
      else none
    | _ => none
  | .storeChainMessage pending _ =>
    match w.pass with
    | some ⟨chain, batchSize, fromBlock, safeHeight, .storing call (message :: rest), skipped, failed⟩ =>
      some (w.store ⟨chain, batchSize, fromBlock, safeHeight, .storing call (message :: rest), skipped, failed⟩
        call message rest pending)
    | _ => none
  | .updateSyncState ok =>
    match w.pass with
    | some ⟨chain, batchSize, fromBlock, safeHeight, .storing call [], skipped, failed⟩ =>
      some (w.update ⟨chain, batchSize, fromBlock, safeHeight, .storing call [], skipped, failed⟩ call.toBlock ok)
    | _ => none
  | .finish =>
    match w.pass with
    | some ⟨_, _, fromBlock, safeHeight, .indexing, _, _⟩ =>
      if fromBlock ≤ safeHeight then none else some { w with pass := none }
    | _ => none

/-! ## No block is skipped -/

variable {w w' : World} {first : Chain → Nat} {event : Event}

/-- A call has had the block and all its messages have been stored. -/
def World.Covers (w : World) (chain : Chain) (block : Nat) : Prop :=
  ∃ call ∈ w.calls chain, call.fromBlock ≤ block ∧ block ≤ call.toBlock ∧
    ∀ m ∈ call.messages, m.message.itemHash ∈ w.pending

/-- Every block above the height a chain began with and up to its stored height is covered. -/
def NoneSkipped (first : Chain → Nat) (w : World) : Prop :=
  ∀ chain height, w.heights chain = some height → ∀ block, first chain < block → block ≤ height → w.Covers chain block

/-- **A careful step**: no height is stored in a pass that has left out a range or failed to store a message. -/
def Careful (w : World) : Event → Prop
  | .updateSyncState true => ∀ p ∈ w.pass, p.skipped = [] ∧ p.failed = []
  | _ => True

/-- Runs of the loop whose steps meet a condition. -/
inductive Run (guard : World → Event → Prop) (w : World) : World → Prop
  | refl : Run guard w w
  | step {w' w'' : World} {event : Event} (run : Run guard w w') (careful : guard w' event)
      (h : w'.step event = some w'') : Run guard w w''

/-- The messages of a call that are no longer to be stored have been, if none has failed. -/
def Stored (w : World) (p : Pass) : Prop :=
  match p.work with
  | .indexing => True
  | .storing call rest => call ∈ w.calls p.chain ∧ call.fromBlock = p.fromBlock ∧
      (p.failed = [] → ∀ m ∈ call.messages, m ∈ rest ∨ m.message.itemHash ∈ w.pending)

/-- A pass that has left nothing out has covered the blocks it is past. -/
structure Sound (first : Chain → Nat) (w : World) : Prop where
  noneSkipped : NoneSkipped first w
  passed : ∀ p ∈ w.pass, p.skipped = [] → p.failed = [] → ∀ block, first p.chain < block → block < p.fromBlock →
    w.Covers p.chain block
  stored : ∀ p ∈ w.pass, Stored w p

theorem World.Covers.mono {chain : Chain} {block : Nat} (h : w.Covers chain block)
    (hcalls : ∀ call ∈ w.calls chain, call ∈ w'.calls chain) (hpending : ∀ hash ∈ w.pending, hash ∈ w'.pending) :
    w'.Covers chain block := by
  obtain ⟨call, hcall, hfrom, hto, hmessages⟩ := h
  exact ⟨call, hcalls call hcall, hfrom, hto, fun m hm => hpending _ (hmessages m hm)⟩

theorem Sound.begin {chain : Chain} {batchSize confirmations : Nat} {readable : Bool} {height : Except ChainError Nat}
    (h : Sound first w) : Sound first (w.begin chain batchSize confirmations readable height) := by
  cases height with
  | error e => exact h
  | ok currentHeight =>
    unfold World.begin
    dsimp only
    split_ifs
    · exact h
    · refine ⟨h.noneSkipped, ?_, ?_⟩
      · rintro p ⟨⟩ - - block hfirst hblock
        dsimp only at hfirst hblock ⊢
        unfold World.lastHeight at hblock
        cases readable with
        | false =>
          rw [if_neg Bool.false_ne_true] at hblock
          omega
        | true =>
          rw [if_pos rfl] at hblock
          cases hheight : w.heights chain with
          | none =>
            rw [hheight, Option.getD_none] at hblock
            omega
          | some height =>
            rw [hheight, Option.getD_some] at hblock
            exact h.noneSkipped chain height hheight block hfirst (by omega)
      · rintro p ⟨⟩
        trivial

theorem Sound.index {p : Pass} {toBlock : Nat} {answer : Except ChainError IndexResult} (h : Sound first w)
    (hp : w.pass = some p) (hwork : p.work = .indexing) : Sound first (w.index p toBlock answer) := by
  cases answer with
  | ok result =>
    have hcalls : ∀ chain, ∀ call ∈ w.calls chain,
        call ∈ (w.index p toBlock (.ok result)).calls chain := by
      intro chain call hcall
      show call ∈ Function.update w.calls p.chain _ chain
      by_cases hchain : chain = p.chain
      · subst hchain
        rw [Function.update_self]
        exact List.mem_cons_of_mem _ hcall
      · rwa [Function.update_of_ne hchain]
    refine ⟨fun chain height hheight block hfirst hblock => ?_, ?_, ?_⟩
    · exact (h.noneSkipped chain height hheight block hfirst hblock).mono (hcalls chain) fun _ hh => hh
    · rintro q ⟨⟩ hskipped hfailed block hfirst hblock
      exact (h.passed p hp hskipped hfailed block hfirst hblock).mono (hcalls p.chain) fun _ hh => hh
    · rintro q ⟨⟩
      refine ⟨?_, rfl, fun _ m hm => .inl hm⟩
      show _ ∈ Function.update w.calls p.chain _ p.chain
      rw [Function.update_self]
      exact List.mem_cons_self
  | error e =>
    cases e with
    | rateLimited seconds =>
      refine ⟨h.noneSkipped, ?_, ?_⟩
      · rintro q ⟨⟩ hskipped
        cases hskipped
      · rintro q ⟨⟩
        unfold Stored
        rw [show (Pass.work _ = .indexing) from hwork]
        trivial
    | _ => exact ⟨h.noneSkipped, fun q hq => (by cases hq), fun q hq => (by cases hq)⟩

theorem Sound.store {p : Pass} {call : Indexed} {message : IndexedMessage} {rest : List IndexedMessage} {ok : Bool}
    (h : Sound first w) (hp : w.pass = some p) (hwork : p.work = .storing call (message :: rest)) :
    Sound first (w.store p call message rest ok) := by
  have hstored := h.stored p hp
  unfold Stored at hstored
  rw [hwork] at hstored
  obtain ⟨hcall, hfrom, hmessages⟩ := hstored
  cases ok with
  | true =>
    have hpending : ∀ hash ∈ w.pending, hash ∈ (w.store p call message rest true).pending :=
      fun hash hh => List.mem_cons_of_mem _ hh
    refine ⟨fun chain height hheight block hfirst hblock => ?_, ?_, ?_⟩
    · exact (h.noneSkipped chain height hheight block hfirst hblock).mono (fun _ hc => hc) hpending
    · rintro q ⟨⟩ hskipped hfailed block hfirst hblock
      exact (h.passed p hp hskipped hfailed block hfirst hblock).mono (fun _ hc => hc) hpending
    · rintro q ⟨⟩
      refine ⟨hcall, hfrom, fun hfailed m hm => ?_⟩
      rcases hmessages hfailed m hm with hm | hm
      · rcases List.mem_cons.1 hm with rfl | hm
        · exact .inr List.mem_cons_self
        · exact .inl hm
      · exact .inr (hpending _ hm)
  | false =>
    refine ⟨h.noneSkipped, ?_, ?_⟩
    · rintro q ⟨⟩ - hfailed
      cases hfailed
    · rintro q ⟨⟩
      exact ⟨hcall, hfrom, fun hfailed => by cases hfailed⟩

/-- Once all its messages are stored, a pass that has left nothing out has covered the range of the call. -/
theorem Sound.covered {p : Pass} {call : Indexed} (h : Sound first w) (hp : w.pass = some p)
    (hwork : p.work = .storing call []) (hskipped : p.skipped = []) (hfailed : p.failed = []) {block : Nat}
    (hfirst : first p.chain < block) (hblock : block ≤ call.toBlock) : w.Covers p.chain block := by
  have hstored := h.stored p hp
  unfold Stored at hstored
  rw [hwork] at hstored
  obtain ⟨hcall, hfrom, hmessages⟩ := hstored
  by_cases hpast : block < p.fromBlock
  · exact h.passed p hp hskipped hfailed block hfirst hpast
  · refine ⟨call, hcall, by omega, hblock, fun m hm => ?_⟩
    exact (hmessages hfailed m hm).resolve_left List.not_mem_nil

theorem Sound.update {p : Pass} {call : Indexed} {ok : Bool} (h : Sound first w) (hp : w.pass = some p)
    (hwork : p.work = .storing call []) (careful : Careful w (.updateSyncState ok)) :
    Sound first (w.update p call.toBlock ok) := by
  refine ⟨fun chain height hheight block hfirst hblock => ?_, ?_, ?_⟩
  · have hcovers : w.Covers chain block := by
      cases ok with
      | false => exact h.noneSkipped chain height hheight block hfirst hblock
      | true =>
        obtain ⟨hskipped, hfailed⟩ := careful p hp
        replace hheight : Function.update w.heights p.chain (some call.toBlock) chain = some height := hheight
        by_cases hchain : chain = p.chain
        · subst hchain
          rw [Function.update_self] at hheight
          cases hheight
          exact h.covered hp hwork hskipped hfailed hfirst hblock
        · rw [Function.update_of_ne hchain] at hheight
          exact h.noneSkipped chain height hheight block hfirst hblock
    exact hcovers.mono (fun _ hc => hc) fun _ hh => hh
  · rintro q ⟨⟩ hskipped hfailed block hfirst hblock
    exact (h.covered hp hwork hskipped hfailed hfirst (Nat.le_of_lt_succ hblock)).mono (fun _ hc => hc) fun _ hh => hh
  · rintro q ⟨⟩
    trivial

theorem Sound.step (h : Sound first w) (careful : Careful w event) (hstep : w.step event = some w') :
    Sound first w' := by
  unfold World.step at hstep
  cases event with
  | begin chain batchSize confirmations readable height =>
    dsimp only at hstep
    split at hstep
    · cases hstep
      exact h.begin
    · cases hstep
  | indexBlocks answer =>
    dsimp only at hstep
    split at hstep
    · rename_i hp
      split_ifs at hstep
      obtain ⟨past, -, rfl⟩ := Option.map_eq_some_iff.1 hstep
      exact h.index hp rfl
    · cases hstep
  | storeChainMessage pending chainTx =>
    dsimp only at hstep
    split at hstep
    · rename_i hp
      cases hstep
      exact h.store hp rfl
    · cases hstep
  | updateSyncState ok =>
    dsimp only at hstep
    split at hstep
    · rename_i hp
      cases hstep
      exact h.update hp rfl careful
    · cases hstep
  | finish =>
    dsimp only at hstep
    split at hstep
    · split_ifs at hstep
      cases hstep
      exact ⟨h.noneSkipped, fun q hq => (by cases hq), fun q hq => (by cases hq)⟩
    · cases hstep

/-- Before the first pass only the heights of earlier runs are stored. -/
theorem Sound.initial (w : World) (hpass : w.pass = none) : Sound (fun chain => (w.heights chain).getD 0) w := by
  refine ⟨fun chain height hheight block hfirst hblock => ?_, fun p hp => ?_, fun p hp => ?_⟩
  · rw [hheight, Option.getD_some] at hfirst
    omega
  · rw [hpass] at hp
    cases hp
  · rw [hpass] at hp
    cases hp

theorem Sound.of_run (run : Run Careful w w') (h : Sound first w) : Sound first w' := by
  induction run with
  | refl => exact h
  | step run careful hstep ih => exact ih.step careful hstep

/-- **No block is skipped in a careful run**: whatever the indexers and the database answer, each block above the
height a chain began with and up to its stored height has been indexed, and its messages are pending. -/
theorem noneSkipped_of_run (hpass : w.pass = none) (run : Run Careful w w') :
    NoneSkipped (fun chain => (w.heights chain).getD 0) w' :=
  ((Sound.initial w hpass).of_run run).noneSkipped

/-! ## Where the height runs ahead -/

/-- A loop that has indexed nothing yet. -/
def fresh : World := ⟨fun _ => none, [], fun _ => [], none⟩

def chainMessage : IndexedMessage where
  message :=
    { messageType := .post
      chain := .eth
      sender := "0x51A58800b26AA1451aaA803d1746687cB88E0501"
      signature := "0x"
      itemType := .ipfs
      itemHash := "QmUyBQ4F8ftnDoTvQ9Xp5wNqzTtLqHDdhFkXvH6BxnqTdk"
      itemContent := none
      channel := some "TEST"
      time := 1700000000 }
  chainRef := ⟨.eth, 3, "0xb1"⟩
  txHash := "0x01"
  blockTime := none

/-- Two batches of five blocks are safe. -/
def beginTwo : Event := .begin .eth 5 2 true (.ok 12)

theorem noneSkipped_sample :
    ∃ w, Run Careful fresh w ∧ w.heights .eth = some 5 ∧ chainMessage.message.itemHash ∈ w.pending ∧
      NoneSkipped (fun chain => (fresh.heights chain).getD 0) w := by
  have hbegin := @Run.step Careful fresh _ _ beginTwo .refl trivial rfl
  have hindex := @Run.step Careful fresh _ _ (.indexBlocks (.ok ⟨[chainMessage], [], 5, 5⟩)) hbegin trivial rfl
  have hstore := @Run.step Careful fresh _ _ (.storeChainMessage true false) hindex trivial rfl
  have hrun := @Run.step Careful fresh _ _ (.updateSyncState true) hstore
    (fun p hp => (by cases hp; exact ⟨rfl, rfl⟩)) rfl
  exact ⟨_, hrun, rfl, List.mem_cons_self, noneSkipped_of_run rfl hrun⟩

/-- A rate limit leaves the first five blocks out, and the next batch stores its height all the same; so does a batch
whose only message could not be stored. -/
theorem skipped_runs :
    (∃ w, Run (fun _ _ => True) fresh w ∧ ¬ NoneSkipped (fun chain => (fresh.heights chain).getD 0) w) ∧
      ∃ w, Run (fun _ _ => True) fresh w ∧ w.heights .eth = some 5 ∧
        ¬ NoneSkipped (fun chain => (fresh.heights chain).getD 0) w := by
  constructor
  · have hbegin := @Run.step (fun _ _ => True) fresh _ _ beginTwo .refl trivial rfl
    have hlimited :=
      @Run.step (fun _ _ => True) fresh _ _ (.indexBlocks (.error (.rateLimited 30))) hbegin trivial rfl
    have hindex := @Run.step (fun _ _ => True) fresh _ _ (.indexBlocks (.ok ⟨[], [], 10, 5⟩)) hlimited trivial rfl
    have hrun := @Run.step (fun _ _ => True) fresh _ _ (.updateSyncState true) hindex trivial rfl
    refine ⟨_, hrun, fun h => ?_⟩
    obtain ⟨call, hcall, hfrom, -⟩ := h .eth 10 rfl 1 (by decide) (by decide)
    cases List.mem_singleton.1 hcall
    exact absurd hfrom (by decide)
  · have hbegin := @Run.step (fun _ _ => True) fresh _ _ beginTwo .refl trivial rfl
    have hindex :=
      @Run.step (fun _ _ => True) fresh _ _ (.indexBlocks (.ok ⟨[chainMessage], [], 5, 5⟩)) hbegin trivial rfl
    have hstore := @Run.step (fun _ _ => True) fresh _ _ (.storeChainMessage false false) hindex trivial rfl
    have hrun := @Run.step (fun _ _ => True) fresh _ _ (.updateSyncState true) hstore trivial rfl
    refine ⟨_, hrun, rfl, fun h => ?_⟩
    obtain ⟨call, hcall, -, -, hmessages⟩ := h .eth 5 rfl 1 (by decide) (by decide)
    cases List.mem_singleton.1 hcall
    exact absurd (hmessages chainMessage List.mem_cons_self) List.not_mem_nil

end AlephCore.MultiChain
