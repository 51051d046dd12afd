import AlephCore.Chains.RpcSync

/-!
# RpcFetch — what a fetch of sync events returns, and when it ends

The window moves on only over blocks that a query has answered for, so whatever the node answered, a fetch that returns
has the events of the blocks it has passed.  An error leaves the position as it is and the window not below 100 blocks;
where the node never answers for so many, the same query is repeated without end.
-/

namespace AlephCore.RpcSync

open BlockRange Loop SyncFormat

variable {Address : Type} [DecidableEq Address] {client : RpcSyncClient Address} {chain : Nat → List RpcLog}
  {latestBlock startBlock : Nat} {provider : Provider} {providers : Nat → Provider} {st st' : FetchState}

/-! ## Events -/

/-- A sync event of an authorized emitter that can be decoded. -/
def RpcSyncClient.Accepts (client : RpcSyncClient Address) (log : RpcLog) : Prop :=
  log.topics.head? = some client.abi.topic ∧ ∃ fields ∈ (client.abi.decode log.data).toOption,
    client.authorizedEmitters = [] ∨ fields.2.1 ∈ client.authorizedEmitters

instance (log : RpcLog) : Decidable (client.Accepts log) :=
  inferInstanceAs (Decidable (_ ∧ ∃ fields ∈ (client.abi.decode log.data).toOption,
    client.authorizedEmitters = [] ∨ fields.2.1 ∈ client.authorizedEmitters))

/-- The event that a log is. -/
def RpcSyncClient.IsEventOf (client : RpcSyncClient Address) (log : RpcLog) (event : DecodedAlephSyncEvent) : Prop :=
  ∃ address, client.abi.decode log.data = .ok (event.timestamp, address, event.message) ∧
    event.addr = client.abi.debug address ∧ event.blockNumber = log.blockNumber.getD 0 ∧
    event.txHash = log.transactionHash.getD ""

theorem refuses_debug {address : Address} : client.refuses (client.abi.debug address) =
    decide ¬ (client.authorizedEmitters = [] ∨ address ∈ client.authorizedEmitters) := by
  unfold RpcSyncClient.refuses
  rw [client.abi.parse_debug]
  simp

/-- What the decoding of a log says. -/
theorem decodeSyncEvent_spec {log : RpcLog} {r : Except RpcSyncError (Option DecodedAlephSyncEvent)}
    (h : client.decodeSyncEvent log = some r) :
    (client.Accepts log ∧ ∃ event, r = .ok (some event) ∧ client.IsEventOf log event) ∨
      (¬ client.Accepts log ∧ (r.toOption.bind fun event => event) = none) := by
  unfold RpcSyncClient.decodeSyncEvent at h
  split_ifs at h with htopic
  · obtain rfl := Option.some.inj h
    exact .inr ⟨fun haccepts => htopic haccepts.1, rfl⟩
  · rw [not_not] at htopic
    cases hdecode : client.abi.decode log.data with
    | error e =>
      rw [hdecode] at h
      obtain rfl := Option.some.inj h
      refine .inr ⟨?_, rfl⟩
      rintro ⟨-, fields, hfields, -⟩
      rw [hdecode] at hfields
      cases hfields
    | ok fields =>
      obtain ⟨timestamp, address, message⟩ := fields
      rw [hdecode] at h
      dsimp only at h
      rw [refuses_debug] at h
      have haccepts : client.Accepts log ↔ client.authorizedEmitters = [] ∨ address ∈ client.authorizedEmitters := by
        unfold RpcSyncClient.Accepts
        rw [hdecode]
        simp [htopic, Except.toOption]
      by_cases htime : timestamp < 2 ^ 64
      · rw [if_pos htime] at h
        obtain rfl := Option.some.inj h
        by_cases hemitter : client.authorizedEmitters = [] ∨ address ∈ client.authorizedEmitters
        · refine .inl ⟨haccepts.2 hemitter, ⟨timestamp, client.abi.debug address, message, log.blockNumber.getD 0,
            log.transactionHash.getD ""⟩, ?_, address, hdecode, rfl, rfl, rfl⟩
          have haccepted : (decide ¬ (client.authorizedEmitters = [] ∨ address ∈ client.authorizedEmitters)) = false :=
            decide_eq_false fun hrefused => hrefused hemitter
          rw [haccepted, if_neg Bool.false_ne_true]
        · refine .inr ⟨fun h => hemitter (haccepts.1 h), ?_⟩
          rw [if_pos (decide_eq_true hemitter)]
          rfl
      · rw [if_neg htime] at h
        cases h

/-- **The events of some logs** are those of the accepted ones, each once and in their order. -/
theorem syncEvents_spec {logs : List RpcLog} {events : List DecodedAlephSyncEvent}
    (h : client.syncEvents logs = some events) :
    List.Forall₂ client.IsEventOf (logs.filter fun log => client.Accepts log) events := by
  induction logs generalizing events with
  | nil =>
    obtain rfl := Option.some.inj h
    exact .nil
  | cons log logs ih =>
    obtain ⟨decoded, hdecoded, hrest⟩ := Option.bind_eq_some_iff.1 h
    obtain ⟨rest, hevents, hjoin⟩ := Option.bind_eq_some_iff.1 hrest
    obtain rfl := Option.some.inj hjoin
    rcases decodeSyncEvent_spec hdecoded with ⟨haccepts, event, rfl, hevent⟩ | ⟨hrefuses, hnone⟩
    · rw [List.filter_cons_of_pos (by simpa using haccepts)]
      exact .cons hevent (ih hevents)
    · rw [List.filter_cons_of_neg (by simpa using hrefuses), hnone]
      exact ih hevents

/-! ## One query -/

/-- The last block of the next query. -/
def FetchState.currentEnd (st : FetchState) (latestBlock : Nat) : Nat :=
  min (st.currentStart + st.blockRange - 1) latestBlock

theorem getLogsInRange_of_none {fromBlock toBlock : Nat} (h : provider fromBlock toBlock = none) :
    getLogsInRange chain provider fromBlock toBlock = .ok (between chain fromBlock toBlock) := by
  unfold getLogsInRange
  rw [h]

theorem getLogsInRange_of_some {fromBlock toBlock : Nat} {e : String} (h : provider fromBlock toBlock = some e)
    (chain : Nat → List RpcLog) : ∃ error, getLogsInRange chain provider fromBlock toBlock = .error error := by
  unfold getLogsInRange
  rw [h]
  exact ⟨_, rfl⟩

/-- **What a query does**: it passes its blocks and takes their events, or only makes the window smaller. -/
theorem fetchStep_cases (h : fetchStep client chain latestBlock provider st = some st') :
    st.currentStart + st.blockRange < 2 ^ 64 ∧
    ((∃ events blockRange, provider st.currentStart (st.currentEnd latestBlock) = none ∧
      client.syncEvents (between chain st.currentStart (st.currentEnd latestBlock)) = some events ∧
      client.grow st.blockRange = some blockRange ∧
      st' = ⟨blockRange, st.currentEnd latestBlock + 1, st.allEvents ++ events, st.currentEnd latestBlock⟩) ∨
      ((provider st.currentStart (st.currentEnd latestBlock)).isSome ∧
        st' = { st with blockRange := max (st.blockRange / 2) 100 })) := by
  obtain ⟨past, hpast, hquery⟩ := Option.bind_eq_some_iff.1 h
  obtain ⟨hfits, rfl⟩ := add_eq_some.1 hpast
  refine ⟨hfits, ?_⟩
  unfold FetchState.currentEnd
  dsimp only at hquery
  cases hanswer : provider st.currentStart (min (st.currentStart + st.blockRange - 1) latestBlock) with
  | none =>
    rw [getLogsInRange_of_none hanswer] at hquery
    obtain ⟨events, hevents, hnext⟩ := Option.bind_eq_some_iff.1 hquery
    obtain ⟨next, hadd, hgrow⟩ := Option.bind_eq_some_iff.1 hnext
    obtain ⟨-, rfl⟩ := add_eq_some.1 hadd
    obtain ⟨blockRange, hblockRange, hstate⟩ := Option.bind_eq_some_iff.1 hgrow
    exact .inl ⟨events, blockRange, rfl, hevents, hblockRange, (Option.some.inj hstate).symm⟩
  | some e =>
    refine .inr ⟨rfl, ?_⟩
    have hleast : ¬ max (st.blockRange / 2) 100 < 100 := by omega
    obtain ⟨error, herror⟩ := getLogsInRange_of_some hanswer chain
    rw [herror] at hquery
    cases error with
    | tooManyLogs start stop =>
      dsimp only at hquery
      rw [if_neg hleast] at hquery
      exact (Option.some.inj hquery).symm
    | rpc e => exact (Option.some.inj hquery).symm
    | abiDecode e => exact (Option.some.inj hquery).symm

/-! ## Completeness -/

/-- The events are those of the blocks passed so far, if any. -/
structure Fetched (client : RpcSyncClient Address) (chain : Nat → List RpcLog) (startBlock : Nat) (st : FetchState) :
    Prop where
  window : 0 < st.blockRange
  passed : st.currentStart = startBlock ∧ st.allEvents = [] ∨
    startBlock ≤ st.lastBlock ∧ st.currentStart = st.lastBlock + 1 ∧
      List.Forall₂ client.IsEventOf ((between chain startBlock st.lastBlock).filter fun log => client.Accepts log)
        st.allEvents

omit [DecidableEq Address] in
theorem grow_pos {blockRange grown : Nat} (hpos : 0 < blockRange) (h : client.grow blockRange = some grown) :
    0 < grown := by
  unfold RpcSyncClient.grow at h
  have hmax := client.maxBlockRange_pos
  split_ifs at h with hsmall
  · obtain ⟨doubled, hdoubled, rfl⟩ := Option.map_eq_some_iff.1 h
    obtain ⟨-, rfl⟩ := add_eq_some.1 hdoubled
    omega
  · obtain rfl := Option.some.inj h
    exact hpos

theorem Fetched.step (h : Fetched client chain startBlock st)
    (hnext : st.currentStart ≤ latestBlock) (hstep : fetchStep client chain latestBlock provider st = some st') :
    Fetched client chain startBlock st' ∧ (st'.allEvents ≠ [] → startBlock ≤ st'.lastBlock ∧
      List.Forall₂ client.IsEventOf ((between chain startBlock st'.lastBlock).filter fun log => client.Accepts log)
        st'.allEvents) := by
  have hfetched : Fetched client chain startBlock st' := by
    rcases (fetchStep_cases hstep).2 with ⟨events, blockRange, -, hevents, hgrow, rfl⟩ | ⟨-, rfl⟩
    · refine ⟨grow_pos h.window hgrow, .inr ?_⟩
      have hwindow := h.window
      have hend : st.currentStart ≤ st.currentEnd latestBlock := by
        unfold FetchState.currentEnd
        omega
      have hevents' := syncEvents_spec hevents
      rcases h.passed with ⟨hnone, hempty⟩ | ⟨hlast, hcurrent, hall⟩
      · rw [hnone] at hend hevents'
        refine ⟨hend, rfl, ?_⟩
        rw [hempty, List.nil_append]
        exact hevents'
      · refine ⟨by dsimp only; omega, rfl, ?_⟩
        dsimp only
        rw [hcurrent] at hevents'
        rw [← between_append (by omega : startBlock ≤ st.lastBlock + 1) (by omega : st.lastBlock ≤ _), List.filter_append]
        exact List.rel_append hall hevents'
    · exact ⟨by dsimp only; omega, h.passed⟩
  refine ⟨hfetched, fun hsome => ?_⟩
  rcases hfetched.passed with ⟨-, hempty⟩ | ⟨hlast, -, hall⟩
  · exact absurd hempty hsome
  · exact ⟨hlast, hall⟩

theorem fetchTurn_again {attempt : Nat} (h : fetchTurn client chain latestBlock providers attempt st = .again st') :
    st.currentStart ≤ latestBlock ∧ fetchStep client chain latestBlock (providers attempt) st = some st' := by
  unfold fetchTurn at h
  split_ifs at h with hnext
  cases hstep : fetchStep client chain latestBlock (providers attempt) st with
  | none =>
    rw [hstep] at h
    cases h
  | some t =>
    rw [hstep] at h
    dsimp only at h
    split_ifs at h
    obtain rfl := Next.again.inj h
    exact ⟨hnext, rfl⟩

/-- The loop ends beyond the latest block, by a panic, or after a query with enough events in all. -/
theorem fetchTurn_done {attempt : Nat} {ended : Ended (List DecodedAlephSyncEvent × Nat)}
    (h : fetchTurn client chain latestBlock providers attempt st = .done ended) :
    latestBlock < st.currentStart ∧ ended = .returned (st.allEvents, st.lastBlock) ∨ ended = .panicked ∨
      ∃ t, st.currentStart ≤ latestBlock ∧ fetchStep client chain latestBlock (providers attempt) st = some t ∧
        10000 < t.allEvents.length ∧ ended = .returned (t.allEvents, t.lastBlock) := by
  unfold fetchTurn at h
  split_ifs at h with hnext
  · cases hstep : fetchStep client chain latestBlock (providers attempt) st with
    | none =>
      rw [hstep] at h
      exact .inr (.inl (Next.done.inj h).symm)
    | some t =>
      rw [hstep] at h
      dsimp only at h
      split_ifs at h with hmany
      exact .inr (.inr ⟨t, hnext, rfl, hmany, (Next.done.inj h).symm⟩)
  · exact .inl ⟨Nat.lt_of_not_le hnext, (Next.done.inj h).symm⟩

/-- What a result should be. -/
def Complete (client : RpcSyncClient Address) (chain : Nat → List RpcLog) (startBlock : Nat) :
    Ended (List DecodedAlephSyncEvent × Nat) → Prop
  | .panicked => True
  | .returned (events, lastBlock) => startBlock ≤ lastBlock ∧
      List.Forall₂ client.IsEventOf ((between chain startBlock lastBlock).filter fun log => client.Accepts log) events

section Sample

/-- Addresses by their texts; a log without data cannot be decoded, any other is the one sample. -/
def sampleAbi : EventAbi String where
  topic := "0x2cc768a3de0c950ea2a38e55a9b143cc6fd5a8eec27e36993b542fb16ab591e1"
  debug address := address
  parse := some
  parse_debug _ := rfl
  decode data := if data.size = 0 then .error "Invalid data"
    else .ok (1700000000, "0x23eefbcb4f1a9a7b4d9d2d3e9b0e1a6cdd02e9a3", "sync")

/-- A client as `RpcSyncClient::new` makes it, for windows of 1000 blocks. -/
def sampleClient : RpcSyncClient String where
  abi := sampleAbi
  maxBlockRange := 1000
  maxBlockRange_pos := by decide
  authorizedEmitters := []

/-- Block 5 has one event. -/
def sampleChain : Nat → List RpcLog := fun block =>
  if block = 5 then [{
    topics := ["0x2cc768a3de0c950ea2a38e55a9b143cc6fd5a8eec27e36993b542fb16ab591e1"]
    data := ⟨#[1]⟩
    blockNumber := some 5
    transactionHash := some "0x11" }]
  else []

end Sample

/-! ## Termination -/

/-- The node answers every query for at most so many blocks; of more it may say that there are too many logs. -/
def Tolerates (limit : Nat) (providers : Nat → Provider) : Prop :=
  ∀ attempt fromBlock toBlock e, providers attempt fromBlock toBlock = some e →
    saysTooMany e = true ∧ limit < toBlock + 1 - fromBlock

/-- The call comes to an end. -/
def Terminates (client : RpcSyncClient Address) (chain : Nat → List RpcLog) (latestBlock startBlock : Nat)
    (providers : Nat → Provider) : Prop :=
  ∃ fuel, (fetchSyncEvents client chain (.ok latestBlock) providers startBlock fuel).isSome

/-- The least window a node may refuse without end: one that neither the least size, nor the first query, nor an overflow
keeps from being asked for. -/
def Resolves (client : RpcSyncClient Address) (latestBlock startBlock limit : Nat) : Prop :=
  100 ≤ limit ∨ client.maxBlockRange ≤ limit ∨ latestBlock + 1 - startBlock ≤ limit ∨
    2 ^ 64 ≤ startBlock + max client.maxBlockRange 100

theorem terminates_of_loop (h : ∃ fuel, (run (fetchTurn client chain latestBlock providers) fuel 0
    ⟨client.maxBlockRange, startBlock, [], startBlock⟩).isSome) :
    Terminates client chain latestBlock startBlock providers := by
  obtain ⟨fuel, hfuel⟩ := h
  refine ⟨fuel, ?_⟩
  unfold fetchSyncEvents
  dsimp only
  split_ifs
  · rfl
  · rw [Option.isSome_map]
    exact hfuel

/-- The next query is for some blocks, no more than the window and the rest of the chain have. -/
theorem currentEnd_bounds (hnext : st.currentStart ≤ latestBlock) (hwindow : 0 < st.blockRange) :
    st.currentStart ≤ st.currentEnd latestBlock ∧ st.currentEnd latestBlock ≤ latestBlock ∧
      st.currentEnd latestBlock + 1 - st.currentStart ≤ st.blockRange := by
  unfold FetchState.currentEnd
  omega

omit [DecidableEq Address] in
theorem grow_le {blockRange grown : Nat} (hle : blockRange ≤ client.maxBlockRange)
    (h : client.grow blockRange = some grown) : grown ≤ client.maxBlockRange := by
  unfold RpcSyncClient.grow at h
  split_ifs at h with hsmall
  · obtain ⟨doubled, -, rfl⟩ := Option.map_eq_some_iff.1 h
    exact Nat.min_le_right _ _
  · obtain rfl := Option.some.inj h
    exact hle

omit [DecidableEq Address] in
theorem grow_max {grown : Nat} (h : client.grow client.maxBlockRange = some grown) : grown = client.maxBlockRange := by
  unfold RpcSyncClient.grow at h
  rw [if_neg (Nat.lt_irrefl _)] at h
  exact (Option.some.inj h).symm

/-- What a turn that goes on has done, if the node keeps its word. -/
theorem turn_again {limit attempt : Nat} (htolerates : Tolerates limit providers) (hwindow : 0 < st.blockRange)
    (h : fetchTurn client chain latestBlock providers attempt st = .again st') :
    st.currentStart ≤ latestBlock ∧ st.currentStart + st.blockRange < 2 ^ 64 ∧
      ((st.currentStart < st'.currentStart ∧ client.grow st.blockRange = some st'.blockRange) ∨
        limit < st.blockRange ∧ limit < latestBlock + 1 - st.currentStart ∧
          st' = { st with blockRange := max (st.blockRange / 2) 100 }) := by
  obtain ⟨hnext, hstep⟩ := fetchTurn_again h
  obtain ⟨hfits, hcases⟩ := fetchStep_cases hstep
  obtain ⟨hstart, hlatest, hsize⟩ := currentEnd_bounds hnext hwindow
  refine ⟨hnext, hfits, ?_⟩
  rcases hcases with ⟨events, blockRange, -, -, hgrow, rfl⟩ | ⟨hrefused, rfl⟩
  · exact .inl ⟨Nat.lt_succ_of_le hstart, hgrow⟩
  · obtain ⟨e, he⟩ := Option.isSome_iff_exists.1 hrefused
    obtain ⟨-, hlimit⟩ := htolerates _ _ _ e he
    exact .inr ⟨by omega, by omega, rfl⟩

/-- With a limit of 100 blocks or more every refusal makes the window smaller. -/
theorem terminates_of_least {limit : Nat} (htolerates : Tolerates limit providers) (hlimit : 100 ≤ limit) :
    Terminates client chain latestBlock startBlock providers := by
  refine terminates_of_loop (exists_run (fun st => 0 < st.blockRange)
    (fun st => (latestBlock + 1 - st.currentStart, st.blockRange)) (fun attempt s t hs hturn => ?_) 0 _
    client.maxBlockRange_pos)
  obtain ⟨hnext, -, ⟨hpassed, hgrow⟩ | ⟨hwindow, -, rfl⟩⟩ := turn_again htolerates hs hturn
  · exact ⟨grow_pos hs hgrow, .left _ _ (by omega)⟩
  · exact ⟨by dsimp only; omega, .right _ (by dsimp only; omega)⟩

/-- Where the first query is within the limit, no query is refused. -/
theorem terminates_of_first {limit : Nat} (htolerates : Tolerates limit providers)
    (hlimit : client.maxBlockRange ≤ limit ∨ latestBlock + 1 - startBlock ≤ limit) :
    Terminates client chain latestBlock startBlock providers := by
  refine terminates_of_loop (exists_run
    (fun st => 0 < st.blockRange ∧ st.blockRange ≤ client.maxBlockRange ∧ startBlock ≤ st.currentStart)
    (fun st => (latestBlock + 1 - st.currentStart, 0)) (fun attempt s t hs hturn => ?_) 0 _
    ⟨client.maxBlockRange_pos, Nat.le_refl _, Nat.le_refl _⟩)
  obtain ⟨hpos, hle, hstart⟩ := hs
  obtain ⟨hnext, -, ⟨hpassed, hgrow⟩ | ⟨hwindow, hrest, -⟩⟩ := turn_again htolerates hpos hturn
  · exact ⟨⟨grow_pos hpos hgrow, grow_le hle hgrow, by omega⟩, .left _ _ (by omega)⟩
  · omega

/-- Where the largest window overflows, a refusal is the last thing that happens. -/
theorem terminates_of_overflow {limit : Nat} (htolerates : Tolerates limit providers)
    (hlimit : 2 ^ 64 ≤ startBlock + max client.maxBlockRange 100) :
    Terminates client chain latestBlock startBlock providers := by
  refine terminates_of_loop (exists_run
    (fun st => 0 < st.blockRange ∧ startBlock ≤ st.currentStart ∧
      (st.blockRange = client.maxBlockRange ∨ client.maxBlockRange < 100 ∧ 100 ≤ st.blockRange))
    (fun st => (latestBlock + 1 - st.currentStart, 100 - st.blockRange)) (fun attempt s t hs hturn => ?_) 0 _
    ⟨client.maxBlockRange_pos, Nat.le_refl _, .inl rfl⟩)
  obtain ⟨hpos, hstart, hwindow⟩ := hs
  obtain ⟨hnext, hfits, hcases⟩ := turn_again htolerates hpos hturn
  have hsmall : s.blockRange = client.maxBlockRange ∧ client.maxBlockRange < 100 := by omega
  rcases hcases with ⟨hpassed, hgrow⟩ | ⟨-, -, rfl⟩
  · rw [hsmall.1] at hgrow
    have hgrown := grow_max hgrow
    exact ⟨⟨by rw [hgrown]; exact client.maxBlockRange_pos, by omega, .inl hgrown⟩, .left _ _ (by omega)⟩
  · exact ⟨⟨by dsimp only; omega, hstart, .inr ⟨hsmall.2, by dsimp only; omega⟩⟩, .right _ (by dsimp only; omega)⟩

/-- A node that refuses everything above the limit. -/
def refusing (limit : Nat) : Nat → Provider := fun _ fromBlock toBlock =>
  if limit < toBlock + 1 - fromBlock then some "query returned more than 10000 results" else none

theorem tolerates_refusing (limit : Nat) : Tolerates limit (refusing limit) := by
  intro attempt fromBlock toBlock e he
  unfold refusing at he
  split_ifs at he with hlimit
  obtain rfl := Option.some.inj he
  exact ⟨by decide +kernel, hlimit⟩

/-- **The same query without end**, where the least window is above what the node answers for. -/
theorem not_terminates_refusing {limit : Nat} (h : ¬ Resolves client latestBlock startBlock limit) :
    ¬ Terminates client chain latestBlock startBlock (refusing limit) := by
  unfold Resolves at h
  rintro ⟨fuel, hfuel⟩
  have hnone : run (fetchTurn client chain latestBlock (refusing limit)) fuel 0
      ⟨client.maxBlockRange, startBlock, [], startBlock⟩ = none := by
    refine run_eq_none (fun st => st.currentStart = startBlock ∧ st.allEvents = [] ∧ limit < st.blockRange ∧
      st.blockRange ≤ max client.maxBlockRange 100) ?_ ⟨rfl, rfl, by dsimp only; omega, Nat.le_max_left _ _⟩ fuel 0
    rintro attempt st ⟨rfl, hempty, hwindow, hlargest⟩
    have hfits : add st.currentStart st.blockRange = some (st.currentStart + st.blockRange) :=
      add_eq_some.2 ⟨by omega, rfl⟩
    have hrefused : refusing limit attempt st.currentStart (min (st.currentStart + st.blockRange - 1) latestBlock) =
        some "query returned more than 10000 results" := by
      unfold refusing
      rw [if_pos (by omega)]
    refine ⟨{ st with blockRange := max (st.blockRange / 2) 100 }, ?_, rfl, hempty, by dsimp only; omega, by
      dsimp only; omega⟩
    have hstep : fetchStep client chain latestBlock (refusing limit attempt) st =
        some { st with blockRange := max (st.blockRange / 2) 100 } := by
      have hmany : saysTooMany "query returned more than 10000 results" = true := by decide +kernel
      have hlogs : getLogsInRange chain (refusing limit attempt) st.currentStart
          (min (st.currentStart + st.blockRange - 1) latestBlock) =
          .error (.tooManyLogs st.currentStart (min (st.currentStart + st.blockRange - 1) latestBlock)) := by
        unfold getLogsInRange
        rw [hrefused]
        dsimp only
        rw [if_pos hmany]
      unfold fetchStep
      rw [hfits, Option.bind_eq_bind, Option.bind_some]
      dsimp only
      rw [hlogs]
      dsimp only
      rw [if_neg (by omega)]
    unfold fetchTurn
    rw [if_pos (by omega), hstep]
    dsimp only
    rw [hempty, if_neg (by decide)]
  unfold fetchSyncEvents at hfuel
  dsimp only at hfuel
  rw [if_neg (by omega), hnone] at hfuel
  cases hfuel

end AlephCore.RpcSync
