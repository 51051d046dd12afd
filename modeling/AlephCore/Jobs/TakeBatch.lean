import AlephCore.Handlers.ForgetSpec
import AlephCore.Jobs.MessageProcessor
import AlephCore.Lib.Faults
import AlephCore.Lib.Guarantee

/-!
# TakeBatch — which messages a batch takes, deletes and works on

A batch reads the due messages, then which of them have derived data and which are forgotten, in statements of
their own.  `assures_takeBatch` says what it knows of each due message in the end: what it could find out of
it in each of these statements, if the others cannot make that false in between.
-/

namespace AlephCore.MessageProcessor

open ProgE Prog ForgetHandler

/-! ## Due messages -/

/-- The batch takes the message if it looks now. -/
def Due (ctx : ProcessorContext) (p : PendingMessageDb) : Prop :=
  p.nextAttempt ≤ ctx.now ∧ p.retries < maxRetries

/-- The messages a batch works on. -/
def Batch.messages (b : Batch) : List PendingMessageDb := b.parallel ++ b.groups.flatten

variable {ctx : ProcessorContext} {n : Node} {p : PendingMessageDb}

theorem mem_duePending (hp : p ∈ duePending ctx n) : p ∈ n.pendingMessages ∧ Due ctx p := by
  have hsorted := List.mem_of_mem_take hp
  rw [List.mem_insertionSort, List.mem_filter, SqlOrder.mem_scan, decide_eq_true_eq] at hsorted
  exact hsorted

/-! ## Sorting them -/

section Classify

variable {env : Env} {ps : List PendingMessageDb} {dup forgotten : List ItemHash}

/-- A batch works on no duplicate, on nothing forgotten and on nothing of a blacklisted sender. -/
theorem mem_messages_classify (hp : p ∈ (classify env ps dup forgotten).messages) :
    p ∈ ps ∧ p.itemHash ∉ dup ∧ p.itemHash ∉ forgotten ∧ isBlacklisted p = false := by
  have hwork : ∀ {k : PendingMessageDb → Bool}, p ∈ ((ps.filter fun p => decide (p.itemHash ∉ dup ∧
      p.itemHash ∉ forgotten)).filter fun p => decide (¬ isBlacklisted p = true)).filter k →
      p ∈ ps ∧ p.itemHash ∉ dup ∧ p.itemHash ∉ forgotten ∧ isBlacklisted p = false := by
    intro k hk
    obtain ⟨hfresh, hsender⟩ := List.mem_filter.1 (List.mem_of_mem_filter hk)
    obtain ⟨hps, hnew⟩ := List.mem_filter.1 hfresh
    rw [decide_eq_true_eq] at hnew hsender
    exact ⟨hps, hnew.1, hnew.2, Bool.eq_false_iff.2 hsender⟩
  rcases List.mem_append.1 hp with hp | hp
  · exact hwork hp
  · obtain ⟨group, hgroup, hp⟩ := List.mem_flatten.1 hp
    obtain ⟨a, -, rfl⟩ := List.mem_map.1 hgroup
    exact hwork (List.mem_of_mem_filter hp)

/-- What a batch deletes at once is a duplicate, forgotten, or of a blacklisted sender. -/
theorem mem_toDelete_classify {x : ItemHash} (hx : x ∈ (classify env ps dup forgotten).toDelete) :
    x ∈ dup ∨ x ∈ forgotten ∨ ∃ p ∈ ps, isBlacklisted p = true ∧ p.itemHash = x := by
  rcases List.mem_append.1 hx with hx | hx
  · rcases List.mem_append.1 hx with hx | hx
    · exact .inl hx
    · obtain ⟨p, hp, rfl⟩ := List.mem_map.1 hx
      have hforgotten := of_decide_eq_true (List.mem_filter.1 hp).2
      exact .inr (.inl hforgotten.2)
  · obtain ⟨p, hp, rfl⟩ := List.mem_map.1 hx
    obtain ⟨hfresh, hblacklisted⟩ := List.mem_filter.1 hp
    exact .inr (.inr ⟨p, List.mem_of_mem_filter hfresh, hblacklisted, rfl⟩)

end Classify

/-! ## Taking a batch -/

/-- The batch that a node without interruptions takes. -/
def batchOf (ctx : ProcessorContext) (n : Node) : Batch :=
  let hashes := (duePending ctx n).map PendingMessageDb.itemHash
  classify ctx.env (duePending ctx n) (hashes.filter fun h => decide (h ∈ derivedHashes n))
    (hashes.filter fun h => decide (h ∈ n.forgottenMessages.rows.map ForgottenRow.itemHash))

theorem exec_batchCheck {hashes : List ItemHash} {f : Node → ItemHash → Bool} {n : Node} :
    Exec (if hashes.isEmpty then pure [] else query fun n => hashes.filter (f n) : Db DbError (List ItemHash)).run n
      (.ok (hashes.filter (f n))) n := by
  split_ifs with hempty
  · rw [List.isEmpty_iff.1 hempty]
    exact exec_pure_ok.2 ⟨rfl, rfl⟩
  · exact exec_query_ok.2 ⟨rfl, rfl⟩

/-- A batch is taken without a change if no due message came with a chain transaction. -/
theorem exec_takeBatch {ctx : ProcessorContext} {n : Node}
    (h : ∀ p ∈ duePending ctx n, chainConfirmation p.itemHash p.message = none) :
    Exec (takeBatch ctx).run n (.ok (batchOf ctx n)) n := by
  have hrecord : ∀ ps : List PendingMessageDb, (∀ p ∈ ps, chainConfirmation p.itemHash p.message = none) →
      Exec (forEach recordChainConfirmationIfPresent ps).run n (.ok ()) n := by
    intro ps
    induction ps with
    | nil => exact fun _ => exec_pure_ok.2 ⟨rfl, rfl⟩
    | cons p ps ih =>
      intro hps
      refine exec_bind_ok.2 ⟨(), n, ?_, ih fun q hq => hps q (List.mem_cons_of_mem _ hq)⟩
      rw [recordChainConfirmationIfPresent, hps p List.mem_cons_self]
      exact exec_pure_ok.2 ⟨rfl, rfl⟩
  refine exec_bind_ok.2 ⟨_, n, exec_mapErr_ok.2 (exec_query_ok.2 ⟨rfl, rfl⟩), ?_⟩
  refine exec_bind_ok.2 ⟨_, n, exec_mapErr_ok.2 exec_batchCheck, ?_⟩
  refine exec_bind_ok.2 ⟨_, n, exec_mapErr_ok.2 exec_batchCheck, ?_⟩
  refine exec_bind_ok.2 ⟨(), n, hrecord _ fun p hp => h p (List.mem_of_mem_filter hp), ?_⟩
  exact exec_pure_ok.2 ⟨rfl, rfl⟩

theorem run_batchCheck {hashes : List ItemHash} {f : Node → ItemHash → Bool} {n : Node} :
    (if hashes.isEmpty then pure [] else query fun n => hashes.filter (f n) : Db DbError (List ItemHash)).run.run n =
      (.ok (hashes.filter (f n)), n) := by
  split_ifs with hempty
  · rw [List.isEmpty_iff.1 hempty]
    rfl
  · rfl

/-- So is one that runs without refusals. -/
theorem run_takeBatch {ctx : ProcessorContext} {n : Node}
    (h : ∀ p ∈ duePending ctx n, chainConfirmation p.itemHash p.message = none) :
    (takeBatch ctx).run.run n = (.ok (batchOf ctx n), n) := by
  have hrecord : ∀ ps : List PendingMessageDb, (∀ p ∈ ps, chainConfirmation p.itemHash p.message = none) →
      (forEach recordChainConfirmationIfPresent ps).run.run n = (.ok (), n) := by
    intro ps
    induction ps with
    | nil => exact fun _ => rfl
    | cons p ps ih =>
      intro hps
      have hone : (recordChainConfirmationIfPresent p).run.run n = (.ok (), n) := by
        rw [recordChainConfirmationIfPresent, hps p List.mem_cons_self]
        rfl
      exact (run_bind_ok hone).trans (ih fun q hq => hps q (List.mem_cons_of_mem _ hq))
  have hop : ∀ {α : Type} {p : Db DbError α} {a : α}, p.run.run n = (.ok a, n) → (dbOp p).run.run n = (.ok a, n) := by
    intro α p a hp
    rw [dbOp, run_mapErr, hp]
    rfl
  unfold takeBatch
  refine (run_bind_ok (hop (run_query _ n))).trans ((run_bind_ok (hop run_batchCheck)).trans ?_)
  refine (run_bind_ok (hop run_batchCheck)).trans ((run_bind_ok (hrecord _ fun p hp => ?_)).trans rfl)
  exact h p (List.mem_of_mem_filter hp)

/-- Only chain transactions are recorded. -/
def OnlyChainTxs (n n' : Node) : Prop := ∃ txs, n' = { n with chainTxs := txs }

instance : IsPreorder Node OnlyChainTxs where
  refl n := ⟨n.chainTxs, rfl⟩
  trans := by
    rintro _ _ _ ⟨txs, rfl⟩ ⟨txs', rfl⟩
    exact ⟨txs', rfl⟩

theorem moves_recordChainConfirmation (p : PendingMessageDb) :
    Moves OnlyChainTxs (recordChainConfirmationIfPresent p).run := by
  unfold recordChainConfirmationIfPresent
  split
  · exact moves_pure ()
  · exact moves_ignore (moves_execute fun n => ⟨_, rfl⟩)

/-- While a batch is taken nothing else changes. -/
theorem moves_takeBatch {ctx : ProcessorContext} : Moves OnlyChainTxs (takeBatch ctx).run := by
  have hread : ∀ {f : Node → List ItemHash} {hashes : List ItemHash},
      Moves OnlyChainTxs (if hashes.isEmpty then pure [] else query f : Db DbError (List ItemHash)).run := by
    intro f hashes
    split_ifs
    · exact moves_pure []
    · exact moves_query f
  refine moves_bind (moves_mapErr (moves_query _)) fun ps => moves_bind (moves_mapErr hread) fun dup => ?_
  exact moves_bind (moves_mapErr hread) fun forgotten =>
    moves_bind (moves_forEach fun p _ => moves_recordChainConfirmation p) fun _ => moves_pure _

theorem reach_takeBatch {ctx : ProcessorContext} {n t : Node} (h : Reach (takeBatch ctx).run n t) :
    OnlyChainTxs n t := moves_takeBatch.reach h

/-! ## Taking a batch beside other jobs -/

/-- What a batch finds out of a due message: `seen` when it reads it, and then whether it has derived data and
whether it is forgotten. -/
structure Findings (ctx : ProcessorContext) (c : Contract Node) where
  seen : PendingMessageDb → Node → Prop
  derived : Bool → PendingMessageDb → Node → Prop
  forgotten : Bool → PendingMessageDb → Node → Prop
  stable_seen : ∀ {p}, c.Stable (seen p)
  stable_derived : ∀ {b p}, c.Stable (derived b p)
  stable_forgotten : ∀ {b p}, c.Stable (forgotten b p)
  sees : ∀ {p n}, c.given n → p ∈ duePending ctx n → seen p n
  findsDerived : ∀ {p n}, c.given n → seen p n → derived (decide (p.itemHash ∈ derivedHashes n)) p n
  findsForgotten : ∀ {p n}, c.given n → seen p n →
    forgotten (decide (p.itemHash ∈ n.forgottenMessages.rows.map ForgottenRow.itemHash)) p n
  records : ∀ {n n'}, OnlyChainTxs n n' → c.guar n n' ∧ c.rely n n'

/-- The batch is made of due messages and what was found out of them. -/
def Findings.Made {c : Contract Node} (f : Findings ctx c) (b : Batch) (n : Node) : Prop :=
  ∃ ps dup forgotten, b = classify ctx.env ps dup forgotten ∧
    (∀ x ∈ dup, x ∈ ps.map PendingMessageDb.itemHash) ∧ (∀ x ∈ forgotten, x ∈ ps.map PendingMessageDb.itemHash) ∧
    ∀ p ∈ ps, f.seen p n ∧ f.derived (decide (p.itemHash ∈ dup)) p n ∧ f.forgotten (decide (p.itemHash ∈ forgotten)) p n

namespace Findings

variable {c : Contract Node} (f : Findings ctx c) {ps : List PendingMessageDb}

variable {f} in
theorem Made.stable {b : Batch} {n n' : Node} (hrely : c.rely n n') (h : f.Made b n) : f.Made b n' := by
  obtain ⟨ps, dup, forgotten, rfl, hdup, hforgotten, hall⟩ := h
  refine ⟨ps, dup, forgotten, rfl, hdup, hforgotten, fun p hp => ?_⟩
  obtain ⟨hseen, hderived, hfound⟩ := hall p hp
  exact ⟨f.stable_seen _ _ hrely hseen, f.stable_derived _ _ hrely hderived, f.stable_forgotten _ _ hrely hfound⟩

/-- One of the two look-ups, for the hashes of the due messages. -/
theorem assures_batchCheck {J : Node → Prop} {found : Node → ItemHash → Bool} {F : Bool → PendingMessageDb → Node → Prop}
    (hJ : c.Stable J) (hF : ∀ {b p}, c.Stable (F b p)) (hs : J n)
    (hseen : ∀ n, J n → ∀ p ∈ ps, f.seen p n)
    (hfinds : ∀ {p n}, c.given n → f.seen p n → F (found n p.itemHash) p n) :
    Assures c (IfOk fun (hashes : List ItemHash) n => J n ∧ (∀ x ∈ hashes, x ∈ ps.map PendingMessageDb.itemHash) ∧
        ∀ p ∈ ps, F (decide (p.itemHash ∈ hashes)) p n)
      (if (ps.map PendingMessageDb.itemHash).isEmpty then pure [] else
        query fun n => (ps.map PendingMessageDb.itemHash).filter (found n) : Db DbError (List ItemHash)).run n := by
  have hstable : ∀ hashes : List ItemHash, c.Stable fun n => J n ∧
      (∀ x ∈ hashes, x ∈ ps.map PendingMessageDb.itemHash) ∧ ∀ p ∈ ps, F (decide (p.itemHash ∈ hashes)) p n :=
    fun _ s t hst h => ⟨hJ s t hst h.1, h.2.1, fun p hp => hF s t hst (h.2.2 p hp)⟩
  split_ifs with hempty
  · refine assures_pure_ifOk (hstable _) ⟨hs, fun x hx => absurd hx List.not_mem_nil, fun p hp => ?_⟩
    have hnone : p.itemHash ∈ ps.map PendingMessageDb.itemHash := List.mem_map_of_mem hp
    rw [List.isEmpty_iff.1 hempty] at hnone
    cases hnone
  · refine assures_query_ifOk hstable fun t hnt hgiven => ?_
    have ht := hJ n t hnt hs
    refine ⟨ht, fun x hx => List.mem_of_mem_filter hx, fun p hp => ?_⟩
    have hfound : decide (p.itemHash ∈ (ps.map PendingMessageDb.itemHash).filter (found t)) = found t p.itemHash := by
      rw [Bool.eq_iff_iff, decide_eq_true_eq, List.mem_filter]
      exact and_iff_right (List.mem_map_of_mem hp)
    rw [hfound]
    exact hfinds hgiven (hseen t ht p hp)

/-- **A batch is made of what it found out**, whatever the others do in the meantime. -/
theorem assures_takeBatch : Assures c (IfOk f.Made) (takeBatch ctx).run n := by
  have hseen : ∀ ps : List PendingMessageDb, c.Stable fun n => ∀ p ∈ ps, f.seen p n :=
    fun _ s t hst h p hp => f.stable_seen s t hst (h p hp)
  unfold takeBatch
  refine assures_bind_ifOk (assures_mapErr_ifOk hseen
    (assures_query_ifOk hseen fun t _ hgiven p hp => f.sees hgiven hp)) fun ps t hps => ?_
  have hderived : ∀ dup : List ItemHash, c.Stable fun n => (∀ p ∈ ps, f.seen p n) ∧
      (∀ x ∈ dup, x ∈ ps.map PendingMessageDb.itemHash) ∧ ∀ p ∈ ps, f.derived (decide (p.itemHash ∈ dup)) p n :=
    fun _ s t hst h => ⟨hseen ps s t hst h.1, h.2.1, fun p hp => f.stable_derived s t hst (h.2.2 p hp)⟩
  refine assures_bind_ifOk (assures_mapErr_ifOk hderived (f.assures_batchCheck (hseen ps) f.stable_derived hps
    (fun _ h => h) f.findsDerived)) fun dup t hdup => ?_
  have hall : ∀ forgotten : List ItemHash, c.Stable fun n => ((∀ p ∈ ps, f.seen p n) ∧
      (∀ x ∈ dup, x ∈ ps.map PendingMessageDb.itemHash) ∧ ∀ p ∈ ps, f.derived (decide (p.itemHash ∈ dup)) p n) ∧
      (∀ x ∈ forgotten, x ∈ ps.map PendingMessageDb.itemHash) ∧
        ∀ p ∈ ps, f.forgotten (decide (p.itemHash ∈ forgotten)) p n :=
    fun _ s t hst h => ⟨hderived dup s t hst h.1, h.2.1, fun p hp => f.stable_forgotten s t hst (h.2.2 p hp)⟩
  refine assures_bind_ifOk (assures_mapErr_ifOk hall (f.assures_batchCheck (hderived dup) f.stable_forgotten hdup
    (fun _ h => h.1) f.findsForgotten)) fun forgotten t hfound => ?_
  have hrecord : Moves OnlyChainTxs (forEach recordChainConfirmationIfPresent
      (ps.filter fun p => decide (p.itemHash ∈ dup))).run := moves_forEach fun p _ => moves_recordChainConfirmation p
  refine assures_bind_ifOk (P := fun _ => _) ((hrecord.assures (hall forgotten) (fun s t hs _ hst => ?_) hfound).mono
    fun r t ht _ _ => ht) fun _ t ht => assures_pure_ifOk ?_ ?_
  · exact ⟨(f.records hst).1, hall forgotten s t (f.records hst).2 hs⟩
  · exact fun s t hst => Made.stable hst
  · obtain ⟨⟨hseen, hlisted, hdup⟩, hlisted', hforgotten⟩ := ht
    exact ⟨ps, dup, forgotten, rfl, hlisted, hlisted', fun p hp => ⟨hseen p hp, hdup p hp, hforgotten p hp⟩⟩

end Findings

end AlephCore.MessageProcessor
