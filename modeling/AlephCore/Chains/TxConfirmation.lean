import AlephCore.Chains.TxPacker
import AlephCore.Lib.Faults
import AlephCore.Lib.Guarantee

/-!
# TxConfirmation — from a batch to its confirmed transaction

Mirrors `check_confirmations` and `confirm_pending_tx` of `chains/tx_packer.rs`, and the packer's runs: the calls of
`sync_chain` and of `check_confirmations` issue their statements while messages arrive and other transactions are
recorded.
-/

namespace AlephCore.TxPacker

open ProgE Prog

/-! ## The table of transactions -/

/-- The unique constraints of `chain_txs`: its primary key. -/
def chainTxsConstraints : List (List String) := [["hash", "item_hash"]]

/-- PostgreSQL's answer to a conflict target that no constraint matches. -/
def noMatchingConstraint : DbError :=
  "there is no unique or exclusion constraint matching the ON CONFLICT specification"

/-- `INSERT INTO chain_txs … ON CONFLICT (target) DO NOTHING`. -/
def insertChainTx (target : List String) (row : ChainTxRow) : ProgE World DbError DbError Unit :=
  sql fun w =>
    if target ∈ chainTxsConstraints then
      (.ok (), { w with node := { w.node with chainTxs := w.node.chainTxs.insertNew row } })
    else (.error noMatchingConstraint, w)

/-! ## Confirming -/

/-- What the packer reads of a receipt. -/
structure Receipt where
  status : Option Nat
  blockNumber : Option Nat

/-- The provider of Ethereum.  It is asked for a receipt to see whether the transaction is confirmed, and once more
for the height of its block. -/
structure Provider where
  /-- `H256::from_str`. -/
  parseHash : String → Except String String
  receipt : String → Except String (Option Receipt)
  receiptAgain : String → Except String (Option Receipt)

/-- What a check of the confirmations works with. -/
structure Confirmer where
  order : SqlOrder
  /-- `str::to_uppercase`. -/
  toUppercase : String → String
  provider : Option Provider

/-- `Chain::from_str`. -/
def fromStr (toUppercase : String → String) (s : String) : Option Chain :=
  match toUppercase s with
  | "ETHEREUM" => some .eth
  | "AVALANCHE" => some .avax
  | "BNB" => some .bsc
  | "ARB" => some .arbitrum
  | "OP" => some .optimism
  | "POLYGON" | "MATIC" => some .pol
  | "SOLANA" => some .sol
  | "COSMOS" => some .csdk
  | "POLKADOT" => some .dot
  | "XTZ" => some .tezos
  | name => Chain.ofString? name

example : fromStr String.toUpper "Matic" = some .pol := by decide +kernel

/-- `H256::default`. -/
def zeroHash : String := "0x" ++ String.ofList (List.replicate 64 '0')

/-- Whether a transaction is confirmed. -/
def checkEvmConfirmation (c : Confirmer) (txHash : String) : Except TxPackerError Bool :=
  match c.provider with
  | none => .error (.config "No provider")
  | some provider =>
    match provider.parseHash txHash with
    | .error e => .error (.parse s!"Invalid tx hash: {e}")
    | .ok hash =>
      match provider.receipt hash with
      | .ok (some receipt) => .ok (decide (receipt.status = some 1))
      | .ok none => .ok false
      | .error e => .error (.chain e)

/-- The height of the block of a transaction, 0 if it is not to be had. -/
def blockHeight (c : Confirmer) (txHash : String) : Nat :=
  match c.provider with
  | none => 0
  | some provider =>
    let hash := (provider.parseHash txHash).toOption.getD zeroHash
    (((provider.receiptAgain hash).toOption.join).bind Receipt.blockNumber).getD 0

/-- `fetch_one` found no row. -/
def rowNotFound : DbError := "no rows returned by a query that expected to return at least one row"

/-- The item hashes of a batch. -/
def batchItemHashes (ipfsHash : String) : ProgE World DbError DbError (List ItemHash) :=
  sql fun w =>
    match w.pendingTxs.find? ipfsHash with
    | some pending => (.ok pending.itemHashes, w)
    | none => (.error rowNotFound, w)

/-- Confirm a batch and record its transaction for each of its messages. -/
def confirmPendingTx (c : Confirmer) (ipfsHash : String) (chain : Chain) (txHash : String) :
    ProgE World DbError TxPackerError Unit := do
  let itemHashes ← mapErr .database (batchItemHashes ipfsHash)
  forEach (fun itemHash => mapErr .database
    (insertChainTx ["hash"] ⟨txHash, chain.toString, asI64 (blockHeight c txHash), itemHash⟩)) itemHashes
  mapErr .database (execute fun w => { w with
    pendingTxs := w.pendingTxs.update (·.ipfsHash = ipfsHash) fun t => { t with status := "confirmed" } })

/-- Whether the transaction of a batch is confirmed; only some chains can be asked. -/
def isConfirmed (c : Confirmer) (chain : Chain) (txHash : String) : Bool :=
  match chain with
  | .eth | .avax | .bsc => (checkEvmConfirmation c txHash).toOption.getD false
  | _ => false

/-- Confirm the batches whose transaction is confirmed, and count them. -/
def confirmEach (c : Confirmer) : List (String × String × String) → Nat → ProgE World DbError TxPackerError Nat
  | [], count => pure count
  | (ipfsHash, chainStr, txHash) :: rest, count =>
    let chain := (fromStr c.toUppercase chainStr).getD .eth
    if isConfirmed c chain txHash then do
      confirmPendingTx c ipfsHash chain txHash
      confirmEach c rest (count + 1)
    else confirmEach c rest count

/-- The submitted batches. -/
def submitted (order : SqlOrder) (w : World) : List (String × String × String) :=
  ((order.scan w.pendingTxs.rows).filter fun t => decide (t.status = "submitted")).filterMap fun t =>
    t.txHash.map fun txHash => (t.ipfsHash, t.chain, txHash)

def checkConfirmations (c : Confirmer) : ProgE World DbError TxPackerError Nat := do
  let pending ← mapErr .database (query (submitted c.order))
  confirmEach c pending 0

/-! ## One batch -/

/-- Without external failures the batch is confirmed: the call succeeds and each message has its row. -/
def Confirms (c : Confirmer) (w : World) (t : PendingTx) (chain : Chain) (txHash : String) : Prop :=
  ((confirmPendingTx c t.ipfsHash chain txHash).run.run w).1 = .ok () ∧
    ∀ itemHash ∈ t.itemHashes, ∃ row ∈ ((confirmPendingTx c t.ipfsHash chain txHash).run.run w).2.node.chainTxs,
      row.hash = txHash ∧ row.itemHash = itemHash

section Batch

variable {c : Confirmer} {w : World} {t : PendingTx} {chain : Chain} {txHash : String}

theorem run_batchItemHashes (ht : t ∈ w.pendingTxs) :
    (mapErr TxPackerError.database (batchItemHashes t.ipfsHash)).run.run w = (.ok t.itemHashes, w) := by
  have hfind : w.pendingTxs.find? t.ipfsHash = some t := Table.find?_eq_some.2 ⟨ht, rfl⟩
  rw [run_mapErr, batchItemHashes, run_sql, hfind]
  rfl

/-- **The first insertion fails**: no constraint of the table is on the hash of the transaction alone. -/
theorem run_insertChainTx (row : ChainTxRow) (w : World) :
    (mapErr TxPackerError.database (insertChainTx ["hash"] row)).run.run w =
      (.error (.database noMatchingConstraint), w) := by
  have htarget : ["hash"] ∉ chainTxsConstraints := by decide
  rw [run_mapErr, insertChainTx, run_sql, if_neg htarget]
  rfl

/-- **A batch is confirmed only if it is empty.** -/
theorem confirms_iff (ht : t ∈ w.pendingTxs) : Confirms c w t chain txHash ↔ t.itemHashes = [] := by
  unfold Confirms confirmPendingTx
  rw [run_bind_ok (run_batchItemHashes ht)]
  cases hhashes : t.itemHashes with
  | nil =>
    refine iff_of_true ⟨rfl, fun itemHash hmem => ?_⟩ rfl
    exact absurd hmem List.not_mem_nil
  | cons itemHash rest =>
    have hloop := run_bind_error (q := fun _ => forEach (fun itemHash => mapErr .database
      (insertChainTx ["hash"] ⟨txHash, chain.toString, asI64 (blockHeight c txHash), itemHash⟩)) rest)
      (run_insertChainTx ⟨txHash, chain.toString, asI64 (blockHeight c txHash), itemHash⟩ w)
    refine iff_of_false (fun h => ?_) (List.cons_ne_nil _ _)
    have hok := h.1
    rw [forEach, run_bind_error hloop] at hok
    cases hok

end Batch

/-! ## Runs -/

/-- The database, and what is left of the calls of the packer and of the check. -/
structure System where
  world : World
  packing : Prog World DbError (Except TxPackerError (Option String))
  confirming : Prog World DbError (Except TxPackerError Nat)

/-- Who makes the next step. -/
inductive Label where
  /-- `sync_chain` is called and issues its first statement. -/
  | sync (chain : Chain)
  | pack
  /-- `check_confirmations` is called and issues its first statement. -/
  | check (c : Confirmer)
  | confirm
  /-- Messages arrive, transactions of other nodes are recorded. -/
  | other

/-- One step.  Every statement may be refused, and a call may be dropped for another one at any time. -/
inductive Step (p : Packer) : Label → System → System → Prop
  | sync {s : System} {chain : Chain} {q : Prog World DbError (Except TxPackerError (Option String))} {w : World}
      (h : Next (syncChain p chain).run s.world q w) : Step p (.sync chain) s { s with world := w, packing := q }
  | pack {s : System} {q : Prog World DbError (Except TxPackerError (Option String))} {w : World}
      (h : Next s.packing s.world q w) : Step p .pack s { s with world := w, packing := q }
  | check {s : System} {c : Confirmer} {q : Prog World DbError (Except TxPackerError Nat)} {w : World}
      (h : Next (checkConfirmations c).run s.world q w) :
      Step p (.check c) s { s with world := w, confirming := q }
  | confirm {s : System} {q : Prog World DbError (Except TxPackerError Nat)} {w : World}
      (h : Next s.confirming s.world q w) : Step p .confirm s { s with world := w, confirming := q }
  | other {s : System} (node : Node) : Step p .other s { s with world := { s.world with node := node } }

/-- Runs whose steps meet a condition. -/
inductive Run (p : Packer) (guard : System → Label → Prop) (s : System) : System → Prop
  | refl : Run p guard s s
  | step {s' s'' : System} {label : Label} (run : Run p guard s s') (hguard : guard s' label)
      (h : Step p label s' s'') : Run p guard s s''

/-- A node that has published nothing. -/
structure Initial (s : System) : Prop where
  batches : s.world.pendingTxs = .empty
  packing : ∃ r, s.packing = .pure r
  confirming : ∃ r, s.confirming = .pure r

/-- The batch is in flight. -/
def PendingTx.Unfinished (t : PendingTx) : Prop := t.status = "pending" ∨ t.status = "submitted"

/-- No message is in two batches that are in flight. -/
def NoneTwice (w : World) : Prop :=
  ∀ t ∈ w.pendingTxs, ∀ t' ∈ w.pendingTxs, t.Unfinished → t'.Unfinished → t ≠ t' →
    ∀ itemHash ∈ t.itemHashes, itemHash ∉ t'.itemHashes

/-- **A careful step**: a call of `sync_chain` selects no message of a batch in flight. -/
def Careful (p : Packer) (s : System) : Label → Prop
  | .sync chain => ∀ m ∈ unconfirmed p.order chain s.world.node, ∀ t ∈ s.world.pendingTxs, t.Unfinished →
      m.itemHash ∉ t.itemHashes
  | _ => True

/-! ### What the statements keep -/

/-- Every batch has messages and is in flight, and no message is in two of them. -/
structure Batches (w : World) : Prop where
  nonempty : ∀ t ∈ w.pendingTxs, t.itemHashes ≠ []
  unfinished : ∀ t ∈ w.pendingTxs, t.Unfinished
  once : ∀ t ∈ w.pendingTxs, ∀ t' ∈ w.pendingTxs, ∀ itemHash ∈ t.itemHashes, itemHash ∈ t'.itemHashes →
    t.ipfsHash = t'.ipfsHash

/-- No batch has one of the messages. -/
def Fresh (itemHashes : List ItemHash) (w : World) : Prop :=
  ∀ t ∈ w.pendingTxs, ∀ itemHash ∈ itemHashes, itemHash ∉ t.itemHashes

/-- The packer relies on nobody else writing batches. -/
def packing : Contract World where
  given _ := True
  rely w w' := w'.pendingTxs = w.pendingTxs
  guar w w' := Batches w → Batches w'
  rely_refl _ := rfl
  rely_trans h h' := h'.trans h
  guar_refl _ h := h

/-- The check writes no batch, as long as none is empty. -/
def confirming : Contract World where
  given := Batches
  rely _ _ := True
  guar w w' := w'.pendingTxs = w.pendingTxs
  rely_refl _ := trivial
  rely_trans _ _ := trivial
  guar_refl _ := rfl

section Keeps

variable {w w' : World} {itemHashes : List ItemHash}

theorem Batches.noneTwice (h : Batches w) : NoneTwice w := by
  rintro t ht t' ht' - - hne itemHash hmem hmem'
  exact hne (Table.eq_of_key ht ht' (h.once t ht t' ht' itemHash hmem hmem'))

theorem Batches.congr (h : Batches w) (hw : w'.pendingTxs = w.pendingTxs) : Batches w' := by
  refine ⟨?_, ?_, ?_⟩
  · rw [hw]
    exact h.nonempty
  · rw [hw]
    exact h.unfinished
  · rw [hw]
    exact h.once

theorem Fresh.congr (h : Fresh itemHashes w) (hw : w'.pendingTxs = w.pendingTxs) : Fresh itemHashes w' := by
  intro t ht
  rw [hw] at ht
  exact h t ht

theorem Batches.store {pending : PendingTx} (h : Batches w) (hne : pending.itemHashes ≠ [])
    (hstatus : pending.status = "pending") (hfresh : Fresh pending.itemHashes w) :
    Batches { w with pendingTxs := w.pendingTxs.insertNew pending } := by
  refine ⟨fun t ht => ?_, fun t ht => ?_, fun t ht t' ht' itemHash hmem hmem' => ?_⟩
  · rcases Table.mem_insertNew.1 ht with ht | ⟨rfl, -⟩
    · exact h.nonempty t ht
    · exact hne
  · rcases Table.mem_insertNew.1 ht with ht | ⟨rfl, -⟩
    · exact h.unfinished t ht
    · exact .inl hstatus
  · rcases Table.mem_insertNew.1 ht with hold | ⟨rfl, -⟩
    · rcases Table.mem_insertNew.1 ht' with hold' | ⟨rfl, -⟩
      · exact h.once t hold t' hold' itemHash hmem hmem'
      · exact absurd hmem (hfresh t hold itemHash hmem')
    · rcases Table.mem_insertNew.1 ht' with hold' | ⟨rfl, -⟩
      · exact absurd hmem' (hfresh t' hold' itemHash hmem)
      · rfl

theorem Batches.submit {ipfsHash txHash : String} (h : Batches w) :
    Batches { w with pendingTxs := w.pendingTxs.update (·.ipfsHash = ipfsHash) fun t =>
      { t with txHash := some txHash, status := "submitted" } } := by
  have hrow : ∀ t ∈ w.pendingTxs.update (·.ipfsHash = ipfsHash) fun t =>
      { t with txHash := some txHash, status := "submitted" },
      ∃ s ∈ w.pendingTxs, s.itemHashes = t.itemHashes ∧ s.ipfsHash = t.ipfsHash ∧ (t.Unfinished ↔ s.Unfinished) := by
    intro t ht
    rcases Table.mem_update.1 ht with ⟨ht, -⟩ | ⟨s, hs, -, rfl⟩
    · exact ⟨t, ht, rfl, rfl, Iff.rfl⟩
    · exact ⟨s, hs, rfl, rfl, iff_of_true (.inr rfl) (h.unfinished s hs)⟩
  refine ⟨fun t ht => ?_, fun t ht => ?_, fun t ht t' ht' itemHash hmem hmem' => ?_⟩
  · obtain ⟨s, hs, hhashes, -⟩ := hrow t ht
    rw [← hhashes]
    exact h.nonempty s hs
  · obtain ⟨s, hs, -, -, hunfinished⟩ := hrow t ht
    exact hunfinished.2 (h.unfinished s hs)
  · obtain ⟨s, hs, hhashes, hcid, -⟩ := hrow t ht
    obtain ⟨s', hs', hhashes', hcid', -⟩ := hrow t' ht'
    rw [← hcid, ← hcid']
    exact h.once s hs s' hs' itemHash (hhashes ▸ hmem) (hhashes' ▸ hmem')

end Keeps

/-! ### What the calls keep -/

section Calls

variable {p : Packer} {chain : Chain} {c : Confirmer} {w : World} {itemHashes : List ItemHash}

theorem stable_fresh : packing.Stable (Fresh itemHashes) := fun _ _ hrely h => h.congr hrely

theorem stable_true {k : Contract World} : k.Stable fun _ => True := fun _ _ _ _ => trivial

/-- A statement that leaves the batches alone. -/
theorem assures_elsewhere {α : Type} {f : World → Except DbError α × World} (e : DbError → TxPackerError)
    (hf : ∀ w, (f w).2.pendingTxs = w.pendingTxs) (h : Fresh itemHashes w) :
    Assures packing (fun _ => Fresh itemHashes) (mapErr e (sql f)).run w := by
  refine assures_mapErr (fun _ => stable_fresh) (assures_sql (fun _ => stable_fresh) fun t hrely _ => ?_)
  have ht : Fresh itemHashes t := h.congr hrely
  exact ⟨fun hb => hb.congr (hf t), ht.congr (hf t), fun _ => ht⟩

theorem assures_add {content : ByteArray} (h : Fresh itemHashes w) :
    Assures packing (fun _ => Fresh itemHashes) (add p content).run w := by
  refine assures_elsewhere .ipfs (fun t => ?_) h
  cases p.ipfsAdd content with
  | ok cid => rfl
  | error e => rfl

theorem assures_submit {ipfsHash : String} :
    Assures packing (fun _ _ => True) (submit p chain ipfsHash).run w := by
  have hfresh : ∀ t, Fresh [] t := fun t s _ itemHash hmem => absurd hmem List.not_mem_nil
  have hsend : ∀ {callData : ByteArray} {t : World},
      Assures packing (fun _ => Fresh []) (sendTransaction p callData).run t := by
    intro callData t
    refine assures_elsewhere .chain (fun t => ?_) (hfresh t)
    cases p.sendTransaction callData with
    | ok txHash => rfl
    | error e => rfl
  by_cases hchain : chain = .eth
  · subst hchain
    show Assures packing (fun _ _ => True) (submitEthereumSync p ipfsHash).run w
    unfold submitEthereumSync
    have hready : Assures packing (fun _ _ => True)
        (fromExcept p.ethereum : ProgE World DbError TxPackerError Unit).run w := fun _ _ => trivial
    refine assures_bind hready (fun _ t _ => ?_) fun _ _ _ _ _ => trivial
    exact assures_bind hsend (fun _ u _ => assures_pure stable_true trivial) fun _ _ _ _ _ => trivial
  · have hnone : submit p chain ipfsHash = (pure none : ProgE World DbError TxPackerError (Option String)) := by
      cases chain <;> first | exact absurd rfl hchain | rfl
    rw [hnone]
    exact assures_pure stable_true trivial

theorem assures_storePendingTx {pending : PendingTx} (hne : pending.itemHashes ≠ [])
    (hstatus : pending.status = "pending") (h : Fresh pending.itemHashes w) :
    Assures packing (fun _ _ => True) (storePendingTx pending).run w := by
  refine assures_mapErr (fun _ => stable_true) (assures_sql (fun _ => stable_true) fun t hrely _ => ?_)
  exact ⟨fun hb => hb.store hne hstatus (h.congr hrely), trivial, fun _ => trivial⟩

theorem assures_updatePendingTxHash {ipfsHash txHash : String} :
    Assures packing (fun _ _ => True) (updatePendingTxHash ipfsHash txHash).run w := by
  refine assures_mapErr (fun _ => stable_true) (assures_sql (fun _ => stable_true) fun t _ _ => ?_)
  exact ⟨fun hb => hb.submit, trivial, fun _ => trivial⟩

/-- **Publishing keeps the batches apart**, if no batch has one of the messages. -/
theorem assures_publish (hne : itemHashes ≠ []) (h : Fresh itemHashes w) :
    Assures packing (fun _ _ => True) (publish p chain itemHashes).run w := by
  unfold publish
  refine assures_bind (assures_add h) (fun ipfsHash t ht => ?_) fun _ _ _ _ _ => trivial
  refine assures_bind (assures_storePendingTx hne rfl ht) (fun _ u _ => ?_) fun _ _ _ _ _ => trivial
  refine assures_bind assures_submit (fun txHash v _ => ?_) fun _ _ _ _ _ => trivial
  cases txHash with
  | none => exact assures_pure stable_true trivial
  | some hash =>
    refine assures_bind assures_updatePendingTxHash (fun _ x _ => ?_) fun _ _ _ _ _ => trivial
    exact assures_pure stable_true trivial

/-- **No insertion of the check is accepted.** -/
theorem assures_confirmPendingTx {ipfsHash txHash : String} :
    Assures confirming (fun _ _ => True) (confirmPendingTx c ipfsHash chain txHash).run w := by
  unfold confirmPendingTx
  have hread : Assures confirming (fun r _ => ∀ hashes, r = .ok hashes → hashes ≠ [])
      (mapErr TxPackerError.database (batchItemHashes ipfsHash)).run w := by
    refine assures_mapErr (fun _ _ _ _ h => h) (assures_sql (fun _ _ _ _ h => h) fun t _ hbatches => ?_)
    cases hfind : t.pendingTxs.find? ipfsHash with
    | none => exact ⟨rfl, fun _ h => (by cases h), fun _ _ h => (by cases h)⟩
    | some pending =>
      refine ⟨rfl, ?_, fun _ _ h => (by cases h)⟩
      rintro _ ⟨⟩
      exact hbatches.nonempty pending (Table.find?_eq_some.1 hfind).1
  refine assures_bind hread (fun hashes t hne => ?_) fun _ _ _ _ _ => trivial
  obtain ⟨itemHash, rest, rfl⟩ := List.exists_cons_of_ne_nil (hne hashes rfl)
  have hinsert : Assures confirming (fun r _ => ∀ u, r ≠ .ok u) (mapErr TxPackerError.database (insertChainTx ["hash"]
      ⟨txHash, chain.toString, asI64 (blockHeight c txHash), itemHash⟩)).run t := by
    have htarget : ["hash"] ∉ chainTxsConstraints := by decide
    refine assures_mapErr (fun _ _ _ _ h => h) (assures_sql (fun _ _ _ _ h => h) fun u _ _ => ?_)
    rw [if_neg htarget]
    exact ⟨rfl, fun _ h => (by cases h), fun _ _ h => (by cases h)⟩
  have hloop : Assures confirming (fun r _ => ∀ u, r ≠ .ok u) (forEach (fun itemHash => mapErr TxPackerError.database
      (insertChainTx ["hash"] ⟨txHash, chain.toString, asI64 (blockHeight c txHash), itemHash⟩))
        (itemHash :: rest)).run t :=
    assures_bind hinsert (fun u _ hu => absurd rfl (hu u)) fun _ _ _ _ _ _ h => (by cases h)
  exact assures_bind hloop (fun u _ hu => absurd rfl (hu u)) fun _ _ _ _ _ => trivial

theorem assures_confirmEach {pending : List (String × String × String)} {count : Nat} :
    Assures confirming (fun _ _ => True) (confirmEach c pending count).run w := by
  induction pending generalizing w count with
  | nil => exact assures_pure stable_true trivial
  | cons batch rest ih =>
    obtain ⟨ipfsHash, chainStr, txHash⟩ := batch
    unfold confirmEach
    dsimp only
    split_ifs
    · exact assures_bind assures_confirmPendingTx (fun _ _ _ => ih) fun _ _ _ _ _ => trivial
    · exact ih

theorem assures_checkConfirmations : Assures confirming (fun _ _ => True) (checkConfirmations c).run w := by
  unfold checkConfirmations
  have hread : Assures confirming (fun _ _ => True)
      (mapErr TxPackerError.database (query (submitted c.order))).run w :=
    assures_mapErr (fun _ => stable_true) (assures_sql (fun _ => stable_true)
      fun _ _ _ => ⟨rfl, trivial, fun _ => trivial⟩)
  exact assures_bind hread (fun _ _ _ => assures_confirmEach) fun _ _ _ _ _ => trivial

/-- The first statement of `sync_chain` selects the messages. -/
theorem next_syncChain {q : Prog World DbError (Except TxPackerError (Option String))} {w' : World}
    (h : Next (syncChain p chain).run w q w') :
    w' = w ∧ ((∃ r, q = .pure r) ∨ unconfirmed p.order chain w.node ≠ [] ∧
      q = (publish p chain ((unconfirmed p.order chain w.node).map MessageRow.itemHash)).run) := by
  have hrun : (syncChain p chain).run = .stmt (fun w => (Except.ok (unconfirmed p.order chain w.node), w))
      (fun r => (mapErr TxPackerError.database (ExceptT.mk (.pure r) : ProgE World DbError DbError _) >>=
        fun messages => if messages.isEmpty then pure none
          else publish p chain (messages.map MessageRow.itemHash)).run) := rfl
  rw [hrun] at h
  cases h with
  | answered f k =>
    refine ⟨rfl, ?_⟩
    by_cases hempty : unconfirmed p.order chain w.node = []
    · refine .inl ⟨.ok none, ?_⟩
      show (if (unconfirmed p.order chain w.node).isEmpty then _ else _ : ProgE World DbError TxPackerError _).run = _
      rw [hempty]
      rfl
    · refine .inr ⟨hempty, ?_⟩
      show (if (unconfirmed p.order chain w.node).isEmpty then _ else _ : ProgE World DbError TxPackerError _).run = _
      rw [if_neg (by simpa using hempty)]
  | refused f k _ e => exact ⟨rfl, .inl ⟨.error (.database e), rfl⟩⟩

end Calls

/-! ### What a run keeps -/

section Runs

variable {p : Packer} {s s' : System} {label : Label}

/-- The batches are apart, and the calls that are under way keep them so. -/
structure Sound (s : System) : Prop where
  batches : Batches s.world
  packing : Assures packing (fun _ _ => True) s.packing s.world
  confirming : Assures confirming (fun _ _ => True) s.confirming s.world

theorem Sound.initial (h : Initial s) : Sound s := by
  have hempty : ∀ t, t ∉ s.world.pendingTxs := by
    rw [h.batches]
    exact Table.not_mem_empty
  obtain ⟨r, hr⟩ := h.packing
  obtain ⟨r', hr'⟩ := h.confirming
  refine ⟨⟨fun t ht => ?_, fun t ht => ?_, fun t ht => ?_⟩, ?_, ?_⟩
  · exact absurd ht (hempty t)
  · exact absurd ht (hempty t)
  · exact absurd ht (hempty t)
  · rw [hr]
    exact assures_pure stable_true trivial
  · rw [hr']
    exact assures_pure stable_true trivial

theorem Sound.step (h : Sound s) (careful : Careful p s label) (hstep : Step p label s s') : Sound s' := by
  cases hstep with
  | sync hnext =>
    obtain ⟨rfl, ⟨r, rfl⟩ | ⟨hne, rfl⟩⟩ := next_syncChain hnext
    · exact ⟨h.batches, assures_pure stable_true trivial, h.confirming⟩
    · refine ⟨h.batches, assures_publish (by rwa [ne_eq, List.map_eq_nil_iff]) fun t ht itemHash hmem => ?_,
        h.confirming⟩
      obtain ⟨m, hm, rfl⟩ := List.mem_map.1 hmem
      exact careful m hm t ht (h.batches.unfinished t ht)
  | pack hnext =>
    obtain ⟨hguar, hrest⟩ := h.packing.next trivial hnext
    exact ⟨hguar h.batches, hrest, h.confirming.rely trivial⟩
  | check hnext =>
    obtain ⟨hguar, hrest⟩ := assures_checkConfirmations.next h.batches hnext
    exact ⟨h.batches.congr hguar, h.packing.rely hguar, hrest⟩
  | confirm hnext =>
    obtain ⟨hguar, hrest⟩ := h.confirming.next h.batches hnext
    exact ⟨h.batches.congr hguar, h.packing.rely hguar, hrest⟩
  | other node => exact ⟨h.batches.congr rfl, h.packing.rely rfl, h.confirming.rely trivial⟩

theorem Sound.of_run (hinitial : Initial s) (run : Run p (Careful p) s s') : Sound s' := by
  induction run with
  | refl => exact .initial hinitial
  | step run careful hstep ih => exact ih.step careful hstep

/-- **Confirmation and batches**: a batch is confirmed, with a row for each of its messages, exactly if it is empty;
and no message is in two batches in flight, wherever careful calls of `sync_chain` lead. -/
theorem confirmation_and_batches (p : Packer) :
    (∀ (c : Confirmer) (w : World) (t : PendingTx) (chain : Chain) (txHash : String), t ∈ w.pendingTxs →
      (Confirms c w t chain txHash ↔ t.itemHashes = [])) ∧
    ∀ s s' : System, Initial s → Run p (Careful p) s s' → NoneTwice s'.world :=
  ⟨fun _ _ _ _ _ ht => confirms_iff ht, fun _ _ hinitial run => (Sound.of_run hinitial run).batches.noneTwice⟩

end Runs

/-! ### Batches in flight -/

section Sample

variable {p : Packer} {guard : System → Label → Prop}

/-- A call that nobody disturbs runs to its end. -/
theorem Run.packs {s : System} {q : Prog World DbError (Except TxPackerError (Option String))} {w w' : World}
    {r : Except TxPackerError (Option String)} (hguard : ∀ t, guard t .pack) (hexec : Exec q w r w')
    (run : Run p guard s ⟨w, q, .pure (.ok 0)⟩) : Run p guard s ⟨w', .pure r, .pure (.ok 0)⟩ := by
  induction hexec with
  | pure a w => exact run
  | @step ρ f k w w' a _ ih => exact ih (run.step (hguard _) (.pack (.answered f k w)))
  | @refused ρ f k w w' a e _ ih => exact ih (run.step (hguard _) (.pack (.refused f k w e)))

theorem Run.syncs {s : System} {chain : Chain} {q : Prog World DbError (Except TxPackerError (Option String))}
    {w : World} (hguard : ∀ t, guard t .pack) (run : Run p guard s ⟨w, q, .pure (.ok 0)⟩)
    (hsync : guard ⟨w, q, .pure (.ok 0)⟩ (.sync chain)) :
    Run p guard s ⟨((syncChain p chain).run.run w).2, .pure ((syncChain p chain).run.run w).1, .pure (.ok 0)⟩ := by
  have hexec := exec_run (syncChain p chain).run w
  cases hcall : (syncChain p chain).run with
  | pure a =>
    have hstmt : (syncChain p chain).run = .stmt (fun w => (Except.ok (unconfirmed p.order chain w.node), w)) _ := rfl
    rw [hstmt] at hcall
    cases hcall
  | stmt f k =>
    rw [hcall] at hexec
    have hfirst : Next (syncChain p chain).run w (k (f w).1) (f w).2 := by
      rw [hcall]
      exact .answered f k w
    have hrest : Exec (k (f w).1) (f w).2 (((Prog.stmt f k).run w).1) (((Prog.stmt f k).run w).2) := exec_run _ _
    exact Run.packs hguard hrest (run.step hsync (.sync hfirst))

def secondHash : ItemHash := "16367aacb67a4a017c8da8ab95682ccb390863780f7114dda0a0e0c55644c7c4"

/-- The texts of arrays of hashes. -/
def hashArray : Json → String
  | .arr hashes => "[" ++ ",".intercalate (hashes.map fun
      | .str s => "\"" ++ s ++ "\""
      | _ => "") ++ "]"
  | _ => ""

/-- The objects of one hash, and the one of both, get their identifiers. -/
def batchPacker : Packer where
  env := samplePacker.env
  order := .stored
  abi := sampleAbi
  jsonText := hashArray
  ipfsAdd content := .ok (
    if content.size = 135 then "QmfMUoYzjM5ikL9sB4xJyqYawmpUx14ZP2vEzAU7vd7vTL"
    else if content.data[2]? = some 0x66 then "QmQ3M6PTakL4wPejTaQgGgYNpbEQdqm5bNZepYSUy4A2jB"
    else "QmPE9LemBXWh1Jj9VBbUFFc21WqnRYjendG5Cfr13GxFyf")
  ethereum := .ok ()
  sendTransaction _ := .ok "0x39eeb1d0a0dd0f2a1a2e4b3f7f6a6b2cf8d2ef6c5a9b7d8e9f0a1b2c3d4e5f60"

/-- The first message is in flight. -/
def oneInFlight : World := ((syncChain batchPacker .eth).run.run sampleWorld).2

def secondRow : MessageRow := { sampleRow with itemHash := secondHash, time := 1700000010 }

/-- Another message has arrived. -/
def arrived (txs : Table ChainTxRow fun t => (t.hash, t.itemHash)) : Node :=
  { oneInFlight.node with messages := oneInFlight.node.messages.insertNew secondRow, chainTxs := txs }

def inFlight (txs : Table ChainTxRow fun t => (t.hash, t.itemHash)) : World :=
  ((syncChain batchPacker .eth).run.run { oneInFlight with node := arrived txs }).2

def batchOf (itemHashes : List ItemHash) (ipfsHash : String) : PendingTx :=
  { itemHashes, ipfsHash, chain := "ETH"
    txHash := some "0x39eeb1d0a0dd0f2a1a2e4b3f7f6a6b2cf8d2ef6c5a9b7d8e9f0a1b2c3d4e5f60"
    status := "submitted" }

def firstBatch : PendingTx := batchOf [sampleHash] "QmQ3M6PTakL4wPejTaQgGgYNpbEQdqm5bNZepYSUy4A2jB"

def bothBatch : PendingTx := batchOf [sampleHash, secondHash] "QmfMUoYzjM5ikL9sB4xJyqYawmpUx14ZP2vEzAU7vd7vTL"

def secondBatch : PendingTx := batchOf [secondHash] "QmPE9LemBXWh1Jj9VBbUFFc21WqnRYjendG5Cfr13GxFyf"

def idle : System := ⟨sampleWorld, .pure (.ok none), .pure (.ok 0)⟩

theorem idle_initial : Initial idle := ⟨rfl, ⟨_, rfl⟩, ⟨_, rfl⟩⟩

/-- Another node has recorded the first message on the chain. -/
def recorded : Table ChainTxRow fun t => (t.hash, t.itemHash) :=
  Table.empty.insertNew
    ⟨"0x5f1e28a1b7a4a2cf5d1a54c3bb6a8f5a1b5d7b7cbe10d97a3a0f5f1c2a1b3c4d", "ETH", 19000000, sampleHash⟩

/-- The batches after the first call and after a second one, without and with the other node's transaction. -/
theorem inFlight_rows : oneInFlight.pendingTxs.rows = [firstBatch] ∧
    (inFlight .empty).pendingTxs.rows = [firstBatch, bothBatch] ∧
    (inFlight recorded).pendingTxs.rows = [firstBatch, secondBatch] ∧
    (unconfirmed batchPacker.order .eth (arrived recorded)).map MessageRow.itemHash = [secondHash] := by
  decide +kernel

/-- Two calls of `sync_chain`, with a message that arrives and perhaps a transaction between them. -/
theorem run_twice {txs : Table ChainTxRow fun t => (t.hash, t.itemHash)} (hpack : ∀ t, guard t .pack)
    (hother : ∀ t, guard t .other) (hfirst : guard idle (.sync .eth))
    (hsecond : ∀ q, guard ⟨{ oneInFlight with node := arrived txs }, q, .pure (.ok 0)⟩ (.sync .eth)) :
    ∃ s, Run batchPacker guard idle s ∧ s.world = inFlight txs := by
  have hone := Run.syncs (p := batchPacker) hpack .refl hfirst
  have harrived := hone.step (hother _) (.other (arrived txs))
  exact ⟨_, Run.syncs hpack harrived (hsecond _), rfl⟩

/-- The batches of the two calls are apart when the first message has been recorded in between. -/
theorem batches_apart :
    (∀ chain txHash, ¬ Confirms ⟨.stored, String.toUpper, none⟩ oneInFlight firstBatch chain txHash) ∧
      (inFlight recorded).pendingTxs.rows = [firstBatch, secondBatch] ∧ NoneTwice (inFlight recorded) := by
  refine ⟨fun chain txHash h => ?_, inFlight_rows.2.2.1, ?_⟩
  · have hmem : firstBatch ∈ oneInFlight.pendingTxs := by
      rw [Table.mem_def, inFlight_rows.1]
      exact List.mem_cons_self
    have hempty := ((confirmation_and_batches batchPacker).1 _ _ _ chain txHash hmem).1 h
    cases hempty
  · have hsecond : ∀ q, Careful batchPacker ⟨{ oneInFlight with node := arrived recorded }, q, .pure (.ok 0)⟩
        (.sync .eth) := by
      intro q m hm t ht _ hmem
      have hsecond : m.itemHash ∈ [secondHash] := by
        rw [← inFlight_rows.2.2.2]
        exact List.mem_map_of_mem hm
      replace ht : t ∈ oneInFlight.pendingTxs.rows := ht
      rw [inFlight_rows.1, List.mem_singleton] at ht
      rw [List.mem_singleton.1 hsecond, ht] at hmem
      exact absurd (List.mem_singleton.1 hmem) (by decide +kernel)
    obtain ⟨s, hrun, hs⟩ := run_twice (fun _ => trivial) (fun _ => trivial)
      (fun m _ t ht => absurd ht (Table.not_mem_empty t)) hsecond
    rw [← hs]
    exact (confirmation_and_batches batchPacker).2 idle s idle_initial hrun

/-- A receipt says that the transaction has succeeded in block 19000000. -/
def confirmer : Confirmer where
  order := .stored
  toUppercase := String.toUpper
  provider := some ⟨.ok, fun _ => .ok (some ⟨some 1, some 19000000⟩), fun _ => .ok (some ⟨some 1, some 19000000⟩)⟩

/-- A confirmed transaction confirms no batch; and the next call selects the message in flight once more. -/
theorem unconfirmed_and_twice :
    (∃ w t txHash, t ∈ w.pendingTxs ∧ t.txHash = some txHash ∧ isConfirmed confirmer .eth txHash = true ∧
      ¬ Confirms confirmer w t .eth txHash) ∧
    ∃ s s', Initial s ∧ Run batchPacker (fun _ _ => True) s s' ∧ ¬ NoneTwice s'.world := by
  constructor
  · have hmem : firstBatch ∈ oneInFlight.pendingTxs := by
      rw [Table.mem_def, inFlight_rows.1]
      exact List.mem_cons_self
    refine ⟨oneInFlight, firstBatch, _, hmem, rfl, rfl, fun h => ?_⟩
    cases (confirms_iff hmem).1 h
  · obtain ⟨s, hrun, hs⟩ := @run_twice (fun _ _ => True) .empty (fun _ => trivial) (fun _ => trivial) trivial
      fun _ => trivial
    refine ⟨idle, s, idle_initial, hrun, fun h => ?_⟩
    rw [hs] at h
    have hfirst : firstBatch ∈ (inFlight .empty).pendingTxs := by
      rw [Table.mem_def, inFlight_rows.2.1]
      exact List.mem_cons_self
    have hboth : bothBatch ∈ (inFlight .empty).pendingTxs := by
      rw [Table.mem_def, inFlight_rows.2.1]
      exact List.mem_cons_of_mem _ List.mem_cons_self
    have hne : firstBatch ≠ bothBatch := by
      intro h
      have hlength : 1 = 2 := congrArg (fun t => t.itemHashes.length) h
      omega
    exact h _ hfirst _ hboth (.inr rfl) (.inr rfl) hne sampleHash List.mem_cons_self List.mem_cons_self

end Sample

end AlephCore.TxPacker
