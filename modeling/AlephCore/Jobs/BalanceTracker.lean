import AlephCore.Db.Schema
import AlephCore.Env
import AlephCore.Lib.Bytes
import AlephCore.Lib.Faults
import AlephCore.Lib.FixedDecimal
import Mathlib.Data.List.Dedup

/-!
# BalanceTracker — the job that follows the token balances

Mirrors `jobs/balance_tracker.rs`: for every address with a program, an instance or a file, and every
enabled chain, the node asks the token contract for the balance and stores what it makes of the answer.
The bytes of an answer become an integer, its digits a decimal, and that is divided by `10^18`.
-/

namespace AlephCore.BalanceTracker

open ProgE Bytes

/-! ## What the job needs to know -/

/-- The part of a chain's configuration the job reads. -/
structure ChainConfig where
  enabled : Bool
  rpcUrl : String

structure Config where
  ethereum : Option ChainConfig
  avalanche : Option ChainConfig

/-- Ethereum addresses, of 20 bytes. -/
abbrev EthAddress := List UInt8

/-- Libraries, the chains' nodes and what SQL leaves open. -/
structure TrackerEnv where
  order : SqlOrder
  /-- `Provider::<Http>::try_from`. -/
  provider : String → Except String Unit
  /-- `parse::<EthAddress>`. -/
  parseAddress : String → Except String EthAddress
  /-- `provider.call`: what the node at the URL answers when the turn of the holder comes, to a call of the
  token contract with these data. -/
  call : String → String → Address → List UInt8 → Except String (List UInt8)
  /-- A stored number as a decimal. -/
  decodeDecimal : ℚ → Except DbError ℚ
  /-- The difference of two decimals, unless it overflows. -/
  sub : ℚ → ℚ → Option ℚ
  /-- A quotient that no decimal equals. -/
  roundQuotient : FixedDecimal → FixedDecimal → Option FixedDecimal

inductive BalanceError where
  | database (e : String)
  | rpc (e : String)
  | parse (e : String)

/-- How the job ends early: with an error, or with a panic. -/
inductive Stop where
  | error (e : BalanceError)
  | panic (text : String)

inductive BalanceChange where
  | increased (address : Address) (chain : Chain) (amount : ℚ)
  | decreased (address : Address) (chain : Chain) (amount : ℚ)
  | belowThreshold (address : Address) (chain : Chain) (balance : ℚ)

/-- The database, and the rows of `balances` written so far. -/
structure Ledger where
  node : Node
  written : List BalanceRow

abbrev Tracking (α : Type) := ProgE Ledger DbError Stop α

/-- Report an error of the database. -/
def database {α : Type} (p : ProgE Ledger DbError DbError α) : Tracking α :=
  mapErr (fun e => .error (.database e)) p

/-! ## From bytes to a balance -/

/-- `U256::from_big_endian`: panics on more than 32 bytes. -/
def u256FromBigEndian (bytes : List UInt8) : Option Nat :=
  if bytes.length ≤ 32 then some (bigEndian bytes) else none

theorem divisor_lt : 10 ^ 18 < 2 ^ 96 := by omega

theorem divisor_scale : 0 ≤ 28 := by omega

/-- `dec!(1_000_000_000_000_000_000)`. -/
def divisor : FixedDecimal := ⟨10 ^ 18, 0, divisor_lt, divisor_scale⟩

/-- The digits of the integer as a decimal, zero if that fails, over `10^18`. -/
def weiToDecimal (env : TrackerEnv) (wei : Nat) : Option FixedDecimal :=
  ((FixedDecimal.ofDigits (Nat.toDigits 10 wei)).getD .zero).div env.roundQuotient divisor

/-- `balanceOf(address)`: the selector `70a08231` and the address padded to 32 bytes. -/
def buildBalanceOfCall (address : EthAddress) : List UInt8 :=
  [0x70, 0xa0, 0x82, 0x31] ++ List.replicate 12 0 ++ address

/-- What the token contract answers for a holder. -/
def balanceOf (env : TrackerEnv) (rpcUrl tokenAddress : String) (holderAddress : Address) :
    Except BalanceError (List UInt8) := do
  let holder ← (env.parseAddress holderAddress).mapError fun e => .parse s!"Invalid address: {e}"
  (env.call rpcUrl tokenAddress holderAddress (buildBalanceOfCall holder)).mapError .rpc

/-- The balance of a holder; nothing if the conversion panics. -/
def getErc20Balance (env : TrackerEnv) (rpcUrl tokenAddress : String) (holderAddress : Address) :
    Option (Except BalanceError FixedDecimal) :=
  match balanceOf env rpcUrl tokenAddress holderAddress with
  | .error e => some (.error e)
  | .ok result => (u256FromBigEndian result).bind fun wei => (weiToDecimal env wei).map .ok

/-! ## Storing a balance -/

/-- `SELECT balance FROM balances`, as a decimal. -/
def selectBalance (env : TrackerEnv) (address : Address) (chain : Chain) :
    ProgE Ledger DbError DbError (Option ℚ) :=
  sql fun l =>
    match l.node.balances.find? (address, chain.toString) with
    | none => (.ok none, l)
    | some row => ((env.decodeDecimal row.balance).map some, l)

/-- `INSERT INTO balances … ON CONFLICT (address, chain) DO UPDATE SET balance`. -/
def writeBalance (row : BalanceRow) (l : Ledger) : Ledger where
  node := { l.node with
    balances := l.node.balances.upsert row fun old => { old with balance := row.balance } }
  written := l.written ++ [row]

/-- A change by more than this is reported. -/
def changeThreshold : ℚ := 1 / 10

/-- A balance that falls below this is reported. -/
def minBalanceThreshold : ℚ := 1

/-- A balance that rose or fell. -/
def changeOf (address : Address) (chain : Chain) (diff : ℚ) : Option BalanceChange :=
  if changeThreshold < diff then some (.increased address chain diff)
  else if diff < -changeThreshold then some (.decreased address chain |diff|)
  else none

/-- What is reported of a new balance; nothing if the difference overflows. -/
def detectChange (env : TrackerEnv) (address : Address) (chain : Chain) (balance : ℚ) (previous : Option ℚ) :
    Option (Option BalanceChange) :=
  let change := match previous with
    | none => some none
    | some prevBalance => (env.sub balance prevBalance).map (changeOf address chain)
  change.map fun change =>
    if balance < minBalanceThreshold ∧ (previous.map fun p => decide (minBalanceThreshold ≤ p)).getD true then
      some (.belowThreshold address chain balance)
    else change

/-- Store a balance, and report its change. -/
def updateBalance (env : TrackerEnv) (address : Address) (chain : Chain) (balance : ℚ) :
    Tracking (Option BalanceChange) := do
  let previous ← database (selectBalance env address chain)
  database (execute (writeBalance { address, chain := chain.toString, balance }))
  fromExcept ((detectChange env address chain balance previous).elim
    (.error (.panic "Subtraction overflowed")) .ok)

/-! ## The job -/

/-- The owners of programs, instances and files, each once, up to 1000 of them. -/
def activeAddresses (order : SqlOrder) (n : Node) : List Address :=
  (order.scan (n.programs.rows.map ProgramRow.owner ++ n.instances.rows.map InstanceRow.owner ++
    n.filePins.rows.map FilePinRecord.owner).dedup).take 1000

/-- Address after address; one whose balance cannot be had is skipped. -/
def updateAddresses (env : TrackerEnv) (chain : Chain) (rpcUrl tokenAddress : String) :
    List Address → Tracking (List (Option BalanceChange))
  | [] => pure []
  | address :: addresses =>
    match getErc20Balance env rpcUrl tokenAddress address with
    | none => throw (.panic "from_big_endian")
    | some (.error _) => updateAddresses env chain rpcUrl tokenAddress addresses
    | some (.ok balance) => do
      let change ← updateBalance env address chain balance.value
      let changes ← updateAddresses env chain rpcUrl tokenAddress addresses
      pure (change :: changes)

/-- The URL at which a chain is asked, if it is configured and enabled. -/
def connect (env : TrackerEnv) (chainConfig : Option ChainConfig) : Except Stop (Option String) :=
  match chainConfig with
  | none => .ok none
  | some c =>
    if c.enabled then ((env.provider c.rpcUrl).map fun _ => some c.rpcUrl).mapError fun e => .error (.rpc e)
    else .ok none

/-- The balances on one chain. -/
def updateChain (env : TrackerEnv) (chain : Chain) (tokenAddress : String) (chainConfig : Option ChainConfig)
    (addresses : List Address) : Tracking (List (Option BalanceChange)) := do
  match ← fromExcept (connect env chainConfig) with
  | none => pure []
  | some rpcUrl => updateAddresses env chain rpcUrl tokenAddress addresses

def ethToken : String := "0x27702a26126e0B3702af63Ee09aC4d1A084EF628"

def avaxToken : String := "0xc0Fbc4967259786C743361a5885ef49380473dCF"

/-- Update all tracked balances; the result is how many were stored. -/
def updateBalances (env : TrackerEnv) (config : Config) : Tracking Nat := do
  let addresses ← database (query fun l => activeAddresses env.order l.node)
  if addresses.isEmpty then pure 0
  else do
    let eth ← updateChain env .eth ethToken config.ethereum addresses
    let avax ← updateChain env .avax avaxToken config.avalanche addresses
    pure (eth.length + avax.length)

/-! ## What should be written -/

/-- The balance a 32-byte answer stands for, if a decimal can hold it. -/
def exactBalance (result : List UInt8) : Option ℚ :=
  if result.length = 32 ∧ bigEndian result < 2 ^ 96 then some (bigEndian result / 10 ^ 18) else none

/-- A question to a token contract. -/
structure Question where
  chain : Chain
  rpcUrl : String
  tokenAddress : String
  holder : Address

namespace Question

variable (env : TrackerEnv) (q : Question)

def answer : Except BalanceError (List UInt8) := balanceOf env q.rpcUrl q.tokenAddress q.holder

def row (balance : ℚ) : BalanceRow := { address := q.holder, chain := q.chain.toString, balance }

/-- The row that should be written for the answer. -/
def exactRow : Option BalanceRow :=
  match q.answer env with
  | .error _ => none
  | .ok result => (exactBalance result).map q.row

/-- The balance stored before, as a decimal. -/
def previous (n : Node) : Except DbError (Option ℚ) :=
  match n.balances.find? (q.holder, q.chain.toString) with
  | none => .ok none
  | some row => (env.decodeDecimal row.balance).map some

end Question

/-- The questions about the addresses on one chain. -/
def questionsOf (chain : Chain) (rpcUrl tokenAddress : String) (addresses : List Address) : List Question :=
  addresses.map fun holder => { chain, rpcUrl, tokenAddress, holder }

/-- The questions on one chain, if it is configured and enabled and its provider can be had. -/
def askedOn (env : TrackerEnv) (chain : Chain) (tokenAddress : String) (chainConfig : Option ChainConfig)
    (addresses : List Address) : List Question :=
  match connect env chainConfig with
  | .ok (some rpcUrl) => questionsOf chain rpcUrl tokenAddress addresses
  | _ => []

/-- All questions; without the first provider the job ends before the second. -/
def asked (env : TrackerEnv) (config : Config) (n : Node) : List Question :=
  match connect env config.ethereum with
  | .error _ => []
  | .ok _ =>
    askedOn env .eth ethToken config.ethereum (activeAddresses env.order n) ++
      askedOn env .avax avaxToken config.avalanche (activeAddresses env.order n)

/-- Both providers, one after the other. -/
def connectAll (env : TrackerEnv) (config : Config) : Except Stop Unit := do
  let _ ← connect env config.ethereum
  let _ ← connect env config.avalanche
  pure ()

/-- Write rows one after another. -/
def writeAll (rows : List BalanceRow) (l : Ledger) : Ledger := rows.foldl (fun l row => writeBalance row l) l

/-- **Exact or untouched**: the job writes the exact balance for every question that was answered by 32 bytes a
decimal can hold, in order, and nothing else; it ends early only for want of a provider. -/
def ExactOrUntouched (env : TrackerEnv) (config : Config) (n : Node) : Prop :=
  let rows := (asked env config n).filterMap (Question.exactRow env)
  (updateBalances env config).run.run ⟨n, []⟩ =
    (if (activeAddresses env.order n).isEmpty then .ok 0 else (connectAll env config).map fun _ => rows.length,
      writeAll rows ⟨n, []⟩)

/-- The answer is 32 bytes, a decimal holds the integer, and the stored balance can be read and compared with it. -/
structure Sound (env : TrackerEnv) (n : Node) (q : Question) (result : List UInt8) : Prop where
  length : result.length = 32
  fits : bigEndian result < 2 ^ 96
  comparable : ∃ p, q.previous env n = .ok p ∧
    ∀ prev, p = some prev → (env.sub (bigEndian result / 10 ^ 18) prev).isSome

/-! ## The conversion -/

variable {env : TrackerEnv}

/-- What the job makes of the bytes of an answer. -/
def worth (result : List UInt8) : ℚ := if bigEndian result < 2 ^ 96 then bigEndian result / 10 ^ 18 else 0

theorem value_divisor : divisor.value = 10 ^ 18 := by
  show ((10 ^ 18 : ℕ) : ℚ) / 10 ^ 0 = 10 ^ 18
  rw [pow_zero, div_one]
  norm_num

/-- **The conversion is exact below `2^96` and gives zero from there on.** -/
theorem weiToDecimal_value (env : TrackerEnv) (wei : Nat) :
    ∃ d, weiToDecimal env wei = some d ∧ d.value = if wei < 2 ^ 96 then (wei : ℚ) / 10 ^ 18 else 0 := by
  have hdivisor : divisor.mantissa ≠ 0 := by decide
  unfold weiToDecimal
  rw [FixedDecimal.ofDigits_toDigits]
  by_cases hwei : wei < 2 ^ 96
  · rw [dif_pos hwei, if_pos hwei, Option.getD_some]
    have hquotient : (⟨wei, 18, hwei, by omega⟩ : FixedDecimal).value * divisor.value =
        (⟨wei, 0, hwei, by omega⟩ : FixedDecimal).value := by
      rw [value_divisor]
      unfold FixedDecimal.value
      rw [pow_zero, div_one, div_mul_cancel₀ _ (by norm_num)]
    obtain ⟨d, hd, hvalue⟩ := FixedDecimal.div_exact env.roundQuotient hdivisor hquotient
    refine ⟨d, hd, ?_⟩
    rw [hvalue, value_divisor]
    unfold FixedDecimal.value
    rw [pow_zero, div_one]
  · rw [dif_neg hwei, if_neg hwei, Option.getD_none]
    have hquotient : FixedDecimal.zero.value * divisor.value = FixedDecimal.zero.value := by
      simp [FixedDecimal.value, FixedDecimal.zero]
    obtain ⟨d, hd, hvalue⟩ := FixedDecimal.div_exact env.roundQuotient hdivisor hquotient
    refine ⟨d, hd, ?_⟩
    rw [hvalue]
    simp [FixedDecimal.value, FixedDecimal.zero]

/-- The row the job writes for the answer, if it gets that far. -/
def Question.storedRow (env : TrackerEnv) (q : Question) : Option BalanceRow :=
  match q.answer env with
  | .error _ => none
  | .ok result => if result.length ≤ 32 then some (q.row (worth result)) else none

/-- The job gets past the question: the answer is no longer than 32 bytes, and what it makes of it can be compared
with the stored balance. -/
def Passes (env : TrackerEnv) (n : Node) (q : Question) : Prop :=
  ∀ result, q.answer env = .ok result → result.length ≤ 32 ∧
    ∃ p, q.previous env n = .ok p ∧ ∀ prev, p = some prev → (env.sub (worth result) prev).isSome

theorem worth_of_fits {result : List UInt8} (h : bigEndian result < 2 ^ 96) :
    worth result = bigEndian result / 10 ^ 18 := if_pos h

theorem getErc20Balance_error {q : Question} {e : BalanceError} (h : q.answer env = .error e) :
    getErc20Balance env q.rpcUrl q.tokenAddress q.holder = some (.error e) := by
  have hanswer : balanceOf env q.rpcUrl q.tokenAddress q.holder = .error e := h
  rw [getErc20Balance, hanswer]

theorem getErc20Balance_ok {q : Question} {result : List UInt8} (h : q.answer env = .ok result)
    (hlength : result.length ≤ 32) :
    ∃ d, getErc20Balance env q.rpcUrl q.tokenAddress q.holder = some (.ok d) ∧ d.value = worth result := by
  have hanswer : balanceOf env q.rpcUrl q.tokenAddress q.holder = .ok result := h
  obtain ⟨d, hd, hvalue⟩ := weiToDecimal_value env (bigEndian result)
  refine ⟨d, ?_, hvalue⟩
  rw [getErc20Balance, hanswer]
  show (u256FromBigEndian result).bind _ = _
  rw [u256FromBigEndian, if_pos hlength, Option.bind_some, hd]
  rfl

theorem getErc20Balance_long {q : Question} {result : List UInt8} (h : q.answer env = .ok result)
    (hlength : ¬ result.length ≤ 32) : getErc20Balance env q.rpcUrl q.tokenAddress q.holder = none := by
  have hanswer : balanceOf env q.rpcUrl q.tokenAddress q.holder = .ok result := h
  rw [getErc20Balance, hanswer]
  show (u256FromBigEndian result).bind _ = _
  rw [u256FromBigEndian, if_neg hlength, Option.bind_none]

/-! ## One address -/

/-- An end the database or a panic brings about. -/
def Stop.fatal : Stop → Bool
  | .error (.database _) => true
  | .panic _ => true
  | _ => false

theorem detectChange_isSome (address : Address) (chain : Chain) {balance : ℚ} {previous : Option ℚ} :
    (detectChange env address chain balance previous).isSome ↔
      ∀ prev, previous = some prev → (env.sub balance prev).isSome := by
  cases previous with
  | none => simp [detectChange]
  | some prev => simp [detectChange]

theorem run_database {α : Type} {p : ProgE Ledger DbError DbError α} {l l' : Ledger} {r : Except DbError α}
    (h : p.run.run l = (r, l')) :
    (database p).run.run l = (r.mapError fun e => .error (.database e), l') := by
  rw [database, run_mapErr, h]

theorem run_selectBalance (env : TrackerEnv) (q : Question) (l : Ledger) :
    (selectBalance env q.holder q.chain).run.run l = (q.previous env l.node, l) := by
  rw [selectBalance, run_sql, Question.previous]
  cases l.node.balances.find? (q.holder, q.chain.toString) <;> rfl

/-- A balance that can be compared is stored. -/
theorem run_updateBalance {q : Question} {l : Ledger} {balance : ℚ} {p : Option ℚ}
    (hp : q.previous env l.node = .ok p) (hsub : ∀ prev, p = some prev → (env.sub balance prev).isSome) :
    ∃ change, (updateBalance env q.holder q.chain balance).run.run l =
      (.ok change, writeBalance (q.row balance) l) := by
  obtain ⟨change, hchange⟩ := Option.isSome_iff_exists.1
    ((detectChange_isSome q.holder q.chain).2 hsub)
  refine ⟨change, ?_⟩
  unfold updateBalance
  have hselect := run_database (run_selectBalance env q l)
  rw [hp] at hselect
  rw [run_bind_ok hselect, run_bind_ok (run_database (run_execute _ _)), hchange]
  rfl

/-- One that cannot be compared ends the job. -/
theorem run_updateBalance_stops {q : Question} {l : Ledger} {balance : ℚ}
    (h : ¬ ∃ p, q.previous env l.node = .ok p ∧ ∀ prev, p = some prev → (env.sub balance prev).isSome) :
    ∃ stop l', (updateBalance env q.holder q.chain balance).run.run l = (.error stop, l') ∧
      stop.fatal = true := by
  unfold updateBalance
  have hselect := run_database (run_selectBalance env q l)
  cases hp : q.previous env l.node with
  | error e =>
    rw [hp] at hselect
    exact ⟨_, _, run_bind_error hselect, rfl⟩
  | ok p =>
    rw [hp] at hselect
    have hnone : detectChange env q.holder q.chain balance p = none := by
      by_contra hsome
      exact h ⟨p, hp, (detectChange_isSome q.holder q.chain).1 (Option.isSome_iff_ne_none.2 hsome)⟩
    rw [run_bind_ok hselect, run_bind_ok (run_database (run_execute _ _)), hnone]
    exact ⟨_, _, rfl, rfl⟩

/-! ## Many addresses -/

theorem previous_writeBalance {q : Question} {row : BalanceRow} {l : Ledger}
    (h : (row.address, row.chain) ≠ (q.holder, q.chain.toString)) :
    q.previous env (writeBalance row l).node = q.previous env l.node := by
  unfold Question.previous
  have hfind : (writeBalance row l).node.balances.find? (q.holder, q.chain.toString) =
      l.node.balances.find? (q.holder, q.chain.toString) := by
    show (l.node.balances.upsert row _).find? _ = _
    rw [Table.find?_upsert, if_neg h]
  rw [hfind]

theorem previous_writeAll {q : Question} {rows : List BalanceRow} {l : Ledger}
    (h : ∀ row ∈ rows, (row.address, row.chain) ≠ (q.holder, q.chain.toString)) :
    q.previous env (writeAll rows l).node = q.previous env l.node := by
  induction rows generalizing l with
  | nil => rfl
  | cons row rows ih =>
    have hrest : q.previous env (writeAll rows (writeBalance row l)).node = _ :=
      ih fun r hr => h r (List.mem_cons_of_mem _ hr)
    exact hrest.trans (previous_writeBalance (h row List.mem_cons_self))

theorem written_writeAll (rows : List BalanceRow) (l : Ledger) :
    (writeAll rows l).written = l.written ++ rows := by
  induction rows generalizing l with
  | nil => exact (List.append_nil _).symm
  | cons row rows ih =>
    have hrest : (writeAll rows (writeBalance row l)).written = _ := ih _
    refine hrest.trans ?_
    show l.written ++ [row] ++ rows = _
    rw [List.append_assoc, List.singleton_append]

theorem writeAll_append (rows rows' : List BalanceRow) (l : Ledger) :
    writeAll (rows ++ rows') l = writeAll rows' (writeAll rows l) := List.foldl_append ..

/-- A stored row is kept under the question's holder and chain. -/
theorem key_of_storedRow {q : Question} {row : BalanceRow} (h : q.storedRow env = some row) :
    (row.address, row.chain) = (q.holder, q.chain.toString) := by
  unfold Question.storedRow at h
  cases hanswer : q.answer env with
  | error e => simp [hanswer] at h
  | ok result =>
    simp only [hanswer] at h
    split_ifs at h
    rw [← Option.some.inj h]
    rfl

theorem passes_congr {q : Question} {n n' : Node} (h : q.previous env n' = q.previous env n) :
    Passes env n' q ↔ Passes env n q := by
  unfold Passes
  rw [h]

section Loop

variable {chain : Chain} {rpcUrl tokenAddress : String}

/-- What becomes of the first address. -/
theorem run_updateAddresses_cons (q : Question) (addresses : List Address) {l : Ledger}
    (hpass : Passes env l.node q) :
    (∃ d change, q.storedRow env = some (q.row d) ∧
      (updateAddresses env q.chain q.rpcUrl q.tokenAddress (q.holder :: addresses)).run.run l =
        (updateAddresses env q.chain q.rpcUrl q.tokenAddress addresses >>= fun changes =>
          pure (change :: changes)).run.run (writeBalance (q.row d) l)) ∨
    q.storedRow env = none ∧
      (updateAddresses env q.chain q.rpcUrl q.tokenAddress (q.holder :: addresses)).run.run l =
        (updateAddresses env q.chain q.rpcUrl q.tokenAddress addresses).run.run l := by
  cases hanswer : q.answer env with
  | error e =>
    refine .inr ⟨by rw [Question.storedRow, hanswer], ?_⟩
    rw [updateAddresses, getErc20Balance_error hanswer]
  | ok result =>
    obtain ⟨hlength, p, hp, hsub⟩ := hpass result hanswer
    obtain ⟨d, hd, hvalue⟩ := getErc20Balance_ok hanswer hlength
    rw [← hvalue] at hsub
    obtain ⟨change, hchange⟩ := run_updateBalance hp hsub
    refine .inl ⟨worth result, change, by rw [Question.storedRow, hanswer]; exact if_pos hlength, ?_⟩
    rw [updateAddresses, hd, ← hvalue]
    exact run_bind_ok hchange

/-- A question the job does not get past ends it. -/
theorem run_updateAddresses_stops_cons {q : Question} {addresses : List Address} {l : Ledger}
    (hpass : ¬ Passes env l.node q) :
    ∃ stop l', (updateAddresses env q.chain q.rpcUrl q.tokenAddress (q.holder :: addresses)).run.run l =
      (.error stop, l') ∧ stop.fatal = true := by
  unfold Passes at hpass
  push Not at hpass
  obtain ⟨result, hanswer, hstop⟩ := hpass
  by_cases hlength : result.length ≤ 32
  · obtain ⟨d, hd, hvalue⟩ := getErc20Balance_ok hanswer hlength
    have hnot : ¬ ∃ p, q.previous env l.node = .ok p ∧ ∀ prev, p = some prev → (env.sub d.value prev).isSome := by
      rintro ⟨p, hp, hsub⟩
      rw [hvalue] at hsub
      obtain ⟨prev, hprev, hnone⟩ := hstop hlength p hp
      exact hnone (hsub prev hprev)
    obtain ⟨stop, l', hrun, hfatal⟩ := run_updateBalance_stops hnot
    refine ⟨stop, l', ?_, hfatal⟩
    rw [updateAddresses, hd]
    exact run_bind_error hrun
  · refine ⟨.panic "from_big_endian", l, ?_, rfl⟩
    rw [updateAddresses, getErc20Balance_long hanswer hlength]
    rfl

/-- Another address on the chain is not affected by the row of this one. -/
theorem passes_writeBalance {q : Question} (row : BalanceRow) {l : Ledger} {holder : Address}
    (hrow : row.address = holder) (hne : q.holder ≠ holder) :
    Passes env (writeBalance row l).node q ↔ Passes env l.node q := by
  refine passes_congr (previous_writeBalance fun hkey => hne ?_)
  rw [← hrow]
  exact (congrArg Prod.fst hkey).symm

/-- **If the job gets past every question, it stores their rows in order.** -/
theorem run_updateAddresses {addresses : List Address} {l : Ledger} (hnodup : addresses.Nodup)
    (hpass : ∀ q ∈ questionsOf chain rpcUrl tokenAddress addresses, Passes env l.node q) :
    ∃ changes, (updateAddresses env chain rpcUrl tokenAddress addresses).run.run l =
        (.ok changes, writeAll ((questionsOf chain rpcUrl tokenAddress addresses).filterMap
          (Question.storedRow env)) l) ∧
      changes.length = ((questionsOf chain rpcUrl tokenAddress addresses).filterMap
        (Question.storedRow env)).length := by
  induction addresses generalizing l with
  | nil => exact ⟨[], rfl, rfl⟩
  | cons holder addresses ih =>
    obtain ⟨hnotin, hnodup'⟩ := List.nodup_cons.1 hnodup
    let q : Question := { chain, rpcUrl, tokenAddress, holder }
    have hrest : ∀ q' ∈ questionsOf chain rpcUrl tokenAddress addresses, Passes env l.node q' :=
      fun q' hq' => hpass q' (List.mem_cons_of_mem _ hq')
    have hne : ∀ q' ∈ questionsOf chain rpcUrl tokenAddress addresses, q'.holder ≠ holder := by
      intro q' hq'
      obtain ⟨a, ha, rfl⟩ := List.mem_map.1 hq'
      rintro rfl
      exact hnotin ha
    rcases run_updateAddresses_cons q addresses (hpass q List.mem_cons_self) with
      ⟨d, change, hrow, hrun⟩ | ⟨hrow, hrun⟩
    · obtain ⟨changes, hchanges, hlen⟩ := ih hnodup' fun q' hq' =>
        (passes_writeBalance (q.row d) rfl (hne q' hq')).2 (hrest q' hq')
      refine ⟨change :: changes, ?_, ?_⟩
      · refine hrun.trans ((run_bind_ok hchanges).trans ?_)
        show _ = (_, writeAll (List.filterMap _ (q :: _)) l)
        rw [List.filterMap_cons_some hrow]
        rfl
      · show _ = (List.filterMap _ (q :: _)).length
        rw [List.filterMap_cons_some hrow, List.length_cons, List.length_cons, hlen]
        rfl
    · obtain ⟨changes, hchanges, hlen⟩ := ih hnodup' hrest
      refine ⟨changes, ?_, ?_⟩
      · refine hrun.trans (hchanges.trans ?_)
        show _ = (_, writeAll (List.filterMap _ (q :: _)) l)
        rw [List.filterMap_cons_none hrow]
        rfl
      · show _ = (List.filterMap _ (q :: _)).length
        rw [List.filterMap_cons_none hrow, hlen]
        rfl

/-- **A question the job does not get past ends it, whatever comes before.** -/
theorem run_updateAddresses_stops {addresses : List Address} {l : Ledger} (hnodup : addresses.Nodup)
    (hpass : ∃ q ∈ questionsOf chain rpcUrl tokenAddress addresses, ¬ Passes env l.node q) :
    ∃ stop l', (updateAddresses env chain rpcUrl tokenAddress addresses).run.run l = (.error stop, l') ∧
      stop.fatal = true := by
  induction addresses generalizing l with
  | nil =>
    obtain ⟨q, hq, -⟩ := hpass
    exact absurd hq List.not_mem_nil
  | cons holder addresses ih =>
    obtain ⟨hnotin, hnodup'⟩ := List.nodup_cons.1 hnodup
    let q : Question := { chain, rpcUrl, tokenAddress, holder }
    by_cases hq : Passes env l.node q
    · obtain ⟨q', hq', hstop⟩ := hpass
      have hq'mem : q' ∈ questionsOf chain rpcUrl tokenAddress addresses := by
        rcases List.mem_cons.1 hq' with rfl | hq'
        · exact absurd hq hstop
        · exact hq'
      have hne : q'.holder ≠ holder := by
        obtain ⟨a, ha, rfl⟩ := List.mem_map.1 hq'mem
        rintro rfl
        exact hnotin ha
      rcases run_updateAddresses_cons q addresses hq with
        ⟨d, change, -, hrun⟩ | ⟨-, hrun⟩
      · obtain ⟨stop, l', hstops, hfatal⟩ := ih hnodup'
          ⟨q', hq'mem, fun h => hstop ((passes_writeBalance (q.row d) rfl hne).1 h)⟩
        exact ⟨stop, l', hrun.trans (run_bind_error hstops), hfatal⟩
      · obtain ⟨stop, l', hstops, hfatal⟩ := ih hnodup' ⟨q', hq'mem, hstop⟩
        exact ⟨stop, l', hrun.trans hstops, hfatal⟩
    · exact run_updateAddresses_stops_cons (q := q) hq

end Loop

/-! ## Both chains -/

section Chains

variable {chain : Chain} {tokenAddress : String} {chainConfig : Option ChainConfig} {addresses : List Address}
  {l : Ledger}

theorem connect_not_fatal {stop : Stop} (h : connect env chainConfig = .error stop) : stop.fatal = false := by
  unfold connect at h
  cases chainConfig with
  | none => simp at h
  | some c =>
    dsimp only at h
    split_ifs at h
    cases hprovider : env.provider c.rpcUrl with
    | error e =>
      rw [hprovider] at h
      cases h
      rfl
    | ok u =>
      rw [hprovider] at h
      cases h

theorem run_updateChain_refused {stop : Stop} (h : connect env chainConfig = .error stop) :
    (updateChain env chain tokenAddress chainConfig addresses).run.run l = (.error stop, l) := by
  unfold updateChain
  rw [h]
  rfl

theorem run_updateChain {url : Option String} (hconnect : connect env chainConfig = .ok url)
    (hnodup : addresses.Nodup)
    (hpass : ∀ q ∈ askedOn env chain tokenAddress chainConfig addresses, Passes env l.node q) :
    ∃ changes, (updateChain env chain tokenAddress chainConfig addresses).run.run l =
        (.ok changes, writeAll ((askedOn env chain tokenAddress chainConfig addresses).filterMap
          (Question.storedRow env)) l) ∧
      changes.length = ((askedOn env chain tokenAddress chainConfig addresses).filterMap
        (Question.storedRow env)).length := by
  unfold askedOn at hpass ⊢
  unfold updateChain
  rw [hconnect] at hpass ⊢
  cases url with
  | none => exact ⟨[], rfl, rfl⟩
  | some rpcUrl => exact run_updateAddresses hnodup hpass

theorem run_updateChain_stops (hnodup : addresses.Nodup)
    (hpass : ∃ q ∈ askedOn env chain tokenAddress chainConfig addresses, ¬ Passes env l.node q) :
    ∃ stop l', (updateChain env chain tokenAddress chainConfig addresses).run.run l = (.error stop, l') ∧
      stop.fatal = true := by
  unfold askedOn at hpass
  unfold updateChain
  cases hconnect : connect env chainConfig with
  | error stop =>
    rw [hconnect] at hpass
    obtain ⟨q, hq, -⟩ := hpass
    exact absurd hq List.not_mem_nil
  | ok url =>
    rw [hconnect] at hpass
    cases url with
    | none =>
      obtain ⟨q, hq, -⟩ := hpass
      exact absurd hq List.not_mem_nil
    | some rpcUrl => exact run_updateAddresses_stops hnodup hpass

theorem chain_of_askedOn {q : Question} (h : q ∈ askedOn env chain tokenAddress chainConfig addresses) :
    q.chain = chain ∧ q.tokenAddress = tokenAddress ∧ connect env chainConfig = .ok (some q.rpcUrl) := by
  unfold askedOn at h
  cases hconnect : connect env chainConfig with
  | error stop =>
    rw [hconnect] at h
    exact absurd h List.not_mem_nil
  | ok url =>
    rw [hconnect] at h
    cases url with
    | none => exact absurd h List.not_mem_nil
    | some rpcUrl =>
      obtain ⟨a, -, rfl⟩ := List.mem_map.1 h
      exact ⟨rfl, rfl, rfl⟩

theorem askedOn_nil : askedOn env chain tokenAddress chainConfig [] = [] := by
  unfold askedOn
  cases connect env chainConfig with
  | error _ => rfl
  | ok url => cases url <;> rfl

end Chains

theorem nodup_activeAddresses (order : SqlOrder) (n : Node) : (activeAddresses order n).Nodup :=
  ((order.perm _).nodup_iff.2 (List.nodup_dedup _)).sublist (List.take_sublist _ _)

theorem asked_of_isEmpty {config : Config} {n : Node} (h : (activeAddresses env.order n).isEmpty = true) :
    asked env config n = [] := by
  unfold asked
  rw [List.isEmpty_iff.1 h]
  cases connect env config.ethereum with
  | error _ => rfl
  | ok _ => exact List.append_eq_nil_iff.2 ⟨askedOn_nil, askedOn_nil⟩

/-- What the job writes for Ethereum does not affect what it does for Avalanche. -/
theorem passes_of_eth_written {config : Config} {n : Node} {q : Question}
    (hq : q ∈ askedOn env .avax avaxToken config.avalanche (activeAddresses env.order n)) :
    Passes env (writeAll ((askedOn env .eth ethToken config.ethereum (activeAddresses env.order n)).filterMap
      (Question.storedRow env)) ⟨n, []⟩).node q ↔ Passes env n q := by
  refine passes_congr (previous_writeAll fun row hrow hkey => ?_)
  obtain ⟨q', hq', hstored⟩ := List.mem_filterMap.1 hrow
  have hchains : q'.chain.toString = q.chain.toString :=
    congrArg Prod.snd ((key_of_storedRow hstored).symm.trans hkey)
  rw [(chain_of_askedOn hq').1, (chain_of_askedOn hq).1] at hchains
  exact absurd hchains (by decide)

/-- **If the job gets past every question, it stores their rows in order.** -/
theorem run_updateBalances {config : Config} {n : Node} (hpass : ∀ q ∈ asked env config n, Passes env n q) :
    (updateBalances env config).run.run ⟨n, []⟩ =
      (if (activeAddresses env.order n).isEmpty then .ok 0
        else (connectAll env config).map fun _ =>
          ((asked env config n).filterMap (Question.storedRow env)).length,
        writeAll ((asked env config n).filterMap (Question.storedRow env)) ⟨n, []⟩) := by
  unfold updateBalances
  refine (run_bind_ok (run_database (run_query _ _))).trans ?_
  show (ite ((activeAddresses env.order n).isEmpty = true) _ _ : Tracking Nat).run.run _ = _
  by_cases hempty : (activeAddresses env.order n).isEmpty = true
  · rw [if_pos hempty, if_pos hempty, asked_of_isEmpty hempty]
    rfl
  · rw [if_neg hempty, if_neg hempty]
    have hnodup := nodup_activeAddresses env.order n
    cases heth : connect env config.ethereum with
    | error stop =>
      have hasked : asked env config n = [] := by rw [asked, heth]
      rw [run_bind_error (run_updateChain_refused heth), hasked, connectAll, heth]
      rfl
    | ok url =>
      have hasked : asked env config n = askedOn env .eth ethToken config.ethereum (activeAddresses env.order n) ++
          askedOn env .avax avaxToken config.avalanche (activeAddresses env.order n) := by rw [asked, heth]
      rw [hasked] at hpass ⊢
      obtain ⟨eth, hrun, hlen⟩ := run_updateChain (l := ⟨n, []⟩) heth hnodup
        fun q hq => hpass q (List.mem_append_left _ hq)
      rw [run_bind_ok hrun, List.filterMap_append, writeAll_append, connectAll, heth]
      cases havax : connect env config.avalanche with
      | error stop =>
        have hnone : askedOn env .avax avaxToken config.avalanche (activeAddresses env.order n) = [] := by
          rw [askedOn, havax]
        rw [run_bind_error (run_updateChain_refused havax), hnone]
        rfl
      | ok url' =>
        obtain ⟨avax, hrun', hlen'⟩ := run_updateChain havax hnodup
          fun q hq => (passes_of_eth_written hq).2 (hpass q (List.mem_append_right _ hq))
        rw [run_bind_ok hrun', List.length_append, ← hlen, ← hlen']
        rfl

/-- **A question the job does not get past ends it.** -/
theorem run_updateBalances_stops {config : Config} {n : Node}
    (hpass : ∃ q ∈ asked env config n, ¬ Passes env n q) :
    ∃ stop l', (updateBalances env config).run.run ⟨n, []⟩ = (.error stop, l') ∧ stop.fatal = true := by
  obtain ⟨q, hq, hstop⟩ := hpass
  have hempty : ¬ (activeAddresses env.order n).isEmpty = true := by
    intro hempty
    rw [asked_of_isEmpty hempty] at hq
    exact absurd hq List.not_mem_nil
  have hstart : (updateBalances env config).run.run ⟨n, []⟩ =
      (updateChain env .eth ethToken config.ethereum (activeAddresses env.order n) >>= fun eth =>
        updateChain env .avax avaxToken config.avalanche (activeAddresses env.order n) >>= fun avax =>
          pure (eth.length + avax.length)).run.run ⟨n, []⟩ := by
    unfold updateBalances
    refine (run_bind_ok (run_database (run_query _ _))).trans ?_
    show (ite ((activeAddresses env.order n).isEmpty = true) _ _ : Tracking Nat).run.run _ = _
    rw [if_neg hempty]
  rw [hstart]
  have hnodup := nodup_activeAddresses env.order n
  by_cases hethpass : ∀ q' ∈ askedOn env .eth ethToken config.ethereum (activeAddresses env.order n),
      Passes env n q'
  · cases heth : connect env config.ethereum with
    | error stop =>
      rw [asked, heth] at hq
      exact absurd hq List.not_mem_nil
    | ok url =>
      rw [asked, heth] at hq
      obtain ⟨eth, hrun, -⟩ := run_updateChain (l := ⟨n, []⟩) heth hnodup hethpass
      have havax : q ∈ askedOn env .avax avaxToken config.avalanche (activeAddresses env.order n) :=
        (List.mem_append.1 hq).resolve_left fun h => hstop (hethpass q h)
      obtain ⟨stop, l', hrun', hfatal⟩ := run_updateChain_stops hnodup
        ⟨q, havax, fun h => hstop ((passes_of_eth_written havax).1 h)⟩
      rw [run_bind_ok hrun]
      exact ⟨stop, l', run_bind_error hrun', hfatal⟩
  · push Not at hethpass
    obtain ⟨stop, l', hrun, hfatal⟩ := run_updateChain_stops (l := ⟨n, []⟩) hnodup hethpass
    exact ⟨stop, l', run_bind_error hrun, hfatal⟩

/-! ## Exact or untouched -/

/-- No two questions are about one holder on one chain. -/
theorem asked_unique {config : Config} {n : Node} {q q' : Question} (hq : q ∈ asked env config n)
    (hq' : q' ∈ asked env config n) (hkey : (q.holder, q.chain.toString) = (q'.holder, q'.chain.toString)) :
    q = q' := by
  have hkind : ∀ r ∈ asked env config n,
      (r.chain = .eth ∧ r.tokenAddress = ethToken ∧ connect env config.ethereum = .ok (some r.rpcUrl)) ∨
      (r.chain = .avax ∧ r.tokenAddress = avaxToken ∧ connect env config.avalanche = .ok (some r.rpcUrl)) := by
    intro r hr
    unfold asked at hr
    cases heth : connect env config.ethereum with
    | error stop =>
      rw [heth] at hr
      exact absurd hr List.not_mem_nil
    | ok url =>
      rw [heth] at hr
      rcases List.mem_append.1 hr with hr | hr
      · exact .inl (heth ▸ chain_of_askedOn hr)
      · exact .inr (chain_of_askedOn hr)
  obtain ⟨hholder, hchain⟩ := Prod.mk.inj hkey
  obtain ⟨c, u, t, a⟩ := q
  obtain ⟨c', u', t', a'⟩ := q'
  dsimp only at hholder hchain
  subst hholder
  rcases hkind _ hq with ⟨rfl, rfl, hurl⟩ | ⟨rfl, rfl, hurl⟩ <;>
    rcases hkind _ hq' with ⟨rfl, rfl, hurl'⟩ | ⟨rfl, rfl, hurl'⟩
  · obtain rfl := Option.some.inj (Except.ok.inj (hurl.symm.trans hurl'))
    rfl
  · exact absurd hchain (by decide)
  · exact absurd hchain (by decide)
  · obtain rfl := Option.some.inj (Except.ok.inj (hurl.symm.trans hurl'))
    rfl

theorem connectAll_not_fatal {config : Config} {stop : Stop} (h : connectAll env config = .error stop) :
    stop.fatal = false := by
  unfold connectAll at h
  cases heth : connect env config.ethereum with
  | error s =>
    rw [heth] at h
    obtain rfl := Except.error.inj h
    exact connect_not_fatal heth
  | ok url =>
    rw [heth] at h
    cases havax : connect env config.avalanche with
    | error s =>
      rw [havax] at h
      obtain rfl := Except.error.inj h
      exact connect_not_fatal havax
    | ok url' =>
      rw [havax] at h
      cases h

/-- A run that is as it should be gets past every question. -/
theorem ExactOrUntouched.passes {config : Config} {n : Node} (h : ExactOrUntouched env config n) :
    ∀ q ∈ asked env config n, Passes env n q := by
  by_contra hnot
  push Not at hnot
  obtain ⟨stop, l', hrun, hfatal⟩ := run_updateBalances_stops hnot
  have hout := congrArg Prod.fst (hrun.symm.trans h)
  dsimp only at hout
  split_ifs at hout
  cases hall : connectAll env config with
  | error s =>
    rw [hall] at hout
    obtain rfl := Except.error.inj hout
    rw [connectAll_not_fatal hall] at hfatal
    exact Bool.false_ne_true hfatal
  | ok u =>
    rw [hall] at hout
    cases hout

/-- The row of a question that is answered. -/
theorem exactRow_eq_some {q : Question} {result : List UInt8} (hanswer : q.answer env = .ok result) {row : BalanceRow}
    (h : q.exactRow env = some row) : result.length = 32 ∧ bigEndian result < 2 ^ 96 := by
  rw [Question.exactRow, hanswer] at h
  obtain ⟨b, hb, -⟩ := Option.map_eq_some_iff.1 h
  unfold exactBalance at hb
  split_ifs at hb with hfits
  exact hfits

theorem key_of_exactRow {q : Question} {row : BalanceRow} (h : q.exactRow env = some row) :
    (row.address, row.chain) = (q.holder, q.chain.toString) := by
  unfold Question.exactRow at h
  cases hanswer : q.answer env with
  | error e => simp [hanswer] at h
  | ok result =>
    rw [hanswer] at h
    obtain ⟨b, -, rfl⟩ := Option.map_eq_some_iff.1 h
    rfl

/-- A run that is as it should be was given sound answers. -/
theorem ExactOrUntouched.sound {config : Config} {n : Node} (h : ExactOrUntouched env config n) {q : Question}
    (hq : q ∈ asked env config n) {result : List UInt8} (hanswer : q.answer env = .ok result) :
    Sound env n q result := by
  obtain ⟨hlength, p, hp, hsub⟩ := h.passes q hq result hanswer
  have hwritten := congrArg (fun x => x.2.written) ((run_updateBalances h.passes).symm.trans h)
  simp only [written_writeAll, List.nil_append] at hwritten
  have hstored : q.storedRow env = some (q.row (worth result)) := by
    rw [Question.storedRow, hanswer]
    exact if_pos hlength
  have hmem : q.row (worth result) ∈ (asked env config n).filterMap (Question.exactRow env) := by
    rw [← hwritten]
    exact List.mem_filterMap.2 ⟨q, hq, hstored⟩
  obtain ⟨q', hq', hexact⟩ := List.mem_filterMap.1 hmem
  obtain rfl : q = q' := asked_unique hq hq' (key_of_exactRow hexact)
  obtain ⟨hlen, hfits⟩ := exactRow_eq_some hanswer hexact
  rw [worth_of_fits hfits] at hsub
  exact ⟨hlen, hfits, p, hp, hsub⟩

theorem Sound.passes {n : Node} {q : Question} (h : ∀ result, q.answer env = .ok result → Sound env n q result) :
    Passes env n q := by
  intro result hanswer
  obtain ⟨hlen, hfits, p, hp, hsub⟩ := h result hanswer
  rw [← worth_of_fits hfits] at hsub
  exact ⟨hlen.le, p, hp, hsub⟩

/-- For a sound answer the job stores what it should. -/
theorem Sound.storedRow {n : Node} {q : Question} (h : ∀ result, q.answer env = .ok result → Sound env n q result) :
    q.storedRow env = q.exactRow env := by
  unfold Question.storedRow Question.exactRow
  cases hanswer : q.answer env with
  | error e => rfl
  | ok result =>
    have hsound := h result hanswer
    have hexact : exactBalance result = some ((bigEndian result : ℚ) / 10 ^ 18) :=
      if_pos ⟨hsound.length, hsound.fits⟩
    dsimp only
    rw [if_pos hsound.length.le, worth_of_fits hsound.fits, hexact]
    rfl

/-- **The job writes the exact balances and leaves everything else alone if and only if every answer is an error, or
32 bytes that a decimal can hold and that can be compared with the stored balance.** -/
theorem exactOrUntouched_iff (env : TrackerEnv) (config : Config) (n : Node) :
    ExactOrUntouched env config n ↔
      ∀ q ∈ asked env config n, ∀ result, q.answer env = .ok result → Sound env n q result := by
  constructor
  · intro h q hq result hanswer
    exact h.sound hq hanswer
  · intro h
    have hrows : (asked env config n).filterMap (Question.storedRow env) =
        (asked env config n).filterMap (Question.exactRow env) :=
      List.filterMap_congr fun q hq => Sound.storedRow (h q hq)
    unfold ExactOrUntouched
    rw [run_updateBalances fun q hq => Sound.passes (h q hq), hrows]

/-! ### An empty answer -/

/-- The holder of a program. -/
def holder : Address := "0x1234567890123456789012345678901234567890"

/-- A node that runs a program of the holder and has a balance of 5 stored for it. -/
def heldNode : Node :=
  { Node.empty with
    programs := Table.empty.insertNew
      { itemHash := "program", owner := holder, codeRef := "code", runtimeRef := "runtime", allowAmend := true,
        replaces := none, time := none }
    balances := Table.empty.insertNew { address := holder, chain := "ETH", balance := 5 } }

/-- Ethereum is enabled, Avalanche is not. -/
def ethOnly : Config := { ethereum := some { enabled := true, rpcUrl := "https://rpc" }, avalanche := none }

/-- Every call is answered by the empty byte string, as a node does where there is no contract. -/
def emptyAnswers : TrackerEnv where
  order := .stored
  provider _ := .ok ()
  parseAddress _ := .ok (List.replicate 20 0)
  call _ _ _ _ := .ok []
  decodeDecimal q := .ok q
  sub a b := some (a - b)
  roundQuotient _ _ := none

/-- **The stored balance of 5 is replaced by zero.** -/
theorem empty_answer_zeroes :
    ((updateBalances emptyAnswers ethOnly).run.run ⟨heldNode, []⟩).2.written =
        [{ address := holder, chain := "ETH", balance := 0 }] ∧
      ¬ ExactOrUntouched emptyAnswers ethOnly heldNode := by
  have hactive : activeAddresses emptyAnswers.order heldNode = [holder] := by decide
  have hasked : asked emptyAnswers ethOnly heldNode =
      [{ chain := .eth, rpcUrl := "https://rpc", tokenAddress := ethToken, holder }] := by
    show askedOn _ _ _ _ (activeAddresses emptyAnswers.order heldNode) ++ _ = _
    rw [hactive]
    rfl
  refine ⟨?_, fun h => ?_⟩
  · have hpass : ∀ q ∈ asked emptyAnswers ethOnly heldNode, Passes emptyAnswers heldNode q := by
      intro q hq result hanswer
      rw [hasked] at hq
      obtain rfl := List.mem_singleton.1 hq
      obtain rfl : [] = result := Except.ok.inj hanswer
      exact ⟨by decide, some 5, rfl, fun prev _ => rfl⟩
    have hworth : worth [] = 0 := by
      unfold worth
      rw [if_pos (by decide)]
      norm_num [bigEndian]
    rw [run_updateBalances hpass, hasked, written_writeAll]
    show [BalanceRow.mk holder "ETH" (worth [])] = _
    rw [hworth]
  · have hanswer : ∀ q, Question.answer emptyAnswers q = .ok [] := fun _ => rfl
    have hmem : Question.mk .eth "https://rpc" ethToken holder ∈ asked emptyAnswers ethOnly heldNode := by
      rw [hasked]
      exact List.mem_singleton_self _
    exact absurd (h.sound hmem (hanswer _)).length (by decide)

end AlephCore.BalanceTracker
