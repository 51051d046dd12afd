import AlephCore.Chains.Ethereum
import Mathlib.Logic.Relation

/-!
# RpcProvider — failover between providers, call by call

Mirrors `MultiRpcProvider` of `chains/ethereum.rs`, which the indexer, the RPC sync and everything that shares them
use for each request.  The index of the current provider is shared: a call that fails loads it again and moves on from
what it finds, so calls that fail together can pass over a provider.  Each atomic operation is one step here, and the
calls interleave in any way.
-/

namespace AlephCore.Ethereum

/-- The state that the calls share. -/
structure MultiRpcProvider where
  /-- The number of providers, the primary one first. -/
  providers : Nat
  currentIndex : Nat
  lastError : Option String
  failureCounts : List Nat

/-- How far a call of `execute_with_retry` has come. -/
inductive Progress (α : Type) where
  | trying (attempt : Nat) (lastError : Option String)
  | asking (attempt index : Nat) (lastError : Option String)
  /-- `mark_failed`: the index is loaded again, a failure is counted, the error noted and the provider switched. -/
  | failed (attempt : Nat) (error : String)
  | counting (attempt index : Nat) (error : String)
  | noting (attempt index : Nat) (error : String)
  | switching (attempt index : Nat) (error : String)
  /-- `mark_success`: the index is loaded again, and its failures are reset. -/
  | answered (a : α)
  | resetting (index : Nat) (a : α)
  | returned (r : Except ChainError α)

/-- A call.  `start`, `failures` and `overtaken` are a record: the current provider when it began, those that failed
it, and whether another call has switched since. -/
structure Call (α : Type) where
  progress : Progress α
  start : Nat
  failures : List Nat
  overtaken : Bool

namespace MultiRpcProvider

variable {α : Type}

def new (backups : Nat) : MultiRpcProvider := ⟨backups + 1, 0, none, List.replicate (backups + 1) 0⟩

/-- The error of a call that nobody answered. -/
def allFailed (providers : Nat) (lastError : Option String) : ChainError :=
  let last := lastError.getD "Unknown error"
  .rpc s!"All {providers} RPC providers failed. Last error: {last}"

/-- A step of a call that leaves the current provider alone. -/
inductive CallStep : MultiRpcProvider → Call α → MultiRpcProvider → Call α → Prop
  | current {p : MultiRpcProvider} {c : Call α} {k : Nat} {last : Option String} (h : c.progress = .trying k last)
      (hk : k < p.providers) : CallStep p c p { c with progress := .asking k p.currentIndex last }
  | giveUp {p : MultiRpcProvider} {c : Call α} {k : Nat} {last : Option String} (h : c.progress = .trying k last)
      (hk : p.providers ≤ k) : CallStep p c p { c with progress := .returned (.error (allFailed p.providers last)) }
  | answer {p : MultiRpcProvider} {c : Call α} {k i : Nat} {last : Option String} (a : α)
      (h : c.progress = .asking k i last) : CallStep p c p { c with progress := .answered a }
  | fail {p : MultiRpcProvider} {c : Call α} {k i : Nat} {last : Option String} (e : String)
      (h : c.progress = .asking k i last) :
      CallStep p c p { c with progress := .failed k e, failures := c.failures ++ [i] }
  | load {p : MultiRpcProvider} {c : Call α} {k : Nat} {e : String} (h : c.progress = .failed k e) :
      CallStep p c p { c with progress := .counting k p.currentIndex e }
  | count {p : MultiRpcProvider} {c : Call α} {k i : Nat} {e : String} (h : c.progress = .counting k i e) :
      CallStep p c { p with failureCounts := p.failureCounts.modify i fun x => (x + 1) % 2 ^ 32 }
        { c with progress := .noting k i e }
  | note {p : MultiRpcProvider} {c : Call α} {k i : Nat} {e : String} (h : c.progress = .noting k i e) :
      CallStep p c { p with lastError := some e } { c with progress := .switching k i e }
  /-- There is no other provider. -/
  | stay {p : MultiRpcProvider} {c : Call α} {k i : Nat} {e : String} (h : c.progress = .switching k i e)
      (hone : p.providers ≤ 1) : CallStep p c p { c with progress := .trying (k + 1) (some e) }
  | loadAgain {p : MultiRpcProvider} {c : Call α} {a : α} (h : c.progress = .answered a) :
      CallStep p c p { c with progress := .resetting p.currentIndex a }
  | reset {p : MultiRpcProvider} {c : Call α} {i : Nat} {a : α} (h : c.progress = .resetting i a) :
      CallStep p c { p with failureCounts := p.failureCounts.set i 0 } { c with progress := .returned (.ok a) }

/-- Another call has switched. -/
def overtake (c : Call α) : Call α :=
  match c.progress with
  | .returned _ => c
  | _ => { c with overtaken := true }

/-- One step of any call; a call that begins is the last one. -/
inductive Step : MultiRpcProvider × List (Call α) → MultiRpcProvider × List (Call α) → Prop
  | begin {p : MultiRpcProvider} {cs : List (Call α)} :
      Step (p, cs) (p, cs ++ [⟨.trying 0 none, p.currentIndex, [], false⟩])
  | call {p p' : MultiRpcProvider} {c c' : Call α} {cs ds : List (Call α)} (h : CallStep p c p' c') :
      Step (p, cs ++ c :: ds) (p', cs ++ c' :: ds)
  | switch {p : MultiRpcProvider} {c : Call α} {cs ds : List (Call α)} {k i : Nat} {e : String}
      (h : c.progress = .switching k i e) (hmany : 1 < p.providers) :
      Step (p, cs ++ c :: ds) ({ p with currentIndex := (i + 1) % p.providers },
        cs.map overtake ++ { c with progress := .trying (k + 1) (some e) } :: ds.map overtake)

/-! ## The rotation -/

/-- The `k` providers from `start` on. -/
def rotation (providers start k : Nat) : List Nat := (List.range k).map fun j => (start + j) % providers

theorem rotation_succ (providers start k : Nat) :
    rotation providers start (k + 1) = rotation providers start k ++ [(start + k) % providers] := by
  unfold rotation
  rw [List.range_succ, List.map_append]
  rfl

theorem rotate_succ (start k providers : Nat) :
    ((start + k) % providers + 1) % providers = (start + (k + 1)) % providers := by
  rw [Nat.mod_add_mod, Nat.add_assoc]

/-- A full turn comes by every provider. -/
theorem mem_rotation {providers start i : Nat} (hstart : start < providers) (hi : i < providers) :
    i ∈ rotation providers start providers := by
  rcases Nat.lt_or_ge i start with hlt | hge
  · refine List.mem_map.2 ⟨i + providers - start, List.mem_range.2 (by omega), ?_⟩
    rw [show start + (i + providers - start) = i + providers by omega, Nat.add_mod_right, Nat.mod_eq_of_lt hi]
  · refine List.mem_map.2 ⟨i - start, List.mem_range.2 (by omega), ?_⟩
    rw [show start + (i - start) = i by omega, Nat.mod_eq_of_lt hi]

/-! ## What holds of a call -/

/-- The call is alone so far: of `n` providers the current one is `k` further than at its start, and all those before
have failed the call. -/
structure Alone (n current : Nat) (c : Call α) (k failed : Nat) : Prop where
  index : current = (c.start + k) % n
  failures : c.failures = rotation n c.start failed

/-- What holds of a call by its progress. -/
def Fits (n current : Nat) (c : Call α) : Prop :=
  match c.progress with
  | .trying k _ => c.failures.length = k ∧ k ≤ n ∧ (c.overtaken = false → Alone n current c k k)
  | .asking k i _ => c.failures.length = k ∧ k < n ∧ i < n ∧
      (c.overtaken = false → i = current ∧ Alone n current c k k)
  | .failed k _ => c.failures.length = k + 1 ∧ k < n ∧ (c.overtaken = false → Alone n current c k (k + 1))
  | .counting k i _ | .noting k i _ | .switching k i _ => c.failures.length = k + 1 ∧ k < n ∧ i < n ∧
      (c.overtaken = false → i = current ∧ Alone n current c k (k + 1))
  | .answered _ => c.failures.length < n
  | .resetting _ _ => c.failures.length < n
  | .returned (.ok _) => c.failures.length < n
  | .returned (.error _) => c.failures.length = n ∧ (c.overtaken = false → c.failures = rotation n c.start n)

/-- What holds of a call: it began with a provider, and only providers have failed it. -/
structure Holds (n current : Nat) (c : Call α) : Prop where
  start : c.start < n
  failures : ∀ i ∈ c.failures, i < n
  fits : Fits n current c

variable {p p' : MultiRpcProvider} {c c' : Call α} {n current : Nat}

theorem CallStep.same (h : CallStep p c p' c') : p'.providers = p.providers ∧ p'.currentIndex = p.currentIndex := by
  cases h <;> exact ⟨rfl, rfl⟩

/-- **A step of a call** that leaves the current provider alone. -/
theorem Holds.step (h : Holds p.providers p.currentIndex c) (hcurrent : p.currentIndex < p.providers)
    (hstep : CallStep p c p' c') : Holds p.providers p.currentIndex c' := by
  obtain ⟨hstart, hfailures, hfits⟩ := h
  unfold Fits at hfits
  cases hstep with
  | @current k last htrying hk =>
    rw [htrying] at hfits
    obtain ⟨hlength, -, halone⟩ := hfits
    refine ⟨hstart, hfailures, hlength, hk, hcurrent, fun hot => ⟨rfl, ?_⟩⟩
    exact ⟨(halone hot).index, (halone hot).failures⟩
  | @giveUp k last htrying hk =>
    rw [htrying] at hfits
    obtain ⟨hlength, hle, halone⟩ := hfits
    obtain rfl : k = p.providers := Nat.le_antisymm hle hk
    exact ⟨hstart, hfailures, hlength, fun hot => (halone hot).failures⟩
  | @answer k i last a hasking =>
    rw [hasking] at hfits
    obtain ⟨hlength, hk, -⟩ := hfits
    exact ⟨hstart, hfailures, hlength.trans_lt hk⟩
  | @fail k i last e hasking =>
    rw [hasking] at hfits
    obtain ⟨hlength, hk, hi, halone⟩ := hfits
    refine ⟨hstart, ?_, ?_, hk, fun hot => ?_⟩
    · intro j hj
      rcases List.mem_append.1 hj with hj | hj
      · exact hfailures j hj
      · rwa [List.mem_singleton.1 hj]
    · rw [List.length_append, hlength]
      rfl
    · obtain ⟨rfl, hindex, hrotation⟩ := halone hot
      refine ⟨hindex, ?_⟩
      dsimp only
      rw [hrotation, rotation_succ, hindex]
  | @load k e hfailed =>
    rw [hfailed] at hfits
    obtain ⟨hlength, hk, halone⟩ := hfits
    exact ⟨hstart, hfailures, hlength, hk, hcurrent, fun hot => ⟨rfl, (halone hot).index, (halone hot).failures⟩⟩
  | @count k i e hcounting =>
    rw [hcounting] at hfits
    obtain ⟨hlength, hk, hi, halone⟩ := hfits
    refine ⟨hstart, hfailures, hlength, hk, hi, fun hot => ?_⟩
    exact ⟨(halone hot).1, (halone hot).2.index, (halone hot).2.failures⟩
  | @note k i e hnoting =>
    rw [hnoting] at hfits
    obtain ⟨hlength, hk, hi, halone⟩ := hfits
    refine ⟨hstart, hfailures, hlength, hk, hi, fun hot => ?_⟩
    exact ⟨(halone hot).1, (halone hot).2.index, (halone hot).2.failures⟩
  | @stay k i e hswitching hone =>
    rw [hswitching] at hfits
    obtain ⟨hlength, hk, -, halone⟩ := hfits
    refine ⟨hstart, hfailures, hlength, hk, fun hot => ⟨?_, (halone hot).2.failures⟩⟩
    have hproviders : p.providers = 1 := by omega
    rw [hproviders] at hcurrent ⊢
    omega
  | @loadAgain a hanswered =>
    rw [hanswered] at hfits
    exact ⟨hstart, hfailures, hfits⟩
  | @reset i a hresetting =>
    rw [hresetting] at hfits
    exact ⟨hstart, hfailures, hfits⟩

/-- **A call that switches** moves on by one. -/
theorem Holds.switch {k i : Nat} {e : String} (h : Holds n current c) (hswitching : c.progress = .switching k i e) :
    Holds n ((i + 1) % n) ({ c with progress := .trying (k + 1) (some e) } : Call α) := by
  obtain ⟨hstart, hfailures, hfits⟩ := h
  unfold Fits at hfits
  rw [hswitching] at hfits
  obtain ⟨hlength, hk, -, halone⟩ := hfits
  refine ⟨hstart, hfailures, hlength, hk, fun hot => ?_⟩
  obtain ⟨rfl, hindex, hrotation⟩ := halone hot
  refine ⟨?_, hrotation⟩
  dsimp only
  rw [hindex, rotate_succ]

/-- A call that is overtaken does not know the current provider any more. -/
theorem Holds.overtake (h : Holds n current c) (current' : Nat) : Holds n current' (overtake c) := by
  obtain ⟨hstart, hfailures, hfits⟩ := h
  unfold Fits at hfits
  unfold MultiRpcProvider.overtake
  cases hprogress : c.progress with
  | trying k last | failed k e =>
    rw [hprogress] at hfits
    exact ⟨hstart, hfailures, hfits.1, hfits.2.1, nofun⟩
  | asking k i last | counting k i e | noting k i e | switching k i e =>
    rw [hprogress] at hfits
    exact ⟨hstart, hfailures, hfits.1, hfits.2.1, hfits.2.2.1, nofun⟩
  | answered a | resetting i a =>
    rw [hprogress] at hfits
    exact ⟨hstart, hfailures, hfits⟩
  | returned r =>
    refine ⟨hstart, hfailures, ?_⟩
    unfold Fits
    dsimp only
    rw [hprogress] at hfits ⊢
    cases r <;> exact hfits

/-! ## Runs -/

/-- What holds of the calls and of what they share. -/
structure AllHold (n : Nat) (s : MultiRpcProvider × List (Call α)) : Prop where
  providers : s.1.providers = n
  current : s.1.currentIndex < n
  calls : ∀ c ∈ s.2, Holds n s.1.currentIndex c

/-- **One step of any call.** -/
theorem AllHold.step {s s' : MultiRpcProvider × List (Call α)} (h : AllHold n s) (hstep : Step s s') :
    AllHold n s' := by
  obtain ⟨hproviders, hcurrent, hcalls⟩ := h
  cases hstep with
  | @begin p cs =>
    obtain rfl : p.providers = n := hproviders
    refine ⟨rfl, hcurrent, fun c hc => ?_⟩
    rcases List.mem_append.1 hc with hc | hc
    · exact hcalls c hc
    · obtain rfl := List.mem_singleton.1 hc
      refine ⟨hcurrent, fun i hi => absurd hi List.not_mem_nil, rfl, Nat.zero_le _, fun _ => ⟨?_, rfl⟩⟩
      rw [Nat.add_zero, Nat.mod_eq_of_lt hcurrent]
  | @call p p' c c' cs ds hcall =>
    obtain rfl : p.providers = n := hproviders
    obtain ⟨hsame, hindex⟩ := hcall.same
    have hstays : ∀ d : Call α, Holds p.providers p.currentIndex d → Holds p.providers p'.currentIndex d := by
      intro d hd
      rwa [hindex]
    refine ⟨hsame, hindex.trans_lt hcurrent, fun d hd => hstays d ?_⟩
    rcases List.mem_append.1 hd with hd | hd
    · exact hcalls d (List.mem_append_left _ hd)
    · rcases List.mem_cons.1 hd with rfl | hd
      · exact (hcalls c (List.mem_append_right _ List.mem_cons_self)).step hcurrent hcall
      · exact hcalls d (List.mem_append_right _ (List.mem_cons_of_mem _ hd))
  | @switch p c cs ds k i e hswitching hmany =>
    obtain rfl : p.providers = n := hproviders
    refine ⟨rfl, Nat.mod_lt _ (by omega), fun d hd => ?_⟩
    rcases List.mem_append.1 hd with hd | hd
    · obtain ⟨b, hb, rfl⟩ := List.mem_map.1 hd
      exact (hcalls b (List.mem_append_left _ hb)).overtake _
    · rcases List.mem_cons.1 hd with rfl | hd
      · exact (hcalls c (List.mem_append_right _ List.mem_cons_self)).switch hswitching
      · obtain ⟨b, hb, rfl⟩ := List.mem_map.1 hd
        exact (hcalls b (List.mem_append_right _ (List.mem_cons_of_mem _ hb))).overtake _

theorem allHold_of_run {backups : Nat} {s : MultiRpcProvider × List (Call α)}
    (hrun : Relation.ReflTransGen Step (new backups, []) s) : AllHold (backups + 1) s := by
  induction hrun with
  | refl => exact ⟨rfl, Nat.succ_pos _, fun _ hc => absurd hc List.not_mem_nil⟩
  | tail _ hstep ih => exact ih.step hstep

/-- **Giving up**: however calls interleave, the current provider is always one of them, and a call that returns an
error has been failed by as many requests as there are providers, and by each of them unless another call has switched
in between. -/
theorem every_provider_failed {backups : Nat} {s : MultiRpcProvider × List (Call α)}
    (hrun : Relation.ReflTransGen Step (new backups, []) s) {c : Call α} (hc : c ∈ s.2) {e : ChainError}
    (herror : c.progress = .returned (.error e)) :
    s.1.currentIndex < s.1.providers ∧ c.failures.length = backups + 1 ∧
      (c.overtaken = false → ∀ i, i ∈ c.failures ↔ i < backups + 1) := by
  obtain ⟨hproviders, hcurrent, hcalls⟩ := allHold_of_run hrun
  obtain ⟨hstart, hfailures, hfits⟩ := hcalls c hc
  unfold Fits at hfits
  rw [herror] at hfits
  refine ⟨hcurrent.trans_eq hproviders.symm, hfits.1, fun hot i => ⟨hfailures i, fun hi => ?_⟩⟩
  rw [hfits.2 hot]
  exact mem_rotation hstart hi

/-! ### Two calls and two providers -/

section Overtaken

/-- The steps by which a failure is counted and noted. -/
theorem run_failed {p : MultiRpcProvider} {c : Call Nat} {cs ds : List (Call Nat)} {k : Nat} {last : Option String}
    (hk : k < p.providers) (htrying : c.progress = .trying k last) :
    Relation.ReflTransGen Step (p, cs ++ c :: ds)
      ({ p with
        failureCounts := p.failureCounts.modify p.currentIndex fun x => (x + 1) % 2 ^ 32
        lastError := some "connection refused" },
        cs ++ { c with
          progress := .switching k p.currentIndex "connection refused"
          failures := c.failures ++ [p.currentIndex] } :: ds) := by
  refine .head (.call (.current htrying hk)) ?_
  refine .head (.call (.fail "connection refused" rfl)) ?_
  refine .head (.call (.load rfl)) ?_
  refine .head (.call (.count rfl)) ?_
  refine .head (.call (.note rfl)) ?_
  exact .refl

/-- The answer of a call that was failed by both of its requests. -/
def refused : Progress Nat := .returned (.error (allFailed 2 (some "connection refused")))

/-- A call that both providers have failed. -/
def gaveUp : Call Nat := ⟨refused, 0, [0, 1], false⟩

theorem run_both_failed : Relation.ReflTransGen Step (new 1, [])
    (⟨2, 0, some "connection refused", [1, 1]⟩, [gaveUp]) := by
  refine .head .begin ?_
  refine .trans (@run_failed (new 1) ⟨.trying 0 none, 0, [], false⟩ [] [] 0 none (by decide) rfl) ?_
  refine .head (@Step.switch _ _ _ [] [] _ _ _ rfl (by decide)) ?_
  refine .trans (@run_failed _ _ [] [] 1 (some "connection refused") (by decide) rfl) ?_
  refine .head (@Step.switch _ _ _ [] [] _ _ _ rfl (by decide)) ?_
  exact .head (@Step.call _ _ _ _ _ [] [] (.giveUp rfl (by decide))) .refl

/-- It is not overtaken, and each has failed it. -/
theorem both_failed : 0 < 2 ∧ gaveUp.failures.length = 1 + 1 ∧
    (gaveUp.overtaken = false → ∀ i, i ∈ gaveUp.failures ↔ i < 1 + 1) :=
  every_provider_failed run_both_failed (List.mem_singleton_self _) rfl

/-- Two calls fail together, and the second one switches back: the first one gives up and has not asked the second
provider. -/
theorem run_overtaken : Relation.ReflTransGen Step (new 1, [])
    (⟨2, 1, some "connection refused", [2, 1]⟩,
      [⟨refused, 0, [0, 0], true⟩, ⟨.trying 1 (some "connection refused"), 0, [0], true⟩]) := by
  refine .head .begin (.head .begin ?_)
  refine .head (@Step.call _ _ _ _ _ [⟨.trying 0 none, 0, [], false⟩] [] (.current rfl (by decide))) ?_
  refine .trans (@run_failed (new 1) ⟨.trying 0 none, 0, [], false⟩ [] [_] 0 none (by decide) rfl) ?_
  refine .head (@Step.switch _ _ _ [] [_] _ _ _ rfl (by decide)) ?_
  refine .head (@Step.call _ _ _ _ _ [_] [] (.fail "connection refused" rfl)) ?_
  refine .head (@Step.call _ _ _ _ _ [_] [] (.load rfl)) ?_
  refine .head (@Step.call _ _ _ _ _ [_] [] (.count rfl)) ?_
  refine .head (@Step.call _ _ _ _ _ [_] [] (.note rfl)) ?_
  refine .head (@Step.switch _ _ _ [_] [] _ _ _ rfl (by decide)) ?_
  refine .trans (@run_failed _ _ [] [_] 1 (some "connection refused") (by decide) rfl) ?_
  refine .head (@Step.switch _ _ _ [] [_] _ _ _ rfl (by decide)) ?_
  exact .head (@Step.call _ _ _ _ _ [] [_] (.giveUp rfl (by decide))) .refl

end Overtaken

end MultiRpcProvider

end AlephCore.Ethereum
