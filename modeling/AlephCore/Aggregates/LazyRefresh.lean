import AlephCore.Aggregates.Concurrent
import AlephCore.Web.Aggregates
import Mathlib.Data.Nat.Cast.Order.Ring

/-!
# LazyRefresh — readers that rebuild an aggregate while it is updated

Beside the calls of the aggregate handler there are readers, which rebuild the dirty aggregates they come across.
A reader brings no element, so its write is safe whatever the calls hold; but a call that finishes while a reader
holds a content, for instance because it found the aggregate dirty, is lost with the write of the reader.
-/

namespace AlephCore.AggregateHandler

open ProgE Prog Web

/-! ## The stages of a reader -/

/-- How far a reader has come. -/
inductive RefreshStage where
  | start
  /-- These aggregates are still to be rebuilt. -/
  | refreshing (keys : List (Address × String))
  /-- These elements of an aggregate have been read, in this order. -/
  | writing (p : Address × String) (l : List AggregateElement) (keys : List (Address × String))

namespace RefreshStage

variable (dirty : Node → List (Address × String))

/-- What a reader has still to do. -/
def prog : RefreshStage → Prog Node DbError (Except HandlerError Unit)
  | start => (lazyRefresh dirty).run
  | refreshing keys => (refreshAll keys).run
  | writing p l keys =>
    (ignore (db (updateAggregate p.1 p.2 (mergeElements l))) >>= fun _ => refreshAll keys).run

/-- The next statement: the stage it leads to, and its effect. -/
def next (n : Node) : RefreshStage → RefreshStage × Node
  | start => (refreshing (dirty n), n)
  | refreshing [] => (refreshing [], n)
  | refreshing (p :: keys) =>
    (if (elementsOf p.1 p.2 n).isEmpty then refreshing keys
      else writing p (chronologicalElements p.1 p.2 n) keys, n)
  | writing p l keys => (refreshing keys, writeAggregate p.1 p.2 (mergeElements l) n)

/-- **A reader goes from stage to stage.** -/
theorem next_prog (n : Node) (s : RefreshStage) :
    (s.prog dirty).next n = ((s.next dirty n).1.prog dirty, (s.next dirty n).2) := by
  cases s with
  | start => rfl
  | refreshing keys =>
    cases keys with
    | nil => rfl
    | cons p keys =>
      have hquery : ((refreshing (p :: keys)).prog dirty).next n =
          ((ignore (if (chronologicalElements p.1 p.2 n).isEmpty then (pure () : Db HandlerError Unit)
            else db (updateAggregate p.1 p.2 (mergeElements (chronologicalElements p.1 p.2 n)))) >>=
              fun _ => refreshAll keys).run, n) := rfl
      rw [hquery, isEmpty_chronologicalElements]
      simp only [next]
      split_ifs <;> rfl
  | writing p l keys => rfl

end RefreshStage

/-! ## The invariant -/

section Kept

variable {ι κ : Type} {a : Address} {k : String} {es : ι → AggregateElement}

/-- What holds while calls and readers are under way: what a reader holds covers the stored elements as well. -/
structure Refreshing (a : Address) (k : String) (es : ι → AggregateElement) (n : Node) (stage : ι → Stage)
    (reading : κ → RefreshStage) : Prop where
  sound : Sound a k es n stage
  held : ∀ j l keys, reading j = .writing (a, k) l keys →
    ∃ l', Covers es stage (elementsOf a k n) l' ∧ mergeElements l = rebuilt l'

variable {n n' : Node} {stage stage' : ι → Stage} {reading : κ → RefreshStage}

theorem Covers.congr {E l : List AggregateElement} (h : Covers es stage E l)
    (hfinished : ∀ i, stage' i = .finished → stage i = .finished) : Covers es stage' E l := by
  refine ⟨h.nodup, h.subset, fun x hx hl => ?_⟩
  obtain ⟨i, hi, rfl⟩ := h.missing x hx hl
  exact ⟨i, fun hf => hi (hfinished i hf), rfl⟩

theorem Sound.congr (h : Sound a k es n stage) (hel : n'.aggregateElements = n.aggregateElements)
    (hrow : n'.aggregates.find? (a, k) = n.aggregates.find? (a, k)) : Sound a k es n' stage := by
  have hE : elementsOf a k n' = elementsOf a k n := by rw [elementsOf, hel, elementsOf]
  refine ⟨hel ▸ h.nodup, hel ▸ h.hashes, hE ▸ h.times, ?_, ?_, ?_, ?_, ?_, ?_⟩
  · rw [hE]
    exact h.isStored
  · rw [hE, hrow]
    exact h.noRow
  · rw [hrow]
    exact h.isRow
  · rw [hE, hrow]
    exact h.clean
  · rw [hrow]
    exact h.merging
  · rw [hE]
    exact h.writing

/-- What a call holds has been computed from its element and elements that cover the stored ones. -/
theorem Sound.settled (h : Sound a k es n stage) (i : ι) :
    ∃ s : Stage, s.prog (es i) = (stage i).prog (es i) ∧ (s = .finished ↔ stage i = .finished) ∧
      (s = .start ↔ stage i = .start) ∧ (s = .stored ↔ stage i = .stored) ∧ (∀ row, s ≠ .merging row) ∧
      ∀ l, s = .writing l → ∃ l', Covers es stage (elementsOf a k n) l' ∧ es i ∈ l' ∧ mergeElements l = rebuilt l' := by
  cases hi : stage i with
  | merging row =>
    obtain ⟨hrow, hd, ht⟩ := h.merging i row hi
    obtain ⟨l, hl, hrl⟩ := h.clean row hrow hd
    have hl' := hl.withElement (h.isStored i (by simp [hi]))
    have hmerged : mergedInto row (es i) = rebuilt (withElement (es i) l) :=
      mergedInto_rebuilt hrl (fun x hx y hy => h.hashesDetermine x (hl'.subset x hx) y (hl'.subset y hy))
        (fun x hx => h.times x (hl.subset x hx) i) ht
    refine ⟨.writing ((withElement (es i) l).insertionSort Chronological), ?_, by simp, by simp, by simp, by simp,
      fun m hm => ⟨_, hl', mem_withElement.2 (.inr rfl), ?_⟩⟩
    · rw [Stage.prog, Stage.prog, hmerged]
      rfl
    · obtain rfl := Stage.writing.inj hm
      rfl
  | writing l =>
    refine ⟨.writing l, rfl, by simp, by simp, by simp, by simp, fun m hm => ?_⟩
    obtain rfl := Stage.writing.inj hm
    exact h.writing i l hi
  | start => exact ⟨.start, rfl, by simp, by simp, by simp, by simp, by simp⟩
  | stored => exact ⟨.stored, rfl, by simp, by simp, by simp, by simp, by simp⟩
  | existing => exact ⟨.existing, rfl, by simp, by simp, by simp, by simp, by simp⟩
  | counting => exact ⟨.counting, rfl, by simp, by simp, by simp, by simp, by simp⟩
  | marking => exact ⟨.marking, rfl, by simp, by simp, by simp, by simp, by simp⟩
  | rebuilding => exact ⟨.rebuilding, rfl, by simp, by simp, by simp, by simp, by simp⟩
  | finished => exact ⟨.finished, rfl, by simp, by simp, by simp, by simp, by simp⟩

/-- **The write of a reader** keeps the invariant, whatever the calls hold. -/
theorem Sound.rewritten (h : Sound a k es n stage) {l' : List AggregateElement}
    (hl' : Covers es stage (elementsOf a k n) l') {s : Value × ItemHash × Timestamp} (hs : s = rebuilt l') :
    ∃ stage' : ι → Stage, (∀ i, (stage' i).prog (es i) = (stage i).prog (es i)) ∧
      (∀ i, stage' i = .finished → stage i = .finished) ∧ Sound a k es (writeAggregate a k s n) stage' := by
  choose stage' hprog hfinished hstart hstored hmerging hwriting using h.settled
  have hcovers : ∀ {l}, Covers es stage (elementsOf a k n) l → Covers es stage' (elementsOf a k n) l :=
    fun hl => hl.congr fun i hi => (hfinished i).1 hi
  have hrows : ∀ row', (writeAggregate a k s n).aggregates.find? (a, k) = some row' →
      RowHolds row' s ∧ ∃ row, n.aggregates.find? (a, k) = some row := by
    intro row' hrow'
    cases hrow : n.aggregates.find? (a, k) with
    | none =>
      rw [writeAggregate, Table.find?_update, hrow] at hrow'
      cases hrow'
    | some row =>
      rw [find?_writeAggregate_self hrow] at hrow'
      obtain rfl := Option.some.inj hrow'
      exact ⟨⟨rfl, rfl, rfl⟩, row, rfl⟩
  have hnone : (writeAggregate a k s n).aggregates.find? (a, k) = none → n.aggregates.find? (a, k) = none := by
    intro hnone'
    cases hrow : n.aggregates.find? (a, k) with
    | none => rfl
    | some row =>
      rw [find?_writeAggregate_self hrow] at hnone'
      cases hnone'
  refine ⟨stage', hprog, fun i => (hfinished i).1, ⟨h.nodup, h.hashes, h.times, fun i hi => ?_, fun hn x hx => ?_,
    fun i hi hi' hn => ?_, fun row hrow _ => ?_, fun i row hi => absurd hi (hmerging i row), fun i l hi => ?_⟩⟩
  · exact h.isStored i fun he => hi ((hstart i).2 he)
  · obtain ⟨i, hi, rfl⟩ := h.noRow (hnone hn) x hx
    exact ⟨i, (hstored i).2 hi, rfl⟩
  · exact h.isRow i (fun he => hi ((hstart i).2 he)) (fun he => hi' ((hstored i).2 he)) (hnone hn)
  · exact ⟨l', hcovers hl', hs ▸ (hrows row hrow).1⟩
  · obtain ⟨m, hm, hrest⟩ := hwriting i l hi
    exact ⟨m, hcovers hm, hrest⟩

theorem Stage.next_elementsOf {s : Stage} (hs : s ≠ .start) (e : AggregateElement) (n : Node) :
    elementsOf a k (s.next e n).2 = elementsOf a k n := by
  cases s with
  | start => exact absurd rfl hs
  | stored => rfl
  | existing => rfl
  | merging row => rfl
  | counting => rfl
  | marking => rfl
  | rebuilding => rfl
  | writing l => rfl
  | finished => rfl

variable [DecidableEq ι]

/-- What covered the elements still does after the step of a call that goes on. -/
theorem Sound.covers_step (h : Sound a k es n stage) (hsame : ∀ j, (es j).address = a ∧ (es j).key = k) {i : ι}
    (hgoes : ((stage i).next (es i) n).1 ≠ .finished) {l : List AggregateElement}
    (hl : Covers es stage (elementsOf a k n) l) :
    Covers es (Function.update stage i ((stage i).next (es i) n).1) (elementsOf a k ((stage i).next (es i) n).2) l := by
  by_cases hi : stage i = .start
  · have hE : elementsOf a k (storeElement (es i) n) = withElement (es i) (elementsOf a k n) := by
      obtain ⟨rfl, rfl⟩ := hsame i
      exact elementsOf_storeElement_self fun x hx => h.hashes x hx i
    have hstore := hl.store (i := i) (by simp [hi])
    rw [hi] at hgoes ⊢
    show Covers es (Function.update stage i .stored) (elementsOf a k (storeElement (es i) n)) l
    rw [hE]
    exact hstore.goto hgoes
  · rw [Stage.next_elementsOf hi]
    exact hl.goto hgoes

/-- **A step of a call** keeps the invariant unless it finishes beside a thread that holds a content. -/
theorem Refreshing.call (h : Refreshing a k es n stage reading) (hsame : ∀ j, (es j).address = a ∧ (es j).key = k)
    (hhash : ∀ j j', (es j).itemHash = (es j').itemHash → es j = es j')
    (htime : ∀ j j', (es j).time = (es j').time → es j = es j') {i : ι}
    (hguard : stage i ≠ .finished → ((stage i).next (es i) n).1 = .finished →
      (∀ j, j ≠ i → ¬ (stage j).Holding) ∧ ∀ j l keys, reading j ≠ .writing (a, k) l keys) :
    Refreshing a k es ((stage i).next (es i) n).2 (Function.update stage i ((stage i).next (es i) n).1) reading := by
  refine ⟨h.sound.step hsame hhash htime fun hi hnext => (hguard hi hnext).1, fun j l keys hj => ?_⟩
  obtain ⟨l', hl', hfold⟩ := h.held j l keys hj
  by_cases hgoes : ((stage i).next (es i) n).1 = .finished
  · by_cases hi : stage i = .finished
    · rw [hi] at hgoes ⊢
      have hupdate : Function.update stage i .finished = stage := by
        rw [← hi]
        exact Function.update_eq_self i stage
      refine ⟨l', ?_, hfold⟩
      show Covers es (Function.update stage i .finished) (elementsOf a k n) l'
      rwa [hupdate]
    · exact absurd hj ((hguard hi hgoes).2 j l keys)
  · exact ⟨l', h.sound.covers_step hsame hgoes hl', hfold⟩

variable [DecidableEq κ]

omit [DecidableEq ι] in
/-- **A step of a reader** keeps the invariant. -/
theorem Refreshing.reader (h : Refreshing a k es n stage reading) (dirty : Node → List (Address × String)) (j : κ) :
    ∃ stage' : ι → Stage, (∀ i, (stage' i).prog (es i) = (stage i).prog (es i)) ∧
      Refreshing a k es ((reading j).next dirty n).2 stage'
        (Function.update reading j ((reading j).next dirty n).1) := by
  have hothers : ∀ {s : RefreshStage} {j' l keys}, Function.update reading j s j' = .writing (a, k) l keys →
      (∃ l keys, s = .writing (a, k) l keys) ∨ reading j' = .writing (a, k) l keys := by
    intro s j' l keys hj'
    by_cases he : j' = j
    · subst he
      rw [Function.update_self] at hj'
      exact .inl ⟨l, keys, hj'⟩
    · rw [Function.update_of_ne he] at hj'
      exact .inr hj'
  cases hj : reading j with
  | start =>
    refine ⟨stage, fun _ => rfl, h.sound, fun j' l keys hj' => ?_⟩
    rcases hothers hj' with ⟨_, _, hs⟩ | hj'
    · cases hs
    · exact h.held j' l keys hj'
  | refreshing keys =>
    cases keys with
    | nil =>
      refine ⟨stage, fun _ => rfl, h.sound, fun j' l keys hj' => ?_⟩
      rcases hothers hj' with ⟨_, _, hs⟩ | hj'
      · cases hs
      · exact h.held j' l keys hj'
    | cons p keys =>
      refine ⟨stage, fun _ => rfl, h.sound, fun j' l keys' hj' => ?_⟩
      by_cases he : j' = j
      · -- what is read now covers everything
        subst he
        rw [Function.update_self] at hj'
        simp only [RefreshStage.next] at hj'
        split_ifs at hj'
        obtain ⟨rfl, rfl, rfl⟩ := RefreshStage.writing.inj hj'
        have hnodup : (elementsOf a k n).Nodup := (List.Nodup.of_map _ h.sound.nodup).filter _
        exact ⟨elementsOf a k n, ⟨hnodup, fun _ hx => hx, fun x hx hx' => absurd hx hx'⟩,
          mergeElements_chronologicalElements a k n⟩
      · rw [Function.update_of_ne he] at hj'
        exact h.held j' l keys' hj'
  | writing p l keys =>
    by_cases hp : p = (a, k)
    · subst hp
      obtain ⟨l', hl', hfold⟩ := h.held j l keys hj
      obtain ⟨stage', hprog, hfinished, hsound⟩ := h.sound.rewritten hl' hfold
      refine ⟨stage', hprog, hsound, fun j' m keys' hj' => ?_⟩
      rcases hothers hj' with ⟨_, _, hs⟩ | hj'
      · cases hs
      · obtain ⟨m', hm', hrest⟩ := h.held j' m keys' hj'
        exact ⟨m', hm'.congr hfinished, hrest⟩
    · refine ⟨stage, fun _ => rfl, h.sound.congr rfl ?_, fun j' m keys' hj' => ?_⟩
      · exact find?_writeAggregate_other fun he => hp he.symm
      · rcases hothers hj' with ⟨_, _, hs⟩ | hj'
        · cases hs
        · exact h.held j' m keys' hj'

end Kept

/-! ## Runs -/

section Runs

variable {ι κ : Type} [DecidableEq ι] [DecidableEq κ] {a : Address} {k : String}

/-- The next statement of a reader writes a content it has computed. -/
def RefreshHolds (a : Address) (k : String) (p : Prog Node DbError (Except HandlerError Unit)) : Prop :=
  ∃ s keys, p = (ignore (db (updateAggregate a k s)) >>= fun _ => refreshAll keys : Db HandlerError Unit).run

/-- No call finishes while another call or a reader holds a content. -/
def NoCallBesideWriter (a : Address) (k : String)
    (c : Config Node DbError (Except HandlerError Unit) (ι ⊕ κ)) : ι ⊕ κ → Prop
  | .inl i => c.Finishes (.inl i) → (∀ i', i' ≠ i → ¬ HoldsContent a k (c.threads (.inl i'))) ∧
      ∀ j, ¬ RefreshHolds a k (c.threads (.inr j))
  | .inr _ => True

/-- Calls of the handler, and readers. -/
def callsAndReaders (ms : ι → Message) (ctx : ι → HandlerContext) (order : κ → SqlOrder)
    (readers : κ → AggregateReader) : ι ⊕ κ → Prog Node DbError (Except HandlerError Unit)
  | .inl i => (process (ms i) (ctx i)).run
  | .inr j => ((readers j).refresh (order j)).run

/-- When all have finished the aggregate is dirty or the fold of its elements: for every run from `n₀` whose steps
meet the guard. -/
def RefreshLosesNothing (guard : Config Node DbError (Except HandlerError Unit) (ι ⊕ κ) → ι ⊕ κ → Prop) (a : Address)
    (k : String) (threads : ι ⊕ κ → Prog Node DbError (Except HandlerError Unit)) (n₀ : Node) : Prop :=
  ∀ c, Config.Runs guard ⟨n₀, threads⟩ c → (∀ t, (c.threads t).finished = true) → Consistent a k c.store

/-- Everything the run has to keep. -/
def Underway (a : Address) (k : String) (es : ι → AggregateElement) (dirty : κ → Node → List (Address × String))
    (c : Config Node DbError (Except HandlerError Unit) (ι ⊕ κ)) : Prop :=
  ∃ stage reading, (∀ i, c.threads (.inl i) = (stage i).prog (es i)) ∧
    (∀ j, c.threads (.inr j) = (reading j).prog (dirty j)) ∧ Refreshing a k es c.store stage reading

variable {es : ι → AggregateElement} {dirty : κ → Node → List (Address × String)} {n₀ : Node}
  {c : Config Node DbError (Except HandlerError Unit) (ι ⊕ κ)}

theorem Underway.call (hb : Updates a k es n₀) (h : Underway a k es dirty c) {i : ι}
    (hg : NoCallBesideWriter a k c (.inl i)) : Underway a k es dirty (c.step (.inl i)) := by
  obtain ⟨stage, reading, hcalls, hreaders, hkept⟩ := h
  have hnext := Stage.next_prog (es i) c.store (stage i)
  rw [← hcalls i] at hnext
  refine ⟨Function.update stage i ((stage i).next (es i) c.store).1, reading, fun i' => ?_, fun j => ?_, ?_⟩
  · by_cases he : i' = i
    · subst he
      rw [Config.step_threads_self, hnext, Function.update_self]
    · rw [Config.step_threads_of_ne c (by simpa using he), Function.update_of_ne he]
      exact hcalls i'
  · rw [Config.step_threads_of_ne c Sum.inr_ne_inl]
    exact hreaders j
  · rw [Config.step_store, hnext]
    refine hkept.call hb.same hb.hashes hb.times fun hi hfinishes => ?_
    have hdone : c.Finishes (.inl i) := by
      refine ⟨?_, ?_⟩
      · rw [hcalls i, Bool.eq_false_iff]
        exact fun hf => hi ((Stage.finished_prog (es i) _).1 hf)
      · rw [Config.step_threads_self, hnext, hfinishes]
        rfl
    obtain ⟨hothers, hnone⟩ := hg hdone
    refine ⟨fun i' hne hhold => hothers i' hne ?_, fun j l keys hj => hnone j ?_⟩
    · rw [hcalls i']
      exact holdsContent_of_holding (hb.same i') hhold
    · rw [hreaders j, hj]
      exact ⟨_, _, rfl⟩

theorem Underway.reader (h : Underway a k es dirty c) (j : κ) : Underway a k es dirty (c.step (.inr j)) := by
  obtain ⟨stage, reading, hcalls, hreaders, hkept⟩ := h
  have hnext := RefreshStage.next_prog (dirty j) c.store (reading j)
  rw [← hreaders j] at hnext
  obtain ⟨stage', hprog, hkept'⟩ := hkept.reader (dirty j) j
  refine ⟨stage', Function.update reading j ((reading j).next (dirty j) c.store).1, fun i => ?_, fun j' => ?_, ?_⟩
  · rw [Config.step_threads_of_ne c Sum.inl_ne_inr, hprog i]
    exact hcalls i
  · by_cases he : j' = j
    · subst he
      rw [Config.step_threads_self, hnext, Function.update_self]
    · rw [Config.step_threads_of_ne c (by simpa using he), Function.update_of_ne he]
      exact hreaders j'
  · rw [Config.step_store, hnext]
    exact hkept'

end Runs

/-! ## A message that finds the aggregate dirty -/

section Lost

variable {a : Address} {k : String} {e : AggregateElement} {dirty : Node → List (Address × String)} {n : Node}
  {s : Stage} {r : RefreshStage} {c : Config Node DbError (Except HandlerError Unit) (Fin 1 ⊕ Fin 1)}

/-- One call and one reader, at these stages. -/
structure Between (e : AggregateElement) (dirty : Node → List (Address × String)) (n : Node) (s : Stage)
    (r : RefreshStage) (c : Config Node DbError (Except HandlerError Unit) (Fin 1 ⊕ Fin 1)) : Prop where
  store : c.store = n
  call : c.threads (.inl 0) = s.prog e
  reader : c.threads (.inr 0) = r.prog dirty

theorem Between.stepCall (h : Between e dirty n s r c) {s' : Stage} {n' : Node} (hnext : s.next e n = (s', n')) :
    Between e dirty n' s' r (c.step (.inl 0)) := by
  have hprog := Stage.next_prog e c.store s
  rw [← h.call, h.store, hnext] at hprog
  refine ⟨?_, ?_, ?_⟩
  · rw [Config.step_store, h.store, hprog]
  · rw [Config.step_threads_self, h.store, hprog]
  · rw [Config.step_threads_of_ne c (by simp)]
    exact h.reader

theorem Between.stepReader (h : Between e dirty n s r c) {r' : RefreshStage} {n' : Node}
    (hnext : r.next dirty n = (r', n')) : Between e dirty n' s r' (c.step (.inr 0)) := by
  have hprog := RefreshStage.next_prog dirty c.store r
  rw [← h.reader, h.store, hnext] at hprog
  refine ⟨?_, ?_, ?_⟩
  · rw [Config.step_store, h.store, hprog]
  · rw [Config.step_threads_of_ne c (by simp)]
    exact h.call
  · rw [Config.step_threads_self, h.store, hprog]

/-- The fold without the newest element is not the fold. -/
theorem not_consistent_without {row : AggregateRow} (hrow : n.aggregates.find? (e.address, e.key) = some row)
    (hE : elementsOf e.address e.key n ≠ []) (hnew : ∀ x ∈ n.aggregateElements, x.itemHash ≠ e.itemHash)
    (hlater : ∀ x ∈ elementsOf e.address e.key n, x.time < e.time) :
    ¬ Consistent e.address e.key (writeAggregate e.address e.key
      (mergeElements (chronologicalElements e.address e.key n)) (storeElement e n)) := by
  intro hconsistent
  have hrow' : (storeElement e n).aggregates.find? (e.address, e.key) = some row := by
    rw [storeElement_aggregates, hrow]
  obtain ⟨-, -, htime⟩ := hconsistent.clean _ (find?_writeAggregate_self hrow') rfl
  have helements : elementsOf e.address e.key (writeAggregate e.address e.key
      (mergeElements (chronologicalElements e.address e.key n)) (storeElement e n)) =
        withElement e (elementsOf e.address e.key n) :=
    elementsOf_storeElement_self fun x hx he => absurd he (hnew x hx)
  have he : e ∈ withElement e (elementsOf e.address e.key n) := mem_withElement.2 (.inr rfl)
  obtain ⟨x, hx, hxtime, -⟩ := rebuilt_newest hE
  obtain ⟨y, -, hytime, hmax⟩ := rebuilt_newest (List.ne_nil_of_mem he)
  rw [helements, mergeElements_chronologicalElements, hxtime, hytime] at htime
  have hle : e.time ≤ x.time := (hmax e he).trans (le_of_eq htime.symm)
  exact absurd (hlater x hx) (not_lt.2 hle)

/-- **A newer message that comes while a reader rebuilds a dirty aggregate is lost**: the reader reads the elements,
the message is stored and finds the aggregate dirty, and the reader writes. -/
theorem lost_beside_reader {m : Message} {ctx : HandlerContext} {order : SqlOrder} {reader : AggregateReader}
    {row : AggregateRow} (he : element? ctx.env m = some e)
    (hrow : n.aggregates.find? (e.address, e.key) = some row) (hdirty : row.dirty = true)
    (hread : reader.dirty order n = [(e.address, e.key)]) (hE : elementsOf e.address e.key n ≠ [])
    (hnew : ∀ x ∈ n.aggregateElements, x.itemHash ≠ e.itemHash)
    (hlater : ∀ x ∈ elementsOf e.address e.key n, x.time < e.time) :
    ¬ RefreshLosesNothing (fun _ _ => True) e.address e.key
      (callsAndReaders (fun _ : Fin 1 => m) (fun _ => ctx) (fun _ : Fin 1 => order) fun _ => reader) n := by
  intro hlost
  have hstart : Between e (reader.dirty order) n .start .start
      ⟨n, callsAndReaders (fun _ : Fin 1 => m) (fun _ => ctx) (fun _ : Fin 1 => order) fun _ => reader⟩ := by
    refine ⟨rfl, process_run he, ?_⟩
    show (reader.refresh order).run = _
    rw [AggregateReader.refresh_eq]
    rfl
  have hempty : (elementsOf e.address e.key n).isEmpty = false := by simpa using hE
  have hrow' : (storeElement e n).aggregates.find? (e.address, e.key) = some row := by
    rw [storeElement_aggregates, hrow]
  have hkept : insertFirst e (storeElement e n) = storeElement e n := by
    have hfind : (storeElement e n).aggregates.find? ((firstRow e).address, (firstRow e).key) = some row := hrow'
    rw [insertFirst, Table.insertNew_of_find? hfind]
  -- the reader reads which aggregates are dirty, and the elements
  have hdirties : RefreshStage.start.next (reader.dirty order) n = (.refreshing [(e.address, e.key)], n) := by
    rw [RefreshStage.next, hread]
  have helements : (RefreshStage.refreshing [(e.address, e.key)]).next (reader.dirty order) n =
      (.writing (e.address, e.key) (chronologicalElements e.address e.key n) [], n) := by
    rw [RefreshStage.next, hempty]
    rfl
  have hreading := (hstart.stepReader hdirties).stepReader helements
  -- the call stores its element, finds the row, and finds it dirty
  have hexisting : Stage.stored.next e (storeElement e n) = (.existing, storeElement e n) := by
    rw [Stage.next, hrow', hkept]
    rfl
  have hskipped : Stage.existing.next e (storeElement e n) = (.finished, storeElement e n) := by
    rw [Stage.next, hrow', Stage.afterSelect, if_pos hdirty]
  have hcalled : Between e (reader.dirty order) (storeElement e n) .finished _ _ :=
    ((hreading.stepCall rfl).stepCall hexisting).stepCall hskipped
  -- the reader writes the fold of what it has read
  have hwritten := hcalled.stepReader rfl
  have hconsistent := hlost _ (.step trivial (.step trivial (.step trivial (.step trivial (.step trivial
    (.step trivial (.refl _))))))) fun t => by
      rcases t with i | j
      · rw [Subsingleton.elim i 0, hwritten.call]
        rfl
      · rw [Subsingleton.elim j 0, hwritten.reader]
        rfl
  rw [hwritten.store] at hconsistent
  exact not_consistent_without hrow hE hnew hlater hconsistent

end Lost

/-! ### A profile with more than a thousand elements -/

section Overfull

/-- An old revision of the profile. -/
def agedElement (i : Nat) : AggregateElement :=
  { address := profileOne.sender, key := "profile", itemHash := "QmProfile" ++ Nat.repr i,
    content := Value.emptyObject, time := i }

/-- The node after `m + 1` revisions, each newer than the last. -/
def inOrder : Nat → Node
  | 0 => processed (agedElement 1) .empty
  | m + 1 => processed (agedElement (m + 2)) (inOrder m)

/-- The node after a revision more that is older than all of them. -/
def outOfOrder (m : Nat) : Node := processed (agedElement 0) (inOrder m)

theorem agedElement_itemHash {i j : Nat} (h : (agedElement i).itemHash = (agedElement j).itemHash) : i = j := by
  have hrepr : Nat.repr i = Nat.repr j := by
    have hlist := congrArg String.toList h
    simp only [agedElement, String.toList_append, List.append_cancel_left_eq] at hlist
    exact String.toList_inj.1 hlist
  rw [← Nat.ofDigitChars_ten_toDigits (n := i), ← Nat.toList_repr, hrepr, Nat.toList_repr,
    Nat.ofDigitChars_ten_toDigits]

/-- One row, that of the profile. -/
def OneRow (dirty : Bool) (time : Nat) (n : Node) : Prop :=
  ∃ row, n.aggregates.rows = [row] ∧ (row.address, row.key) = (profileOne.sender, "profile") ∧ row.dirty = dirty ∧
    row.time = time

theorem storeElement_aged {i : Nat} {is : List Nat} {n : Node} (hi : i ∉ is)
    (hel : n.aggregateElements = is.map agedElement) :
    storeElement (agedElement i) n = { n with aggregateElements := (is ++ [i]).map agedElement } := by
  rw [storeElement, if_neg, List.map_append, hel]
  · rfl
  · rintro ⟨x, hx, he⟩
    rw [hel] at hx
    obtain ⟨j, hj, rfl⟩ := List.mem_map.1 hx
    exact hi (agedElement_itemHash he ▸ hj)

theorem OneRow.find? {dirty : Bool} {time : Nat} {n : Node} (h : OneRow dirty time n) :
    ∃ row, n.aggregates.find? (profileOne.sender, "profile") = some row ∧ n.aggregates.rows = [row] ∧
      row.dirty = dirty ∧ row.time = time := by
  obtain ⟨row, hrows, hkey, hdirty, htime⟩ := h
  exact ⟨row, Table.find?_eq_some.2 ⟨by rw [Table.mem_def, hrows]; exact List.mem_singleton_self row, hkey⟩, hrows,
    hdirty, htime⟩

/-- An update of the row of the profile changes the only row there is. -/
theorem OneRow.update {dirty dirty' : Bool} {time time' : Nat} {n n' : Node} (h : OneRow dirty time n)
    {f : AggregateRow → AggregateRow} (hf : ∀ r : AggregateRow, ((f r).address, (f r).key) = (r.address, r.key))
    (hn : n'.aggregates = n.aggregates.update (fun r => (r.address, r.key) = (profileOne.sender, "profile")) f hf)
    (hdirty : ∀ r : AggregateRow, r.dirty = dirty → (f r).dirty = dirty')
    (htime : ∀ r : AggregateRow, r.time = time → (f r).time = time') :
    OneRow dirty' time' n' := by
  obtain ⟨row, hrows, hkey, hd, ht⟩ := h
  refine ⟨f row, ?_, (hf row).trans hkey, hdirty row hd, htime row ht⟩
  rw [hn]
  show n.aggregates.rows.map (fun r => if (r.address, r.key) = (profileOne.sender, "profile") then f r else r) = [f row]
  rw [hrows, List.map_singleton, if_pos hkey]

theorem inOrder_row (m : Nat) :
    (inOrder m).aggregateElements = (List.range' 1 (m + 1)).map agedElement ∧ OneRow false (m + 1) (inOrder m) := by
  induction m with
  | zero => exact ⟨rfl, firstRow (agedElement 1), rfl, rfl, rfl, rfl⟩
  | succ m ih =>
    obtain ⟨hel, hrow⟩ := ih
    have hnew : m + 2 ∉ List.range' 1 (m + 1) := by
      rw [List.mem_range'_1]
      omega
    have hstore := storeElement_aged hnew hel
    have hrange : List.range' 1 (m + 1) ++ [m + 2] = List.range' 1 (m + 1 + 1) := by
      rw [List.range'_1_concat (n := m + 1), Nat.add_comm 1 (m + 1)]
    obtain ⟨row, hfind, -, hd, ht⟩ := hrow.find?
    have hfind' : (storeElement (agedElement (m + 2)) (inOrder m)).aggregates.find?
        ((agedElement (m + 2)).address, (agedElement (m + 2)).key) = some row := by
      rw [storeElement_aggregates]
      exact hfind
    have hle : row.time ≤ (agedElement (m + 2)).time := by
      rw [ht]
      show ((m + 1 : Nat) : Timestamp) ≤ ((m + 2 : Nat) : Timestamp)
      have hle : m + 1 ≤ m + 2 := by omega
      exact_mod_cast hle
    have heq : inOrder (m + 1) = writeAggregate profileOne.sender "profile" (mergedInto row (agedElement (m + 2)))
        (storeElement (agedElement (m + 2)) (inOrder m)) := by
      rw [inOrder, processed_of_some hfind', merged, hd, if_neg Bool.false_ne_true, if_pos hle]
      rfl
    refine ⟨?_, ?_⟩
    · rw [heq, writeAggregate_aggregateElements, hstore, hrange]
    · refine hrow.update (f := fun r => { r with
        content := (mergedInto row (agedElement (m + 2))).1
        time := (mergedInto row (agedElement (m + 2))).2.2
        lastRevisionHash := some (mergedInto row (agedElement (m + 2))).2.1
        dirty := false }) (fun r => rfl) ?_ (fun _ _ => rfl) fun _ _ => rfl
      rw [heq, hstore]
      rfl

/-- With more than a thousand elements the profile is marked dirty. -/
theorem outOfOrder_row {m : Nat} (hm : dirtyThreshold < m + 2) :
    (outOfOrder m).aggregateElements = (List.range' 1 (m + 1) ++ [0]).map agedElement ∧
      OneRow true (m + 1) (outOfOrder m) := by
  obtain ⟨hel, hrow⟩ := inOrder_row m
  have hold : 0 ∉ List.range' 1 (m + 1) := by
    rw [List.mem_range'_1]
    omega
  have hstore := storeElement_aged hold hel
  obtain ⟨row, hfind, -, hd, ht⟩ := hrow.find?
  have hfind' : (storeElement (agedElement 0) (inOrder m)).aggregates.find?
      ((agedElement 0).address, (agedElement 0).key) = some row := by
    rw [storeElement_aggregates]
    exact hfind
  have holder : ¬ row.time ≤ (agedElement 0).time := by
    rw [ht, not_le]
    show ((0 : Nat) : Timestamp) < ((m + 1 : Nat) : Timestamp)
    have hlt : 0 < m + 1 := by omega
    exact_mod_cast hlt
  have hcount : dirtyThreshold < (elementsOf (agedElement 0).address (agedElement 0).key
      (storeElement (agedElement 0) (inOrder m))).length := by
    have hall : elementsOf (agedElement 0).address (agedElement 0).key
        (storeElement (agedElement 0) (inOrder m)) = (List.range' 1 (m + 1) ++ [0]).map agedElement := by
      rw [elementsOf, hstore]
      refine List.filter_eq_self.2 fun x hx => ?_
      obtain ⟨j, -, rfl⟩ := List.mem_map.1 hx
      exact decide_eq_true ⟨rfl, rfl⟩
    rw [hall, List.length_map, List.length_append, List.length_range', List.length_singleton]
    omega
  have heq : outOfOrder m = setDirty profileOne.sender "profile" (storeElement (agedElement 0) (inOrder m)) := by
    rw [outOfOrder, processed_of_some hfind', merged, hd, if_neg Bool.false_ne_true, if_neg holder, if_pos hcount]
    rfl
  refine ⟨?_, ?_⟩
  · rw [heq]
    show (storeElement (agedElement 0) (inOrder m)).aggregateElements = _
    rw [hstore]
  · refine hrow.update (f := fun r => { r with dirty := true }) (fun r => rfl) ?_ (fun _ _ => rfl) fun r hr => hr
    rw [heq, hstore]
    rfl

/-- The profile with a thousand revisions and one that came too late. -/
def overfull : Node := outOfOrder 999

theorem overfull_row : OneRow true (999 + 1) overfull := (outOfOrder_row (by decide)).2

theorem mem_overfull {x : AggregateElement} (hx : x ∈ overfull.aggregateElements) :
    ∃ i ≤ 1000, x = agedElement i := by
  rw [overfull, (outOfOrder_row (by decide)).1] at hx
  obtain ⟨i, hi, rfl⟩ := List.mem_map.1 hx
  refine ⟨i, ?_, rfl⟩
  rw [List.mem_append, List.mem_range'_1, List.mem_singleton] at hi
  omega

theorem agedElement_ne (i : Nat) : (agedElement i).itemHash ≠ (keyElement 1).itemHash := by
  have haged : (agedElement i).itemHash.toList.head? = some 'Q' := by
    rw [agedElement, String.toList_append]
    rfl
  have hkey : (keyElement 1).itemHash.toList.head? = some '6' := by decide +kernel
  intro he
  rw [he, hkey] at haged
  exact absurd (Option.some.inj haged) (by decide)

theorem overfull_older {x : AggregateElement} (hx : x ∈ overfull.aggregateElements) : x.time < (keyElement 1).time := by
  obtain ⟨i, hi, rfl⟩ := mem_overfull hx
  show ((i : Nat) : Timestamp) < ((2000 : Nat) : Timestamp)
  have hlt : i < 2000 := by omega
  exact_mod_cast hlt

theorem overfull_updates : Updates profileOne.sender "profile" (fun _ : Fin 1 => keyElement 1) overfull where
  same _ := ⟨rfl, rfl⟩
  hashes _ _ _ := rfl
  times _ _ _ := rfl
  nodup := by
    rw [overfull, (outOfOrder_row (by decide)).1, List.map_map]
    refine List.Nodup.map (fun i j h => agedElement_itemHash h) ?_
    refine List.Nodup.append List.nodup_range' (List.nodup_singleton 0) ?_
    intro i hi hi'
    rw [List.mem_range'_1] at hi
    rw [List.mem_singleton] at hi'
    omega
  storedHashes x hx i he := by
    obtain ⟨j, -, rfl⟩ := mem_overfull hx
    exact absurd he (agedElement_ne j)
  storedTimes x hx i ht := absurd ht (overfull_older (mem_elementsOf.1 hx).1).ne

theorem overfull_consistent : Consistent profileOne.sender "profile" overfull := by
  obtain ⟨row, hfind, -, hdirty, -⟩ := overfull_row.find?
  refine ⟨fun hnone => ?_, fun row' hrow' hclean => ?_⟩
  · rw [hfind] at hnone
    cases hnone
  · rw [hfind] at hrow'
    obtain rfl := Option.some.inj hrow'
    rw [hdirty] at hclean
    cases hclean

/-- A request for all aggregates of the profile's owner. -/
def profileReader : AggregateReader := .get profileOne.sender ⟨none, none⟩

theorem OneRow.dirty {time : Nat} {n : Node} (h : OneRow true time n) :
    profileReader.dirty .stored n = [(profileOne.sender, "profile")] := by
  obtain ⟨row, hrows, hkey, hdirty, -⟩ := h
  have haddress : row.address = profileOne.sender := congrArg Prod.fst hkey
  show dirtyOf ((n.aggregates.rows.filter fun r => r.address = profileOne.sender ∧ columnIn none (some r.key)).take
    1000) = _
  rw [hrows, List.filter_cons_of_pos (by simp [haddress, columnIn]), List.filter_nil, dirtyOf]
  show ([row].filter AggregateRow.dirty).map (fun r => (r.address, r.key)) = _
  rw [List.filter_cons_of_pos hdirty, List.filter_nil, List.map_singleton, hkey]

end Overfull

/-! ### A refresh between two messages -/

section Refreshed

/-- A dirty profile of one element. -/
def dirtyProfile : Node := setDirty profileOne.sender "profile" (processed (keyElement 0) .empty)

/-- Two newer revisions and a request, before their first statements. -/
def profileCalls : Config Node DbError (Except HandlerError Unit) (Fin 2 ⊕ Fin 1) :=
  ⟨dirtyProfile, callsAndReaders (fun i => keyMessage i.succ) (fun _ => .ofEnv keyEnv) (fun _ => .stored)
    fun _ => profileReader⟩

/-- The first message stores its element while the request rebuilds the profile, and goes on when it has. -/
def profileSchedule : List (Fin 2 ⊕ Fin 1) :=
  [.inr 0, .inr 0, .inl 0, .inr 0, .inl 0, .inl 0, .inl 0, .inl 1, .inl 1, .inl 1, .inl 1]

/-- A call finishes only when no request is under way and no other call is about to finish. -/
def AloneAtEnd (c : Config Node DbError (Except HandlerError Unit) (Fin 2 ⊕ Fin 1)) : Fin 2 ⊕ Fin 1 → Prop
  | .inl i => (c.threads (.inl i)).finished = false ∧ ((c.step (.inl i)).threads (.inl i)).finished = true →
      (∀ i', i' ≠ i → (c.threads (.inl i')).finished = true ∨
        ((c.threads (.inl i')).next c.store).1.finished = false) ∧ ∀ j, (c.threads (.inr j)).finished = true
  | .inr _ => True

instance (c : Config Node DbError (Except HandlerError Unit) (Fin 2 ⊕ Fin 1)) : (t : Fin 2 ⊕ Fin 1) →
    Decidable (AloneAtEnd c t)
  | .inl _ => inferInstanceAs (Decidable (_ ∧ _ → _ ∧ _))
  | .inr _ => .isTrue trivial

theorem AloneAtEnd.guard {c : Config Node DbError (Except HandlerError Unit) (Fin 2 ⊕ Fin 1)} {t : Fin 2 ⊕ Fin 1}
    (h : AloneAtEnd c t) (a : Address) (k : String) : NoCallBesideWriter a k c t := by
  cases t with
  | inr j => trivial
  | inl i =>
    intro hfinishes
    obtain ⟨hcalls, hreaders⟩ := h hfinishes
    refine ⟨?_, ?_⟩
    · rintro i' hne ⟨s, hs⟩
      have hi' := hcalls i' hne
      rw [hs] at hi'
      rcases hi' with hi' | hi' <;> exact Bool.noConfusion hi'
    · rintro j ⟨s, keys, hs⟩
      have hj := hreaders j
      rw [hs] at hj
      exact Bool.noConfusion hj

example : (keyElement 0).time < (keyElement 1).time := by decide +kernel

theorem dirtyProfile_updates :
    Updates profileOne.sender "profile" (fun i : Fin 2 => keyElement i.succ) dirtyProfile where
  same := by decide +kernel
  hashes := by decide +kernel
  times := by decide +kernel
  nodup := by decide +kernel
  storedHashes := by decide +kernel
  storedTimes := by decide +kernel

theorem dirtyProfile_consistent : Consistent profileOne.sender "profile" dirtyProfile := by
  have hrow : dirtyProfile.aggregates.find? (profileOne.sender, "profile") =
      some { firstRow (keyElement 0) with dirty := true } := by decide +kernel
  refine ⟨fun hnone => ?_, fun row hrow' hclean => ?_⟩
  · rw [hrow] at hnone
    cases hnone
  · rw [hrow] at hrow'
    obtain rfl := Option.some.inj hrow'
    cases hclean

end Refreshed

end AlephCore.AggregateHandler
