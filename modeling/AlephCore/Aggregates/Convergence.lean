import AlephCore.Aggregates.Spec

/-!
# Convergence — handling the messages of one aggregate in any order

The messages for one `(address, key)` are handled one after another, in any order and each any number
of times.  If their times are pairwise different, the row is the chronological fold of the elements
whenever it is not dirty, and does not depend on the order.  With two equal times it does: the message
handled later is merged last, while rebuilding breaks the tie by hash.
-/

namespace AlephCore.AggregateHandler

open ProgE Prog

/-! ## Handling messages -/

/-- The element an AGGREGATE message stores, if its content can be read. -/
def element? (env : Env) (message : Message) : Option AggregateElement :=
  (parseContent env AggregateContent.decode (fun e => e) message).toOption.map (elementOf message)

theorem exec_process_ok {message : Message} {ctx : HandlerContext} {n n' : Node} {u : Unit} :
    Exec (process message ctx).run n (.ok u) n' ↔
      ∃ e, element? ctx.env message = some e ∧ n' = processed e n := by
  unfold process element?
  rw [exec_fromExcept_bind_ok]
  cases parseContent ctx.env AggregateContent.decode (fun e => e) message with
  | error e => simp [Except.toOption]
  | ok c => simp [Except.toOption, exec_processElement_ok]

/-- The messages are handled one after another, each to its end. -/
inductive Handles (env : Env) : List Message → Node → Node → Prop
  | nil (n : Node) : Handles env [] n n
  | cons {m : Message} {ms : List Message} {n n₁ n₂ : Node} (ctx : HandlerContext) (henv : ctx.env = env)
      (h : Exec (process m ctx).run n (.ok ()) n₁) (hs : Handles env ms n₁ n₂) :
      Handles env (m :: ms) n n₂

/-- A message for the aggregate `(a, k)`. -/
def ForAggregate (env : Env) (a : Address) (k : String) (m : Message) : Prop :=
  ∃ e, element? env m = some e ∧ e.address = a ∧ e.key = k

theorem forAggregate_iff {env : Env} {a : Address} {k : String} {m : Message} :
    ForAggregate env a k m ↔ (element? env m).any (fun e => e.address = a ∧ e.key = k) = true := by
  simp [ForAggregate, Option.any_eq_true]

instance (env : Env) (a : Address) (k : String) (m : Message) : Decidable (ForAggregate env a k m) :=
  decidable_of_iff _ forAggregate_iff.symm

/-- Nothing is stored for the aggregate, or under the hashes of its messages. -/
structure Fresh (a : Address) (k : String) (ms : List Message) (n : Node) : Prop where
  noRow : n.aggregates.find? (a, k) = none
  noElements : elementsOf a k n = []
  newHashes : ∀ m ∈ ms, ∀ x ∈ n.aggregateElements, x.itemHash ≠ m.itemHash

/-- A row that is not dirty has content, last revision and time of the rebuilt aggregate. -/
def Converged (a : Address) (k : String) (n : Node) : Prop :=
  ∀ row, n.aggregates.find? (a, k) = some row → row.dirty = false →
    RowHolds row (mergeElements (chronologicalElements a k n))

/-- Whatever is delivered of `ms` and in whatever order, the aggregate converges, and two deliveries of
the same messages give the same row. -/
structure Convergent (env : Env) (a : Address) (k : String) (ms : List Message) : Prop where
  converged : ∀ n ds n', Fresh a k ms n → (∀ m ∈ ds, m ∈ ms) → Handles env ds n n' → Converged a k n'
  sameRow : ∀ n ds ds' n₁ n₂ row₁ row₂, Fresh a k ms n → (∀ m ∈ ds, m ∈ ms) → (∀ m, m ∈ ds ↔ m ∈ ds') →
    Handles env ds n n₁ → Handles env ds' n n₂ →
    n₁.aggregates.find? (a, k) = some row₁ → row₁.dirty = false →
    n₂.aggregates.find? (a, k) = some row₂ → row₂.dirty = false → row₁ = row₂

/-- No two messages of `ms` carry the same time. -/
def DistinctTimes (env : Env) (ms : List Message) : Prop :=
  ∀ m ∈ ms, ∀ m' ∈ ms, ∀ e e', element? env m = some e → element? env m' = some e' →
    e.time = e'.time → m = m'

/-! ## Distinct times converge -/

section Distinct

variable {env : Env} {a : Address} {k : String} {ms : List Message}

/-- The state after the messages `ds` have been handled, started from `n₀`. -/
structure Handled (env : Env) (a : Address) (k : String) (n₀ : Node) (ds : List Message) (n : Node) :
    Prop where
  consistent : Consistent a k n
  nodup : (elementsOf a k n).Nodup
  elements : ∀ x, x ∈ elementsOf a k n ↔ ∃ m ∈ ds, element? env m = some x
  others : ∀ x ∈ n.aggregateElements, x ∈ n₀.aggregateElements ∨ ∃ m ∈ ds, element? env m = some x

theorem Fresh.handled {n : Node} (h : Fresh a k ms n) : Handled env a k n [] n where
  consistent := ⟨fun _ => h.noElements, fun row hrow => by rw [h.noRow] at hrow; cases hrow⟩
  nodup := by rw [h.noElements]; exact List.nodup_nil
  elements := fun x => by rw [h.noElements]; simp
  others := fun x hx => .inl hx

theorem itemHash_of_element? {m : Message} {e : AggregateElement} (h : element? env m = some e) :
    e.itemHash = m.itemHash := by
  obtain ⟨c, -, rfl⟩ := Option.map_eq_some_iff.1 h
  rfl

/-- Different messages of `ms` store different elements: their hashes are distinct. -/
theorem element?_inj (hhash : (ms.map Message.itemHash).Nodup) {m m' : Message} (hm : m ∈ ms)
    (hm' : m' ∈ ms) {e e' : AggregateElement} (he : element? env m = some e)
    (he' : element? env m' = some e') (h : e.itemHash = e'.itemHash) : e = e' := by
  have hmm : m = m' := List.inj_on_of_nodup_map hhash hm hm' (by
    rw [← itemHash_of_element? he, ← itemHash_of_element? he', h])
  rw [hmm, he'] at he
  exact (Option.some.inj he).symm

theorem Handled.step (hhash : (ms.map Message.itemHash).Nodup) (htime : DistinctTimes env ms)
    {n₀ n : Node} {ds : List Message} {m : Message} {e : AggregateElement} (hfresh : Fresh a k ms n₀)
    (hds : ∀ d ∈ ds, d ∈ ms) (hm : m ∈ ms) (he : element? env m = some e)
    (hkey : e.address = a ∧ e.key = k) (h : Handled env a k n₀ ds n) :
    Handled env a k n₀ (m :: ds) (processed e n) := by
  obtain ⟨rfl, rfl⟩ := hkey
  have hdet : ∀ x ∈ n.aggregateElements, x.itemHash = e.itemHash → x = e := by
    intro x hx hxe
    rcases h.others x hx with hx | ⟨d, hd, hx⟩
    · exact absurd (hxe.trans (itemHash_of_element? he)) (hfresh.newHashes m hm x hx)
    · exact element?_inj hhash (hds d hd) hm hx he hxe
  have hel : elementsOf e.address e.key (processed e n) = withElement e (elementsOf e.address e.key n) := by
    rw [← elementsOf_storeElement_self hdet, elementsOf, processed_aggregateElements hdet,
      ← storeElement_aggregateElements hdet, elementsOf]
  refine ⟨consistent_processed h.consistent hdet ?_ ?_, ?_, fun x => ?_, fun x hx => ?_⟩
  · intro x hx y hy hxy
    obtain ⟨d, hd, hdx⟩ := (h.elements x).1 hx
    obtain ⟨d', hd', hdy⟩ := (h.elements y).1 hy
    exact element?_inj hhash (hds d hd) (hds d' hd') hdx hdy hxy
  · intro x hx hxe
    obtain ⟨d, hd, hdx⟩ := (h.elements x).1 hx
    have hdm : d = m := htime d (hds d hd) m hm x e hdx he hxe
    rw [hdm, he] at hdx
    exact (Option.some.inj hdx).symm
  · rw [hel]
    exact nodup_withElement h.nodup
  · rw [hel, mem_withElement, h.elements]
    constructor
    · rintro (⟨d, hd, hx⟩ | rfl)
      · exact ⟨d, List.mem_cons_of_mem m hd, hx⟩
      · exact ⟨m, List.mem_cons_self, he⟩
    · rintro ⟨d, hd, hx⟩
      rcases List.mem_cons.1 hd with rfl | hd
      · rw [he] at hx
        exact .inr (Option.some.inj hx).symm
      · exact .inl ⟨d, hd, hx⟩
  · rw [processed_aggregateElements hdet] at hx
    rcases mem_withElement.1 hx with hx | rfl
    · rcases h.others x hx with hx | ⟨d, hd, hx⟩
      · exact .inl hx
      · exact .inr ⟨d, List.mem_cons_of_mem m hd, hx⟩
    · exact .inr ⟨m, List.mem_cons_self, he⟩

theorem Handled.run (hms : ∀ m ∈ ms, ForAggregate env a k m)
    (hhash : (ms.map Message.itemHash).Nodup) (htime : DistinctTimes env ms) {n₀ : Node} (hfresh : Fresh a k ms n₀) {ds : List Message} {n n' : Node}
    (hrun : Handles env ds n n') :
    ∀ {past : List Message}, (∀ d ∈ past, d ∈ ms) → (∀ d ∈ ds, d ∈ ms) →
      Handled env a k n₀ past n → Handled env a k n₀ (ds.reverse ++ past) n' := by
  induction hrun with
  | nil n =>
    intro past _ _ h
    exact h
  | @cons m ds n n₁ n₂ ctx henv hstep _ ih =>
    intro past hpast hds h
    have hm : m ∈ ms := hds m List.mem_cons_self
    obtain ⟨e, he, rfl⟩ := exec_process_ok.1 hstep
    rw [henv] at he
    obtain ⟨e', he', hkey⟩ := hms m hm
    obtain rfl : e = e' := Option.some.inj (he.symm.trans he')
    have hnext := h.step hhash htime hfresh hpast hm he hkey
    have := @ih (m :: past) (fun d hd => ?_) (fun d hd => hds d (List.mem_cons_of_mem m hd)) hnext
    · simpa using this
    · rcases List.mem_cons.1 hd with rfl | hd
      · exact hm
      · exact hpast d hd

/-- Everything handled from a fresh start. -/
theorem Fresh.run (hms : ∀ m ∈ ms, ForAggregate env a k m) (hhash : (ms.map Message.itemHash).Nodup)
    (htime : DistinctTimes env ms) {n₀ n : Node} (hfresh : Fresh a k ms n₀) {ds : List Message}
    (hds : ∀ d ∈ ds, d ∈ ms) (hrun : Handles env ds n₀ n) : Handled env a k n₀ ds.reverse n := by
  have h := Handled.run hms hhash htime hfresh hrun (by simp) hds hfresh.handled
  rwa [List.append_nil] at h

theorem Handled.strict (hhash : (ms.map Message.itemHash).Nodup) {n₀ n : Node} {ds : List Message}
    (hds : ∀ d ∈ ds, d ∈ ms) (h : Handled env a k n₀ ds n) : Strict Chronological (elementsOf a k n) := by
  refine HashesDetermine.strict fun x hx y hy hxy => ?_
  obtain ⟨d, hd, hdx⟩ := (h.elements x).1 hx
  obtain ⟨d', hd', hdy⟩ := (h.elements y).1 hy
  exact element?_inj hhash (hds d hd) (hds d' hd') hdx hdy hxy

/-- **Messages with distinct times converge.** -/
theorem DistinctTimes.convergent (htime : DistinctTimes env ms) (hms : ∀ m ∈ ms, ForAggregate env a k m)
    (hhash : (ms.map Message.itemHash).Nodup) : Convergent env a k ms where
  converged n ds n' hfresh hds hrun row hrow hd :=
    (hfresh.run hms hhash htime hds hrun).consistent.clean row hrow hd
  sameRow n ds ds' n₁ n₂ row₁ row₂ hfresh hds heq hrun₁ hrun₂ hrow₁ hd₁ hrow₂ hd₂ := by
    have hds' : ∀ d ∈ ds', d ∈ ms := fun d hd => hds d ((heq d).2 hd)
    have h₁ := hfresh.run hms hhash htime hds hrun₁
    have h₂ := hfresh.run hms hhash htime hds' hrun₂
    have hperm : (elementsOf a k n₁).Perm (elementsOf a k n₂) := by
      refine (List.perm_ext_iff_of_nodup h₁.nodup h₂.nodup).2 fun x => ?_
      rw [h₁.elements, h₂.elements]
      simp only [List.mem_reverse, heq]
    have hsame : rebuilt (elementsOf a k n₁) = rebuilt (elementsOf a k n₂) :=
      chronoFold_perm hperm (h₁.strict hhash fun d hd => hds d (List.mem_reverse.1 hd))
    obtain ⟨hc₁, hl₁, ht₁⟩ := h₁.consistent.clean row₁ hrow₁ hd₁
    obtain ⟨hc₂, hl₂, ht₂⟩ := h₂.consistent.clean row₂ hrow₂ hd₂
    have hkey : (row₁.address, row₁.key) = (row₂.address, row₂.key) :=
      (Table.find?_eq_some.1 hrow₁).2.trans (Table.find?_eq_some.1 hrow₂).2.symm
    obtain ⟨ha, hk⟩ := Prod.mk.inj hkey
    have : ∀ r r' : AggregateRow, r.address = r'.address → r.key = r'.key → r.content = r'.content →
        r.time = r'.time → r.dirty = r'.dirty → r.lastRevisionHash = r'.lastRevisionHash → r = r' := by
      rintro ⟨⟩ ⟨⟩ rfl rfl rfl rfl rfl rfl
      rfl
    exact this row₁ row₂ ha hk (by rw [hc₁, hc₂, hsame]) (by rw [ht₁, ht₂, hsame]) (hd₁.trans hd₂.symm)
      (by rw [hl₁, hl₂, hsame])

end Distinct

/-! ## Equal times do not -/

section Equal

variable {env : Env} {a : Address} {k : String} {ms : List Message}

theorem handles_cons {m : Message} {e : AggregateElement} (he : element? env m = some e)
    {ms : List Message} {n n' : Node} (h : Handles env ms (processed e n) n') :
    Handles env (m :: ms) n n' :=
  .cons (HandlerContext.ofEnv env) rfl (exec_process_ok.2 ⟨e, he, rfl⟩) h

/-- Two elements of the same time, handled in descending order of their hashes: the row ends with the
smaller hash, the fold with the larger one. -/
theorem processed_descending {e e' : AggregateElement} (haddr : e'.address = e.address)
    (hkey : e'.key = e.key) (htime : e'.time = e.time) (hlt : e.itemHash < e'.itemHash) :
    ¬ Converged e.address e.key (processed e (processed e' .empty)) := by
  have hfirst : processed e' .empty = insertFirst e' { Node.empty with aggregateElements := [e'] } := by
    rw [processed_of_none rfl]
    simp [storeElement, Node.empty]
  have hrow : (processed e' .empty).aggregates.find? (e.address, e.key) = some (firstRow e') := by
    rw [hfirst, ← haddr, ← hkey]
    exact find?_insertFirst rfl
  have hels : (processed e' .empty).aggregateElements = [e'] := by rw [hfirst]; rfl
  have hstore : (storeElement e (processed e' .empty)).aggregateElements = [e', e] := by
    simp [storeElement, hels, hlt.ne']
  have hrow₁ : (storeElement e (processed e' .empty)).aggregates.find? (e.address, e.key) =
      some (firstRow e') := by
    rw [storeElement_aggregates, hrow]
  have hle : (firstRow e').time ≤ e.time := htime.le
  have hsecond : processed e (processed e' .empty) =
      writeAggregate e.address e.key (mergedInto (firstRow e') e) (storeElement e (processed e' .empty)) := by
    rw [processed_of_some hrow₁, merged, if_neg (by simp [firstRow]), if_pos hle]
  have hel : elementsOf e.address e.key (processed e (processed e' .empty)) = [e', e] := by
    rw [hsecond, elementsOf, writeAggregate_aggregateElements, hstore]
    simp [haddr, hkey]
  have hsort : [e', e].insertionSort Chronological = [e, e'] := by
    have hnot : ¬ Chronological e' e := by
      rintro (h | ⟨-, h⟩)
      · exact h.ne htime
      · exact hlt.not_ge h
    simp [hnot]
  intro hconv
  have hfind := @find?_writeAggregate_self _ _ (mergedInto (firstRow e') e) _ _ hrow₁
  rw [← hsecond] at hfind
  have hlast := (hconv _ hfind rfl).2.1
  rw [mergeElements_chronologicalElements, hel, rebuilt, chronoFold, hsort] at hlast
  exact hlt.ne (Option.some.inj hlast)

/-- **Messages that converge have distinct times.** -/
theorem Convergent.distinctTimes (h : Convergent env a k ms) (hms : ∀ m ∈ ms, ForAggregate env a k m)
    (hhash : (ms.map Message.itemHash).Nodup) : DistinctTimes env ms := by
  intro m hm m' hm' e e' he he' htime
  have hfresh : Fresh a k ms .empty := ⟨rfl, rfl, fun _ _ x hx => absurd hx List.not_mem_nil⟩
  have hkey : ∀ {m e}, m ∈ ms → element? env m = some e → e.address = a ∧ e.key = k := by
    intro m e hm he
    obtain ⟨e₁, he₁, hk⟩ := hms m hm
    rwa [Option.some.inj (he.symm.trans he₁)]
  -- two different messages: deliver the one with the larger hash first
  have hdesc : ∀ {m m' e e'}, m ∈ ms → m' ∈ ms → element? env m = some e → element? env m' = some e' →
      e.time = e'.time → ¬ e.itemHash < e'.itemHash := by
    intro m m' e e' hm hm' he he' htime hlt
    obtain ⟨rfl, rfl⟩ := hkey hm he
    obtain ⟨ha, hk⟩ := hkey hm' he'
    refine processed_descending ha hk htime.symm hlt (h.converged .empty [m', m] _ hfresh ?_
      (handles_cons he' (handles_cons he (.nil _))))
    simp [hm, hm']
  rcases lt_trichotomy e.itemHash e'.itemHash with hlt | heq | hlt
  · exact absurd hlt (hdesc hm hm' he he' htime)
  · refine List.inj_on_of_nodup_map hhash hm hm' ?_
    rw [← itemHash_of_element? he, ← itemHash_of_element? he', heq]
  · exact absurd hlt (hdesc hm' hm he' he htime.symm)

end Equal

section Profile

/-- The content `x` of the profile at `time`. -/
def profileContent (x time : ℤ) : Json :=
  .obj [("address", .str "0x101d8D16372dBf5f1614adaE95Ee5CCE61998Fc9"), ("key", .str "profile"),
    ("content", .obj [("x", .num (.int x))]), ("time", .num (.int time))]

def profileText (x time : String) : String :=
  "\x7b\"address\":\"0x101d8D16372dBf5f1614adaE95Ee5CCE61998Fc9\",\"key\":\"profile\"," ++
    "\"content\":\x7b\"x\":" ++ x ++ "\x7d,\"time\":" ++ time ++ "\x7d"

/-- A message with the profile as its content. -/
def profileMessage (itemHash : ItemHash) (text : String) (time : Timestamp) : Message where
  messageType := .aggregate
  chain := .eth
  sender := "0x101d8D16372dBf5f1614adaE95Ee5CCE61998Fc9"
  signature := ""
  itemType := .inline
  itemHash := itemHash
  itemContent := some text
  channel := none
  time := time

/-- The environment in which the profile's texts are read. -/
def profileEnv : Env :=
  .ofTables [(profileText "1" "1000", profileContent 1 1000),
    (profileText "2" "1000", profileContent 2 1000), (profileText "2" "2000", profileContent 2 2000)] [] []

def profileOne : Message :=
  profileMessage "8ce91a003b9328f678334cbb1927870d6b7ffa52ea9083c9b813bdb440cfe0c4"
    (profileText "1" "1000") 1000

/-- Another revision at the same second. -/
def profileTwo : Message :=
  profileMessage "95584dcae8afd482a0779121d33e0d737abc72c7b3b9d622f4c33000466f57ed"
    (profileText "2" "1000") 1000

def profileThree : Message :=
  profileMessage "857ba6ef01b90c85f32c644d3fb56505679603d4c270b4a981264999bebdc608"
    (profileText "2" "2000") 2000

example : ForAggregate profileEnv profileOne.sender "profile" profileOne := by decide +kernel

end Profile

end AlephCore.AggregateHandler
