import AlephCore.Db.PgDatabase
import AlephCore.Lib.CountView

/-!
# MessageCounts — the counts of the stored messages

Mirrors `create_message_counts_table` of `db/migrations.rs`: a trigger on `messages` counts every row under
five combinations of its columns.  A statement fails with its triggers.  They fail when two of the five
keys of a row are equal, which an empty sender without an owner brings about.
-/

namespace AlephCore.MessageCounts

open CountView

/-- The key of `message_counts`. -/
structure CountKey where
  messageType : String
  status : String
  sender : String
  owner : String
  deriving DecidableEq

/-- The dimension combinations that are counted. -/
inductive Combination where
  | typeStatusSenderOwner | typeStatus | statusSender | sender | messageType
  deriving DecidableEq

/-- The five tuples of the trigger, in its order. -/
def combinations : List Combination :=
  [.typeStatusSenderOwner, .typeStatus, .statusSender, .sender, .messageType]

theorem mem_combinations (c : Combination) : c ∈ combinations := by
  cases c <;> decide

/-- The tuple of a row; a missing owner counts as the empty one. -/
def Combination.key : Combination → MessageRow → CountKey
  | .typeStatusSenderOwner, r => ⟨r.messageType.toString, r.status, r.sender, r.owner.getD ""⟩
  | .typeStatus, r => ⟨r.messageType.toString, r.status, "", ""⟩
  | .statusSender, r => ⟨"", r.status, r.sender, ""⟩
  | .sender, r => ⟨"", "", r.sender, ""⟩
  | .messageType, r => ⟨r.messageType.toString, "", "", ""⟩

/-- The keys a row is counted under. -/
def dimensions (r : MessageRow) : List CountKey := combinations.map fun c => c.key r

/-- `message_counts`. -/
abbrev CountRows := Counts CountKey

/-- The messages, as the database stores them. -/
abbrev Messages := Table MessageRow MessageRow.itemHash

/-- `update_message_counts`, fired after each changed row. -/
def updateMessageCounts : CountRows → Change MessageRow → Except DbError CountRows :=
  trigger PgDatabase.affectedTwice dimensions

/-- The number of messages with the values of a key. -/
def numberOf (c : Combination) (k : CountKey) (messages : Messages) : Nat :=
  messages.rows.countP fun r => c.key r = k

/-! ## Rows that can be counted -/

/-- A status, and a sender or an owner: then the five keys are distinct. -/
def Countable (r : MessageRow) : Prop := r.status ≠ "" ∧ (r.sender ≠ "" ∨ r.owner.getD "" ≠ "")

instance (r : MessageRow) : Decidable (Countable r) := inferInstanceAs (Decidable (_ ∧ _))

theorem toString_ne_empty (t : MessageType) : t.toString ≠ "" := by
  cases t <;> decide

/-- **The combinations of countable rows have no key in common.** -/
theorem key_injective {c c' : Combination} {r r' : MessageRow} (hr : Countable r) (hr' : Countable r')
    (h : c.key r = c'.key r') : c = c' := by
  obtain ⟨hstatus, hsender⟩ := hr
  obtain ⟨hstatus', hsender'⟩ := hr'
  have htype := toString_ne_empty r.messageType
  have htype' := toString_ne_empty r'.messageType
  cases c <;> cases c' <;> first
    | rfl
    | simp only [Combination.key, CountKey.mk.injEq] at h
      grind

/-- **The keys of a row are distinct exactly when it is countable.** -/
theorem nodup_dimensions_iff {r : MessageRow} : (dimensions r).Nodup ↔ Countable r := by
  constructor
  · intro h
    have hne : ∀ c c' : Combination, c ≠ c' → c.key r ≠ c'.key r := fun c c' hcc he =>
      hcc (List.inj_on_of_nodup_map h (mem_combinations c) (mem_combinations c') he)
    refine ⟨fun hstatus => ?_, ?_⟩
    · refine hne .typeStatus .messageType (by decide) ?_
      simp only [Combination.key, hstatus]
    · by_contra hnot
      obtain ⟨hsender, howner⟩ := not_or.1 hnot
      refine hne .typeStatusSenderOwner .typeStatus (by decide) ?_
      simp only [Combination.key, not_not.1 hsender, not_not.1 howner]
  · intro h
    exact List.Nodup.map_on (fun c _ c' _ he => key_injective h h he) (by decide)

theorem separated_of_countable {rows : List MessageRow} (h : ∀ r ∈ rows, Countable r) :
    Separated Combination.key combinations rows := by
  have hnodup : combinations.Nodup := by decide
  exact hnodup.imp fun {c c'} hne r hr r' hr' he => hne (key_injective (h r hr) (h r' hr') he)

theorem separated_iff {rows : List MessageRow} :
    Separated Combination.key combinations rows ↔ ∀ r ∈ rows, Countable r := by
  refine ⟨fun h r hr => ?_, separated_of_countable⟩
  rw [← nodup_dimensions_iff]
  exact List.pairwise_map.2 (h.imp fun {c c'} hne => hne r hr r hr)

/-! ## Exact counts -/

/-- For every combination of the values of a row, stored or not, the count is the number of messages. -/
def CountsExact (messages : Messages) (counts : CountRows) : Prop :=
  ∀ c : Combination, ∀ r : MessageRow, r ∈ messages ∨ Countable r →
    stored counts (c.key r) = numberOf c (c.key r) messages

/-- Every message can be counted. -/
def AllCountable (messages : Messages) : Prop := ∀ r ∈ messages, Countable r

instance (messages : Messages) : Decidable (AllCountable messages) :=
  inferInstanceAs (Decidable (∀ r ∈ messages.rows, Countable r))

/-- **Exact counts, combination by combination.** -/
theorem countsExact_of_exact {messages : Messages} {counts : CountRows} (hall : AllCountable messages)
    (h : Exact dimensions messages.rows counts) : CountsExact messages counts := by
  intro c r hr
  have hcountable : Countable r := hr.elim (hall r) id
  rw [h (c.key r)]
  refine congrArg Nat.cast (tally_eq_countP (by decide) (mem_combinations c) fun c' _ hne r' hr' he => ?_)
  exact hne (key_injective (hall r' hr') hcountable he)

/-! ## Statements on the messages -/

/-- What an `INSERT` does with a row that is there. -/
inductive OnConflict where
  | fail
  | doNothing
  /-- `DO UPDATE SET … WHERE`: the row inserted, and the one there. -/
  | doUpdate (set : MessageRow → MessageRow → MessageRow) (guard : MessageRow → Bool)
      (hkey : ∀ new old, (set new old).itemHash = old.itemHash)

/-- A statement on `messages`. -/
inductive Statement where
  | insert (rows : List MessageRow) (conflict : OnConflict)
  | update (p : MessageRow → Bool) (set : MessageRow → MessageRow) (hkey : ∀ r, (set r).itemHash = r.itemHash)
  | delete (p : MessageRow → Bool)

/-- The messages after a statement, and what it changed. -/
abbrev Written := Messages × List (Change MessageRow)

/-- `UPDATE messages SET … WHERE p`. -/
def updateRows (p : MessageRow → Bool) (set : MessageRow → MessageRow)
    (hkey : ∀ r, (set r).itemHash = r.itemHash) (t : Messages) : Written :=
  (t.update (fun r => p r = true) set hkey,
    (t.rows.filter fun r => decide (p r = true)).map fun r => ⟨some r, some (set r)⟩)

/-- Insert one row; `written` are the rows this statement has written. -/
def insertRow (conflict : OnConflict) (written : List ItemHash) (r : MessageRow) (t : Messages) :
    Except DbError Written :=
  if h : t.Clash r then
    match conflict with
    | .fail => .error PgDatabase.duplicateKey
    | .doNothing => .ok (t, [])
    | .doUpdate set guard hkey =>
      if r.itemHash ∈ written then .error PgDatabase.affectedTwice
      else .ok (updateRows (fun old => decide (old.itemHash = r.itemHash) && guard old) (set r) (hkey r) t)
  else .ok (t.append r h, [⟨none, some r⟩])

/-- Insert the rows one after another. -/
def insertRows (conflict : OnConflict) : List ItemHash → List MessageRow → Messages → Except DbError Written
  | _, [], t => .ok (t, [])
  | written, r :: rows, t => do
    let (t, changes) ← insertRow conflict written r t
    let written := if changes.isEmpty then written else r.itemHash :: written
    let (t, rest) ← insertRows conflict written rows t
    pure (t, changes ++ rest)

/-- What a statement writes. -/
def Statement.run : Statement → Messages → Except DbError Written
  | .insert rows conflict, t => insertRows conflict [] rows t
  | .update p set hkey, t => .ok (updateRows p set hkey t)
  | .delete p, t =>
    .ok (t.delete (fun r => p r = true), (t.rows.filter fun r => decide (p r = true)).map fun r => ⟨some r, none⟩)

/-- The rows a statement writes, if it succeeds. -/
def Statement.newRows (st : Statement) (t : Messages) : List MessageRow :=
  match st.run t with
  | .error _ => []
  | .ok (_, changes) => changes.filterMap Change.new

theorem changed_updateRows (p : MessageRow → Bool) (set : MessageRow → MessageRow)
    (hkey : ∀ r, (set r).itemHash = r.itemHash) (t : Messages) :
    Changed t.rows (updateRows p set hkey t).2 (updateRows p set hkey t).1.rows :=
  changed_update (fun r => p r = true) set t.rows

theorem changed_insertRow {conflict : OnConflict} {written : List ItemHash} {r : MessageRow} {t : Messages}
    {w : Written} (h : insertRow conflict written r t = .ok w) : Changed t.rows w.2 w.1.rows := by
  unfold insertRow at h
  by_cases hclash : t.Clash r
  · rw [dif_pos hclash] at h
    cases conflict with
    | fail => cases h
    | doNothing =>
      cases h
      exact .done (List.Perm.refl _)
    | doUpdate set guard hkey =>
      by_cases htwice : r.itemHash ∈ written
      · simp only [htwice, if_true] at h
        cases h
      · simp only [htwice, if_false] at h
        cases h
        exact changed_updateRows _ _ _ t
  · rw [dif_neg hclash] at h
    cases h
    exact changed_insert r t.rows

theorem changed_insertRows {conflict : OnConflict} {written : List ItemHash} {rows : List MessageRow}
    {t : Messages} {w : Written} (h : insertRows conflict written rows t = .ok w) :
    Changed t.rows w.2 w.1.rows := by
  induction rows generalizing written t w with
  | nil =>
    cases h
    exact .done (List.Perm.refl _)
  | cons r rows ih =>
    rw [insertRows] at h
    cases hfirst : insertRow conflict written r t with
    | error e =>
      rw [hfirst] at h
      cases h
    | ok w₁ =>
      rw [hfirst] at h
      cases hrest : insertRows conflict (if w₁.2.isEmpty then written else r.itemHash :: written) rows w₁.1 with
      | error e =>
        simp only [bind, Except.bind, hrest] at h
        cases h
      | ok w₂ =>
        simp only [bind, Except.bind, hrest] at h
        cases h
        exact (changed_insertRow hfirst).append (ih hrest)

/-- **The changes of a statement turn the messages before it into those after it.** -/
theorem Statement.changed {st : Statement} {t : Messages} {w : Written} (h : st.run t = .ok w) :
    Changed t.rows w.2 w.1.rows := by
  cases st with
  | insert rows conflict => exact changed_insertRows h
  | update p set hkey =>
    cases h
    exact changed_updateRows p set hkey t
  | delete p =>
    cases h
    exact changed_delete (fun r => p r = true) t.rows

/-- `INSERT … ON CONFLICT DO UPDATE` of one row. -/
theorem run_upsert (t : Messages) (r : MessageRow) (set : MessageRow → MessageRow → MessageRow)
    (hkey : ∀ new old, (set new old).itemHash = old.itemHash) :
    ∃ changes, (Statement.insert [r] (.doUpdate set (fun _ => true) hkey)).run t =
        .ok (t.upsert r (set r) (hkey r), changes) ∧
      ∀ r' ∈ changes.filterMap Change.new, r' = r ∨ ∃ old ∈ t, r' = set r old := by
  by_cases hclash : t.Clash r
  · have hfirst : insertRow (.doUpdate set (fun _ => true) hkey) [] r t =
        .ok (updateRows (fun old => decide (old.itemHash = r.itemHash) && true) (set r) (hkey r) t) := by
      rw [insertRow, dif_pos hclash]
      exact if_neg List.not_mem_nil
    have htable : (updateRows (fun old => decide (old.itemHash = r.itemHash) && true) (set r) (hkey r) t).1 =
        t.upsert r (set r) (hkey r) := by
      rw [Table.upsert, dif_pos hclash, updateRows]
      refine Table.ext ?_
      simp only [Table.update, Bool.and_true, decide_eq_true_eq]
    refine ⟨(updateRows (fun old => decide (old.itemHash = r.itemHash) && true) (set r) (hkey r) t).2 ++ [], ?_, ?_⟩
    · rw [Statement.run, insertRows, hfirst, ← htable]
      rfl
    · intro r' hr'
      rw [List.append_nil] at hr'
      obtain ⟨ch, hch, hnew⟩ := List.mem_filterMap.1 hr'
      obtain ⟨old, hold, rfl⟩ := List.mem_map.1 hch
      cases hnew
      exact .inr ⟨old, (List.mem_filter.1 hold).1, rfl⟩
  · have hfirst : insertRow (.doUpdate set (fun _ => true) hkey) [] r t = .ok (t.append r hclash, [⟨none, some r⟩]) := by
      rw [insertRow, dif_neg hclash]
    refine ⟨[⟨none, some r⟩] ++ [], ?_, ?_⟩
    · rw [Statement.run, insertRows, hfirst, Table.upsert, dif_neg hclash]
      rfl
    · intro r' hr'
      left
      simpa using hr'

/-! ## The database -/

/-- The node with the counts of its messages. -/
structure CountedNode where
  node : Node
  counts : CountRows
  triggerEnabled : Bool

/-- Execute a statement with its triggers; if one fails, nothing is written. -/
def execute (st : Statement) (s : CountedNode) : Except DbError CountedNode := do
  let (messages, changes) ← st.run s.node.messages
  let counts ← if s.triggerEnabled then changes.foldlM updateMessageCounts s.counts else pure s.counts
  pure { s with node := { s.node with messages }, counts }

/-- The triggers of a statement succeed: it does not fail if what it does by itself does not. -/
def TriggersSucceed (st : Statement) (s : CountedNode) : Prop :=
  (∃ w, st.run s.node.messages = .ok w) → ∃ s', execute st s = .ok s'

theorem execute_error {st : Statement} {s : CountedNode} {e : DbError} (h : st.run s.node.messages = .error e) :
    execute st s = .error e := by
  rw [execute, h]
  rfl

theorem execute_enabled {st : Statement} {s : CountedNode} {w : Written} (henabled : s.triggerEnabled = true)
    (h : st.run s.node.messages = .ok w) :
    execute st s = (w.2.foldlM updateMessageCounts s.counts).map fun counts =>
      { s with node := { s.node with messages := w.1 }, counts } := by
  rw [execute, h]
  simp only [bind, Except.bind, henabled, if_true, pure, Except.pure]
  cases w.2.foldlM updateMessageCounts s.counts with
  | error e => rfl
  | ok counts => rfl

theorem execute_disabled {st : Statement} {s : CountedNode} {w : Written} (hdisabled : s.triggerEnabled = false)
    (h : st.run s.node.messages = .ok w) : execute st s = .ok { s with node := { s.node with messages := w.1 } } := by
  rw [execute, h]
  simp only [bind, Except.bind, hdisabled, pure, Except.pure, Bool.false_eq_true, if_false]

theorem execute_triggerEnabled {st : Statement} {s s' : CountedNode} (h : execute st s = .ok s') :
    s'.triggerEnabled = s.triggerEnabled := by
  cases hrun : st.run s.node.messages with
  | error e =>
    rw [execute_error hrun] at h
    cases h
  | ok w =>
    cases henabled : s.triggerEnabled with
    | false =>
      rw [execute_disabled henabled hrun] at h
      cases h
      exact henabled
    | true =>
      rw [execute_enabled henabled hrun] at h
      cases hcounts : w.2.foldlM updateMessageCounts s.counts with
      | error e =>
        rw [hcounts] at h
        cases h
      | ok counts =>
        rw [hcounts] at h
        cases h
        exact henabled

theorem newRows_of_run {st : Statement} {t : Messages} {w : Written} (h : st.run t = .ok w) :
    st.newRows t = w.2.filterMap Change.new := by
  rw [Statement.newRows, h]

/-- **A statement succeeds in the trigger exactly when every row it writes is countable.** -/
theorem triggersSucceed_iff {st : Statement} {s : CountedNode} (henabled : s.triggerEnabled = true) :
    TriggersSucceed st s ↔ ∀ r ∈ st.newRows s.node.messages, Countable r := by
  cases hrun : st.run s.node.messages with
  | error e =>
    rw [TriggersSucceed, Statement.newRows, hrun]
    exact ⟨fun _ r hr => absurd hr List.not_mem_nil, fun _ ⟨w, hw⟩ => by cases hw⟩
  | ok w =>
    have hok : TriggersSucceed st s ↔ ∃ counts, w.2.foldlM updateMessageCounts s.counts = .ok counts := by
      rw [TriggersSucceed, hrun, execute_enabled henabled hrun]
      cases w.2.foldlM updateMessageCounts s.counts with
      | error e =>
        constructor
        · intro h
          obtain ⟨s', hs⟩ := h ⟨w, rfl⟩
          cases hs
        · rintro ⟨counts, hcounts⟩
          cases hcounts
      | ok counts => exact ⟨fun _ => ⟨counts, rfl⟩, fun _ _ => ⟨_, rfl⟩⟩
    rw [hok, updateMessageCounts, triggers_ok_iff, newRows_of_run hrun]
    simp only [List.mem_filterMap, nodup_dimensions_iff, Option.mem_def]
    constructor
    · rintro h r ⟨ch, hch, hr⟩
      exact h ch hch r hr
    · intro h ch hch r hr
      exact h r ⟨ch, hch, hr⟩

/-- The messages after a statement are those before it and those written. -/
theorem allCountable_run {st : Statement} {t : Messages} {w : Written} (h : st.run t = .ok w)
    (hall : AllCountable t) (hnew : ∀ r ∈ st.newRows t, Countable r) : AllCountable w.1 := by
  rw [newRows_of_run h] at hnew
  exact (Statement.changed h).forall hall fun ch hch r hr => hnew r (List.mem_filterMap.2 ⟨ch, hch, hr⟩)

/-- **A statement of countable rows keeps the counts exact.** -/
theorem execute_exact {st : Statement} {s s' : CountedNode} (henabled : s.triggerEnabled = true)
    (hall : AllCountable s.node.messages) (hexact : Exact dimensions s.node.messages.rows s.counts)
    (h : execute st s = .ok s') : AllCountable s'.node.messages ∧ Exact dimensions s'.node.messages.rows s'.counts := by
  cases hrun : st.run s.node.messages with
  | error e =>
    rw [execute_error hrun] at h
    cases h
  | ok w =>
    have hnew := (triggersSucceed_iff henabled).1 fun _ => ⟨s', h⟩
    rw [execute_enabled henabled hrun] at h
    cases hcounts : w.2.foldlM updateMessageCounts s.counts with
    | error e =>
      rw [hcounts] at h
      cases h
    | ok counts =>
      rw [hcounts] at h
      cases h
      exact ⟨allCountable_run hrun hall hnew, triggers_exact (Statement.changed hrun)
        (fun r hr => nodup_dimensions_iff.2 (hall r hr)) hcounts hexact⟩

end AlephCore.MessageCounts
