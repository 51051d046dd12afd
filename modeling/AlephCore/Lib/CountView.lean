import AlephCore.Lib.Table
import Mathlib.Algebra.BigOperators.Group.List.Lemmas
import Mathlib.Data.Int.Cast.Basic
import Mathlib.Data.List.Dedup
import Mathlib.Data.List.Perm.Basic
import Mathlib.Algebra.Order.Ring.Rat
import Mathlib.Algebra.Order.Ring.Nat

/-!
# CountView — a table of counts kept by a row trigger

Every row of a table is counted under several keys, one for each of a list of dimensions.  A trigger
decrements the keys of the old row and increments those of the new one; a rebuild groups the rows by each
dimension.  Both are exact: the stored count of a key is the number of times it is a key of a row.
-/

namespace CountView

variable {ι ρ κ ε : Type} [DecidableEq κ]

/-- A row of the counts. -/
structure Count (κ : Type) where
  key : κ
  count : Int
  deriving DecidableEq

/-- The counts, one for each key. -/
abbrev Counts (κ : Type) := Table (Count κ) Count.key

/-- The stored count; a key without a row has none. -/
def stored (t : Counts κ) (k : κ) : Int := (t.find? k).elim 0 Count.count

/-- How often the key is a key of a row. -/
def tally (dims : ρ → List κ) (rows : List ρ) (k : κ) : Nat := (rows.flatMap dims).count k

/-- The counts are those of the rows. -/
def Exact (dims : ρ → List κ) (rows : List ρ) (t : Counts κ) : Prop := ∀ k, stored t k = tally dims rows k

@[simp] theorem stored_empty (k : κ) : stored (Table.empty : Counts κ) k = 0 := rfl

@[simp] theorem tally_nil (dims : ρ → List κ) (k : κ) : tally dims [] k = 0 := rfl

theorem tally_append (dims : ρ → List κ) (rows rows' : List ρ) (k : κ) :
    tally dims (rows ++ rows') k = tally dims rows k + tally dims rows' k := by
  rw [tally, List.flatMap_append, List.count_append]
  rfl

theorem tally_singleton (dims : ρ → List κ) (r : ρ) (k : κ) : tally dims [r] k = (dims r).count k := by
  rw [tally, List.flatMap_singleton]

theorem tally_perm {dims : ρ → List κ} {rows rows' : List ρ} (h : rows.Perm rows') (k : κ) :
    tally dims rows k = tally dims rows' k :=
  (h.flatMap_right dims).count_eq k

theorem exact_empty (dims : ρ → List κ) : Exact dims [] (Table.empty : Counts κ) := fun _ => rfl

/-- A row's keys are counted. -/
theorem Exact.pos {dims : ρ → List κ} {rows : List ρ} {t : Counts κ} (h : Exact dims rows t) {r : ρ}
    (hr : r ∈ rows) {k : κ} (hk : k ∈ dims r) : 0 < stored t k := by
  rw [h k]
  have hmem : k ∈ rows.flatMap dims := List.mem_flatMap.2 ⟨r, hr, hk⟩
  exact Int.natCast_pos.2 (List.count_pos_iff.2 hmem)

/-! ## The trigger -/

/-- `UPDATE … SET count = count - 1 WHERE key IN keys`. -/
def decrement (keys : List κ) (t : Counts κ) : Counts κ :=
  t.update (·.key ∈ keys) fun c => { c with count := c.count - 1 }

/-- `INSERT … VALUES keys ON CONFLICT DO UPDATE SET count = count + 1`: no row may be hit twice. -/
def increment (twice : ε) (keys : List κ) (t : Counts κ) : Except ε (Counts κ) :=
  if keys.Nodup then
    .ok (keys.foldl (fun t k => t.upsert ⟨k, 1⟩ fun c => { c with count := c.count + 1 }) t)
  else .error twice

/-- What a statement does to one row. -/
structure Change (ρ : Type) where
  old : Option ρ
  new : Option ρ

/-- The trigger of one changed row. -/
def trigger (twice : ε) (dims : ρ → List κ) (t : Counts κ) (ch : Change ρ) : Except ε (Counts κ) :=
  let t := ch.old.elim t fun r => decrement (dims r) t
  ch.new.elim (.ok t) fun r => increment twice (dims r) t

/-- A decrement reaches every key that is there. -/
theorem stored_decrement {keys : List κ} {t : Counts κ} (hpos : ∀ k ∈ keys, 0 < stored t k) (k : κ) :
    stored (decrement keys t) k = stored t k - if k ∈ keys then 1 else 0 := by
  rw [stored, decrement, Table.find?_update]
  cases hfind : t.find? k with
  | none =>
    have hnot : k ∉ keys := by
      intro hk
      have h := hpos k hk
      rw [stored, hfind] at h
      exact Int.lt_irrefl 0 h
    rw [if_neg hnot, stored, hfind]
    rfl
  | some c =>
    obtain ⟨-, rfl⟩ := Table.find?_eq_some.1 hfind
    rw [stored, hfind]
    by_cases hk : c.key ∈ keys
    · simp only [hk, if_true, Option.map_some, Option.elim_some]
    · simp only [hk, if_false, Option.map_some, Option.elim_some, sub_zero]

theorem stored_upsert_one (t : Counts κ) (k k' : κ) :
    stored (t.upsert ⟨k, 1⟩ fun c => { c with count := c.count + 1 }) k' =
      stored t k' + if k' = k then 1 else 0 := by
  rw [stored, Table.find?_upsert, stored]
  by_cases h : k' = k
  · subst h
    rw [if_pos rfl, if_pos rfl]
    cases t.find? k' with
    | none => rfl
    | some c => rfl
  · rw [if_neg h, if_neg (Ne.symm h), add_zero]

/-- An increment adds one to each of its keys. -/
theorem stored_increment {twice : ε} {keys : List κ} {t t' : Counts κ} (h : increment twice keys t = .ok t')
    (k : κ) : stored t' k = stored t k + keys.count k := by
  have hnodup : keys.Nodup := by
    by_contra hnot
    rw [increment, if_neg hnot] at h
    cases h
  rw [increment, if_pos hnodup, Except.ok.injEq] at h
  subst h
  clear hnodup
  induction keys generalizing t with
  | nil => simp
  | cons a keys ih =>
    rw [List.foldl_cons, ih, stored_upsert_one, List.count_cons, add_assoc]
    congr 1
    by_cases hk : k = a
    · subst hk
      simp [add_comm]
    · simp [hk, Ne.symm hk]

theorem increment_ok_iff {twice : ε} {keys : List κ} {t : Counts κ} :
    (∃ t', increment twice keys t = .ok t') ↔ keys.Nodup := by
  rw [increment]
  split_ifs with h
  · exact ⟨fun _ => h, fun _ => ⟨_, rfl⟩⟩
  · refine ⟨fun ht => ?_, fun hn => absurd hn h⟩
    obtain ⟨t', ht⟩ := ht
    cases ht

/-- A trigger succeeds exactly when the keys of the new row are distinct. -/
theorem trigger_ok_iff {twice : ε} {dims : ρ → List κ} {t : Counts κ} {ch : Change ρ} :
    (∃ t', trigger twice dims t ch = .ok t') ↔ ∀ r ∈ ch.new, (dims r).Nodup := by
  obtain ⟨old, new⟩ := ch
  cases new with
  | none => exact ⟨fun _ r hr => absurd hr (Option.not_mem_none r), fun _ => ⟨_, rfl⟩⟩
  | some r =>
    refine increment_ok_iff.trans ⟨fun h r' hr => ?_, fun h => h r rfl⟩
    cases hr
    exact h

/-- **One trigger**: counts exact before the change are exact after it. -/
theorem trigger_exact {twice : ε} {dims : ρ → List κ} {rest : List ρ} {t t' : Counts κ} {ch : Change ρ}
    (hold : ∀ r ∈ ch.old, (dims r).Nodup) (h : Exact dims (ch.old.toList ++ rest) t)
    (ht : trigger twice dims t ch = .ok t') : Exact dims (ch.new.toList ++ rest) t' := by
  obtain ⟨old, new⟩ := ch
  -- After the decrement the counts are those of the other rows.
  have hdecrement : Exact dims rest (old.elim t fun r => decrement (dims r) t) := by
    cases old with
    | none => exact h
    | some r =>
      intro k
      have hpos : ∀ k ∈ dims r, 0 < stored t k := fun k hk => h.pos List.mem_cons_self hk
      have hcount : (dims r).count k = if k ∈ dims r then 1 else 0 := (hold r rfl).count
      have hall := h k
      rw [tally_append] at hall
      rw [Option.toList_some, tally_singleton, hcount] at hall
      rw [Option.elim_some, stored_decrement hpos k, hall]
      split_ifs
      · omega
      · omega
  cases new with
  | none =>
    obtain rfl : _ = t' := Except.ok.inj ht
    exact hdecrement
  | some r =>
    intro k
    rw [stored_increment ht k, hdecrement k, Option.toList_some, tally_append, tally_singleton]
    omega

/-- The changes turn the rows, one after another, into others. -/
inductive Changed : List ρ → List (Change ρ) → List ρ → Prop
  | done {rows rows' : List ρ} (h : rows.Perm rows') : Changed rows [] rows'
  | step {rows rest rows' : List ρ} {ch : Change ρ} {chs : List (Change ρ)}
      (hold : rows.Perm (ch.old.toList ++ rest)) (h : Changed (ch.new.toList ++ rest) chs rows') :
      Changed rows (ch :: chs) rows'

omit [DecidableEq κ] in
theorem Changed.perm {rows rows₁ rows' : List ρ} {chs : List (Change ρ)} (hp : rows₁.Perm rows)
    (h : Changed rows chs rows') : Changed rows₁ chs rows' := by
  cases h with
  | done h => exact .done (hp.trans h)
  | step hold h => exact .step (hp.trans hold) h

theorem Changed.append {rows rows₁ rows' : List ρ} {chs chs' : List (Change ρ)} (h : Changed rows chs rows₁)
    (h' : Changed rows₁ chs' rows') : Changed rows (chs ++ chs') rows' := by
  induction h with
  | done h => exact h'.perm h
  | step hold _ ih => exact .step hold (ih h')

/-- The changed rows are among those before and those written. -/
theorem Changed.forall {P : ρ → Prop} {rows rows' : List ρ} {chs : List (Change ρ)} (h : Changed rows chs rows')
    (hrows : ∀ r ∈ rows, P r) (hnew : ∀ ch ∈ chs, ∀ r ∈ ch.new, P r) : ∀ r ∈ rows', P r := by
  induction h with
  | done h => exact fun r hr => hrows r (h.mem_iff.2 hr)
  | @step rows rest rows' ch chs hold _ ih =>
    refine ih (fun r hr => ?_) fun ch' hch => hnew ch' (List.mem_cons_of_mem ch hch)
    rcases List.mem_append.1 hr with hr | hr
    · exact hnew ch List.mem_cons_self r (Option.mem_toList.1 hr)
    · exact hrows r (hold.mem_iff.2 (List.mem_append_right _ hr))

omit [DecidableEq κ] in
/-- A row that is not touched. -/
theorem Changed.cons {rows rows' : List ρ} {chs : List (Change ρ)} (r : ρ) (h : Changed rows chs rows') :
    Changed (r :: rows) chs (r :: rows') := by
  induction h with
  | done h => exact .done (h.cons r)
  | @step rows rest rows' ch chs hold _ ih =>
    have hfirst : (r :: rows).Perm (ch.old.toList ++ r :: rest) := (hold.cons r).trans List.perm_middle.symm
    exact .step hfirst (ih.perm List.perm_middle)

/-- An `UPDATE` changes the rows it selects. -/
theorem changed_update (p : ρ → Prop) [DecidablePred p] (f : ρ → ρ) (rows : List ρ) :
    Changed rows ((rows.filter fun r => decide (p r)).map fun r => ⟨some r, some (f r)⟩)
      (rows.map fun r => if p r then f r else r) := by
  induction rows with
  | nil => exact .done (List.Perm.refl _)
  | cons r rows ih =>
    by_cases hp : p r
    · rw [List.filter_cons_of_pos (by simpa using hp), List.map_cons, List.map_cons, if_pos hp]
      exact .step (List.Perm.refl (r :: rows)) (ih.cons (f r))
    · rw [List.filter_cons_of_neg (by simpa using hp), List.map_cons, if_neg hp]
      exact ih.cons r

/-- A `DELETE` removes the rows it selects. -/
theorem changed_delete (p : ρ → Prop) [DecidablePred p] (rows : List ρ) :
    Changed rows ((rows.filter fun r => decide (p r)).map fun r => ⟨some r, none⟩)
      (rows.filter fun r => decide (¬ p r)) := by
  induction rows with
  | nil => exact .done (List.Perm.refl _)
  | cons r rows ih =>
    by_cases hp : p r
    · rw [List.filter_cons_of_pos (by simpa using hp), List.filter_cons_of_neg (by simpa using hp), List.map_cons]
      exact .step (List.Perm.refl (r :: rows)) ih
    · rw [List.filter_cons_of_neg (by simpa using hp), List.filter_cons_of_pos (by simpa using hp)]
      exact ih.cons r

/-- An `INSERT` adds its row. -/
theorem changed_insert (r : ρ) (rows : List ρ) : Changed rows [⟨none, some r⟩] (rows ++ [r]) :=
  .step (List.Perm.refl rows) (.done (List.perm_append_singleton r rows).symm)

/-- **A statement**: its triggers succeed exactly when the keys of every row it writes are distinct. -/
theorem triggers_ok_iff {twice : ε} {dims : ρ → List κ} {chs : List (Change ρ)} {t : Counts κ} :
    (∃ t', chs.foldlM (trigger twice dims) t = .ok t') ↔ ∀ ch ∈ chs, ∀ r ∈ ch.new, (dims r).Nodup := by
  induction chs generalizing t with
  | nil => exact ⟨fun _ ch hch => absurd hch List.not_mem_nil, fun _ => ⟨t, rfl⟩⟩
  | cons ch chs ih =>
    rw [List.foldlM_cons, List.forall_mem_cons, ← trigger_ok_iff (t := t)]
    cases htrigger : trigger twice dims t ch with
    | error e =>
      constructor
      · rintro ⟨t', ht⟩
        cases ht
      · rintro ⟨⟨t', ht⟩, -⟩
        cases ht
    | ok t₁ => exact (ih (t := t₁)).trans ⟨fun h => ⟨⟨t₁, rfl⟩, h⟩, fun h => h.2⟩

/-- **A statement**: if its triggers succeed, exact counts stay exact. -/
theorem triggers_exact {twice : ε} {dims : ρ → List κ} {rows rows' : List ρ} {chs : List (Change ρ)}
    (h : Changed rows chs rows') {t t' : Counts κ} (hrows : ∀ r ∈ rows, (dims r).Nodup)
    (ht : chs.foldlM (trigger twice dims) t = .ok t') (hexact : Exact dims rows t) : Exact dims rows' t' := by
  have hnew := triggers_ok_iff.1 ⟨t', ht⟩
  induction h generalizing t with
  | done h =>
    obtain rfl : t = t' := Except.ok.inj ht
    exact fun k => (hexact k).trans (congrArg Nat.cast (tally_perm h k))
  | @step rows rest rows' ch chs hold _ ih =>
    obtain ⟨hch, hchs⟩ := List.forall_mem_cons.1 hnew
    have hfirst : ∃ t₁, trigger twice dims t ch = .ok t₁ := trigger_ok_iff.2 hch
    obtain ⟨t₁, ht₁⟩ := hfirst
    rw [List.foldlM_cons, ht₁] at ht
    have hbefore : Exact dims (ch.old.toList ++ rest) t := fun k =>
      (hexact k).trans (congrArg Nat.cast (tally_perm hold k))
    have hafter : Exact dims (ch.new.toList ++ rest) t₁ :=
      trigger_exact (fun r hr => hrows r (hold.mem_iff.2 (List.mem_append_left _ (Option.mem_toList.2 hr))))
        hbefore ht₁
    refine ih (fun r hr => ?_) ht hafter hchs
    rcases List.mem_append.1 hr with hr | hr
    · exact hch r (Option.mem_toList.1 hr)
    · exact hrows r (hold.mem_iff.2 (List.mem_append_right _ hr))

/-! ## The rebuild -/

section Rebuild

variable (dim : ι → ρ → κ)

/-- `SELECT dim, COUNT(*) FROM rows GROUP BY dim`. -/
def groupBy (rows : List ρ) (i : ι) : List (Count κ) :=
  (rows.map (dim i)).dedup.map fun k => ⟨k, (rows.map (dim i)).count k⟩

/-- The groups of all dimensions, by `UNION ALL`. -/
def grouped (all : List ι) (rows : List ρ) : List (Count κ) := all.flatMap (groupBy dim rows)

/-- `INSERT … SELECT groups ON CONFLICT DO UPDATE SET count = EXCLUDED.count`: no row may be hit twice. -/
def rebuild (twice : ε) (all : List ι) (rows : List ρ) (t : Counts κ) : Except ε (Counts κ) :=
  if ((grouped dim all rows).map Count.key).Nodup then
    .ok ((grouped dim all rows).foldl (fun t c => t.upsert c fun old => { old with count := c.count }) t)
  else .error twice

/-- The keys of different dimensions differ. -/
def Separated (all : List ι) (rows : List ρ) : Prop :=
  all.Pairwise fun i j => ∀ r ∈ rows, ∀ r' ∈ rows, dim i r ≠ dim j r'

variable {dim}

theorem map_key_groupBy (rows : List ρ) (i : ι) :
    (groupBy dim rows i).map Count.key = (rows.map (dim i)).dedup := by
  rw [groupBy, List.map_map]
  exact List.map_id _

theorem nodup_grouped_iff {all : List ι} {rows : List ρ} :
    ((grouped dim all rows).map Count.key).Nodup ↔ Separated dim all rows := by
  rw [grouped, List.map_flatMap, List.nodup_flatMap]
  constructor
  · rintro ⟨-, hdisjoint⟩
    refine hdisjoint.imp fun {i j} h r hr r' hr' he => ?_
    have hi : dim i r ∈ (groupBy dim rows i).map Count.key := by
      rw [map_key_groupBy]
      exact List.mem_dedup.2 (List.mem_map_of_mem hr)
    have hj : dim i r ∈ (groupBy dim rows j).map Count.key := by
      rw [map_key_groupBy, he]
      exact List.mem_dedup.2 (List.mem_map_of_mem hr')
    exact h hi hj
  · intro hsep
    refine ⟨fun i _ => ?_, hsep.imp fun {i j} h k hi hj => ?_⟩
    · rw [map_key_groupBy]
      exact List.nodup_dedup _
    · change k ∈ (groupBy dim rows i).map Count.key at hi
      change k ∈ (groupBy dim rows j).map Count.key at hj
      rw [map_key_groupBy] at hi hj
      obtain ⟨r, hr, rfl⟩ := List.mem_map.1 (List.mem_dedup.1 hi)
      obtain ⟨r', hr', he⟩ := List.mem_map.1 (List.mem_dedup.1 hj)
      exact h r hr r' hr' he.symm

/-- A rebuild succeeds exactly when the keys of different dimensions differ. -/
theorem rebuild_ok_iff {twice : ε} {all : List ι} {rows : List ρ} {t : Counts κ} :
    (∃ t', rebuild dim twice all rows t = .ok t') ↔ Separated dim all rows := by
  rw [rebuild, ← nodup_grouped_iff]
  split_ifs with h
  · exact ⟨fun _ => h, fun _ => ⟨_, rfl⟩⟩
  · refine ⟨fun ht => ?_, fun hn => absurd hn h⟩
    obtain ⟨t', ht⟩ := ht
    cases ht

/-- Rows put into counts without them are the counts stored. -/
theorem stored_foldl_upsert {cs : List (Count κ)} (hnodup : (cs.map Count.key).Nodup) {t : Counts κ}
    (hnew : ∀ c ∈ cs, stored t c.key = 0) (k : κ) :
    stored (cs.foldl (fun t c => t.upsert c fun old => { old with count := c.count }) t) k =
      stored t k + (cs.map fun c => if c.key = k then c.count else 0).sum := by
  induction cs generalizing t with
  | nil => simp
  | cons c cs ih =>
    obtain ⟨hnot, hnodup⟩ := List.nodup_cons.1 hnodup
    have hfirst : ∀ k, stored (t.upsert c fun old => { old with count := c.count }) k =
        if c.key = k then c.count else stored t k := by
      intro k
      rw [stored, Table.find?_upsert]
      by_cases he : c.key = k
      · rw [if_pos he, if_pos he]
        cases t.find? k with
        | none => rfl
        | some old => rfl
      · rw [if_neg he, if_neg he]
        rfl
    have hrest : ∀ c' ∈ cs, stored (t.upsert c fun old => { old with count := c.count }) c'.key = 0 := by
      intro c' hc'
      have hne : c.key ≠ c'.key := fun he => hnot (he ▸ List.mem_map_of_mem hc')
      rw [hfirst, if_neg hne]
      exact hnew c' (List.mem_cons_of_mem c hc')
    rw [List.foldl_cons, ih hnodup hrest, hfirst, List.map_cons, List.sum_cons]
    split_ifs with he
    · rw [← he, hnew c List.mem_cons_self, zero_add]
    · rw [zero_add]

/-- The groups of a dimension hold, for each key, the number of its rows. -/
theorem sum_groupBy (rows : List ρ) (i : ι) (k : κ) :
    ((groupBy dim rows i).map fun c => if c.key = k then c.count else 0).sum = ((rows.map (dim i)).count k : Int) := by
  rw [groupBy, List.map_map]
  set l := rows.map (dim i) with hl
  by_cases hk : k ∈ l
  · rw [List.sum_map_eq_nsmul_single k]
    · rw [List.count_eq_one_of_mem (List.nodup_dedup l) (List.mem_dedup.2 hk), one_nsmul]
      exact if_pos rfl
    · intro k' hne _
      exact if_neg hne
  · rw [List.count_eq_zero_of_not_mem hk]
    refine List.sum_eq_zero fun x hx => ?_
    obtain ⟨k', hk', rfl⟩ := List.mem_map.1 hx
    refine if_neg fun he => hk ?_
    obtain rfl : k' = k := he
    exact List.mem_dedup.1 hk'

theorem count_flatMap_cons (f : ρ → κ) (g : ρ → List κ) (rows : List ρ) (k : κ) :
    (rows.flatMap fun r => f r :: g r).count k = (rows.map f).count k + (rows.flatMap g).count k := by
  induction rows with
  | nil => rfl
  | cons r rows ih =>
    simp only [List.map_cons, List.flatMap_cons, List.count_cons, List.count_append]
    omega

theorem sum_grouped (all : List ι) (rows : List ρ) (k : κ) :
    ((grouped dim all rows).map fun c => if c.key = k then c.count else 0).sum =
      (tally (fun r => all.map fun i => dim i r) rows k : Int) := by
  induction all with
  | nil =>
    have hnil : rows.flatMap (fun r => ([] : List ι).map fun i => dim i r) = [] := by
      rw [List.flatMap_eq_nil_iff]
      exact fun _ _ => rfl
    rw [tally, hnil]
    rfl
  | cons i all ih =>
    rw [grouped, List.flatMap_cons, List.map_append, List.sum_append, sum_groupBy]
    rw [grouped] at ih
    have hkeys : tally (fun r => (i :: all).map fun i => dim i r) rows k =
        (rows.map (dim i)).count k + tally (fun r => all.map fun i => dim i r) rows k :=
      count_flatMap_cons (dim i) (fun r => all.map fun i => dim i r) rows k
    rw [ih, hkeys]
    push_cast
    rfl

/-- **A rebuild from scratch is exact.** -/
theorem rebuild_exact {twice : ε} {all : List ι} {rows : List ρ} {t' : Counts κ}
    (h : rebuild dim twice all rows Table.empty = .ok t') :
    Exact (fun r => all.map fun i => dim i r) rows t' := by
  have hsep := rebuild_ok_iff.1 ⟨t', h⟩
  have hnodup := nodup_grouped_iff.2 hsep
  rw [rebuild, if_pos hnodup, Except.ok.injEq] at h
  subst h
  intro k
  rw [stored_foldl_upsert hnodup (fun _ _ => rfl) k, sum_grouped, stored_empty, zero_add]

/-! ## What a key counts -/

theorem count_map_dim {all : List ι} (hall : all.Nodup) {r : ρ} {i : ι} (hi : i ∈ all) {k : κ}
    (hother : ∀ j ∈ all, j ≠ i → dim j r ≠ k) :
    (all.map fun j => dim j r).count k = if dim i r = k then 1 else 0 := by
  obtain ⟨before, after, rfl⟩ := List.mem_iff_append.1 hi
  obtain ⟨-, hcons, hdisjoint⟩ := List.nodup_append.1 hall
  have hbefore : (before.map fun j => dim j r).count k = 0 := by
    refine List.count_eq_zero_of_not_mem fun hk => ?_
    obtain ⟨j, hj, he⟩ := List.mem_map.1 hk
    exact hother j (List.mem_append_left _ hj) (hdisjoint j hj i List.mem_cons_self) he
  have hafter : (after.map fun j => dim j r).count k = 0 := by
    refine List.count_eq_zero_of_not_mem fun hk => ?_
    obtain ⟨j, hj, he⟩ := List.mem_map.1 hk
    have hne : j ≠ i := by
      rintro rfl
      exact (List.nodup_cons.1 hcons).1 hj
    exact hother j (List.mem_append_right _ (List.mem_cons_of_mem i hj)) hne he
  rw [List.map_append, List.map_cons, List.count_append, List.count_cons, hbefore, hafter]
  by_cases h : dim i r = k
  · simp [h]
  · simp [h]

/-- **A key of one dimension only counts the rows that have it there.** -/
theorem tally_eq_countP {all : List ι} (hall : all.Nodup) {rows : List ρ} {i : ι} (hi : i ∈ all) {k : κ}
    (hother : ∀ j ∈ all, j ≠ i → ∀ r ∈ rows, dim j r ≠ k) :
    tally (fun r => all.map fun j => dim j r) rows k = rows.countP fun r => dim i r = k := by
  induction rows with
  | nil => rfl
  | cons r rows ih =>
    have hrest : ∀ j ∈ all, j ≠ i → ∀ r ∈ rows, dim j r ≠ k := fun j hj hne r' hr' =>
      hother j hj hne r' (List.mem_cons_of_mem r hr')
    have hfirst := count_map_dim hall hi fun j hj hne => hother j hj hne r List.mem_cons_self
    have htail : (rows.flatMap fun r => all.map fun j => dim j r).count k = rows.countP fun r => dim i r = k := ih hrest
    rw [tally, List.flatMap_cons, List.count_append, htail, hfirst, List.countP_cons, add_comm]
    simp only [decide_eq_true_eq]

end Rebuild

end CountView
