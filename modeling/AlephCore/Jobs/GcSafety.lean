import AlephCore.Jobs.GarbageCollector
import AlephCore.Jobs.PinTracking

/-!
# GcSafety — which files a cycle keeps

A cycle keeps a file if its first selection fails, or if the file is `Spared`: every one of its pins is
seen to be referenced, the file hash is also the hash of a message, and an expired grace period pin is
accompanied by an active one.  Otherwise some order of the rows makes a cycle unpin it.
-/

namespace AlephCore.GarbageCollector

open ProgE Prog

/-- The file is not unpinned and keeps its active pins. -/
structure FileKept (f : ItemHash) (n n' : Node) : Prop where
  unpinned : n'.unpinned.count f = n.unpinned.count f
  pins : ∀ p ∈ n.filePins, p.itemHash = f → p.Active → p ∈ n'.filePins

/-- The first selection fails: there is an orphaned pin, and a content that cannot be cast. -/
def Aborts (ctx : GcContext) (n : Node) : Prop :=
  (∃ p ∈ n.filePins, Orphaned ctx n p) ∧ CastFails ctx.env n

/-- No pass finds anything to do about the file. -/
structure Spared (ctx : GcContext) (n : Node) (f : ItemHash) : Prop where
  referenced : ∀ p ∈ n.filePins, p.itemHash = f → ¬ Orphaned ctx n p
  named : ∀ p ∈ n.filePins, p.itemHash = f → ∃ m ∈ n.messages, m.itemHash = f
  repinned : ∀ p ∈ n.filePins, p.itemHash = f → GraceExpired ctx p →
    ∃ q ∈ n.filePins, q.itemHash = f ∧ q.Active

variable {ctx : GcContext} {n n' : Node} {f : ItemHash}

/-! ## What leaves a file alone -/

/-- Nothing about the file has changed. -/
structure Untouched (f : ItemHash) (n n' : Node) : Prop where
  messages : n'.messages = n.messages
  unpinned : n'.unpinned.count f = n.unpinned.count f
  pins : ∀ p : FilePinRecord, p.itemHash = f → (p ∈ n'.filePins ↔ p ∈ n.filePins)

instance (f : ItemHash) : IsPreorder Node (Untouched f) where
  refl _ := ⟨rfl, rfl, fun _ _ => Iff.rfl⟩
  trans _ _ _ h h' := ⟨h'.messages.trans h.messages, h'.unpinned.trans h.unpinned,
    fun p hp => (h'.pins p hp).trans (h.pins p hp)⟩

theorem Untouched.kept (h : Untouched f n n') : FileKept f n n' :=
  ⟨h.unpinned, fun p hp hf _ => (h.pins p hf).2 hp⟩

theorem moves_unpin {hash : ItemHash} (h : hash ≠ f) : Moves (Untouched f) (unpin hash).run := by
  refine moves_ignore (moves_execute fun s => ⟨rfl, ?_, fun _ _ => Iff.rfl⟩)
  rw [List.count_append, List.count_singleton, if_neg (by simpa using h), Nat.add_zero]

theorem moves_deletePins {hash : ItemHash} (h : hash ≠ f) : Moves (Untouched f) (deletePins hash).run := by
  refine moves_execute fun s => ⟨rfl, rfl, fun p hp => ?_⟩
  rw [Table.mem_delete]
  exact and_iff_left fun hhash => h (hhash.symm.trans hp)

theorem moves_stillOrphaned (hash : ItemHash) : Moves (Untouched f) (stillOrphaned ctx hash).run := by
  refine moves_sql fun s => ?_
  split_ifs <;> exact refl_of _ s

theorem moves_removeFile {hash : ItemHash} (h : hash ≠ f) :
    Moves (Untouched f) (removeFile ctx hash).run := by
  refine moves_bind (moves_stillOrphaned hash) fun orphaned => ?_
  split_ifs
  · refine moves_bind (moves_unpin h) fun _ => moves_bind (moves_deletePins h) fun _ => ?_
    exact moves_bind (moves_execute fun s => ⟨rfl, rfl, fun _ _ => Iff.rfl⟩) fun _ => moves_pure true
  · exact moves_pure false

theorem moves_removeFiles {files : List (ItemHash × Int)} (h : ∀ file ∈ files, file.1 ≠ f)
    (stats : GcStats) : Moves (Untouched f) (removeFiles ctx stats files).run := by
  induction files generalizing stats with
  | nil => exact moves_pure stats
  | cons file files ih =>
    refine moves_bind (moves_attempt (moves_removeFile (h file (by simp)))) fun removed => ?_
    exact ih (fun file hfile => h file (by simp [hfile])) _

theorem moves_cleanPins {hashes : List ItemHash} (h : f ∉ hashes) (cleaned : Nat) :
    Moves (Untouched f) (cleanPins cleaned hashes).run := by
  induction hashes generalizing cleaned with
  | nil => exact moves_pure cleaned
  | cons hash hashes ih =>
    have hne : hash ≠ f := fun he => h (by simp [he])
    refine moves_bind (moves_unpin hne) fun _ => ?_
    refine moves_bind (moves_attempt (moves_deletePins hne)) fun deleted => ?_
    exact ih (fun hmem => h (by simp [hmem])) _

theorem moves_cleanExpiredPending : Moves (Untouched f) (cleanExpiredPending ctx).run :=
  moves_execute fun _ => ⟨rfl, rfl, fun _ _ => Iff.rfl⟩

theorem moves_cleanOldRejected : Moves (Untouched f) (cleanOldRejected ctx).run :=
  moves_execute fun _ => ⟨rfl, rfl, fun _ _ => Iff.rfl⟩

/-! ## The first pass -/

theorem mem_orphanedPins {p : FilePinRecord} :
    p ∈ orphanedPins ctx n ↔ p ∈ n.filePins ∧ Orphaned ctx n p := by
  rw [orphanedPins, List.mem_filter, SqlOrder.mem_scan, decide_eq_true_iff, Table.mem_def]

theorem exec_selectOrphanedFiles_ok {files : List (ItemHash × Int)} :
    Exec (selectOrphanedFiles ctx).run n (.ok files) n' ↔ ¬ Aborts ctx n ∧ n' = n ∧
      files = ((orphanedPins ctx n).take selectLimit).map fun p => (p.itemHash, p.size) := by
  have haborts : (orphanedPins ctx n ≠ [] ∧ CastFails ctx.env n) ↔ Aborts ctx n := by
    refine and_congr_left fun _ => ⟨fun h => ?_, fun ⟨p, hp, ho⟩ => ?_⟩
    · obtain ⟨p, hp⟩ := List.exists_mem_of_ne_nil _ h
      exact ⟨p, mem_orphanedPins.1 hp⟩
    · exact List.ne_nil_of_mem (mem_orphanedPins.2 ⟨hp, ho⟩)
  rw [selectOrphanedFiles, exec_sql_ok]
  by_cases h : Aborts ctx n
  · rw [if_pos (haborts.2 h)]
    simp [h]
  · rw [if_neg fun h' => h (haborts.1 h')]
    simp [h, eq_comm, and_comm]

theorem reach_sql_read {α : Type} {g : Node → Except DbError α × Node} (hg : (g n).2 = n)
    (h : Reach (sql g : Db DbError α).run n n') : n' = n := by
  rcases reach_sql.1 h with h | h
  · exact h
  · rw [h, hg]

theorem selectOrphanedFiles_reads (h : Reach (selectOrphanedFiles ctx).run n n') : n' = n := by
  refine reach_sql_read ?_ h
  split_ifs <;> rfl

/-- The first pass leaves a file alone that has no orphaned pin. -/
theorem removeOrphanedFiles_untouched (hf : ∀ p ∈ n.filePins, p.itemHash = f → ¬ Orphaned ctx n p)
    (h : Reach (removeOrphanedFiles ctx).run n n') : Untouched f n n' := by
  rcases reach_bind.1 h with h | ⟨files, t, h1, h2⟩
  · rw [selectOrphanedFiles_reads h]
    exact refl_of _ n
  · obtain ⟨-, rfl, rfl⟩ := exec_selectOrphanedFiles_ok.1 h1
    refine (moves_removeFiles (fun file hfile => ?_) _).reach h2
    obtain ⟨p, hp, rfl⟩ := List.mem_map.1 hfile
    obtain ⟨hp, ho⟩ := mem_orphanedPins.1 (List.mem_of_mem_take hp)
    exact fun he => hf p hp he ho

/-! ## The second pass -/

theorem mem_pinsWithoutMessage :
    f ∈ pinsWithoutMessage ctx n ↔
      (∃ p ∈ n.filePins, p.itemHash = f) ∧ ∀ m ∈ n.messages, m.itemHash ≠ f := by
  simp only [pinsWithoutMessage, List.mem_map, List.mem_filter, SqlOrder.mem_scan, decide_eq_true_iff,
    Table.mem_def]
  constructor
  · rintro ⟨p, ⟨hp, hm⟩, rfl⟩
    exact ⟨⟨p, hp, rfl⟩, hm⟩
  · rintro ⟨⟨p, hp, rfl⟩, hm⟩
    exact ⟨p, ⟨hp, hm⟩, rfl⟩

/-- The second pass leaves a file alone whose hash is the hash of a message. -/
theorem cleanOrphanedPins_untouched
    (hf : (∃ p ∈ n.filePins, p.itemHash = f) → ∃ m ∈ n.messages, m.itemHash = f)
    (h : Reach (cleanOrphanedPins ctx).run n n') : Untouched f n n' := by
  rcases reach_query_bind h with rfl | h
  · exact refl_of _ n'
  · refine (moves_cleanPins (fun hmem => ?_) 0).reach h
    obtain ⟨hpin, hm⟩ := mem_pinsWithoutMessage.1 (List.mem_of_mem_take hmem)
    obtain ⟨m, hmem, hhash⟩ := hf hpin
    exact hm m hmem hhash

/-! ## The last pass -/

/-- Nothing has changed about the file but its grace period pins. -/
structure ActiveKept (f : ItemHash) (n n' : Node) : Prop where
  unpinned : n'.unpinned.count f = n.unpinned.count f
  pins : ∀ p : FilePinRecord, p.itemHash = f → p.Active → (p ∈ n'.filePins ↔ p ∈ n.filePins)

instance (f : ItemHash) : IsPreorder Node (ActiveKept f) where
  refl _ := ⟨rfl, fun _ _ _ => Iff.rfl⟩
  trans _ _ _ h h' := ⟨h'.unpinned.trans h.unpinned, fun p hp ha => (h'.pins p hp ha).trans (h.pins p hp ha)⟩

theorem Untouched.activeKept (h : Untouched f n n') : ActiveKept f n n' :=
  ⟨h.unpinned, fun p hp _ => h.pins p hp⟩

theorem ActiveKept.kept (h : ActiveKept f n n') : FileKept f n n' :=
  ⟨h.unpinned, fun p hp hf ha => (h.pins p hf ha).2 hp⟩

theorem moves_deleteGracePin (hash : ItemHash) (owner : Address) :
    Moves (ActiveKept f) (deleteGracePin hash owner).run := by
  refine moves_execute fun s => ⟨rfl, fun p _ ha => ?_⟩
  rw [Table.mem_delete]
  exact and_iff_left fun hp => ha hp.2.2

theorem moves_collectFile {hash : ItemHash} (h : hash ≠ f) :
    Moves (Untouched f) (collectFile hash).run := by
  refine moves_bind (moves_unpin h) fun _ => moves_bind (moves_deletePins h) fun _ => ?_
  refine moves_bind (moves_execute fun s => ⟨rfl, rfl, fun _ _ => Iff.rfl⟩) fun _ => ?_
  exact moves_execute fun s => ⟨rfl, rfl, fun _ _ => Iff.rfl⟩

theorem activePins_pos {hash : ItemHash} (h : ∃ q ∈ n.filePins, q.itemHash = hash ∧ q.Active) :
    0 < n.filePins.rows.countP fun p => decide (p.itemHash = hash ∧ p.Active) := by
  obtain ⟨q, hq, hhash⟩ := h
  exact List.countP_pos_iff.2 ⟨q, hq, by simpa using hhash⟩

/-- An expired grace period pin does not harm a file with an active pin. -/
theorem cleanGracePin_kept {hash : ItemHash} {owner : Address}
    (hf : hash = f → ∃ q ∈ n.filePins, q.itemHash = f ∧ q.Active)
    (h : Reach (cleanGracePin hash owner).run n n') : ActiveKept f n n' := by
  rcases reach_query_bind h with rfl | h
  · exact refl_of _ n'
  · split_ifs at h with hcount
    · exact (moves_bind (moves_deleteGracePin hash owner) fun _ => moves_pure 0).reach h
    · have hne : hash ≠ f := by
        rintro rfl
        exact hcount (activePins_pos (hf rfl))
      exact ((moves_bind (moves_collectFile hne) fun _ => moves_pure 1).reach h).activeKept

theorem cleanGracePins_kept {pins : List (ItemHash × Address)} {cleaned : Nat}
    (hf : (∃ pin ∈ pins, pin.1 = f) → ∃ q ∈ n.filePins, q.itemHash = f ∧ q.Active)
    (h : Reach (cleanGracePins cleaned pins).run n n') : ActiveKept f n n' := by
  induction pins generalizing n cleaned with
  | nil =>
    rw [reach_pure.1 h]
    exact refl_of _ n
  | cons pin pins ih =>
    have hpin : pin.1 = f → ∃ q ∈ n.filePins, q.itemHash = f ∧ q.Active := fun he => hf ⟨pin, by simp, he⟩
    rcases reach_bind.1 h with h | ⟨collected, t, h1, h2⟩
    · exact cleanGracePin_kept hpin h
    · have hstep := cleanGracePin_kept hpin h1.reach
      refine trans_of _ hstep (ih ?_ h2)
      rintro ⟨pin', hmem, he⟩
      obtain ⟨q, hq, hqf, ha⟩ := hf ⟨pin', by simp [hmem], he⟩
      exact ⟨q, (hstep.pins q hqf ha).2 hq, hqf, ha⟩

theorem mem_expiredGracePins {owner : Address} :
    (f, owner) ∈ expiredGracePins ctx n ↔
      ∃ p ∈ n.filePins, GraceExpired ctx p ∧ p.itemHash = f ∧ p.owner = owner := by
  simp only [expiredGracePins, List.mem_map, List.mem_filter, SqlOrder.mem_scan, decide_eq_true_iff,
    Table.mem_def, Prod.mk.injEq, and_assoc]

theorem cleanExpiredGracePins_kept
    (hf : (∃ p ∈ n.filePins, p.itemHash = f ∧ GraceExpired ctx p) →
      ∃ q ∈ n.filePins, q.itemHash = f ∧ q.Active)
    (h : Reach (cleanExpiredGracePins ctx).run n n') : ActiveKept f n n' := by
  rcases reach_query_bind h with rfl | h
  · exact refl_of _ n'
  · refine cleanGracePins_kept ?_ h
    rintro ⟨⟨hash, owner⟩, hmem, rfl⟩
    obtain ⟨p, hp, hexpired, hhash, -⟩ := mem_expiredGracePins.1 (List.mem_of_mem_take hmem)
    exact hf ⟨p, hp, hhash, hexpired⟩

/-! ## A whole cycle -/

/-- The passes before the last leave a spared file alone. -/
theorem Spared.lastPass (hf : Spared ctx n f) (h : Reach (runGcCycle ctx).run n n') :
    Untouched f n n' ∨ ∃ t, Untouched f n t ∧ Reach (cleanExpiredGracePins ctx).run t n' := by
  rcases reach_bind.1 h with h | ⟨stats, n₁, h1, h⟩
  · exact .inl (removeOrphanedFiles_untouched hf.referenced h)
  have hfirst := removeOrphanedFiles_untouched hf.referenced h1.reach
  have hnamed : (∃ p ∈ n₁.filePins, p.itemHash = f) → ∃ m ∈ n₁.messages, m.itemHash = f := by
    rintro ⟨p, hp, hhash⟩
    rw [hfirst.messages]
    exact hf.named p ((hfirst.pins p hhash).1 hp) hhash
  rcases reach_bind.1 h with h | ⟨orphaned, n₂, h2, h⟩
  · exact .inl (trans_of _ hfirst (cleanOrphanedPins_untouched hnamed h))
  have hsecond := trans_of _ hfirst (cleanOrphanedPins_untouched hnamed h2.reach)
  rcases reach_bind.1 h with h | ⟨u, n₃, h3, h⟩
  · exact .inl (trans_of _ hsecond (moves_cleanExpiredPending.reach h))
  have hthird := trans_of _ hsecond (moves_cleanExpiredPending.exec h3)
  rcases reach_bind.1 h with h | ⟨u, n₄, h4, h⟩
  · exact .inl (trans_of _ hthird (moves_cleanOldRejected.reach h))
  have hfourth := trans_of _ hthird (moves_cleanOldRejected.exec h4)
  rcases reach_bind.1 h with h | ⟨cleaned, n₅, h5, h⟩
  · exact .inr ⟨n₄, hfourth, h⟩
  · rw [reach_pure.1 h]
    exact .inr ⟨n₄, hfourth, h5.reach⟩

/-- What spared a file still does after a pass that left it alone. -/
theorem Spared.repinned_untouched {t : Node} (hf : Spared ctx n f) (h : Untouched f n t) :
    (∃ q ∈ t.filePins, q.itemHash = f ∧ GraceExpired ctx q) → ∃ q ∈ t.filePins, q.itemHash = f ∧ q.Active := by
  rintro ⟨p, hp, hhash, hexpired⟩
  obtain ⟨q, hq, hqf, ha⟩ := hf.repinned p ((h.pins p hhash).1 hp) hhash hexpired
  exact ⟨q, (h.pins q hqf).2 hq, hqf, ha⟩

/-- **A spared file is kept**, wherever the cycle is cut off. -/
theorem Spared.kept (hf : Spared ctx n f) (h : Reach (runGcCycle ctx).run n n') : FileKept f n n' := by
  rcases hf.lastPass h with hsame | ⟨t, hsame, hlast⟩
  · exact hsame.kept
  · exact (trans_of _ hsame.activeKept (cleanExpiredGracePins_kept (hf.repinned_untouched hsame) hlast)).kept

/-- An aborted cycle changes nothing. -/
theorem Aborts.unchanged (hf : Aborts ctx n) (h : Reach (runGcCycle ctx).run n n') : n' = n := by
  rcases reach_bind.1 h with h | ⟨stats, n₁, h1, -⟩
  · rcases reach_bind.1 h with h | ⟨files, t, h1, -⟩
    · exact selectOrphanedFiles_reads h
    · exact absurd hf (exec_selectOrphanedFiles_ok.1 h1).1
  · obtain ⟨files, t, h2, -⟩ := exec_bind_ok.1 h1
    exact absurd hf (exec_selectOrphanedFiles_ok.1 h2).1

/-! ## What harms a file -/

/-- The state right after the file has been unpinned. -/
def afterUnpin (f : ItemHash) (n : Node) : Node := { n with unpinned := n.unpinned ++ [f] }

theorem Untouched.not_kept (h : Untouched f n n') : ¬ FileKept f n (afterUnpin f n') := by
  intro hkept
  have hcount := hkept.unpinned
  rw [afterUnpin, List.count_append, h.unpinned, List.count_singleton_self] at hcount
  omega

theorem reach_unpin {α : Type} {q : Unit → Db DbError α} :
    Reach (unpin f >>= q).run n (afterUnpin f n) :=
  reach_bind.2 (.inl (reach_ignore (reach_execute _ n)))

theorem exec_removeFiles_total (ctx : GcContext) (n : Node) (stats : GcStats) (files : List (ItemHash × Int)) :
    ∃ stats' n', Exec (removeFiles ctx stats files).run n (.ok stats') n' := by
  induction files generalizing stats n with
  | nil => exact ⟨stats, n, exec_pure_ok.2 ⟨rfl, rfl⟩⟩
  | cons file files ih =>
    obtain ⟨stats', n', h⟩ := ih ((removeFile ctx file.1).run.run n).2
      (stats.count file.2 ((removeFile ctx file.1).run.run n).1)
    exact ⟨stats', n', exec_bind_ok.2 ⟨_, _, exec_attempt_ok.2 (exec_run _ n), h⟩⟩

theorem exec_removeOrphanedFiles_total (h : ¬ Aborts ctx n) :
    ∃ stats n', Exec (removeOrphanedFiles ctx).run n (.ok stats) n' := by
  obtain ⟨stats, n', h'⟩ := exec_removeFiles_total ctx n _ _
  exact ⟨stats, n', exec_bind_ok.2 ⟨_, n, exec_selectOrphanedFiles_ok.2 ⟨h, rfl, rfl⟩, h'⟩⟩

theorem exec_cleanPins_total (cleaned : Nat) (hashes : List ItemHash) :
    ∃ cleaned' n', Exec (cleanPins cleaned hashes).run n (.ok cleaned') n' := by
  induction hashes generalizing cleaned n with
  | nil => exact ⟨cleaned, n, exec_pure_ok.2 ⟨rfl, rfl⟩⟩
  | cons hash hashes ih =>
    obtain ⟨cleaned', n', h⟩ := ih (n := ((deletePins hash).run.run (afterUnpin hash n)).2)
      (if ((deletePins hash).run.run (afterUnpin hash n)).1.toOption.isSome then cleaned + 1 else cleaned)
    refine ⟨cleaned', n', exec_bind_ok.2 ⟨(), afterUnpin hash n, ?_, exec_bind_ok.2 ⟨_, _, ?_, h⟩⟩⟩
    · exact exec_ignore_ok.2 ⟨.ok (), exec_execute_ok.2 rfl⟩
    · exact exec_attempt_ok.2 (exec_run _ _)

theorem exec_cleanOrphanedPins_total (ctx : GcContext) (n : Node) :
    ∃ cleaned n', Exec (cleanOrphanedPins ctx).run n (.ok cleaned) n' := by
  obtain ⟨cleaned, n', h⟩ := exec_cleanPins_total (n := n) 0 ((pinsWithoutMessage ctx n).take selectLimit)
  exact ⟨cleaned, n', exec_bind_ok.2 ⟨_, n, exec_query_ok.2 ⟨rfl, rfl⟩, h⟩⟩

/-- The first pass unpins the file of an orphaned pin that comes first. -/
theorem removeOrphanedFiles_unpins {p : FilePinRecord} (hp : p ∈ n.filePins) (horphaned : Orphaned ctx n p)
    (haborts : ¬ Aborts ctx n) (horder : ctx.order = .favour p) :
    Reach (removeOrphanedFiles ctx).run n (afterUnpin p.itemHash n) := by
  obtain ⟨rows, hrows⟩ := SqlOrder.favour_scan hp
  have hfirst : orphanedPins ctx n = p :: rows.filter fun q => Orphaned ctx n q := by
    rw [orphanedPins, horder, hrows, List.filter_cons_of_pos (by simpa using horphaned)]
  have hstill : Exec (stillOrphaned ctx p.itemHash).run n (.ok true) n := by
    rw [stillOrphaned, exec_sql_ok, if_neg horphaned.1, if_neg fun hc => haborts ⟨⟨p, hp, horphaned⟩, hc⟩]
  refine reach_bind.2 (.inr ⟨_, n, exec_selectOrphanedFiles_ok.2 ⟨haborts, rfl, rfl⟩, ?_⟩)
  rw [hfirst]
  refine reach_bind.2 (.inl (reach_attempt (reach_bind.2 (.inr ⟨true, n, hstill, ?_⟩))))
  exact reach_unpin

/-- The second pass unpins the file of a pin that comes first, if no message has its hash. -/
theorem cleanOrphanedPins_unpins {p : FilePinRecord} (hp : p ∈ n.filePins)
    (hm : ∀ m ∈ n.messages, m.itemHash ≠ p.itemHash) (horder : ctx.order = .favour p) :
    Reach (cleanOrphanedPins ctx).run n (afterUnpin p.itemHash n) := by
  obtain ⟨rows, hrows⟩ := SqlOrder.favour_scan hp
  have hm' : ∀ m ∈ n.messages.rows, m.itemHash ≠ p.itemHash := hm
  have hfirst : ∃ hashes, pinsWithoutMessage ctx n = p.itemHash :: hashes := by
    rw [pinsWithoutMessage, horder, hrows, List.filter_cons_of_pos (by simpa using hm')]
    exact ⟨_, rfl⟩
  obtain ⟨hashes, hfirst⟩ := hfirst
  refine reach_bind.2 (.inr ⟨_, n, exec_query_ok.2 ⟨rfl, rfl⟩, ?_⟩)
  rw [hfirst]
  exact reach_unpin

/-- The last pass unpins the file of an expired grace period pin that comes first, if no pin of the file
is active. -/
theorem cleanExpiredGracePins_unpins {p : FilePinRecord} (hp : p ∈ n.filePins) (hexpired : GraceExpired ctx p)
    (hactive : ∀ q ∈ n.filePins, q.itemHash = p.itemHash → ¬ q.Active) (horder : ctx.order = .favour p) :
    Reach (cleanExpiredGracePins ctx).run n (afterUnpin p.itemHash n) := by
  obtain ⟨rows, hrows⟩ := SqlOrder.favour_scan hp
  have hfirst : ∃ pins, expiredGracePins ctx n = (p.itemHash, p.owner) :: pins := by
    rw [expiredGracePins, horder, hrows, List.filter_cons_of_pos (by simpa using hexpired)]
    exact ⟨_, rfl⟩
  obtain ⟨pins, hfirst⟩ := hfirst
  have hcount : n.filePins.rows.countP (fun q => decide (q.itemHash = p.itemHash ∧ q.Active)) = 0 := by
    refine List.countP_eq_zero.2 fun q hq h => ?_
    obtain ⟨hhash, ha⟩ := of_decide_eq_true h
    exact hactive q hq hhash ha
  refine reach_bind.2 (.inr ⟨_, n, exec_query_ok.2 ⟨rfl, rfl⟩, ?_⟩)
  rw [hfirst]
  refine reach_bind.2 (.inl (reach_bind.2 (.inr ⟨0, n, exec_query_ok.2 ⟨hcount.symm, rfl⟩, ?_⟩)))
  rw [if_neg (lt_irrefl 0)]
  exact reach_bind.2 (.inl reach_unpin)

/-- A file that is not spared is unpinned by a cycle that meets the right pin first. -/
theorem exists_unpinned (haborts : ¬ Aborts ctx n) (hspared : ¬ Spared ctx n f) :
    ∃ order n₁, Untouched f n n₁ ∧ Reach (runGcCycle { ctx with order := order }).run n (afterUnpin f n₁) := by
  by_cases horphaned : ∀ p ∈ n.filePins, p.itemHash = f → ¬ Orphaned ctx n p
  swap
  · push Not at horphaned
    obtain ⟨p, hp, rfl, ho⟩ := horphaned
    refine ⟨.favour p, n, refl_of _ n, reach_bind.2 (.inl ?_)⟩
    exact removeOrphanedFiles_unpins hp ho haborts rfl
  -- the first pass ends and leaves the file alone
  have hfirst : ∀ order, ∃ stats n₁, Untouched f n n₁ ∧
      Exec (removeOrphanedFiles { ctx with order := order }).run n (.ok stats) n₁ := by
    intro order
    have haborts' : ¬ Aborts { ctx with order := order } n := haborts
    have horphaned' : ∀ p ∈ n.filePins, p.itemHash = f → ¬ Orphaned { ctx with order := order } n p := horphaned
    obtain ⟨stats, n₁, h⟩ := exec_removeOrphanedFiles_total haborts'
    exact ⟨stats, n₁, removeOrphanedFiles_untouched horphaned' h.reach, h⟩
  by_cases hnamed : ∀ p ∈ n.filePins, p.itemHash = f → ∃ m ∈ n.messages, m.itemHash = f
  swap
  · push Not at hnamed
    obtain ⟨p, hp, rfl, hm⟩ := hnamed
    obtain ⟨stats, n₁, h₁, hexec₁⟩ := hfirst (.favour p)
    refine ⟨.favour p, n₁, h₁, reach_bind.2 (.inr ⟨stats, n₁, hexec₁, reach_bind.2 (.inl ?_)⟩)⟩
    refine cleanOrphanedPins_unpins ((h₁.pins p rfl).2 hp) ?_ rfl
    rwa [h₁.messages]
  have hgrace : ∃ p ∈ n.filePins, p.itemHash = f ∧ GraceExpired ctx p ∧
      ∀ q ∈ n.filePins, q.itemHash = f → ¬ q.Active := by
    by_contra h
    push Not at h
    exact hspared ⟨horphaned, hnamed, h⟩
  obtain ⟨p, hp, rfl, hexpired, hactive⟩ := hgrace
  obtain ⟨stats, n₁, h₁, hexec₁⟩ := hfirst (.favour p)
  obtain ⟨cleaned, n₂, hexec₂⟩ := exec_cleanOrphanedPins_total { ctx with order := .favour p } n₁
  have h₂ : Untouched p.itemHash n n₂ := by
    refine trans_of _ h₁ (cleanOrphanedPins_untouched ?_ hexec₂.reach)
    rintro -
    rw [h₁.messages]
    exact hnamed p hp rfl
  obtain ⟨n₃, hexec₃⟩ : ∃ n₃, Exec (cleanExpiredPending { ctx with order := .favour p }).run n₂ (.ok ()) n₃ :=
    ⟨_, exec_execute_ok.2 rfl⟩
  obtain ⟨n₄, hexec₄⟩ : ∃ n₄, Exec (cleanOldRejected { ctx with order := .favour p }).run n₃ (.ok ()) n₄ :=
    ⟨_, exec_execute_ok.2 rfl⟩
  have h₄ := trans_of _ (trans_of _ h₂ (moves_cleanExpiredPending.exec hexec₃)) (moves_cleanOldRejected.exec hexec₄)
  refine ⟨.favour p, n₄, h₄, reach_bind.2 (.inr ⟨stats, n₁, hexec₁, reach_bind.2 (.inr ⟨cleaned, n₂, hexec₂, ?_⟩)⟩)⟩
  refine reach_bind.2 (.inr ⟨(), n₃, hexec₃, reach_bind.2 (.inr ⟨(), n₄, hexec₄, reach_bind.2 (.inl ?_)⟩)⟩)
  refine cleanExpiredGracePins_unpins ((h₄.pins p rfl).2 hp) hexpired ?_ rfl
  exact fun q hq hhash => hactive q ((h₄.pins q hhash).1 hq) hhash

/-- **A cycle keeps a file, in every order of the rows and wherever it is cut off, exactly if** its first
selection fails or the file is spared. -/
theorem fileKept_iff :
    (∀ order n', Reach (runGcCycle { ctx with order := order }).run n n' → FileKept f n n') ↔
      Aborts ctx n ∨ Spared ctx n f := by
  constructor
  · intro h
    by_contra hneither
    push Not at hneither
    obtain ⟨order, n₁, huntouched, hreach⟩ := exists_unpinned hneither.1 hneither.2
    exact huntouched.not_kept (h order _ hreach)
  · rintro (h | h) order n' hreach
    · have haborts : Aborts { ctx with order := order } n := h
      rw [haborts.unchanged hreach]
      exact (refl_of (Untouched f) n).kept
    · have hspared : Spared { ctx with order := order } n f := ⟨h.referenced, h.named, h.repinned⟩
      exact hspared.kept hreach

/-! ### The file of a STORE message -/

section LiveFile

open MessageProcessor

/-- A cycle shortly after the message, with a grace period of a day. -/
def fileGc : GcContext := ⟨fileCtx.env, .stored, 1700000300, 86400⟩

example : storedOnce.filePins.rows.map FilePinRecord.itemHash = [file] := by decide +kernel

/-- The file of a STORE message that has just been accepted is unpinned, and its pin is deleted: the second
pass compares the hash of the file with the hashes of the messages. -/
theorem liveFile_unpinned :
    Accepted fileCtx.env firstStore .empty storedOnce ∧
      (∃ r ∈ storedOnce.messages, StoresFile fileCtx.env r file) ∧
      ∃ n', Reach (runGcCycle fileGc).run storedOnce n' ∧ n'.unpinned = [file] ∧ n'.filePins.rows = [] ∧
        ¬ FileKept file storedOnce n' := by
  have hunpinned : ((runGcCycle fileGc).run.run storedOnce).2.unpinned = [file] := by decide +kernel
  have hpins : ((runGcCycle fileGc).run.run storedOnce).2.filePins.rows = [] := by decide +kernel
  have hrow : processedRow fileCtx.env firstStore 1700000200 ∈ storedOnce.messages := by decide +kernel
  refine ⟨accepted_firstStore, ⟨_, hrow, storesFile_firstStore⟩, _, (exec_run _ storedOnce).reach, hunpinned,
    hpins, fun hkept => ?_⟩
  have hcount := hkept.unpinned
  rw [hunpinned, List.count_singleton_self] at hcount
  exact absurd hcount (by decide)

end LiveFile

end AlephCore.GarbageCollector
