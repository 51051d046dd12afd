import AlephCore.Jobs.Repinning

/-!
# GracePeriod — the time a FORGET leaves a file

A FORGET that takes the last active pin of a file writes a grace period pin, whose `delete_by` only the last
pass of a cycle looks at.  In runs whose cycles either fail at their first selection or find every file that
is still in its grace period `Spared`, no such file is unpinned and no such pin is deleted before its time.
-/

namespace AlephCore.GarbageCollector

open ProgE Prog MessageProcessor

/-! ## What is granted -/

/-- A file is left to its owner until a given time. -/
structure Grant where
  file : ItemHash
  owner : Address
  deleteBy : Timestamp

/-- The row that grants it. -/
def Grant.IsPin (g : Grant) (p : FilePinRecord) : Prop :=
  p.itemHash = g.file ∧ p.owner = g.owner ∧ p.pinType = .gracePeriod ∧ p.deleteBy = some g.deleteBy

/-- The file is not unpinned, and the row is not deleted. -/
structure Grant.Honoured (g : Grant) (n n' : Node) : Prop where
  unpinned : n'.unpinned.count g.file = n.unpinned.count g.file
  pin : ∀ p ∈ n.filePins, g.IsPin p → p ∈ n'.filePins

/-- What has been granted during a run, and which grants a cycle broke before their time. -/
structure History where
  node : Node
  granted : Grant → Prop
  broken : Grant → Prop

/-- Nothing has been granted yet. -/
def History.start (n : Node) : History := ⟨n, fun _ => False, fun _ => False⟩

/-- A task, wherever it is cut off: what it grants are the grace period pins that it writes. -/
def History.afterTask (h : History) (ctx : ProcessorContext) (n' : Node) : History where
  node := n'
  granted g := h.granted g ∨
    g.deleteBy = ctx.now + ForgetHandler.gracePeriod ∧ ∃ p ∈ n'.filePins, p ∉ h.node.filePins ∧ g.IsPin p
  broken := h.broken

/-- A cycle, wherever it is cut off. -/
def History.afterCycle (h : History) (gc : GcContext) (n' : Node) : History where
  node := n'
  granted := h.granted
  broken g := h.broken g ∨ h.granted g ∧ gc.now < g.deleteBy ∧ ¬ g.Honoured h.node n'

/-- Before each grant's time the cycle fails at its first selection, or the file is spared. -/
def SparesGrants (gc : GcContext) (h : History) : Prop :=
  ∀ g, h.granted g → gc.now < g.deleteBy → Aborts gc h.node ∨ Spared gc h.node g.file

/-- A task of any node processes a message, or a cycle of any clock runs while `guard` holds. -/
inductive GrantStep (guard : GcContext → History → Prop) : History → History → Prop
  | task (ctx : ProcessorContext) (pending : PendingMessageDb) {h : History} {n' : Node}
      (hreach : Reach (processSingleMessage ctx pending).run h.node n') : GrantStep guard h (h.afterTask ctx n')
  | cycle (gc : GcContext) {h : History} {n' : Node} (hguard : guard gc h)
      (hreach : Reach (runGcCycle gc).run h.node n') : GrantStep guard h (h.afterCycle gc n')

variable {ctx : GcContext} {n n' : Node} {f : ItemHash} {p : FilePinRecord}

/-! ## The last pass and a grace period pin -/

/-- The row is not deleted. -/
def PinStays (p : FilePinRecord) (n n' : Node) : Prop := p ∈ n.filePins → p ∈ n'.filePins

instance (p : FilePinRecord) : IsPreorder Node (PinStays p) where
  refl _ := id
  trans _ _ _ h h' := h' ∘ h

/-- Deleting the grace period pin of another owner leaves this one. -/
theorem moves_deleteGracePin_other {hash : ItemHash} {owner : Address}
    (h : ¬ (p.itemHash = hash ∧ p.owner = owner)) :
    Moves (PinStays p) (deleteGracePin hash owner).run := by
  refine moves_execute fun s hp => ?_
  rw [Table.mem_delete]
  exact ⟨hp, fun hdel => h ⟨hdel.1, hdel.2.1⟩⟩

/-- A pin that is not among the expired ones stays, if its file has an active pin beside it. -/
theorem cleanGracePins_pin {pins : List (ItemHash × Address)} {cleaned : Nat}
    (hf : (∃ pin ∈ pins, pin.1 = p.itemHash) → ∃ q ∈ n.filePins, q.itemHash = p.itemHash ∧ q.Active)
    (hpins : (p.itemHash, p.owner) ∉ pins) (hp : p ∈ n.filePins)
    (h : Reach (cleanGracePins cleaned pins).run n n') : p ∈ n'.filePins := by
  induction pins generalizing n cleaned with
  | nil =>
    rw [reach_pure.1 h]
    exact hp
  | cons pin pins ih =>
    obtain ⟨hash, owner⟩ := pin
    have hother : ¬ (p.itemHash = hash ∧ p.owner = owner) := by
      rintro ⟨rfl, rfl⟩
      exact hpins (by simp)
    have hhead : hash = p.itemHash → ∃ q ∈ n.filePins, q.itemHash = p.itemHash ∧ q.Active :=
      fun he => hf ⟨(hash, owner), by simp, he⟩
    -- the first pin either meets another file, or an active pin of this one
    have hstep : ∀ t, Reach (cleanGracePin hash owner).run n t → p ∈ t.filePins := by
      intro t ht
      rcases reach_query_bind ht with rfl | ht
      · exact hp
      · split_ifs at ht with hcount
        · exact (moves_bind (moves_deleteGracePin_other hother) fun _ => moves_pure 0).reach ht hp
        · have hne : hash ≠ p.itemHash := fun he => by
            subst he
            exact hcount (activePins_pos (hhead rfl))
          exact (((moves_bind (moves_collectFile hne) fun _ => moves_pure 1).reach ht).pins p rfl).2 hp
    rcases reach_bind.1 h with h | ⟨collected, t, h1, h2⟩
    · exact hstep _ h
    · refine ih ?_ (fun hmem => hpins (by simp [hmem])) (hstep t h1.reach) h2
      rintro ⟨pin', hmem, he⟩
      obtain ⟨q, hq, hqf, ha⟩ := hf ⟨pin', by simp [hmem], he⟩
      exact ⟨q, ((cleanGracePin_kept hhead h1.reach).pins q hqf ha).2 hq, hqf, ha⟩

theorem cleanExpiredGracePins_pin
    (hf : (∃ q ∈ n.filePins, q.itemHash = p.itemHash ∧ GraceExpired ctx q) →
      ∃ q ∈ n.filePins, q.itemHash = p.itemHash ∧ q.Active)
    (hp : p ∈ n.filePins) (hlive : ¬ GraceExpired ctx p) (h : Reach (cleanExpiredGracePins ctx).run n n') :
    p ∈ n'.filePins := by
  rcases reach_query_bind h with rfl | h
  · exact hp
  · refine cleanGracePins_pin ?_ (fun hmem => ?_) hp h
    · rintro ⟨⟨hash, owner⟩, hmem, rfl⟩
      obtain ⟨q, hq, hexpired, hhash, -⟩ := mem_expiredGracePins.1 (List.mem_of_mem_take hmem)
      exact hf ⟨q, hq, hhash, hexpired⟩
    · -- an expired pin of the same file and owner would be this one
      obtain ⟨q, hq, hexpired, hhash, howner⟩ := mem_expiredGracePins.1 (List.mem_of_mem_take hmem)
      have hsame : q = p := Table.eq_of_key hq hp (Prod.ext hhash howner)
      exact hlive (hsame ▸ hexpired)

/-! ## A cycle -/

/-- A cycle before its time honours the grant of a spared file. -/
theorem Spared.honoured {g : Grant} (hf : Spared ctx n g.file) (hnow : ctx.now < g.deleteBy)
    (h : Reach (runGcCycle ctx).run n n') : g.Honoured n n' := by
  refine ⟨(hf.kept h).unpinned, fun p hp hpin => ?_⟩
  obtain ⟨hfile, -, -, hdeleteBy⟩ := hpin
  have hlive : ¬ GraceExpired ctx p := by
    rintro ⟨-, time, htime, hpast⟩
    obtain rfl : g.deleteBy = time := Option.some.inj (hdeleteBy.symm.trans htime)
    exact absurd hnow (not_lt_of_gt hpast)
  rcases hf.lastPass h with hsame | ⟨t, hsame, hlast⟩
  · exact (hsame.pins p hfile).2 hp
  · refine cleanExpiredGracePins_pin ?_ ((hsame.pins p hfile).2 hp) hlive hlast
    rw [hfile]
    exact hf.repinned_untouched hsame

/-- **A cycle honours every grant before its time, in every order of the rows and wherever it is cut off, exactly
if** it fails at its first selection or the files are spared. -/
theorem honoured_iff (gc : GcContext) (h : History) :
    (∀ order n', Reach (runGcCycle { gc with order := order }).run h.node n' →
        ∀ g, h.granted g → gc.now < g.deleteBy → g.Honoured h.node n') ↔ SparesGrants gc h := by
  constructor
  · intro hhonoured g hg hnow
    by_contra hneither
    push Not at hneither
    obtain ⟨order, n₁, huntouched, hreach⟩ := exists_unpinned hneither.1 hneither.2
    have hcount := (hhonoured order _ hreach g hg hnow).unpinned
    rw [afterUnpin, List.count_append, huntouched.unpinned, List.count_singleton_self] at hcount
    omega
  · intro hspares order n' hreach g hg hnow
    rcases hspares g hg hnow with haborts | hspared
    · have haborts' : Aborts { gc with order := order } h.node := haborts
      rw [haborts'.unchanged hreach]
      exact ⟨rfl, fun p hp _ => hp⟩
    · have hspared' : Spared { gc with order := order } h.node g.file :=
        ⟨hspared.referenced, hspared.named, hspared.repinned⟩
      exact hspared'.honoured hnow hreach

/-! ## Runs -/

/-- A guarded step breaks no grant. -/
theorem GrantStep.broken {h h' : History} (hstep : GrantStep SparesGrants h h') (hbroken : ∀ g, ¬ h.broken g) :
    ∀ g, ¬ h'.broken g := by
  intro g
  cases hstep with
  | task ctx pending hreach => exact hbroken g
  | cycle gc hguard hreach =>
    rintro (hbefore | ⟨hg, hnow, hnot⟩)
    · exact hbroken g hbefore
    · exact hnot ((honoured_iff gc h).2 hguard gc.order _ hreach g hg hnow)

/-- **No grant is broken** in a run whose cycles meet the condition; and in every state such a run reaches, it is
the condition under which the next cycle honours all that has been granted. -/
theorem honoured_of_run {n₀ : Node} {h : History}
    (hrun : Relation.ReflTransGen (GrantStep SparesGrants) (.start n₀) h) :
    (∀ g, ¬ h.broken g) ∧
      ∀ gc, (∀ order n', Reach (runGcCycle { gc with order := order }).run h.node n' →
        ∀ g, h.granted g → gc.now < g.deleteBy → g.Honoured h.node n') ↔ SparesGrants gc h := by
  refine ⟨?_, fun gc => honoured_iff gc h⟩
  induction hrun with
  | refl => exact fun _ => id
  | tail _ hstep ih => exact hstep.broken ih

/-! ### A file that is stored and forgotten -/

section ForgottenFile

/-- The FORGET of `fileCtx` leaves the file to its owner for a day. -/
def fileGrant : Grant := ⟨file, fileOwner, 1700086600⟩

theorem fileGrant_deleteBy : fileGrant.deleteBy = fileCtx.now + ForgetHandler.gracePeriod := by decide +kernel

/-- The FORGET writes the row in each of the two nodes below. -/
theorem granted_fileGrant {h : History} {n' : Node} (hbefore : ∀ p ∈ h.node.filePins.rows, p.pinType = .message)
    (hafter : ∃ p ∈ n'.filePins.rows, p.itemHash = file ∧ p.owner = fileOwner ∧ p.pinType = .gracePeriod ∧
      p.deleteBy = some 1700086600) : (h.afterTask fileCtx n').granted fileGrant := by
  obtain ⟨p, hp, hpin⟩ := hafter
  refine .inr ⟨fileGrant_deleteBy, p, hp, fun hmem => ?_, hpin⟩
  have htype := hbefore p hmem
  rw [hpin.2.2.1] at htype
  cases htype

/-- The node that also holds a message whose content is the file. -/
def namedOnce : Node :=
  let row := { processedRow fileCtx.env firstStore 1700000200 with itemHash := file, itemType := .ipfs }
  { storedOnce with messages := storedOnce.messages.insertNew row }

def namedForgotten : Node :=
  stored fileCtx.env forgetFirst 1700000200
    (ForgetHandler.hashesForgotten forgetFirst (forgetContent firstHash) fileHandlerCtx [firstHash] namedOnce)

example : namedForgotten.messages.rows.map MessageRow.itemHash = [file, forgetFirst.itemHash] := by decide +kernel

/-- Where the hash of the file is also the hash of a message, a cycle in the grace period spares it. -/
theorem namedForgotten_spared : Spared fileGc namedForgotten file := by
  refine ⟨?_, ?_, ?_⟩
  · have hyoung : ∀ p ∈ namedForgotten.filePins.rows, ¬ p.createdAt < fileGc.now - fileGc.gracePeriodSecs := by
      decide +kernel
    exact fun p hp _ ho => hyoung p hp ho.2.2.2
  · have hnamed : ∃ m ∈ namedForgotten.messages.rows, m.itemHash = file := by decide +kernel
    exact fun _ _ _ => hnamed
  · have hlive : ∀ p ∈ namedForgotten.filePins.rows, ¬ GraceExpired fileGc p := by decide +kernel
    exact fun p hp _ hexpired => absurd hexpired (hlive p hp)

/-- Then the grant is honoured. -/
theorem namedForgotten_honoured :
    ∃ h n', Relation.ReflTransGen (GrantStep SparesGrants) (.start namedOnce) h ∧
      Reach (runGcCycle fileGc).run namedForgotten n' ∧ h.node = n' ∧ h.granted fileGrant ∧
      fileGc.now < fileGrant.deleteBy ∧ ∀ g, ¬ h.broken g := by
  obtain ⟨pending, received, -, hexec⟩ : AcceptedBy fileCtx forgetFirst namedOnce namedForgotten :=
    acceptedBy_forgetFirst (by decide +kernel) (fun _ hq => List.not_mem_nil hq) (fun _ hp => List.not_mem_nil hp)
      fun _ hi => List.not_mem_nil hi
  have htask : GrantStep SparesGrants (.start namedOnce) (History.afterTask (.start namedOnce) fileCtx namedForgotten) :=
    .task fileCtx pending hexec.reach
  have hgranted : (History.afterTask (.start namedOnce) fileCtx namedForgotten).granted fileGrant :=
    granted_fileGrant (by decide +kernel) (by decide +kernel)
  have hspares : SparesGrants fileGc (History.afterTask (.start namedOnce) fileCtx namedForgotten) := by
    rintro g (hg | ⟨-, p, hp, -, hfile, -⟩) -
    · exact absurd hg id
    · have hpins : ∀ p ∈ namedForgotten.filePins.rows, p.itemHash = file := by decide +kernel
      rw [← hfile, hpins p hp]
      exact .inr namedForgotten_spared
  obtain ⟨n', hcycle⟩ : ∃ n', Reach (runGcCycle fileGc).run namedForgotten n' :=
    ⟨_, (exec_run (runGcCycle fileGc) namedForgotten).reach⟩
  have hrun := (Relation.ReflTransGen.single htask).tail (.cycle fileGc hspares hcycle)
  exact ⟨_, n', hrun, hcycle, rfl, hgranted, by decide +kernel, (honoured_of_run hrun).1⟩

/-- The file is unpinned a hundred seconds after the FORGET, and the row is deleted: no message has the hash of the
file, so the second pass takes it. -/
theorem forgottenFile_broken :
    ∃ h n', Relation.ReflTransGen (GrantStep fun _ _ => True) (.start .empty) h ∧ h.node = forgottenOnce ∧
      h.granted fileGrant ∧ fileGc.now < fileGrant.deleteBy ∧ Reach (runGcCycle fileGc).run forgottenOnce n' ∧
      n'.unpinned = [file] ∧ n'.filePins.rows = [] ∧ (h.afterCycle fileGc n').broken fileGrant := by
  obtain ⟨ctx, -, pending, -, -, hstore⟩ := accepted_iff.1 accepted_firstStore
  obtain ⟨pending', -, -, hforget⟩ := acceptedBy_forgottenOnce
  have hfirst : GrantStep (fun _ _ => True) (.start .empty) (History.afterTask (.start .empty) ctx storedOnce) :=
    .task ctx pending hstore.reach
  have hrun := (Relation.ReflTransGen.single hfirst).tail (.task fileCtx pending' hforget.reach)
  have hunpinned : ((runGcCycle fileGc).run.run forgottenOnce).2.unpinned = [file] := by decide +kernel
  have hpins : ((runGcCycle fileGc).run.run forgottenOnce).2.filePins.rows = [] := by decide +kernel
  have hbefore : ∀ p ∈ storedOnce.filePins.rows, p.pinType = .message := by decide +kernel
  have hgranted : (((History.start .empty).afterTask ctx storedOnce).afterTask fileCtx forgottenOnce).granted
      fileGrant := granted_fileGrant hbefore (by decide +kernel)
  have hnow : fileGc.now < fileGrant.deleteBy := by decide +kernel
  refine ⟨_, _, hrun, rfl, hgranted, hnow, (exec_run _ forgottenOnce).reach, hunpinned, hpins, .inr ⟨hgranted, hnow, ?_⟩⟩
  intro hhonoured
  have hcount := hhonoured.unpinned
  have hnone : forgottenOnce.unpinned = [] := by decide +kernel
  have hsame : (((History.start .empty).afterTask ctx storedOnce).afterTask fileCtx forgottenOnce).node =
    forgottenOnce := rfl
  rw [hunpinned, hsame, hnone] at hcount
  exact absurd hcount (by decide)

end ForgottenFile

end AlephCore.GarbageCollector
