import AlephCore.Services.TornReads

/-!
# CalmReads — requests that do not disturb each other

Where nobody opens the file of a hash while it is written, and every write of it is carried to its end, what the cache
hands out for the hash is complete.  `Calm` says this of a step, for one hash; the requests for other hashes may do
anything.  A request that is alone is calm, and answers what `get` answers when it runs at once.
-/

namespace AlephCore.StorageService

open Relation UnixPath

variable {env : Env} {service : StorageService} {s s' : Traffic} {task file : Nat} {hash : FileName}
  {content bytes : List UInt8} {progress : Progress}

/-! ## Calm runs -/

/-- Nobody else has a file of the hash open while one is written. -/
def Alone (hash : FileName) (s : Traffic) : Prop :=
  ∀ {task file content offset task' progress}, s.requests task = some ⟨hash, .writing file content offset⟩ →
    s.requests task' = some ⟨hash, progress⟩ → task' ≠ task → progress.isOpen = false

/-- A write under the hash that ends has written everything. -/
def Completes (hash : FileName) (s s' : Traffic) : Prop :=
  ∀ {task file content offset}, s.requests task = some ⟨hash, .writing file content offset⟩ → s'.requests task = none →
    offset = content.length

structure Calm (hash : FileName) (s s' : Traffic) : Prop where
  alone : Alone hash s'
  completes : Completes hash s s'

/-- What a request for the hash has in its hands, in a calm run. -/
def StandsWhole (env : Env) (s : Traffic) (hash : FileName) : Progress → Prop
  | .reading file bytes => ∀ found, s.files hash file = some found → digest env found = hash.text ∧ bytes <+: found
  | .verified content => digest env content = hash.text
  | .writing file content offset =>
    digest env content = hash.text ∧ offset ≤ content.length ∧ s.files hash file = some (content.take offset)
  | _ => True

/-- Each file under the hash is complete, or somebody is writing it. -/
structure Whole (env : Env) (hash : FileName) (s : Traffic) : Prop where
  files : ∀ {file bytes}, s.files hash file = some bytes →
    digest env bytes = hash.text ∨ ∃ task content offset, s.requests task = some ⟨hash, .writing file content offset⟩
  requests : ∀ {task progress}, s.requests task = some ⟨hash, progress⟩ → StandsWhole env s hash progress
  answers : ∀ {bytes}, (hash, .ok bytes) ∈ s.answers → digest env bytes = hash.text

theorem whole_new : Whole env hash .new where
  files h := by cases h
  requests h := by cases h
  answers h := by cases h

/-- What an operation for one hash leaves as it is. -/
structure Local (task : Nat) (hash : FileName) (s s' : Traffic) : Prop where
  others : ∀ task', task' ≠ task → s'.requests task' = s.requests task'
  own : ∀ r, s'.requests task = some r → r.hash = hash
  files : ∀ other, other ≠ hash → s'.files other = s.files other
  answers : ∀ other a, other ≠ hash → (other, a) ∈ s'.answers → (other, a) ∈ s.answers

theorem Local.advance (s : Traffic) (task : Nat) (hash : FileName) (progress : Progress) :
    Local task hash s (s.advance task hash progress) where
  others _ htask := s.advance_of_ne task hash progress htask
  own r hr := by
    rw [Traffic.advance_self] at hr
    cases hr
    rfl
  files _ _ := rfl
  answers _ _ _ ha := ha

theorem Local.answer (s : Traffic) (task : Nat) (hash : FileName) (a : Except StorageError (List UInt8)) :
    Local task hash s (s.answer task hash a) where
  others _ htask := s.answer_of_ne task hash a htask
  own r hr := by
    rw [Traffic.answer_self] at hr
    cases hr
  files _ _ := rfl
  answers other a hother ha := by
    rcases List.mem_append.1 ha with ha | ha
    · exact ha
    · exact absurd (Prod.mk.inj (List.mem_singleton.1 ha)).1 hother

/-- A file of the hash is set before that. -/
theorem Local.setFile {names : FileName → Option Nat}
    (h : Local task hash ({ s with names }.setFile hash file bytes) s') : Local task hash s s' where
  others := h.others
  own := h.own
  files other hother := (h.files other hother).trans (Function.update_of_ne hother _ _)
  answers := h.answers

theorem Turn.isLocal (h : Turn env service s task hash progress s') : Local task hash s s' := by
  cases h with
  | hit _ => exact .advance ..
  | miss => exact .advance ..
  | opened _ => exact .advance ..
  | unopened e => exact .answer ..
  | read count _ => exact .advance ..
  | readAll _ _ => exact .answer ..
  | unread e => exact .answer ..
  | absent => exact .answer ..
  | unloaded e => exact .answer ..
  | mismatch content _ => exact .answer ..
  | loaded _ _ => exact { Local.advance _ task hash _ with }
  | served _ _ => exact { Local.answer _ task hash _ with }
  | created _ => exact (Local.advance _ task hash _).setFile
  | uncreated => exact .answer ..
  | written count _ _ => exact (Local.advance _ task hash _).setFile
  | closed => exact .answer ..

theorem StandsWhole.congr (hfiles : s'.files hash = s.files hash) (h : StandsWhole env s hash progress) :
    StandsWhole env s' hash progress := by
  cases progress with
  | reading file bytes => exact fun found hfound => h found (by rwa [hfiles] at hfound)
  | writing file content offset => exact ⟨h.1, h.2.1, by rw [hfiles]; exact h.2.2⟩
  | verified content => exact h
  | asked => exact trivial
  | cached => exact trivial
  | uncached => exact trivial

namespace Whole

/-- The files under the hash stay, and what ends a write has written everything. -/
theorem keep (h : Whole env hash s) (hfiles : s'.files hash = s.files hash)
    (hrequests : ∀ {task progress}, s'.requests task = some ⟨hash, progress⟩ →
      s.requests task = some ⟨hash, progress⟩ ∨ StandsWhole env s hash progress)
    (hwriters : ∀ {task file content offset}, s.requests task = some ⟨hash, .writing file content offset⟩ →
      s'.requests task = s.requests task ∨ offset = content.length)
    (hanswers : ∀ {bytes}, (hash, .ok bytes) ∈ s'.answers →
      (hash, .ok bytes) ∈ s.answers ∨ digest env bytes = hash.text) : Whole env hash s' where
  files {file bytes} hfile := by
    rw [hfiles] at hfile
    rcases h.files hfile with hwhole | ⟨task, content, offset, hwriting⟩
    · exact .inl hwhole
    · obtain ⟨hdigest, -, hwritten⟩ := h.requests hwriting
      rcases hwriters hwriting with hsame | hall
      · exact .inr ⟨task, content, offset, hsame.trans hwriting⟩
      · rw [hall, List.take_length, hfile] at hwritten
        cases hwritten
        exact .inl hdigest
  requests hrequest := by
    rcases hrequests hrequest with hrequest | hstands
    · exact (h.requests hrequest).congr hfiles
    · exact hstands.congr hfiles
  answers hanswer := (hanswers hanswer).elim h.answers id

theorem advance (h : Whole env hash s)
    (hidle : ∀ file content offset, s.requests task ≠ some ⟨hash, .writing file content offset⟩)
    (hstands : StandsWhole env s hash progress) : Whole env hash (s.advance task hash progress) := by
  refine h.keep rfl (fun {task' progress'} hrequest => ?_) (fun {task' _ _ _} hwriting => ?_) .inl
  · by_cases htask : task' = task
    · rw [htask, Traffic.advance_self] at hrequest
      cases hrequest
      exact .inr hstands
    · exact .inl (s.advance_of_ne task hash progress htask ▸ hrequest)
  · refine .inl (s.advance_of_ne task hash progress ?_)
    rintro rfl
    exact hidle _ _ _ hwriting

theorem answer {a : Except StorageError (List UInt8)} (h : Whole env hash s)
    (hdone : ∀ file content offset, s.requests task = some ⟨hash, .writing file content offset⟩ →
      offset = content.length)
    (ha : ∀ bytes, a = .ok bytes → digest env bytes = hash.text) : Whole env hash (s.answer task hash a) := by
  refine h.keep rfl (fun {task' progress'} hrequest => ?_) (fun {task' _ _ _} hwriting => ?_) fun hanswer => ?_
  · by_cases htask : task' = task
    · rw [htask, Traffic.answer_self] at hrequest
      cases hrequest
    · exact .inl (s.answer_of_ne task hash a htask ▸ hrequest)
  · by_cases htask : task' = task
    · subst htask
      exact .inr (hdone _ _ _ hwriting)
    · exact .inl (s.answer_of_ne task hash a htask)
  · rcases List.mem_append.1 hanswer with hanswer | hanswer
    · exact .inl hanswer
    · exact .inr (ha _ (Prod.mk.inj (List.mem_singleton.1 hanswer)).2.symm)

theorem verify (h : Whole env hash s) (content : List UInt8) : Whole env hash (s.verify content) where
  files hfile := h.files hfile
  requests hrequest := (h.requests hrequest).congr rfl
  answers hanswer := h.answers hanswer

/-- An operation for another hash. -/
theorem other {hash' : FileName} (h : Whole env hash s) (hlocal : Local task hash' s s') (hne : hash ≠ hash')
    (hrequest : ∀ r, s.requests task = some r → r.hash = hash') : Whole env hash s' := by
  refine h.keep (hlocal.files hash hne) (fun {task' progress'} hrequest' => ?_) (fun {task' _ _ _} hwriting => ?_)
    fun hanswer => .inl (hlocal.answers hash _ hne hanswer)
  · by_cases htask : task' = task
    · subst htask
      exact absurd (hlocal.own _ hrequest') hne
    · exact .inl (hlocal.others _ htask ▸ hrequest')
  · refine .inl (hlocal.others _ ?_)
    rintro rfl
    exact hne (hrequest _ hwriting)

/-- A request has written so much of a file, and nobody else has one open. -/
theorem writing {names : FileName → Option Nat} {offset : Nat} (h : Whole env hash s)
    (hown : ∀ file' content' offset', s.requests task = some ⟨hash, .writing file' content' offset'⟩ → file' = file)
    (hdigest : digest env content = hash.text) (hoffset : offset ≤ content.length)
    (halone : Alone hash (({ s with names }.setFile hash file (content.take offset)).advance task hash
      (.writing file content offset))) :
    Whole env hash (({ s with names }.setFile hash file (content.take offset)).advance task hash
      (.writing file content offset)) := by
  have hself := ({ s with names }.setFile hash file (content.take offset)).advance_self task hash
    (.writing file content offset)
  have hothers : ∀ {task'}, task' ≠ task →
      (({ s with names }.setFile hash file (content.take offset)).advance task hash
        (.writing file content offset)).requests task' = s.requests task' :=
    fun htask => ({ s with names }.setFile hash file (content.take offset)).advance_of_ne task hash
      (.writing file content offset) htask
  have hclosed : ∀ {task' progress'}, task' ≠ task → s.requests task' = some ⟨hash, progress'⟩ →
      progress'.isOpen = false :=
    fun htask hrequest => halone hself ((hothers htask).trans hrequest) htask
  refine ⟨fun {file' bytes} hfile => ?_, fun {task' progress'} hrequest => ?_, fun hanswer => h.answers hanswer⟩
  · by_cases hsame : file' = file
    · subst hsame
      exact .inr ⟨task, content, offset, hself⟩
    · have hbefore : s.files hash file' = some bytes :=
        ({ s with names }.setFile_of_ne hash file (content.take offset) hsame).symm.trans hfile
      rcases h.files hbefore with hwhole | ⟨task', content', offset', hwriting⟩
      · exact .inl hwhole
      · by_cases htask : task' = task
        · subst htask
          exact absurd (hown _ _ _ hwriting) hsame
        · cases hclosed htask hwriting
  · by_cases htask : task' = task
    · subst htask
      rw [hself] at hrequest
      cases hrequest
      exact ⟨hdigest, hoffset, { s with names }.setFile_self hash file (content.take offset)⟩
    · rw [hothers htask] at hrequest
      have hopen := hclosed htask hrequest
      have hstands := h.requests hrequest
      cases progress' with
      | verified content' => exact hstands
      | reading _ _ => cases hopen
      | writing _ _ _ => cases hopen
      | _ => exact trivial

/-- **One operation of a request for the hash.** -/
theorem turn (h : Whole env hash s) (hcalm : Calm hash s s') (hrequest : s.requests task = some ⟨hash, progress⟩)
    (hturn : Turn env service s task hash progress s') : Whole env hash s' := by
  have hstands := h.requests hrequest
  have hidle : ∀ {progress'}, s.requests task = some ⟨hash, progress'⟩ → progress' = progress := by
    intro progress' hsame
    rw [hrequest] at hsame
    cases hsame
    rfl
  have herror : (∀ file content offset, progress ≠ .writing file content offset) →
      ∀ e, Whole env hash (s.answer task hash (.error e)) := fun hprogress e =>
    h.answer (fun _ _ _ hwriting => absurd (hidle hwriting).symm (hprogress _ _ _)) fun _ he => by cases he
  cases hturn with
  | hit _ => exact h.advance (fun _ _ _ hwriting => by cases hidle hwriting) trivial
  | miss => exact h.advance (fun _ _ _ hwriting => by cases hidle hwriting) trivial
  | @opened file _ =>
    -- As the file is now open for reading, nobody is writing it.
    refine h.advance (fun _ _ _ hwriting => by cases hidle hwriting) fun found hfound => ⟨?_, List.nil_prefix⟩
    rcases h.files hfound with hwhole | ⟨task', content, offset, hwriting⟩
    · exact hwhole
    · have htask : task' ≠ task := by
        rintro rfl
        cases hidle hwriting
      have hwriting' := (s.advance_of_ne task hash (.reading file []) htask).trans hwriting
      cases hcalm.alone hwriting' (s.advance_self task hash (.reading file [])) htask.symm
  | unopened e => exact herror (fun _ _ _ he => by cases he) _
  | @read file bytes found count hfile =>
    refine h.advance (fun _ _ _ hwriting => by cases hidle hwriting) fun found' hfound' => ?_
    rw [hfile] at hfound'
    cases hfound'
    obtain ⟨hdigest, rest, rfl⟩ := hstands found hfile
    rw [List.drop_left]
    exact ⟨hdigest, (List.prefix_append_right_inj bytes).2 (List.take_prefix count rest)⟩
  | readAll hfile hend =>
    obtain ⟨hdigest, hfront⟩ := hstands _ hfile
    refine h.answer (fun _ _ _ hwriting => by cases hidle hwriting) fun bytes he => ?_
    cases he
    rw [hfront.eq_of_length_le hend]
    exact hdigest
  | unread e => exact herror (fun _ _ _ he => by cases he) _
  | absent => exact herror (fun _ _ _ he => by cases he) _
  | unloaded e => exact herror (fun _ _ _ he => by cases he) _
  | mismatch content _ => exact herror (fun _ _ _ he => by cases he) _
  | loaded hdigest _ => exact (h.verify _).advance (fun _ _ _ hwriting => by cases hidle hwriting) hdigest
  | served hdigest _ =>
    refine (h.verify _).answer (fun _ _ _ hwriting => by cases hidle hwriting) fun bytes he => ?_
    cases he
    exact hdigest
  | @created content file _ =>
    exact h.writing (fun _ _ _ hwriting => by cases hidle hwriting) hstands (Nat.zero_le _) hcalm.alone
  | uncreated =>
    refine h.answer (fun _ _ _ hwriting => by cases hidle hwriting) fun bytes he => ?_
    cases he
    exact hstands
  | @written file offset content found count hfile hcount =>
    obtain ⟨hdigest, hoffset, hwritten⟩ := hstands
    rw [hfile] at hwritten
    cases hwritten
    rw [Torn.splice_take hoffset] at hcalm ⊢
    exact h.writing (fun _ _ _ hwriting => by cases hidle hwriting; rfl) hdigest hcount hcalm.alone
  | closed =>
    refine h.answer (fun _ _ _ hwriting => hcalm.completes hwriting (s.answer_self task hash _)) fun bytes he => ?_
    cases he
    exact hstands.1

theorem step (h : Whole env hash s) (hcalm : Calm hash s s') (hstep : Step env service s s') : Whole env hash s' := by
  cases hstep with
  | request task hash' hfree =>
    by_cases hne : hash = hash'
    · subst hne
      refine h.advance (fun _ _ _ hwriting => ?_) ?_
      · rw [hfree] at hwriting
        cases hwriting
      · split_ifs
        · exact trivial
        · exact trivial
    · refine h.other (.advance ..) hne fun r hr => ?_
      rw [hfree] at hr
      cases hr
  | @turn _ task hash' progress hrequest hturn =>
    by_cases hne : hash = hash'
    · subst hne
      exact h.turn hcalm hrequest hturn
    · refine h.other hturn.isLocal hne fun r hr => ?_
      rw [hrequest] at hr
      cases hr
      rfl
  | @gone task r hrequest hidle =>
    refine h.keep rfl (fun hrequest' => .inl (Inv.update_none hrequest')) (fun {task' _ _ _} hwriting => ?_) .inl
    refine .inl (Function.update_of_ne ?_ _ _)
    rintro rfl
    rw [hrequest] at hwriting
    cases hwriting
    exact hidle _ _ _ rfl
  | removed hash' => exact h.keep rfl .inl (fun _ => .inl rfl) .inl
  | restarted =>
    exact h.keep rfl (fun hrequest => by cases hrequest) (fun hwriting => .inr (hcalm.completes hwriting rfl)) .inl

end Whole

/-- Runs in which nothing disturbs the requests for the hash. -/
def CalmRun (env : Env) (service : StorageService) (hash : FileName) : Traffic → Traffic → Prop :=
  ReflTransGen fun s s' => Step env service s s' ∧ Calm hash s s'

/-- **In a calm run every answer is a content with the hash asked for.** -/
theorem answers_whole (hrun : CalmRun env service hash .new s) (hanswer : (hash, .ok bytes) ∈ s.answers) :
    digest env bytes = hash.text := by
  have hwhole : Whole env hash s := by
    clear hanswer
    induction hrun with
    | refl => exact whole_new
    | tail _ hstep ih => exact ih.step hstep.2 hstep.1
  exact hwhole.answers hanswer

/-! ## A request alone -/

theorem alone_of_single (h : ∀ task', task' ≠ task → s.requests task' = none) : Alone hash s := by
  intro task₁ _ _ _ task₂ _ hwriting hrequest hne
  have hsingle : ∀ {task' r}, s.requests task' = some r → task' = task := by
    intro task' r hr
    by_contra htask
    rw [h task' htask] at hr
    cases hr
  exact absurd ((hsingle hrequest).trans (hsingle hwriting).symm) hne

/-- The only request under way, and nothing has disturbed it. -/
structure Solo (env : Env) (service : StorageService) (hash : FileName) (task : Nat) (s₀ s : Traffic)
    (progress : Progress) : Prop where
  run : CalmRun env service hash s₀ s
  self : s.requests task = some ⟨hash, progress⟩
  others : ∀ task', task' ≠ task → s.requests task' = none

namespace Solo

variable {s₀ : Traffic}

theorem calm (h : Solo env service hash task s₀ s progress)
    (hothers : ∀ task', task' ≠ task → s'.requests task' = s.requests task')
    (hdone : s'.requests task = none → ∀ file content offset, progress = .writing file content offset →
      offset = content.length) : Calm hash s s' where
  alone := alone_of_single fun task' htask => (hothers task' htask).trans (h.others task' htask)
  completes {task' file content offset} hwriting hnone := by
    by_cases htask : task' = task
    · subst htask
      rw [h.self] at hwriting
      cases hwriting
      exact hdone hnone _ _ _ rfl
    · rw [h.others _ htask] at hwriting
      cases hwriting

theorem start (env : Env) (service : StorageService) (hash : FileName) (hquiet : ∀ task', s.requests task' = none)
    (task : Nat) :
    Solo env service hash task s (s.advance task hash (if service.enableCache then .asked else .uncached))
      (if service.enableCache then .asked else .uncached) := by
  have hothers : ∀ task', task' ≠ task → (s.advance task hash
      (if service.enableCache then .asked else .uncached)).requests task' = none :=
    fun task' htask => (s.advance_of_ne task hash _ htask).trans (hquiet task')
  refine ⟨.single ⟨.request task hash (hquiet task), alone_of_single hothers, fun {task' _ _ _} hwriting => ?_⟩,
    s.advance_self task hash _, hothers⟩
  rw [hquiet] at hwriting
  cases hwriting

/-- It goes on. -/
theorem turn {t : Traffic} {progress' : Progress} (h : Solo env service hash task s₀ s progress)
    (hturn : Turn env service s task hash progress (t.advance task hash progress')) (hsame : t.requests = s.requests) :
    Solo env service hash task s₀ (t.advance task hash progress') progress' := by
  have hothers : ∀ task', task' ≠ task → (t.advance task hash progress').requests task' = s.requests task' :=
    fun task' htask => (t.advance_of_ne task hash progress' htask).trans (congrFun hsame task')
  have hself := t.advance_self task hash progress'
  refine ⟨h.run.tail ⟨.turn h.self hturn, h.calm hothers fun hnone => ?_⟩, hself, fun task' htask => ?_⟩
  · rw [hself] at hnone
    cases hnone
  · rw [hothers task' htask, h.others task' htask]

/-- It is answered. -/
theorem answers {t : Traffic} {a : Except StorageError (List UInt8)} (h : Solo env service hash task s₀ s progress)
    (hturn : Turn env service s task hash progress (t.answer task hash a)) (hsame : t.requests = s.requests)
    (hdone : ∀ file content offset, progress = .writing file content offset → offset = content.length) :
    CalmRun env service hash s₀ (t.answer task hash a) ∧ ∀ task', (t.answer task hash a).requests task' = none := by
  have hothers : ∀ task', task' ≠ task → (t.answer task hash a).requests task' = s.requests task' :=
    fun task' htask => (t.answer_of_ne task hash a htask).trans (congrFun hsame task')
  refine ⟨h.run.tail ⟨.turn h.self hturn, h.calm hothers fun _ => hdone⟩, fun task' => ?_⟩
  by_cases htask : task' = task
  · rw [htask, Traffic.answer_self]
  · rw [hothers task' htask, h.others task' htask]

end Solo

/-- **Alone, a request finds a content in the main storage** and leaves it in the cache. -/
theorem stores_alone (hquiet : ∀ task', s.requests task' = none) (hcache : service.enableCache = true)
    (hname : s.names hash = none) (hfile : s.files hash file = none) (hdigest : digest env content = hash.text) :
    ∃ s', CalmRun env service hash s s' ∧ (∀ task', s'.requests task' = none) ∧ s'.names hash = some file ∧
      s'.files hash file = some content ∧ s'.answers = s.answers ++ [(hash, .ok content)] := by
  have hasked := Solo.start env service hash hquiet 0
  rw [if_pos hcache] at hasked
  have hverified := (hasked.turn .miss rfl).turn (.loaded hdigest hcache) rfl
  have hcreated := hverified.turn (.created (.inr ⟨hname, hfile⟩)) rfl
  have hwritten := hcreated.turn (.written content.length (Traffic.setFile_self ..) (Nat.zero_add _).le) rfl
  obtain ⟨hrun, hidle⟩ := hwritten.answers .closed rfl fun _ _ _ he => by cases he; exact Nat.zero_add _
  refine ⟨_, hrun, hidle, Function.update_self .., ?_, rfl⟩
  have hall : Torn.splice 0 [] 0 ((content.drop 0).take content.length) = content := by
    rw [← List.take_zero, Torn.splice_take (Nat.zero_le _), Nat.zero_add, List.take_length]
  exact (Traffic.setFile_self ..).trans (congrArg some hall)

/-- **Alone, a request is answered with the file in the cache.** -/
theorem reads_alone {found : List UInt8} (hquiet : ∀ task', s.requests task' = none)
    (hcache : service.enableCache = true) (hname : s.names hash = some file) (hfile : s.files hash file = some found) :
    ∃ s', CalmRun env service hash s s' ∧ s'.answers = s.answers ++ [(hash, .ok found)] := by
  have hasked := Solo.start env service hash hquiet 0
  rw [if_pos hcache] at hasked
  have hcached := hasked.turn (.hit (Option.isSome_iff_exists.2 ⟨file, hname⟩)) rfl
  have hread := (hcached.turn (.opened hname) rfl).turn (.read found.length hfile) rfl
  rw [List.length_nil, List.drop_zero, List.nil_append, List.take_length] at hread
  obtain ⟨hrun, -⟩ := hread.answers (.readAll hfile (Nat.le_refl _)) rfl fun _ _ _ he => by cases he
  exact ⟨_, hrun, rfl⟩

/-- A disk with at most the files of the cache in its cache directory. -/
def Shows (service : StorageService) (d : Disk) (s : Traffic) : Prop :=
  ∀ (hash : FileName) (content : ByteArray), d.contentAt (join service.cacheDir hash.text) = some content →
    ∃ file, s.names hash = some file ∧ s.files hash file = some content.data.toList

/-- **What `get` answers when it runs at once**, a request that is alone can be answered. -/
theorem get_answered {d d' : Disk} {content : ByteArray} (hquiet : ∀ task', s.requests task' = none)
    (hshows : Shows service d s) (hget : Prog.Exec (get env service hash.text).run d (.ok (.ok content)) d') :
    ∃ s', CalmRun env service hash s s' ∧ s'.answers = s.answers ++ [(hash, .ok content.data.toList)] := by
  obtain ⟨r, t, hcached, hget⟩ := ProgE.exec_bind_ok.1 hget
  cases r with
  | some r =>
    obtain ⟨hr, -⟩ := ProgE.exec_pure_ok.1 hget
    rw [← hr] at hcached
    obtain ⟨hcache, hcontent⟩ := getCached_content hcached
    obtain ⟨file, hname, hfile⟩ := hshows hash content hcontent
    exact reads_alone hquiet hcache hname hfile
  | none =>
    have hdigest : digest env content.data.toList = hash.text := getStored_addressed hget
    have hstart := Solo.start env service hash hquiet 0
    by_cases hcache : service.enableCache = true
    · rw [if_pos hcache] at hstart
      have hverified := (hstart.turn .miss rfl).turn (.loaded hdigest hcache) rfl
      exact ⟨_, (hverified.answers .uncreated rfl fun _ _ _ he => by cases he).1, rfl⟩
    · rw [if_neg hcache] at hstart
      exact ⟨_, (hstart.answers (.served hdigest (Bool.eq_false_iff.2 hcache)) rfl fun _ _ _ he => by cases he).1, rfl⟩

/-- A content is read from the main storage, and then from the cache. -/
theorem root_whole : ∃ s, CalmRun passwdEnv passwdService rootHash .new s ∧
    s.answers = [(rootHash, .ok root), (rootHash, .ok root)] ∧ digest passwdEnv root = rootHash.text := by
  have hstores : ∃ s, CalmRun passwdEnv passwdService rootHash .new s ∧ (∀ task, s.requests task = none) ∧
      s.names rootHash = some 0 ∧ s.files rootHash 0 = some root ∧ s.answers = [(rootHash, .ok root)] :=
    stores_alone (fun _ => rfl) rfl rfl rfl digest_root
  obtain ⟨s, hstored, hquiet, hname, hfile, hanswers⟩ := hstores
  have hreads : ∃ s', CalmRun passwdEnv passwdService rootHash s s' ∧
      s'.answers = s.answers ++ [(rootHash, .ok root)] := reads_alone hquiet rfl hname hfile
  obtain ⟨s', hread, hanswers'⟩ := hreads
  refine ⟨s', hstored.trans hread, ?_, answers_whole (hstored.trans hread) ?_⟩
  · rw [hanswers', hanswers]
    rfl
  · rw [hanswers']
    exact List.mem_concat_self

end AlephCore.StorageService
