import AlephCore.Services.CachedReads
import AlephCore.Services.StorageSafety
import Mathlib.Logic.Relation

/-!
# TornReads — what requests for a content are answered

However requests, the cleanup and restarts interleave, an answer is a content with the hash asked for, of which some
may be missing: it may be cut off at the end, and be zero where one request has truncated the file while another goes
on writing behind.  `readEmpty` is a run in which nothing of the content is there.
-/

namespace AlephCore.StorageService

open Relation

variable {env : Env} {service : StorageService} {s s' : Traffic} {task file : Nat} {hash : FileName}
  {content bytes : List UInt8} {progress : Progress}

/-! ## Torn contents -/

/-- A content that has the hash. -/
def Content (env : Env) (s : Traffic) (hash : FileName) (content : List UInt8) : Prop :=
  content ∈ s.verified ∧ digest env content = hash.text

/-- A content that has the hash, of which some may be missing. -/
def Partly (env : Env) (s : Traffic) (hash : FileName) (bytes : List UInt8) : Prop :=
  ∃ content, Content env s hash content ∧ Torn 0 content bytes

/-- No two contents had the same hash. -/
def NoCollision (env : Env) (s : Traffic) : Prop :=
  ∀ c ∈ s.verified, ∀ c' ∈ s.verified, digest env c = digest env c' → c = c'

theorem NoCollision.eq {content' : List UInt8} (h : NoCollision env s) (hc : Content env s hash content)
    (hc' : Content env s hash content') : content = content' :=
  h _ hc.1 _ hc'.1 (hc.2.trans hc'.2.symm)

/-- What a request has in its hands. -/
def Stands (env : Env) (s : Traffic) (hash : FileName) : Progress → Prop
  | .reading _ bytes => bytes = [] ∨ Partly env s hash bytes
  | .verified content => Content env s hash content
  | .writing _ content offset => Content env s hash content ∧ offset ≤ content.length
  | _ => True

structure Inv (env : Env) (s : Traffic) : Prop where
  files : ∀ {hash file bytes}, s.files hash file = some bytes → Partly env s hash bytes
  requests : ∀ {task hash progress}, s.requests task = some ⟨hash, progress⟩ → Stands env s hash progress
  answers : ∀ {hash bytes}, (hash, .ok bytes) ∈ s.answers → Partly env s hash bytes

theorem inv_new : Inv env .new where
  files h := by cases h
  requests h := by cases h
  answers h := by cases h

namespace Inv

theorem advance (h : Inv env s) (hstands : Stands env s hash progress) : Inv env (s.advance task hash progress) where
  files hfile := h.files hfile
  requests {task' hash' progress'} hrequest := by
    by_cases htask : task' = task
    · rw [htask, Traffic.advance_self] at hrequest
      cases hrequest
      exact hstands
    · rw [Traffic.advance_of_ne s task hash progress htask] at hrequest
      exact h.requests hrequest
  answers hanswer := h.answers hanswer

/-- Requests are dropped. -/
theorem drop {requests : Nat → Option Request} (h : Inv env s)
    (hsub : ∀ task r, requests task = some r → s.requests task = some r) : Inv env { s with requests } where
  files hfile := h.files hfile
  requests hrequest := h.requests (hsub _ _ hrequest)
  answers hanswer := h.answers hanswer

theorem update_none {r : Request} {task' : Nat} (h : Function.update s.requests task none task' = some r) :
    s.requests task' = some r := by
  by_cases htask : task' = task
  · rw [htask, Function.update_self] at h
    cases h
  · rwa [Function.update_of_ne htask] at h

theorem answer {a : Except StorageError (List UInt8)} (h : Inv env s)
    (ha : ∀ bytes, a = .ok bytes → Partly env s hash bytes) : Inv env (s.answer task hash a) where
  files hfile := h.files hfile
  requests hrequest := h.requests (update_none hrequest)
  answers hanswer := by
    rcases List.mem_append.1 hanswer with hanswer | hanswer
    · exact h.answers hanswer
    · obtain ⟨rfl, rfl⟩ := Prod.mk.inj (List.mem_singleton.1 hanswer)
      exact ha _ rfl

theorem verify (h : Inv env s) (content : List UInt8) : Inv env (s.verify content) := by
  have hcontent : ∀ {hash c}, Content env s hash c → Content env (s.verify content) hash c :=
    fun hc => ⟨List.mem_cons_of_mem _ hc.1, hc.2⟩
  have hpartly : ∀ {hash bytes}, Partly env s hash bytes → Partly env (s.verify content) hash bytes :=
    fun ⟨c, hc, htorn⟩ => ⟨c, hcontent hc, htorn⟩
  refine ⟨fun hfile => hpartly (h.files hfile), fun {task hash progress} hrequest => ?_,
    fun hanswer => hpartly (h.answers hanswer)⟩
  have hstands := h.requests hrequest
  cases progress with
  | reading file bytes => exact hstands.imp_right hpartly
  | verified c => exact hcontent hstands
  | writing file c offset => exact ⟨hcontent hstands.1, hstands.2⟩
  | asked => exact trivial
  | cached => exact trivial
  | uncached => exact trivial

theorem setFile (h : Inv env s) (hbytes : Partly env s hash bytes) : Inv env (s.setFile hash file bytes) where
  files {hash' file' bytes'} hfile := by
    by_cases hhash : hash' = hash
    · subst hhash
      by_cases hsame : file' = file
      · rw [hsame, Traffic.setFile_self] at hfile
        cases hfile
        exact hbytes
      · rw [Traffic.setFile_of_ne s hash' file bytes hsame] at hfile
        exact h.files hfile
    · rw [Traffic.setFile_other s hash file bytes hhash] at hfile
      exact h.files hfile
  requests hrequest := h.requests hrequest
  answers hanswer := h.answers hanswer

theorem rename (h : Inv env s) (names : FileName → Option Nat) : Inv env { s with names } where
  files hfile := h.files hfile
  requests hrequest := h.requests hrequest
  answers hanswer := h.answers hanswer

theorem create (h : Inv env s) (hempty : Partly env s hash []) : Inv env (s.create hash file) :=
  (h.rename (Function.update s.names hash (some file))).setFile hempty

/-- **One operation of a request.** -/
theorem turn (h : Inv env s) (hcoll : NoCollision env s) (hrequest : s.requests task = some ⟨hash, progress⟩)
    (hturn : Turn env service s task hash progress s') : Inv env s' := by
  have hstands := h.requests hrequest
  have herror : ∀ e, Inv env (s.answer task hash (.error e)) := fun e => h.answer fun _ he => by cases he
  -- What is read on is part of the content of the file, as no other content has the hash.
  have hread : ∀ {file bytes found} (count : Nat), s.files hash file = some found →
      bytes = [] ∨ Partly env s hash bytes →
      Partly env s hash (bytes ++ (found.drop bytes.length).take count) := by
    intro file bytes found count hfile hbytes
    obtain ⟨c, hc, hfound⟩ := h.files hfile
    refine ⟨c, hc, ?_⟩
    rcases hbytes with rfl | ⟨c', hc', htorn⟩
    · exact (Torn.nil 0 c).read hfound count
    · rw [hcoll.eq hc' hc] at htorn
      exact htorn.read hfound count
  cases hturn with
  | hit _ => exact h.advance trivial
  | miss => exact h.advance trivial
  | opened _ => exact h.advance (.inl rfl)
  | unopened e => exact herror _
  | read count hfile => exact h.advance (.inr (hread count hfile hstands))
  | readAll hfile hend =>
    refine h.answer fun bytes he => ?_
    cases he
    have hall := hread 0 hfile hstands
    rwa [List.take_zero, List.append_nil] at hall
  | unread e => exact herror _
  | absent => exact herror _
  | unloaded e => exact herror _
  | mismatch content _ => exact herror _
  | loaded hdigest _ => exact (h.verify _).advance ⟨List.mem_cons_self, hdigest⟩
  | served hdigest _ =>
    refine (h.verify _).answer fun bytes he => ?_
    cases he
    exact ⟨_, ⟨List.mem_cons_self, hdigest⟩, .refl 0 _⟩
  | @created content file _ =>
    have hwriting : Stands env (s.create hash file) hash (.writing file content 0) := ⟨hstands, Nat.zero_le _⟩
    exact (h.create ⟨content, hstands, .nil 0 _⟩).advance hwriting
  | uncreated =>
    refine h.answer fun bytes he => ?_
    cases he
    exact ⟨_, hstands, .refl 0 _⟩
  | written count hfile hcount =>
    obtain ⟨c, hc, hfound⟩ := h.files hfile
    rw [hcoll.eq hc hstands.1] at hfound
    exact (h.setFile ⟨_, hstands.1, hfound.spliced hstands.2 count⟩).advance ⟨hstands.1, hcount⟩
  | closed =>
    refine h.answer fun bytes he => ?_
    cases he
    exact ⟨_, hstands.1, .refl 0 _⟩

theorem step (h : Inv env s) (hcoll : NoCollision env s) (hstep : Step env service s s') : Inv env s' := by
  cases hstep with
  | request task hash _ =>
    refine h.advance ?_
    split_ifs
    · exact trivial
    · exact trivial
  | turn hrequest hturn => exact h.turn hcoll hrequest hturn
  | gone _ _ => exact h.drop fun _ _ => update_none
  | removed hash => exact h.rename _
  | restarted => exact h.drop fun _ _ hrequest => by cases hrequest

end Inv

/-- What was verified once stays on record. -/
theorem Step.verified_subset (h : Step env service s s') : s.verified ⊆ s'.verified := by
  cases h with
  | turn _ hturn =>
    cases hturn with
    | loaded _ _ => exact List.subset_cons_self _ _
    | served _ _ => exact List.subset_cons_self _ _
    | _ => exact fun _ hc => hc
  | _ => exact fun _ hc => hc

theorem inv_of_run (hrun : ReflTransGen (Step env service) .new s) (hcoll : NoCollision env s) : Inv env s := by
  induction hrun with
  | refl => exact inv_new
  | tail _ hstep ih =>
    have hbefore : NoCollision env _ := fun c hc c' hc' =>
      hcoll c (hstep.verified_subset hc) c' (hstep.verified_subset hc')
    exact (ih hbefore).step hbefore hstep

/-- **In every interleaving an answer is a content with the hash asked for**, of which some bytes may be missing. -/
theorem answers_partly (hrun : ReflTransGen (Step env service) .new s) (hcoll : NoCollision env s)
    (hanswer : (hash, .ok bytes) ∈ s.answers) :
    ∃ content ∈ s.verified, digest env content = hash.text ∧ Torn 0 content bytes := by
  obtain ⟨content, hcontent, htorn⟩ := (inv_of_run hrun hcoll).answers hanswer
  exact ⟨content, hcontent.1, hcontent.2, htorn⟩

section Root

/-- The SHA-256 of `root`. -/
def rootHash : FileName :=
  ⟨"4813494d137e1631bba301d5acab6e7bb7aa74ce1185d456565ef51d737677b2".toList, by decide, by decide⟩

def root : List UInt8 := "root".toUTF8.data.toList

theorem digest_root : digest passwdEnv root = rootHash.text := by
  unfold digest root hashContent
  rw [Array.toArray_toList]
  exact congrArg String.toList (Env.ofTables_sha256Hex "root")

/-- A request has found the content in the main storage, and opened the file of the cache to write it. -/
def halfWritten : Traffic :=
  ((((Traffic.new.advance 0 rootHash .asked).advance 0 rootHash .uncached).verify root).advance 0 rootHash
    (.verified root)).create rootHash 0 |>.advance 0 rootHash (.writing 0 root 0)

/-- Another request has read the file meanwhile. -/
def readEmpty : Traffic :=
  (((halfWritten.advance 1 rootHash .asked).advance 1 rootHash .cached).advance 1 rootHash (.reading 0 [])).answer 1
    rootHash (.ok [])

theorem run_readEmpty : ReflTransGen (Step passwdEnv passwdService) .new readEmpty := by
  have hwriter : ReflTransGen (Step passwdEnv passwdService) .new halfWritten :=
    .tail (.tail (.tail (.single (.request 0 rootHash rfl)) (.turn rfl .miss)) (.turn rfl (.loaded digest_root rfl)))
      (.turn rfl (.created (.inr ⟨rfl, rfl⟩)))
  have hreader : ReflTransGen (Step passwdEnv passwdService) halfWritten readEmpty :=
    .tail (.tail (.tail (.single (.request 1 rootHash rfl)) (.turn rfl (.hit rfl))) (.turn rfl (.opened rfl)))
      (.turn rfl (@Turn.readAll _ _ _ _ _ 0 [] [] rfl (Nat.le_refl _)))
  exact hwriter.trans hreader

/-- Nothing of the content may be there. -/
theorem readEmpty_partly :
    ∃ content ∈ readEmpty.verified, digest passwdEnv content = rootHash.text ∧ Torn 0 content [] :=
  answers_partly run_readEmpty
    (fun _ hc _ hc' _ => (List.mem_singleton.1 hc).trans (List.mem_singleton.1 hc').symm)
    (List.mem_singleton.2 rfl : (rootHash, Except.ok []) ∈ readEmpty.answers)

end Root

end AlephCore.StorageService
