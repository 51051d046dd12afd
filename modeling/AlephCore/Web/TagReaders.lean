import AlephCore.Jobs.VmFiles
import AlephCore.Web.StorageRefs

/-!
# TagReaders — the readers of file tags never see a tag

STORE messages write their tags to `file_tags_v2`, and everything that reads a tag reads `file_tags`, which no message
ever writes.  So no file is found by owner and reference, and every reference to the latest version of a file is
reported as missing: the readers agree with the writer only where there is nothing to agree about.
-/

namespace AlephCore.Web

open ProgE Prog MessageProcessor ForgetHandler

/-! ## No message writes the old table -/

section OldTable

variable {env : Env} {message : Message} {ctx : HandlerContext} {n n' : Node}

theorem hashForgotten_fileTags (content : ForgetContent) (hash : ItemHash) :
    (hashForgotten message content ctx n hash).fileTags = n.fileTags := by
  cases hrow : n.messages.find? hash with
  | none =>
    rw [hashForgotten, hrow]
    rfl
  | some row =>
    obtain ⟨ps, ts, hpins⟩ := pinsForgotten_eq hash content.address row.message ctx
      (marked hash message.itemHash content.reason n)
    rw [hashForgotten, hrow, Option.map_some, targetForgotten, hpins]
    change (messageDeleted hash (derivedDeleted hash row.messageType
      (cascaded hash row.messageType ctx _))).fileTags = _
    cases row.messageType with
    | post =>
      obtain ⟨ms, qs, fs, cs, hrest⟩ := (amendsForgotten_gone hash (amendsOf hash n)
        { marked hash message.itemHash content.reason n with filePins := ps, fileTagsV2 := ts }).rest
      have hkept := congrArg Node.fileTags hrest
      exact hkept
    | aggregate =>
      obtain ⟨as, has⟩ := elementForgotten_eq hash ctx
        { marked hash message.itemHash content.reason n with filePins := ps, fileTagsV2 := ts }
      rw [cascaded, has]
      rfl
    | store => rfl
    | forget => rfl
    | program => rfl
    | «instance» => rfl

theorem hashesForgotten_fileTags (content : ForgetContent) (hashes : List ItemHash) :
    (hashesForgotten message content ctx hashes n).fileTags = n.fileTags := by
  induction hashes generalizing n with
  | nil => rfl
  | cons hash hashes ih =>
    rw [hashesForgotten, List.foldl_cons]
    exact ih.trans (hashForgotten_fileTags content hash)

/-- **An accepted message** leaves the old table alone. -/
theorem accepted_fileTags (h : Accepted env message n n') : n'.fileTags = n.fileTags := by
  obtain ⟨ctx, rfl, receptionTime, n₁, heffect, rfl⟩ := h.effect
  show n₁.fileTags = n.fileTags
  cases heffect with
  | aggregate content htype =>
    obtain ⟨as, has⟩ := processed_eq (AggregateHandler.elementOf message content) n
    rw [has, AggregateHandler.storeElement]
    split_ifs <;> rfl
  | post content htype hparse horiginal => rfl
  | amend content originalHash target htype hparse hamend htarget href hplain horiginal => rfl
  | store content htype hparse hclash => rfl
  | program content htype hparse hvalid => rfl
  | «instance» content htype hparse hvalid => rfl
  | forget content htype hparse hvalidate => exact hashesForgotten_fileTags content content.hashes

theorem fileTags_of_run {n₀ : Node} (hempty : ∀ t, t ∉ n₀.fileTags)
    (hrun : Relation.ReflTransGen (AcceptStep env) n₀ n) : ∀ t, t ∉ n.fileTags := by
  induction hrun with
  | refl => exact hempty
  | tail _ hstep ih =>
    obtain ⟨message, haccepted⟩ := hstep
    rwa [accepted_fileTags haccepted]

end OldTable

/-! ## What the readers find -/

section Readers

variable {order : SqlOrder} {env : Env} {n : Node}

/-- `get_storage_by_address_ref` finds this file. -/
def FindsFile (order : SqlOrder) (n : Node) (address : Address) (ref_ : String) (fileHash : ItemHash) : Prop :=
  ∃ r, ((getStorageByAddressRef order address ref_).run.run n).1 = .ok (.ok r) ∧ r.fileHash = fileHash

/-- A live STORE message has that value as its message hash, its file hash or its ref. -/
def CarriesRef (env : Env) (n : Node) (x : ItemHash) : Prop :=
  ∃ m ∈ n.messages, m.messageType = .store ∧ ¬ Forgotten n m.itemHash ∧
    (m.itemHash = x ∨ ∃ s content, m.itemContent = some s ∧ env.fromStr StoreContent.decode s = .ok content ∧
      (content.itemHash = x ∨ content.ref_ = some x))

/-- The tag reads as the writer has written it: a file is found exactly when it is the one of the tag. -/
def FindsTagged (order : SqlOrder) (env : Env) (n : Node) (owner : Address) (ref_ : String) : Prop :=
  ∀ fileHash, FindsFile order n owner ref_ fileHash ↔
    ∃ t ∈ n.fileTagsV2, t.tag = StoreHandler.makeFileTag env owner (some ref_) "" ∧ t.fileHash = fileHash

/-- Only references that no live STORE message carries are reported as missing. -/
def ReportsMissing (env : Env) (n : Node) (refs : List ItemHash × List ItemHash) : Prop :=
  ∀ missingPins missingTags,
    ((PgDatabase.checkVolumeRefsExist refs.1 refs.2).run.run n).1 = .ok (missingPins, missingTags) →
      ∀ x ∈ missingTags, ¬ CarriesRef env n x

/-- References to live STORE messages are not rejected on their account. -/
def AcceptsNamed (n : Node) (refs : List ItemHash × List ItemHash) : Prop :=
  (∀ x ∈ refs.1, VmCommon.RefPinned n x) →
    (∀ x ∈ refs.2, ∃ m ∈ n.messages, m.messageType = .store ∧ ¬ Forgotten n m.itemHash ∧ m.itemHash = x) →
      ((VmCommon.validateVolumeRefs refs).run.run n).1 = .ok ()

theorem taggedFile_eq_none (hempty : ∀ t, t ∉ n.fileTags) {p : FileTag → Prop} [DecidablePred p] :
    taggedFile order p n = none := by
  rw [taggedFile, Option.map_eq_none_iff, List.find?_eq_none]
  intro t ht
  exact absurd (order.mem_scan.1 ht) (hempty t)

/-- `get_storage_by_address_ref` finds nothing. -/
theorem not_findsFile (hempty : ∀ t, t ∉ n.fileTags) (address : Address) (ref_ : String) (fileHash : ItemHash) :
    ¬ FindsFile order n address ref_ fileHash := by
  rintro ⟨r, hr, -⟩
  rw [getStorageByAddressRef, run_bind_ok (run_attempt _ _), run_query, taggedFile_eq_none hempty] at hr
  cases hr

/-- `get_storage_by_ref` finds a file by its STORE message only. -/
theorem getStorageByRef_found (hempty : ∀ t, t ∉ n.fileTags) {ref_ : String} {r : FileMetadataResponse}
    (h : ((getStorageByRef order env ref_).run.run n).1 = .ok (.ok r)) :
    ∃ content, storeContentOf env ref_ n = some content ∧ r.fileHash = content.itemHash := by
  have htag : ((storageByTag order ref_).run.run n).1 = .ok (.notFound s!"No file found for tag {ref_}") := by
    rw [storageByTag, run_bind_ok (run_attempt _ _), run_query, taggedFile_eq_none hempty]
    rfl
  unfold getStorageByRef at h
  split_ifs at h with hhash
  · rw [run_bind_ok (run_attempt _ _), run_query, taggedFile_eq_none hempty] at h
    change ((orDefault none (query (storeContentOf env ref_)) >>= _ : Db DbError RefResponse).run.run n).1 = _ at h
    rw [run_bind_ok (run_orDefault _ _ _)] at h
    cases hcontent : storeContentOf env ref_ n with
    | none =>
      rw [hcontent] at h
      have hnot := htag.symm.trans h
      cases hnot
    | some content =>
      rw [hcontent] at h
      refine ⟨content, rfl, ?_⟩
      change ((pinnedSize order content.itemHash >>= _ : Db DbError RefResponse).run.run n).1 = _ at h
      rw [pinnedSize, run_bind_ok (run_orDefault _ _ _)] at h
      obtain rfl := RefResponse.ok.inj (Except.ok.inj h)
      rfl
  · have hnot := htag.symm.trans h
    cases hnot

/-- Every reference to a latest version is reported as missing. -/
theorem run_checkVolumeRefsExist (hempty : ∀ t, t ∉ n.fileTags) (refs : List ItemHash × List ItemHash) :
    ∃ missingPins, ((PgDatabase.checkVolumeRefsExist refs.1 refs.2).run.run n) = (.ok (missingPins, refs.2), n) ∧
      (missingPins = [] ↔ ∀ x ∈ refs.1, VmCommon.RefPinned n x) := by
  have hmissing : ∀ (rs : List ItemHash) (column : Node → List ItemHash),
      (PgDatabase.missingRefs rs column).run.run n = (.ok (rs.filter fun r => decide (r ∉ column n)), n) := by
    intro rs column
    unfold PgDatabase.missingRefs
    split_ifs with hnil
    · rw [List.isEmpty_iff.1 hnil]
      rfl
    · rfl
  have hall : (refs.2.filter fun r => decide (r ∉ n.fileTags.rows.map FileTag.itemHash)) = refs.2 := by
    refine List.filter_eq_self.2 fun r _ => decide_eq_true fun hr => ?_
    obtain ⟨t, ht, -⟩ := List.mem_map.1 hr
    exact hempty t ht
  refine ⟨refs.1.filter fun r => decide (r ∉ n.filePins.rows.map FilePinRecord.itemHash), ?_, ?_⟩
  · rw [PgDatabase.checkVolumeRefsExist, run_bind_ok (hmissing _ _), run_bind_ok (hmissing _ _), hall]
    rfl
  · rw [List.filter_eq_nil_iff]
    refine forall₂_congr fun x _ => ?_
    rw [decide_eq_true_eq, not_not, VmCommon.RefPinned]

theorem findsTagged_iff (hempty : ∀ t, t ∉ n.fileTags) (owner : Address) (ref_ : String) :
    FindsTagged order env n owner ref_ ↔
      ∀ t ∈ n.fileTagsV2, t.tag ≠ StoreHandler.makeFileTag env owner (some ref_) "" := by
  constructor
  · intro h t ht htag
    exact not_findsFile hempty owner ref_ t.fileHash ((h t.fileHash).2 ⟨t, ht, htag, rfl⟩)
  · intro h fileHash
    refine iff_of_false (not_findsFile hempty owner ref_ fileHash) ?_
    rintro ⟨t, ht, htag, -⟩
    exact h t ht htag

theorem reportsMissing_iff (hempty : ∀ t, t ∉ n.fileTags) (refs : List ItemHash × List ItemHash) :
    ReportsMissing env n refs ↔ ∀ x ∈ refs.2, ¬ CarriesRef env n x := by
  obtain ⟨missingPins, hrun, -⟩ := run_checkVolumeRefsExist hempty refs
  constructor
  · intro h
    exact h missingPins refs.2 (by rw [hrun])
  · intro h missingPins' missingTags hrun'
    rw [hrun] at hrun'
    obtain ⟨-, rfl⟩ := Prod.mk.inj (Except.ok.inj hrun')
    exact h

/-- References that no live STORE message carries name none, so there are none to be rejected. -/
theorem acceptsNamed_of_not_carried (hempty : ∀ t, t ∉ n.fileTags) {refs : List ItemHash × List ItemHash}
    (h : ∀ x ∈ refs.2, ¬ CarriesRef env n x) : AcceptsNamed n refs := by
  intro hpinned hnamed
  have hnil : refs.2 = [] := by
    refine List.eq_nil_iff_forall_not_mem.2 fun x hx => ?_
    obtain ⟨m, hm, htype, hlive, he⟩ := hnamed x hx
    exact h x hx ⟨m, hm, htype, hlive, .inl he⟩
  obtain ⟨missingPins, hrun, hpins⟩ := run_checkVolumeRefsExist hempty refs
  unfold VmCommon.validateVolumeRefs
  split_ifs with hnone
  · rfl
  · have hdb : (db (PgDatabase.checkVolumeRefsExist refs.1 refs.2)).run.run n = (.ok ([], []), n) := by
      rw [db, run_mapErr, hrun, hpins.2 hpinned, hnil]
      rfl
    rw [run_bind_ok hdb]
    rfl

/-- **The readers of tags agree with the writer**, in a state that messages lead to, exactly if there is no tag of
that owner and reference, and no live STORE message carries a reference to a latest version. -/
theorem tagReaders_agree_iff {n₀ : Node} (hempty : ∀ t, t ∉ n₀.fileTags)
    (hrun : Relation.ReflTransGen (AcceptStep env) n₀ n) (owner : Address) (ref_ : String)
    (refs : List ItemHash × List ItemHash) :
    (FindsTagged order env n owner ref_ ∧ ReportsMissing env n refs ∧ AcceptsNamed n refs) ↔
      (∀ t ∈ n.fileTagsV2, t.tag ≠ StoreHandler.makeFileTag env owner (some ref_) "") ∧
        ∀ x ∈ refs.2, ¬ CarriesRef env n x := by
  have hnone := fileTags_of_run hempty hrun
  rw [findsTagged_iff hnone, reportsMissing_iff hnone]
  constructor
  · rintro ⟨htag, hcarried, -⟩
    exact ⟨htag, hcarried⟩
  · rintro ⟨htag, hcarried⟩
    exact ⟨htag, hcarried, acceptsNamed_of_not_carried hnone hcarried⟩

end Readers

/-! ### A stored file -/

section Stored

theorem fileStored_run : Relation.ReflTransGen (AcceptStep vmCtx.env) .empty fileStored :=
  .single ⟨firstStore, delivered_store.delivered.accepted⟩

theorem fileStored_fileTags : ∀ t, t ∉ fileStored.fileTags :=
  fileTags_of_run (fun _ => List.not_mem_nil) fileStored_run

example : fileStored.fileTagsV2.rows.map FileTagRecord.fileHash = [file] := by decide +kernel

/-- The file has no tag of another name, and references that are no latest versions are looked up among the pins. -/
theorem fileStored_other_ref :
    FindsTagged .stored vmCtx.env fileStored fileOwner "holiday" ∧ ReportsMissing vmCtx.env fileStored ([file], []) ∧
      AcceptsNamed fileStored ([file], []) := by
  have htag : ∀ t ∈ fileStored.fileTagsV2.rows,
      t.tag ≠ StoreHandler.makeFileTag vmCtx.env fileOwner (some "holiday") "" := by decide +kernel
  exact (tagReaders_agree_iff (fun _ => List.not_mem_nil) fileStored_run fileOwner "holiday" ([file], [])).2
    ⟨htag, fun x hx => absurd hx List.not_mem_nil⟩

/-- A reference to the file itself makes the tag of a file without a reference. -/
theorem makeFileTag_some {env : Env} {owner : Address} {x h : ItemHash} (hx : x ≠ "") :
    StoreHandler.makeFileTag env owner (some x) h = StoreHandler.makeFileTag env owner none x := by
  simp only [StoreHandler.makeFileTag, if_neg hx]

/-- The stored file is not found under its tag, and a reference to its STORE message is reported and rejected. -/
theorem fileStored_unread :
    Relation.ReflTransGen (AcceptStep vmCtx.env) .empty fileStored ∧
      ¬ FindsTagged .stored vmCtx.env fileStored fileOwner file ∧
      ¬ ReportsMissing vmCtx.env fileStored ([], [firstHash]) ∧ ¬ AcceptsNamed fileStored ([], [firstHash]) := by
  have htag : (StoreHandler.tagOf vmCtx.env firstStore (storeContent 1700000000)).tag =
      StoreHandler.makeFileTag vmCtx.env fileOwner (some file) "" := (makeFileTag_some (by decide)).symm
  have hrow : StoreHandler.tagOf vmCtx.env firstStore (storeContent 1700000000) ∈ fileStored.fileTagsV2 :=
    List.mem_singleton_self _
  have hstore : processedRow vmCtx.env firstStore 1700000200 ∈ fileStored.messages := List.mem_singleton_self _
  have hlive : ¬ Forgotten fileStored firstHash := fun ⟨_, hr, _⟩ => absurd hr List.not_mem_nil
  refine ⟨fileStored_run, fun hfinds => ?_, fun hreports => ?_, fun haccepts => ?_⟩
  · exact (findsTagged_iff fileStored_fileTags fileOwner file).1 hfinds _ hrow htag
  · exact (reportsMissing_iff fileStored_fileTags ([], [firstHash])).1 hreports firstHash (List.mem_singleton_self _)
      ⟨_, hstore, rfl, hlive, .inl rfl⟩
  · have hok := haccepts (fun x hx => absurd hx List.not_mem_nil) fun x hx =>
      ⟨_, hstore, rfl, hlive, (List.mem_singleton.1 hx).symm⟩
    have hexec := exec_run (VmCommon.validateVolumeRefs ([], [firstHash])).run fileStored
    rw [hok] at hexec
    obtain ⟨t, ht, -⟩ := List.mem_map.1 ((VmCommon.exec_validateVolumeRefs_ok.1 hexec).2.1 firstHash
      (List.mem_singleton_self _))
    exact fileStored_fileTags t ht

end Stored

end AlephCore.Web
