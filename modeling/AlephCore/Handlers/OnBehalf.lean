import AlephCore.Handlers.DelegationRule
import AlephCore.Handlers.Stages
import AlephCore.Lib.Guarantee
import AlephCore.Services.Cost

/-!
# OnBehalf — who can act for an address

While no row names an address as its owner, the address has no security aggregate, and so has authorized nobody: the
permission check refuses whoever claims it.  What every handler stores it stores under the address in the content or
under the sender.  So an address that sends nothing itself stays without rows, as long as every message whose content
names it is checked.
-/

namespace AlephCore

open ProgE Prog Serde
open Permissions (AsArray)

/-! ## The address in a content -/

/-- The address in a content that is decoded by `d`. -/
def claimed {α : Type} (env : Env) (d : Decode α) (address : α → Address) (message : Message) : Option Address :=
  (parseContent env d (fun e => e) message).toOption.map address

/-- The address in the content, as the handler of the message decodes it. -/
def contentAddress (env : Env) (message : Message) : Option Address :=
  match message.messageType with
  | .aggregate => claimed env AggregateContent.decode AggregateContent.address message
  | .post => claimed env PostContent.decode PostContent.address message
  | .store => claimed env StoreContent.decode StoreContent.address message
  | .program => claimed env ProgramContent.decode ProgramContent.address message
  | .instance => claimed env InstanceContent.decode InstanceContent.address message
  | .forget => claimed env ForgetContent.decode ForgetContent.address message

section Claimed

variable {α : Type} {env : Env} {d : Decode α} {address : α → Address} {message : Message} {a b : Address}

theorem claimed_of_parse {t : String → String} {content : α} (h : parseContent env d t message = .ok content) :
    claimed env d address message = some (address content) := by
  rw [claimed, parseContent_text h]
  rfl

theorem parse_of_claimed (h : claimed env d address message = some a) :
    ∃ s content, message.itemContent = some s ∧ env.fromStr d s = .ok content ∧ address content = a := by
  obtain ⟨content, hcontent, rfl⟩ := Option.map_eq_some_iff.1 h
  cases hparse : parseContent env d (fun e => e) message with
  | error e =>
    rw [hparse] at hcontent
    cases hcontent
  | ok c =>
    rw [hparse] at hcontent
    obtain rfl := Option.some.inj hcontent
    obtain ⟨s, hs, hdecode⟩ := parseContent_ok.1 hparse
    exact ⟨s, c, hs, hdecode, rfl⟩

/-- A struct that begins with its address, read from an object: `Value::get` finds the same address. -/
theorem getStr?_address {known : List String} {k : Source → Address → Except String α} {fs : List (String × Json)}
    {content : α} (hknown : "address" ∈ known)
    (h : (asStruct known (.obj fs) >>= fun s => s.required "address" 0 asString >>= k s) = .ok content)
    (haddress : ∀ s a c, k s a = .ok c → address c = a) :
    (Json.obj fs).getStr? "address" = some (address content) := by
  obtain ⟨s, hs, h⟩ := bind_ok.1 h
  obtain ⟨a, ha, h⟩ := bind_ok.1 h
  rw [haddress s a content h, Json.getStr?, ← get?_of_asStruct hs hknown 0, Source.required_asString ha]
  rfl

/-- A decoder of structs that begin with their address. -/
def AddressFirst (d : Decode α) (address : α → Address) : Prop :=
  (∃ (known : List String) (k : Source → Except String α), ∀ x, d x = asStruct known x >>= k) ∧
    ∀ fs content, d (.obj fs) = .ok content → (Json.obj fs).getStr? "address" = some (address content)

theorem addressFirst_aggregate : AddressFirst AggregateContent.decode AggregateContent.address := by
  refine ⟨⟨_, _, fun _ => rfl⟩, fun fs content h => getStr?_address (by simp) h fun s a c hc => ?_⟩
  iterate 3 obtain ⟨_, -, hc⟩ := bind_ok.1 hc
  obtain rfl := Except.ok.inj hc
  rfl

theorem addressFirst_post : AddressFirst PostContent.decode PostContent.address := by
  refine ⟨⟨_, _, fun _ => rfl⟩, fun fs content h => getStr?_address (by simp) h fun s a c hc => ?_⟩
  iterate 4 obtain ⟨_, -, hc⟩ := bind_ok.1 hc
  obtain rfl := Except.ok.inj hc
  rfl

theorem addressFirst_program : AddressFirst ProgramContent.decode ProgramContent.address := by
  refine ⟨⟨_, _, fun _ => rfl⟩, fun fs content h => getStr?_address (by simp) h fun s a c hc => ?_⟩
  iterate 14 obtain ⟨_, -, hc⟩ := bind_ok.1 hc
  obtain rfl := Except.ok.inj hc
  rfl

theorem addressFirst_instance : AddressFirst InstanceContent.decode InstanceContent.address := by
  refine ⟨⟨_, _, fun _ => rfl⟩, fun fs content h => getStr?_address (by simp) h fun s a c hc => ?_⟩
  iterate 12 obtain ⟨_, -, hc⟩ := bind_ok.1 hc
  obtain rfl := Except.ok.inj hc
  rfl

theorem addressFirst_forget : AddressFirst ForgetContent.decode ForgetContent.address := by
  refine ⟨⟨_, _, fun _ => rfl⟩, fun fs content h => getStr?_address (by simp) h fun s a c hc => ?_⟩
  iterate 3 obtain ⟨_, -, hc⟩ := bind_ok.1 hc
  obtain rfl := Except.ok.inj hc
  rfl

theorem addressFirst_store : AddressFirst StoreContent.decode StoreContent.address := by
  refine ⟨⟨_, _, fun _ => rfl⟩, fun fs content h => getStr?_address (by simp) h fun s a c hc => ?_⟩
  iterate 7 obtain ⟨_, -, hc⟩ := bind_ok.1 hc
  obtain rfl := Except.ok.inj hc
  rfl

/-- The permission check finds the address of a content that is no array. -/
theorem AddressFirst.contentStr? (hd : AddressFirst d address) (h : claimed env d address message = some a)
    (harray : ¬ AsArray env message) :
    ∃ s, message.itemContent = some s ∧ env.contentStr? s "address" = some a := by
  obtain ⟨s, content, hs, hdecode, rfl⟩ := parse_of_claimed h
  obtain ⟨⟨known, k, hstruct⟩, hfound⟩ := hd
  obtain ⟨fs, hparse, hfs⟩ := Permissions.object_of_fromStr hstruct hs hdecode harray
  refine ⟨s, hs, ?_⟩
  rw [Env.contentStr?, Env.fromStrValue?, hparse]
  exact hfound fs content hfs

end Claimed

/-! ## No rows of an address -/

/-- No row of the table has the address as its owner. -/
def NoneOf (env : Env) (b : Address) {ρ κ : Type} [DecidableEq κ] {key : ρ → κ} (owner : ρ → Address)
    (t : Table ρ key) : Prop :=
  ∀ r ∈ t, ¬ env.SameAddress (owner r) b

/-- No derived row is the address's. -/
structure Absent (env : Env) (b : Address) (n : Node) : Prop where
  aggregates : NoneOf env b AggregateRow.address n.aggregates
  elements : ∀ e ∈ n.aggregateElements, ¬ env.SameAddress e.address b
  posts : NoneOf env b PostRecord.address n.posts
  pins : NoneOf env b FilePinRecord.owner n.filePins
  tags : NoneOf env b FileTagRecord.owner n.fileTagsV2
  programs : NoneOf env b ProgramRow.owner n.programs
  instances : NoneOf env b InstanceRow.owner n.instances
  versions : NoneOf env b VmVersionRow.owner n.vmVersions
  costs : NoneOf env b AccountCostRecord.owner n.accountCosts

/-- The address gets no row. -/
def KeepsAbsent (env : Env) (b : Address) (n n' : Node) : Prop := Absent env b n → Absent env b n'

instance (env : Env) (b : Address) : Std.Refl (KeepsAbsent env b) := ⟨fun _ h => h⟩

/-- Neither the program nor anybody beside it gives the address a row. -/
def absence (env : Env) (b : Address) : Contract Node where
  given := Absent env b
  rely := KeepsAbsent env b
  guar := KeepsAbsent env b
  rely_refl _ h := h
  rely_trans h h' hn := h' (h hn)
  guar_refl _ h := h

section Rows

variable {env : Env} {b : Address} {ρ κ : Type} [DecidableEq κ] {key : ρ → κ} {owner : ρ → Address} {t : Table ρ key}
  {f : ρ → ρ} {r : ρ}

theorem NoneOf.delete {p : ρ → Prop} [DecidablePred p] (h : NoneOf env b owner t) :
    NoneOf env b owner (t.delete p) :=
  fun s hs => h s (Table.mem_delete.1 hs).1

theorem NoneOf.insertNew (h : NoneOf env b owner t) (hr : ¬ env.SameAddress (owner r) b) :
    NoneOf env b owner (t.insertNew r) := by
  intro s hs
  rcases Table.mem_insertNew.1 hs with hs | ⟨rfl, -⟩
  · exact h s hs
  · exact hr

theorem NoneOf.update {p : ρ → Prop} [DecidablePred p] (h : NoneOf env b owner t)
    (hf : ∀ s, key (f s) = key s := by intro s; rfl) (howner : ∀ s, owner (f s) = owner s := by intro s; rfl) :
    NoneOf env b owner (t.update p f hf) := by
  intro s hs
  simp only [Table.mem_update] at hs
  rcases hs with ⟨hs, -⟩ | ⟨q, hq, -, rfl⟩
  · exact h s hs
  · rw [howner]
    exact h q hq

theorem NoneOf.upsert (h : NoneOf env b owner t) (hr : ¬ env.SameAddress (owner r) b)
    (hf : ∀ s, key (f s) = key s := by intro s; rfl) (howner : ∀ s, owner (f s) = owner s := by intro s; rfl) :
    NoneOf env b owner (t.upsert r f hf) := by
  intro s hs
  rcases Table.mem_upsert.1 hs with ⟨hs, -⟩ | ⟨q, hq, -, rfl⟩ | ⟨rfl, -⟩
  · exact h s hs
  · rw [howner]
    exact h q hq
  · exact hr

end Rows

section Absence

variable {env : Env} {b : Address} {n : Node} {ε α : Type} {message : Message}

theorem assures_keepsAbsent {p : Prog Node DbError α} (h : Moves (KeepsAbsent env b) p) :
    Assures (absence env b) (fun _ _ => True) p n :=
  h.assures (J := fun _ => True) (fun _ _ _ _ => trivial) (fun _ _ _ _ hkeeps => ⟨hkeeps, trivial⟩) trivial

theorem Reads.keepsAbsent {p : Db ε α} (h : Reads p) : Moves (KeepsAbsent env b) p.run := by
  refine Moves.mono h ?_
  rintro n _ rfl
  exact refl_of (KeepsAbsent env b) n

/-- A condition on the answer alone. -/
theorem stable_answer {P : α → Prop} (a : α) : (absence env b).Stable fun _ => P a := fun _ _ _ h => h

/-! ## Nobody is authorized -/

namespace Permissions

variable {sender owner : Address}

/-- The address has no security aggregate. -/
theorem assures_checkDelegatedAuthorization (howner : env.SameAddress owner b) (hsender : ¬ env.SameAddress sender b) :
    Assures (absence env b) (IfOk fun authorized _ => authorized = false)
      (checkDelegatedAuthorization env sender owner message).run n := by
  unfold checkDelegatedAuthorization
  rw [if_neg fun hsame => hsender (Env.SameAddress.trans hsame howner)]
  refine assures_bind_ifOk (P := fun content _ => content = none) ?_ ?_
  · refine assures_mapErr_ifOk stable_answer (assures_query_ifOk stable_answer fun t _ habsent => ?_)
    rw [Option.map_eq_none_iff, Table.find?_eq_none]
    intro r hr hkey
    refine habsent.aggregates r hr ?_
    rw [(Prod.mk.inj hkey).1]
    exact howner
  · rintro _ t rfl
    exact assures_pure_ifOk (stable_answer _) rfl

/-- Who claims the address is not authorized. -/
theorem assures_checkSenderAuthorization (hsender : ¬ env.SameAddress message.sender b)
    (hclaims : ∀ s a, message.itemContent = some s → env.contentStr? s "address" = some a → env.SameAddress a b) :
    Assures (absence env b) (IfOk fun authorized _ => authorized = false)
      (checkSenderAuthorization env message).run n := by
  have hfalse : ∀ t : Node, Assures (absence env b) (IfOk fun authorized _ => authorized = false)
      (pure false : Db DbError Bool).run t := fun _ => assures_pure_ifOk (stable_answer _) rfl
  unfold checkSenderAuthorization
  cases hs : message.itemContent with
  | none => exact hfalse n
  | some s =>
    refine assures_fromExcept_bind fun content hcontent => ?_
    cases haddress : content.getStr? "address" with
    | none => exact hfalse n
    | some a =>
      have hvalue : env.contentStr? s "address" = some a := by
        rw [Env.contentStr?, Env.fromStrValue?]
        cases hparse : env.parseJson s with
        | error e =>
          rw [hparse] at hcontent
          cases hcontent
        | ok x =>
          rw [hparse] at hcontent
          obtain rfl := Except.ok.inj hcontent
          exact haddress
      have ha : env.SameAddress a b := hclaims s a hs hvalue
      dsimp only
      rw [if_neg fun hsame => hsender (Env.SameAddress.trans hsame ha)]
      refine assures_bind_ifOk (P := fun _ _ => True) ?_ fun target t _ => ?_
      · exact (assures_keepsAbsent (Reads.keepsAbsent (checks_amendTarget content).moves)).mono
          fun _ _ _ _ _ => trivial
      · rcases target with _ | ⟨original, originalAddress⟩
        · exact assures_checkDelegatedAuthorization ha hsender
        · by_cases hsame : env.SameAddress a originalAddress
          · dsimp only
            rw [if_neg (not_not.2 hsame)]
            exact assures_checkDelegatedAuthorization (Env.SameAddress.trans (Env.SameAddress.symm hsame) ha) hsender
          · dsimp only
            rw [if_pos hsame]
            exact hfalse t

end Permissions

end Absence

section Checked

variable {b : Address} {n : Node} {α : Type} {message : Message} {ctx : HandlerContext} {a : Address}

/-- Who claims the address is refused. -/
theorem assures_requireAuthorization (hsender : ¬ ctx.env.SameAddress message.sender b) (ha : ctx.env.SameAddress a b)
    (hclaims : ∀ s a', message.itemContent = some s → ctx.env.contentStr? s "address" = some a' →
      ctx.env.SameAddress a' b) :
    Assures (absence ctx.env b) (IfOk fun _ _ => False) (requireAuthorization message a ctx).run n := by
  unfold requireAuthorization
  rw [if_neg fun hsame => hsender (Env.SameAddress.trans hsame ha)]
  refine assures_bind_ifOk (assures_mapErr_ifOk stable_answer
    (Permissions.assures_checkSenderAuthorization hsender hclaims)) ?_
  rintro _ t rfl
  exact fun _ _ => ifOk_error

/-- What the check finds under `address`, if it finds anything, is the claimed address. -/
theorem AddressFirst.found {d : Decode α} {address : α → Address} (hd : AddressFirst d address)
    (h : claimed ctx.env d address message = some a) {s : String} {a' : Address} (hs : message.itemContent = some s)
    (hfound : ctx.env.contentStr? s "address" = some a') : a' = a := by
  by_cases harray : AsArray ctx.env message
  · obtain ⟨s', xs, hs', hparse⟩ := harray
    obtain rfl := Option.some.inj (hs'.symm.trans hs)
    rw [Env.contentStr?, Env.fromStrValue?, hparse] at hfound
    cases hfound
  · obtain ⟨s', hs', hvalue⟩ := hd.contentStr? h harray
    obtain rfl := Option.some.inj (hs'.symm.trans hs)
    exact Option.some.inj (hfound.symm.trans hvalue)

/-- The default check refuses a content that names the address, unless it is an array. -/
theorem assures_checkPermissions {d : Decode α} {address : α → Address} (hd : AddressFirst d address)
    (h : claimed ctx.env d address message = some a) (ha : ctx.env.SameAddress a b)
    (hsender : ¬ ctx.env.SameAddress message.sender b) (harray : ¬ AsArray ctx.env message) :
    Assures (absence ctx.env b) (IfOk fun _ _ => False) (checkPermissions message ctx).run n := by
  obtain ⟨s, hs, hvalue⟩ := hd.contentStr? h harray
  have hfound : (message.itemContent.bind fun s => ctx.env.contentStr? s "address") = some a := by
    rw [hs]
    exact hvalue
  unfold checkPermissions
  rw [hfound]
  refine assures_requireAuthorization hsender ha fun s a' hs hfound => ?_
  rw [hd.found h hs hfound]
  exact ha

/-- The check of files refuses a content that names the address. -/
theorem StoreHandler.assures_checkPermissions
    (h : claimed ctx.env StoreContent.decode StoreContent.address message = some a) (ha : ctx.env.SameAddress a b)
    (hsender : ¬ ctx.env.SameAddress message.sender b) :
    Assures (absence ctx.env b) (IfOk fun _ _ => False) (StoreHandler.checkPermissions message ctx).run n := by
  refine assures_fromExcept_bind fun content hparse => ?_
  obtain rfl : content.address = a := Option.some.inj ((claimed_of_parse hparse).symm.trans h)
  refine assures_bind_ifOk (assures_requireAuthorization hsender ha fun s a' hs hfound => ?_) fun _ _ hno => hno.elim
  rw [addressFirst_store.found h hs hfound]
  exact ha

/-- The message is not of the address, and does not name it unless that is checked. -/
structure Outside (env : Env) (b : Address) (trusted : Bool) (message : Message) : Prop where
  sender : ¬ env.SameAddress message.sender b
  unchecked : trusted = true ∨ AsArray env message ∧ message.messageType ≠ .store →
    ∀ a, contentAddress env message = some a → ¬ env.SameAddress a b

/-- **A message of another address passes** the permission check only if its content does not name the address. -/
theorem assures_permissionStage (h : Outside ctx.env b ctx.trustedSource message) :
    Assures (absence ctx.env b)
      (IfOk fun _ _ => ∀ a, contentAddress ctx.env message = some a → ¬ ctx.env.SameAddress a b)
      ((handlerOf message.messageType).permissionStage message ctx).run n := by
  by_cases hnamed : ∃ a, contentAddress ctx.env message = some a ∧ ctx.env.SameAddress a b
  · obtain ⟨a, hclaimed, ha⟩ := hnamed
    have hchecked : ¬ (ctx.trustedSource = true ∨ AsArray ctx.env message ∧ message.messageType ≠ .store) :=
      fun hun => h.unchecked hun a hclaimed ha
    obtain ⟨htrusted, harray⟩ := not_or.1 hchecked
    have hrefused : Assures (absence ctx.env b) (IfOk fun _ _ => False)
        ((handlerOf message.messageType).permissionStage message ctx).run n := by
      unfold MessageHandler.permissionStage
      rw [if_neg htrusted]
      unfold contentAddress at hclaimed
      cases htype : message.messageType with
      | store =>
        rw [htype] at hclaimed
        exact StoreHandler.assures_checkPermissions hclaimed ha h.sender
      | aggregate =>
        rw [htype] at hclaimed harray
        exact assures_checkPermissions addressFirst_aggregate hclaimed ha h.sender fun hx => harray ⟨hx, by decide⟩
      | post =>
        rw [htype] at hclaimed harray
        refine assures_bind_ifOk (assures_checkPermissions addressFirst_post hclaimed ha h.sender fun hx =>
          harray ⟨hx, by decide⟩) fun _ _ hno => hno.elim
      | program =>
        rw [htype] at hclaimed harray
        exact assures_checkPermissions addressFirst_program hclaimed ha h.sender fun hx => harray ⟨hx, by decide⟩
      | «instance» =>
        rw [htype] at hclaimed harray
        exact assures_checkPermissions addressFirst_instance hclaimed ha h.sender fun hx => harray ⟨hx, by decide⟩
      | forget =>
        rw [htype] at hclaimed harray
        exact assures_checkPermissions addressFirst_forget hclaimed ha h.sender fun hx => harray ⟨hx, by decide⟩
    exact hrefused.mono fun r t hr u hu => (hr u hu).elim
  · refine (assures_keepsAbsent (Reads.keepsAbsent (reads_permissionStage _))).mono fun r t _ u _ a hclaimed ha => ?_
    exact hnamed ⟨a, hclaimed, ha⟩

end Checked

/-! ## What the handlers store -/

/-- What is done with a value that was computed. -/
theorem moves_fromExcept_bind {R : Node → Node → Prop} {ε α β : Type} {r : Except ε α} {q : α → Db ε β}
    (h : ∀ a, r = .ok a → Moves R (q a).run) : Moves R (fromExcept r >>= q).run := by
  cases r with
  | ok a => exact h a rfl
  | error e => exact trivial

section Stores

variable {b : Address} {message : Message} {ctx : HandlerContext} {env : Env} {hash : ItemHash}

namespace AggregateHandler

theorem keeps_rebuild (address : Address) (key : String) :
    Moves (KeepsAbsent env b) (rebuildAggregateFromElements address key).run := by
  refine moves_bind (moves_mapErr (moves_query _)) fun elements => ?_
  split_ifs
  · exact moves_pure ()
  · exact moves_mapErr (moves_execute fun n hn => { hn with aggregates := hn.aggregates.update })

theorem keeps_updateExisting (e : AggregateElement) : Moves (KeepsAbsent env b) (updateExisting e).run := by
  refine moves_bind (moves_mapErr (moves_query _)) fun existing => ?_
  split
  · exact moves_pure ()
  · unfold mergeExisting
    split_ifs
    · exact moves_pure ()
    · exact moves_mapErr (moves_execute fun n hn => { hn with aggregates := hn.aggregates.update })
    · refine moves_bind (moves_mapErr (moves_query _)) fun count => ?_
      split_ifs
      · exact moves_mapErr (moves_execute fun n hn => { hn with aggregates := hn.aggregates.update })
      · exact keeps_rebuild _ _

theorem keeps_storeElement {e : AggregateElement} (he : ¬ env.SameAddress e.address b) (n : Node) :
    KeepsAbsent env b n (storeElement e n) := by
  intro hn
  unfold storeElement
  split_ifs
  · exact hn
  · refine { hn with elements := fun e' he' => ?_ }
    rcases List.mem_append.1 he' with he' | he'
    · exact hn.elements e' he'
    · obtain rfl := List.mem_singleton.1 he'
      exact he

theorem keeps_process
    (h : ∀ a, claimed ctx.env AggregateContent.decode AggregateContent.address message = some a →
      ¬ env.SameAddress a b) : Moves (KeepsAbsent env b) (process message ctx).run := by
  refine moves_fromExcept_bind fun content hparse => ?_
  have haddress : ¬ env.SameAddress content.address b := h _ (claimed_of_parse hparse)
  refine moves_bind (moves_mapErr (moves_execute (keeps_storeElement haddress))) fun _ => ?_
  refine moves_bind (moves_mapErr (moves_sql fun n hn => ?_)) fun rowsAffected => ?_
  · exact { hn with aggregates := hn.aggregates.insertNew haddress }
  · split_ifs
    · exact keeps_updateExisting _
    · exact moves_pure ()

end AggregateHandler

theorem PostHandler.keeps_process
    (h : ∀ a, claimed ctx.env PostContent.decode PostContent.address message = some a → ¬ env.SameAddress a b) :
    Moves (KeepsAbsent env b) (PostHandler.process message ctx).run := by
  refine moves_fromExcept_bind fun content hparse => ?_
  have haddress : ¬ env.SameAddress content.address b := h _ (claimed_of_parse hparse)
  have hinsert : ∀ original, Moves (KeepsAbsent env b)
      (db (PostHandler.insertPost (PostHandler.recordOf message content original))).run := fun original =>
    moves_mapErr (moves_execute fun n hn => { hn with posts := hn.posts.insertNew haddress })
  split_ifs
  · split
    · exact moves_throw _
    · refine moves_bind ?_ fun originalHash => moves_bind (hinsert _) fun _ =>
        moves_mapErr (moves_execute fun n hn => { hn with posts := hn.posts.update })
      refine moves_bind (moves_attempt (moves_query _)) fun target => ?_
      split <;> exact moves_pure _
  · exact hinsert _

namespace PgDatabase

theorem keeps_insertPin {pin : FilePinRecord} (hpin : ¬ env.SameAddress pin.owner b) (f : FilePinRecord → FilePinRecord)
    (hf : ∀ p, ((f p).itemHash, (f p).owner) = (p.itemHash, p.owner)) :
    Moves (KeepsAbsent env b) (insertPin pin f hf).run := by
  refine moves_sql fun n hn => ?_
  split_ifs
  · exact hn
  · exact { hn with pins := hn.pins.upsert hpin hf fun p => congrArg Prod.snd (hf p) }

theorem keeps_storeAccountCosts {costs : List AccountCostRecord} (h : ∀ c ∈ costs, ¬ env.SameAddress c.owner b) :
    Moves (KeepsAbsent env b) (storeAccountCosts costs).run :=
  moves_forEach fun c hc => moves_execute fun n hn => { hn with costs := hn.costs.upsert (h c hc) }

end PgDatabase

theorem StoreHandler.keeps_process
    (h : ∀ a, claimed ctx.env StoreContent.decode StoreContent.address message = some a → ¬ env.SameAddress a b) :
    Moves (KeepsAbsent env b) (StoreHandler.process message ctx).run := by
  refine moves_fromExcept_bind fun content hparse => ?_
  have haddress : ¬ env.SameAddress content.address b := h _ (claimed_of_parse hparse)
  refine moves_bind (moves_mapErr (moves_execute fun n hn => { hn with })) fun _ => ?_
  refine moves_bind (moves_mapErr (PgDatabase.keeps_insertPin haddress _ _)) fun _ => ?_
  refine moves_bind (moves_mapErr (moves_execute fun n hn =>
    { hn with tags := hn.tags.upsert haddress })) fun _ => ?_
  refine moves_bind ?_ fun _ => moves_mapErr (moves_execute fun n hn =>
    { hn with pins := hn.pins.upsert haddress })
  unfold StoreHandler.storeCosts
  split
  · refine moves_mapErr (PgDatabase.keeps_storeAccountCosts fun c hc => ?_)
    obtain rfl := List.mem_singleton.1 hc
    exact haddress
  · exact moves_pure ()

/-! ### Virtual machines -/

theorem VmCommon.keeps_storeVm {address : Address} (haddress : ¬ env.SameAddress address b) {volumes : List VolumeInfo}
    {replaces : Option ItemHash} {time : Timestamp} {costs : Option (List AccountCostRecord)}
    (hcosts : ∀ cs, costs = some cs → ∀ c ∈ cs, c.owner = address) :
    Moves (KeepsAbsent env b) (VmCommon.storeVm hash address volumes replaces time costs).run := by
  have hvolumes : Moves (KeepsAbsent env b) (VmCommon.storeVolumes hash volumes).run := by
    unfold VmCommon.storeVolumes
    split_ifs
    · exact moves_pure ()
    · exact moves_mapErr (moves_forEach fun volume _ => moves_execute fun n hn => { hn with })
  refine moves_bind hvolumes fun _ => moves_bind (moves_mapErr (moves_execute fun n hn =>
    { hn with versions := hn.versions.upsert haddress })) fun _ => ?_
  unfold VmCommon.storeCosts
  split
  · split_ifs
    · exact moves_pure ()
    · refine moves_mapErr (PgDatabase.keeps_storeAccountCosts fun c hc => ?_)
      rw [hcosts _ rfl c hc]
      exact haddress
  · exact moves_pure ()

/-- The node charges by its own cost service, if by any. -/
def OwnCosts (cost : Option CostService) : Prop := ∀ service ∈ cost, service = .new

theorem ProgramHandler.keeps_process (hcost : OwnCosts ctx.cost) (hsender : ¬ env.SameAddress message.sender b)
    (h : ∀ a, claimed ctx.env ProgramContent.decode ProgramContent.address message = some a →
      ¬ env.SameAddress a b) : Moves (KeepsAbsent env b) (ProgramHandler.process message ctx).run := by
  refine moves_fromExcept_bind fun content hparse => ?_
  have haddress : ¬ env.SameAddress content.address b := h _ (claimed_of_parse hparse)
  refine moves_bind (moves_mapErr (moves_execute fun n hn =>
    { hn with programs := hn.programs.insertNew hsender })) fun _ => ?_
  refine VmCommon.keeps_storeVm haddress fun cs hcs c hc => ?_
  obtain ⟨service, hservice, rfl⟩ := Option.map_eq_some_iff.1 hcs
  obtain rfl := hcost service hservice
  exact CostService.bill_programCosts.owned c hc

theorem InstanceHandler.keeps_process (hcost : OwnCosts ctx.cost) (hsender : ¬ env.SameAddress message.sender b)
    (h : ∀ a, claimed ctx.env InstanceContent.decode InstanceContent.address message = some a →
      ¬ env.SameAddress a b) : Moves (KeepsAbsent env b) (InstanceHandler.process message ctx).run := by
  refine moves_fromExcept_bind fun content hparse => ?_
  have haddress : ¬ env.SameAddress content.address b := h _ (claimed_of_parse hparse)
  refine moves_bind (moves_mapErr (moves_execute fun n hn =>
    { hn with instances := hn.instances.insertNew hsender })) fun _ => ?_
  refine VmCommon.keeps_storeVm haddress fun cs hcs c hc => ?_
  obtain ⟨service, hservice, rfl⟩ := Option.map_eq_some_iff.1 hcs
  obtain rfl := hcost service hservice
  exact CostService.bill_instanceCosts.owned c hc

/-! ### Forgetting -/

namespace PgDatabase

theorem keeps_deleteDerivedData (type : MessageType) :
    Moves (KeepsAbsent env b) (deleteDerivedData hash type).run := by
  have hvolumes : Moves (KeepsAbsent env b) (deleteVolumes hash).run := moves_execute fun n hn => { hn with }
  have hversion : Moves (KeepsAbsent env b) (deleteVmVersion hash).run :=
    moves_execute fun n hn => { hn with versions := hn.versions.delete }
  have hcosts : Moves (KeepsAbsent env b) (deleteAccountCosts hash).run :=
    moves_execute fun n hn => { hn with costs := hn.costs.delete }
  refine moves_bind ?_ fun _ => moves_execute fun n hn => { hn with }
  cases type with
  | post => exact moves_execute fun n hn => { hn with posts := hn.posts.delete }
  | aggregate =>
    exact moves_execute fun n hn => { hn with elements := fun e he => hn.elements e (List.mem_filter.1 he).1 }
  | program =>
    exact moves_bind hvolumes fun _ =>
      moves_bind (moves_execute fun n hn => { hn with programs := hn.programs.delete }) fun _ =>
        moves_bind hversion fun _ => hcosts
  | «instance» =>
    exact moves_bind hvolumes fun _ =>
      moves_bind (moves_execute fun n hn => { hn with instances := hn.instances.delete }) fun _ =>
        moves_bind hversion fun _ => hcosts
  | store | forget => exact moves_pure ()

theorem keeps_markForgotten (forgetHash : ItemHash) (reason : Option String) :
    Moves (KeepsAbsent env b) (markForgotten hash forgetHash reason).run :=
  moves_execute fun _ hn => { hn with }

theorem keeps_deleteMessage : Moves (KeepsAbsent env b) (deleteMessage hash).run :=
  moves_execute fun _ hn => { hn with }

end PgDatabase

namespace ForgetHandler

theorem keeps_forgetPins {address : Address} (haddress : ¬ env.SameAddress address b) (target : Message) :
    Moves (KeepsAbsent env b) (forgetPins hash address target ctx).run := by
  have hstore : Moves (KeepsAbsent env b) (processStoreForget hash address target ctx).run := by
    refine moves_bind (moves_mapErr (moves_execute fun n hn => { hn with pins := hn.pins.delete })) fun _ => ?_
    refine moves_bind (moves_mapErr ?_) fun _ => moves_bind (moves_mapErr (moves_query _)) fun active => ?_
    · refine moves_bind (moves_query _) fun newest => ?_
      split
      · exact moves_execute fun n hn => { hn with tags := hn.tags.update }
      · exact moves_execute fun n hn => { hn with tags := hn.tags.delete }
    · split_ifs
      · exact moves_mapErr (PgDatabase.keeps_insertPin haddress _ _)
      · exact moves_pure ()
  unfold forgetPins
  split_ifs
  · exact hstore
  · exact moves_mapErr (moves_execute fun n hn => { hn with pins := hn.pins.delete })

theorem keeps_forgetElement : Moves (KeepsAbsent env b) (forgetElement hash ctx).run := by
  refine moves_bind (moves_mapErr (moves_query _)) fun info => moves_bind (moves_mapErr (moves_execute fun n hn =>
    { hn with elements := fun e he => hn.elements e (List.mem_filter.1 he).1 })) fun _ => ?_
  split
  · exact moves_pure ()
  · refine moves_bind (moves_mapErr (moves_query _)) fun remaining => ?_
    split_ifs
    · exact moves_mapErr (moves_execute fun n hn => { hn with aggregates := hn.aggregates.delete })
    · exact AggregateHandler.keeps_rebuild _ _

theorem keeps_cascadeForget (type : MessageType) : Moves (KeepsAbsent env b) (cascadeForget hash type ctx).run := by
  have hvm : Moves (KeepsAbsent env b) (do
      let _ ← db (PgDatabase.deleteVmUpdates hash)
      db (PgDatabase.deleteAccountCosts hash)).run := by
    refine moves_bind (moves_mapErr ?_) fun _ =>
      moves_mapErr (moves_execute fun n hn => { hn with costs := hn.costs.delete })
    exact moves_bind (moves_sql fun n hn => { hn with instances := hn.instances.delete }) fun _ =>
      moves_bind (moves_sql fun n hn => { hn with programs := hn.programs.delete }) fun _ => moves_pure _
  cases type with
  | post =>
    refine moves_bind (moves_mapErr (moves_query _)) fun amends => moves_forEach fun amendHash _ => ?_
    exact moves_bind (moves_mapErr (PgDatabase.keeps_markForgotten _ _)) fun _ =>
      moves_bind (moves_mapErr (PgDatabase.keeps_deleteDerivedData _)) fun _ =>
        moves_mapErr PgDatabase.keeps_deleteMessage
  | aggregate => exact keeps_forgetElement
  | program | «instance» => exact hvm
  | store | forget => exact moves_pure ()

theorem keeps_process
    (h : ∀ a, claimed ctx.env ForgetContent.decode ForgetContent.address message = some a → ¬ env.SameAddress a b) :
    Moves (KeepsAbsent env b) (process message ctx).run := by
  refine moves_fromExcept_bind fun content hparse => moves_forEach fun hash _ => ?_
  have haddress : ¬ env.SameAddress content.address b := h _ (claimed_of_parse hparse)
  refine moves_bind (moves_mapErr (moves_query _)) fun target => ?_
  refine moves_bind (moves_mapErr (PgDatabase.keeps_markForgotten _ _)) fun _ => ?_
  refine moves_bind ?_ fun _ => moves_mapErr PgDatabase.keeps_deleteMessage
  cases target with
  | none => exact moves_mapErr (moves_execute fun n hn => { hn with pins := hn.pins.delete })
  | some target =>
    exact moves_bind (keeps_forgetPins haddress target) fun _ =>
      moves_bind (keeps_cascadeForget _) fun _ => moves_mapErr (PgDatabase.keeps_deleteDerivedData _)

end ForgetHandler

/-! ## A message -/

/-- **A handler stores** nothing under an address that is neither in the content nor the sender. -/
theorem keeps_stage_process (hcost : OwnCosts ctx.cost) (hsender : ¬ env.SameAddress message.sender b)
    (h : ∀ a, contentAddress ctx.env message = some a → ¬ env.SameAddress a b) :
    Moves (KeepsAbsent env b) ((handlerOf message.messageType).process message ctx).run := by
  unfold contentAddress at h
  cases htype : message.messageType with
  | aggregate =>
    rw [htype] at h
    exact AggregateHandler.keeps_process h
  | post =>
    rw [htype] at h
    exact PostHandler.keeps_process h
  | store =>
    rw [htype] at h
    exact StoreHandler.keeps_process h
  | program =>
    rw [htype] at h
    exact ProgramHandler.keeps_process hcost hsender h
  | «instance» =>
    rw [htype] at h
    exact InstanceHandler.keeps_process hcost hsender h
  | forget =>
    rw [htype] at h
    exact ForgetHandler.keeps_process h

end Stores

/-- **A message of another address** gives the address no row, beside others that give it none. -/
theorem assures_outside {b : Address} {message : Message} {ctx : HandlerContext} {n : Node}
    (h : Outside ctx.env b ctx.trustedSource message) (hcost : OwnCosts ctx.cost) :
    Assures (absence ctx.env b) (fun _ _ => True) (processMessage message ctx) n := by
  have hrun : Assures (absence ctx.env b) (fun _ _ => True)
      ((handlerOf message.messageType).run message ctx).run n := by
    unfold MessageHandler.run
    refine assures_bind (assures_keepsAbsent (Reads.keepsAbsent (checks_stage_validate _).moves))
      (fun _ t _ => ?_) fun _ _ _ _ _ => trivial
    refine assures_bind (assures_permissionStage h) (fun _ u hu => ?_) fun _ _ _ _ _ => trivial
    refine assures_bind (assures_keepsAbsent (Reads.keepsAbsent (checks_stage_checkBalance _).moves))
      (fun _ v _ => ?_) fun _ _ _ _ _ => trivial
    exact assures_keepsAbsent (keeps_stage_process hcost h.sender (ifOk_ok.1 hu))
  refine Assures.bind (hrun.mono fun r t _ => ?_)
  cases r with
  | ok u => exact fun _ _ => trivial
  | error e => exact fun _ _ => trivial

end AlephCore
