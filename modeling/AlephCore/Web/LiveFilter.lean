import AlephCore.Jobs.MessageProcessor
import AlephCore.Web.HistoryQuery

/-!
# LiveFilter — live messages and their history

A subscriber is sent the messages that its filter matches, and reads the earlier ones with the history query of the
same filter.  A listed hash is enough for the first and one condition among others for the second; a list of hashes
keeps nothing from the first and everything else from the second.
-/

namespace AlephCore.WebSocket

open SqlText MessageProcessor

variable {env : Env} {receptionTime : Timestamp} {order : HashOrder} {filter : SubscriptionFilter} {limit : Nat}
  {before : Option Decimal} {message : Message}

/-! ## The live filter -/

namespace SubscriptionFilter

/-- Nothing is asked for, or the value is. -/
def Asks (s : Finset String) (v : Option String) : Prop := s = ∅ ∨ ∃ x ∈ s, v = some x

/-- What the filter asks of sender, channel and type holds of the message. -/
structure Concerns (filter : SubscriptionFilter) (message : Message) : Prop where
  sender : Asks filter.addresses (some message.sender)
  channel : Asks filter.channels message.channel
  messageType : Asks filter.messageTypes (some message.messageType.toString)

theorem asks_some {s : Finset String} {x : String} : Asks s (some x) ↔ ¬ (s ≠ ∅ ∧ x ∉ s) := by
  rw [not_and_or, not_not, not_not]
  refine or_congr_right ⟨?_, fun hx => ⟨x, hx, rfl⟩⟩
  rintro ⟨y, hy, he⟩
  rwa [Option.some.inj he]

theorem asks_option {s : Finset String} {v : Option String} : Asks s v ↔ ¬ (s ≠ ∅ ∧ ¬ v.any (· ∈ s)) := by
  rw [not_and_or, not_not, not_not, Option.any_eq_true]
  refine or_congr_right (exists_congr fun x => ?_)
  rw [decide_eq_true_iff]
  exact and_comm

/-- **A message goes to the subscriber** if its hash is listed or it meets the three other conditions. -/
theorem matches_iff : filter.«matches» message = true ↔ message.itemHash ∈ filter.hashes ∨ filter.Concerns message := by
  unfold «matches»
  split_ifs with hempty hhash hsender hchannel htype
  · refine iff_of_true rfl (.inr ?_)
    obtain ⟨haddresses, hchannels, htypes, -⟩ := of_decide_eq_true hempty
    exact ⟨.inl haddresses, .inl hchannels, .inl htypes⟩
  · exact iff_of_true rfl (.inl hhash.2)
  all_goals
    have hunlisted : message.itemHash ∉ filter.hashes := fun h => hhash ⟨Finset.ne_empty_of_mem h, h⟩
    rw [or_iff_right hunlisted]
  · exact iff_of_false id fun h => asks_some.1 h.sender hsender
  · exact iff_of_false id fun h => asks_option.1 h.channel hchannel
  · exact iff_of_false id fun h => asks_some.1 h.messageType htype
  · exact iff_of_true rfl ⟨asks_some.2 hsender, asks_option.2 hchannel, asks_some.2 htype⟩

end SubscriptionFilter

open SubscriptionFilter

/-! ## The rows of a history query -/

/-- `column IN (…)`, or no clause; NULL is in no list. -/
def InList (values : List String) (v : Option String) : Prop := values = [] ∨ ∃ x ∈ values, v = some x

/-- The row meets the conditions of a query with these values. -/
structure Selects (addresses channels messageTypes hashes : List String) (before : Option Decimal) (r : MessageRow) :
    Prop where
  sender : InList addresses (some r.sender)
  channel : InList channels r.channel
  messageType : InList messageTypes (some r.messageType.toString)
  itemHash : InList hashes (some r.itemHash)
  time : ∀ t, before = some t → r.time < t.value

/-- The text of the history query is read as the query of the filter, and that query selects the row of the message
exactly if the live filter matches the message. -/
def Agrees (env : Env) (receptionTime : Timestamp) (order : HashOrder) (filter : SubscriptionFilter) (limit : Nat)
    (before : Option Decimal) (message : Message) : Prop :=
  ∃ addresses channels messageTypes hashes : List String,
    (∀ x, x ∈ addresses ↔ x ∈ filter.addresses) ∧ (∀ x, x ∈ channels ↔ x ∈ filter.channels) ∧
      (∀ x, x ∈ messageTypes ↔ x ∈ filter.messageTypes) ∧ (∀ x, x ∈ hashes ↔ x ∈ filter.hashes) ∧
      lex (historyQuery order filter limit before).toList =
        some (queryItems addresses channels messageTypes hashes limit before) ∧
      (filter.«matches» message = true ↔
        Selects addresses channels messageTypes hashes before (processedRow env message receptionTime))

theorem inList_iff {values : List String} {s : Finset String} (h : ∀ x, x ∈ values ↔ x ∈ s) (v : Option String) :
    InList values v ↔ Asks s v := by
  have hempty : values = [] ↔ s = ∅ := by
    rw [List.eq_nil_iff_forall_not_mem, Finset.eq_empty_iff_forall_notMem]
    exact forall_congr' fun x => not_congr (h x)
  refine or_congr hempty (exists_congr fun x => and_congr_left fun _ => h x)

/-- What the query of a filter selects. -/
theorem selects_iff {addresses channels messageTypes hashes : List String}
    (haddresses : ∀ x, x ∈ addresses ↔ x ∈ filter.addresses) (hchannels : ∀ x, x ∈ channels ↔ x ∈ filter.channels)
    (htypes : ∀ x, x ∈ messageTypes ↔ x ∈ filter.messageTypes) (hhashes : ∀ x, x ∈ hashes ↔ x ∈ filter.hashes) :
    Selects addresses channels messageTypes hashes before (processedRow env message receptionTime) ↔
      filter.Concerns message ∧ (filter.hashes = ∅ ∨ message.itemHash ∈ filter.hashes) ∧
        ∀ t, before = some t → normalizeTimestamp message.time < t.value := by
  have hhash : Asks filter.hashes (some message.itemHash) ↔ filter.hashes = ∅ ∨ message.itemHash ∈ filter.hashes := by
    rw [asks_some, not_and_or, not_not, not_not]
  constructor
  · intro h
    refine ⟨⟨(inList_iff haddresses _).1 h.sender, (inList_iff hchannels _).1 h.channel,
      (inList_iff htypes _).1 h.messageType⟩, hhash.1 ((inList_iff hhashes _).1 h.itemHash), h.time⟩
  · rintro ⟨hconcerns, hlisted, htime⟩
    exact ⟨(inList_iff haddresses _).2 hconcerns.sender, (inList_iff hchannels _).2 hconcerns.channel,
      (inList_iff htypes _).2 hconcerns.messageType, (inList_iff hhashes _).2 (hhash.2 hlisted), htime⟩

/-! ## When they agree -/

theorem agree_logic {E H R B : Prop} (h : E → ¬ H) :
    (H ∨ R ↔ R ∧ (E ∨ H) ∧ B) ↔ (E ∨ (H ↔ R)) ∧ (B ∨ ¬ H ∧ ¬ R) := by
  tauto

theorem not_listed_of_empty (h : filter.hashes = ∅) : message.itemHash ∉ filter.hashes := by
  rw [h]
  exact Finset.notMem_empty _

theorem Agrees.conditions (h : Agrees env receptionTime order filter limit before message) :
    QuoteFree filter ∧ (filter.hashes = ∅ ∨ (message.itemHash ∈ filter.hashes ↔ filter.Concerns message)) ∧
      ((∀ t, before = some t → normalizeTimestamp message.time < t.value) ∨
        message.itemHash ∉ filter.hashes ∧ ¬ filter.Concerns message) := by
  obtain ⟨addresses, channels, messageTypes, hashes, haddresses, hchannels, htypes, hhashes, hlex, hagree⟩ := h
  rw [matches_iff, selects_iff haddresses hchannels htypes hhashes, agree_logic not_listed_of_empty] at hagree
  exact ⟨ReadsAs.quoteFree ⟨_, _, _, _, haddresses, hchannels, htypes, hhashes, hlex⟩, hagree⟩

/-- **Live messages and history agree on a message exactly if** no value has a quote, a list of hashes lists the
message just if the rest of the filter concerns it, and the time bound does not exclude what the filter matches. -/
theorem agrees_iff (env : Env) (receptionTime : Timestamp) (order : HashOrder) (filter : SubscriptionFilter)
    (limit : Nat) (before : Option Decimal) (message : Message) :
    Agrees env receptionTime order filter limit before message ↔
      QuoteFree filter ∧
        (filter.hashes = ∅ ∨ (message.itemHash ∈ filter.hashes ↔ filter.Concerns message)) ∧
        ((∀ t, before = some t → normalizeTimestamp message.time < t.value) ∨
          message.itemHash ∉ filter.hashes ∧ ¬ filter.Concerns message) := by
  refine ⟨Agrees.conditions, ?_⟩
  rintro ⟨hquotes, hagree⟩
  have hreads : ReadsAs (historyQuery order filter limit before) filter limit before := hquotes.readsAs
  obtain ⟨addresses, channels, messageTypes, hashes, haddresses, hchannels, htypes, hhashes, hlex⟩ := hreads
  refine ⟨addresses, channels, messageTypes, hashes, haddresses, hchannels, htypes, hhashes, hlex, ?_⟩
  rwa [matches_iff, selects_iff haddresses hchannels htypes hhashes, agree_logic not_listed_of_empty]

/-! ### A subscription to one hash -/

section OneHash

/-- A subscription to one message, and another message. -/
def oneHash : SubscriptionFilter :=
  { SubscriptionFilter.new with hashes := {"0ec83d2ec8ca475b65769710a2bdc2b3a48202283750ccd4c6055af8e822613b"} }

def unlisted : Message where
  messageType := .post
  chain := .eth
  sender := "0x8fa7De588b149EFa9F1FdBe307921842F27B37C7"
  signature := "0x00"
  itemType := .inline
  itemHash := "5edf5b15a3ca661ac7a0985fd2c28ab743edd045cfb1eafc1853001ecb95a6c7"
  itemContent := some "\x7b\x7d"
  channel := none
  time := 1700000000

/-- The subscriber is sent a message whose hash is not listed, and does not find it in the history. -/
theorem unlisted_not_agrees :
    oneHash.«matches» unlisted = true ∧
      ¬ Agrees (.ofTables [] [] []) 1700000200 .sorted oneHash 100 none unlisted := by
  have hunlisted : unlisted.itemHash ∉ oneHash.hashes := by decide +kernel
  have hlisted : oneHash.hashes ≠ ∅ := by decide +kernel
  have hconcerns : oneHash.Concerns unlisted := ⟨.inl rfl, .inl rfl, .inl rfl⟩
  refine ⟨matches_iff.2 (.inr hconcerns), fun hagrees => ?_⟩
  obtain ⟨-, hempty | hiff, -⟩ := hagrees.conditions
  · exact hlisted hempty
  · exact hunlisted (hiff.2 hconcerns)

end OneHash

end AlephCore.WebSocket
