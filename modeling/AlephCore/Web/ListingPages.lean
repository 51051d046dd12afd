import AlephCore.Web.Listings

/-!
# ListingPages — the pages of a list, put together

A client asks for the pages 1 to `ceil(total / size)`, one after another.  Whether that gives every row once depends
on what the `ORDER BY` leaves open, on the rows that the handler can read, and on the 32 bits of the offset.
-/

namespace AlephCore

open ProgE OffsetPages UnixPath Storage AggregateHandler

/-! ## Answers of the database -/

namespace SqlOrder

open Classical in
/-- The given rows come in the given order. -/
noncomputable def deliver {α : Type} (rows l : List α) (h : l.Perm rows) : SqlOrder where
  scan {ρ} x := if hα : α = ρ then (if hα ▸ rows = x then hα ▸ l else x) else x
  perm {ρ} x := by
    split_ifs with hα hrows
    · subst hα
      subst hrows
      exact h
    · exact .refl x
    · exact .refl x

theorem deliver_scan {α : Type} {rows l : List α} (h : l.Perm rows) : (deliver rows l h).scan rows = l := by
  simp only [deliver, dif_pos, if_true]

end SqlOrder

namespace Web

section Answers

variable {ρ κ : Type} (L : Listing ρ κ) (le : ρ → ρ → Prop) [DecidableRel le]

theorem answers_sort (hle : ∀ a b, L.le a b ↔ le a b) (order : SqlOrder) :
    L.Answers ((order.scan L.rows).insertionSort le) where
  perm := (List.perm_insertionSort le _).trans (order.perm _)
  sorted := by
    have htotal : Std.Total le := ⟨fun a b => by
      rw [← hle, ← hle]
      exact L.le_total a b⟩
    have htrans : IsTrans ρ le := ⟨fun a b c => by
      rw [← hle, ← hle, ← hle]
      exact L.le_trans a b c⟩
    exact (List.pairwise_insertionSort le _).imp fun hab => (hle _ _).2 hab

/-- Every answer that the query admits may be the one the database gives. -/
theorem exists_order (hle : ∀ a b, L.le a b ↔ le a b) {l : List ρ} (hl : L.Answers l) :
    ∃ order : SqlOrder, (order.scan L.rows).insertionSort le = l := by
  refine ⟨.deliver L.rows l hl.perm, ?_⟩
  rw [SqlOrder.deliver_scan]
  exact List.Pairwise.insertionSort_eq (hl.sorted.imp fun hab => (hle _ _).1 hab)

end Answers

/-! ## Asking for all pages -/

section Requests

variable {ω : Type 1} {ε ρ ρ' κ : Type}

/-- **The pages 1 to `ceil(total / size)` together give every key once**, whatever the database chooses at each
request.  Page 1 is asked for in any case. -/
def ListsOnce (request : ω → UInt32 → Db ε (ListPage ρ)) (key : ρ → κ) (size : ℕ) (targets : List κ) (n : Node) :
    Prop :=
  let count := (targets.length + size - 1) / size
  count < 2 ^ 32 ∧ ∀ choice : ℕ → ω, ∃ pages : ℕ → ListPage ρ,
    (∀ i, i = 0 ∨ i < count → ((request (choice i) (.ofNat (i + 1))).run.run n).1 = .ok (pages i) ∧
      (pages i).paginationTotal = targets.length) ∧
    ((List.range count).flatMap fun i => (pages i).items.map key).Perm targets

variable {request : ω → UInt32 → Db ε (ListPage ρ)} {key : ρ → κ} {size : ℕ} {n : Node}
  {readable : ρ' → Bool}

theorem toNat_pageNumber {i : ℕ} (hi : i + 1 < 2 ^ 32) : (UInt32.ofNat (i + 1)).toNat = i + 1 :=
  UInt32.toNat_ofNat_of_lt' hi

theorem pageNumber_pos {i : ℕ} (hi : i + 1 < 2 ^ 32) : 0 < UInt32.ofNat (i + 1) := by
  rw [UInt32.lt_iff_toNat_lt, toNat_pageNumber hi]
  exact i.succ_pos

/-- A handler whose pages are cut from the answers of a query. -/
theorem listsOnce_iff_delivers (L : Listing ρ' κ) (answer : ω → UInt32 → List ρ')
    (hall : ∀ l, L.Answers l → ∃ w, ∀ p, answer w p = l)
    (hanswers : ∀ w p, L.Answers (answer w p))
    (hrequest : ∀ w p, 0 < p → ∃ pg, ((request w p).run.run n).1 = .ok pg ∧
      pg.paginationTotal = L.targets.length ∧
      pg.items.map key = (readAll readable (page ((p.toNat - 1) * size % 2 ^ 32) size (answer w p))).map L.key) :
    ListsOnce request key size L.targets n ↔
      L.pageCount size < 2 ^ 32 ∧ L.Delivers readable (fun i => i * size % 2 ^ 32) size := by
  refine and_congr_right fun hcount => ?_
  constructor
  · intro h l hl
    choose w hw using fun i => hall (l i) (hl i)
    obtain ⟨pages, hpages, hperm⟩ := h w
    have hitems : ∀ i < L.pageCount size, (pages i).items.map key =
        (readAll readable (page (i * size % 2 ^ 32) size (l i))).map L.key := by
      intro i hi
      have hnumber : i + 1 < 2 ^ 32 := lt_of_le_of_lt hi hcount
      obtain ⟨pg, hpg, -, hmap⟩ := hrequest (w i) _ (pageNumber_pos hnumber)
      rw [(hpages i (.inr hi)).1] at hpg
      obtain rfl := Except.ok.inj hpg
      rw [hmap, hw, toNat_pageNumber hnumber, Nat.add_sub_cancel]
    rw [← List.flatMap_congr fun i hi => hitems i (List.mem_range.1 hi)]
    exact hperm
  · intro h choice
    have hnumber : ∀ i, i = 0 ∨ i < L.pageCount size → i + 1 < 2 ^ 32 := by
      rintro i (rfl | hi)
      · decide
      · exact lt_of_le_of_lt hi hcount
    have hpages : ∀ i, ∃ pg, i = 0 ∨ i < L.pageCount size →
        ((request (choice i) (.ofNat (i + 1))).run.run n).1 = .ok pg ∧ pg.paginationTotal = L.targets.length ∧
        pg.items.map key =
          (readAll readable (page (i * size % 2 ^ 32) size (answer (choice i) (.ofNat (i + 1))))).map L.key := by
      intro i
      by_cases hi : i = 0 ∨ i < L.pageCount size
      · obtain ⟨pg, hpg, htotal, hmap⟩ := hrequest (choice i) _ (pageNumber_pos (hnumber i hi))
        rw [toNat_pageNumber (hnumber i hi), Nat.add_sub_cancel] at hmap
        exact ⟨pg, fun _ => ⟨hpg, htotal, hmap⟩⟩
      · exact ⟨⟨[], 0, 0, 0⟩, fun hi' => absurd hi' hi⟩
    choose pages hpages using hpages
    refine ⟨pages, fun i hi => ⟨(hpages i hi).1, (hpages i hi).2.1⟩, ?_⟩
    have hanswers' : ∀ i, L.Answers (answer (choice i) (.ofNat (i + 1))) := fun i => hanswers _ _
    refine (List.Perm.of_eq (List.flatMap_congr fun i hi => ?_)).trans (h _ hanswers')
    exact (hpages i (.inr (List.mem_range.1 hi))).2.2

end Requests

/-! ## Offsets -/

theorem toNat_offsetOf {p perPage : UInt32} (hp : 0 < p) :
    (offsetOf p perPage).toNat = (p.toNat - 1) * perPage.toNat % 2 ^ 32 := by
  have hone : (1 : UInt32) ≤ p := by
    rw [UInt32.lt_iff_toNat_lt] at hp
    rw [UInt32.le_iff_toNat_le]
    exact hp
  rw [offsetOf, UInt32.toNat_mul, UInt32.toNat_sub_of_le _ _ hone]
  rfl

theorem max_one (p : UInt32) : max p 1 = if p ≤ 1 then 1 else p := rfl

theorem max_one_pos (p : UInt32) : 0 < max p 1 := by
  rw [max_one]
  split_ifs with hle
  · decide
  · rw [UInt32.le_iff_toNat_le] at hle
    rw [UInt32.lt_iff_toNat_lt]
    exact Nat.zero_lt_of_lt (not_le.1 hle)

theorem toNat_max_one (p : UInt32) : (max p 1).toNat - 1 = p.toNat - 1 := by
  rw [max_one]
  split_ifs with hle
  · rw [UInt32.le_iff_toNat_le] at hle
    have hone : (1 : UInt32).toNat = 1 := rfl
    omega
  · rfl

/-- The offset of the handlers that take page 0 for page 1. -/
theorem toNat_offsetOf_max (p perPage : UInt32) :
    (offsetOf (max p 1) perPage).toNat = (p.toNat - 1) * perPage.toNat % 2 ^ 32 := by
  rw [toNat_offsetOf (max_one_pos p), toNat_max_one]

/-! ## Rows that are decoded -/

/-- The keys of decoded rows are those of the rows, unless one cannot be decoded. -/
theorem mapM_readAll {ρ α κ : Type} {decode : ρ → Except DbError α} {key : ρ → κ} {key' : α → κ}
    (hkey : ∀ r a, decode r = .ok a → key' a = key r) (l : List ρ) :
    ((l.mapM decode).toOption.getD []).map key' = (readAll (fun r => (decode r).toOption.isSome) l).map key := by
  by_cases hall : ∀ r ∈ l, (decode r).toOption.isSome = true
  · have hdecoded : ∃ as, l.mapM decode = .ok as ∧ as.map key' = l.map key := by
      induction l with
      | nil => exact ⟨[], rfl, rfl⟩
      | cons r l ih =>
        obtain ⟨hr, hl⟩ := List.forall_mem_cons.1 hall
        obtain ⟨as, has, hmap⟩ := ih hl
        cases ha : decode r with
        | error e =>
          rw [ha] at hr
          exact absurd hr Bool.false_ne_true
        | ok a =>
          refine ⟨a :: as, ?_, ?_⟩
          · rw [List.mapM_cons, ha, has]
            rfl
          · rw [List.map_cons, List.map_cons, hmap, hkey r a ha]
    obtain ⟨as, has, hmap⟩ := hdecoded
    rw [readAll_of_forall hall, has]
    exact hmap
  · have hfailed : (l.mapM decode).toOption.getD [] = [] := by
      cases has : l.mapM decode with
      | error e => rfl
      | ok as =>
        refine absurd (fun r hr => ?_) hall
        obtain ⟨a, ha⟩ := (Serde.mem_of_mapM has).1 r hr
        rw [ha]
        rfl
    have hempty : readAll (fun r => (decode r).toOption.isSome) l = [] := by
      rw [readAll, if_neg fun h => hall (List.all_eq_true.1 h)]
    rw [hfailed, hempty]
    rfl

/-! ## Balances -/

section Balances

variable (lib : ListingsDb) (q : BalancesQuery) (n : Node)

/-- The pages of `get_balances` give every matching balance once. -/
def BalancesListed : Prop :=
  ListsOnce (fun order p => getBalances lib order { q with page := some p }) (fun b => (b.address, b.chain))
    q.perPage.toNat ((matchingBalances lib q n).map fun r => (r.address, r.chain)) n

/-- No row has the column for `updated_at`. -/
theorem fromRow_balanceColumns (r : BalanceRow) : ∃ e, BalanceDb.fromRow lib balanceColumns r = .error e := ⟨_, rfl⟩

theorem run_getBalances (order : SqlOrder) :
    (getBalances lib order q).run.run n =
      (.ok ⟨[], (matchingBalances lib q n).length, q.pageOf, q.perPage⟩, n) := by
  have hnone : ∀ l : List BalanceRow, (l.mapM (BalanceDb.fromRow lib balanceColumns)).toOption.getD [] = [] := by
    intro l
    cases l with
    | nil => rfl
    | cons r l =>
      obtain ⟨e, he⟩ := fromRow_balanceColumns lib r
      rw [List.mapM_cons, he]
      rfl
  unfold getBalances fetchAll
  rw [run_bind_ok (run_orDefault 0 _ n), run_bind_ok (run_orDefault_sql [] _ n), hnone]
  rfl

theorem balancesListed_iff : BalancesListed lib q n ↔ matchingBalances lib q n = [] := by
  unfold BalancesListed ListsOnce
  constructor
  · rintro ⟨-, h⟩
    obtain ⟨pages, hpages, hperm⟩ := h fun _ => .stored
    rw [List.flatMap_eq_nil_iff.2] at hperm
    · exact List.map_eq_nil_iff.1 hperm.nil_eq.symm
    · intro i hi
      have hpage := (hpages i (.inr (List.mem_range.1 hi))).1
      rw [run_getBalances] at hpage
      rw [← Except.ok.inj hpage]
      rfl
  · intro hnone
    have hcount : (0 + q.perPage.toNat - 1) / q.perPage.toNat = 0 := by
      rw [Nat.div_eq_zero_iff]
      omega
    rw [hnone, List.map_nil, List.length_nil, hcount]
    refine ⟨by decide, fun choice => ⟨fun i => ⟨[], 0, max (.ofNat (i + 1)) 1, q.perPage⟩, fun i _ => ⟨?_, rfl⟩, .nil⟩⟩
    have hnone' : matchingBalances lib { q with page := some (.ofNat (i + 1)) } n = [] := hnone
    rw [run_getBalances, hnone']
    rfl

end Balances

/-! ## Credit balances -/

section Credits

variable (lib : ListingsDb) (q : CreditBalancesQuery) (n : Node)

/-- The pages of `get_credit_balances` give every matching balance once. -/
def CreditsListed : Prop :=
  ListsOnce (fun order p => getCreditBalances lib order { q with page := some p }) CreditBalanceItem.address
    q.perPage.toNat ((matchingCredits q n).map CreditBalanceRow.address) n

theorem credits_nodup : ((matchingCredits q n).map CreditBalanceRow.address).Nodup :=
  n.creditBalances.nodup.sublist (List.filter_sublist.map _)

def creditListing : Listing CreditBalanceRow Address :=
  .keyed inAnyOrder (fun _ _ => .inl trivial) (fun _ _ _ _ _ => trivial) (credits_nodup q n)

/-- The balance of a row can be decoded. -/
def decodable (r : CreditBalanceRow) : Bool := (lib.decodeDecimal r.balance).isSome

theorem decodeCredit_isSome (r : CreditBalanceRow) : (decodeCredit lib r).toOption.isSome = decodable lib r := by
  unfold decodeCredit decodable
  cases lib.decodeDecimal r.balance with
  | none => rfl
  | some balance => rfl

theorem decodeCredit_fst {r : CreditBalanceRow} {b : Address × String} (h : decodeCredit lib r = .ok b) :
    b.1 = r.address := by
  unfold decodeCredit at h
  cases hbalance : lib.decodeDecimal r.balance with
  | none =>
    rw [hbalance] at h
    cases h
  | some balance =>
    rw [hbalance] at h
    obtain rfl := Except.ok.inj h
    rfl

theorem matchingCredits_nil (h : q.addresses.map parseCsvParam = some []) : matchingCredits q n = [] := by
  obtain ⟨addresses, haddresses, hempty⟩ := Option.map_eq_some_iff.1 h
  refine List.filter_eq_nil_iff.2 fun r _ => ?_
  rw [creditMatches, haddresses]
  simp [hempty]

theorem run_fetchCredits (order : SqlOrder) :
    ∃ balances, (fetchCredits lib order q).run.run n = (.ok (balances, (matchingCredits q n).length), n) ∧
      balances.map Prod.fst = (readAll (decodable lib)
        (sortedPage order inAnyOrder q.perPage q.offset (matchingCredits q n))).map CreditBalanceRow.address := by
  unfold fetchCredits
  by_cases hnone : q.addresses.map parseCsvParam = some []
  · rw [if_pos hnone, matchingCredits_nil q n hnone]
    refine ⟨[], rfl, ?_⟩
    have hscan : order.scan ([] : List CreditBalanceRow) = [] := (order.perm []).eq_nil
    rw [sortedPage, hscan, List.insertionSort_nil, page, List.drop_nil, List.take_nil]
    rfl
  · rw [if_neg hnone]
    unfold fetchAll
    rw [run_bind_ok (run_orDefault_sql [] _ n), run_bind_ok (run_orDefault 0 _ n)]
    refine ⟨_, rfl, ?_⟩
    have hdecode := mapM_readAll (fun r b (h : decodeCredit lib r = .ok b) => decodeCredit_fst lib h)
      (sortedPage order inAnyOrder q.perPage q.offset (matchingCredits q n))
    simp only [decodeCredit_isSome] at hdecode
    exact hdecode

theorem run_getCreditBalances (order : SqlOrder) :
    ∃ pg, ((getCreditBalances lib order q).run.run n).1 = .ok pg ∧
      pg.paginationTotal = (matchingCredits q n).length ∧
      pg.items.map CreditBalanceItem.address = (readAll (decodable lib)
        (sortedPage order inAnyOrder q.perPage q.offset (matchingCredits q n))).map CreditBalanceRow.address := by
  obtain ⟨balances, hrun, hitems⟩ := run_fetchCredits lib q n order
  unfold getCreditBalances
  rw [run_bind_ok hrun]
  refine ⟨_, rfl, rfl, ?_⟩
  rw [List.map_map]
  exact hitems

theorem creditsListed_iff (hsize : 0 < q.perPage.toNat) :
    CreditsListed lib q n ↔ (matchingCredits q n).length ≤ q.perPage.toNat ∧
      ∀ r ∈ matchingCredits q n, (lib.decodeDecimal r.balance).isSome = true := by
  have hlists : CreditsListed lib q n ↔ (creditListing q n).pageCount q.perPage.toNat < 2 ^ 32 ∧
      (creditListing q n).Delivers (decodable lib) (fun i => i * q.perPage.toNat % 2 ^ 32) q.perPage.toNat := by
    refine listsOnce_iff_delivers (creditListing q n)
      (fun order _ => (order.scan (matchingCredits q n)).insertionSort inAnyOrder) (fun l hl => ?_)
      (fun order _ => answers_sort (creditListing q n) inAnyOrder (fun _ _ => Iff.rfl) order) fun order p hp => ?_
    · obtain ⟨order, horder⟩ := exists_order (creditListing q n) inAnyOrder (fun _ _ => Iff.rfl) hl
      exact ⟨order, fun _ => horder⟩
    · obtain ⟨pg, hrun, htotal, hitems⟩ := run_getCreditBalances lib { q with page := some p } n order
      refine ⟨pg, hrun, ?_, ?_⟩
      · rw [htotal]
        exact (List.length_map _).symm
      · rw [hitems, ← toNat_offsetOf hp]
        rfl
  have hbound : q.perPage.toNat ≤ 2 ^ 32 := q.perPage.toNat_lt.le
  have hlength : (creditListing q n).targets.length = (matchingCredits q n).length := List.length_map _
  rw [hlists, Listing.delivers_iff (credits_nodup q n), Listing.once_iff hsize hbound,
    Listing.untied_iff_of_tied hsize fun _ _ => trivial, hlength]
  constructor
  · rintro ⟨-, hdecodable, -, -, hle⟩
    exact ⟨hle, hdecodable⟩
  · rintro ⟨hle, hdecodable⟩
    have hone : (creditListing q n).pageCount q.perPage.toNat ≤ 1 := by
      by_contra hlt
      rw [not_le, lt_pageCount_iff hsize, hlength] at hlt
      omega
    refine ⟨by omega, hdecodable, ?_, Listing.distinct_of_nodup (credits_nodup q n), hle⟩
    rw [Nat.sub_eq_zero_of_le hone, Nat.zero_mul]
    decide

end Credits

/-! ## Aggregates -/

section Aggregates

variable (lib : ListingsDb) (q : ListAggregatesQuery) (n : Node)

/-- The pages of `list_aggregates` give every matching aggregate once. -/
def AggregatesListed : Prop :=
  ListsOnce (fun choice : SqlOrder × SqlOrder => fun p =>
      listAggregates lib choice.1 choice.2 { q with page := some p })
    (fun item => (item.address, item.key)) q.perPage.toNat
    ((matchingAggregates q n).map fun r => (r.address, r.key)) n

/-- The tables are fixed: no request for a page rewrites an aggregate. -/
def RequestsKeep : Prop :=
  ∀ order refetch p, ((listAggregates lib order refetch { q with page := some p }).run.run n).2 = n

theorem exists_mem_joinAggregate (a : AggregateRow) : ∃ row, row ∈ joinAggregate n a := by
  unfold joinAggregate
  dsimp only
  split_ifs with hnone
  · exact ⟨_, List.mem_singleton_self _⟩
  · obtain ⟨e, he⟩ := List.exists_mem_of_ne_nil _ fun h => hnone (List.isEmpty_iff.2 h)
    exact ⟨_, List.mem_map_of_mem he⟩

theorem joinAggregate_a {n : Node} {a : AggregateRow} {row : JoinedAggregate} (h : row ∈ joinAggregate n a) :
    row.a = a := by
  unfold joinAggregate at h
  dsimp only at h
  split_ifs at h
  · rw [List.mem_singleton.1 h]
  · obtain ⟨e, -, rfl⟩ := List.mem_map.1 h
    rfl

theorem byTime_total (r s : JoinedAggregate) : byTime q r s ∨ byTime q s r := by
  unfold byTime
  split_ifs
  · exact le_total _ _
  · exact le_total _ _

theorem byTime_trans (r s t : JoinedAggregate) (hrs : byTime q r s) (hst : byTime q s t) : byTime q r t := by
  unfold byTime at *
  split_ifs at *
  · exact hrs.trans hst
  · exact hst.trans hrs

def aggregateListing : Listing JoinedAggregate (Address × String) where
  rows := joinedAggregates q n
  le := byTime q
  key row := (row.a.address, row.a.key)
  targets := (matchingAggregates q n).map fun r => (r.address, r.key)
  le_total := byTime_total q
  le_trans := byTime_trans q
  nodup := n.aggregates.nodup.sublist (List.filter_sublist.map _)
  mem_targets k := by
    constructor
    · intro hk
      obtain ⟨a, ha, rfl⟩ := List.mem_map.1 hk
      obtain ⟨row, hrow⟩ := exists_mem_joinAggregate n a
      exact ⟨row, List.mem_flatMap.2 ⟨a, ha, hrow⟩, by rw [joinAggregate_a hrow]⟩
    · rintro ⟨row, hrow, rfl⟩
      obtain ⟨a, ha, hjoin⟩ := List.mem_flatMap.1 hrow
      rw [joinAggregate_a hjoin]
      exact List.mem_map_of_mem ha

theorem run_db_orDefault {α : Type} (d : α) (f : Node → α) :
    (db (orDefault d (query f))).run.run n = (.ok (f n), n) := by
  rw [db, run_mapErr, run_orDefault]
  rfl

theorem run_refreshAll (keys : List (Address × String)) : ∃ n', (refreshAll keys).run.run n = (.ok (), n') := by
  unfold refreshAll
  induction keys generalizing n with
  | nil => exact ⟨n, rfl⟩
  | cons p keys ih =>
    have hignore : (ignore (rebuildAggregateFromElements p.1 p.2) : Db HandlerError Unit).run.run n =
        (.ok (), ((rebuildAggregateFromElements p.1 p.2).run.run n).2) := by
      rw [ProgE.ignore, ExceptT.run_mk, Prog.run_bind]
      rfl
    obtain ⟨n', hn'⟩ := ih ((rebuildAggregateFromElements p.1 p.2).run.run n).2
    unfold forEach
    rw [run_bind_ok hignore]
    exact ⟨n', hn'⟩

/-- The answer a page is cut from: the first one, unless there are dirty aggregates on its page. -/
def answerUsed (choice : SqlOrder × SqlOrder) : SqlOrder :=
  if (dirtyOf ((aggregatePage choice.1 q n).map JoinedAggregate.a)).isEmpty then choice.1 else choice.2

theorem run_listAggregates {order refetch : SqlOrder}
    (hfixed : ((listAggregates lib order refetch q).run.run n).2 = n) :
    ((listAggregates lib order refetch q).run.run n).1 =
      .ok ⟨(aggregatePage (answerUsed q n (order, refetch)) q n).map (aggregateItem lib),
        (matchingAggregates q n).length, q.pageOf, q.perPage⟩ := by
  unfold listAggregates at hfixed ⊢
  rw [run_bind_ok (run_db_orDefault n 0 _), run_bind_ok (run_db_orDefault n [] _)] at hfixed ⊢
  unfold answerUsed
  dsimp only at hfixed ⊢
  by_cases hclean : (dirtyOf ((aggregatePage order q n).map JoinedAggregate.a)).isEmpty = true
  · rw [if_pos hclean, if_pos hclean]
    rfl
  · rw [if_neg hclean] at hfixed ⊢
    rw [if_neg hclean]
    obtain ⟨n', hn'⟩ := run_refreshAll n (dirtyOf ((aggregatePage order q n).map JoinedAggregate.a))
    rw [run_bind_ok hn', run_bind_ok (run_db_orDefault n' [] _)] at hfixed ⊢
    obtain rfl : n' = n := hfixed
    rfl

/-- Clean aggregates are only read. -/
theorem requestsKeep_of_clean (hclean : ∀ r ∈ n.aggregates, r.dirty = false) : RequestsKeep lib q n := by
  intro order refetch p
  have hnone : (dirtyOf ((aggregatePage order { q with page := some p } n).map JoinedAggregate.a)).isEmpty = true := by
    rw [List.isEmpty_iff, dirtyOf, List.filter_eq_nil_iff.2, List.map_nil]
    intro a ha
    obtain ⟨row, hrow, rfl⟩ := List.mem_map.1 ha
    have hanswer := (List.mem_insertionSort _).1 (mem_of_mem_page hrow)
    obtain ⟨a, ha, hjoin⟩ := List.mem_flatMap.1 (order.mem_scan.1 hanswer)
    rw [joinAggregate_a hjoin, hclean a (List.mem_of_mem_filter ha)]
    exact Bool.false_ne_true
  unfold listAggregates
  rw [run_bind_ok (run_db_orDefault n 0 _), run_bind_ok (run_db_orDefault n [] _)]
  dsimp only
  rw [if_pos hnone]
  rfl

theorem aggregatesListed_iff (hsize : 0 < q.perPage.toNat) (hfixed : RequestsKeep lib q n) :
    AggregatesListed lib q n ↔ (aggregateListing q n).pageCount q.perPage.toNat < 2 ^ 32 ∧
      ((aggregateListing q n).pageCount q.perPage.toNat - 1) * q.perPage.toNat < 2 ^ 32 ∧
      (aggregateListing q n).Distinct q.perPage.toNat ∧ (aggregateListing q n).Untied q.perPage.toNat := by
  have hlists : AggregatesListed lib q n ↔ (aggregateListing q n).pageCount q.perPage.toNat < 2 ^ 32 ∧
      (aggregateListing q n).Delivers (fun _ => true) (fun i => i * q.perPage.toNat % 2 ^ 32) q.perPage.toNat := by
    refine listsOnce_iff_delivers (aggregateListing q n)
      (fun choice p =>
        ((answerUsed { q with page := some p } n choice).scan (joinedAggregates q n)).insertionSort (byTime q))
      (fun l hl => ?_) (fun choice p => answers_sort (aggregateListing q n) (byTime q) (fun _ _ => Iff.rfl) _) fun choice p _ => ?_
    · obtain ⟨order, horder⟩ := exists_order (aggregateListing q n) (byTime q) (fun _ _ => Iff.rfl) hl
      refine ⟨(order, order), fun p => ?_⟩
      have hused : answerUsed { q with page := some p } n (order, order) = order := ite_id _
      rw [hused]
      exact horder
    · refine ⟨_, run_listAggregates lib { q with page := some p } n (hfixed choice.1 choice.2 p), ?_, ?_⟩
      · exact (List.length_map _).symm
      · rw [readAll_of_forall fun _ _ => rfl, ← toNat_offsetOf_max, List.map_map]
        rfl
  rw [hlists, Listing.delivers_of_readable fun _ _ => rfl, Listing.once_iff hsize q.perPage.toNat_lt.le]

end Aggregates

/-! ## Statistics of addresses -/

section Stats

variable (lib : ListingsDb) (q : AddressStatsV1Query) (n : Node)

/-- The pattern of a search that does not panic. -/
def AddressStatsV1Query.pattern : Option Text := q.search.toOption.join

/-- The pages of `get_addresses_stats_v1` give every matching sender once. -/
def StatsListed : Prop :=
  ListsOnce (fun order p => getAddressesStatsV1 lib order { q with page := some p }) Prod.fst q.perPage.toNat
    (statsSenders lib q.pattern n) n

theorem search_ok_iff : (∃ pattern, q.search = .ok pattern) ↔
    ∀ s, q.addressContains = some s → ¬ Straddles 66 s.toList := by
  unfold AddressStatsV1Query.search
  cases q.addressContains with
  | none => exact iff_of_true ⟨none, rfl⟩ (by simp)
  | some s =>
    have hsearch : addressSearch s = none ↔ Straddles 66 s.toList := addressSearch_eq_none_iff
    simp only [Option.elim_some]
    cases hpattern : addressSearch s with
    | none =>
      rw [hpattern] at hsearch
      refine iff_of_false ?_ fun h => h s rfl (hsearch.1 rfl)
      rintro ⟨pattern, h⟩
      cases h
    | some pattern =>
      rw [hpattern] at hsearch
      refine iff_of_true ⟨some pattern, rfl⟩ fun s' hs' => ?_
      obtain rfl := Option.some.inj hs'
      exact fun hsplit => Option.some_ne_none pattern (hsearch.2 hsplit)

theorem byCount_total (r s : StatsRow) : byCount q r s ∨ byCount q s r := by
  unfold byCount
  split_ifs
  · exact le_total _ _
  · exact le_total _ _

theorem byCount_trans (r s t : StatsRow) (hrs : byCount q r s) (hst : byCount q s t) : byCount q r t := by
  unfold byCount at *
  split_ifs at *
  · exact hrs.trans hst
  · exact hst.trans hrs

theorem statsRows_sender (pattern : Option Text) :
    (statsRows lib q pattern n).map StatsRow.sender = statsSenders lib pattern n := by
  rw [statsRows, List.map_map]
  exact List.map_id _

theorem statsRows_nodup : ((statsRows lib q q.pattern n).map StatsRow.sender).Nodup := by
  rw [statsRows_sender]
  exact List.nodup_dedup _

def statsListing : Listing StatsRow Address :=
  .keyed (byCount q) (byCount_total q) (byCount_trans q) (statsRows_nodup lib q n)

theorem run_mapErr_orDefault {α : Type} (d : α) (f : Node → α) :
    (mapErr .inr (orDefault d (query f)) : Db (Panic ⊕ DbError) α).run.run n = (.ok (f n), n) := by
  rw [run_mapErr, run_orDefault]
  rfl

theorem run_getAddressesStatsV1 {pattern : Option Text} (order : SqlOrder) (hsearch : q.search = .ok pattern) :
    ∃ pg, ((getAddressesStatsV1 lib order q).run.run n).1 = .ok pg ∧
      pg.paginationTotal = (statsSenders lib pattern n).length ∧
      pg.items.map Prod.fst =
        (sortedPage order (byCount q) q.perPage q.offset (statsRows lib q pattern n)).map StatsRow.sender := by
  have hpattern : (fromExcept q.search : Db (Panic ⊕ DbError) _).run.run n = (.ok pattern, n) := by
    rw [hsearch]
    rfl
  unfold getAddressesStatsV1
  rw [run_bind_ok hpattern, run_bind_ok (run_mapErr_orDefault n 0 _), run_bind_ok (run_mapErr_orDefault n [] _)]
  by_cases hnone : (sortedPage order (byCount q) q.perPage q.offset (statsRows lib q pattern n)).isEmpty = true
  · rw [if_pos hnone]
    refine ⟨_, rfl, rfl, ?_⟩
    rw [List.isEmpty_iff.1 hnone]
    rfl
  · rw [if_neg hnone, run_bind_ok (run_mapErr_orDefault n [] _)]
    refine ⟨_, rfl, rfl, ?_⟩
    rw [List.map_map]
    rfl

/-- A search that panics gets no answer. -/
theorem getAddressesStatsV1_search {order : SqlOrder} {pg : ListPage (Address × AddressStatsItem)}
    (h : ((getAddressesStatsV1 lib order q).run.run n).1 = .ok pg) : ∃ pattern, q.search = .ok pattern := by
  cases hsearch : q.search with
  | ok pattern => exact ⟨pattern, rfl⟩
  | error e =>
    unfold getAddressesStatsV1 at h
    have hpanic : (fromExcept q.search : Db (Panic ⊕ DbError) _).run.run n = (.error e, n) := by
      rw [hsearch]
      rfl
    rw [run_bind_error hpanic] at h
    cases h

theorem statsListed_iff (hsize : 0 < q.perPage.toNat) :
    StatsListed lib q n ↔ (∀ s, q.addressContains = some s → ¬ Straddles 66 s.toList) ∧
      (statsListing lib q n).pageCount q.perPage.toNat < 2 ^ 32 ∧
      ((statsListing lib q n).pageCount q.perPage.toNat - 1) * q.perPage.toNat < 2 ^ 32 ∧
      (statsListing lib q n).Untied q.perPage.toNat := by
  rw [← search_ok_iff]
  have htargets : (statsListing lib q n).targets = statsSenders lib q.pattern n := statsRows_sender lib q n q.pattern
  by_cases hsearch : ∃ pattern, q.search = .ok pattern
  · rw [and_iff_right hsearch]
    obtain ⟨pattern, hpattern⟩ := hsearch
    have hlists : StatsListed lib q n ↔ (statsListing lib q n).pageCount q.perPage.toNat < 2 ^ 32 ∧
        (statsListing lib q n).Delivers (fun _ => true) (fun i => i * q.perPage.toNat % 2 ^ 32) q.perPage.toNat := by
      unfold StatsListed
      rw [← htargets]
      refine listsOnce_iff_delivers (statsListing lib q n)
        (fun order _ => (order.scan (statsRows lib q q.pattern n)).insertionSort (byCount q)) (fun l hl => ?_)
        (fun order _ => answers_sort (statsListing lib q n) (byCount q) (fun _ _ => Iff.rfl) order) fun order p _ => ?_
      · obtain ⟨order, horder⟩ := exists_order (statsListing lib q n) (byCount q) (fun _ _ => Iff.rfl) hl
        exact ⟨order, fun _ => horder⟩
      · have hjoin : q.pattern = pattern := by
          rw [AddressStatsV1Query.pattern, hpattern]
          rfl
        obtain ⟨pg, hrun, htotal, hitems⟩ := run_getAddressesStatsV1 lib { q with page := some p } n order hpattern
        refine ⟨pg, hrun, ?_, ?_⟩
        · rw [htotal, htargets, hjoin]
        · rw [hitems, readAll_of_forall fun _ _ => rfl, ← toNat_offsetOf_max, hjoin]
          rfl
    have hkeys : ((statsListing lib q n).rows.map (statsListing lib q n).key).Nodup := statsRows_nodup lib q n
    rw [hlists, Listing.delivers_of_readable fun _ _ => rfl, Listing.once_iff hsize q.perPage.toNat_lt.le,
      and_iff_right (Listing.distinct_of_nodup hkeys)]
  · refine iff_of_false (fun h => hsearch ?_) fun h => hsearch h.1
    obtain ⟨pages, hpages, -⟩ := h.2 fun _ => .stored
    exact getAddressesStatsV1_search lib { q with page := some (.ofNat (0 + 1)) } n (hpages 0 (.inl rfl)).1

end Stats

/-! ## The offsets -/

section Offset

variable {p perPage : UInt32}

theorem offsetOf_max_iff :
    (offsetOf (max p 1) perPage).toNat = (p.toNat - 1) * perPage.toNat ↔
      (p.toNat - 1) * perPage.toNat < 2 ^ 32 := by
  rw [toNat_offsetOf_max]
  exact Nat.mod_eq_iff_lt (by decide)

/-- Without the lower bound page 0 is taken for page 2 ^ 32. -/
theorem offsetOf_iff :
    (offsetOf p perPage).toNat = (p.toNat - 1) * perPage.toNat ↔
      (p = 0 → perPage = 0) ∧ (p.toNat - 1) * perPage.toNat < 2 ^ 32 := by
  by_cases hp : p = 0
  · subst hp
    have hoffset : (offsetOf 0 perPage).toNat = (2 ^ 32 - 1) * perPage.toNat % 2 ^ 32 := by
      rw [offsetOf, UInt32.toNat_mul]
      rfl
    have hzero : (0 : UInt32).toNat - 1 = 0 := rfl
    have hperPage : perPage = 0 ↔ perPage.toNat = 0 := UInt32.toNat_inj.symm
    have hlt := perPage.toNat_lt
    rw [hoffset, hzero, Nat.zero_mul, imp_iff_right rfl, and_iff_left (by decide), hperPage]
    omega
  · have hpos : 0 < p := by
      rw [UInt32.lt_iff_toNat_lt, UInt32.toNat_zero]
      exact Nat.pos_of_ne_zero fun h => hp (UInt32.toNat_inj.1 h)
    rw [toNat_offsetOf hpos, and_iff_right fun h => absurd h hp]
    exact Nat.mod_eq_iff_lt (by decide)

end Offset

/-! ## All four lists -/

/-- The number of the last page and its offset have 32 bits. -/
def LastPageFits (total size : ℕ) : Prop :=
  (total + size - 1) / size < 2 ^ 32 ∧ ((total + size - 1) / size - 1) * size < 2 ^ 32

instance (total size : ℕ) : Decidable (LastPageFits total size) :=
  inferInstanceAs (Decidable ((total + size - 1) / size < 2 ^ 32 ∧ ((total + size - 1) / size - 1) * size < 2 ^ 32))

/-- **When the pages of a list give every row once.**  Balances: never, if there are any.  Credit balances: on one page,
if all of them can be decoded.  Aggregates and senders: if the last page fits, no page ends in a tie, no aggregate is
joined twice and the search is not cut inside a character.  The offset is exact as long as it has 32 bits; only the
handler of the credit balances does not take page 0 for page 1. -/
theorem offset_pagination_iff (lib : ListingsDb) :
    (∀ q n, 0 < q.perPage.toNat → (BalancesListed lib q n ↔ matchingBalances lib q n = [])) ∧
    (∀ q n, 0 < q.perPage.toNat → (CreditsListed lib q n ↔
      (matchingCredits q n).length ≤ q.perPage.toNat ∧
      ∀ r ∈ matchingCredits q n, (lib.decodeDecimal r.balance).isSome = true)) ∧
    (∀ q n, 0 < q.perPage.toNat → RequestsKeep lib q n → (AggregatesListed lib q n ↔
      LastPageFits (matchingAggregates q n).length q.perPage.toNat ∧
      (aggregateListing q n).Distinct q.perPage.toNat ∧ (aggregateListing q n).Untied q.perPage.toNat)) ∧
    (∀ q n, 0 < q.perPage.toNat → (StatsListed lib q n ↔
      (∀ s, q.addressContains = some s → ¬ Straddles 66 s.toList) ∧
      LastPageFits (statsSenders lib q.pattern n).length q.perPage.toNat ∧
      (statsListing lib q n).Untied q.perPage.toNat)) ∧
    (∀ q : BalancesQuery, q.offset.toNat = ((q.page.getD 1).toNat - 1) * q.perPage.toNat ↔
      ((q.page.getD 1).toNat - 1) * q.perPage.toNat < 2 ^ 32) ∧
    (∀ q : CreditBalancesQuery, q.offset.toNat = ((q.page.getD 1).toNat - 1) * q.perPage.toNat ↔
      (q.page = some 0 → q.perPage = 0) ∧ ((q.page.getD 1).toNat - 1) * q.perPage.toNat < 2 ^ 32) ∧
    (∀ q : ListAggregatesQuery, q.offset.toNat = ((q.page.getD 1).toNat - 1) * q.perPage.toNat ↔
      ((q.page.getD 1).toNat - 1) * q.perPage.toNat < 2 ^ 32) ∧
    (∀ q : AddressStatsV1Query, q.offset.toNat = ((q.page.getD 1).toNat - 1) * q.perPage.toNat ↔
      ((q.page.getD 1).toNat - 1) * q.perPage.toNat < 2 ^ 32) := by
  refine ⟨fun q n _ => balancesListed_iff lib q n, fun q n hsize => creditsListed_iff lib q n hsize,
    fun q n hsize hkeep => ?_, fun q n hsize => ?_, fun q => offsetOf_max_iff, fun q => ?_,
    fun q => offsetOf_max_iff, fun q => offsetOf_max_iff⟩
  · rw [aggregatesListed_iff lib q n hsize hkeep, LastPageFits, and_assoc, Listing.pageCount]
    have htotal : (aggregateListing q n).targets.length = (matchingAggregates q n).length := List.length_map _
    rw [htotal]
  · rw [statsListed_iff lib q n hsize, LastPageFits, and_assoc, Listing.pageCount]
    have htotal : (statsListing lib q n).targets.length = (statsSenders lib q.pattern n).length := by
      rw [← statsRows_sender lib q n q.pattern]
      rfl
    rw [htotal]
  · have hzero : q.page.getD 1 = 0 ↔ q.page = some 0 := by
      cases q.page with
      | none => exact iff_of_false (by decide) (by decide)
      | some p => exact (Option.some.injEq p 0).to_iff.symm
    rw [← hzero]
    exact offsetOf_iff

/-! ## Rows that a client misses -/

/-- Whole numbers have the eighteen decimals of their column, seconds below ten are written out, and a search is for
a whole address. -/
def sampleDb : ListingsDb where
  toDouble x := x
  decodeDecimal x := some s!"{x.num}.000000000000000000"
  parseF64 s := (String.ofList (s.toList.takeWhile (· ≠ '.'))).toInt?.map fun i => i
  ilike sender pattern := decide (pattern = "%".toList ++ sender.toList ++ "%".toList)
  toRfc3339 t := s!"1970-01-01T00:00:0{t.num}.000000Z"

def profileOf (key : String) (time : Timestamp) : AggregateRow :=
  { address := "0xa", key, content := Value.emptyObject, time, dirty := false, lastRevisionHash := none }

/-- Two aggregates with these times, two credit balances and a balance. -/
def sampleTables (t t' : Timestamp) : Node where
  __ := Node.empty
  aggregates := ⟨[profileOf "name" t, profileOf "bio" t'], by simp [profileOf]⟩
  balances := ⟨[⟨"0xa", "ETH", 5⟩], by decide⟩
  creditBalances := ⟨[⟨"0xa", 5⟩, ⟨"0xb", 5⟩], by decide⟩

/-- Pages of one aggregate. -/
def oneAggregate : ListAggregatesQuery := ⟨none, none, some 1, none, none, none, none⟩

/-- A search for senders. -/
def searchStats : AddressStatsV1Query := ⟨none, none, none, some "0xa", none⟩

/-- Aggregates of different times are listed once, one on each page, and so are the balances of no chain, the credit
balances on a page of two and the senders of no message. -/
theorem different_times_listed :
    AggregatesListed sampleDb oneAggregate (sampleTables 1 2) ∧
      BalancesListed sampleDb ⟨some "SOL", none, none, none⟩ (sampleTables 1 2) ∧
      CreditsListed sampleDb ⟨none, none, some 2, none⟩ (sampleTables 1 2) ∧
      StatsListed sampleDb searchStats (sampleTables 1 2) := by
  have hkeep : RequestsKeep sampleDb oneAggregate (sampleTables 1 2) := requestsKeep_of_clean _ _ _ (by decide)
  have hanti : ∀ a ∈ joinedAggregates oneAggregate (sampleTables 1 2),
      ∀ b ∈ joinedAggregates oneAggregate (sampleTables 1 2),
        byTime oneAggregate a b → byTime oneAggregate b a → a = b := by decide +kernel
  obtain ⟨hbalances, hcredits, haggregates, hstats, -⟩ := offset_pagination_iff sampleDb
  refine ⟨(haggregates _ _ (by decide) hkeep).2 ⟨by decide, ?_, ?_⟩, (hbalances _ _ (by decide)).2 (by decide),
    (hcredits _ _ (by decide)).2 (by decide), (hstats _ _ (by decide)).2 ⟨?_, by decide, ?_⟩⟩
  · exact Listing.distinct_of_nodup (by decide)
  · exact Listing.untied_of_antisymm (by decide) (by decide) hanti
  · rintro s hs hsplit
    obtain rfl := Option.some.inj hs
    exact absurd (straddles_lt hsplit) (by decide)
  · have hnone : ∀ a, a ∉ (statsListing sampleDb searchStats (sampleTables 1 2)).rows := fun _ => List.not_mem_nil
    exact Listing.untied_of_antisymm (by decide) List.nodup_nil fun a ha => absurd ha (hnone a)

/-- A balance is never listed, a second credit balance and a second aggregate of the same time may be missed, a far
page wraps around and so does page 0 of the credit balances. -/
theorem ties_missed :
    ¬ BalancesListed sampleDb ⟨none, none, none, none⟩ (sampleTables 1 1) ∧
      ¬ CreditsListed sampleDb ⟨none, none, some 1, none⟩ (sampleTables 1 1) ∧
      ¬ AggregatesListed sampleDb oneAggregate (sampleTables 1 1) ∧
      (BalancesQuery.offset ⟨none, none, some 1000, some 4294969⟩).toNat ≠ (4294969 - 1) * 1000 ∧
      (CreditBalancesQuery.offset ⟨none, none, none, some 0⟩).toNat ≠ 0 := by
  have hkeep : RequestsKeep sampleDb oneAggregate (sampleTables 1 1) := requestsKeep_of_clean _ _ _ (by decide)
  refine ⟨fun h => ?_, fun h => ?_, fun h => ?_, by decide, by decide⟩
  · have hnone := (balancesListed_iff _ _ _).1 h
    exact absurd hnone (by decide)
  · have hpage := (creditsListed_iff _ _ _ (by decide)).1 h
    exact absurd hpage.1 (by decide)
  · obtain ⟨-, -, -, huntied⟩ := (aggregatesListed_iff _ _ _ (by decide) hkeep).1 h
    -- the second page begins with an aggregate of the same time as the last one of the first page
    have hanswer : (aggregateListing oneAggregate (sampleTables 1 1)).Answers
        [⟨profileOf "name" 1, none⟩, ⟨profileOf "bio" 1, none⟩] := by
      refine ⟨List.Perm.refl _, ?_⟩
      have hsorted : List.Pairwise (byTime oneAggregate)
          [⟨profileOf "name" 1, none⟩, ⟨profileOf "bio" 1, none⟩] := by decide +kernel
      exact hsorted
    have htie : byTime oneAggregate ⟨profileOf "bio" 1, none⟩ ⟨profileOf "name" 1, none⟩ := by decide +kernel
    exact huntied _ hanswer 1 one_pos (by decide) _ _ rfl rfl htie

end Web

end AlephCore
