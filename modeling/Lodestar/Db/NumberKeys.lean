import Lodestar.Db.Repository
/-!
# NumberKeys — a bucket keyed by numbers, as a map of numbers

`Rows` says that a bucket of the store holds the rows of a map from numbers to values, and nothing else.  Eight big-endian
bytes keep the order of numbers, so a range query visits the numbers of the range in their order (`Rows.entries_eq`), and the
writes of the repository are those of the map.
-/
namespace Lodestar.Db

open Lib SortedMap
open scoped Lib.BigEndian

variable {V : Type} {repository : Repository V} {db : Store} {rows : SortedMap Nat Buffer}

/-! ## Keys -/

variable {n n' : Nat}

section

variable (hn : n < 256 ^ uintLen) (hn' : n' < 256 ^ uintLen)
include hn hn'

theorem encodeKey_number_lt_iff : repository.encodeKey (.number n) < repository.encodeKey (.number n') ↔ n < n' := by
  unfold Repository.encodeKey encodeKey
  rw [List.cons_lt_cons_iff]
  simp only [lt_irrefl, true_and, false_or]
  exact BigEndian.encode_lt_iff hn hn'

theorem encodeKey_number_le_iff : repository.encodeKey (.number n) ≤ repository.encodeKey (.number n') ↔ n ≤ n' := by
  rw [← not_lt, encodeKey_number_lt_iff hn' hn, Nat.not_lt]

theorem encodeKey_number_inj (h : repository.encodeKey (.number n) = repository.encodeKey (.number n')) : n = n' :=
  BigEndian.encode_inj hn hn' (List.cons.inj h).2

end

variable {n : Nat}

theorem lt_of_safe (h : n ≤ MAX_SAFE_INTEGER) : n < 256 ^ uintLen := by
  have hsafe : MAX_SAFE_INTEGER < 256 ^ uintLen := by decide
  omega

theorem toNumber_eq (h : n ≤ MAX_SAFE_INTEGER) : toNumber n = n := by
  have hlog : n.log2 - 52 = 0 := by
    by_cases hzero : n = 0
    · rw [hzero]
      rfl
    · have hlt : n < 2 ^ 53 := Nat.lt_of_le_of_lt h (by decide)
      have := (Nat.log2_lt hzero).2 hlt
      omega
  unfold toNumber
  rw [hlog]
  simp [Nat.mod_one]

theorem numberKey_encodeKey (h : n ≤ MAX_SAFE_INTEGER) : numberKey (repository.encodeKey (.number n)) = .number n := by
  have hdrop : (repository.encodeKey (.number n)).drop BUCKET_LENGTH = BigEndian.encode uintLen n := rfl
  unfold numberKey
  rw [hdrop, BigEndian.decode_encode (lt_of_safe h), toNumber_eq h]

/-! ## Ranges of numbers -/

def numberOptions (opts : FilterOptions Nat) : FilterOptions Id where
  gt := opts.gt.map .number
  gte := opts.gte.map .number
  lt := opts.lt.map .number
  lte := opts.lte.map .number
  reverse := opts.reverse
  limit := opts.limit

def inNumberRange (opts : FilterOptions Nat) (n : Nat) : Bool :=
  (match opts.gt, opts.gte with
    | some gt, _ => decide (gt < n)
    | none, some gte => decide (gte ≤ n)
    | none, none => true) &&
  (match opts.lt, opts.lte with
    | some lt, _ => decide (n < lt)
    | none, some lte => decide (n ≤ lte)
    | none, none => true)

/-- Every bound fits the eight bytes of a key. -/
structure Fits (opts : FilterOptions Nat) : Prop where
  gt : ∀ n ∈ opts.gt, n < 256 ^ uintLen
  gte : ∀ n ∈ opts.gte, n < 256 ^ uintLen
  lt : ∀ n ∈ opts.lt, n < 256 ^ uintLen
  lte : ∀ n ∈ opts.lte, n < 256 ^ uintLen

theorem given_number (bound : Option Nat) : Repository.given (bound.map Id.number) = bound.map .number := by
  cases bound <;> rfl

theorem bucket_le_encodeKey (n : Nat) : repository.encodeKey (.bytes []) ≤ repository.encodeKey (.number n) := by
  rw [← not_lt]
  unfold Repository.encodeKey encodeKey
  rw [List.cons_lt_cons_iff]
  rintro (hlt | ⟨-, hnil⟩)
  · exact lt_irrefl _ hlt
  · exact List.not_lt_nil _ hnil

theorem encodeKey_lt_nextBucket (hbucket : repository.bucket.value + 1 < 256) (n : Nat) :
    repository.encodeKey (.number n) < encodeKey (repository.bucket.value + 1) (.bytes []) := by
  unfold Repository.encodeKey encodeKey
  rw [List.cons_lt_cons_iff]
  left
  rw [UInt8.lt_iff_toNat_lt, UInt8.toNat_ofNat', UInt8.toNat_ofNat']
  omega

theorem Bucket.succ_value_lt (bucket : Bucket) : bucket.value + 1 < 256 := by
  cases bucket <;> decide

theorem inRange_encodeKey {opts : FilterOptions Nat} (hfits : Fits opts) (hn : n < 256 ^ uintLen) :
    LevelDbController.inRange (repository.dbFilterOptions (numberOptions opts)) (repository.encodeKey (.number n)) =
      inNumberRange opts n := by
  have hlow : repository.encodeKey (.bytes []) ≤ repository.encodeKey (.number n) := bucket_le_encodeKey n
  have hhigh := encodeKey_lt_nextBucket repository.bucket.succ_value_lt n
  unfold LevelDbController.inRange Repository.dbFilterOptions numberOptions inNumberRange
  simp only [given_number]
  obtain ⟨gt, gte, lt, lte, reverse, limit⟩ := opts
  obtain ⟨hgt, hgte, hlt, hlte⟩ := hfits
  rcases gt with _ | gt <;> rcases gte with _ | gte <;> rcases lt with _ | lt <;> rcases lte with _ | lte <;> dsimp only at * <;>
    simp_all [encodeKey_number_lt_iff, encodeKey_number_le_iff]

/-! ## Rows -/

/-- The bucket holds these rows under the keys of their numbers, and no other key. -/
structure Rows (repository : Repository V) (db : Store) (rows : SortedMap Nat Buffer) : Prop where
  safe : ∀ e ∈ rows.entries, e.1 ≤ MAX_SAFE_INTEGER
  get? : ∀ key, InBucket repository.bucket.value key → ∀ value,
    db.get? key = some value ↔ ∃ n, key = repository.encodeKey (.number n) ∧ rows.get? n = some value

namespace Rows

variable {n : Nat}

theorem safe_of_get? (h : Rows repository db rows) {value : Buffer} (hn : rows.get? n = some value) :
    n ≤ MAX_SAFE_INTEGER :=
  h.safe _ (get?_eq_some_iff.1 hn)

theorem getBinary_eq (h : Rows repository db rows) (hn : n < 256 ^ uintLen) :
    repository.getBinary db (.number n) = rows.get? n := by
  refine Option.ext fun value => ?_
  unfold Repository.getBinary LevelDbController.get
  rw [h.get? (repository.encodeKey (.number n)) (inBucket_encodeKey _ _)]
  constructor
  · rintro ⟨n', hkey, hget⟩
    rw [encodeKey_number_inj hn (lt_of_safe (h.safe_of_get? hget)) hkey]
    exact hget
  · intro hget
    exact ⟨n, rfl, hget⟩

theorem empty : Rows repository SortedMap.empty SortedMap.empty where
  safe e he := absurd he List.not_mem_nil
  get? key _ value := by
    constructor
    · intro h
      cases h
    · rintro ⟨n, -, h⟩
      cases h

/-! ## Range queries -/

def entries (rows : SortedMap Nat Buffer) (opts : FilterOptions Nat) : List (Nat × Buffer) :=
  let found := rows.entries.filter (fun e => inNumberRange opts e.1)
  let found := if opts.reverse then found.reverse else found
  match opts.limit with
  | none => found
  | some limit => found.take limit

variable {opts : FilterOptions Nat}

theorem mem_of_mem_entries {e : Nat × Buffer} (he : e ∈ entries rows opts) :
    e ∈ rows.entries ∧ inNumberRange opts e.1 = true := by
  have hmem : e ∈ rows.entries.filter (fun e => inNumberRange opts e.1) := by
    unfold entries at he
    have hdir : e ∈ (if opts.reverse then (rows.entries.filter (fun e => inNumberRange opts e.1)).reverse
        else rows.entries.filter (fun e => inNumberRange opts e.1)) := by
      cases hlimit : opts.limit with
      | none =>
        rw [hlimit] at he
        exact he
      | some limit =>
        rw [hlimit] at he
        exact List.mem_of_mem_take he
    cases hreverse : opts.reverse with
    | false => simpa [hreverse] using hdir
    | true => simpa [hreverse] using hdir
  rw [List.mem_filter] at hmem
  exact hmem

theorem filter_inRange (h : Rows repository db rows) (hfits : Fits opts) :
    db.entries.filter (fun e => LevelDbController.inRange (repository.dbFilterOptions (numberOptions opts)) e.1) =
      (rows.entries.filter (fun e => inNumberRange opts e.1)).map fun e => (repository.encodeKey (.number e.1), e.2) := by
  have hsafe : ∀ {n value}, (n, value) ∈ rows.entries → n < 256 ^ uintLen := fun hmem => lt_of_safe (h.safe _ hmem)
  have hsorted : ((rows.entries.filter (fun e => inNumberRange opts e.1)).map
      fun e => (repository.encodeKey (.number e.1), e.2)).Pairwise (fun a b => a.1 < b.1) := by
    rw [List.pairwise_map]
    refine (rows.sorted.filter _).imp_of_mem fun ha hb hab => ?_
    exact (encodeKey_number_lt_iff (hsafe (List.mem_of_mem_filter ha)) (hsafe (List.mem_of_mem_filter hb))).2 hab
  refine filter_entries_eq hsorted fun key value => ?_
  rw [List.mem_map]
  constructor
  · rintro ⟨hread, hrange⟩
    have hbucket := repository.inBucket_of_inRange hrange
    obtain ⟨n, rfl, hget⟩ := (h.get? key hbucket value).1 hread
    have hrow := get?_eq_some_iff.1 hget
    rw [inRange_encodeKey hfits (hsafe hrow)] at hrange
    exact ⟨(n, value), List.mem_filter.2 ⟨hrow, hrange⟩, rfl⟩
  · rintro ⟨⟨n, value'⟩, hmem, heq⟩
    obtain ⟨rfl, rfl⟩ := Prod.mk.inj heq
    obtain ⟨hrow, hrange⟩ := List.mem_filter.1 hmem
    rw [inRange_encodeKey hfits (hsafe hrow)]
    exact ⟨(h.get? _ (inBucket_encodeKey _ _) _).2 ⟨n, rfl, get?_eq_some_iff.2 hrow⟩, hrange⟩

theorem dbFilterOptions_number (repository : Repository V) (opts : FilterOptions Nat) :
    (repository.dbFilterOptions (numberOptions opts)).reverse = opts.reverse ∧
      (repository.dbFilterOptions (numberOptions opts)).limit = opts.limit := by
  obtain ⟨gt, gte, lt, lte, reverse, limit⟩ := opts
  cases gt <;> cases gte <;> exact ⟨rfl, rfl⟩

theorem entries_eq (h : Rows repository db rows) (hfits : Fits opts) :
    LevelDbController.entries db (repository.dbFilterOptions (numberOptions opts)) =
      (entries rows opts).map fun e => (repository.encodeKey (.number e.1), e.2) := by
  obtain ⟨hreverse, hlimit⟩ := dbFilterOptions_number repository opts
  unfold LevelDbController.entries entries
  rw [hreverse, hlimit, h.filter_inRange hfits]
  cases opts.reverse <;> cases opts.limit <;> simp

theorem keys_eq (h : Rows repository db rows) (hdecode : repository.decodeKey = numberKey) (hfits : Fits opts) :
    repository.keys db (numberOptions opts) = (entries rows opts).map fun e => .number e.1 := by
  unfold Repository.keys LevelDbController.keys
  rw [h.entries_eq hfits, hdecode, List.map_map, List.map_map]
  refine List.map_congr_left fun e he => ?_
  exact numberKey_encodeKey (h.safe e (mem_of_mem_entries he).1)

theorem entries_one (rows : SortedMap Nat Buffer) (reverse : Bool) : entries rows { reverse := reverse, limit := some 1 } =
    (if reverse then rows.entries.reverse else rows.entries).take 1 := by
  have hall : rows.entries.filter (fun e => inNumberRange { reverse := reverse, limit := some 1 } e.1) = rows.entries :=
    List.filter_eq_self.2 fun _ _ => rfl
  unfold entries
  rw [hall]

theorem fits_one (reverse : Bool) : Fits { reverse := reverse, limit := some 1 } := by constructor <;> simp

section

variable (h : Rows repository db rows)
include h

theorem lastKey_eq (hdecode : repository.decodeKey = numberKey) :
    repository.lastKey db = rows.entries.getLast?.map fun e => .number e.1 := by
  have hkeys := h.keys_eq hdecode (fits_one true)
  rw [entries_one, if_pos rfl] at hkeys
  show (repository.keys db (numberOptions { reverse := true, limit := some 1 })).head? = _
  rw [hkeys, List.head?_map, List.head?_take, List.head?_reverse]
  simp

theorem values_eq (hfits : Fits opts) :
    repository.values db (numberOptions opts) = ((entries rows opts).map (·.2)).mapM repository.decodeValue := by
  unfold Repository.values LevelDbController.values
  rw [h.entries_eq hfits, List.map_map]
  rfl

theorem firstOf_eq (reverse : Bool) :
    (repository.values db (numberOptions { reverse := reverse, limit := some 1 })).map List.head? =
      (((if reverse then rows.entries.reverse else rows.entries).map (·.2)).head?).elim (.ok none) fun value =>
        (repository.decodeValue value).map some := by
  rw [h.values_eq (fits_one reverse), entries_one]
  cases (if reverse then rows.entries.reverse else rows.entries) with
  | nil => rfl
  | cons e rest =>
    show ([e.2].mapM repository.decodeValue).map List.head? = (repository.decodeValue e.2).map some
    rw [List.mapM_cons, List.mapM_nil]
    cases repository.decodeValue e.2 <;> rfl

theorem lastValue_eq : repository.lastValue db = ((rows.entries.map (·.2)).getLast?).elim (.ok none) fun value =>
      (repository.decodeValue value).map some := by
  rw [← List.head?_reverse, ← List.map_reverse]
  exact h.firstOf_eq true

theorem valuesStream_eq (hfits : Fits opts) :
    repository.valuesStream db (numberOptions opts) = ((entries rows opts).map (·.2)).map repository.decodeValue := by
  unfold Repository.valuesStream LevelDbController.values
  rw [h.entries_eq hfits, List.map_map, List.map_map, List.map_map]
  rfl

/-! ## Writes -/

theorem frame {p : Buffer → Prop} {update : Store → Store} (hupdate : WritesOnly p update)
    (hp : ∀ key, InBucket repository.bucket.value key → ¬ p key) : Rows repository (update db) rows where
  safe := h.safe
  get? key hkey value := by
    rw [hupdate db key (hp key hkey)]
    exact h.get? key hkey value

theorem writeRow (hn : n ≤ MAX_SAFE_INTEGER) {db' : Store} {rows' : SortedMap Nat Buffer}
    (hwritten : db'.get? (repository.encodeKey (.number n)) = rows'.get? n)
    (hdb : ∀ key, key ≠ repository.encodeKey (.number n) → db'.get? key = db.get? key)
    (hrows : ∀ n', n' ≠ n → rows'.get? n' = rows.get? n') : Rows repository db' rows' where
  safe := by
    rintro ⟨n', value⟩ he
    by_cases hnn : n' = n
    · exact hnn ▸ hn
    · exact h.safe_of_get? ((hrows n' hnn).symm.trans (get?_eq_some_iff.2 he))
  get? key hkey value := by
    by_cases heq : key = repository.encodeKey (.number n)
    · subst heq
      rw [hwritten]
      constructor
      · exact fun hvalue => ⟨n, rfl, hvalue⟩
      · rintro ⟨n', hkey', hget⟩
        by_cases hnn : n' = n
        · rwa [hnn] at hget
        · rw [hrows n' hnn] at hget
          exact absurd (encodeKey_number_inj (lt_of_safe hn) (lt_of_safe (h.safe_of_get? hget)) hkey').symm hnn
    · rw [hdb key heq, h.get? key hkey]
      refine exists_congr fun n' => and_congr_right fun hkey' => ?_
      have hnn : n' ≠ n := by
        rintro rfl
        exact heq hkey'
      rw [hrows n' hnn]

end

theorem putBinary (h : Rows repository db rows) (hn : n ≤ MAX_SAFE_INTEGER) (value : Buffer) :
    Rows repository (repository.putBinary db (.number n) value) (rows.insert n value) := by
  unfold Repository.putBinary LevelDbController.put
  refine h.writeRow hn ?_ (fun key hkey => ?_) fun n' hnn => ?_
  · rw [get?_insert, get?_insert, if_pos rfl, if_pos rfl]
  · rw [get?_insert, if_neg hkey]
  · rw [get?_insert, if_neg hnn]

theorem delete (h : Rows repository db rows) (hn : n ≤ MAX_SAFE_INTEGER) :
    Rows repository (repository.delete db (.number n)) (rows.erase n) := by
  unfold Repository.delete LevelDbController.delete
  refine h.writeRow hn ?_ (fun key hkey => ?_) fun n' hnn => ?_
  · rw [get?_erase, get?_erase, if_pos rfl, if_pos rfl]
  · rw [get?_erase, if_neg hkey]
  · rw [get?_erase, if_neg hnn]

theorem batchPutBinary (h : Rows repository db rows) {items : List (Nat × Buffer)} (hsafe : ∀ item ∈ items, item.1 ≤ MAX_SAFE_INTEGER) :
    Rows repository (repository.batchPutBinary db (items.map fun item => (.number item.1, item.2)))
      (items.foldl (fun rows item => rows.insert item.1 item.2) rows) := by
  unfold Repository.batchPutBinary LevelDbController.batchPut
  rw [List.map_map, List.foldl_map]
  exact List.foldl_rel h fun item hitem _ _ h => h.putBinary (hsafe item hitem) item.2

theorem batchPut (h : Rows repository db rows) {items : List (Nat × V)} (hsafe : ∀ item ∈ items, item.1 ≤ MAX_SAFE_INTEGER) :
    Rows repository (repository.batchPut db (items.map fun item => (.number item.1, item.2)))
      ((items.map fun item => (item.1, repository.encodeValue item.2)).foldl (fun rows item => rows.insert item.1 item.2) rows) := by
  have hrows : ∀ item ∈ items.map (fun item => (item.1, repository.encodeValue item.2)), item.1 ≤ MAX_SAFE_INTEGER := by
    intro item hitem
    obtain ⟨source, hsource, rfl⟩ := List.mem_map.1 hitem
    exact hsafe source hsource
  have hput := h.batchPutBinary hrows
  unfold Repository.batchPut
  rw [List.map_map] at hput ⊢
  exact hput

theorem batchDelete (h : Rows repository db rows) {ns : List Nat} (hsafe : ∀ n ∈ ns, n ≤ MAX_SAFE_INTEGER) :
    Rows repository (repository.batchDelete db (ns.map .number)) (ns.foldl SortedMap.erase rows) := by
  unfold Repository.batchDelete LevelDbController.batchDelete
  rw [List.map_map, List.foldl_map]
  exact List.foldl_rel h fun n hn _ _ h => h.delete (hsafe n hn)

end Rows

end Lodestar.Db
