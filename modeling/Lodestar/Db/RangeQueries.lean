import Lodestar.Db.Isolation
import Lodestar.Db.NumberKeys
/-!
# RangeQueries — the range queries of a repository whose ids are numbers

The rows of a range are read in the order of their numbers, among whatever other buckets hold.  A query answers with the numbers
themselves where `decodeKey` is overridden.  Five of the repositories with numbers as ids leave it as it is, and get the eight
bytes of a number for the number.
-/
namespace Lodestar.Db

open Lib SortedMap
open scoped Lib.BigEndian

variable {V : Type} {repository : Repository V} {db : Store}

/-! ## A bucket of numbers -/

/-- The keys of the bucket are those of safe integers.  The other buckets hold anything. -/
def HoldsNumbers (repository : Repository V) (db : Store) : Prop :=
  ∀ e ∈ db.entries, InBucket repository.bucket.value e.1 →
    ∃ n, n ≤ MAX_SAFE_INTEGER ∧ e.1 = repository.encodeKey (.number n)

def numberOf (key : Buffer) : Nat := BigEndian.decode (key.drop BUCKET_LENGTH)

variable {n : Nat}

theorem numberOf_encodeKey (h : n ≤ MAX_SAFE_INTEGER) : numberOf (repository.encodeKey (.number n)) = n :=
  BigEndian.decode_encode (lt_of_safe h)

theorem HoldsNumbers.exists_rows (h : HoldsNumbers repository db) : ∃ rows, Rows repository db rows := by
  have hmem : ∀ {e}, e ∈ db.entries.filter (fun e => decide (e.1.head? = some (UInt8.ofNat repository.bucket.value))) →
      ∃ n, n ≤ MAX_SAFE_INTEGER ∧ e.1 = repository.encodeKey (.number n) := by
    intro e he
    obtain ⟨hentry, hhead⟩ := List.mem_filter.1 he
    exact h e hentry (of_decide_eq_true hhead : e.1.head? = _)
  refine ⟨⟨(db.entries.filter fun e => decide (e.1.head? = some (UInt8.ofNat repository.bucket.value))).map
    fun e => (numberOf e.1, e.2), ?_⟩, ?_, ?_⟩
  · rw [List.pairwise_map]
    refine (db.sorted.filter _).imp_of_mem fun {e e'} he he' hlt => ?_
    obtain ⟨n, hn, heq⟩ := hmem he
    obtain ⟨n', hn', heq'⟩ := hmem he'
    rw [heq, heq', encodeKey_number_lt_iff (lt_of_safe hn) (lt_of_safe hn')] at hlt
    rw [heq, heq', numberOf_encodeKey hn, numberOf_encodeKey hn']
    exact hlt
  · intro e he
    obtain ⟨e', he', rfl⟩ := List.mem_map.1 he
    obtain ⟨n, hn, heq⟩ := hmem he'
    rw [heq, numberOf_encodeKey hn]
    exact hn
  · intro key hkey value
    simp only [get?_eq_some_iff, List.mem_map, Prod.mk.injEq]
    constructor
    · intro hentry
      have hhead : key.head? = some (UInt8.ofNat repository.bucket.value) := hkey
      have hfilter : (key, value) ∈ db.entries.filter fun e => decide (e.1.head? = some (UInt8.ofNat repository.bucket.value)) :=
        List.mem_filter.2 ⟨hentry, decide_eq_true hhead⟩
      obtain ⟨n, hn, heq⟩ := hmem hfilter
      refine ⟨n, heq, (key, value), hfilter, ?_, rfl⟩
      rw [show numberOf key = _ from congrArg numberOf heq, numberOf_encodeKey hn]
    · rintro ⟨n, rfl, e, he, hnumber, rfl⟩
      obtain ⟨n', hn', heq⟩ := hmem he
      rw [heq, numberOf_encodeKey hn'] at hnumber
      rw [← hnumber, ← heq]
      exact List.mem_of_mem_filter he

/-! ## Ranges -/

/-- At most one bound below and one above. -/
structure OneBound (opts : FilterOptions Nat) : Prop where
  lower : opts.gt = none ∨ opts.gte = none
  upper : opts.lt = none ∨ opts.lte = none

/-- The number lies between the bounds. -/
structure Within (opts : FilterOptions Nat) (n : Nat) : Prop where
  gt : ∀ bound ∈ opts.gt, bound < n
  gte : ∀ bound ∈ opts.gte, bound ≤ n
  lt : ∀ bound ∈ opts.lt, n < bound
  lte : ∀ bound ∈ opts.lte, n ≤ bound

def ordered (opts : FilterOptions Nat) (rows : List (Nat × Buffer)) : List (Nat × Buffer) :=
  let rows := if opts.reverse then rows.reverse else rows
  match opts.limit with
  | none => rows
  | some limit => rows.take limit

theorem inNumberRange_iff {opts : FilterOptions Nat} (h : OneBound opts) :
    inNumberRange opts n = true ↔ Within opts n := by
  obtain ⟨gt, gte, lt, lte, reverse, limit⟩ := opts
  obtain ⟨hlower, hupper⟩ := h
  have hwithin : Within ⟨gt, gte, lt, lte, reverse, limit⟩ n ↔ ((∀ bound ∈ gt, bound < n) ∧ ∀ bound ∈ gte, bound ≤ n) ∧
      (∀ bound ∈ lt, n < bound) ∧ ∀ bound ∈ lte, n ≤ bound :=
    ⟨fun ⟨hgt, hgte, hlt, hlte⟩ => ⟨⟨hgt, hgte⟩, hlt, hlte⟩, fun ⟨⟨hgt, hgte⟩, hlt, hlte⟩ => ⟨hgt, hgte, hlt, hlte⟩⟩
  rw [hwithin]
  unfold inNumberRange
  rw [Bool.and_eq_true]
  refine and_congr ?_ ?_
  · cases gt <;> cases gte <;> simp_all
  · cases lt <;> cases lte <;> simp_all

/-! ## Exact queries -/

/-- Every range query of a bucket of numbers answers with the rows in the range, in their order, and a key is read as the number
that it was written for. -/
def RangeQueriesExact (repository : Repository V) : Prop :=
  (∀ n ≤ MAX_SAFE_INTEGER, repository.decodeKey (repository.encodeKey (.number n)) = .number n) ∧
  ∀ db, HoldsNumbers repository db → ∀ opts, OneBound opts → Fits opts →
    ∃ rows : List (Nat × Buffer), rows.Pairwise (fun e e' => e.1 < e'.1) ∧
      (∀ n value, (n, value) ∈ rows ↔
        (n ≤ MAX_SAFE_INTEGER ∧ repository.getBinary db (.number n) = some value) ∧ Within opts n) ∧
      repository.keys db (numberOptions opts) = (ordered opts rows).map (fun e => .number e.1) ∧
      repository.values db (numberOptions opts) = ((ordered opts rows).map (·.2)).mapM repository.decodeValue ∧
      repository.entries db (numberOptions opts) =
        (ordered opts rows).mapM fun e => (repository.decodeValue e.2).map fun value => (.number e.1, value)

theorem Rows.mem_iff {rows : SortedMap Nat Buffer} (h : Rows repository db rows) {value : Buffer} :
    (n, value) ∈ rows.entries ↔ n ≤ MAX_SAFE_INTEGER ∧ repository.getBinary db (.number n) = some value := by
  constructor
  · intro hmem
    have hn := h.safe _ hmem
    refine ⟨hn, ?_⟩
    rw [h.getBinary_eq (lt_of_safe hn)]
    exact get?_eq_some_iff.2 hmem
  · rintro ⟨hn, hget⟩
    rw [h.getBinary_eq (lt_of_safe hn)] at hget
    exact get?_eq_some_iff.1 hget

theorem mapM_congr {α β : Type} {f g : α → Except DbError β} : ∀ {l : List α}, (∀ a ∈ l, f a = g a) → l.mapM f = l.mapM g
  | [], _ => rfl
  | a :: l, h => by
    rw [List.mapM_cons, List.mapM_cons, h a List.mem_cons_self, mapM_congr fun b hb => h b (List.mem_cons_of_mem a hb)]

theorem rangeQueriesExact_of_numberKey (hdecode : repository.decodeKey = numberKey) : RangeQueriesExact repository := by
  refine ⟨fun n hn => ?_, fun db hdb opts hone hfits => ?_⟩
  · rw [hdecode]
    exact numberKey_encodeKey hn
  · obtain ⟨rows, hrows⟩ := hdb.exists_rows
    refine ⟨rows.entries.filter (fun e => inNumberRange opts e.1), rows.sorted.filter _, fun n value => ?_,
      hrows.keys_eq hdecode hfits, hrows.values_eq hfits, ?_⟩
    · rw [List.mem_filter, hrows.mem_iff, inNumberRange_iff hone]
    · unfold Repository.entries
      rw [hrows.entries_eq hfits, List.mapM_map]
      refine mapM_congr fun e he => ?_
      rw [Function.comp_apply, hdecode, numberKey_encodeKey (hrows.safe e (Rows.mem_of_mem_entries he).1)]

theorem not_rangeQueriesExact_of_bytesKey (hdecode : repository.decodeKey = bytesKey) : ¬ RangeQueriesExact repository := by
  intro h
  have hzero := h.1 0 (Nat.zero_le _)
  rw [hdecode] at hzero
  cases hzero

def OverridesDecodeKey : RepositoryName → Prop
  | .blockArchive | .stateArchive | .depositDataRoot | .eth1Data | .bestUpdatePerCommitteePeriod
  | .lightclientFinalizedCheckpoint => True
  | .block | .pendingBlock | .aggregateAndProof | .attesterSlashing | .voluntaryExit | .proposerSlashing | .depositEvent
  | .lightClientInitProof | .lightClientSyncCommitteeProof => False

theorem decodeKey_repository (values : Values) (name : RepositoryName) :
    OverridesDecodeKey name ∧ (BeaconDb.repository values name).decodeKey = numberKey ∨
      ¬ OverridesDecodeKey name ∧ (BeaconDb.repository values name).decodeKey = bytesKey := by
  cases name <;> first | exact .inl ⟨trivial, rfl⟩ | exact .inr ⟨id, rfl⟩

/-- **The range queries of a repository are exact if and only if it overrides `decodeKey`.** -/
theorem rangeQueriesExact_iff (values : Values) (name : RepositoryName) :
    RangeQueriesExact (BeaconDb.repository values name) ↔ OverridesDecodeKey name := by
  rcases decodeKey_repository values name with ⟨hoverrides, hdecode⟩ | ⟨hnot, hdecode⟩
  · exact ⟨fun _ => hoverrides, fun _ => rangeQueriesExact_of_numberKey hdecode⟩
  · exact ⟨fun h => absurd h (not_rangeQueriesExact_of_bytesKey hdecode), fun h => absurd h hnot⟩

/-- The deposit events are kept by their indices, and the first key of one with the index 0 is eight zero bytes. -/
theorem firstKey_depositEvent :
    (BeaconDb.depositEvent BeaconDb.plainValues).firstKey
        ((BeaconDb.depositEvent BeaconDb.plainValues).putBinary SortedMap.empty (.number 0) []) =
      some (.bytes [0, 0, 0, 0, 0, 0, 0, 0]) ∧
    ¬ RangeQueriesExact (BeaconDb.repository BeaconDb.plainValues .depositEvent) := by
  refine ⟨rfl, fun h => ?_⟩
  have hzero := h.1 0 (Nat.zero_le _)
  cases hzero

end Lodestar.Db
