import Lodestar.Lib.Fallible
import Lodestar.Db.Repository
/-!
# StoredValues — a repository as the values it stores

A repository that is written by `add` alone is a map from ids to values, each value under its own id, and gives its values in
the order of their ids.  A bucket of the store that is written so answers as the map does: `values_of_adds`.
-/
namespace Lodestar.Db

open Lib SortedMap
open scoped Lib.BigEndian

structure StoredValues (κ V : Type) [LinearOrder κ] (getId : V → κ) where
  rows : SortedMap κ V
  ids : ∀ row ∈ rows.entries, getId row.2 = row.1

namespace StoredValues

variable {κ V : Type} [LinearOrder κ] {getId : V → κ}

def empty : StoredValues κ V getId := ⟨SortedMap.empty, fun _ hrow => absurd hrow List.not_mem_nil⟩

section

variable (stored : StoredValues κ V getId)

def add (value : V) : StoredValues κ V getId where
  rows := stored.rows.insert (getId value) value
  ids row hrow := by
    rcases mem_insert.1 hrow with rfl | ⟨-, hrow⟩
    · rfl
    · exact stored.ids row hrow

def has (id : κ) : Bool := (stored.rows.get? id).isSome

def values (limit : Option Nat) : List V :=
  let found := stored.rows.entries.map (·.2)
  match limit with
  | none => found
  | some limit => found.take limit

end

variable {stored : StoredValues κ V getId}

theorem values_sublist (limit : Option Nat) : (stored.values limit).Sublist (stored.values none) := by
  cases limit with
  | none => exact .refl _
  | some limit => exact List.take_sublist limit _

theorem map_values : (stored.values none).map getId = stored.rows.entries.map (·.1) := by
  show (stored.rows.entries.map (·.2)).map getId = _
  rw [List.map_map]
  exact List.map_congr_left stored.ids

theorem nodup_ids (limit : Option Nat) : ((stored.values limit).map getId).Nodup := by
  have hnodup := stored.rows.nodup_keys
  rw [← map_values] at hnodup
  exact hnodup.sublist ((values_sublist limit).map getId)

theorem mem_values_add {value v : V} (h : v ∈ (stored.add value).values none) : v = value ∨ v ∈ stored.values none := by
  obtain ⟨row, hrow, rfl⟩ := List.mem_map.1 h
  rcases mem_insert.1 hrow with rfl | ⟨-, hrow⟩
  · exact .inl rfl
  · exact .inr (List.mem_map_of_mem hrow)

end StoredValues

/-! ## In a bucket of the store -/

section

variable {κ V : Type} [LinearOrder κ] {getId : V → κ} {repository : Repository V} {toId : κ → Id} {db : Store}
  {stored : StoredValues κ V getId}

/-- The bucket holds these values under the keys of their ids, which are in order, and no other key. -/
structure Stores (repository : Repository V) (toId : κ → Id) (db : Store) (stored : StoredValues κ V getId) : Prop where
  ordered : ∀ a ∈ stored.rows.entries, ∀ b ∈ stored.rows.entries, a.1 < b.1 →
    repository.encodeKey (toId a.1) < repository.encodeKey (toId b.1)
  get? : ∀ key, InBucket repository.bucket.value key → ∀ bytes, db.get? key = some bytes ↔
    ∃ row ∈ stored.rows.entries, key = repository.encodeKey (toId row.1) ∧ bytes = repository.encodeValue row.2

theorem inRange_limit (limit : Option Nat) (id : Id) :
    LevelDbController.inRange (repository.dbFilterOptions { limit := limit }) (repository.encodeKey id) = true := by
  have hlow : repository.encodeKey (.bytes []) ≤ repository.encodeKey id := by
    rw [← not_lt]
    unfold Repository.encodeKey encodeKey
    rw [List.cons_lt_cons_iff]
    rintro (hlt | ⟨-, hnil⟩)
    · exact lt_irrefl _ hlt
    · exact List.not_lt_nil _ hnil
  have hhigh : repository.encodeKey id < encodeKey (repository.bucket.value + 1) (.bytes []) := by
    have hbucket : repository.bucket.value + 1 < 256 := by
      cases repository.bucket <;> decide
    unfold Repository.encodeKey encodeKey
    rw [List.cons_lt_cons_iff]
    left
    rw [UInt8.lt_iff_toNat_lt, UInt8.toNat_ofNat', UInt8.toNat_ofNat']
    omega
  unfold LevelDbController.inRange Repository.dbFilterOptions Repository.given
  simp [hlow, hhigh]

theorem Stores.filter_inRange (h : Stores repository toId db stored) (limit : Option Nat) :
    db.entries.filter (fun e => LevelDbController.inRange (repository.dbFilterOptions { limit := limit }) e.1) =
      stored.rows.entries.map fun row => (repository.encodeKey (toId row.1), repository.encodeValue row.2) := by
  have hsorted : (stored.rows.entries.map fun row => (repository.encodeKey (toId row.1), repository.encodeValue row.2)).Pairwise
      (fun a b => a.1 < b.1) := by
    rw [List.pairwise_map]
    exact stored.rows.sorted.imp_of_mem fun ha hb hab => h.ordered _ ha _ hb hab
  refine filter_entries_eq hsorted fun key bytes => ?_
  rw [List.mem_map]
  constructor
  · rintro ⟨hread, hrange⟩
    have hbucket := Repository.inBucket_of_inRange hrange
    obtain ⟨row, hrow, rfl, rfl⟩ := (h.get? key hbucket bytes).1 hread
    exact ⟨row, hrow, rfl⟩
  · rintro ⟨row, hrow, heq⟩
    obtain ⟨rfl, rfl⟩ := Prod.mk.inj heq
    exact ⟨(h.get? _ (inBucket_encodeKey _ _) _).2 ⟨row, hrow, rfl, rfl⟩, inRange_limit limit _⟩

theorem Stores.values_eq (h : Stores repository toId db stored)
    (hdecode : ∀ value, repository.decodeValue (repository.encodeValue value) = .ok value) (limit : Option Nat) :
    repository.values db { limit := limit } = .ok (stored.values limit) := by
  have hoptions : (repository.dbFilterOptions { limit := limit }).reverse = false ∧
      (repository.dbFilterOptions { limit := limit }).limit = limit := ⟨rfl, rfl⟩
  have hrows : LevelDbController.values db (repository.dbFilterOptions { limit := limit }) =
      (stored.values limit).map repository.encodeValue := by
    unfold LevelDbController.values LevelDbController.entries
    rw [h.filter_inRange limit, hoptions.1, hoptions.2]
    cases limit with
    | none => simp [StoredValues.values, Function.comp_def]
    | some limit => simp [StoredValues.values, Function.comp_def]
  unfold Repository.values
  rw [hrows]
  exact mapM_map _ fun value _ => hdecode value

/-- The ids are moreover among the known ones. -/
structure StoresKnown (known : κ → Prop) (repository : Repository V) (toId : κ → Id) (db : Store) (stored : StoredValues κ V getId) : Prop
    extends Stores repository toId db stored where
  known : ∀ row ∈ stored.rows.entries, known row.1

theorem StoresKnown.put {known : κ → Prop} (h : StoresKnown known repository toId db stored)
    (hordered : ∀ a b, known a → known b → a < b → repository.encodeKey (toId a) < repository.encodeKey (toId b)) {value : V}
    (hvalue : known (getId value)) :
    StoresKnown known repository toId (repository.put db (toId (getId value)) value) (stored.add value) := by
  have hrows : ∀ row ∈ (stored.add value).rows.entries, known row.1 := by
    intro row hrow
    rcases mem_insert.1 hrow with rfl | ⟨-, hrow⟩
    · exact hvalue
    · exact h.known row hrow
  have hne : ∀ a, known a → a ≠ getId value → repository.encodeKey (toId (getId value)) ≠ repository.encodeKey (toId a) := by
    intro a ha hne
    rcases lt_or_gt_of_ne hne with hlt | hlt
    · exact (hordered _ _ ha hvalue hlt).ne'
    · exact (hordered _ _ hvalue ha hlt).ne
  refine ⟨⟨fun a ha b hb => hordered _ _ (hrows a ha) (hrows b hb), fun key hkey bytes => ?_⟩, hrows⟩
  show (SortedMap.insert db _ _).get? key = some bytes ↔ ∃ row ∈ (stored.rows.insert (getId value) value).entries, _
  simp only [get?_insert, mem_insert, or_and_right, exists_or, exists_eq_left]
  split
  · rename_i heq
    subst heq
    simp only [Option.some.injEq, true_and]
    constructor
    · exact fun hbytes => .inl hbytes.symm
    · rintro (hbytes | ⟨row, ⟨hrow, hmem⟩, hsame, -⟩)
      · exact hbytes.symm
      · exact absurd hsame (hne row.1 (h.known row hmem) hrow)
  · rename_i hother
    rw [h.get? key hkey bytes]
    constructor
    · rintro ⟨row, hrow, hsame, hbytes⟩
      refine .inr ⟨row, ⟨fun heq => hother ?_, hrow⟩, hsame, hbytes⟩
      rw [hsame, heq]
    · rintro (⟨hsame, -⟩ | ⟨row, ⟨-, hrow⟩, hrest⟩)
      · exact absurd hsame hother
      · exact ⟨row, hrow, hrest⟩

/-- **Whatever is added to an empty bucket is read back from its bytes**: of each id the value that was added last, in the order of
the ids, and with a limit the first of them. -/
theorem values_of_adds (hid : ∀ value, repository.getId value = .ok (toId (getId value)))
    (hdecode : ∀ value, repository.decodeValue (repository.encodeValue value) = .ok value)
    (hempty : ∀ key, InBucket repository.bucket.value key → db.get? key = none) {added : List V}
    (hordered : ∀ a ∈ added, ∀ b ∈ added, getId a < getId b →
      repository.encodeKey (toId (getId a)) < repository.encodeKey (toId (getId b))) (limit : Option Nat) :
    (added.foldlM (fun db value => repository.write db (.add value)) db >>= fun db => repository.values db { limit := limit }) =
      .ok ((added.foldl StoredValues.add (.empty : StoredValues κ V getId)).values limit) := by
  have hmono : ∀ a b, a ∈ added.map getId → b ∈ added.map getId → a < b →
      repository.encodeKey (toId a) < repository.encodeKey (toId b) := by
    intro _ _ ha hb hlt
    obtain ⟨a, hadded, rfl⟩ := List.mem_map.1 ha
    obtain ⟨b, hadded', rfl⟩ := List.mem_map.1 hb
    exact hordered a hadded b hadded' hlt
  have hstart : StoresKnown (· ∈ added.map getId) repository toId db (.empty : StoredValues κ V getId) := by
    refine ⟨⟨fun a ha => absurd ha List.not_mem_nil, fun key hkey bytes => ?_⟩, fun row hrow => absurd hrow List.not_mem_nil⟩
    rw [hempty key hkey]
    exact iff_of_false nofun fun ⟨row, hrow, _⟩ => absurd hrow List.not_mem_nil
  have hstep : ∀ (stored : StoredValues κ V getId) db value, StoresKnown (· ∈ added.map getId) repository toId db stored → value ∈ added →
      ∃ db', repository.write db (.add value) = .ok db' ∧ StoresKnown (· ∈ added.map getId) repository toId db' (stored.add value) := by
    intro stored db value h hvalue
    refine ⟨_, ?_, h.put hmono (List.mem_map_of_mem hvalue)⟩
    show Except.map _ (repository.getId value) = _
    rw [hid]
    rfl
  obtain ⟨db', hdb', hholds⟩ := foldlM_refines hstep added .empty db hstart
    (along_iff_split.2 fun before value after hsplit => hsplit ▸ List.mem_append_right _ List.mem_cons_self)
  rw [hdb']
  exact hholds.values_eq hdecode limit

end

def bytesRepository : Repository UInt8 where
  bucket := .phase0_exit
  encodeValue byte := [byte]
  decodeValue := fun
    | [byte] => .ok byte
    | _ => .error (.ssz "")
  getId byte := .ok (.bytes [byte])

theorem values_of_adds_three : ([3, 1, 3].foldlM (fun db byte => bytesRepository.write db (.add byte)) (SortedMap.empty : Store) >>=
    fun db => bytesRepository.values db { limit := some 2 }) = .ok [1, 3] := by
  have h := @values_of_adds UInt8 UInt8 _ id bytesRepository (fun byte => .bytes [byte]) SortedMap.empty (fun _ => rfl) (fun _ => rfl)
    (fun _ _ => rfl) [3, 1, 3] (fun _ _ _ _ hlt => .cons (.rel hlt)) (some 2)
  exact h.trans rfl

end Lodestar.Db
