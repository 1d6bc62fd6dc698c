import Lodestar.Lib.OrderedMap
/-!
# KeyIndex — the places of the keys of a list

A map indexes a list where it reads each key of the list as its place, and no other key.  The list has each key once then.  An index
of a list answers for every list that starts it, once the places past its end are left out (`Indexes.filter_eq`).
-/
namespace Lib

variable {κ : Type} [DecidableEq κ]

/-- The map reads each key of the list as its place, and no other key. -/
structure Indexes (m : OrderedMap κ Nat) (keys : List κ) : Prop where
  get?_iff : ∀ k i, m.get? k = some i ↔ keys[i]? = some k
  size : m.size = keys.length

namespace Indexes

variable {m : OrderedMap κ Nat} {keys : List κ} {k : κ} {i : Nat}

theorem empty : Indexes (OrderedMap.empty : OrderedMap κ Nat) [] := by
  constructor
  · intro k i
    simp [OrderedMap.get?, OrderedMap.empty]
  · rfl

theorem get?_eq_none (h : Indexes m keys) (hk : k ∉ keys) : m.get? k = none := by
  rw [Option.eq_none_iff_forall_ne_some]
  intro i hi
  exact hk (List.mem_of_getElem? ((h.get?_iff k i).1 hi))

theorem set_known (h : Indexes m keys) (hk : keys[i]? = some k) : Indexes (m.set k i) keys := by
  have hget := (h.get?_iff k i).2 hk
  constructor
  · intro k' j
    rw [OrderedMap.get?_set]
    by_cases heq : k' = k
    · rw [if_pos heq, heq, ← hget]
      exact h.get?_iff k j
    · rw [if_neg heq]
      exact h.get?_iff k' j
  · have hhas : m.has k = true := by
      unfold OrderedMap.has
      rw [hget]
      rfl
    have hkeys := OrderedMap.keys_set m k i
    rw [if_pos hhas] at hkeys
    have hlength := congrArg List.length hkeys
    rw [List.length_map, List.length_map] at hlength
    exact hlength.trans h.size

theorem set_new (h : Indexes m keys) (hk : k ∉ keys) : Indexes (m.set k keys.length) (keys ++ [k]) := by
  have hnone := h.get?_eq_none hk
  constructor
  · intro k' j
    rw [OrderedMap.get?_set]
    by_cases heq : k' = k
    · subst heq
      rw [if_pos rfl, Option.some_inj]
      constructor
      · rintro rfl
        simp
      · intro hj
        by_contra hne
        by_cases hlt : j < keys.length
        · rw [List.getElem?_append_left hlt] at hj
          exact hk (List.mem_of_getElem? hj)
        · rw [List.getElem?_eq_none (by rw [List.length_append, List.length_singleton]; omega)] at hj
          cases hj
    · rw [if_neg heq, h.get?_iff k' j]
      constructor
      · intro hj
        rw [List.getElem?_append_left (List.getElem?_eq_some_iff.1 hj).1]
        exact hj
      · intro hj
        by_cases hlt : j < keys.length
        · rwa [List.getElem?_append_left hlt] at hj
        · rw [List.getElem?_append_right (by omega), List.getElem?_singleton] at hj
          split at hj
          · exact absurd (Option.some.inj hj).symm heq
          · cases hj
  · have hhas : m.has k = false := by
      unfold OrderedMap.has
      rw [hnone]
      rfl
    have hentries := congrArg List.length (OrderedMap.entries_set_new hhas keys.length)
    rw [List.length_append, List.length_singleton] at hentries
    have hsize : (m.set k keys.length).size = m.size + 1 := hentries
    rw [hsize, h.size, List.length_append, List.length_singleton]

/-- **The index of a longer list finds a key in a list that starts it**, as a scan of that list does. -/
theorem filter_eq (h : Indexes m keys) {start : List κ} (hstart : start <+: keys) (k : κ) :
    (m.get? k).filter (· < start.length) = start.findIdx? fun other => decide (other = k) := by
  obtain ⟨rest, hrest⟩ := hstart
  have hplace : ∀ i < start.length, (keys[i]? = some k ↔ start[i]? = some k) := by
    intro i hi
    rw [← hrest, List.getElem?_append_left hi]
  cases hfind : start.findIdx? fun other => decide (other = k) with
  | none =>
    rw [Option.filter_eq_none_iff]
    intro i hi hlt
    rw [decide_eq_true_iff] at hlt
    have hmem := List.mem_of_getElem? ((hplace i hlt).1 ((h.get?_iff k i).1 hi))
    have hno := List.findIdx?_eq_none_iff.1 hfind k hmem
    simp at hno
  | some i =>
    obtain ⟨hi, hkey, -⟩ := List.findIdx?_eq_some_iff_getElem.1 hfind
    rw [decide_eq_true_iff] at hkey
    rw [Option.filter_eq_some_iff, decide_eq_true_iff]
    refine ⟨(h.get?_iff k i).2 ((hplace i hi).2 ?_), hi⟩
    rw [List.getElem?_eq_getElem hi, hkey]

end Indexes

end Lib
