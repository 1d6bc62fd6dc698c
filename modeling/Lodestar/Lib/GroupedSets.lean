import Lodestar.Lib.OrderedMap
/-!
# GroupedSets — a map from keys to sets

An element is put under a key, whose set is made when it is first needed, and is taken out again, with the key staying behind
(`erase`) or not (`discard`) when nothing is left under it.  What such a map says is the relation `Holds` of keys and elements.
-/
namespace Lib

abbrev GroupedSets (κ α : Type) := OrderedMap κ (List α)

namespace GroupedSets

variable {κ α : Type} [DecidableEq κ] [DecidableEq α] {m : GroupedSets κ α} {k k' : κ} {a a' : α}

section

variable (m : GroupedSets κ α)

def Holds (k : κ) (a : α) : Prop := ∃ set, m.get? k = some set ∧ a ∈ set

def NoEmpty : Prop := ∀ k, m.get? k ≠ some []

def addTo (set : List α) (a : α) : List α := if a ∈ set then set else set ++ [a]

def insert (k : κ) (a : α) : GroupedSets κ α :=
  match m.get? k with
  | some set => m.set k (addTo set a)
  | none => m.set k [a]

/-- Takes an element out; its set stays, also when it is empty. -/
def erase (k : κ) (a : α) : GroupedSets κ α :=
  match m.get? k with
  | none => m
  | some set => m.set k (set.filter fun b => decide (b ≠ a))

/-- Takes an element out, and the key with it when that leaves an empty set. -/
def discard (k : κ) (a : α) : GroupedSets κ α :=
  match m.get? k with
  | none => m
  | some set =>
    if set.filter (fun b => decide (b ≠ a)) = [] then m.delete k
    else m.set k (set.filter fun b => decide (b ≠ a))

end

omit [DecidableEq α] in
theorem holds_iff_of_get? {set : List α} (h : m.get? k = some set) : Holds m k a ↔ a ∈ set :=
  ⟨fun ⟨_, hget, ha⟩ => by rw [h] at hget; cases hget; exact ha, fun ha => ⟨set, h, ha⟩⟩

omit [DecidableEq α] in
theorem not_holds_of_get? (h : m.get? k = none) : ¬ Holds m k a := fun ⟨_, hget, _⟩ => by
  rw [h] at hget
  cases hget

omit [DecidableEq α] in
theorem not_holds_empty : ¬ Holds (OrderedMap.empty : GroupedSets κ α) k a := not_holds_of_get? rfl

omit [DecidableEq α] in
theorem noEmpty_empty : NoEmpty (OrderedMap.empty : GroupedSets κ α) := fun _ h => by cases h

theorem mem_addTo {set : List α} {b : α} : b ∈ addTo set a ↔ b ∈ set ∨ b = a := by
  unfold addTo
  split
  · rename_i ha
    refine ⟨.inl, fun h => h.elim id fun heq => ?_⟩
    rw [heq]
    exact ha
  · rw [List.mem_append, List.mem_singleton]

/-! ## What each of them holds -/

omit [DecidableEq α] in
theorem holds_set {set : List α} : Holds (m.set k set) k' a' ↔ (k' = k ∧ a' ∈ set) ∨ (k' ≠ k ∧ Holds m k' a') := by
  unfold Holds
  rw [OrderedMap.get?_set]
  by_cases hk : k' = k
  · simp [hk]
  · simp [hk]

omit [DecidableEq α] in
theorem holds_delete : Holds (m.delete k) k' a' ↔ k' ≠ k ∧ Holds m k' a' := by
  unfold Holds
  rw [OrderedMap.get?_delete]
  by_cases hk : k' = k
  · simp [hk]
  · simp [hk]

theorem holds_insert : Holds (m.insert k a) k' a' ↔ Holds m k' a' ∨ (k' = k ∧ a' = a) := by
  unfold insert
  split
  · rename_i set hget
    rw [holds_set, mem_addTo]
    by_cases hk : k' = k
    · subst hk
      simp [holds_iff_of_get? hget]
    · simp [hk]
  · rename_i hget
    rw [holds_set, List.mem_singleton]
    by_cases hk : k' = k
    · subst hk
      simp [not_holds_of_get? hget]
    · simp [hk]

theorem holds_erase : Holds (m.erase k a) k' a' ↔ Holds m k' a' ∧ ¬ (k' = k ∧ a' = a) := by
  unfold erase
  split
  · rename_i hget
    refine ⟨fun h => ⟨h, fun ⟨hk, _⟩ => ?_⟩, And.left⟩
    exact not_holds_of_get? (hk ▸ hget) h
  · rename_i set hget
    rw [holds_set, List.mem_filter, decide_eq_true_eq]
    by_cases hk : k' = k
    · subst hk
      simp [holds_iff_of_get? hget]
    · simp [hk]

theorem holds_discard : Holds (m.discard k a) k' a' ↔ Holds m k' a' ∧ ¬ (k' = k ∧ a' = a) := by
  rw [← holds_erase]
  unfold discard erase
  split
  · rfl
  · split
    · rename_i hempty
      rw [holds_delete, holds_set, hempty]
      simp
    · rfl

/-! ## Empty sets -/

theorem addTo_ne_nil (set : List α) (a : α) : addTo set a ≠ [] := List.ne_nil_of_mem (mem_addTo.2 (.inr rfl))

omit [DecidableEq α] in
theorem NoEmpty.set (h : NoEmpty m) {set : List α} (hset : set ≠ []) : NoEmpty (m.set k set) := by
  intro k' hget
  rw [OrderedMap.get?_set] at hget
  split at hget
  · exact hset (Option.some.inj hget)
  · exact h k' hget

omit [DecidableEq α] in
theorem NoEmpty.delete (h : NoEmpty m) : NoEmpty (m.delete k) := by
  intro k' hget
  rw [OrderedMap.get?_delete] at hget
  split at hget
  · cases hget
  · exact h k' hget

theorem NoEmpty.insert (h : NoEmpty m) : NoEmpty (m.insert k a) := by
  unfold GroupedSets.insert
  split
  · exact h.set (addTo_ne_nil _ _)
  · exact h.set (List.cons_ne_nil _ _)

theorem NoEmpty.discard (h : NoEmpty m) : NoEmpty (m.discard k a) := by
  unfold GroupedSets.discard
  split
  · exact h
  · split
    · exact h.delete
    · rename_i hset
      exact h.set hset

omit [DecidableEq α] in
theorem NoEmpty.mem_keys_iff (h : NoEmpty m) : k ∈ m.entries.map (·.1) ↔ ∃ a, Holds m k a := by
  rw [← OrderedMap.has_iff, OrderedMap.has, Option.isSome_iff_exists]
  constructor
  · rintro ⟨set, hget⟩
    obtain ⟨a, ha⟩ := List.exists_mem_of_ne_nil set fun hset => h k (hset ▸ hget)
    exact ⟨a, set, hget, ha⟩
  · rintro ⟨a, set, hget, -⟩
    exact ⟨set, hget⟩

end GroupedSets

end Lib
