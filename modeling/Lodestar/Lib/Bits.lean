import Mathlib.Data.Finset.Filter
import Mathlib.Data.Finset.Range
import Mathlib.Data.Finset.Dedup
import Mathlib.Data.Finset.Lattice.Lemmas
/-!
# Bits — an array of flags as the set of its set positions

`set` writes a flag and grows the array where the position lies past its end.  `mark` sets a list of positions one by one
and gives up at the first that is set already, keeping what it has set so far.
-/
namespace Lib.Bits

def ones (bits : List Bool) : Finset Nat := (Finset.range bits.length).filter (fun i => bits[i]? = some true)

@[simp] theorem mem_ones {bits : List Bool} {i : Nat} : i ∈ ones bits ↔ bits[i]? = some true := by
  unfold ones
  rw [Finset.mem_filter, Finset.mem_range]
  refine ⟨And.right, fun h => ⟨?_, h⟩⟩
  obtain ⟨hi, -⟩ := List.getElem?_eq_some_iff.1 h
  exact hi

@[simp] theorem ones_replicate (n : Nat) : ones (List.replicate n false) = ∅ := by
  ext i
  rw [mem_ones, List.getElem?_replicate]
  split <;> simp

def set (bits : List Bool) (i : Nat) : List Bool :=
  if i < bits.length then bits.set i true else bits ++ List.replicate (i - bits.length) false ++ [true]

@[simp] theorem ones_set (bits : List Bool) (i : Nat) : ones (set bits i) = insert i (ones bits) := by
  ext j
  rw [Finset.mem_insert, mem_ones, mem_ones]
  unfold set
  split
  · rename_i hi
    rw [List.getElem?_set]
    by_cases hij : i = j
    · subst hij
      simp [hi]
    · rw [if_neg hij]
      have hji : ¬ j = i := fun h => hij h.symm
      simp [hji]
  · rename_i hi
    rcases lt_trichotomy j i with hj | rfl | hj
    · have hji : ¬ j = i := Nat.ne_of_lt hj
      have hlast : j < (bits ++ List.replicate (i - bits.length) false).length := by
        rw [List.length_append, List.length_replicate]
        omega
      rw [List.getElem?_append_left hlast, List.getElem?_append]
      split
      · simp [hji]
      · rename_i hout
        rw [List.getElem?_replicate, List.getElem?_eq_none (by omega)]
        split <;> simp [hji]
    · have hlen : (bits ++ List.replicate (j - bits.length) false).length = j := by
        rw [List.length_append, List.length_replicate]
        omega
      rw [List.getElem?_append_right (by omega), hlen]
      simp
    · have hji : ¬ j = i := Nat.ne_of_gt hj
      have hlen : (bits ++ List.replicate (i - bits.length) false ++ [true]).length ≤ j := by
        rw [List.length_append, List.length_append, List.length_replicate, List.length_singleton]
        omega
      rw [List.getElem?_eq_none hlen, List.getElem?_eq_none (by omega)]
      simp [hji]

theorem ones_foldl_set : ∀ (positions : List Nat) (bits : List Bool),
    ones (positions.foldl set bits) = ones bits ∪ positions.toFinset
  | [], bits => by simp
  | p :: positions, bits => by
    rw [List.foldl_cons, ones_foldl_set positions, ones_set, List.toFinset_cons, Finset.insert_union, Finset.union_insert]

def mark (bits : List Bool) : List Nat → List Bool × Bool
  | [] => (bits, true)
  | p :: positions => if bits[p]? = some true then (bits, false) else mark (set bits p) positions

variable {s : Finset Nat}

theorem takeWhile_insert {p : Nat} : ∀ {positions : List Nat}, p ∉ positions →
    positions.takeWhile (fun q => decide (q ∉ insert p s)) = positions.takeWhile (fun q => decide (q ∉ s))
  | [], _ => rfl
  | q :: positions, h => by
    rw [List.mem_cons, not_or] at h
    have hq : (q ∉ insert p s) ↔ (q ∉ s) := by
      rw [Finset.mem_insert, not_or]
      exact ⟨And.right, fun hs => ⟨fun heq => h.1 heq.symm, hs⟩⟩
    rw [List.takeWhile_cons, List.takeWhile_cons, takeWhile_insert h.2]
    simp only [hq]

theorem ones_mark : ∀ (positions : List Nat) (bits : List Bool), positions.Nodup →
    ones (mark bits positions).1 = ones bits ∪ (positions.takeWhile (fun p => decide (p ∉ ones bits))).toFinset
  | [], bits, _ => by simp [mark]
  | p :: positions, bits, hnd => by
    have hnd' := List.nodup_cons.1 hnd
    unfold mark
    rw [List.takeWhile_cons]
    split
    · rename_i hp
      have hmem : p ∈ ones bits := mem_ones.2 hp
      simp [hmem]
    · rename_i hp
      have hmem : p ∉ ones bits := fun h => hp (mem_ones.1 h)
      rw [ones_mark positions (set bits p) hnd'.2, ones_set, takeWhile_insert hnd'.1]
      simp only [hmem, not_false_eq_true, decide_true, if_true, List.toFinset_cons]
      rw [Finset.insert_union, Finset.union_insert]

theorem mark_snd : ∀ (positions : List Nat) (bits : List Bool), positions.Nodup →
    ((mark bits positions).2 = true ↔ ∀ p ∈ positions, p ∉ ones bits)
  | [], bits, _ => by simp [mark]
  | p :: positions, bits, hnd => by
    have hnd' := List.nodup_cons.1 hnd
    unfold mark
    rw [List.forall_mem_cons]
    split
    · rename_i hp
      have hmem : p ∈ ones bits := mem_ones.2 hp
      simp [hmem]
    · rename_i hp
      have hmem : p ∉ ones bits := fun h => hp (mem_ones.1 h)
      rw [mark_snd positions (set bits p) hnd'.2, ones_set]
      constructor
      · intro h
        exact ⟨hmem, fun q hq hones => h q hq (Finset.mem_insert_of_mem hones)⟩
      · rintro ⟨-, h⟩ q hq hones
        rcases Finset.mem_insert.1 hones with rfl | hones
        · exact hnd'.1 hq
        · exact h q hq hones

/-- **`mark` sets nothing exactly when the first position is known**, or there is none. -/
theorem union_takeWhile_eq_iff : ∀ {positions : List Nat},
    s ∪ (positions.takeWhile (fun p => decide (p ∉ s))).toFinset = s ↔ ∀ p, positions.head? = some p → p ∈ s
  | [] => by simp
  | p :: positions => by
    by_cases hp : p ∈ s
    · simp [hp]
    · have hmem : p ∈ ((p :: positions).takeWhile (fun p => decide (p ∉ s))).toFinset := by simp [hp]
      refine iff_of_false (fun h => hp ?_) (fun h => hp (h p rfl))
      rw [← h]
      exact Finset.mem_union_right s hmem

end Lib.Bits
