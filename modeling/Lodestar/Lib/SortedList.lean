import Mathlib.Data.List.Sort
/-!
# SortedList — stretches of a list that is sorted by a key

The entries whose key is at most a bound come first, as many as `countP` counts; what lies between two positions is what a
filter on positions keeps; and a test may be put to the entries before or after they are sorted.
-/
namespace Lib

variable {α : Type}

theorem filter_eq_drop_take {p : α → Bool} : ∀ (l : List α) (n m : Nat),
    (∀ (i : Nat) a, l[i]? = some a → (p a = true ↔ n ≤ i ∧ i < m)) → l.filter p = (l.take m).drop n
  | [], n, m, _ => by simp
  | a :: l, n, m, h => by
    have hhead := h 0 a rfl
    cases m with
    | zero =>
      have hnone : (a :: l).filter p = [] := by
        rw [List.filter_eq_nil_iff]
        intro x hx
        obtain ⟨i, hi⟩ := List.getElem?_of_mem hx
        rw [h i x hi]
        omega
      rw [hnone]
      simp
    | succ m =>
      rw [List.take_succ_cons]
      cases n with
      | zero =>
        have hrest := filter_eq_drop_take l 0 m fun i x hx => by
          have := h (i + 1) x hx
          rw [this]
          omega
        rw [List.filter_cons_of_pos (hhead.2 ⟨Nat.le_refl _, Nat.succ_pos _⟩), hrest, List.drop_zero, List.drop_zero]
      | succ n =>
        have hrest := filter_eq_drop_take l n m fun i x hx => by
          have := h (i + 1) x hx
          rw [this]
          omega
        have hneg : ¬ p a = true := by
          rw [hhead]
          omega
        rw [List.filter_cons_of_neg hneg, hrest, List.drop_succ_cons]

theorem lt_countP_iff (key : α → Nat) (bound : Nat) {l : List α} {i : Nat} {a : α}
    (hsorted : l.Pairwise (fun a b => key a ≤ key b)) (h : l[i]? = some a) :
    i < l.countP (fun a => decide (key a ≤ bound)) ↔ key a ≤ bound := by
  induction l generalizing i with
  | nil => cases h
  | cons first rest ih =>
    obtain ⟨hfirst, hrest⟩ := List.pairwise_cons.1 hsorted
    by_cases hle : key first ≤ bound
    · rw [List.countP_cons_of_pos (by simpa using hle)]
      cases i with
      | zero =>
        cases h
        exact ⟨fun _ => hle, fun _ => Nat.succ_pos _⟩
      | succ i =>
        rw [Nat.succ_lt_succ_iff]
        exact ih hrest h
    · -- the entries after it are above the bound too
      have hnone : rest.countP (fun a => decide (key a ≤ bound)) = 0 := by
        rw [List.countP_eq_zero]
        intro b hb
        have := hfirst b hb
        simp
        omega
      rw [List.countP_cons_of_neg (by simpa using hle), hnone]
      have hkey : key first ≤ key a := by
        rcases List.mem_cons.1 (List.mem_of_getElem? h) with rfl | hmem
        · exact Nat.le_refl _
        · exact hfirst a hmem
      omega

/-! ## Sorting -/

section Sorting

variable {r r' : α → α → Prop} {l : List α} {p : α → Bool}

theorem takeWhile_eq_filter (hsorted : l.Pairwise r) (hp : ∀ a ∈ l, ∀ b ∈ l, r a b → p b = true → p a = true) :
    l.takeWhile p = l.filter p := by
  induction l with
  | nil => rfl
  | cons a l ih =>
    obtain ⟨hfirst, hrest⟩ := List.pairwise_cons.1 hsorted
    by_cases ha : p a = true
    · have htail := ih hrest fun a' ha' b hb => hp a' (List.mem_cons_of_mem a ha') b (List.mem_cons_of_mem a hb)
      rw [List.takeWhile_cons_of_pos ha, List.filter_cons_of_pos ha, htail]
    · have hnone : l.filter p = [] := by
        rw [List.filter_eq_nil_iff]
        exact fun b hb hpb => ha (hp a List.mem_cons_self b (List.mem_cons_of_mem a hb) (hfirst b hb) hpb)
      rw [List.takeWhile_cons_of_neg ha, List.filter_cons_of_neg ha, hnone]

variable [DecidableRel r] [DecidableRel r']

theorem insertionSort_congr (h : ∀ a ∈ l, ∀ b ∈ l, (r a b ↔ r' a b)) : l.insertionSort r = l.insertionSort r' := by
  have hmap := List.map_insertionSort r r' id l h
  rwa [List.map_id, List.map_id] at hmap

/-- **What passes a test can be picked out before or after sorting.** -/
theorem filter_insertionSort [Std.Total r] [IsTrans α r] [Std.Antisymm r] (l : List α) (p : α → Bool) :
    (l.insertionSort r).filter p = (l.filter p).insertionSort r := by
  refine List.Perm.eq_of_pairwise' (r := r) ?_ (List.pairwise_insertionSort r _) ?_
  · exact (List.pairwise_insertionSort r l).sublist List.filter_sublist
  · exact ((List.perm_insertionSort r l).filter p).trans (List.perm_insertionSort r _).symm

end Sorting

end Lib
