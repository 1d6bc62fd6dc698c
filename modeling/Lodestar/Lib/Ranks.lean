import Mathlib.Data.List.Count
import Mathlib.Data.List.Perm.Subperm
import Mathlib.Order.RelClasses
/-!
# Ranks — the first so many of a list, in one order and in another

The rank of an element is how many come before it.  In a list sorted by an order the elements of rank below `n` are its first `n`
(`mem_take_iff`), and two orders have the same elements of rank below `n` exactly when the second puts each of the first one's
before each of the others: `rank_agrees_iff`.
-/
namespace Lib.Ranks

variable {α : Type} {r r' : α → α → Prop} [IsStrictTotalOrder α r] [IsStrictTotalOrder α r'] {l s s' : List α}

def rank (r : α → α → Prop) [DecidableRel r] (l : List α) (a : α) : Nat := l.countP fun b => decide (r b a)

/-! ## Sorting by a strict order -/

theorem nodup_of_sorted (h : s.Pairwise r) : s.Nodup :=
  h.imp fun {a b} hab heq => by
    subst heq
    exact asymm hab hab

theorem pairwise_mergeSort [DecidableRel r] (h : l.Nodup) : (l.mergeSort fun a b => !decide (r b a)).Pairwise r := by
  have hle : (l.mergeSort fun a b => !decide (r b a)).Pairwise (fun a b => ¬ r b a) := by
    refine (List.pairwise_mergeSort (fun a b c hab hbc => ?_) (fun a b => ?_) l).imp fun {a b} hab => by simpa using hab
    · simp only [Bool.not_eq_true', decide_eq_false_iff_not] at hab hbc ⊢
      intro hca
      rcases trichotomous_of r a b with hab' | rfl | hba
      · exact hbc (trans_of r hca hab')
      · exact hbc hca
      · exact hab hba
    · simp only [Bool.or_eq_true, Bool.not_eq_true', decide_eq_false_iff_not]
      by_cases hba : r b a
      · exact .inr (asymm hba)
      · exact .inl hba
  have hne : (l.mergeSort fun a b => !decide (r b a)).Pairwise (· ≠ ·) := (List.mergeSort_perm l _).nodup_iff.2 h
  refine (hle.and hne).imp fun {a b} ⟨hab, hdiff⟩ => ?_
  exact ((trichotomous_of r a b).resolve_right fun h => h.elim hdiff hab)

/-! ## Ranks -/

section Rank

variable [DecidableRel r] [DecidableRel r']

omit [IsStrictTotalOrder α r] in
theorem rank_perm (h : l.Perm s) (a : α) : rank r l a = rank r s a := h.countP_eq _

theorem rank_lt {a b : α} (ha : a ∈ l) (h : r a b) : rank r l a < rank r l b := by
  obtain ⟨pre, post, rfl⟩ := List.append_of_mem ha
  have hle : ∀ part : List α, part.countP (fun c => decide (r c a)) ≤ part.countP fun c => decide (r c b) := by
    intro part
    refine List.countP_mono_left fun c _ hc => ?_
    rw [decide_eq_true_eq] at hc ⊢
    exact trans_of r hc h
  unfold rank
  rw [List.countP_append, List.countP_append, List.countP_cons_of_neg (by simpa using irrefl_of r a),
    List.countP_cons_of_pos (by simpa using h)]
  have := hle pre
  have := hle post
  omega

theorem rank_sorted {pre post : List α} {a : α} (hsorted : (pre ++ a :: post).Pairwise r) :
    rank r (pre ++ a :: post) a = pre.length := by
  obtain ⟨-, hpost, hcross⟩ := List.pairwise_append.1 hsorted
  have hbefore : pre.countP (fun b => decide (r b a)) = pre.length := by
    rw [List.countP_eq_length]
    intro b hb
    simpa using hcross b hb a List.mem_cons_self
  have hafter : (a :: post).countP (fun b => decide (r b a)) = 0 := by
    rw [List.countP_eq_zero]
    intro b hb
    rw [decide_eq_true_eq]
    rcases List.mem_cons.1 hb with rfl | hb
    · exact irrefl_of r b
    · exact asymm ((List.pairwise_cons.1 hpost).1 b hb)
  unfold rank
  rw [List.countP_append, hbefore, hafter, Nat.add_zero]

theorem mem_take_iff (hsorted : s.Pairwise r) (n : Nat) (a : α) : a ∈ s.take n ↔ a ∈ s ∧ rank r s a < n := by
  constructor
  · intro hmem
    refine ⟨List.mem_of_mem_take hmem, ?_⟩
    obtain ⟨pre, post, hsplit⟩ := List.append_of_mem hmem
    have hlen : (s.take n).length = pre.length + (post.length + 1) := by
      rw [hsplit, List.length_append, List.length_cons]
    have hs : s = pre ++ a :: (post ++ s.drop n) := by
      conv => lhs; rw [← List.take_append_drop n s, hsplit]
      rw [List.append_assoc, List.cons_append]
    have hrank := rank_sorted (hs ▸ hsorted)
    rw [← hs] at hrank
    rw [List.length_take] at hlen
    omega
  · rintro ⟨hmem, hrank⟩
    obtain ⟨pre, post, rfl⟩ := List.append_of_mem hmem
    rw [rank_sorted hsorted] at hrank
    obtain ⟨k, rfl⟩ : ∃ k, n = pre.length + (k + 1) := ⟨n - pre.length - 1, by omega⟩
    rw [List.take_length_add_append, List.take_succ_cons]
    exact List.mem_append_right _ List.mem_cons_self

theorem mem_take_or_drop (n : Nat) {a : α} (h : a ∈ s) : a ∈ s.take n ∨ a ∈ s.drop n := by
  rw [← List.mem_append, List.take_append_drop]
  exact h

theorem mem_drop_iff (hsorted : s.Pairwise r) (n : Nat) (a : α) : a ∈ s.drop n ↔ a ∈ s ∧ ¬ rank r s a < n := by
  constructor
  · intro hmem
    refine ⟨List.mem_of_mem_drop hmem, fun hrank => ?_⟩
    have htake := (mem_take_iff hsorted n a).2 ⟨List.mem_of_mem_drop hmem, hrank⟩
    exact List.disjoint_take_drop (nodup_of_sorted hsorted) (Nat.le_refl n) htake hmem
  · rintro ⟨hmem, hrank⟩
    exact (mem_take_or_drop n hmem).resolve_left fun htake => hrank ((mem_take_iff hsorted n a).1 htake).2

/-! ## Two parts of a list -/

/-- **A list is cut before its elements of rank below `n`** exactly when each element of the second part comes before each of the
first. -/
theorem rank_cut_iff {dropped kept : List α} (h : (dropped ++ kept).Nodup) {n : Nat} (hlength : kept.length ≤ n)
    (hfull : dropped ≠ [] → kept.length = n) :
    (∀ a ∈ dropped ++ kept, rank r (dropped ++ kept) a < n ↔ a ∈ kept) ↔ ∀ a ∈ dropped, ∀ b ∈ kept, r b a := by
  have hdisjoint : ∀ a ∈ dropped, a ∉ kept := fun a ha hkept => (List.nodup_append.1 h).2.2 a ha a hkept rfl
  constructor
  · intro hcut a ha b hb
    have hrank : rank r (dropped ++ kept) b < n := (hcut b (List.mem_append_right _ hb)).2 hb
    have hother : ¬ rank r (dropped ++ kept) a < n := fun hlt =>
      hdisjoint a ha ((hcut a (List.mem_append_left _ ha)).1 hlt)
    rcases trichotomous_of r a b with hab | rfl | hba
    · exact absurd (Nat.lt_trans (rank_lt (List.mem_append_left _ ha) hab) hrank) hother
    · exact absurd hb (hdisjoint a ha)
    · exact hba
  · intro hbefore a ha
    constructor
    · intro hrank
      refine (List.mem_append.1 ha).resolve_left fun hdropped => ?_
      -- all of the second part comes before it
      have hall : kept.countP (fun b => decide (r b a)) = kept.length :=
        List.countP_eq_length.2 fun b hb => decide_eq_true (hbefore a hdropped b hb)
      have := hfull (List.ne_nil_of_mem hdropped)
      unfold rank at hrank
      rw [List.countP_append, hall] at hrank
      omega
    · intro hkept
      have hnone : dropped.countP (fun b => decide (r b a)) = 0 :=
        List.countP_eq_zero.2 fun b hb => by simpa using asymm (hbefore b hb a hkept)
      have hself : kept.countP (fun b => decide (r b a)) < kept.length :=
        List.countP_lt_length_iff.2 ⟨a, hkept, by simpa using irrefl_of r a⟩
      unfold rank
      rw [List.countP_append, hnone]
      omega

/-! ## Two orders -/

omit [DecidableRel r] [DecidableRel r'] in
theorem take_agrees_iff (hperm : s.Perm s') (hsorted : s.Pairwise r) (hsorted' : s'.Pairwise r') (n : Nat) :
    (∀ a, a ∈ s'.take n ↔ a ∈ s.take n) ↔ ∀ a ∈ s.take n, ∀ b ∈ s.drop n, r' a b := by
  have hnodup : s.Nodup := nodup_of_sorted hsorted
  have htake : (s.take n).Nodup := hnodup.sublist (List.take_sublist n s)
  have htake' : (s'.take n).Nodup := (nodup_of_sorted hsorted').sublist (List.take_sublist n s')
  have hlength : (s.take n).length = (s'.take n).length := by
    rw [List.length_take, List.length_take, hperm.length_eq]
  have hcross : ∀ a ∈ s'.take n, ∀ b ∈ s'.drop n, r' a b := by
    have happend : (s'.take n ++ s'.drop n).Pairwise r' := by rwa [List.take_append_drop]
    exact (List.pairwise_append.1 happend).2.2
  constructor
  · intro hsame a ha b hb
    have hb' : b ∈ s'.drop n := by
      refine (mem_take_or_drop n (hperm.mem_iff.1 (List.mem_of_mem_drop hb))).resolve_left fun htake => ?_
      exact List.disjoint_take_drop hnodup (Nat.le_refl n) ((hsame b).1 htake) hb
    exact hcross a ((hsame a).2 ha) b hb'
  · intro hbefore
    -- an element of one that is not among the others would be before itself in the second order
    have hsub : s.take n ⊆ s'.take n := by
      intro a ha
      by_contra hnot
      have ha' : a ∈ s'.drop n := (mem_take_or_drop n (hperm.mem_iff.1 (List.mem_of_mem_take ha))).resolve_left hnot
      have hinside : s'.take n ⊆ s.take n := by
        intro b hb
        refine (mem_take_or_drop n (hperm.mem_iff.2 (List.mem_of_mem_take hb))).resolve_right fun hdrop => ?_
        exact asymm (hcross b hb a ha') (hbefore a ha b hdrop)
      have hall := (List.Nodup.subperm htake' hinside).perm_of_length_le (Nat.le_of_eq hlength)
      exact hnot (hall.mem_iff.2 ha)
    have hall := (List.Nodup.subperm htake hsub).perm_of_length_le (Nat.le_of_eq hlength.symm)
    exact fun a => hall.symm.mem_iff

/-- **Two orders have the same elements of rank below `n`** exactly when the second puts each of the first one's before each of
the others. -/
theorem rank_agrees_iff (h : l.Nodup) (n : Nat) : (∀ a ∈ l, rank r' l a < n ↔ rank r l a < n) ↔
    ∀ a ∈ l, ∀ b ∈ l, rank r l a < n → ¬ rank r l b < n → r' a b := by
  have hperm : (l.mergeSort fun a b => !decide (r b a)).Perm l := List.mergeSort_perm _ _
  have hperm' : (l.mergeSort fun a b => !decide (r' b a)).Perm l := List.mergeSort_perm _ _
  have hsorted : (l.mergeSort fun a b => !decide (r b a)).Pairwise r := pairwise_mergeSort h
  have hsorted' : (l.mergeSort fun a b => !decide (r' b a)).Pairwise r' := pairwise_mergeSort h
  generalize (l.mergeSort fun a b => !decide (r b a)) = s at hperm hsorted
  generalize (l.mergeSort fun a b => !decide (r' b a)) = s' at hperm' hsorted'
  have htake : ∀ a, a ∈ s.take n ↔ a ∈ l ∧ rank r l a < n := by
    intro a
    rw [mem_take_iff hsorted, hperm.mem_iff, rank_perm hperm]
  have htake' : ∀ a, a ∈ s'.take n ↔ a ∈ l ∧ rank r' l a < n := by
    intro a
    rw [mem_take_iff hsorted', hperm'.mem_iff, rank_perm hperm']
  have hdrop : ∀ a, a ∈ s.drop n ↔ a ∈ l ∧ ¬ rank r l a < n := by
    intro a
    rw [mem_drop_iff hsorted, hperm.mem_iff, rank_perm hperm]
  have hagrees := take_agrees_iff (hperm.trans hperm'.symm) hsorted hsorted' n
  simp only [htake, htake', hdrop] at hagrees
  constructor
  · intro hsame a ha b hb hrank hother
    exact hagrees.1 (fun a => and_congr_right fun ha => hsame a ha) a ⟨ha, hrank⟩ b ⟨hb, hother⟩
  · intro hbefore a ha
    have hiff := hagrees.2 (fun a ha b hb => hbefore a ha.1 b hb.1 ha.2 hb.2) a
    exact ⟨fun hrank => (hiff.1 ⟨ha, hrank⟩).2, fun hrank => (hiff.2 ⟨ha, hrank⟩).2⟩

end Rank

end Lib.Ranks
