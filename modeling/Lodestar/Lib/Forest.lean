import Mathlib.Algebra.BigOperators.Group.Finset.Basic
import Mathlib.Algebra.BigOperators.Group.Finset.Piecewise
import Mathlib.Algebra.Group.Int.Defs
/-!
# Forest — trees laid out in an array, parents before children

A forest on `Nat` is given by its parent function; every parent comes before its children.  `inSubtree a i` follows the
parents of `i` up to `a`, and `subtreeSum` adds a quantity over a subtree.

A pass from the last node to the first that adds each node's total to its parent's leaves in front of node `i` the sum of
its subtree.  `carried` is what stands at a node while the nodes from `k` on have been handled.
-/
namespace Lib.Forest

section

variable (parent : Nat → Option Nat)

def ParentsFirst : Prop := ∀ i p, parent i = some p → p < i

def reaches (parent : Nat → Option Nat) (a : Nat) : Nat → Nat → Bool
  | 0, i => a == i
  | fuel + 1, i => a == i || match parent i with
    | none => false
    | some p => reaches parent a fuel p

def inSubtree (a i : Nat) : Bool := reaches parent a i i

/-- The parents of a forest whose first `f` nodes are cut off. -/
def cutParent (f i : Nat) : Option Nat :=
  (parent (i + f)).bind (fun p => if p < f then none else some (p - f))

end

variable {parent : Nat → Option Nat}

theorem cutParent_eq_some {f i p : Nat} :
    cutParent parent f i = some p ↔ parent (i + f) = some (p + f) := by
  unfold cutParent
  cases parent (i + f) with
  | none => simp
  | some q =>
    rw [Option.bind_some, Option.some_inj]
    split
    · constructor
      · intro h; cases h
      · intro h; omega
    · rw [Option.some_inj]
      omega

section Subtree

variable {parent : Nat → Option Nat} (hp : ParentsFirst parent)

include hp

theorem parent_zero : parent 0 = none := by
  cases h : parent 0 with
  | none => rfl
  | some p => exact absurd (hp 0 p h) (Nat.not_lt_zero p)

theorem walk_fuel {β : Type} {walk : Nat → Nat → β} (hroot : ∀ i, parent i = none → ∀ f g, walk f i = walk g i)
    (hstep : ∀ i p, parent i = some p → ∃ up : β → β, ∀ f, walk (f + 1) i = up (walk f p)) (i : Nat) :
    ∀ (f g : Nat), i ≤ f → i ≤ g → walk f i = walk g i := by
  induction i using Nat.strong_induction_on with
  | _ i ih =>
    intro f g hf hg
    cases hpar : parent i with
    | none => exact hroot i hpar f g
    | some p =>
      have hlt := hp i p hpar
      obtain ⟨up, hup⟩ := hstep i p hpar
      obtain ⟨f, rfl⟩ : ∃ f', f = f' + 1 := ⟨f - 1, by omega⟩
      obtain ⟨g, rfl⟩ : ∃ g', g = g' + 1 := ⟨g - 1, by omega⟩
      rw [hup, hup, ih p hlt f g (by omega) (by omega)]

theorem reaches_fuel (a i : Nat) : ∀ (f g : Nat), i ≤ f → i ≤ g → reaches parent a f i = reaches parent a g i := by
  refine walk_fuel hp (fun i hpar f g => ?_) (fun i p hpar => ⟨fun below => a == i || below, fun f => ?_⟩) i
  · cases f <;> cases g <;> simp [reaches, hpar]
  · simp only [reaches, hpar]

theorem inSubtree_iff {a i : Nat} : inSubtree parent a i = true ↔
    a = i ∨ ∃ p, parent i = some p ∧ inSubtree parent a p = true := by
  unfold inSubtree
  cases i with
  | zero => simp [reaches, parent_zero hp]
  | succ i =>
    simp only [reaches, Bool.or_eq_true, beq_iff_eq]
    cases hpar : parent (i + 1) with
    | none => simp
    | some p =>
      have hlt := hp (i + 1) p hpar
      dsimp only
      rw [reaches_fuel hp a p i p (by omega) (Nat.le_refl p)]
      simp

theorem inSubtree_refl (a : Nat) : inSubtree parent a a = true := (inSubtree_iff hp).2 (.inl rfl)

variable {a : Nat}

theorem inSubtree_le (i : Nat) : inSubtree parent a i = true → a ≤ i := by
  induction i using Nat.strong_induction_on with
  | _ i ih =>
    intro h
    rcases (inSubtree_iff hp).1 h with rfl | ⟨p, hpar, h⟩
    · exact Nat.le_refl _
    · have hlt := hp i p hpar
      have := ih p hlt h
      omega

theorem inSubtree_trans {a b : Nat} (hab : inSubtree parent a b = true) (i : Nat) :
    inSubtree parent b i = true → inSubtree parent a i = true := by
  induction i using Nat.strong_induction_on with
  | _ i ih =>
    intro h
    rcases (inSubtree_iff hp).1 h with rfl | ⟨p, hpar, h⟩
    · exact hab
    · exact (inSubtree_iff hp).2 (.inr ⟨p, hpar, ih p (hp i p hpar) h⟩)

theorem inSubtree_parent {p c : Nat} (h : parent c = some p) : inSubtree parent p c = true :=
  (inSubtree_iff hp).2 (.inr ⟨p, h, inSubtree_refl hp p⟩)

theorem inSubtree_child (i : Nat) : inSubtree parent a i = true →
    a = i ∨ ∃ c, parent c = some a ∧ inSubtree parent c i = true := by
  induction i using Nat.strong_induction_on with
  | _ i ih =>
    intro h
    rcases (inSubtree_iff hp).1 h with rfl | ⟨p, hpar, h⟩
    · exact .inl rfl
    · rcases ih p (hp i p hpar) h with rfl | ⟨c, hc, hci⟩
      · exact .inr ⟨i, hpar, inSubtree_refl hp i⟩
      · exact .inr ⟨c, hc, (inSubtree_iff hp).2 (.inr ⟨p, hpar, hci⟩)⟩

theorem inSubtree_congr {parent' : Nat → Option Nat} (hp' : ParentsFirst parent') (i : Nat) :
    (∀ j, j ≤ i → parent j = parent' j) → inSubtree parent a i = inSubtree parent' a i := by
  induction i using Nat.strong_induction_on with
  | _ i ih =>
    intro h
    rw [Bool.eq_iff_iff, inSubtree_iff hp, inSubtree_iff hp', h i (Nat.le_refl i)]
    refine or_congr_right (exists_congr (fun p => and_congr_right (fun hpar => ?_)))
    have hlt := hp' i p hpar
    rw [ih p hlt (fun j hj => h j (by omega))]

theorem parentsFirst_cut (f : Nat) : ParentsFirst (cutParent parent f) := by
  intro i p h
  have := hp _ _ (cutParent_eq_some.1 h)
  omega

theorem inSubtree_cut (f a : Nat) (i : Nat) : inSubtree (cutParent parent f) a i = inSubtree parent (a + f) (i + f) := by
  induction i using Nat.strong_induction_on with
  | _ i ih =>
    rw [Bool.eq_iff_iff, inSubtree_iff (parentsFirst_cut hp f), inSubtree_iff hp]
    constructor
    · rintro (rfl | ⟨p, hpar, h⟩)
      · exact .inl rfl
      · rw [ih p (parentsFirst_cut hp f i p hpar)] at h
        exact .inr ⟨p + f, cutParent_eq_some.1 hpar, h⟩
    · rintro (heq | ⟨p, hpar, h⟩)
      · exact .inl (by omega)
      · have hle := inSubtree_le hp p h
        obtain ⟨q, rfl⟩ : ∃ q, p = q + f := ⟨p - f, by omega⟩
        have hq := cutParent_eq_some.2 hpar
        rw [← ih q (parentsFirst_cut hp f i q hq)] at h
        exact .inr ⟨q, hq, h⟩

end Subtree

/-! ## The nearest ancestor before a bound -/

def nearest (parent : Nat → Option Nat) (k : Nat) : Nat → Nat → Option Nat
  | 0, i => if i < k then some i else none
  | fuel + 1, i => if i < k then some i else match parent i with
    | none => none
    | some p => nearest parent k fuel p

def nearestBefore (parent : Nat → Option Nat) (k i : Nat) : Option Nat := nearest parent k i i

section Nearest

variable {parent : Nat → Option Nat} (hp : ParentsFirst parent)

include hp

theorem nearest_fuel (k i : Nat) : ∀ (f g : Nat), i ≤ f → i ≤ g → nearest parent k f i = nearest parent k g i := by
  refine walk_fuel hp (fun i hpar f g => ?_) (fun i p hpar => ⟨fun above => if i < k then some i else above, fun f => ?_⟩) i
  · cases f <;> cases g <;> simp [nearest, hpar]
  · simp only [nearest, hpar]

theorem nearestBefore_eq (k i : Nat) : nearestBefore parent k i =
    if i < k then some i else (parent i).bind (nearestBefore parent k) := by
  unfold nearestBefore
  cases i with
  | zero => simp [nearest, parent_zero hp]
  | succ i =>
    simp only [nearest]
    cases hpar : parent (i + 1) with
    | none => rfl
    | some p =>
      have hlt := hp (i + 1) p hpar
      dsimp only
      rw [nearest_fuel hp k p i p (by omega) (Nat.le_refl p)]
      rfl

theorem nearestBefore_step (k i : Nat) : nearestBefore parent k i =
    if nearestBefore parent (k + 1) i = some k then parent k else nearestBefore parent (k + 1) i := by
  induction i using Nat.strong_induction_on with
  | _ i ih =>
    have hk := nearestBefore_eq hp k i
    have hk' := nearestBefore_eq hp (k + 1) i
    rcases Nat.lt_trichotomy i k with hlt | rfl | hgt
    · rw [if_pos hlt] at hk
      rw [if_pos (by omega)] at hk'
      rw [hk, hk', if_neg (by simp; omega)]
    · rw [if_neg (Nat.lt_irrefl i)] at hk
      rw [if_pos (by omega)] at hk'
      rw [hk, hk', if_pos rfl]
      cases hpar : parent i with
      | none => rfl
      | some p =>
        rw [Option.bind_some, nearestBefore_eq hp i p, if_pos (hp i p hpar)]
    · rw [if_neg (by omega)] at hk hk'
      rw [hk, hk']
      cases hpar : parent i with
      | none => rfl
      | some p =>
        exact ih p (hp i p hpar)

theorem inSubtree_iff_nearest (a i : Nat) :
    inSubtree parent a i = true ↔ nearestBefore parent (a + 1) i = some a := by
  induction i using Nat.strong_induction_on with
  | _ i ih =>
    rw [nearestBefore_eq hp (a + 1) i]
    by_cases hlt : i < a + 1
    · rw [if_pos hlt]
      constructor
      · intro h
        have := inSubtree_le hp i h
        rw [show i = a by omega]
      · intro h
        rw [Option.some.inj h]
        exact inSubtree_refl hp a
    · rw [if_neg hlt, inSubtree_iff hp]
      constructor
      · rintro (rfl | ⟨p, hpar, h⟩)
        · omega
        · rw [hpar, Option.bind_some]
          exact (ih p (hp i p hpar)).1 h
      · intro h
        cases hpar : parent i with
        | none => rw [hpar] at h; cases h
        | some p =>
          rw [hpar, Option.bind_some] at h
          exact .inr ⟨p, rfl, (ih p (hp i p hpar)).2 h⟩

end Nearest

/-! ## Sums over subtrees -/

def subtreeSum (parent : Nat → Option Nat) (n : Nat) (f : Nat → Int) (a : Nat) : Int :=
  ∑ i ∈ Finset.range n, if inSubtree parent a i then f i else 0

variable {n : Nat}

theorem subtreeSum_congr {f g : Nat → Int} (h : ∀ i, i < n → f i = g i) (a : Nat) :
    subtreeSum parent n f a = subtreeSum parent n g a := by
  refine Finset.sum_congr rfl (fun i hi => ?_)
  rw [h i (Finset.mem_range.1 hi)]

theorem subtreeSum_add (parent : Nat → Option Nat) (n : Nat) (f g : Nat → Int) (a : Nat) :
    subtreeSum parent n f a + subtreeSum parent n g a = subtreeSum parent n (fun i => f i + g i) a := by
  unfold subtreeSum
  rw [← Finset.sum_add_distrib]
  refine Finset.sum_congr rfl (fun i _ => ?_)
  split
  · rfl
  · rw [add_zero]

theorem subtreeSum_outside (hp : ParentsFirst parent) {n a : Nat} (ha : n ≤ a) (f : Nat → Int) :
    subtreeSum parent n f a = 0 := by
  refine Finset.sum_eq_zero (fun i hi => ?_)
  have hi := Finset.mem_range.1 hi
  rw [if_neg]
  intro h
  have := inSubtree_le hp i h
  omega

variable {f : Nat → Int}

/-- **A new last node that adds nothing** leaves the sums of the others. -/
theorem subtreeSum_succ {parent parent' : Nat → Option Nat} (hp : ParentsFirst parent) (hp' : ParentsFirst parent')
    (hsame : ∀ i, i < n → parent' i = parent i) (hlast : f n = 0) (a : Nat) :
    subtreeSum parent' (n + 1) f a = subtreeSum parent n f a := by
  unfold subtreeSum
  rw [Finset.sum_range_succ, hlast, ite_self, add_zero]
  refine Finset.sum_congr rfl (fun i hi => ?_)
  have hi := Finset.mem_range.1 hi
  rw [inSubtree_congr hp' hp i (fun j hj => hsame j (by omega))]

theorem subtreeSum_cut (hp : ParentsFirst parent) {k n : Nat} (hk : k ≤ n) (f : Nat → Int) (a : Nat) :
    subtreeSum (cutParent parent k) (n - k) (fun i => f (i + k)) a = subtreeSum parent n f (a + k) := by
  have hbefore : ∀ i ∈ Finset.range k, (if inSubtree parent (a + k) i then f i else 0) = 0 := by
    intro i hi
    have hi := Finset.mem_range.1 hi
    rw [if_neg]
    intro h
    have := inSubtree_le hp i h
    omega
  unfold subtreeSum
  rw [← Nat.add_sub_cancel' hk, Finset.sum_range_add, Finset.sum_eq_zero hbefore, zero_add, Nat.add_sub_cancel_left]
  refine Finset.sum_congr rfl (fun i _ => ?_)
  rw [inSubtree_cut hp, Nat.add_comm k i]

theorem eq_zero_of_subtreeSum (hp : ParentsFirst parent) (h : ∀ a, a < n → subtreeSum parent n f a = 0) :
    ∀ (k i : Nat), n ≤ i + k → i < n → f i = 0
  | 0, i, hk, hi => absurd hi (by omega)
  | k + 1, i, hk, hi => by
    -- the nodes after `i` are done, and those before it are not below it
    have hself : ∀ j ∈ Finset.range n, (if inSubtree parent i j then f j else 0) = if j = i then f i else 0 := by
      intro j hj
      by_cases hji : j = i
      · rw [hji, inSubtree_refl hp, if_pos rfl, if_pos rfl]
      split
      · rename_i hin
        have := inSubtree_le hp j hin
        exact eq_zero_of_subtreeSum hp h k j (by omega) (Finset.mem_range.1 hj)
      · rfl
    have hsum := h i hi
    unfold subtreeSum at hsum
    rw [Finset.sum_congr rfl hself, Finset.sum_ite_eq', if_pos (Finset.mem_range.2 hi)] at hsum
    exact hsum

def carried (parent : Nat → Option Nat) (n : Nat) (f : Nat → Int) (k a : Nat) : Int :=
  ∑ i ∈ Finset.range n, if nearestBefore parent k i = some a then f i else 0

section Carried

variable {parent : Nat → Option Nat} (hp : ParentsFirst parent) (n : Nat) (f : Nat → Int)

include hp

/-- **At the start** every node has its own. -/
theorem carried_last {a : Nat} (ha : a < n) : carried parent n f n a = f a := by
  have hself : ∀ i ∈ Finset.range n, (if nearestBefore parent n i = some a then f i else 0) = if i = a then f a else 0 := by
    intro i hi
    rw [nearestBefore_eq hp n i, if_pos (Finset.mem_range.1 hi)]
    by_cases h : i = a
    · rw [h, if_pos rfl, if_pos rfl]
    · rw [if_neg (by simpa using h), if_neg h]
  unfold carried
  rw [Finset.sum_congr rfl hself, Finset.sum_ite_eq', if_pos (Finset.mem_range.2 ha)]

theorem carried_step {k a : Nat} (ha : a < k) : carried parent n f k a =
    carried parent n f (k + 1) a + if parent k = some a then carried parent n f (k + 1) k else 0 := by
  have hsplit : ∀ i, (if nearestBefore parent k i = some a then f i else 0) =
      (if nearestBefore parent (k + 1) i = some a then f i else 0) +
        if parent k = some a then (if nearestBefore parent (k + 1) i = some k then f i else 0) else 0 := by
    intro i
    rw [nearestBefore_step hp k i]
    by_cases hk : nearestBefore parent (k + 1) i = some k
    · have hne : k ≠ a := by omega
      simp [hk, hne]
    · simp [hk]
  unfold carried
  rw [Finset.sum_congr rfl (fun i _ => hsplit i), Finset.sum_add_distrib]
  split
  · rfl
  · rw [Finset.sum_const_zero]

/-- **When its turn comes** the whole subtree stands at a node. -/
theorem carried_self (a : Nat) : carried parent n f (a + 1) a = subtreeSum parent n f a := by
  refine Finset.sum_congr rfl (fun i _ => ?_)
  simp only [inSubtree_iff_nearest hp a i]

end Carried

end Lib.Forest
