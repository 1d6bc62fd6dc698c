import Mathlib.Data.Nat.Bitwise
/-!
# MerkleTree — the binary tree over a list of leaves

The leaves fill a perfect tree from the left, and `zero` fills the rest.  `climb` goes up from a leaf along its siblings, as a
verifier does; along the branch of the tree it ends at the root.  A list mixes its length in at one level more.
-/
namespace Lib.MerkleTree

variable {α : Type} (hash : α → α → α) (zero : α)

def zeroHash : Nat → α
  | 0 => zero
  | depth + 1 => hash (zeroHash depth) (zeroHash depth)

def root : Nat → List α → α
  | depth, [] => zeroHash hash zero depth
  | 0, leaf :: _ => leaf
  | depth + 1, leaf :: leaves =>
    hash (root depth ((leaf :: leaves).take (2 ^ depth))) (root depth ((leaf :: leaves).drop (2 ^ depth)))

/-- The siblings on the way up from the leaf at `index`. -/
def branch : Nat → List α → Nat → List α
  | 0, _, _ => []
  | depth + 1, leaves, index =>
    if index < 2 ^ depth
    then branch depth (leaves.take (2 ^ depth)) index ++ [root hash zero depth (leaves.drop (2 ^ depth))]
    else branch depth (leaves.drop (2 ^ depth)) (index - 2 ^ depth) ++ [root hash zero depth (leaves.take (2 ^ depth))]

def parent (index level : Nat) (value sibling : α) : α :=
  if index.testBit level then hash sibling value else hash value sibling

def climb (index : Nat) : (level : Nat) → α → List α → α
  | _, value, [] => value
  | level, value, sibling :: siblings => climb index (level + 1) (parent hash index level value sibling) siblings

theorem climb_concat (index : Nat) (siblings : List α) (sibling : α) (level : Nat) (value : α) :
    climb hash index level value (siblings ++ [sibling]) =
      parent hash index (level + siblings.length) (climb hash index level value siblings) sibling := by
  induction siblings generalizing level value with
  | nil => rfl
  | cons first siblings ih =>
    rw [List.cons_append]
    unfold climb
    rw [ih, List.length_cons, Nat.add_assoc, Nat.add_comm 1]

theorem climb_congr {index index' : Nat} (siblings : List α) (level : Nat) (value : α)
    (h : ∀ k, level ≤ k → k < level + siblings.length → index.testBit k = index'.testBit k) :
    climb hash index level value siblings = climb hash index' level value siblings := by
  induction siblings generalizing level value with
  | nil => rfl
  | cons first siblings ih =>
    have hlevel : index.testBit level = index'.testBit level := h level (Nat.le_refl _) (by simp)
    unfold climb
    have hparent : parent hash index level value first = parent hash index' level value first := by
      unfold parent
      rw [hlevel]
    rw [hparent]
    refine ih _ _ fun k hk hlt => h k (by omega) ?_
    rw [List.length_cons]
    omega

section

variable (depth : Nat) (leaves : List α)

@[simp] theorem length_branch (index : Nat) : (branch hash zero depth leaves index).length = depth := by
  induction depth generalizing leaves index with
  | zero => rfl
  | succ depth ih =>
    unfold branch
    split
    · rw [List.length_append, ih]
      rfl
    · rw [List.length_append, ih]
      rfl

theorem root_succ : root hash zero (depth + 1) leaves =
    hash (root hash zero depth (leaves.take (2 ^ depth))) (root hash zero depth (leaves.drop (2 ^ depth))) := by
  cases leaves with
  | nil =>
    rw [List.take_nil, List.drop_nil]
    cases depth <;> rfl
  | cons leaf leaves => rfl

theorem climb_branch (index : Nat) (leaf : α) (hindex : index < 2 ^ depth) (hleaf : leaves[index]? = some leaf) :
    climb hash index 0 leaf (branch hash zero depth leaves index) = root hash zero depth leaves := by
  induction depth generalizing leaves index with
  | zero =>
    obtain rfl : index = 0 := by omega
    cases leaves with
    | nil => cases hleaf
    | cons first leaves =>
      cases hleaf
      rfl
  | succ depth ih =>
    rw [root_succ]
    unfold branch
    by_cases hleft : index < 2 ^ depth
    · rw [if_pos hleft, climb_concat, length_branch, Nat.zero_add, ih _ index hleft]
      · unfold parent
        rw [Nat.testBit_lt_two_pow hleft]
        rfl
      · rw [List.getElem?_take_of_lt hleft]
        exact hleaf
    · have hbit : index.testBit depth = true := by
        have hdiv : index / 2 ^ depth = 1 := by
          rw [Nat.div_eq_iff (Nat.two_pow_pos depth)]
          omega
        rw [Nat.testBit_eq_decide_div_mod_eq, hdiv]
        rfl
      -- below the top level the index and its remainder have the same bits
      have hbits : ∀ k, 0 ≤ k → k < 0 + (branch hash zero depth (leaves.drop (2 ^ depth)) (index - 2 ^ depth)).length →
          index.testBit k = (index - 2 ^ depth).testBit k := by
        intro k _ hk
        rw [length_branch, Nat.zero_add] at hk
        have hsplit := Nat.testBit_two_pow_add_gt hk (index - 2 ^ depth)
        rw [show 2 ^ depth + (index - 2 ^ depth) = index by omega] at hsplit
        exact hsplit
      rw [if_neg hleft, climb_concat, length_branch, Nat.zero_add, climb_congr hash _ 0 leaf hbits,
        ih _ (index - 2 ^ depth) (by omega)]
      · unfold parent
        rw [hbit]
        rfl
      · rw [List.getElem?_drop, show 2 ^ depth + (index - 2 ^ depth) = index by omega]
        exact hleaf

/-! ## With the length mixed in -/

def listRoot (depth : Nat) (leaves : List α) (length : α) : α := hash (root hash zero depth leaves) length

def listBranch (depth : Nat) (leaves : List α) (length : α) (index : Nat) : List α :=
  branch hash zero depth leaves index ++ [length]

@[simp] theorem length_listBranch (length : α) (index : Nat) :
    (listBranch hash zero depth leaves length index).length = depth + 1 := by
  unfold listBranch
  rw [List.length_append, length_branch]
  rfl

theorem climb_listBranch (length : α) (index : Nat) (leaf : α) (hindex : index < 2 ^ depth) (hleaf : leaves[index]? = some leaf) :
    climb hash index 0 leaf (listBranch hash zero depth leaves length index) = listRoot hash zero depth leaves length := by
  unfold listBranch
  rw [climb_concat, climb_branch hash zero depth leaves index leaf hindex hleaf, length_branch, Nat.zero_add]
  unfold parent
  rw [Nat.testBit_lt_two_pow hindex]
  rfl

end

end Lib.MerkleTree
