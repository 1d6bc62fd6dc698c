import Lodestar.Lib.Forest
import Lodestar.ForkChoice.ProtoArray
/-!
# ProtoArrayInv — the links of the array

`WellFormed` says that the index map lists the roots of the nodes in order, that parents come before children, and that
every best child is a child and every best descendant is below it.

On a well-formed array a round of the backward pass is a total function (`visit`), and `applyScoreLoop_rule` is the
invariant rule for the whole pass: `applyScoreChanges_run` raises every weight by the deltas of its subtree.
-/
namespace Lodestar

open Lib Forest

namespace ProtoArray

/-! ## Reading a node -/

def parentOf (s : ProtoArray) (i : Nat) : Option Nat := (s.nodes[i]?).bind (·.parent)
def bestChildOf (s : ProtoArray) (i : Nat) : Option Nat := (s.nodes[i]?).bind (·.bestChild)
def bestDescendantOf (s : ProtoArray) (i : Nat) : Option Nat := (s.nodes[i]?).bind (·.bestDescendant)
def weightOf (s : ProtoArray) (i : Nat) : Int := ((s.nodes[i]?).map (·.weight)).getD 0
def rootOf (s : ProtoArray) (i : Nat) : HexRoot := ((s.nodes[i]?).map (·.blockRoot)).getD ""
def viableAt (s : ProtoArray) (i : Nat) : Bool := (s.nodes[i]?).any s.nodeIsViableForHead

def leadsAt (s : ProtoArray) (i : Nat) : Bool := (s.bestDescendantOf i).any s.viableAt || s.viableAt i

section

variable {s : ProtoArray} {i : Nat} {node : ProtoNode} (hi : s.nodes[i]? = some node)

include hi

theorem parentOf_node : s.parentOf i = node.parent := congrArg (fun o => o.bind (·.parent)) hi

theorem rootOf_node : s.rootOf i = node.blockRoot := by rw [rootOf, hi, Option.map_some, Option.getD_some]

end

structure SameTree (s s' : ProtoArray) : Prop where
  blocks : s'.nodes.map (fun node => (node.toProtoBlock, node.parent)) = s.nodes.map (fun node => (node.toProtoBlock, node.parent))
  indices : s'.indices = s.indices

theorem SameTree.refl (s : ProtoArray) : SameTree s s := ⟨rfl, rfl⟩

variable {s₁ s₂ s₃ s s' : ProtoArray}

theorem SameTree.trans (h : SameTree s₁ s₂) (h' : SameTree s₂ s₃) : SameTree s₁ s₃ :=
  ⟨h'.blocks.trans h.blocks, h'.indices.trans h.indices⟩

theorem SameTree.length (h : SameTree s s') : s'.nodes.length = s.nodes.length := by
  simpa using congrArg List.length h.blocks

theorem SameTree.node (h : SameTree s s') (i : Nat) :
    (s'.nodes[i]?).map (fun node => (node.toProtoBlock, node.parent)) =
      (s.nodes[i]?).map (fun node => (node.toProtoBlock, node.parent)) := by
  rw [← List.getElem?_map, ← List.getElem?_map, h.blocks]

theorem SameTree.parentOf (h : SameTree s s') : s'.parentOf = s.parentOf := by
  funext i
  have := congrArg (Option.map Prod.snd) (h.node i)
  unfold ProtoArray.parentOf
  cases h1 : s'.nodes[i]? <;> cases h2 : s.nodes[i]? <;> simp_all

theorem SameTree.rootOf (h : SameTree s s') : s'.rootOf = s.rootOf := by
  funext i
  have := congrArg (Option.map (fun x => x.1.blockRoot)) (h.node i)
  unfold ProtoArray.rootOf
  cases h1 : s'.nodes[i]? <;> cases h2 : s.nodes[i]? <;> simp_all

theorem SameTree.viableAt (h : SameTree s s') (hj : s'.justifiedEpoch = s.justifiedEpoch)
    (hf : s'.finalizedEpoch = s.finalizedEpoch) : s'.viableAt = s.viableAt := by
  funext i
  have := congrArg (Option.map Prod.fst) (h.node i)
  unfold ProtoArray.viableAt nodeIsViableForHead
  cases h1 : s'.nodes[i]? <;> cases h2 : s.nodes[i]? <;> simp_all

/-! ## Writing a node -/

variable {i : Nat}

theorem getElem?_setNode (s : ProtoArray) (hi : i < s.nodes.length) (node : ProtoNode) (j : Nat) :
    (s.setNode i node).nodes[j]? = if j = i then some node else s.nodes[j]? := by
  unfold setNode
  rw [List.getElem?_set]
  by_cases h : i = j
  · subst h
    simp [hi]
  · rw [if_neg h, if_neg (Ne.symm h)]

def setLinks (s : ProtoArray) (p : Nat) (links : Option Nat × Option Nat) : ProtoArray :=
  match s.nodes[p]? with
  | none => s
  | some node => s.setNode p { node with bestChild := links.1, bestDescendant := links.2 }

def addWeight (s : ProtoArray) (i : Nat) (w : Int) : ProtoArray :=
  match s.nodes[i]? with
  | none => s
  | some node => s.setNode i { node with weight := node.weight + w }

variable {s : ProtoArray}

theorem setNode_sameTree {node node' : ProtoNode} (hi : s.nodes[i]? = some node) (hb : node'.toProtoBlock = node.toProtoBlock)
    (hpar : node'.parent = node.parent) :
    SameTree s (s.setNode i node') := by
  refine ⟨?_, rfl⟩
  unfold setNode
  rw [List.map_set, hb, hpar]
  refine List.ext_getElem? (fun j => ?_)
  rw [List.getElem?_set]
  split
  · rename_i hij
    subst hij
    rw [List.getElem?_map, hi]
    have := List.getElem?_eq_some_iff.1 hi
    simp [this.1]
  · rfl

theorem setLinks_sameTree (s : ProtoArray) (p : Nat) (links : Option Nat × Option Nat) : SameTree s (s.setLinks p links) := by
  unfold setLinks
  split
  · exact SameTree.refl s
  · rename_i node hp
    exact setNode_sameTree hp rfl rfl

theorem addWeight_sameTree (s : ProtoArray) (i : Nat) (w : Int) : SameTree s (s.addWeight i w) := by
  unfold addWeight
  split
  · exact SameTree.refl s
  · rename_i node hi
    exact setNode_sameTree hi rfl rfl

section Fields

variable {s : ProtoArray} {p : Nat} {links : Option Nat × Option Nat} {i : Nat} {w : Int}

@[simp] theorem setLinks_justifiedEpoch : (s.setLinks p links).justifiedEpoch = s.justifiedEpoch := by
  unfold setLinks; split <;> rfl

@[simp] theorem setLinks_finalizedEpoch : (s.setLinks p links).finalizedEpoch = s.finalizedEpoch := by
  unfold setLinks; split <;> rfl

@[simp] theorem addWeight_justifiedEpoch : (s.addWeight i w).justifiedEpoch = s.justifiedEpoch := by
  unfold addWeight; split <;> rfl

@[simp] theorem addWeight_finalizedEpoch : (s.addWeight i w).finalizedEpoch = s.finalizedEpoch := by
  unfold addWeight; split <;> rfl

theorem bestChildOf_setLinks (hp : p < s.nodes.length) (j : Nat) :
    (s.setLinks p links).bestChildOf j = if j = p then links.1 else s.bestChildOf j := by
  unfold setLinks bestChildOf
  rw [List.getElem?_eq_getElem hp]
  rw [getElem?_setNode s hp]
  split <;> rfl

theorem bestDescendantOf_setLinks (hp : p < s.nodes.length) (j : Nat) :
    (s.setLinks p links).bestDescendantOf j = if j = p then links.2 else s.bestDescendantOf j := by
  unfold setLinks bestDescendantOf
  rw [List.getElem?_eq_getElem hp]
  rw [getElem?_setNode s hp]
  split <;> rfl

theorem read_setNode {β : Type} (read : Option ProtoNode → β) {node node' : ProtoNode} (hi : s.nodes[i]? = some node)
    (hsame : read (some node') = read (some node)) (j : Nat) : read (s.setNode i node').nodes[j]? = read s.nodes[j]? := by
  rw [getElem?_setNode s (List.getElem?_eq_some_iff.1 hi).1]
  split
  · rename_i hj
    rw [hj, hi, hsame]
  · rfl

theorem weightOf_setLinks (j : Nat) : (s.setLinks p links).weightOf j = s.weightOf j := by
  unfold setLinks
  split
  · rfl
  · rename_i node hp
    refine read_setNode (fun node => (node.map (·.weight)).getD 0) hp ?_ j
    rfl

theorem weightOf_addWeight (hi : i < s.nodes.length) (j : Nat) :
    (s.addWeight i w).weightOf j = if j = i then s.weightOf i + w else s.weightOf j := by
  unfold addWeight weightOf
  rw [List.getElem?_eq_getElem hi]
  rw [getElem?_setNode s hi]
  split <;> rfl

theorem bestChildOf_addWeight (j : Nat) : (s.addWeight i w).bestChildOf j = s.bestChildOf j := by
  unfold addWeight
  split
  · rfl
  · rename_i node hi
    refine read_setNode (·.bind (·.bestChild)) hi ?_ j
    rfl

theorem bestDescendantOf_addWeight (j : Nat) : (s.addWeight i w).bestDescendantOf j = s.bestDescendantOf j := by
  unfold addWeight
  split
  · rfl
  · rename_i node hi
    refine read_setNode (·.bind (·.bestDescendant)) hi ?_ j
    rfl

end Fields

/-! ## Well-formed arrays -/

structure WellFormed (s : ProtoArray) : Prop where
  keys : s.indices.entries = s.nodes.zipIdx.map (fun x => (x.1.blockRoot, x.2))
  parentsFirst : ParentsFirst s.parentOf
  bestChild : ∀ p c, s.bestChildOf p = some c → s.parentOf c = some p
  linked : ∀ p, s.bestChildOf p = none ↔ s.bestDescendantOf p = none
  bestDescendant : ∀ p c d, s.bestChildOf p = some c → s.bestDescendantOf p = some d → inSubtree s.parentOf c d = true

variable {i p c : Nat}

theorem lt_of_parentOf (h : s.parentOf i = some p) : i < s.nodes.length := by
  unfold parentOf at h
  cases hi : s.nodes[i]? with
  | none => rw [hi] at h; cases h
  | some node => exact (List.getElem?_eq_some_iff.1 hi).1

namespace WellFormed

variable {s : ProtoArray} (h : s.WellFormed)

include h

theorem size : s.indices.size = s.nodes.length := by
  unfold OrderedMap.size
  rw [h.keys]
  simp

variable {root : HexRoot} {i : Nat}

theorem get?_iff :
    s.indices.get? root = some i ↔ ∃ node, s.nodes[i]? = some node ∧ node.blockRoot = root := by
  rw [OrderedMap.get?_eq_some_iff, h.keys, List.mem_map]
  constructor
  · rintro ⟨⟨node, j⟩, hmem, heq⟩
    cases heq
    exact ⟨node, by simpa using List.mem_zipIdx_iff_getElem?.1 hmem, rfl⟩
  · rintro ⟨node, hnode, rfl⟩
    exact ⟨(node, i), List.mem_zipIdx_iff_getElem?.2 (by simpa using hnode), rfl⟩

theorem has_iff : s.indices.has root = true ↔ ∃ node ∈ s.nodes, node.blockRoot = root := by
  unfold OrderedMap.has
  rw [Option.isSome_iff_exists]
  constructor
  · rintro ⟨i, hi⟩
    obtain ⟨node, hnode, hroot⟩ := h.get?_iff.1 hi
    exact ⟨node, List.mem_of_getElem? hnode, hroot⟩
  · rintro ⟨node, hmem, hroot⟩
    obtain ⟨i, hi⟩ := List.getElem?_of_mem hmem
    exact ⟨i, h.get?_iff.2 ⟨node, hi, hroot⟩⟩

theorem get?_rootOf (hi : i < s.nodes.length) : s.indices.get? (s.rootOf i) = some i := by
  have hget := List.getElem?_eq_getElem hi
  exact h.get?_iff.2 ⟨s.nodes[i], hget, (rootOf_node hget).symm⟩

variable {i j p a d c : Nat}

theorem rootOf_inj (hi : i < s.nodes.length) (hj : j < s.nodes.length) (heq : s.rootOf i = s.rootOf j) :
    i = j := by
  have hroot := h.get?_rootOf hi
  rw [heq, h.get?_rootOf hj] at hroot
  exact (Option.some.inj hroot).symm

theorem parent_lt (hi : s.parentOf i = some p) : p < s.nodes.length :=
  Nat.lt_trans (h.parentsFirst i p hi) (lt_of_parentOf hi)

theorem subtree_lt (ha : a < s.nodes.length) (hi : inSubtree s.parentOf a i = true) : i < s.nodes.length := by
  rcases (inSubtree_iff h.parentsFirst).1 hi with rfl | ⟨p, hp, -⟩
  · exact ha
  · exact lt_of_parentOf hp

theorem descendant_mem (hd : s.bestDescendantOf i = some d) : inSubtree s.parentOf i d = true := by
  cases hc : s.bestChildOf i with
  | none => rw [(h.linked i).1 hc] at hd; cases hd
  | some c =>
    exact inSubtree_trans h.parentsFirst (inSubtree_parent h.parentsFirst (h.bestChild i c hc)) d
      (h.bestDescendant i c d hc hd)

theorem descendant_lt (hd : s.bestDescendantOf i = some d) : d < s.nodes.length := by
  cases hc : s.bestChildOf i with
  | none => rw [(h.linked i).1 hc] at hd; cases hd
  | some c => exact h.subtree_lt (lt_of_parentOf (h.bestChild i c hc)) (h.bestDescendant i c d hc hd)

theorem bestChild_lt (hc : s.bestChildOf p = some c) : c < s.nodes.length :=
  lt_of_parentOf (h.bestChild p c hc)

theorem nodeLeadsToViableHead_eq {node : ProtoNode} (hi : s.nodes[i]? = some node) :
    s.nodeLeadsToViableHead node = .ok (s.leadsAt i) := by
  have hv : s.viableAt i = s.nodeIsViableForHead node := by
    unfold viableAt
    rw [hi]
    rfl
  have hbd : s.bestDescendantOf i = node.bestDescendant := by
    unfold bestDescendantOf
    rw [hi]
    rfl
  unfold nodeLeadsToViableHead leadsAt
  rw [hv, hbd]
  cases hd : node.bestDescendant with
  | none => rfl
  | some d =>
    have hlt : d < s.nodes.length := h.descendant_lt (hbd.trans hd)
    dsimp only
    unfold viableAt
    rw [Option.any_some, List.getElem?_eq_getElem hlt]
    rfl

end WellFormed

/-! ## One comparison -/

def prefers (s : ProtoArray) (c b : Nat) : Bool :=
  if s.leadsAt c && !s.leadsAt b then true
  else if !s.leadsAt c && s.leadsAt b then false
  else if s.weightOf c = s.weightOf b then decide (s.rootOf b ≤ s.rootOf c)
  else decide (s.weightOf b ≤ s.weightOf c)

def tipOf (s : ProtoArray) (i : Nat) : Nat := (s.bestDescendantOf i).getD i

def chosenLinks (s : ProtoArray) (p c : Nat) : Option Nat × Option Nat :=
  match s.bestChildOf p with
  | some b =>
    if b = c then if s.leadsAt c then (some c, some (s.tipOf c)) else (none, none)
    else if s.prefers c b then (some c, some (s.tipOf c)) else (s.bestChildOf p, s.bestDescendantOf p)
  | none => if s.leadsAt c then (some c, some (s.tipOf c)) else (s.bestChildOf p, s.bestDescendantOf p)

theorem maybeUpdate_eq (h : s.WellFormed) (hpc : s.parentOf c = some p) :
    s.maybeUpdateBestChildAndDescendant p c = .ok (s.setLinks p (s.chosenLinks p c)) := by
  have hc := lt_of_parentOf hpc
  have hp := h.parent_lt hpc
  have hcn := List.getElem?_eq_getElem hc
  have hpn := List.getElem?_eq_getElem hp
  have hbc : s.bestChildOf p = s.nodes[p].bestChild := by unfold bestChildOf; rw [hpn]; rfl
  have hbd : s.bestDescendantOf p = s.nodes[p].bestDescendant := by unfold bestDescendantOf; rw [hpn]; rfl
  have htip : s.tipOf c = s.nodes[c].bestDescendant.getD c := by unfold tipOf bestDescendantOf; rw [hcn]; rfl
  unfold maybeUpdateBestChildAndDescendant setLinks
  rw [hcn, hpn]
  dsimp only
  rw [h.nodeLeadsToViableHead_eq hcn, ← htip]
  unfold chosenLinks
  rw [hbc, hbd]
  simp only [bind, Except.bind, pure, Except.pure]
  cases hb : s.nodes[p].bestChild with
  | none =>
    cases s.leadsAt c <;> rfl
  | some b =>
    dsimp only
    by_cases hbceq : b = c
    · subst hbceq
      cases s.leadsAt b <;> simp
    · have hblt := h.bestChild_lt (hbc.trans hb)
      have hbn := List.getElem?_eq_getElem hblt
      rw [if_neg (by simp [hbceq]), if_neg hbceq, if_neg hbceq, hbn]
      dsimp only
      rw [h.nodeLeadsToViableHead_eq hbn]
      unfold prefers
      have hwc : s.weightOf c = s.nodes[c].weight := by unfold weightOf; rw [hcn]; rfl
      have hwb : s.weightOf b = s.nodes[b].weight := by unfold weightOf; rw [hbn]; rfl
      have hrc : s.rootOf c = s.nodes[c].blockRoot := rootOf_node hcn
      have hrb : s.rootOf b = s.nodes[b].blockRoot := rootOf_node hbn
      rw [hwc, hwb, hrc, hrb]
      cases s.leadsAt c <;> cases s.leadsAt b <;> simp <;> split <;> split <;> simp_all

theorem WellFormed.tip_mem (h : s.WellFormed) (i : Nat) : inSubtree s.parentOf i (s.tipOf i) = true := by
  unfold tipOf
  cases hd : s.bestDescendantOf i with
  | none => exact inSubtree_refl h.parentsFirst i
  | some d => exact h.descendant_mem hd

theorem keys_of_sameTree (ht : SameTree s s') (h : s.indices.entries = s.nodes.zipIdx.map (fun x => (x.1.blockRoot, x.2))) :
    s'.indices.entries = s'.nodes.zipIdx.map (fun x => (x.1.blockRoot, x.2)) := by
  have hroots : s'.nodes.map (·.blockRoot) = s.nodes.map (·.blockRoot) := by
    have := congrArg (List.map (fun x => x.1.blockRoot)) ht.blocks
    simpa [Function.comp_def] using this
  have hzip : ∀ nodes : List ProtoNode, nodes.zipIdx.map (fun x => (x.1.blockRoot, x.2)) =
      (nodes.map (·.blockRoot)).zipIdx := by
    intro nodes
    rw [List.zipIdx_map]
    rfl
  rw [ht.indices, h, hzip, hzip, hroots]

theorem WellFormed.setLinks (h : s.WellFormed) (hpc : s.parentOf c = some p) :
    (s.setLinks p (s.chosenLinks p c)).WellFormed := by
  have hp := h.parent_lt hpc
  have ht := setLinks_sameTree s p (s.chosenLinks p c)
  have hcases : s.chosenLinks p c = (some c, some (s.tipOf c)) ∨ s.chosenLinks p c = (none, none) ∨
      s.chosenLinks p c = (s.bestChildOf p, s.bestDescendantOf p) := by
    unfold chosenLinks
    split
    · split
      · split
        · exact .inl rfl
        · exact .inr (.inl rfl)
      · split
        · exact .inl rfl
        · exact .inr (.inr rfl)
    · split
      · exact .inl rfl
      · exact .inr (.inr rfl)
  constructor
  · exact keys_of_sameTree ht h.keys
  · rw [ht.parentOf]
    exact h.parentsFirst
  · intro q c' hq
    rw [bestChildOf_setLinks hp] at hq
    rw [ht.parentOf]
    split at hq
    · rename_i heq
      subst heq
      rcases hcases with hl | hl | hl <;> rw [hl] at hq
      · cases hq
        exact hpc
      · cases hq
      · exact h.bestChild q c' hq
    · exact h.bestChild q c' hq
  · intro q
    rw [bestChildOf_setLinks hp, bestDescendantOf_setLinks hp]
    split
    · rename_i heq
      subst heq
      rcases hcases with hl | hl | hl <;> rw [hl]
      · simp
      · exact h.linked q
    · exact h.linked q
  · intro q c' d hq hd
    rw [bestChildOf_setLinks hp] at hq
    rw [bestDescendantOf_setLinks hp] at hd
    rw [ht.parentOf]
    split at hq
    · rename_i heq
      subst heq
      rw [if_pos rfl] at hd
      rcases hcases with hl | hl | hl <;> rw [hl] at hq hd
      · cases hq
        cases hd
        exact h.tip_mem c
      · cases hq
      · exact h.bestDescendant q c' d hq hd
    · rename_i hne
      rw [if_neg hne] at hd
      exact h.bestDescendant q c' d hq hd

theorem WellFormed.addWeight (h : s.WellFormed) (i : Nat) (w : Int) : (s.addWeight i w).WellFormed := by
  have ht := addWeight_sameTree s i w
  constructor
  · exact keys_of_sameTree ht h.keys
  · rw [ht.parentOf]
    exact h.parentsFirst
  · intro p c hc
    rw [bestChildOf_addWeight] at hc
    rw [ht.parentOf]
    exact h.bestChild p c hc
  · intro p
    rw [bestChildOf_addWeight, bestDescendantOf_addWeight]
    exact h.linked p
  · intro p c d hc hd
    rw [bestChildOf_addWeight] at hc
    rw [bestDescendantOf_addWeight] at hd
    rw [ht.parentOf]
    exact h.bestDescendant p c d hc hd

/-! ## The backward pass -/

def visit (i : Nat) (deltas : List Int) (s : ProtoArray) : List Int × ProtoArray :=
  if s.rootOf i = HEX_ZERO_HASH then (deltas, s)
  else
    let s' := s.addWeight i (deltas.getD i 0)
    match s.parentOf i with
    | none => (deltas, s')
    | some p => (deltas.set p (deltas.getD p 0 + deltas.getD i 0), s'.setLinks p (s'.chosenLinks p i))

variable {deltas : List Int}

theorem applyScoreLoop_succ (h : s.WellFormed) (hi : i < s.nodes.length) (hlen : deltas.length = s.nodes.length) :
    applyScoreLoop (i + 1) deltas s = applyScoreLoop i (visit i deltas s).1 (visit i deltas s).2 := by
  have hin := List.getElem?_eq_getElem hi
  have hroot : s.rootOf i = s.nodes[i].blockRoot := rootOf_node hin
  have hpar : s.parentOf i = s.nodes[i].parent := parentOf_node hin
  rw [applyScoreLoop, hin]
  unfold visit
  rw [hroot, hpar]
  dsimp only
  split
  · rfl
  have hdi : deltas[i]? = some (deltas.getD i 0) := by
    rw [List.getD_eq_getElem?_getD, List.getElem?_eq_getElem (by omega)]
    rfl
  rw [hdi]
  have hadd : s.setNode i { s.nodes[i] with weight := s.nodes[i].weight + deltas.getD i 0 } =
      s.addWeight i (deltas.getD i 0) := by
    unfold addWeight
    rw [hin]
  dsimp only
  rw [hadd]
  cases hp : s.nodes[i].parent with
  | none => rfl
  | some p =>
    have hpi : s.parentOf i = some p := hpar.trans hp
    have hplt := h.parent_lt hpi
    have hdp : deltas[p]? = some (deltas.getD p 0) := by
      rw [List.getD_eq_getElem?_getD, List.getElem?_eq_getElem (by omega)]
      rfl
    dsimp only
    rw [hdp]
    rw [maybeUpdate_eq (h.addWeight i _) (by rw [(addWeight_sameTree s i _).parentOf]; exact hpi)]

section

variable (i : Nat) (deltas : List Int) (s : ProtoArray)

theorem visit_length : (visit i deltas s).1.length = deltas.length := by
  unfold visit
  split
  · rfl
  · split
    · rfl
    · simp

theorem visit_sameTree : SameTree s (visit i deltas s).2 := by
  unfold visit
  split
  · exact SameTree.refl s
  · split
    · exact addWeight_sameTree s i _
    · exact (addWeight_sameTree s i _).trans (setLinks_sameTree _ _ _)

theorem visit_justifiedEpoch : (visit i deltas s).2.justifiedEpoch = s.justifiedEpoch := by
  unfold visit
  split
  · rfl
  · split <;> simp

theorem visit_finalizedEpoch : (visit i deltas s).2.finalizedEpoch = s.finalizedEpoch := by
  unfold visit
  split
  · rfl
  · split <;> simp

end

theorem visit_wellFormed (h : s.WellFormed) (i : Nat) (deltas : List Int) :
    (visit i deltas s).2.WellFormed := by
  unfold visit
  split
  · exact h
  · split
    · exact h.addWeight i _
    · rename_i p hp
      exact (h.addWeight i _).setLinks (by rw [(addWeight_sameTree s i _).parentOf]; exact hp)

structure PassKeeps (s₀ : ProtoArray) (deltas : List Int) (s : ProtoArray) : Prop where
  wellFormed : s.WellFormed
  sameTree : SameTree s₀ s
  justifiedEpoch : s.justifiedEpoch = s₀.justifiedEpoch
  finalizedEpoch : s.finalizedEpoch = s₀.finalizedEpoch
  length : deltas.length = s₀.nodes.length

variable {s₀ : ProtoArray}

theorem PassKeeps.visit (h : PassKeeps s₀ deltas s) (i : Nat) :
    PassKeeps s₀ (visit i deltas s).1 (visit i deltas s).2 :=
  ⟨visit_wellFormed h.wellFormed i deltas, h.sameTree.trans (visit_sameTree i deltas s),
    (visit_justifiedEpoch i deltas s).trans h.justifiedEpoch, (visit_finalizedEpoch i deltas s).trans h.finalizedEpoch,
    (visit_length i deltas s).trans h.length⟩

/-- **The invariant rule of the backward pass**: what a round at `i` takes from `i + 1` to `i` holds at the end, which the
pass reaches. -/
theorem applyScoreLoop_rule (P : Nat → List Int → ProtoArray → Prop)
    (hstep : ∀ i deltas s, i < s₀.nodes.length → PassKeeps s₀ deltas s → P (i + 1) deltas s →
      P i (visit i deltas s).1 (visit i deltas s).2) :
    ∀ (k : Nat) (deltas : List Int) (s : ProtoArray), k ≤ s₀.nodes.length → PassKeeps s₀ deltas s → P k deltas s →
      ∃ deltas' s', applyScoreLoop k deltas s = (.ok (), s') ∧ PassKeeps s₀ deltas' s' ∧ P 0 deltas' s'
  | 0, deltas, s, _, hk, hP => ⟨deltas, s, rfl, hk, hP⟩
  | i + 1, deltas, s, hle, hk, hP => by
    have hlen := hk.sameTree.length
    rw [applyScoreLoop_succ hk.wellFormed (by omega) (hk.length.trans hlen.symm)]
    exact applyScoreLoop_rule P hstep i _ _ (by omega) (hk.visit i) (hstep i deltas s (by omega) hk hP)

/-! ## Weights along the pass -/

def ZeroHashIsRoot (s : ProtoArray) : Prop := ∀ i, s.rootOf i = HEX_ZERO_HASH → s.parentOf i = none

/-- The weights and the deltas when the nodes from `k` on have been visited. -/
structure PassWeights (s₀ : ProtoArray) (δ : Nat → Int) (k : Nat) (deltas : List Int) (s : ProtoArray) : Prop where
  deltas : ∀ j, j < k → deltas.getD j 0 = carried s₀.parentOf s₀.nodes.length δ k j
  before : ∀ j, j < k → s.weightOf j = s₀.weightOf j
  after : ∀ j, k ≤ j → j < s₀.nodes.length → s₀.rootOf j ≠ HEX_ZERO_HASH →
    s.weightOf j = s₀.weightOf j + subtreeSum s₀.parentOf s₀.nodes.length δ j

theorem getD_set (l : List Int) (hp : p < l.length) (v : Int) (j : Nat) :
    (l.set p v).getD j 0 = if j = p then v else l.getD j 0 := by
  rw [List.getD_eq_getElem?_getD, List.getElem?_set, List.getD_eq_getElem?_getD]
  by_cases h : p = j
  · subst h
    simp [hp]
  · rw [if_neg h, if_neg (Ne.symm h)]

theorem PassWeights.start (h : s₀.WellFormed) (deltas : List Int) (s : ProtoArray) (hw : ∀ j, s.weightOf j = s₀.weightOf j) :
    PassWeights s₀ (fun j => deltas.getD j 0) s₀.nodes.length deltas s where
  deltas j hj := (carried_last h.parentsFirst s₀.nodes.length (fun j => deltas.getD j 0) hj).symm
  before j _ := hw j
  after j hj hlt := absurd hlt (by omega)

theorem PassWeights.visit (hz : s₀.ZeroHashIsRoot) {δ : Nat → Int} (hi : i < s₀.nodes.length) (hk : PassKeeps s₀ deltas s)
    (hP : PassWeights s₀ δ (i + 1) deltas s) :
    PassWeights s₀ δ i (visit i deltas s).1 (visit i deltas s).2 := by
  have hwf₀ : ParentsFirst s₀.parentOf := by rw [← hk.sameTree.parentOf]; exact hk.wellFormed.parentsFirst
  have hstep := fun j (hj : j < i) => carried_step hwf₀ s₀.nodes.length δ hj
  have hself := carried_self hwf₀ s₀.nodes.length δ i
  have hdi : deltas.getD i 0 = subtreeSum s₀.parentOf s₀.nodes.length δ i := (hP.deltas i (by omega)).trans hself
  have hilt : i < s.nodes.length := by rw [hk.sameTree.length]; exact hi
  unfold ProtoArray.visit
  rw [hk.sameTree.rootOf, hk.sameTree.parentOf]
  split
  · rename_i hzero
    have hnone := hz i hzero
    refine ⟨fun j hj => ?_, fun j hj => hP.before j (by omega), fun j hj hlt hne => ?_⟩
    · rw [hP.deltas j (by omega), hstep j hj, hnone]
      simp
    · rcases Nat.eq_or_lt_of_le hj with rfl | hj
      · exact absurd hzero hne
      · exact hP.after j hj hlt hne
  have hweight : ∀ j, (s.addWeight i (deltas.getD i 0)).weightOf j =
      if j = i then s₀.weightOf i + subtreeSum s₀.parentOf s₀.nodes.length δ i else s.weightOf j := by
    intro j
    rw [weightOf_addWeight hilt, hdi, hP.before i (by omega)]
  have hafter : ∀ (s' : ProtoArray), (∀ j, s'.weightOf j = (s.addWeight i (deltas.getD i 0)).weightOf j) →
      ∀ j, i ≤ j → j < s₀.nodes.length → s₀.rootOf j ≠ HEX_ZERO_HASH →
      s'.weightOf j = s₀.weightOf j + subtreeSum s₀.parentOf s₀.nodes.length δ j := by
    intro s' hs' j hj hlt hne
    rw [hs', hweight]
    rcases Nat.eq_or_lt_of_le hj with rfl | hj
    · rw [if_pos rfl]
    · rw [if_neg (by omega)]
      exact hP.after j hj hlt hne
  split
  · rename_i hnone
    refine ⟨fun j hj => ?_, fun j hj => ?_, hafter _ (fun _ => rfl)⟩
    · rw [hP.deltas j (by omega), hstep j hj, hnone]
      simp
    · rw [hweight, if_neg (by omega)]
      exact hP.before j (by omega)
  · rename_i p hp
    have hplt : p < i := hwf₀ i p hp
    refine ⟨fun j hj => ?_, fun j hj => ?_, hafter _ (fun j => weightOf_setLinks j)⟩
    · rw [getD_set deltas (by rw [hk.length]; omega), hstep j hj, hp]
      by_cases hjp : j = p
      · subst hjp
        rw [if_pos rfl, if_pos rfl, hP.deltas j (by omega), hP.deltas i (by omega)]
      · rw [if_neg hjp, if_neg (by simpa using Ne.symm hjp), hP.deltas j (by omega), add_zero]
    · rw [weightOf_setLinks, hweight, if_neg (by omega)]
      exact hP.before j (by omega)

/-! ## The epochs -/

section

variable (s : ProtoArray) (je fe : Nat)

theorem withEpochs_nodes : (s.withEpochs je fe).nodes = s.nodes := by
  unfold withEpochs
  split <;> rfl

theorem withEpochs_indices : (s.withEpochs je fe).indices = s.indices := by
  unfold withEpochs
  split <;> rfl

theorem withEpochs_sameTree : SameTree s (s.withEpochs je fe) :=
  ⟨by rw [withEpochs_nodes], withEpochs_indices s je fe⟩

end

theorem WellFormed.of_nodes (h : s.WellFormed) (hn : s'.nodes = s.nodes) (hi : s'.indices = s.indices) : s'.WellFormed := by
  have hp : s'.parentOf = s.parentOf := by unfold parentOf; rw [hn]
  have hc : s'.bestChildOf = s.bestChildOf := by unfold bestChildOf; rw [hn]
  have hd : s'.bestDescendantOf = s.bestDescendantOf := by unfold bestDescendantOf; rw [hn]
  constructor
  · rw [hi, hn]
    exact h.keys
  · rw [hp]
    exact h.parentsFirst
  · rw [hp, hc]
    exact h.bestChild
  · rw [hc, hd]
    exact h.linked
  · rw [hp, hc, hd]
    exact h.bestDescendant

theorem PassKeeps.start (h : s.WellFormed) (hlen : deltas.length = s.nodes.length) (je fe : Nat) :
    PassKeeps (s.withEpochs je fe) deltas (s.withEpochs je fe) :=
  ⟨h.of_nodes (withEpochs_nodes s je fe) (withEpochs_indices s je fe), SameTree.refl _, rfl, rfl,
    by rw [withEpochs_nodes]; exact hlen⟩

/-- **`applyScoreChanges` on a well-formed array**: a wrong number of deltas is refused and changes nothing; otherwise the
pass runs to its end, and every weight is raised by the deltas of its subtree. -/
theorem applyScoreChanges_run (h : s.WellFormed) (deltas : List Int) (je fe : Nat) :
    (deltas.length ≠ s.nodes.length ∧ ∃ e, s.applyScoreChanges deltas je fe = (.error e, s)) ∨
    (deltas.length = s.nodes.length ∧ ∃ s', s.applyScoreChanges deltas je fe = (.ok (), s') ∧ s'.WellFormed ∧
      SameTree s s' ∧ s'.justifiedEpoch = (s.withEpochs je fe).justifiedEpoch ∧
      s'.finalizedEpoch = (s.withEpochs je fe).finalizedEpoch ∧
      (s.ZeroHashIsRoot → ∀ i, i < s.nodes.length → s.rootOf i ≠ HEX_ZERO_HASH →
        s'.weightOf i = s.weightOf i + subtreeSum s.parentOf s.nodes.length (fun j => deltas.getD j 0) i)) := by
  unfold applyScoreChanges
  rw [h.size]
  by_cases hlen : deltas.length = s.nodes.length
  · right
    refine ⟨hlen, ?_⟩
    rw [if_neg (by simpa using hlen)]
    have ht := withEpochs_sameTree s je fe
    have hstart := PassKeeps.start h hlen je fe
    obtain ⟨ds, s', hrun, hkeeps, hw⟩ := applyScoreLoop_rule
      (fun k ds s'' => s.ZeroHashIsRoot → PassWeights (s.withEpochs je fe) (fun j => deltas.getD j 0) k ds s'')
      (fun i ds s'' hi hk hP hz => (hP hz).visit (by
        unfold ZeroHashIsRoot
        rw [ht.rootOf, ht.parentOf]
        exact hz) hi hk)
      s.nodes.length deltas _ (by rw [withEpochs_nodes]) hstart (fun _ => by
        have := PassWeights.start hstart.wellFormed deltas _ (fun _ => rfl)
        rwa [withEpochs_nodes] at this)
    refine ⟨s', hrun, hkeeps.wellFormed, ht.trans hkeeps.sameTree, hkeeps.justifiedEpoch, hkeeps.finalizedEpoch, ?_⟩
    intro hz i hi hne
    have := (hw hz).after i (Nat.zero_le i) (by rw [withEpochs_nodes]; exact hi) (by rw [ht.rootOf]; exact hne)
    rw [this, ht.parentOf, withEpochs_nodes]
    unfold weightOf
    rw [withEpochs_nodes]
  · left
    refine ⟨hlen, ?_⟩
    rw [if_pos hlen]
    exact ⟨_, rfl⟩

end ProtoArray

end Lodestar
