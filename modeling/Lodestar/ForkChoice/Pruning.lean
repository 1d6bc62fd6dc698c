import Lodestar.ForkChoice.BlockSummaries
/-!
# Pruning — what the fork choice still knows after the tree was cut

`maybePrune` removes the nodes before the finalized one and moves the indices of the others.  A parent link into the removed
part is lost; every other link, and every answer about two blocks that stay, is the same (`maybePrune_keeps`).
-/
namespace Lodestar

open Lib Forest

namespace ProtoArray

theorem reachesNode_shifted (f : Nat) (ancestorNode : ProtoNode) : ∀ (nodes : List ProtoNode),
    reachesNode (shifted f ancestorNode) (nodes.map (shifted f)) = reachesNode ancestorNode nodes
  | [] => rfl
  | node :: nodes => by
    have hrest := reachesNode_shifted f ancestorNode nodes
    simp only [List.map_cons, reachesNode, hrest]
    rfl

theorem reachesNode_append {ancestorNode : ProtoNode} {back : List ProtoNode}
    (hback : ∀ node ∈ back, node.blockRoot ≠ ancestorNode.blockRoot) : ∀ (front : List ProtoNode),
    reachesNode ancestorNode (front ++ back) = reachesNode ancestorNode front
  | [] => by
    show reachesNode ancestorNode back = false
    induction back with
    | nil => rfl
    | cons node back ih =>
      have hrest := ih (fun node' hmem => hback node' (List.mem_cons_of_mem node hmem))
      simp [reachesNode, hrest, hback node List.mem_cons_self]
  | node :: front => by
    have hrest := reachesNode_append hback front
    simp only [List.cons_append, reachesNode, hrest]

namespace CutAt

variable {f : Nat} {s s' : ProtoArray} (h : CutAt f s s') (hwf : s.WellFormed)

include h hwf

variable {root : HexRoot} {k : Nat}

/-- **The blocks that stay** are those from the cut on. -/
theorem get?_iff : s'.indices.get? root = some k ↔ s.indices.get? root = some (k + f) := by
  rw [(h.wellFormed hwf).get?_iff, hwf.get?_iff, h.getElem? k]
  constructor
  · rintro ⟨node', hnode', rfl⟩
    obtain ⟨node, hnode, rfl⟩ := Option.map_eq_some_iff.1 hnode'
    exact ⟨node, hnode, rfl⟩
  · rintro ⟨node, hnode, rfl⟩
    exact ⟨shifted f node, by rw [hnode]; rfl, rfl⟩

theorem getNode_eq (hk : s'.indices.get? root = some k) :
    s'.getNode root = (s.getNode root).map (shifted f) := by
  have hold := (h.get?_iff hwf).1 hk
  unfold getNode getNodeByIndex
  rw [hk, hold]
  exact h.getElem? k

theorem iterateNodes_cut (hk : s'.indices.get? root = some k) : ∃ front back,
    s.iterateNodes root = .ok (front ++ back) ∧ s'.iterateNodes root = .ok (front.map (shifted f)) ∧
      ∀ node ∈ back, ∃ j < f, s.nodes[j]? = some node := by
  obtain ⟨rest, hpath, hrest⟩ := path_cut hwf.parentsFirst f k
  refine ⟨s.nodesAt ((path (cutParent s.parentOf f) k).map (· + f)), s.nodesAt rest, ?_, ?_, fun node hnode => ?_⟩
  · rw [iterateNodes_eq hwf ((h.get?_iff hwf).1 hk), hpath, nodesAt_append]
  · rw [iterateNodes_eq (h.wellFormed hwf) hk, h.parentOf]
    unfold nodesAt
    rw [List.filterMap_map, List.map_filterMap]
    refine congrArg Except.ok (congrArg (List.filterMap · _) (funext fun i => ?_))
    exact h.getElem? i
  · obtain ⟨j, hj, hnode⟩ := mem_nodesAt.1 hnode
    exact ⟨j, hrest j hj, hnode⟩

/-- **The walk up from a block that stays** meets the same blocks that stay. -/
theorem isDescendant {a d : HexRoot} {ka kd : Nat} (ha : s'.indices.get? a = some ka) (hd : s'.indices.get? d = some kd) :
    s'.isDescendant a d = s.isDescendant a d := by
  obtain ⟨ancestorNode, hnode, rfl⟩ := hwf.get?_iff.1 ((h.get?_iff hwf).1 ha)
  obtain ⟨front, back, hold, hnew, hback⟩ := h.iterateNodes_cut hwf hd
  have hget : s.getNode ancestorNode.blockRoot = some ancestorNode := by
    unfold getNode getNodeByIndex
    rw [(h.get?_iff hwf).1 ha]
    exact hnode
  have hother : ∀ node ∈ back, node.blockRoot ≠ ancestorNode.blockRoot := by
    intro node hmem hroot
    obtain ⟨j, hj, hnode'⟩ := hback node hmem
    have hsame := (h.get?_iff hwf).1 ha
    rw [hwf.get?_iff.2 ⟨node, hnode', hroot⟩] at hsame
    have := Option.some.inj hsame
    omega
  unfold ProtoArray.isDescendant
  rw [h.getNode_eq hwf ha, hget, hold, hnew]
  simp only [Option.map_some, Except.map, reachesNode_shifted, reachesNode_append hother]

theorem bestLinks (k : Nat) : (s'.bestChildOf k).map s'.rootOf = (s.bestChildOf (k + f)).map s.rootOf ∧
    (s'.bestDescendantOf k).map s'.rootOf = (s.bestDescendantOf (k + f)).map s.rootOf := by
  have hlinks : ∀ link : Option Nat, (∀ j, link = some j → f ≤ j) →
      (link.map (· - f)).map s'.rootOf = link.map s.rootOf := by
    intro link hle
    cases link with
    | none => rfl
    | some j =>
      have hj := hle j rfl
      simp only [Option.map_some]
      rw [h.rootOf, Nat.sub_add_cancel hj]
  rw [h.bestChildOf, h.bestDescendantOf]
  constructor
  · refine hlinks _ (fun j hj => ?_)
    have := hwf.parentsFirst _ _ (hwf.bestChild _ _ hj)
    omega
  · refine hlinks _ (fun j hj => ?_)
    have := inSubtree_le hwf.parentsFirst _ (hwf.descendant_mem hj)
    omega

/-- **The head found from a block that stays** is the same. -/
theorem findHead (hk : s'.indices.get? root = some k) : s'.findHead root = s.findHead root := by
  have hold := (h.get?_iff hwf).1 hk
  obtain ⟨node, hnode, -⟩ := hwf.get?_iff.1 hold
  have hbest : s.bestDescendantOf (k + f) = node.bestDescendant := by
    unfold ProtoArray.bestDescendantOf
    rw [hnode]
    rfl
  obtain ⟨hle, hlt⟩ : f ≤ node.bestDescendant.getD (k + f) ∧ node.bestDescendant.getD (k + f) < s.nodes.length := by
    cases hd : node.bestDescendant with
    | none => exact ⟨Nat.le_add_left f k, (List.getElem?_eq_some_iff.1 hnode).1⟩
    | some d =>
      have := inSubtree_le hwf.parentsFirst _ (hwf.descendant_mem (hbest.trans hd))
      have := hwf.descendant_lt (hbest.trans hd)
      rw [Option.getD_some]
      omega
  have hindex : (shifted f node).bestDescendant.getD k = node.bestDescendant.getD (k + f) - f := by
    unfold shifted
    cases node.bestDescendant <;> simp
  have hviable : ∀ node : ProtoNode, s'.nodeIsViableForHead (shifted f node) = s.nodeIsViableForHead node := by
    intro node
    unfold nodeIsViableForHead
    rw [h.justifiedEpoch, h.finalizedEpoch]
    rfl
  unfold ProtoArray.findHead
  rw [hk, hold]
  dsimp only
  rw [h.getElem? k, hnode]
  dsimp only [Option.map_some]
  rw [hindex, h.getElem?, Nat.sub_add_cancel hle, h.justifiedEpoch, h.finalizedEpoch, List.getElem?_eq_getElem hlt]
  simp only [Option.map_some, hviable]
  rfl

end CutAt

/-- **`maybePrune` at a known block removes the blocks before it and nothing else changes.**  The blocks removed are returned
in order; those that stay keep their data and weights under indices moved down, the blocks their best links lead to, which of
them descend from which, and the head that is found from each. -/
theorem maybePrune_keeps {s : ProtoArray} (h : s.WellFormed) {finalizedRoot : HexRoot} {f : Nat}
    (hf : s.indices.get? finalizedRoot = some f) (hthreshold : s.pruneThreshold ≤ f) :
    ∃ s', s.maybePrune finalizedRoot = (.ok (s.nodes.take f), s') ∧
      s'.nodes.map (fun node => (node.toProtoBlock, node.weight)) =
        (s.nodes.drop f).map (fun node => (node.toProtoBlock, node.weight)) ∧
      (∀ root k, s'.indices.get? root = some k ↔ s.indices.get? root = some (k + f)) ∧
      (∀ k, (s'.bestChildOf k).map s'.rootOf = (s.bestChildOf (k + f)).map s.rootOf ∧
        (s'.bestDescendantOf k).map s'.rootOf = (s.bestDescendantOf (k + f)).map s.rootOf) ∧
      (∀ a d, s'.hasBlock a = true → s'.hasBlock d = true → s'.isDescendant a d = s.isDescendant a d) ∧
      ∀ root, s'.hasBlock root = true → s'.findHead root = s.findHead root := by
  rcases maybePrune_run h finalizedRoot with ⟨hnone, -⟩ | ⟨f', hf', hlt, -⟩ | ⟨f', s', hf', hrun, hcut⟩
  · rw [hf] at hnone
    cases hnone
  · rw [hf] at hf'
    cases hf'
    exact absurd hlt (Nat.not_lt.2 hthreshold)
  · rw [hf] at hf'
    cases hf'
    refine ⟨s', hrun, ?_, fun root k => hcut.get?_iff h, hcut.bestLinks h, fun a d ha hd => ?_, fun root hroot => ?_⟩
    · rw [hcut.nodes, List.map_map]
      rfl
    · obtain ⟨ka, hka⟩ := Option.isSome_iff_exists.1 ha
      obtain ⟨kd, hkd⟩ := Option.isSome_iff_exists.1 hd
      exact hcut.isDescendant h hka hkd
    · obtain ⟨k, hk⟩ := Option.isSome_iff_exists.1 hroot
      exact hcut.findHead h hk

def grownFork : List Op :=
  fork ++ [.onBlock (genesisBlock 2 "d" "b"), .applyScoreChanges [0, 0, 1, 2] 0 0]

theorem maybePrune_keeps_grownFork : (runOps (new 0 0 0) grownFork).findHead "b" = .ok "d" ∧
    ∃ s', (runOps (new 0 0 0) grownFork).maybePrune "b" = (.ok ((runOps (new 0 0 0) grownFork).nodes.take 1), s') ∧
      s'.findHead "b" = .ok "d" := by
  have hbefore : (runOps (new 0 0 0) grownFork).findHead "b" = .ok "d" := by decide
  have hroot : (runOps (new 0 0 0) grownFork).indices.get? "b" = some 1 := by decide
  obtain ⟨s', hrun, -, hknown, -, -, hhead⟩ :=
    maybePrune_keeps (WellFormed.runOps grownFork (WellFormed.new 0 0 0)) hroot (by decide)
  have hstays : s'.hasBlock "b" = true := Option.isSome_iff_exists.2 ⟨0, (hknown "b" 0).2 (by decide)⟩
  exact ⟨hbefore, s', hrun, (hhead "b" hstays).trans hbefore⟩

end ProtoArray

end Lodestar
