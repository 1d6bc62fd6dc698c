import Lodestar.Lib.Ancestors
import Lodestar.Db.BeaconDb
import Lodestar.ForkChoice.BestChild
import Lodestar.ForkChoice.ForkChoiceRuns
/-!
# BlockSummaries — the walks over the block tree

`iterateNodes` goes up the parents of a node and `iterateNonAncestorNodes` lists what lies in the gaps between them.  On a
well-formed array both return: the first the path of the node, the second the nodes before it that are off its path, where the
path ends at the first node of the array.
-/
namespace Lodestar

open Lib Forest
open Db (BlockSummary)

namespace ProtoArray

def getNodesBetween (s : ProtoArray) : Nat → Nat → Except ProtoArrayError (List ProtoNode)
  | 0, _ => .ok []
  | index + 1, lowerIndex =>
    if index > lowerIndex then
      match s.nodes[index]? with
      | none => .error (.INVALID_NODE_INDEX index)
      | some node => (s.getNodesBetween index lowerIndex).map (node :: ·)
    else .ok []

/-- The loop of `iterateNonAncestorNodes` up the parents of a node. -/
def iterateGaps (s : ProtoArray) : Nat → Nat → ProtoNode → Except ProtoArrayError (List ProtoNode)
  | 0, nodeIndex, _ => s.getNodesBetween nodeIndex 0
  | fuel + 1, nodeIndex, node =>
    match node.parent with
    | none => s.getNodesBetween nodeIndex 0
    | some parentIndex =>
      match s.nodes[parentIndex]? with
      | none => .error (.INVALID_NODE_INDEX parentIndex)
      | some node => do
        -- nodes between nodeIndex and parentIndex means non-ancestor nodes
        let between ← s.getNodesBetween nodeIndex parentIndex
        let result ← s.iterateGaps fuel parentIndex node
        return between ++ result

def iterateNonAncestorNodes (s : ProtoArray) (blockRoot : HexRoot) : Except ProtoArrayError (List ProtoNode) :=
  match s.indices.get? blockRoot with
  | none => .ok []
  | some startIndex =>
    match s.nodes[startIndex]? with
    | none => .error (.INVALID_NODE_INDEX startIndex)
    | some node => s.iterateGaps s.nodes.length startIndex node

def SlotsIncrease (s : ProtoArray) : Prop :=
  ∀ i p node parentNode, s.nodes[i]? = some node → s.parentOf i = some p → s.nodes[p]? = some parentNode →
    parentNode.slot < node.slot

variable {s : ProtoArray}

theorem slotsIncrease_of
    (h : ∀ i < s.nodes.length, ∀ p ∈ s.parentOf i,
    (s.nodes.map (·.slot)).getD p 0 < (s.nodes.map (·.slot)).getD i 0) :
    s.SlotsIncrease := by
  intro i p node parentNode hnode hpar hparent
  have hlt := h i (List.getElem?_eq_some_iff.1 hnode).1 p hpar
  simpa [List.getD_eq_getElem?_getD, hnode, hparent] using hlt

/-! ## The nodes the walks return -/

def nodesAt (s : ProtoArray) (indices : List Nat) : List ProtoNode := indices.filterMap fun i => s.nodes[i]?

variable {node : ProtoNode}

theorem nodesAt_cons {i : Nat} (h : s.nodes[i]? = some node) (indices : List Nat) :
    s.nodesAt (i :: indices) = node :: s.nodesAt indices := by
  unfold nodesAt
  rw [List.filterMap_cons, h]

theorem nodesAt_append (s : ProtoArray) (indices indices' : List Nat) :
    s.nodesAt (indices ++ indices') = s.nodesAt indices ++ s.nodesAt indices' :=
  List.filterMap_append

variable {indices : List Nat}

theorem mem_nodesAt : node ∈ s.nodesAt indices ↔ ∃ i ∈ indices, s.nodes[i]? = some node :=
  List.mem_filterMap

theorem nodesAt_dropLast (hlt : ∀ i ∈ indices, i < s.nodes.length) :
    s.nodesAt indices.dropLast = (s.nodesAt indices).dropLast := by
  rcases List.eq_nil_or_concat indices with rfl | ⟨front, i, rfl⟩
  · rfl
  · have hget := List.getElem?_eq_getElem (hlt i (by simp))
    rw [List.concat_eq_append, List.dropLast_concat, nodesAt_append, nodesAt_cons hget]
    exact List.dropLast_concat.symm

theorem getNodesBetween_eq (lower : Nat) : ∀ upper, upper ≤ s.nodes.length →
    s.getNodesBetween upper lower = .ok (s.nodesAt (between upper lower))
  | 0, _ => rfl
  | index + 1, hle => by
    have hget : s.nodes[index]? = some s.nodes[index] := List.getElem?_eq_getElem (by omega)
    unfold getNodesBetween between
    by_cases hlt : lower < index
    · rw [if_pos hlt, if_pos hlt, hget, nodesAt_cons hget, getNodesBetween_eq lower index (by omega)]
      rfl
    · rw [if_neg hlt, if_neg hlt]
      rfl

section Walks

variable {s : ProtoArray} (h : s.WellFormed)

include h

theorem iterateParents_eq : ∀ (fuel i : Nat) (node : ProtoNode), s.nodes[i]? = some node →
    s.iterateParents fuel node = .ok (s.nodesAt (pathFrom s.parentOf fuel i))
  | 0, i, node, hnode => by
    unfold iterateParents pathFrom
    rw [nodesAt_cons hnode]
    rfl
  | fuel + 1, i, node, hnode => by
    have hpar : s.parentOf i = node.parent := parentOf_node hnode
    unfold iterateParents pathFrom
    rw [hpar]
    cases hp : node.parent with
    | none =>
      rw [nodesAt_cons hnode]
      rfl
    | some p =>
      have hget := List.getElem?_eq_getElem (h.parent_lt (hpar.trans hp))
      dsimp only
      rw [hget, nodesAt_cons hnode]
      dsimp only
      rw [iterateParents_eq fuel p _ hget]
      rfl

theorem iterateGaps_eq : ∀ (fuel i : Nat) (node : ProtoNode), s.nodes[i]? = some node →
    s.iterateGaps fuel i node = .ok (s.nodesAt (gapsFrom s.parentOf fuel i))
  | 0, i, node, hnode => getNodesBetween_eq 0 i (List.getElem?_eq_some_iff.1 hnode).1.le
  | fuel + 1, i, node, hnode => by
    have hlen : i ≤ s.nodes.length := (List.getElem?_eq_some_iff.1 hnode).1.le
    have hpar : s.parentOf i = node.parent := parentOf_node hnode
    unfold iterateGaps gapsFrom
    rw [hpar]
    cases hp : node.parent with
    | none => exact getNodesBetween_eq 0 i hlen
    | some p =>
      have hget := List.getElem?_eq_getElem (h.parent_lt (hpar.trans hp))
      dsimp only
      rw [hget]
      dsimp only
      rw [getNodesBetween_eq p i hlen, iterateGaps_eq fuel p _ hget, nodesAt_append]
      rfl

variable {root : HexRoot}

theorem iterateNodes_eq {i : Nat} (hi : s.indices.get? root = some i) :
    s.iterateNodes root = .ok (s.nodesAt (path s.parentOf i)) := by
  obtain ⟨node, hnode, -⟩ := h.get?_iff.1 hi
  have hlt := (List.getElem?_eq_some_iff.1 hnode).1
  unfold iterateNodes path
  rw [hi]
  dsimp only
  rw [hnode]
  dsimp only
  rw [iterateParents_eq h _ i node hnode, pathFrom_fuel h.parentsFirst _ i i hlt.le (Nat.le_refl i)]

theorem iterateNonAncestorNodes_eq {i : Nat} (hi : s.indices.get? root = some i) :
    s.iterateNonAncestorNodes root = .ok (s.nodesAt (gapsFrom s.parentOf s.nodes.length i)) := by
  obtain ⟨node, hnode, -⟩ := h.get?_iff.1 hi
  unfold iterateNonAncestorNodes
  rw [hi]
  dsimp only
  rw [hnode]
  exact iterateGaps_eq h _ i node hnode

theorem slot_lt_of_mem (hslots : s.SlotsIncrease) {a : Nat} {ancestor : ProtoNode} (ha : s.nodes[a]? = some ancestor) (i : Nat) :
    ∀ node, s.nodes[i]? = some node → inSubtree s.parentOf a i = true → a = i ∨ ancestor.slot < node.slot := by
  induction i using Nat.strong_induction_on with
  | _ i ih =>
    intro node hnode hmem
    rcases (inSubtree_iff h.parentsFirst).1 hmem with rfl | ⟨p, hpar, hmem⟩
    · exact .inl rfl
    · have hget := List.getElem?_eq_getElem (h.parent_lt hpar)
      have hstep := hslots i p node _ hnode hpar hget
      rcases ih p (h.parentsFirst i p hpar) _ hget hmem with rfl | hlt
      · rw [ha] at hget
        cases hget
        exact .inr hstep
      · exact .inr (Nat.lt_trans hlt hstep)

theorem path_slots (hslots : s.SlotsIncrease) (i : Nat) :
    (s.nodesAt (path s.parentOf i)).Pairwise (fun a b => b.slot < a.slot) := by
  unfold nodesAt
  rw [List.pairwise_filterMap]
  have hstep : (path s.parentOf i).Pairwise (fun a b => b < a ∧ inSubtree s.parentOf b a = true) :=
    path_chain h.parentsFirst i
  refine hstep.imp fun {a b} hab node hnode node' hnode' => ?_
  rcases slot_lt_of_mem h hslots hnode' a node hnode hab.2 with rfl | hlt
  · exact absurd hab.1 (Nat.lt_irrefl b)
  · exact hlt

end Walks

end ProtoArray

/-! ## Block summaries -/

variable (codec : HexCodec)

def toBlockSummary (block : ProtoBlock) : BlockSummary where
  slot := block.slot
  blockRoot := codec.ofHexRoot block.blockRoot
  parentRoot := codec.ofHexRoot block.parentRoot

namespace ForkChoice

/-- The source throws on an undefined head, which its constructor rules out. -/
def getHeadRoot (fc : ForkChoice) : Option Root := fc.head.map fun head => (toBlockSummary codec head).blockRoot

/-- Return only the non-finalized blocks: the last node is the previous finalized one. -/
def iterateBlockSummaries (fc : ForkChoice) (blockRoot : Root) : Except ProtoArrayError (List BlockSummary) :=
  (fc.protoArray.iterateNodes (codec.toHexRoot blockRoot)).map fun nodes =>
    let blocks := nodes.map fun node => toBlockSummary codec node.toProtoBlock
    blocks.take (blocks.length - 1)

variable {blockRoot : Root}

theorem iterateBlockSummaries_of_blocks {fc : ForkChoice} {blocks : List ProtoBlock}
    (h : (fc.protoArray.iterateNodes (codec.toHexRoot blockRoot)).map (·.map (·.toProtoBlock)) = .ok blocks) :
    fc.iterateBlockSummaries codec blockRoot = .ok ((blocks.map (toBlockSummary codec)).take (blocks.length - 1)) := by
  unfold iterateBlockSummaries
  cases hnodes : fc.protoArray.iterateNodes (codec.toHexRoot blockRoot) with
  | error e =>
    rw [hnodes] at h
    cases h
  | ok nodes =>
    rw [hnodes] at h
    obtain rfl := Except.ok.inj h
    simp [Except.map, Function.comp_def]

def iterateNonAncestors (fc : ForkChoice) (blockRoot : Root) : Except ProtoArrayError (List BlockSummary) :=
  (fc.protoArray.iterateNonAncestorNodes (codec.toHexRoot blockRoot)).map fun nodes =>
    nodes.map fun node => toBlockSummary codec node.toProtoBlock

variable {codec} {fc : ForkChoice} (h : fc.protoArray.WellFormed)

include h

theorem iterateBlockSummaries_eq {i : Nat} (hi : fc.protoArray.indices.get? (codec.toHexRoot blockRoot) = some i) :
    fc.iterateBlockSummaries codec blockRoot =
      .ok ((fc.protoArray.nodesAt (path fc.protoArray.parentOf i).dropLast).map fun node => toBlockSummary codec node.toProtoBlock) := by
  have hlt : ∀ a ∈ path fc.protoArray.parentOf i, a < fc.protoArray.nodes.length := by
    intro a ha
    obtain ⟨node, hnode, -⟩ := h.get?_iff.1 hi
    have := inSubtree_le h.parentsFirst _ ((mem_path_iff h.parentsFirst).1 ha)
    have := (List.getElem?_eq_some_iff.1 hnode).1
    omega
  unfold iterateBlockSummaries
  rw [ProtoArray.iterateNodes_eq h hi, ProtoArray.nodesAt_dropLast hlt, List.map_dropLast, List.dropLast_eq_take]
  rfl

theorem iterateNonAncestors_eq {i : Nat} (hi : fc.protoArray.indices.get? (codec.toHexRoot blockRoot) = some i) :
    fc.iterateNonAncestors codec blockRoot =
      .ok ((fc.protoArray.nodesAt (gapsFrom fc.protoArray.parentOf fc.protoArray.nodes.length i)).map
        fun node => toBlockSummary codec node.toProtoBlock) := by
  unfold iterateNonAncestors
  rw [ProtoArray.iterateNonAncestorNodes_eq h hi]
  rfl

theorem iterateBlockSummaries_slots (hslots : fc.protoArray.SlotsIncrease) {summaries : List BlockSummary}
    (hrun : fc.iterateBlockSummaries codec blockRoot = .ok summaries) :
    summaries.Pairwise (fun a b => b.slot < a.slot) := by
  cases hi : fc.protoArray.indices.get? (codec.toHexRoot blockRoot) with
  | none =>
    unfold iterateBlockSummaries ProtoArray.iterateNodes at hrun
    rw [hi] at hrun
    cases hrun
    exact List.Pairwise.nil
  | some i =>
    unfold iterateBlockSummaries at hrun
    rw [ProtoArray.iterateNodes_eq h hi] at hrun
    cases hrun
    exact ((List.pairwise_map.2 (ProtoArray.path_slots h hslots i)).sublist (List.take_sublist _ _))

end ForkChoice

/-! ## Blocks for small trees -/

def chainRoot (n : UInt8) : Root := Vector.replicate 32 n

section

variable (slot : Nat) (root parentRoot : UInt8)

def chainBlock : ProtoBlock :=
  ProtoArray.genesisBlock slot (hexCodec.toHexRoot (chainRoot root)) (hexCodec.toHexRoot (chainRoot parentRoot))

theorem toBlockSummary_chainBlock :
    toBlockSummary hexCodec (chainBlock slot root parentRoot) = ⟨slot, chainRoot root, chainRoot parentRoot⟩ :=
  congrArg₂ (BlockSummary.mk slot) (hexCodec.ofHexRoot_toHexRoot (chainRoot root))
    (hexCodec.ofHexRoot_toHexRoot (chainRoot parentRoot))

theorem toHexString_chainBlock : hexCodec.toHexRoot (toBlockSummary hexCodec (chainBlock slot root parentRoot)).blockRoot =
      (chainBlock slot root parentRoot).blockRoot := by
  rw [toBlockSummary_chainBlock]
  rfl

end

end Lodestar
