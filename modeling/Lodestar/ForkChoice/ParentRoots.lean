import Lodestar.Lib.Fallible
import Lodestar.ForkChoice.BlockSummaries
import Lodestar.ForkChoice.HeadEpochs
/-!
# ParentRoots — parents by index and by root

A node points to its parent by index, a block names it by root.  In every array that the methods build the two agree, so the
blocks that a walk up the array lists are a chain: each is the parent that the block before it names.
-/
namespace Lodestar

open Lib Forest

namespace ProtoArray

def parentRootOf (s : ProtoArray) (i : Nat) : HexRoot := ((s.nodes[i]?).map (·.parentRoot)).getD ""

def ParentRoots (s : ProtoArray) : Prop := ∀ i p, s.parentOf i = some p → s.rootOf p = s.parentRootOf i

variable {s s' : ProtoArray}

theorem SameTree.parentRootOf (h : SameTree s s') : s'.parentRootOf = s.parentRootOf := by
  funext i
  have := congrArg (Option.map (fun x => x.1.parentRoot)) (h.node i)
  unfold ProtoArray.parentRootOf
  cases h1 : s'.nodes[i]? <;> cases h2 : s.nodes[i]? <;> simp_all

theorem SameTree.parentRoots (h : SameTree s s') (hroots : s.ParentRoots) : s'.ParentRoots := by
  unfold ParentRoots
  rw [h.parentOf, h.rootOf, h.parentRootOf]
  exact hroots

theorem pushBlock_parentRootOf (s : ProtoArray) (block : ProtoBlock) (i : Nat) : (s.pushBlock block).parentRootOf i =
    if i = s.nodes.length then block.parentRoot else s.parentRootOf i := by
  unfold parentRootOf
  rw [pushBlock_getElem?]
  split <;> rfl

variable {s : ProtoArray}

theorem ParentRoots.pushBlock (h : s.WellFormed) (hroots : s.ParentRoots) (block : ProtoBlock) :
    (s.pushBlock block).ParentRoots := by
  intro i p hpar
  rw [pushBlock_parentOf] at hpar
  rw [pushBlock_rootOf, pushBlock_parentRootOf]
  by_cases hi : i = s.nodes.length
  · rw [if_pos hi] at hpar ⊢
    obtain ⟨node, hnode, hroot⟩ := h.get?_iff.1 hpar
    have hlt := (List.getElem?_eq_some_iff.1 hnode).1
    rw [if_neg (Nat.ne_of_lt hlt), ← hroot, rootOf_node hnode]
  · rw [if_neg hi] at hpar ⊢
    rw [if_neg (Nat.ne_of_lt (h.parent_lt hpar))]
    exact hroots i p hpar

theorem CutAt.parentRoots {f : Nat} (h : CutAt f s s') (hroots : s.ParentRoots) : s'.ParentRoots := by
  intro i p hpar
  rw [h.parentOf] at hpar
  have hparent : s'.parentRootOf i = s.parentRootOf (i + f) := by
    unfold ProtoArray.parentRootOf
    rw [h.getElem? i]
    cases s.nodes[i + f]? <;> rfl
  rw [h.rootOf, hparent]
  exact hroots (i + f) (p + f) (cutParent_eq_some.1 hpar)

theorem ParentRoots.op (h : s.WellFormed) (hroots : s.ParentRoots) (op : Op) : (op.run s).ParentRoots := by
  rcases op.run_cases h with ht | ⟨block, -, ht⟩ | ⟨f, hcut⟩
  · exact ht.parentRoots hroots
  · exact ht.parentRoots (hroots.pushBlock h block)
  · exact hcut.parentRoots hroots

theorem ParentRoots.runOps : ∀ (ops : List Op) {s : ProtoArray}, s.WellFormed → s.ParentRoots → (runOps s ops).ParentRoots
  | [], _, _, hroots => hroots
  | op :: ops, _, h, hroots => ParentRoots.runOps ops (h.op op) (hroots.op h op)

theorem ParentRoots.new (pruneThreshold je fe : Nat) : (new pruneThreshold je fe).ParentRoots := by
  intro i p h
  cases h

/-! ## Chains of blocks -/

def Linked : HexRoot → List ProtoBlock → Prop
  | _, [] => True
  | root, block :: blocks => block.blockRoot = root ∧ Linked block.parentRoot blocks

theorem Linked.take : ∀ (n : Nat) (blocks : List ProtoBlock) {root : HexRoot}, Linked root blocks → Linked root (blocks.take n)
  | 0, _, _, _ => trivial
  | _ + 1, [], _, _ => trivial
  | n + 1, _ :: blocks, _, h => ⟨h.1, Linked.take n blocks h.2⟩

theorem iterateParents_linked (hroots : s.ParentRoots) : ∀ (fuel i : Nat) (node : ProtoNode)
    (nodes : List ProtoNode), s.nodes[i]? = some node → s.iterateParents fuel node = .ok nodes →
    Linked node.blockRoot (nodes.map (·.toProtoBlock)) ∧ ∀ n ∈ nodes, n ∈ s.nodes
  | 0, i, node, nodes, hnode, hrun => by
    cases hrun
    exact ⟨⟨rfl, trivial⟩, fun n hn => List.mem_singleton.1 hn ▸ List.mem_of_getElem? hnode⟩
  | fuel + 1, i, node, nodes, hnode, hrun => by
    unfold iterateParents at hrun
    split at hrun
    · cases hrun
      exact ⟨⟨rfl, trivial⟩, fun n hn => List.mem_singleton.1 hn ▸ List.mem_of_getElem? hnode⟩
    · rename_i p hp
      split at hrun
      · cases hrun
      · rename_i parentNode hparent
        obtain ⟨rest, hrest, rfl⟩ := map_eq_ok.1 hrun
        obtain ⟨hlinked, hmem⟩ := iterateParents_linked hroots fuel p parentNode rest hparent hrest
        have hpar : s.parentOf i = some p := (parentOf_node hnode).trans hp
        have hroot := hroots i p hpar
        unfold rootOf parentRootOf at hroot
        rw [hparent, hnode] at hroot
        have hname : parentNode.blockRoot = node.parentRoot := hroot
        refine ⟨⟨rfl, hname ▸ hlinked⟩, fun n hn => ?_⟩
        rcases List.mem_cons.1 hn with rfl | hn
        · exact List.mem_of_getElem? hnode
        · exact hmem n hn

variable {root : HexRoot}

theorem iterateNodes_linked (h : s.WellFormed) (hroots : s.ParentRoots) {nodes : List ProtoNode}
    (hrun : s.iterateNodes root = .ok nodes) : Linked root (nodes.map (·.toProtoBlock)) ∧ ∀ n ∈ nodes, n ∈ s.nodes := by
  unfold iterateNodes at hrun
  split at hrun
  · cases hrun
    exact ⟨trivial, fun n hn => absurd hn List.not_mem_nil⟩
  · rename_i i hi
    obtain ⟨node, hnode, rfl⟩ := h.get?_iff.1 hi
    rw [hnode] at hrun
    exact iterateParents_linked hroots _ i node nodes hnode hrun

theorem getBlock_some (h : s.WellFormed) {block : ProtoBlock} (hget : s.getBlock root = some block) :
    block.blockRoot = root ∧ ∃ node ∈ s.nodes, node.toProtoBlock = block := by
  obtain ⟨node, hnode, rfl⟩ := Option.map_eq_some_iff.1 hget
  obtain ⟨i, hi, hget⟩ := Option.bind_eq_some_iff.1 hnode
  obtain ⟨node', hnode', hroot⟩ := h.get?_iff.1 hi
  have hsame : node' = node := Option.some.inj (hnode'.symm.trans hget)
  exact ⟨hsame ▸ hroot, node, List.mem_of_getElem? hget, rfl⟩

end ProtoArray

namespace ForkChoice

/-! ## The fork choice -/

theorem Op.run_protoArray (P : Preset) (fc : ForkChoice) (op : Op) :
    ∃ ops, (op.run P fc).protoArray = ProtoArray.runOps fc.protoArray ops := by
  cases op with
  | onBlock block state balances =>
    obtain ⟨fc₁, hst, ⟨e, heq⟩ | heq⟩ := onBlock_parts (P := P) fc block state balances
    · refine ⟨[], ?_⟩
      simp only [Op.run]
      rw [heq]
      exact hst.protoArray
    · refine ⟨[.onBlock (toProtoBlock P block state)], ?_⟩
      simp only [Op.run]
      rw [heq, registerBlock_eq, hst.protoArray]
      rfl
  | onAttestation attestation => exact ⟨[], (onAttestation_onlyVotes P fc attestation).protoArray⟩
  | updateTime slot =>
    obtain ⟨fc₁, hst, hv⟩ := updateTime_parts (P := P) fc slot
    exact ⟨[], hv.protoArray.trans hst.protoArray⟩
  | prune root =>
    refine ⟨[.maybePrune root], ?_⟩
    simp only [Op.run]
    rw [prune_eq]
    rfl
  | updateHead =>
    obtain ⟨head, heq⟩ := updateHead_eq fc
    simp only [Op.run]
    rw [heq]
    unfold sync
    split
    · exact ⟨[], rfl⟩
    · split
      · exact ⟨[], rfl⟩
      · rename_i deltas votes hdeltas
        refine ⟨[.applyScoreChanges deltas fc.fcStore.justifiedCheckpoint.epoch fc.fcStore.finalizedCheckpoint.epoch], ?_⟩
        split
        · rename_i happly
          exact (congrArg Prod.snd happly).symm
        · rename_i happly
          exact (congrArg Prod.snd happly).symm

theorem runOps_protoArray (P : Preset) : ∀ (ops : List Op) (fc : ForkChoice),
    ∃ ops', (runOps P fc ops).protoArray = ProtoArray.runOps fc.protoArray ops'
  | [], fc => ⟨[], rfl⟩
  | op :: ops, fc => by
    obtain ⟨first, hfirst⟩ := op.run_protoArray P fc
    obtain ⟨rest, hrest⟩ := runOps_protoArray P ops (op.run P fc)
    refine ⟨first ++ rest, ?_⟩
    unfold ProtoArray.runOps at hfirst hrest ⊢
    rw [List.foldl_append, ← hfirst]
    exact hrest

variable {fc : ForkChoice}

theorem Reachable.parentRoots {P : Preset} (h : Reachable P fc) : fc.protoArray.ParentRoots := by
  obtain ⟨pruneThreshold, justifiedEpoch, finalizedEpoch, blocks, fcStore, queue, balances, ops, rfl⟩ := h
  have hstart := ProtoArray.WellFormed.new pruneThreshold justifiedEpoch finalizedEpoch
  have hwf := ProtoArray.WellFormed.runOps blocks hstart
  have hroots := ProtoArray.ParentRoots.runOps blocks hstart (ProtoArray.ParentRoots.new pruneThreshold justifiedEpoch finalizedEpoch)
  obtain ⟨ops', hrun⟩ := runOps_protoArray P ops (construct fcStore
    (ProtoArray.runOps (ProtoArray.new pruneThreshold justifiedEpoch finalizedEpoch) blocks) queue balances)
  rw [hrun]
  exact hroots.runOps ops' hwf

variable {root : HexRoot}

theorem iterateBlocks_linked (h : fc.protoArray.WellFormed) (hroots : fc.protoArray.ParentRoots) {blocks : List ProtoBlock}
    (hrun : fc.iterateBlocks root = .ok blocks) :
    ProtoArray.Linked root blocks ∧ ∀ block ∈ blocks, block ∈ fc.forwardIterateBlocks := by
  obtain ⟨nodes, hnodes, rfl⟩ := map_eq_ok.1 hrun
  obtain ⟨hlinked, hmem⟩ := ProtoArray.iterateNodes_linked h hroots hnodes
  refine ⟨hlinked.take _ _, fun block hblock => ?_⟩
  obtain ⟨node, hnode, rfl⟩ := List.mem_map.1 (List.mem_of_mem_take hblock)
  exact List.mem_map_of_mem (hmem node hnode)

theorem getBlock_some (h : fc.protoArray.WellFormed) {block : ProtoBlock} (hget : fc.getBlock root = .ok (some block)) :
    block.blockRoot = root ∧ block ∈ fc.forwardIterateBlocks := by
  unfold getBlock at hget
  split at hget
  · cases hget
  · rename_i block' hblock
    obtain ⟨isDescendant, -, heq⟩ := map_eq_ok.1 hget
    split at heq
    · cases heq
      obtain ⟨hroot, node, hnode, hsame⟩ := ProtoArray.getBlock_some h hblock
      exact ⟨hroot, hsame ▸ List.mem_map_of_mem hnode⟩
    · cases heq

end ForkChoice

end Lodestar
