import Lodestar.ForkChoice.ParentRoots
import Lodestar.ForkChoice.Pruning
/-!
# ParentChains — descent and ancestors by the roots that blocks name

`isDescendant` and `getAncestor` walk up the links of the array and stop by slots.  `ParentChain` and `AncestorAt` are what
they mean: blocks found by the parent roots that blocks name, and the specification's `get_ancestor`.  They agree in every
array whose slots increase and in which a node without a parent link names a parent that is not there (`Chained`).

Every run that starts from an anchor keeps `Chained`: blocks leave the array with all blocks before them, so a parent that was
removed never comes back (`Grown`).
-/
namespace Lodestar

open Lib Forest

namespace ProtoArray

inductive ParentChain (s : ProtoArray) (a : HexRoot) : HexRoot → Prop
  | self (h : s.hasBlock a = true) : ParentChain s a a
  | parent {d : HexRoot} {block : ProtoBlock} (h : s.getBlock d = some block) (hp : ParentChain s a block.parentRoot) :
      ParentChain s a d

variable {s : ProtoArray}

theorem hasBlock_of_getBlock {root : HexRoot} {block : ProtoBlock} (h : s.getBlock root = some block) :
    s.hasBlock root = true := by
  obtain ⟨node, hnode, -⟩ := Option.map_eq_some_iff.1 h
  obtain ⟨i, hi, -⟩ := Option.bind_eq_some_iff.1 hnode
  exact Option.isSome_iff_exists.2 ⟨i, hi⟩

variable {a d : HexRoot}

theorem ParentChain.known (h : s.ParentChain a d) : s.hasBlock d = true := by
  cases h with
  | self hknown => exact hknown
  | parent hget => exact hasBlock_of_getBlock hget

theorem ParentChain.ancestor_known (h : s.ParentChain a d) : s.hasBlock a = true := by
  induction h with
  | self hknown => exact hknown
  | parent _ _ ih => exact ih

inductive AncestorAt (s : ProtoArray) (slot : Nat) : HexRoot → HexRoot → Prop
  | here {root : HexRoot} {block : ProtoBlock} (h : s.getBlock root = some block) (hle : block.slot ≤ slot) :
      AncestorAt s slot root root
  | above {root ancestor : HexRoot} {block : ProtoBlock} (h : s.getBlock root = some block) (hlt : slot < block.slot)
      (hp : AncestorAt s slot block.parentRoot ancestor) : AncestorAt s slot root ancestor

/-- A node without a parent link names a parent that is not in the array. -/
structure Chained (s : ProtoArray) : Prop where
  wellFormed : s.WellFormed
  parentRoots : s.ParentRoots
  slots : s.SlotsIncrease
  tops : ∀ node ∈ s.nodes, node.parent = none → s.hasBlock node.parentRoot = false

/-! ## The walk up a path -/

theorem nodesAt_path (h : s.WellFormed) {k : Nat} {node : ProtoNode} (hk : s.nodes[k]? = some node) :
    s.nodesAt (path s.parentOf k) = node :: ((s.parentOf k).map (fun p => s.nodesAt (path s.parentOf p))).getD [] := by
  rw [path_eq h.parentsFirst, nodesAt_cons hk]
  cases s.parentOf k <;> rfl

theorem reachesNode_iff {ancestorNode : ProtoNode} : ∀ (nodes : List ProtoNode), nodes.Pairwise (fun a b => b.slot < a.slot) →
    (∀ node ∈ nodes, node.blockRoot = ancestorNode.blockRoot → node.slot = ancestorNode.slot) →
    (reachesNode ancestorNode nodes = true ↔ ∃ node ∈ nodes, node.blockRoot = ancestorNode.blockRoot)
  | [], _, _ => by simp [reachesNode]
  | node :: nodes, hpair, hsame => by
    obtain ⟨hlt, hrest⟩ := List.pairwise_cons.1 hpair
    have hiff := reachesNode_iff nodes hrest (fun n hn => hsame n (List.mem_cons_of_mem node hn))
    by_cases hstop : node.slot < ancestorNode.slot
    · have hnone : ∀ n ∈ node :: nodes, n.blockRoot ≠ ancestorNode.blockRoot := by
        intro n hn hroot
        have hslot := hsame n hn hroot
        rcases List.mem_cons.1 hn with rfl | hmem
        · omega
        · have := hlt n hmem
          omega
      simp only [reachesNode, if_pos hstop]
      constructor
      · intro h
        cases h
      · rintro ⟨n, hn, hroot⟩
        exact absurd hroot (hnone n hn)
    · by_cases hroot : node.blockRoot = ancestorNode.blockRoot
      · simp [reachesNode, hstop, hroot]
      · simp [reachesNode, hstop, hroot, hiff]

namespace Chained

variable {s : ProtoArray} (h : s.Chained)

include h

variable {root d ancestor : HexRoot}

theorem hasBlock_iff : s.hasBlock root = true ↔
    ∃ (k : Nat) (node : ProtoNode), s.nodes[k]? = some node ∧ node.blockRoot = root := by
  unfold hasBlock
  rw [h.wellFormed.has_iff]
  constructor
  · rintro ⟨node, hmem, hroot⟩
    obtain ⟨k, hk⟩ := List.getElem?_of_mem hmem
    exact ⟨k, node, hk, hroot⟩
  · rintro ⟨k, node, hk, hroot⟩
    exact ⟨node, List.mem_of_getElem? hk, hroot⟩

variable {node : ProtoNode} {k i slot : Nat}

theorem getBlock_eq (hk : s.nodes[k]? = some node) :
    s.getBlock node.blockRoot = some node.toProtoBlock := by
  unfold getBlock getNode getNodeByIndex
  rw [h.wellFormed.get?_iff.2 ⟨node, hk, rfl⟩, Option.bind_some, hk]
  rfl

theorem parentOf_eq (hk : s.nodes[k]? = some node) :
    s.parentOf k = s.indices.get? node.parentRoot := by
  have hlink : s.parentOf k = node.parent := parentOf_node hk
  cases hp : node.parent with
  | none =>
    have hnone := h.tops node (List.mem_of_getElem? hk) hp
    unfold hasBlock OrderedMap.has at hnone
    rw [hlink, hp]
    exact (Option.not_isSome_iff_eq_none.1 (by simp [hnone])).symm
  | some p =>
    have hroot := h.parentRoots k p (hlink.trans hp)
    have hname : s.parentRootOf k = node.parentRoot := by
      unfold parentRootOf
      rw [hk]
      rfl
    rw [hlink, hp, ← hname, ← hroot, h.wellFormed.get?_rootOf (h.wellFormed.parent_lt (hlink.trans hp))]

theorem parentChain_iff_subtree {ancestor : ProtoNode} (hi : s.nodes[i]? = some ancestor) (k : Nat) :
    ∀ node, s.nodes[k]? = some node → (s.ParentChain ancestor.blockRoot node.blockRoot ↔ inSubtree s.parentOf i k = true) := by
  induction k using Nat.strong_induction_on with
  | _ k ih =>
    intro node hk
    have hself : ancestor.blockRoot = node.blockRoot → i = k := by
      intro hroot
      have hget := h.wellFormed.get?_iff.2 ⟨ancestor, hi, hroot⟩
      rw [h.wellFormed.get?_iff.2 ⟨node, hk, rfl⟩] at hget
      exact (Option.some.inj hget).symm
    rw [inSubtree_iff h.wellFormed.parentsFirst]
    constructor
    · intro hchain
      generalize hroot : node.blockRoot = root at hchain
      cases hchain with
      | self => exact .inl (hself hroot.symm)
      | parent hget hp =>
        rw [← hroot, h.getBlock_eq hk] at hget
        cases hget
        -- the parent that is named is in the array, for the chain goes through it
        obtain ⟨p, parentNode, hpn, hname⟩ := h.hasBlock_iff.1 hp.known
        have hpar : s.parentOf k = some p := by
          rw [h.parentOf_eq hk]
          exact h.wellFormed.get?_iff.2 ⟨parentNode, hpn, hname⟩
        rw [← hname] at hp
        exact .inr ⟨p, hpar, (ih p (h.wellFormed.parentsFirst k p hpar) parentNode hpn).1 hp⟩
    · rintro (rfl | ⟨p, hpar, hmem⟩)
      · rw [hi] at hk
        cases hk
        exact .self (h.hasBlock_iff.2 ⟨i, ancestor, hi, rfl⟩)
      · have hget := hpar
        rw [h.parentOf_eq hk] at hget
        obtain ⟨parentNode, hpn, hname⟩ := h.wellFormed.get?_iff.1 hget
        have hchain := (ih p (h.wellFormed.parentsFirst k p hpar) parentNode hpn).2 hmem
        rw [hname] at hchain
        exact .parent (h.getBlock_eq hk) hchain

variable {a d : HexRoot}

theorem parentChain_iff : s.ParentChain a d ↔
    ∃ i k, s.indices.get? a = some i ∧ s.indices.get? d = some k ∧ inSubtree s.parentOf i k = true := by
  constructor
  · intro hchain
    obtain ⟨i, ancestor, hi, rfl⟩ := h.hasBlock_iff.1 hchain.ancestor_known
    obtain ⟨k, node, hk, rfl⟩ := h.hasBlock_iff.1 hchain.known
    exact ⟨i, k, h.wellFormed.get?_iff.2 ⟨ancestor, hi, rfl⟩, h.wellFormed.get?_iff.2 ⟨node, hk, rfl⟩,
      (h.parentChain_iff_subtree hi k node hk).1 hchain⟩
  · rintro ⟨i, k, ha, hd, hmem⟩
    obtain ⟨ancestor, hi, rfl⟩ := h.wellFormed.get?_iff.1 ha
    obtain ⟨node, hk, rfl⟩ := h.wellFormed.get?_iff.1 hd
    exact (h.parentChain_iff_subtree hi k node hk).2 hmem

theorem isDescendant_iff (a d : HexRoot) :
    ∃ result, s.isDescendant a d = .ok result ∧ (result = true ↔ s.ParentChain a d) := by
  unfold isDescendant getNode getNodeByIndex
  cases ha : s.indices.get? a with
  | none =>
    refine ⟨false, rfl, ?_⟩
    rw [h.parentChain_iff, ha]
    simp
  | some i =>
    obtain ⟨ancestor, hi, hroot⟩ := h.wellFormed.get?_iff.1 ha
    rw [Option.bind_some, hi]
    cases hd : s.indices.get? d with
    | none =>
      refine ⟨false, ?_, ?_⟩
      · unfold iterateNodes
        rw [hd]
        rfl
      · rw [h.parentChain_iff, hd]
        simp
    | some k =>
      rw [iterateNodes_eq h.wellFormed hd]
      refine ⟨_, rfl, ?_⟩
      have honly : ∀ n ∈ s.nodesAt (path s.parentOf k), n.blockRoot = ancestor.blockRoot → ∃ j ∈ path s.parentOf k,
          j = i ∧ n = ancestor := by
        intro n hn hsame
        obtain ⟨j, hj, hjn⟩ := mem_nodesAt.1 hn
        have hget := h.wellFormed.get?_iff.2 ⟨n, hjn, hsame.trans hroot⟩
        rw [ha] at hget
        obtain rfl := Option.some.inj hget
        rw [hi] at hjn
        exact ⟨i, hj, rfl, (Option.some.inj hjn).symm⟩
      rw [reachesNode_iff _ (path_slots h.wellFormed h.slots k) (fun n hn hsame => by
        obtain ⟨-, -, -, rfl⟩ := honly n hn hsame
        rfl), h.parentChain_iff]
      constructor
      · rintro ⟨n, hn, hsame⟩
        obtain ⟨j, hj, rfl, -⟩ := honly n hn hsame
        exact ⟨j, k, ha, hd, (mem_path_iff h.wellFormed.parentsFirst).1 hj⟩
      · rintro ⟨i', k', ha', hd', hmem⟩
        rw [ha] at ha'
        rw [hd] at hd'
        cases ha'
        cases hd'
        exact ⟨ancestor, mem_nodesAt.2 ⟨i, (mem_path_iff h.wellFormed.parentsFirst).2 hmem, hi⟩, rfl⟩

/-! ## Ancestors by slot -/

theorem parent_slot_lt {block parentBlock : ProtoBlock} (hd : s.getBlock d = some block)
    (hp : s.getBlock block.parentRoot = some parentBlock) : parentBlock.slot < block.slot := by
  obtain ⟨k, node, hk, rfl⟩ := h.hasBlock_iff.1 (hasBlock_of_getBlock hd)
  obtain ⟨p, parentNode, hpn, hname⟩ := h.hasBlock_iff.1 (hasBlock_of_getBlock hp)
  rw [h.getBlock_eq hk] at hd
  cases hd
  rw [← hname, h.getBlock_eq hpn] at hp
  cases hp
  have hpar : s.parentOf k = some p := by
    rw [h.parentOf_eq hk]
    exact h.wellFormed.get?_iff.2 ⟨parentNode, hpn, hname⟩
  exact h.slots k p node parentNode hk hpar hpn

theorem slot_lt_of_chain (hchain : s.ParentChain a d) : ∀ {block other : ProtoBlock},
    s.getBlock d = some block → s.getBlock a = some other → a = d ∨ other.slot < block.slot := by
  induction hchain with
  | self _ => exact fun _ _ => .inl rfl
  | @parent d named hget hp ih =>
    intro block other hd ha
    rw [hget] at hd
    cases hd
    obtain ⟨parentBlock, hparent⟩ : ∃ parentBlock, s.getBlock named.parentRoot = some parentBlock := by
      obtain ⟨p, parentNode, hpn, hname⟩ := h.hasBlock_iff.1 hp.known
      exact ⟨_, hname ▸ h.getBlock_eq hpn⟩
    have hstep := h.parent_slot_lt hget hparent
    rcases ih hparent ha with rfl | hlt
    · rw [hparent] at ha
      cases ha
      exact .inr hstep
    · exact .inr (Nat.lt_trans hlt hstep)

theorem greatest (hat : s.AncestorAt slot root ancestor) :
    s.ParentChain ancestor root ∧ ∃ block, s.getBlock ancestor = some block ∧ block.slot ≤ slot ∧
      ∀ a other, s.ParentChain a root → s.getBlock a = some other → other.slot ≤ slot → a = ancestor ∨ other.slot < block.slot := by
  induction hat with
  | here hget hle =>
    exact ⟨.self (hasBlock_of_getBlock hget), _, hget, hle, fun a other hchain ha _ => h.slot_lt_of_chain hchain hget ha⟩
  | above hget hlt _ ih =>
    obtain ⟨hchain, block, hblock, hle, hmax⟩ := ih
    refine ⟨.parent hget hchain, block, hblock, hle, fun a other ha hother hbound => ?_⟩
    cases ha with
    | self =>
      rw [hget] at hother
      cases hother
      omega
    | parent hget' hp =>
      rw [hget] at hget'
      cases hget'
      exact hmax a other hp hother hbound

theorem find?_path (slot k : Nat) : ∀ node, s.nodes[k]? = some node →
    (∃ found, (s.nodesAt (path s.parentOf k)).find? (fun n => decide (n.slot ≤ slot)) = some found ∧
      s.AncestorAt slot node.blockRoot found.blockRoot) ∨
    ((s.nodesAt (path s.parentOf k)).find? (fun n => decide (n.slot ≤ slot)) = none ∧
      ∃ top ∈ s.nodes, top.parent = none ∧ slot < top.slot ∧ s.ParentChain top.blockRoot node.blockRoot) := by
  induction k using Nat.strong_induction_on with
  | _ k ih =>
    intro node hk
    rw [nodesAt_path h.wellFormed hk, List.find?_cons]
    by_cases hle : node.slot ≤ slot
    · simp only [hle, decide_true]
      exact .inl ⟨node, rfl, .here (h.getBlock_eq hk) hle⟩
    simp only [hle, decide_false]
    cases hpar : s.parentOf k with
    | none =>
      have hlink : node.parent = none := (parentOf_node hk).symm.trans hpar
      exact .inr ⟨rfl, node, List.mem_of_getElem? hk, hlink, Nat.lt_of_not_le hle, .self (h.hasBlock_iff.2 ⟨k, node, hk, rfl⟩)⟩
    | some p =>
      have hget := hpar
      rw [h.parentOf_eq hk] at hget
      obtain ⟨parentNode, hpn, hname⟩ := h.wellFormed.get?_iff.1 hget
      have hrest := ih p (h.wellFormed.parentsFirst k p hpar) parentNode hpn
      rw [hname] at hrest
      rcases hrest with ⟨found, hfind, hat⟩ | ⟨hfind, top, hmem, hnone, hlt, hchain⟩
      · exact .inl ⟨found, hfind, .above (h.getBlock_eq hk) (Nat.lt_of_not_le hle) hat⟩
      · exact .inr ⟨hfind, top, hmem, hnone, hlt, .parent (h.getBlock_eq hk) hchain⟩

end Chained

end ProtoArray

namespace ForkChoice

theorem getAncestor_chained {fc : ForkChoice} (h : fc.protoArray.Chained) (slot : Nat) {root : HexRoot}
    (hroot : fc.protoArray.hasBlock root = true) :
    (∃ ancestor, fc.getAncestor root slot = .ok ancestor ∧ fc.protoArray.AncestorAt slot root ancestor) ∨
    (fc.getAncestor root slot = .error (.UNKNOWN_ANCESTOR root slot) ∧
      (∀ ancestor, ¬ fc.protoArray.AncestorAt slot root ancestor) ∧
      ∃ top ∈ fc.protoArray.nodes, top.parent = none ∧ slot < top.slot ∧ fc.protoArray.ParentChain top.blockRoot root) := by
  obtain ⟨k, node, hk, rfl⟩ := h.hasBlock_iff.1 hroot
  unfold getAncestor
  rw [h.getBlock_eq hk]
  dsimp only
  by_cases hlate : node.slot > slot
  · rw [if_pos hlate, ProtoArray.iterateNodes_eq h.wellFormed (h.wellFormed.get?_iff.2 ⟨node, hk, rfl⟩)]
    dsimp only
    rcases h.find?_path slot k node hk with ⟨found, hfind, hat⟩ | ⟨hfind, htop⟩
    · rw [hfind]
      exact .inl ⟨found.blockRoot, rfl, hat⟩
    · rw [hfind]
      refine .inr ⟨rfl, fun ancestor hat => ?_, htop⟩
      obtain ⟨hchain, block, hblock, hle, -⟩ := h.greatest hat
      obtain ⟨i, k', hi, hk', hmem⟩ := h.parentChain_iff.1 hchain
      rw [h.wellFormed.get?_iff.2 ⟨node, hk, rfl⟩] at hk'
      cases hk'
      obtain ⟨found, hfound, rfl⟩ := h.wellFormed.get?_iff.1 hi
      rw [h.getBlock_eq hfound] at hblock
      cases hblock
      have hon := ProtoArray.mem_nodesAt.2 ⟨i, (mem_path_iff h.wellFormed.parentsFirst).2 hmem, hfound⟩
      exact absurd hle (by simpa using List.find?_eq_none.1 hfind found hon)
  · rw [if_neg hlate]
    exact .inl ⟨node.blockRoot, rfl, .here (h.getBlock_eq hk) (Nat.le_of_not_lt hlate)⟩

end ForkChoice

end Lodestar
