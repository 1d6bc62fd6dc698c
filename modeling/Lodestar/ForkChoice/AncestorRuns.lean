import Lodestar.ForkChoice.ParentChains
/-!
# AncestorRuns — descent and ancestors over whole runs

A run starts from an anchor block and imports blocks of one block tree: a root names one block, and a block comes in a later
slot than its parent.  Whatever the run prunes, its array stays `Chained`; where a chain ends before the slot that
`getAncestor` looks for, it ends at the anchor or below a block that the run removed.
-/
namespace Lodestar

open Lib Forest

/-- A root names one block, and every block comes after its parent. -/
structure BlockTree (blocks : List ForkBlock) : Prop where
  unique : ∀ b ∈ blocks, ∀ b' ∈ blocks, b.root = b'.root → b = b'
  slots : ∀ b ∈ blocks, ∀ p ∈ blocks, b.parentRoot = p.root → p.slot < b.slot

namespace ProtoArray

/-- What a run from `anchor` leaves of the blocks it imported, once those with the roots `removed` are gone. -/
structure Grown (anchor : ForkBlock) (blocks : List ForkBlock) (removed : List HexRoot) (s : ProtoArray) : Prop where
  wellFormed : s.WellFormed
  parentRoots : s.ParentRoots
  placed : ∀ node ∈ s.nodes, ∃ b ∈ blocks, node.blockRoot = b.root ∧ node.parentRoot = b.parentRoot ∧ node.slot = b.slot
  tops : ∀ node ∈ s.nodes, node.parent = none → node.blockRoot = anchor.root ∨ node.parentRoot ∈ removed
  gone : ∀ root ∈ removed, s.hasBlock root = false
  closed : ∀ b ∈ blocks, b.root ∈ removed → b.root = anchor.root ∨ b.parentRoot ∈ removed
  later : ∀ node ∈ s.nodes, anchor.slot ≤ node.slot
  start : s.hasBlock anchor.parentRoot = false

theorem SameTree.mem_nodes {s s' : ProtoArray} (h : SameTree s s') {node' : ProtoNode} (hmem : node' ∈ s'.nodes) :
    ∃ node ∈ s.nodes, node.toProtoBlock = node'.toProtoBlock ∧ node.parent = node'.parent := by
  have hpair : (node'.toProtoBlock, node'.parent) ∈ s'.nodes.map (fun node => (node.toProtoBlock, node.parent)) :=
    List.mem_map_of_mem hmem
  rw [h.blocks] at hpair
  obtain ⟨node, hnode, heq⟩ := List.mem_map.1 hpair
  exact ⟨node, hnode, congrArg Prod.fst heq, congrArg Prod.snd heq⟩

theorem hasBlock_false_iff {s : ProtoArray} (h : s.WellFormed) {root : HexRoot} :
    s.hasBlock root = false ↔ ∀ node ∈ s.nodes, node.blockRoot ≠ root := by
  unfold hasBlock
  rw [← Bool.not_eq_true, h.has_iff]
  simp

namespace Grown

variable {anchor : ForkBlock} {blocks : List ForkBlock} {removed : List HexRoot} {s s' : ProtoArray}

theorem initializeWith (P : Preset) (state : ForkState) (hanchor : anchor ∈ blocks) (hself : anchor.parentRoot ≠ anchor.root) :
    Grown anchor blocks [] (ProtoArray.initializeWith (ForkChoice.toProtoBlock P anchor state)) where
  wellFormed := WellFormed.op (WellFormed.new _ _ _) (.onBlock _)
  parentRoots := ParentRoots.op (WellFormed.new _ _ _) (ParentRoots.new _ _ _) (.onBlock _)
  placed node hnode := by
    obtain rfl := List.mem_singleton.1 hnode
    exact ⟨anchor, hanchor, rfl, rfl, rfl⟩
  tops node hnode _ := by
    obtain rfl := List.mem_singleton.1 hnode
    exact .inl rfl
  gone root hroot := by cases hroot
  closed b _ hroot := by cases hroot
  later node hnode := by
    obtain rfl := List.mem_singleton.1 hnode
    exact Nat.le_refl anchor.slot
  start := by
    refine (hasBlock_false_iff (WellFormed.op (WellFormed.new _ _ _) (.onBlock _))).2 (fun node hnode => ?_)
    obtain rfl := List.mem_singleton.1 hnode
    exact Ne.symm hself

theorem sameTree (h : Grown anchor blocks removed s) (ht : SameTree s s') (hwf : s'.WellFormed) : Grown anchor blocks removed s' where
  wellFormed := hwf
  parentRoots := ht.parentRoots h.parentRoots
  placed node' hnode' := by
    obtain ⟨node, hnode, hblock, -⟩ := ht.mem_nodes hnode'
    rw [← hblock]
    exact h.placed node hnode
  tops node' hnode' hnone := by
    obtain ⟨node, hnode, hblock, hparent⟩ := ht.mem_nodes hnode'
    rw [← hblock]
    exact h.tops node hnode (hparent.trans hnone)
  gone root hroot := by
    unfold hasBlock
    rw [ht.indices]
    exact h.gone root hroot
  closed := h.closed
  later node' hnode' := by
    obtain ⟨node, hnode, hblock, -⟩ := ht.mem_nodes hnode'
    rw [← hblock]
    exact h.later node hnode
  start := by
    unfold hasBlock
    rw [ht.indices]
    exact h.start

theorem onBlock (htree : BlockTree blocks) (hanchor : anchor ∈ blocks) (h : Grown anchor blocks removed s) {b : ForkBlock}
    (hb : b ∈ blocks) (hparent : s.hasBlock b.parentRoot = true) {block : ProtoBlock} (hroot : block.blockRoot = b.root)
    (hparentRoot : block.parentRoot = b.parentRoot) (hslot : block.slot = b.slot) :
    Grown anchor blocks removed (s.onBlock block).2 := by
  have hhas := onBlock_has h.wellFormed block
  obtain ⟨s', hrun, hwf, -, -, ⟨-, rfl⟩ | ⟨-, ht, -⟩⟩ := onBlock_run h.wellFormed block
  · rw [hrun]
    exact h
  rw [hrun] at hhas ⊢
  obtain ⟨parentNode, hparentNode, hname⟩ := h.wellFormed.has_iff.1 hparent
  obtain ⟨p, hp, hproot, -, hpslot⟩ := h.placed parentNode hparentNode
  have hafter : p.slot < b.slot := htree.slots b hb p hp (hname.symm.trans hproot)
  have hlater := h.later parentNode hparentNode
  have hnodes : ∀ node' ∈ s'.nodes, (∃ node ∈ s.nodes, node.toProtoBlock = node'.toProtoBlock ∧ node.parent = node'.parent) ∨
      (block = node'.toProtoBlock ∧ s.indices.get? block.parentRoot = node'.parent) := by
    intro node' hnode'
    obtain ⟨node, hnode, hblock, hlink⟩ := ht.mem_nodes hnode'
    rcases List.mem_append.1 hnode with hold | hnew
    · exact .inl ⟨node, hold, hblock, hlink⟩
    · obtain rfl := List.mem_singleton.1 hnew
      exact .inr ⟨hblock, hlink⟩
  have hunknown : ∀ root, root ≠ b.root → s.hasBlock root = false → s'.hasBlock root = false := by
    intro root hne hold
    rw [← Bool.not_eq_true] at hold ⊢
    intro hnow
    rcases (hhas root).1 hnow with hsame | hknown
    · exact hne (hsame.trans hroot)
    · exact hold hknown
  refine ⟨hwf, ?_, ?_, ?_, ?_, h.closed, ?_, ?_⟩
  · have hop := h.parentRoots.op h.wellFormed (.onBlock block)
    simp only [Op.run] at hop
    rw [hrun] at hop
    exact hop
  · intro node' hnode'
    rcases hnodes node' hnode' with ⟨node, hnode, hblock, -⟩ | ⟨hblock, -⟩
    · rw [← hblock]
      exact h.placed node hnode
    · rw [← hblock]
      exact ⟨b, hb, hroot, hparentRoot, hslot⟩
  · intro node' hnode' hnone
    rcases hnodes node' hnode' with ⟨node, hnode, hblock, hlink⟩ | ⟨-, hlink⟩
    · rw [← hblock]
      exact h.tops node hnode (hlink.trans hnone)
    · rw [hparentRoot, hnone] at hlink
      unfold hasBlock OrderedMap.has at hparent
      rw [hlink] at hparent
      cases hparent
  · intro root hgone
    refine hunknown root ?_ (h.gone root hgone)
    rintro rfl
    rcases h.closed b hb hgone with hstart | hparentGone
    · obtain rfl := htree.unique b hb anchor hanchor hstart
      rw [h.start] at hparent
      cases hparent
    · rw [h.gone _ hparentGone] at hparent
      cases hparent
  · intro node' hnode'
    rcases hnodes node' hnode' with ⟨node, hnode, hblock, -⟩ | ⟨hblock, -⟩
    · rw [← hblock]
      exact h.later node hnode
    · rw [← hblock, hslot]
      omega
  · refine hunknown _ ?_ h.start
    intro hbefore
    have := htree.slots anchor hanchor b hb hbefore
    omega

theorem cut (htree : BlockTree blocks) (h : Grown anchor blocks removed s) {f : Nat} (hcut : CutAt f s s') :
    Grown anchor blocks (removed ++ (s.nodes.take f).map (·.blockRoot)) s' := by
  have hnodes : ∀ node' ∈ s'.nodes, ∃ (i : Nat) (node : ProtoNode), s.nodes[i]? = some node ∧
      node' = shifted f node := by
    intro node' hnode'
    rw [hcut.nodes] at hnode'
    obtain ⟨node, hnode, rfl⟩ := List.mem_map.1 hnode'
    obtain ⟨i, hi⟩ := List.getElem?_of_mem (List.mem_of_mem_drop hnode)
    exact ⟨i, node, hi, rfl⟩
  have hgoes : ∀ (i p : Nat) (node : ProtoNode), s.nodes[i]? = some node → node.parent = some p → p < f →
      node.parentRoot ∈ (s.nodes.take f).map (·.blockRoot) := by
    intro i p node hi hlink hlt
    have hpar : s.parentOf i = some p := (parentOf_node hi).trans hlink
    have hget := List.getElem?_eq_getElem (h.wellFormed.parent_lt hpar)
    have hname := h.parentRoots i p hpar
    unfold rootOf parentRootOf at hname
    rw [hi, hget] at hname
    refine List.mem_map.2 ⟨_, ?_, hname⟩
    exact List.mem_of_getElem? ((List.getElem?_take_of_lt hlt).trans hget)
  have hsub : ∀ root, s.hasBlock root = false → s'.hasBlock root = false := by
    intro root hold
    rw [hasBlock_false_iff h.wellFormed] at hold
    rw [hasBlock_false_iff (hcut.wellFormed h.wellFormed)]
    intro node' hnode'
    obtain ⟨i, node, hi, rfl⟩ := hnodes node' hnode'
    exact hold node (List.mem_of_getElem? hi)
  refine ⟨hcut.wellFormed h.wellFormed, hcut.parentRoots h.parentRoots, ?_, ?_, ?_, ?_, ?_, hsub _ h.start⟩
  · intro node' hnode'
    obtain ⟨i, node, hi, rfl⟩ := hnodes node' hnode'
    exact h.placed node (List.mem_of_getElem? hi)
  · intro node' hnode' hnone
    obtain ⟨i, node, hi, rfl⟩ := hnodes node' hnode'
    cases hlink : node.parent with
    | none =>
      rcases h.tops node (List.mem_of_getElem? hi) hlink with hstart | hgone
      · exact .inl hstart
      · exact .inr (List.mem_append_left _ hgone)
    | some p =>
      by_cases hlt : p < f
      · exact .inr (List.mem_append_right _ (hgoes i p node hi hlink hlt))
      · simp [shifted, hlink, hlt] at hnone
  · intro root hgone
    rcases List.mem_append.1 hgone with hold | hnew
    · exact hsub root (h.gone root hold)
    · obtain ⟨node, hnode, rfl⟩ := List.mem_map.1 hnew
      obtain ⟨j, hj⟩ := List.getElem?_of_mem hnode
      rw [List.getElem?_take, Option.ite_none_right_eq_some] at hj
      obtain ⟨hjf, hj⟩ := hj
      rw [← Bool.not_eq_true]
      intro hknown
      obtain ⟨k, hk⟩ := Option.isSome_iff_exists.1 hknown
      have hold := (hcut.get?_iff h.wellFormed).1 hk
      rw [h.wellFormed.get?_iff.2 ⟨node, hj, rfl⟩] at hold
      have := Option.some.inj hold
      omega
  · intro b hb hgone
    rcases List.mem_append.1 hgone with hold | hnew
    · rcases h.closed b hb hold with hstart | hparent
      · exact .inl hstart
      · exact .inr (List.mem_append_left _ hparent)
    · obtain ⟨node, hnode, hroot⟩ := List.mem_map.1 hnew
      obtain ⟨b', hb', hroot', hparentRoot, -⟩ := h.placed node (List.mem_of_mem_take hnode)
      obtain rfl := htree.unique b' hb' b hb (hroot'.symm.trans hroot)
      obtain ⟨j, hj⟩ := List.getElem?_of_mem hnode
      rw [List.getElem?_take, Option.ite_none_right_eq_some] at hj
      obtain ⟨hjf, hj⟩ := hj
      rw [← hparentRoot, ← hroot']
      cases hlink : node.parent with
      | none =>
        rcases h.tops node (List.mem_of_getElem? hj) hlink with hstart | hparent
        · exact .inl hstart
        · exact .inr (List.mem_append_left _ hparent)
      | some p =>
        have hpar : s.parentOf j = some p := (parentOf_node hj).trans hlink
        have hbefore := h.wellFormed.parentsFirst j p hpar
        exact .inr (List.mem_append_right _ (hgoes j p node hj hlink (by omega)))
  · intro node' hnode'
    obtain ⟨i, node, hi, rfl⟩ := hnodes node' hnode'
    exact h.later node (List.mem_of_getElem? hi)

theorem chained (htree : BlockTree blocks) (hanchor : anchor ∈ blocks) (h : Grown anchor blocks removed s) : s.Chained where
  wellFormed := h.wellFormed
  parentRoots := h.parentRoots
  slots := by
    intro i p node parentNode hi hpar hp
    obtain ⟨b, hb, hroot, hparentRoot, hslot⟩ := h.placed node (List.mem_of_getElem? hi)
    obtain ⟨b', hb', hroot', -, hslot'⟩ := h.placed parentNode (List.mem_of_getElem? hp)
    have hname := h.parentRoots i p hpar
    unfold rootOf parentRootOf at hname
    rw [hi, hp] at hname
    have hlink : b.parentRoot = b'.root := by
      rw [← hparentRoot, ← hroot']
      exact hname.symm
    rw [hslot, hslot']
    exact htree.slots b hb b' hb' hlink
  tops := by
    intro node hnode hnone
    obtain ⟨b, hb, hroot, hparentRoot, -⟩ := h.placed node hnode
    rcases h.tops node hnode hnone with hstart | hgone
    · obtain rfl := htree.unique b hb anchor hanchor (hroot.symm.trans hstart)
      rw [hparentRoot]
      exact h.start
    · exact h.gone _ hgone

end Grown

end ProtoArray

namespace ForkChoice

variable (P : Preset)

def fromAnchor (anchor : ForkBlock) (state : ForkState) (fcStore : ForkChoiceStore)
    (queuedAttestations : List QueuedAttestation) (justifiedBalances : List Nat) : ForkChoice :=
  construct fcStore (ProtoArray.initializeWith (toProtoBlock P anchor state)) queuedAttestations justifiedBalances

def importedBy (fc : ForkChoice) : Op → List ForkBlock
  | .onBlock block state justifiedBalances =>
    match (fc.onBlock P block state justifiedBalances).1 with
    | .ok () => [block]
    | .error _ => []
  | _ => []

def prunedBy (fc : ForkChoice) : Op → List HexRoot
  | .prune finalizedRoot =>
    match (fc.prune finalizedRoot).1 with
    | .ok blocks => blocks.map (·.blockRoot)
    | .error _ => []
  | _ => []

def imported : ForkChoice → List Op → List ForkBlock
  | _, [] => []
  | fc, op :: ops => importedBy P fc op ++ imported (op.run P fc) ops

def pruned : ForkChoice → List Op → List HexRoot
  | _, [] => []
  | fc, op :: ops => prunedBy fc op ++ pruned (op.run P fc) ops

variable {P}

theorem onBlock_parent_known {fc fc' : ForkChoice} {block : ForkBlock} {state : ForkState} {balances : Option (List Nat)}
    (h : fc.onBlock P block state balances = (.ok (), fc')) : fc.protoArray.hasBlock block.parentRoot = true := by
  by_contra hunknown
  have hcheck : fc.checkBlock P block = .error (.INVALID_BLOCK (.UNKNOWN_PARENT block.parentRoot)) := by
    unfold checkBlock
    simp [hunknown]
  unfold onBlock at h
  rw [hcheck] at h
  cases h

section Run

variable {anchor : ForkBlock} {blocks : List ForkBlock} (htree : BlockTree blocks) (hanchor : anchor ∈ blocks)

include htree hanchor

theorem Op.grown {fc : ForkChoice} {removed : List HexRoot} (h : ProtoArray.Grown anchor blocks removed fc.protoArray) (op : Op)
    (hin : ∀ b ∈ importedBy P fc op, b ∈ blocks) :
    ProtoArray.Grown anchor blocks (removed ++ prunedBy fc op) (op.run P fc).protoArray := by
  cases op with
  | onBlock block state balances =>
    simp only [Op.run, prunedBy, List.append_nil]
    obtain ⟨fc₁, hst, ⟨e, heq⟩ | heq⟩ := onBlock_parts (P := P) fc block state balances
    · rw [heq, hst.protoArray]
      exact h
    · have h₁ : fc₁.protoArray.WellFormed := hst.protoArray ▸ h.wellFormed
      have hok : fc.onBlock P block state balances = (.ok (), (fc₁.registerBlock P block state).2) :=
        heq.trans (Prod.ext (registerBlock_ok h₁ block state) rfl)
      have hb : block ∈ blocks := hin block (by simp [importedBy, hok])
      rw [heq, registerBlock_eq, hst.protoArray]
      exact h.onBlock htree hanchor hb (onBlock_parent_known hok) rfl rfl rfl
  | onAttestation attestation =>
    simp only [Op.run, prunedBy, List.append_nil]
    rw [(onAttestation_onlyVotes P fc attestation).protoArray]
    exact h
  | updateTime slot =>
    simp only [Op.run, prunedBy, List.append_nil]
    obtain ⟨fc₁, hst, hv⟩ := updateTime_parts (P := P) fc slot
    rw [hv.protoArray, hst.protoArray]
    exact h
  | prune root =>
    simp only [Op.run, prunedBy]
    unfold ForkChoice.prune
    rcases ProtoArray.maybePrune_run h.wellFormed root with ⟨-, hrun⟩ | ⟨f, -, -, hrun⟩ | ⟨f, s', -, hrun, hcut⟩
    · rw [hrun]
      simpa using h
    · rw [hrun]
      simpa using h
    · rw [hrun]
      have hroots : ((fc.protoArray.nodes.take f).map (·.toProtoBlock)).map (·.blockRoot) =
          (fc.protoArray.nodes.take f).map (·.blockRoot) := by
        rw [List.map_map]
        rfl
      dsimp only
      rw [hroots]
      exact h.cut htree hcut
  | updateHead =>
    simp only [Op.run, prunedBy, List.append_nil]
    obtain ⟨ht, hwf⟩ := updateHead_sameTree h.wellFormed
    exact h.sameTree ht hwf

theorem runOps_grown : ∀ (ops : List Op) {fc : ForkChoice} {removed : List HexRoot},
    ProtoArray.Grown anchor blocks removed fc.protoArray → (∀ b ∈ imported P fc ops, b ∈ blocks) →
    ProtoArray.Grown anchor blocks (removed ++ pruned P fc ops) (runOps P fc ops).protoArray
  | [], fc, removed, h, _ => by simpa [pruned, runOps] using h
  | op :: ops, fc, removed, h, hin => by
    have hstep := op.grown htree hanchor h (fun b hb => hin b (List.mem_append_left _ hb))
    have hrest := runOps_grown ops hstep (fun b hb => hin b (List.mem_append_right _ hb))
    rw [List.append_assoc] at hrest
    exact hrest

end Run

/-- **Descent and ancestors in every run.**  From an anchor block, along any calls that import blocks of one block tree and
prune as they like: `isDescendant` never throws and holds exactly on parent chains, and `getAncestor` of a known root returns
the specification's ancestor, the one block of its chain with the greatest slot that is not after the slot asked for.  It throws
only when there is none, and then the chain ends after that slot, at the anchor or below a block that the run removed. -/
theorem ancestors_run (anchor : ForkBlock) (state : ForkState) (fcStore : ForkChoiceStore) (queue : List QueuedAttestation)
    (balances : List Nat) (ops : List Op)
    (htree : BlockTree (anchor :: imported P (fromAnchor P anchor state fcStore queue balances) ops)) :
    let start := fromAnchor P anchor state fcStore queue balances
    let fc := runOps P start ops
    (∀ a d, ∃ result, fc.protoArray.isDescendant a d = .ok result ∧ (result = true ↔ fc.protoArray.ParentChain a d)) ∧
    ∀ root slot, fc.protoArray.hasBlock root = true →
      (∃ ancestor, fc.getAncestor root slot = .ok ancestor ∧ fc.protoArray.AncestorAt slot root ancestor ∧
        fc.protoArray.ParentChain ancestor root ∧ ∃ block, fc.protoArray.getBlock ancestor = some block ∧ block.slot ≤ slot ∧
          ∀ a other, fc.protoArray.ParentChain a root → fc.protoArray.getBlock a = some other → other.slot ≤ slot →
            a = ancestor ∨ other.slot < block.slot) ∨
      (fc.getAncestor root slot = .error (.UNKNOWN_ANCESTOR root slot) ∧
        (∀ ancestor, ¬ fc.protoArray.AncestorAt slot root ancestor) ∧
        ∃ top, fc.protoArray.getBlock top.blockRoot = some top ∧ fc.protoArray.ParentChain top.blockRoot root ∧ slot < top.slot ∧
          (top.blockRoot = anchor.root ∨ top.parentRoot ∈ pruned P start ops)) := by
  intro start fc
  have hanchor : anchor ∈ anchor :: imported P start ops := List.mem_cons_self
  have hself : anchor.parentRoot ≠ anchor.root := by
    intro hroot
    exact Nat.lt_irrefl _ (htree.slots anchor hanchor anchor hanchor hroot)
  have hgrown : ProtoArray.Grown anchor (anchor :: imported P start ops) ([] ++ pruned P start ops) (runOps P start ops).protoArray :=
    runOps_grown htree hanchor ops (ProtoArray.Grown.initializeWith P state hanchor hself)
    (fun b hb => List.mem_cons_of_mem anchor hb)
  have hchained := hgrown.chained htree hanchor
  refine ⟨hchained.isDescendant_iff, fun root slot hroot => ?_⟩
  rcases getAncestor_chained hchained slot hroot with ⟨ancestor, hrun, hat⟩ | ⟨hrun, hnone, top, hmem, hlink, hlt, hchain⟩
  · obtain ⟨hchain, hmax⟩ := hchained.greatest hat
    exact .inl ⟨ancestor, hrun, hat, hchain, hmax⟩
  · obtain ⟨k, hk⟩ := List.getElem?_of_mem hmem
    exact .inr ⟨hrun, hnone, top.toProtoBlock, hchained.getBlock_eq hk, hchain, hlt, hgrown.tops top hmem hlink⟩

/-! ## An anchor after genesis -/

def anchorBlock : ForkBlock := ⟨32, "z", "a", "a"⟩

def atAnchor : ForkChoice :=
  fromAnchor minimal anchorBlock (stateAt 32 ⟨4, "a"⟩ ⟨4, "a"⟩) ⟨40, ⟨4, "a"⟩, ⟨4, "a"⟩, ⟨4, "a"⟩⟩ [] [1]

def twoBlocks : List Op :=
  [.onBlock ⟨33, "a", "b", "b"⟩ (stateAt 33 ⟨4, "a"⟩ ⟨4, "a"⟩) none,
    .onBlock ⟨35, "b", "c", "c"⟩ (stateAt 35 ⟨4, "a"⟩ ⟨4, "a"⟩) none]

theorem twoBlocks_tree (ops : List Op) (h : imported minimal atAnchor ops = [⟨33, "a", "b", "b"⟩, ⟨35, "b", "c", "c"⟩]) :
    BlockTree (anchorBlock :: imported minimal atAnchor ops) := by
  rw [h]
  exact ⟨by decide, by decide⟩

/-- **Nothing was pruned, and yet an ancestor is missing**: the chain starts at the anchor. -/
theorem getAncestor_before_anchor :
    BlockTree (anchorBlock :: imported minimal atAnchor twoBlocks) ∧ pruned minimal atAnchor twoBlocks = [] ∧
      (runOps minimal atAnchor twoBlocks).protoArray.hasBlock "c" = true ∧
      (runOps minimal atAnchor twoBlocks).getAncestor "c" 5 = .error (.UNKNOWN_ANCESTOR "c" 5) :=
  ⟨twoBlocks_tree twoBlocks (by decide), by decide, by decide, by decide⟩

/-- The anchor is pruned in the end: the chain of "c" goes down to "b". -/
theorem ancestors_run_pruned :
    let fc := runOps minimal atAnchor (twoBlocks ++ [.prune "b"])
    fc.getAncestor "c" 34 = .ok "b" ∧ fc.getAncestor "c" 32 = .error (.UNKNOWN_ANCESTOR "c" 32) ∧
      ∃ result, fc.protoArray.isDescendant "b" "c" = .ok result ∧ (result = true ↔ fc.protoArray.ParentChain "b" "c") := by
  have hrun := ancestors_run (P := minimal) anchorBlock (stateAt 32 ⟨4, "a"⟩ ⟨4, "a"⟩)
    ⟨40, ⟨4, "a"⟩, ⟨4, "a"⟩, ⟨4, "a"⟩⟩ [] [1] (twoBlocks ++ [.prune "b"]) (twoBlocks_tree _ (by decide))
  exact ⟨by decide, by decide, hrun.1 "b" "c"⟩

end ForkChoice

end Lodestar
