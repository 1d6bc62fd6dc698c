import Lodestar.ForkChoice.ProtoArrayInv
/-!
# ProtoArrayRuns — new blocks, pruning and whole runs

`onBlock_run` and `maybePrune_run` say what the two methods do to a well-formed array; with `applyScoreChanges_run` every
array that a run of the three methods reaches is well formed (`WellFormed.runOps`), so none of them ever throws for a
broken link.
-/
namespace Lodestar

open Lib Forest

namespace ProtoArray

/-! ## New blocks -/

section

variable (s : ProtoArray) (block : ProtoBlock) (i : Nat)

theorem pushBlock_getElem? : (s.pushBlock block).nodes[i]? = if i = s.nodes.length then
      some { block with parent := s.indices.get? block.parentRoot, weight := 0, bestChild := none, bestDescendant := none }
    else s.nodes[i]? := by
  unfold pushBlock
  rw [List.getElem?_append]
  rcases Nat.lt_trichotomy i s.nodes.length with hlt | heq | hgt
  · rw [if_pos hlt, if_neg (Nat.ne_of_lt hlt)]
  · rw [if_neg (by omega), if_pos heq, heq, Nat.sub_self]
    rfl
  · rw [if_neg (by omega), if_neg (Nat.ne_of_gt hgt), List.getElem?_eq_none (by simp; omega),
      List.getElem?_eq_none (by omega)]

theorem pushBlock_parentOf : (s.pushBlock block).parentOf i =
    if i = s.nodes.length then s.indices.get? block.parentRoot else s.parentOf i := by
  unfold parentOf
  rw [pushBlock_getElem?]
  split <;> rfl

theorem pushBlock_bestChildOf : (s.pushBlock block).bestChildOf i = s.bestChildOf i := by
  unfold bestChildOf
  rw [pushBlock_getElem?]
  split
  · rename_i h
    rw [h, List.getElem?_eq_none (Nat.le_refl _)]
    rfl
  · rfl

theorem pushBlock_bestDescendantOf : (s.pushBlock block).bestDescendantOf i = s.bestDescendantOf i := by
  unfold bestDescendantOf
  rw [pushBlock_getElem?]
  split
  · rename_i h
    rw [h, List.getElem?_eq_none (Nat.le_refl _)]
    rfl
  · rfl

theorem pushBlock_rootOf : (s.pushBlock block).rootOf i =
    if i = s.nodes.length then block.blockRoot else s.rootOf i := by
  unfold rootOf
  rw [pushBlock_getElem?]
  split <;> rfl

theorem pushBlock_weightOf : (s.pushBlock block).weightOf i = s.weightOf i := by
  unfold weightOf
  rw [pushBlock_getElem?]
  split
  · rename_i h
    rw [h, List.getElem?_eq_none (Nat.le_refl _)]
    rfl
  · rfl

end

variable {s : ProtoArray}

theorem WellFormed.pushBlock (h : s.WellFormed) {block : ProtoBlock} (hnew : s.indices.has block.blockRoot = false) :
    (s.pushBlock block).WellFormed := by
  have hpar := pushBlock_parentOf s block
  have hfirst : ParentsFirst (s.pushBlock block).parentOf := by
    intro i p hp
    rw [hpar] at hp
    split at hp
    · rename_i heq
      obtain ⟨node, hnode, -⟩ := h.get?_iff.1 hp
      rw [heq]
      exact (List.getElem?_eq_some_iff.1 hnode).1
    · exact h.parentsFirst i p hp
  constructor
  · show (s.indices.set block.blockRoot s.nodes.length).entries = (s.nodes ++ [_]).zipIdx.map _
    rw [OrderedMap.entries_set_new hnew, h.keys, List.zipIdx_append]
    simp
  · exact hfirst
  · intro p c hc
    rw [pushBlock_bestChildOf] at hc
    rw [hpar, if_neg (Nat.ne_of_lt (h.bestChild_lt hc))]
    exact h.bestChild p c hc
  · intro p
    rw [pushBlock_bestChildOf, pushBlock_bestDescendantOf]
    exact h.linked p
  · intro p c d hc hd
    rw [pushBlock_bestChildOf] at hc
    rw [pushBlock_bestDescendantOf] at hd
    have hdlt := h.descendant_lt hd
    rw [inSubtree_congr hfirst h.parentsFirst d (fun i hi => by rw [hpar, if_neg (by omega)])]
    exact h.bestDescendant p c d hc hd

theorem updateAncestors_run : ∀ (fuel : Nat) {s : ProtoArray} (p : Option Nat) (i : Nat), s.WellFormed →
    s.parentOf i = p → ∃ s', updateAncestors fuel p i s = (.ok (), s') ∧ s'.WellFormed ∧ SameTree s s' ∧
      s'.weightOf = s.weightOf ∧ s'.justifiedEpoch = s.justifiedEpoch ∧ s'.finalizedEpoch = s.finalizedEpoch
  | fuel, s, none, i, h, _ => by
    refine ⟨s, ?_, h, SameTree.refl s, rfl, rfl, rfl⟩
    unfold updateAncestors
    rfl
  | 0, s, some p, i, h, _ => ⟨s, rfl, h, SameTree.refl s, rfl, rfl, rfl⟩
  | fuel + 1, s, some p, i, h, hp => by
    have ht := setLinks_sameTree s p (s.chosenLinks p i)
    obtain ⟨s', hrun, hwf, ht', hw, hj, hf⟩ := updateAncestors_run fuel
      (((s.setLinks p (s.chosenLinks p i)).getNodeByIndex p).bind (·.parent)) p (h.setLinks hp) rfl
    refine ⟨s', ?_, hwf, ht.trans ht', ?_, ?_, ?_⟩
    · unfold updateAncestors
      rw [maybeUpdate_eq h hp]
      exact hrun
    · rw [hw]
      funext j
      exact weightOf_setLinks j
    · rw [hj, setLinks_justifiedEpoch]
    · rw [hf, setLinks_finalizedEpoch]

/-- **`onBlock` on a well-formed array**: a known root changes nothing; a new one becomes the last node, and besides only
links change. -/
theorem onBlock_run (h : s.WellFormed) (block : ProtoBlock) :
    ∃ s', s.onBlock block = (.ok (), s') ∧ s'.WellFormed ∧ s'.justifiedEpoch = s.justifiedEpoch ∧
      s'.finalizedEpoch = s.finalizedEpoch ∧
      ((s.indices.has block.blockRoot = true ∧ s' = s) ∨
        (s.indices.has block.blockRoot = false ∧ SameTree (s.pushBlock block) s' ∧
          s'.weightOf = (s.pushBlock block).weightOf)) := by
  unfold onBlock
  cases hhas : s.indices.has block.blockRoot with
  | true =>
    refine ⟨s, ?_, h, rfl, rfl, .inl ⟨rfl, rfl⟩⟩
    rw [if_pos rfl]
  | false =>
    have hpar : (s.pushBlock block).parentOf s.nodes.length = s.indices.get? block.parentRoot := by
      rw [pushBlock_parentOf, if_pos rfl]
    obtain ⟨s', hrun, hwf, ht, hw, hj, hf⟩ := updateAncestors_run s.nodes.length _ _ (h.pushBlock hhas) hpar
    refine ⟨s', ?_, hwf, hj, hf, .inr ⟨rfl, ht, hw⟩⟩
    exact hrun

theorem onBlock_has (h : s.WellFormed) (block : ProtoBlock) (root : HexRoot) :
    (s.onBlock block).2.indices.has root = true ↔ root = block.blockRoot ∨ s.indices.has root = true := by
  obtain ⟨s', hrun, hwf, -, -, ⟨hhas, rfl⟩ | ⟨-, ht, -⟩⟩ := onBlock_run h block
  · rw [hrun]
    refine ⟨.inr, ?_⟩
    rintro (rfl | hroot)
    · exact hhas
    · exact hroot
  · rw [hrun]
    have hnodes : ∀ r, (∃ node ∈ s'.nodes, node.blockRoot = r) ↔ ∃ node ∈ (s.pushBlock block).nodes, node.blockRoot = r := by
      intro r
      have hmap := congrArg (List.map (fun x => x.1.blockRoot)) ht.blocks
      simp only [List.map_map, Function.comp_def] at hmap
      rw [← List.mem_map, ← List.mem_map, hmap]
    rw [hwf.has_iff, hnodes, h.has_iff]
    simp only [ProtoArray.pushBlock, List.mem_append, List.mem_singleton]
    constructor
    · rintro ⟨node, hnode | rfl, rfl⟩
      · exact .inr ⟨node, hnode, rfl⟩
      · exact .inl rfl
    · rintro (rfl | ⟨node, hnode, rfl⟩)
      · exact ⟨_, .inr rfl, rfl⟩
      · exact ⟨node, .inl hnode, rfl⟩

/-! ## Pruning -/

def keysOf (nodes : List ProtoNode) : List (HexRoot × Nat) := nodes.zipIdx.map (fun x => (x.1.blockRoot, x.2))

theorem keysOf_getElem? (nodes : List ProtoNode) (i : Nat) :
    (keysOf nodes)[i]? = (nodes[i]?).map (fun node => (node.blockRoot, i)) := by
  unfold keysOf
  rw [List.getElem?_map, List.getElem?_zipIdx]
  cases nodes[i]? <;> simp

theorem deleteIndices_run (nodes : List ProtoNode) : ∀ (n i : Nat) (m : OrderedMap HexRoot Nat), i + n ≤ nodes.length →
    m.entries = (keysOf nodes).drop i →
    ∃ m', deleteIndices nodes n i m = (.ok (), m') ∧ m'.entries = (keysOf nodes).drop (i + n)
  | 0, i, m, _, hm => ⟨m, rfl, hm⟩
  | n + 1, i, m, hle, hm => by
    have hi : i < nodes.length := by omega
    have hklen : (keysOf nodes).length = nodes.length := by simp [keysOf]
    have hhead : m.entries = (nodes[i].blockRoot, i) :: (keysOf nodes).drop (i + 1) := by
      rw [hm, List.drop_eq_getElem_cons (by omega)]
      congr 1
      have := keysOf_getElem? nodes i
      rw [List.getElem?_eq_getElem (by omega), List.getElem?_eq_getElem hi] at this
      simpa using this
    obtain ⟨m', hrun, hm'⟩ := deleteIndices_run nodes n (i + 1) (m.delete nodes[i].blockRoot) (by omega)
      (OrderedMap.entries_delete_head hhead)
    refine ⟨m', ?_, by rw [hm', Nat.add_right_comm, Nat.add_assoc]⟩
    unfold deleteIndices
    rw [List.getElem?_eq_getElem hi]
    exact hrun

theorem shiftIndices_run (f : Nat) : ∀ (rest done : List (HexRoot × Nat)) (m : OrderedMap HexRoot Nat),
    m.entries = done ++ rest → (∀ e ∈ rest, f ≤ e.2) →
    ∃ m', shiftIndices f rest m = (.ok (), m') ∧ m'.entries = done ++ rest.map (fun e => (e.1, e.2 - f))
  | [], done, m, hm, _ => ⟨m, rfl, by simpa using hm⟩
  | (key, value) :: rest, done, m, hm, hle => by
    have hset := OrderedMap.entries_set_known hm (value - f)
    obtain ⟨m', hrun, hm'⟩ := shiftIndices_run f rest (done ++ [(key, value - f)]) (m.set key (value - f))
      (by rw [hset]; simp) (fun e he => hle e (List.mem_cons_of_mem _ he))
    refine ⟨m', ?_, by rw [hm']; simp⟩
    unfold shiftIndices
    rw [if_neg (Nat.not_lt.2 (hle _ List.mem_cons_self))]
    exact hrun

def shifted (f : Nat) (node : ProtoNode) : ProtoNode :=
  { node with
    parent := node.parent.bind (fun p => if p < f then none else some (p - f))
    bestChild := node.bestChild.map (· - f)
    bestDescendant := node.bestDescendant.map (· - f) }

theorem shiftNodes_run (f : Nat) : ∀ (nodes : List ProtoNode),
    (∀ node ∈ nodes, (∀ c, node.bestChild = some c → f ≤ c) ∧ ∀ d, node.bestDescendant = some d → f ≤ d) →
    shiftNodes f nodes = (.ok (), nodes.map (shifted f))
  | [], _ => rfl
  | node :: nodes, h => by
    obtain ⟨hc, hd⟩ := h node List.mem_cons_self
    have hnode : shiftNode f node = (.ok (), shifted f node) := by
      unfold shiftNode
      rw [if_neg, if_neg]
      · rfl
      · cases hbd : node.bestDescendant with
        | none => simp
        | some d => simpa using hd d hbd
      · cases hbc : node.bestChild with
        | none => simp
        | some c => simpa using hc c hbc
    unfold shiftNodes
    rw [hnode, shiftNodes_run f nodes (fun n hn => h n (List.mem_cons_of_mem _ hn))]
    rfl

structure CutAt (f : Nat) (s s' : ProtoArray) : Prop where
  nodes : s'.nodes = (s.nodes.drop f).map (shifted f)
  keys : s'.indices.entries = keysOf s'.nodes
  justifiedEpoch : s'.justifiedEpoch = s.justifiedEpoch
  finalizedEpoch : s'.finalizedEpoch = s.finalizedEpoch

namespace CutAt

variable {f : Nat} {s s' : ProtoArray} (h : CutAt f s s')

include h

theorem getElem? (i : Nat) : s'.nodes[i]? = (s.nodes[i + f]?).map (shifted f) := by
  rw [h.nodes, List.getElem?_map, List.getElem?_drop, Nat.add_comm f i]

theorem parentOf : s'.parentOf = cutParent s.parentOf f := by
  funext i
  unfold cutParent ProtoArray.parentOf
  rw [h.getElem? i]
  cases s.nodes[i + f]? <;> rfl

theorem bestChildOf (i : Nat) : s'.bestChildOf i = (s.bestChildOf (i + f)).map (· - f) := by
  unfold ProtoArray.bestChildOf
  rw [h.getElem? i]
  cases s.nodes[i + f]? <;> rfl

theorem bestDescendantOf (i : Nat) : s'.bestDescendantOf i = (s.bestDescendantOf (i + f)).map (· - f) := by
  unfold ProtoArray.bestDescendantOf
  rw [h.getElem? i]
  cases s.nodes[i + f]? <;> rfl

theorem weightOf (i : Nat) : s'.weightOf i = s.weightOf (i + f) := by
  unfold ProtoArray.weightOf
  rw [h.getElem? i]
  cases s.nodes[i + f]? <;> rfl

theorem rootOf (i : Nat) : s'.rootOf i = s.rootOf (i + f) := by
  unfold ProtoArray.rootOf
  rw [h.getElem? i]
  cases s.nodes[i + f]? <;> rfl

theorem wellFormed (hwf : s.WellFormed) : s'.WellFormed := by
  have hchild : ∀ p c, s'.bestChildOf p = some c → s.bestChildOf (p + f) = some (c + f) ∧
      s.parentOf (c + f) = some (p + f) := by
    intro p c hc
    rw [h.bestChildOf, Option.map_eq_some_iff] at hc
    obtain ⟨c', hc', rfl⟩ := hc
    have hpar := hwf.bestChild _ _ hc'
    have hlt := hwf.parentsFirst _ _ hpar
    rw [Nat.sub_add_cancel (by omega)]
    exact ⟨hc', hpar⟩
  constructor
  · exact h.keys
  · rw [h.parentOf]
    exact parentsFirst_cut hwf.parentsFirst f
  · intro p c hc
    rw [h.parentOf]
    exact cutParent_eq_some.2 (hchild p c hc).2
  · intro p
    rw [h.bestChildOf, h.bestDescendantOf, Option.map_eq_none_iff, Option.map_eq_none_iff]
    exact hwf.linked (p + f)
  · intro p c d hc hd
    obtain ⟨hc', hpar⟩ := hchild p c hc
    rw [h.bestDescendantOf, Option.map_eq_some_iff] at hd
    obtain ⟨d', hd', rfl⟩ := hd
    have hmem := hwf.bestDescendant _ _ _ hc' hd'
    have hle := inSubtree_le hwf.parentsFirst _ hmem
    rw [h.parentOf, inSubtree_cut hwf.parentsFirst, Nat.sub_add_cancel (by omega)]
    exact hmem

end CutAt

/-- **`maybePrune` on a well-formed array**: an unknown root is refused, a small index is left alone, and otherwise the nodes
before it are cut off. -/
theorem maybePrune_run (h : s.WellFormed) (root : HexRoot) :
    (s.indices.get? root = none ∧ s.maybePrune root = (.error (.FINALIZED_NODE_UNKNOWN root), s)) ∨
    (∃ f, s.indices.get? root = some f ∧ f < s.pruneThreshold ∧ s.maybePrune root = (.ok [], s)) ∨
    (∃ f s', s.indices.get? root = some f ∧ s.maybePrune root = (.ok (s.nodes.take f), s') ∧ CutAt f s s') := by
  unfold maybePrune
  cases hget : s.indices.get? root with
  | none => exact .inl ⟨rfl, rfl⟩
  | some f =>
    right
    dsimp only
    by_cases hthr : f < s.pruneThreshold
    · exact .inl ⟨f, rfl, hthr, by rw [if_pos hthr]⟩
    right
    rw [if_neg hthr]
    obtain ⟨node, hnode, -⟩ := h.get?_iff.1 hget
    have hflt : f < s.nodes.length := (List.getElem?_eq_some_iff.1 hnode).1
    obtain ⟨m₁, hrun₁, hm₁⟩ := deleteIndices_run s.nodes f 0 s.indices (by omega) h.keys
    rw [Nat.zero_add] at hm₁
    have hge : ∀ e ∈ m₁.entries, f ≤ e.2 := by
      intro e he
      rw [hm₁] at he
      obtain ⟨j, hj⟩ := List.getElem?_of_mem he
      rw [List.getElem?_drop, keysOf_getElem?, Option.map_eq_some_iff] at hj
      obtain ⟨nd, -, rfl⟩ := hj
      exact Nat.le_add_right f j
    obtain ⟨m₂, hrun₂, hm₂⟩ := shiftIndices_run f m₁.entries [] m₁ rfl hge
    have hlinks : ∀ nd ∈ s.nodes.drop f, (∀ c, nd.bestChild = some c → f ≤ c) ∧
        ∀ d, nd.bestDescendant = some d → f ≤ d := by
      intro nd hnd
      obtain ⟨j, hj⟩ := List.getElem?_of_mem hnd
      rw [List.getElem?_drop] at hj
      have hbc : s.bestChildOf (f + j) = nd.bestChild := by unfold bestChildOf; rw [hj]; rfl
      have hbd : s.bestDescendantOf (f + j) = nd.bestDescendant := by unfold bestDescendantOf; rw [hj]; rfl
      constructor
      · intro c hc
        have := h.parentsFirst _ _ (h.bestChild _ _ (hbc.trans hc))
        omega
      · intro d hd
        have := inSubtree_le h.parentsFirst _ (h.descendant_mem (hbd.trans hd))
        omega
    refine ⟨f, { s with nodes := (s.nodes.drop f).map (shifted f), indices := m₂ }, rfl, ?_, rfl, ?_, rfl, rfl⟩
    · rw [hrun₁]
      dsimp only
      rw [hrun₂]
      rw [shiftNodes_run f _ hlinks]
    · show m₂.entries = keysOf ((s.nodes.drop f).map (shifted f))
      rw [hm₂, hm₁]
      refine List.ext_getElem? (fun j => ?_)
      rw [List.nil_append, List.getElem?_map, List.getElem?_drop, keysOf_getElem?, keysOf_getElem?, List.getElem?_map,
        List.getElem?_drop]
      cases s.nodes[f + j]? with
      | none => rfl
      | some nd => simp [shifted]

theorem maybePrune_cuts (h : s.WellFormed) (root : HexRoot) :
    (s.maybePrune root).2 = s ∨ ∃ f, s.indices.get? root = some f ∧ CutAt f s (s.maybePrune root).2 := by
  rcases maybePrune_run h root with ⟨-, hrun⟩ | ⟨f, -, -, hrun⟩ | ⟨f, s', hget, hrun, hcut⟩
  · exact .inl (congrArg Prod.snd hrun)
  · exact .inl (congrArg Prod.snd hrun)
  · rw [hrun]
    exact .inr ⟨f, hget, hcut⟩

/-! ## Runs -/

/-- A call of one of the methods that change the array. -/
inductive Op
  | onBlock (block : ProtoBlock)
  | applyScoreChanges (deltas : List Int) (justifiedEpoch finalizedEpoch : Nat)
  | maybePrune (finalizedRoot : HexRoot)

def Op.run (s : ProtoArray) : Op → ProtoArray
  | .onBlock block => (s.onBlock block).2
  | .applyScoreChanges deltas justifiedEpoch finalizedEpoch => (s.applyScoreChanges deltas justifiedEpoch finalizedEpoch).2
  | .maybePrune finalizedRoot => (s.maybePrune finalizedRoot).2

def runOps (s : ProtoArray) (ops : List Op) : ProtoArray := ops.foldl Op.run s

theorem WellFormed.new (pruneThreshold je fe : Nat) : (new pruneThreshold je fe).WellFormed where
  keys := rfl
  parentsFirst _ _ h := by cases h
  bestChild _ _ h := by cases h
  linked _ := ⟨fun _ => rfl, fun _ => rfl⟩
  bestDescendant _ _ _ h := by cases h

theorem WellFormed.op (h : s.WellFormed) (op : Op) : (op.run s).WellFormed := by
  cases op with
  | onBlock block =>
    obtain ⟨s', hrun, hwf, -⟩ := onBlock_run h block
    simp only [Op.run]
    rw [hrun]
    exact hwf
  | applyScoreChanges deltas je fe =>
    simp only [Op.run]
    rcases applyScoreChanges_run h deltas je fe with ⟨-, e, hrun⟩ | ⟨-, s', hrun, hwf, -⟩
    · rw [hrun]
      exact h
    · rw [hrun]
      exact hwf
  | maybePrune root =>
    simp only [Op.run]
    rcases maybePrune_cuts h root with heq | ⟨f, -, hcut⟩
    · rw [heq]
      exact h
    · exact hcut.wellFormed h

theorem Op.run_cases (h : s.WellFormed) (op : Op) : SameTree s (op.run s) ∨
    (∃ block, op = .onBlock block ∧ SameTree (s.pushBlock block) (op.run s)) ∨ ∃ f, CutAt f s (op.run s) := by
  cases op with
  | onBlock block =>
    simp only [Op.run]
    obtain ⟨s', hrun, -, -, -, ⟨-, rfl⟩ | ⟨-, ht, -⟩⟩ := onBlock_run h block
    · rw [hrun]
      exact .inl (.refl _)
    · rw [hrun]
      exact .inr (.inl ⟨block, rfl, ht⟩)
  | applyScoreChanges deltas je fe =>
    simp only [Op.run]
    rcases applyScoreChanges_run h deltas je fe with ⟨-, e, hrun⟩ | ⟨-, s', hrun, -, ht, -⟩
    · rw [hrun]
      exact .inl (.refl s)
    · rw [hrun]
      exact .inl ht
  | maybePrune root =>
    simp only [Op.run]
    rcases maybePrune_cuts h root with heq | ⟨f, -, hcut⟩
    · rw [heq]
      exact .inl (.refl s)
    · exact .inr (.inr ⟨f, hcut⟩)

theorem WellFormed.runOps : ∀ (ops : List Op) {s : ProtoArray}, s.WellFormed → (runOps s ops).WellFormed
  | [], _, h => h
  | op :: ops, _, h => WellFormed.runOps ops (h.op op)

end ProtoArray

end Lodestar
