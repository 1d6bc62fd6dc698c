import Lodestar.ForkChoice.BestChild
/-!
# Links — where the links of the array lead, over every run

The best descendant of a node is the end of the chain of best children that starts there.  The backward pass puts this right
for all nodes whatever it was before (`PassFollows`); a new block can only spoil the link to itself, and the walk up its
ancestors mends one link and spoils the next, up to a root; pruning shifts all links alike.
-/
namespace Lodestar

open Lib Forest

namespace ProtoArray

/-! ## The chain of best children -/

inductive ChainEnd (s : ProtoArray) : Nat → Nat → Prop
  | last {i : Nat} : s.bestChildOf i = none → ChainEnd s i i
  | next {i c d : Nat} : s.bestChildOf i = some c → ChainEnd s c d → ChainEnd s i d

variable {s : ProtoArray} {i d d' p q c f : Nat}

theorem ChainEnd.unique (h : ChainEnd s i d) (h' : ChainEnd s i d') : d = d' := by
  induction h with
  | last hnone =>
    cases h' with
    | last => rfl
    | next hsome => rw [hnone] at hsome; cases hsome
  | next hsome _ ih =>
    cases h' with
    | last hnone => rw [hnone] at hsome; cases hsome
    | next hsome' htail =>
      rw [hsome, Option.some.injEq] at hsome'
      subst hsome'
      exact ih htail

theorem chainEnd_tip (h : s.WellFormed) (hlinks : s.LinksFollow) (i : Nat) : ChainEnd s i (s.tipOf i) := by
  cases hc : s.bestChildOf i with
  | none =>
    have hd := (h.linked i).1 hc
    unfold tipOf
    rw [hd]
    exact .last hc
  | some c =>
    have hd := hlinks i c hc
    have hlt := h.parentsFirst c i (h.bestChild i c hc)
    have hlen := h.bestChild_lt hc
    have htip : s.tipOf i = s.tipOf c := by
      rw [tipOf, hd]
      rfl
    rw [htip]
    exact .next hc (chainEnd_tip h hlinks c)
termination_by s.nodes.length - i

theorem bestDescendantOf_iff (h : s.WellFormed) (hlinks : s.LinksFollow) (i d : Nat) :
    s.bestDescendantOf i = some d ↔ s.bestChildOf i ≠ none ∧ ChainEnd s i d := by
  have htip := chainEnd_tip h hlinks i
  constructor
  · intro hd
    refine ⟨fun hc => ?_, ?_⟩
    · rw [(h.linked i).1 hc] at hd
      cases hd
    · rw [tipOf, hd] at htip
      exact htip
  · rintro ⟨hc, hend⟩
    cases hd : s.bestDescendantOf i with
    | none => exact absurd ((h.linked i).2 hd) hc
    | some d' =>
      rw [tipOf, hd, Option.getD_some] at htip
      rw [htip.unique hend]

/-! ## Each call -/

/-- The links to the nodes from `k` on are right. -/
def PassFollows (k : Nat) (s : ProtoArray) : Prop :=
  ∀ p c, s.bestChildOf p = some c → k ≤ c → s.bestDescendantOf p = some (s.tipOf c)

theorem chosenLinks_cases (s : ProtoArray) (p i : Nat) :
    s.chosenLinks p i = (some i, some (s.tipOf i)) ∨ s.chosenLinks p i = (none, none) ∨
    s.bestChildOf p ≠ some i ∧ s.chosenLinks p i = (s.bestChildOf p, s.bestDescendantOf p) := by
  unfold chosenLinks
  cases hb : s.bestChildOf p with
  | none =>
    dsimp only
    split
    · exact .inl rfl
    · exact .inr (.inr ⟨by simp, rfl⟩)
  | some b =>
    dsimp only
    split
    · split
      · exact .inl rfl
      · exact .inr (.inl rfl)
    · rename_i hne
      split
      · exact .inl rfl
      · exact .inr (.inr ⟨by simpa using hne, rfl⟩)

theorem setLinks_follow (h : s.WellFormed) (hpi : s.parentOf i = some p)
    (hc : (s.setLinks p (s.chosenLinks p i)).bestChildOf q = some c) (hcp : c ≠ p)
    (hold : c ≠ i → s.bestChildOf q = some c → s.bestDescendantOf q = some (s.tipOf c)) :
    (s.setLinks p (s.chosenLinks p i)).bestDescendantOf q = some ((s.setLinks p (s.chosenLinks p i)).tipOf c) := by
  have hp := h.parent_lt hpi
  have htip : (s.setLinks p (s.chosenLinks p i)).tipOf c = s.tipOf c := by
    unfold tipOf
    rw [bestDescendantOf_setLinks hp, if_neg hcp]
  rw [htip, bestDescendantOf_setLinks hp]
  rw [bestChildOf_setLinks hp] at hc
  split
  · rename_i hqp
    subst hqp
    rw [if_pos rfl] at hc
    rcases chosenLinks_cases s q i with hlinks | hlinks | ⟨hne, hlinks⟩
    · rw [hlinks] at hc ⊢
      cases hc
      rfl
    · rw [hlinks] at hc
      cases hc
    · rw [hlinks] at hc ⊢
      exact hold (fun hci => hne (hci ▸ hc)) hc
  · rename_i hqp
    rw [if_neg hqp] at hc
    refine hold (fun hci => hqp ?_) hc
    subst hci
    have hpar := h.bestChild q c hc
    rw [hpi, Option.some.injEq] at hpar
    exact hpar.symm

variable {s₀ s s' : ProtoArray}

theorem PassFollows.visit {deltas : List Int} (hz : s₀.ZeroHashIsRoot) (hk : PassKeeps s₀ deltas s) (h : PassFollows (i + 1) s)
    : PassFollows i (visit i deltas s).2 := by
  have hwf := hk.wellFormed
  -- without a parent, no link leads to the node
  have hroot : s.parentOf i = none → ∀ s', s'.bestChildOf = s.bestChildOf → s'.bestDescendantOf = s.bestDescendantOf →
      PassFollows i s' := by
    intro hnone s' hc' hd' p c hc hle
    rw [hc'] at hc
    have hne : c ≠ i := by
      rintro rfl
      rw [hwf.bestChild p c hc] at hnone
      cases hnone
    unfold tipOf
    rw [hd']
    exact h p c hc (by omega)
  unfold ProtoArray.visit
  split
  · rename_i hzero
    refine hroot ?_ s rfl rfl
    rw [hk.sameTree.parentOf]
    exact hz i (by rw [← hk.sameTree.rootOf]; exact hzero)
  · have hadd : (s.addWeight i (deltas.getD i 0)).bestChildOf = s.bestChildOf ∧
        (s.addWeight i (deltas.getD i 0)).bestDescendantOf = s.bestDescendantOf :=
      ⟨funext bestChildOf_addWeight, funext bestDescendantOf_addWeight⟩
    split
    · rename_i hnone
      exact hroot hnone _ hadd.1 hadd.2
    · rename_i p hpi
      intro q c hc hle
      have hlt := hwf.parentsFirst i p hpi
      have hpi' : (s.addWeight i (deltas.getD i 0)).parentOf i = some p := by
        rw [(addWeight_sameTree s i _).parentOf]
        exact hpi
      refine setLinks_follow (hwf.addWeight i _) hpi' hc (by omega) fun hne hold => ?_
      unfold tipOf
      rw [hadd.2]
      rw [hadd.1] at hold
      exact h q c hold (by omega)

theorem applyScoreChanges_follow (h : s.WellFormed) (hz : s.ZeroHashIsRoot) (hlinks : s.LinksFollow) (deltas : List Int)
    (je fe : Nat) : (s.applyScoreChanges deltas je fe).2.LinksFollow := by
  unfold applyScoreChanges
  rw [h.size]
  split
  · exact hlinks
  · rename_i hlen
    have ht := withEpochs_sameTree s je fe
    have hz' : (s.withEpochs je fe).ZeroHashIsRoot := by
      unfold ZeroHashIsRoot
      rw [ht.rootOf, ht.parentOf]
      exact hz
    have hstart := PassKeeps.start h (not_not.1 hlen) je fe
    have hopen : PassFollows s.nodes.length (s.withEpochs je fe) := by
      intro p c hc hle
      have hlt := hstart.wellFormed.bestChild_lt hc
      rw [withEpochs_nodes] at hlt
      omega
    obtain ⟨_, s', hrun, -, hfollows⟩ := applyScoreLoop_rule (fun k _ s'' => PassFollows k s'')
      (fun i _ _ _ hk hP => hP.visit hz' hk) s.nodes.length deltas _ (by rw [withEpochs_nodes]) hstart hopen
    rw [hrun]
    exact fun p c hc => hfollows p c hc (Nat.zero_le c)

theorem updateAncestors_follow : ∀ (fuel : Nat) {s : ProtoArray} (p : Option Nat) (i : Nat), s.WellFormed →
    s.parentOf i = p → i ≤ fuel → (∀ q c, c ≠ i → s.bestChildOf q = some c → s.bestDescendantOf q = some (s.tipOf c)) →
    (updateAncestors fuel p i s).2.LinksFollow
  | fuel, s, none, i, h, hp, _, hlinks => by
    unfold updateAncestors
    intro q c hc
    refine hlinks q c ?_ hc
    rintro rfl
    rw [h.bestChild q c hc] at hp
    cases hp
  | 0, s, some p, i, h, hp, hle, _ => by
    have hlt := h.parentsFirst i p hp
    omega
  | fuel + 1, s, some p, i, h, hp, hle, hlinks => by
    have hlt := h.parentsFirst i p hp
    unfold updateAncestors
    rw [maybeUpdate_eq h hp]
    exact updateAncestors_follow fuel _ p (h.setLinks hp) rfl (by omega)
      fun q c hcp hc => setLinks_follow h hp hc hcp (hlinks q c)

theorem onBlock_follow (h : s.WellFormed) (hlinks : s.LinksFollow) (block : ProtoBlock) :
    (s.onBlock block).2.LinksFollow := by
  unfold onBlock
  cases hhas : s.indices.has block.blockRoot with
  | true =>
    exact hlinks
  | false =>
    have hpar : (s.pushBlock block).parentOf s.nodes.length = s.indices.get? block.parentRoot := by
      rw [pushBlock_parentOf, if_pos rfl]
    refine updateAncestors_follow s.nodes.length _ _ (h.pushBlock hhas) hpar (le_refl _) fun q c _ hc => ?_
    unfold tipOf
    rw [pushBlock_bestDescendantOf, pushBlock_bestDescendantOf]
    rw [pushBlock_bestChildOf] at hc
    exact hlinks q c hc

theorem CutAt.follow (hcut : CutAt f s s') (h : s.WellFormed) (hlinks : s.LinksFollow) :
    s'.LinksFollow := by
  intro p c hc
  rw [hcut.bestChildOf, Option.map_eq_some_iff] at hc
  obtain ⟨c', hc', rfl⟩ := hc
  have hlt := h.parentsFirst _ _ (h.bestChild _ _ hc')
  rw [hcut.bestDescendantOf, hlinks _ _ hc']
  unfold tipOf
  rw [hcut.bestDescendantOf, Nat.sub_add_cancel (by omega)]
  cases s.bestDescendantOf c' <;> rfl

/-! ## Runs -/

def Op.ZeroHashIsRoot (s : ProtoArray) : Op → Prop
  | .onBlock block => block.blockRoot = HEX_ZERO_HASH → s.indices.get? block.parentRoot = none
  | _ => True

def Along (Q : ProtoArray → Op → Prop) : ProtoArray → List Op → Prop
  | _, [] => True
  | s, op :: ops => Q s op ∧ Along Q (op.run s) ops

theorem SameTree.zeroHashIsRoot (ht : SameTree s s') (h : s.ZeroHashIsRoot) : s'.ZeroHashIsRoot := by
  unfold ZeroHashIsRoot
  rw [ht.rootOf, ht.parentOf]
  exact h

theorem ZeroHashIsRoot.op (hwf : s.WellFormed) (h : s.ZeroHashIsRoot) (op : Op) (hop : op.ZeroHashIsRoot s) :
    (op.run s).ZeroHashIsRoot := by
  rcases op.run_cases hwf with ht | ⟨block, rfl, ht⟩ | ⟨f, hcut⟩
  · exact ht.zeroHashIsRoot h
  · refine ht.zeroHashIsRoot fun i hi => ?_
    rw [pushBlock_rootOf] at hi
    rw [pushBlock_parentOf]
    split
    · rename_i heq
      rw [if_pos heq] at hi
      exact hop hi
    · rename_i hne
      rw [if_neg hne] at hi
      exact h i hi
  · intro i hi
    rw [hcut.rootOf] at hi
    rw [hcut.parentOf, cutParent, h (i + f) hi]
    rfl

theorem LinksFollow.op (hwf : s.WellFormed) (hz : s.ZeroHashIsRoot) (h : s.LinksFollow) (op : Op) :
    (op.run s).LinksFollow := by
  cases op with
  | onBlock block => exact onBlock_follow hwf h block
  | applyScoreChanges deltas je fe => exact applyScoreChanges_follow hwf hz h deltas je fe
  | maybePrune root =>
    simp only [Op.run]
    rcases maybePrune_cuts hwf root with heq | ⟨f, -, hcut⟩
    · rw [heq]
      exact h
    · exact hcut.follow hwf h

theorem LinksFollow.runOps : ∀ (ops : List Op) {s : ProtoArray}, s.WellFormed → s.ZeroHashIsRoot → s.LinksFollow →
    Along (fun s op => op.ZeroHashIsRoot s) s ops → (runOps s ops).LinksFollow
  | [], _, _, _, h, _ => h
  | op :: ops, _, hwf, hz, h, halong =>
    LinksFollow.runOps ops (hwf.op op) (hz.op hwf op halong.1) (h.op hwf hz op) halong.2

/-! ## Errors -/

def isIndexError : ProtoArrayError → Bool
  | .INVALID_NODE_INDEX _ => true
  | .INVALID_NODE_DELTA _ => true
  | .INVALID_PARENT_DELTA _ => true
  | .INVALID_BEST_CHILD_INDEX _ => true
  | .INVALID_BEST_DESCENDANT_INDEX _ => true
  | .INVALID_JUSTIFIED_INDEX _ => true
  | .INDEX_OVERFLOW _ => true
  | .FINALIZED_NODE_UNKNOWN _ => false
  | .JUSTIFIED_NODE_UNKNOWN _ => false
  | .INVALID_DELTA_LEN _ _ => false
  | .INVALID_BEST_NODE _ _ _ _ _ _ => false

def Op.thrown (s : ProtoArray) : Op → Except ProtoArrayError Unit
  | .onBlock block => (s.onBlock block).1
  | .applyScoreChanges deltas justifiedEpoch finalizedEpoch => (s.applyScoreChanges deltas justifiedEpoch finalizedEpoch).1
  | .maybePrune finalizedRoot => (s.maybePrune finalizedRoot).1.map fun _ => ()

variable {e : ProtoArrayError}

theorem Op.thrown_noIndexError (h : s.WellFormed) (op : Op) (he : op.thrown s = .error e) : isIndexError e = false := by
  cases op with
  | onBlock block =>
    obtain ⟨s', hrun, -⟩ := onBlock_run h block
    rw [Op.thrown, hrun] at he
    cases he
  | applyScoreChanges deltas je fe =>
    simp only [Op.thrown] at he
    rcases applyScoreChanges_run h deltas je fe with ⟨hlen, -⟩ | ⟨-, s', hrun, -⟩
    · unfold ProtoArray.applyScoreChanges at he
      rw [if_pos (by rw [h.size]; exact hlen)] at he
      cases he
      rfl
    · rw [hrun] at he
      cases he
  | maybePrune root =>
    simp only [Op.thrown] at he
    rcases maybePrune_run h root with ⟨-, hrun⟩ | ⟨f, -, -, hrun⟩ | ⟨f, s', -, hrun, -⟩
    · rw [hrun] at he
      cases he
      rfl
    · rw [hrun] at he
      cases he
    · rw [hrun] at he
      cases he

theorem findHead_noIndexError (h : s.WellFormed) (root : HexRoot) (he : s.findHead root = .error e) : isIndexError e = false := by
  cases hi : s.indices.get? root with
  | none =>
    unfold findHead at he
    rw [hi] at he
    cases he
    rfl
  | some i =>
    obtain ⟨node, hnode, -⟩ := h.get?_iff.1 hi
    rw [findHead_eq h hi] at he
    unfold headResult at he
    rw [hnode] at he
    dsimp only at he
    split at he
    · cases he
    · cases he
      rfl

theorem iterateParents_ok (h : s.WellFormed) : ∀ (fuel i : Nat) (node : ProtoNode), s.nodes[i]? = some node →
    ∃ nodes, s.iterateParents fuel node = .ok nodes
  | 0, _, node, _ => ⟨[node], rfl⟩
  | fuel + 1, i, node, hnode => by
    unfold iterateParents
    cases hp : node.parent with
    | none => exact ⟨[node], rfl⟩
    | some p =>
      have hpar : s.parentOf i = some p := (parentOf_node hnode).trans hp
      have hget := List.getElem?_eq_getElem (h.parent_lt hpar)
      obtain ⟨nodes, hrest⟩ := iterateParents_ok h fuel p _ hget
      dsimp only
      rw [hget]
      dsimp only
      rw [hrest]
      exact ⟨node :: nodes, rfl⟩

theorem iterateNodes_ok (h : s.WellFormed) (root : HexRoot) : ∃ nodes, s.iterateNodes root = .ok nodes := by
  unfold iterateNodes
  cases hi : s.indices.get? root with
  | none => exact ⟨[], rfl⟩
  | some i =>
    obtain ⟨node, hnode, -⟩ := h.get?_iff.1 hi
    dsimp only
    rw [hnode]
    exact iterateParents_ok h _ i node hnode

/-- **The links over every run**: the index map and the places of the array are in bijection, parents come before children,
a best child is a child, no call and no query throws an error about an index, and, as long as a block with the zero hash for its
root comes without a known parent, a best descendant is the end of the chain of best children. -/
theorem runOps_links (pruneThreshold je₀ fe₀ : Nat) (ops : List Op) :
    let s := runOps (new pruneThreshold je₀ fe₀) ops
    (∀ root i, s.indices.get? root = some i ↔ ∃ node, s.nodes[i]? = some node ∧ node.blockRoot = root) ∧
    (∀ i p, s.parentOf i = some p → p < i) ∧
    (∀ i c, s.bestChildOf i = some c → s.parentOf c = some i) ∧
    (∀ (op : Op) e, op.thrown s = .error e → isIndexError e = false) ∧
    (∀ root e, s.findHead root = .error e → isIndexError e = false) ∧
    (∀ root, ∃ nodes, s.iterateNodes root = .ok nodes) ∧
    (Along (fun s op => op.ZeroHashIsRoot s) (new pruneThreshold je₀ fe₀) ops →
      ∀ i d, s.bestDescendantOf i = some d ↔ s.bestChildOf i ≠ none ∧ ChainEnd s i d) := by
  have hnew := WellFormed.new pruneThreshold je₀ fe₀
  have hwf := hnew.runOps ops
  refine ⟨fun root i => hwf.get?_iff, fun i p => hwf.parentsFirst i p, fun i c => hwf.bestChild i c,
    fun op _ he => op.thrown_noIndexError hwf he, fun root _ he => findHead_noIndexError hwf root he, iterateNodes_ok hwf, ?_⟩
  intro halong i d
  have hzero : (new pruneThreshold je₀ fe₀).ZeroHashIsRoot := fun _ _ => rfl
  have hlinks : (new pruneThreshold je₀ fe₀).LinksFollow := fun _ _ hc => by cases hc
  exact bestDescendantOf_iff hwf (hlinks.runOps ops hnew hzero halong) i d

def zeroHashInside : ProtoArray :=
  runOps (new 0 0 0) [.onBlock (genesisBlock 0 "a" "z"), .onBlock (genesisBlock 1 HEX_ZERO_HASH "a"),
    .onBlock (genesisBlock 2 "c" HEX_ZERO_HASH), .onBlock (genesisBlock 3 "d" HEX_ZERO_HASH),
    .applyScoreChanges [0, 0, 5, 0] 0 0]

/-- The votes for "c" make it the best child of the block with the zero hash; the best descendant of "a" stays "d". -/
theorem applyScoreChanges_skips_zeroHash : zeroHashInside.bestChildOf 0 = some 1 ∧ zeroHashInside.bestChildOf 1 = some 2 ∧
    zeroHashInside.bestChildOf 2 = none ∧ zeroHashInside.bestDescendantOf 0 = some 3 ∧ ¬ ChainEnd zeroHashInside 0 3 := by
  have h0 : zeroHashInside.bestChildOf 0 = some 1 := by decide +kernel
  have h1 : zeroHashInside.bestChildOf 1 = some 2 := by decide +kernel
  have h2 : zeroHashInside.bestChildOf 2 = none := by decide +kernel
  have h3 : zeroHashInside.bestDescendantOf 0 = some 3 := by decide +kernel
  refine ⟨h0, h1, h2, h3, fun hend => ?_⟩
  have hreal : ChainEnd zeroHashInside 0 2 := .next h0 (.next h1 (.last h2))
  cases hend.unique hreal

end ProtoArray

end Lodestar
