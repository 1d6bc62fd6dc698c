import Mathlib.Algebra.BigOperators.Group.Finset.Sigma
import Lodestar.ForkChoice.ForkChoiceRuns
/-!
# Weights — the weights of the block tree against the votes

A weight is never computed anew: `updateHead` adds what the votes changed.  It counts the votes that go and the votes that
come with the same balances, so what the weights hold of a block (`Scored`) follows the votes but not the balances.  The
weights are the supports by the current balances as long as every change of balances keeps the support of every block
(`updateHead_weights`), and no longer (`weights_right_iff`).
-/
namespace Lodestar

open Lib Forest

namespace ForkChoice

/-! ## What the weights should be -/

section

variable (fc : ForkChoice)

def votesBelow (i v : Nat) : Bool :=
  decide (currentRootOf fc.votes v ≠ HEX_ZERO_HASH) &&
    (fc.protoArray.indices.get? (currentRootOf fc.votes v)).any (inSubtree fc.protoArray.parentOf i)

def weightByVotes (i : Nat) : Int :=
  ∑ v ∈ Finset.range fc.justifiedBalances.length,
    if fc.votesBelow i v then (fc.justifiedBalances.getD v 0 : Int) else 0

def WeightsRight : Prop :=
  ∀ i, i < fc.protoArray.nodes.length → fc.protoArray.weightOf i = fc.weightByVotes i

def supportOf (root : HexRoot) : Int := support fc.justifiedBalances (currentRootOf fc.votes) root

end

variable {fc : ForkChoice}

theorem weightByVotes_eq (hwf : fc.protoArray.WellFormed) (hz : fc.protoArray.NoZeroHash) (i : Nat) :
    fc.weightByVotes i = subtreeSum fc.protoArray.parentOf fc.protoArray.nodes.length
      (fun j => fc.supportOf (fc.protoArray.rootOf j)) i := by
  have hvote : ∀ v, (if fc.votesBelow i v then (fc.justifiedBalances.getD v 0 : Int) else 0) =
      ∑ j ∈ Finset.range fc.protoArray.nodes.length, if inSubtree fc.protoArray.parentOf i j then
        (if currentRootOf fc.votes v = fc.protoArray.rootOf j then (fc.justifiedBalances.getD v 0 : Int) else 0) else 0 := by
    intro v
    unfold votesBelow
    cases hget : fc.protoArray.indices.get? (currentRootOf fc.votes v) with
    | none =>
      rw [Finset.sum_eq_zero]
      · simp
      · intro j hj
        rw [if_neg (c := currentRootOf fc.votes v = fc.protoArray.rootOf j), ite_self]
        intro heq
        rw [heq, hwf.get?_rootOf (Finset.mem_range.1 hj)] at hget
        cases hget
    | some k =>
      obtain ⟨node, hnode, hroot⟩ := hwf.get?_iff.1 hget
      have hk := (List.getElem?_eq_some_iff.1 hnode).1
      have hkroot : fc.protoArray.rootOf k = currentRootOf fc.votes v := by
        unfold ProtoArray.rootOf
        rw [hnode, ← hroot]
        rfl
      have hne : currentRootOf fc.votes v ≠ HEX_ZERO_HASH := hkroot ▸ hz k hk
      rw [Finset.sum_eq_single k]
      · simp [hne, hkroot]
      · intro j hj hjk
        rw [if_neg (c := currentRootOf fc.votes v = fc.protoArray.rootOf j), ite_self]
        intro heq
        exact hjk (hwf.rootOf_inj (Finset.mem_range.1 hj) hk (heq.symm.trans hkroot.symm))
      · intro hno
        exact absurd (Finset.mem_range.2 hk) hno
  unfold weightByVotes subtreeSum supportOf support
  rw [Finset.sum_congr rfl (fun v _ => hvote v), Finset.sum_comm]
  refine Finset.sum_congr rfl (fun j _ => ?_)
  split
  · rfl
  · rw [Finset.sum_const_zero]

/-! ## What the weights hold -/

/-- Every weight is the sum of `score` over the subtree. -/
structure Scored (score : HexRoot → Int) (fc : ForkChoice) : Prop where
  wellFormed : fc.protoArray.WellFormed
  noZeroHash : fc.protoArray.NoZeroHash
  weights : ∀ i, i < fc.protoArray.nodes.length → fc.protoArray.weightOf i =
    subtreeSum fc.protoArray.parentOf fc.protoArray.nodes.length (fun j => score (fc.protoArray.rootOf j)) i

namespace Scored

variable {score : HexRoot → Int} {fc fc' : ForkChoice} (h : Scored score fc)

include h

theorem congr {score' : HexRoot → Int}
    (heq : ∀ i, i < fc.protoArray.nodes.length → score' (fc.protoArray.rootOf i) = score (fc.protoArray.rootOf i)) :
    Scored score' fc := by
  refine ⟨h.wellFormed, h.noZeroHash, fun i hi => ?_⟩
  rw [h.weights i hi]
  exact subtreeSum_congr (fun j hj => (heq j hj).symm) i

theorem sameTree (ht : fc'.protoArray = fc.protoArray) : Scored score fc' :=
  ⟨by rw [ht]; exact h.wellFormed, by rw [ht]; exact h.noZeroHash, by rw [ht]; exact h.weights⟩

theorem onBlock {block : ProtoBlock} (hnew : fc.protoArray.indices.has block.blockRoot = false →
      block.blockRoot ≠ HEX_ZERO_HASH ∧ score block.blockRoot = 0) :
    Scored score { fc with protoArray := (fc.protoArray.onBlock block).2 } := by
  obtain ⟨s', hrun, hwf, -, -, ⟨-, rfl⟩ | ⟨hno, ht, hw⟩⟩ := ProtoArray.onBlock_run h.wellFormed block
  · rw [hrun]
    exact h.sameTree rfl
  · rw [hrun]
    obtain ⟨hne, hzero⟩ := hnew hno
    have hlen : s'.nodes.length = fc.protoArray.nodes.length + 1 := by
      rw [ht.length]
      exact List.length_append
    have hroot : s'.rootOf = fun i => if i = fc.protoArray.nodes.length then block.blockRoot else fc.protoArray.rootOf i := by
      rw [ht.rootOf]
      funext i
      exact ProtoArray.pushBlock_rootOf fc.protoArray block i
    have hpar : ∀ i, i < fc.protoArray.nodes.length → s'.parentOf i = fc.protoArray.parentOf i := by
      intro i hi
      rw [ht.parentOf, ProtoArray.pushBlock_parentOf, if_neg (by omega)]
    refine ⟨hwf, fun i hi => ?_, fun i hi => ?_⟩
    · dsimp only at hi ⊢
      rw [hroot]
      dsimp only
      split
      · exact hne
      · exact h.noZeroHash i (by omega)
    · dsimp only at hi ⊢
      rw [hw, ProtoArray.pushBlock_weightOf, hlen, subtreeSum_succ h.wellFormed.parentsFirst hwf.parentsFirst hpar
        (by rw [hroot]; simp [hzero])]
      rcases Nat.lt_or_ge i fc.protoArray.nodes.length with hlt | hge
      · rw [h.weights i hlt]
        refine subtreeSum_congr (fun j hj => ?_) i
        rw [hroot]
        dsimp only
        rw [if_neg (by omega)]
      · rw [subtreeSum_outside h.wellFormed.parentsFirst hge]
        unfold ProtoArray.weightOf
        rw [List.getElem?_eq_none hge]
        rfl

theorem prune (root : HexRoot) : Scored score (fc.prune root).2 := by
  rw [prune_eq]
  rcases ProtoArray.maybePrune_cuts h.wellFormed root with heq | ⟨f, hget, hcut⟩
  · rw [heq]
    exact h
  · obtain ⟨node, hnode, -⟩ := h.wellFormed.get?_iff.1 hget
    have hlen : (fc.protoArray.maybePrune root).2.nodes.length = fc.protoArray.nodes.length - f := by
      rw [hcut.nodes, List.length_map, List.length_drop]
    refine ⟨hcut.wellFormed h.wellFormed, fun i hi => ?_, fun i hi => ?_⟩
    · dsimp only at hi ⊢
      rw [hcut.rootOf]
      exact h.noZeroHash (i + f) (by omega)
    · dsimp only at hi ⊢
      rw [hcut.weightOf, h.weights (i + f) (by omega), hcut.parentOf, hlen,
        ← subtreeSum_cut h.wellFormed.parentsFirst (by omega)]
      simp only [hcut.rootOf]

/-- **Bringing the weights up to date** adds what the new votes give and takes what the old ones gave, both by the current
balances. -/
theorem sync (hs : fc.synced = false) : ∃ fc', fc.sync = (.ok (), fc') ∧ fc'.justifiedBalances = fc.justifiedBalances ∧
    Scored (fun root => score root + (fc'.supportOf root - fc.supportOf root)) fc' ∧
    (∀ root, fc'.protoArray.indices.has root = fc.protoArray.indices.has root) := by
  obtain ⟨votes, s', hrun, hwf, ht, -, -, hw⟩ := ForkChoice.sync_run h.wellFormed hs
  refine ⟨_, hrun, rfl, ⟨hwf, fun i hi => ?_, fun i hi => ?_⟩, fun root => by rw [ht.indices]⟩
  · dsimp only at hi ⊢
    rw [ht.rootOf]
    rw [ht.length] at hi
    exact h.noZeroHash i hi
  · dsimp only at hi ⊢
    rw [ht.length] at hi ⊢
    rw [hw h.noZeroHash i hi, h.weights i hi, ht.parentOf, ht.rootOf, subtreeSum_add]
    rfl

theorem score_eq (hright : fc.WeightsRight) :
    ∀ i, i < fc.protoArray.nodes.length → score (fc.protoArray.rootOf i) = fc.supportOf (fc.protoArray.rootOf i) := by
  have hzero : ∀ i, i < fc.protoArray.nodes.length → subtreeSum fc.protoArray.parentOf fc.protoArray.nodes.length
      (fun j => score (fc.protoArray.rootOf j) - fc.supportOf (fc.protoArray.rootOf j)) i = 0 := by
    intro i hi
    have hw := hright i hi
    rw [weightByVotes_eq h.wellFormed h.noZeroHash, h.weights i hi] at hw
    have hadd := subtreeSum_add fc.protoArray.parentOf fc.protoArray.nodes.length
      (fun j => fc.supportOf (fc.protoArray.rootOf j))
      (fun j => score (fc.protoArray.rootOf j) - fc.supportOf (fc.protoArray.rootOf j)) i
    rw [← hw] at hadd
    refine add_eq_left.1 (hadd.trans (subtreeSum_congr (fun j _ => ?_) i))
    ring
  intro i hi
  have hdiff := eq_zero_of_subtreeSum h.wellFormed.parentsFirst hzero fc.protoArray.nodes.length i (by omega) hi
  exact Int.eq_of_sub_eq_zero hdiff

/-- **A call other than `updateHead`** leaves the scores, if the block it adds has none, and the applied votes; when it takes
new balances it loses no block and asks for an update. -/
theorem op {P : Preset} {op : Op} (hop : op ≠ .updateHead)
    (hnew : ∀ root, fc.protoArray.indices.has root = false → (op.run P fc).protoArray.indices.has root = true →
      root ≠ HEX_ZERO_HASH ∧ score root = 0) :
    Scored score (op.run P fc) ∧ currentRootOf (op.run P fc).votes = currentRootOf fc.votes ∧
    ((op.run P fc).justifiedBalances = fc.justifiedBalances ∨ ((op.run P fc).synced = false ∧
      ∀ root, fc.protoArray.indices.has root = true → (op.run P fc).protoArray.indices.has root = true)) := by
  cases op with
  | onBlock block state balances =>
    obtain ⟨fc₁, hst, heq⟩ := onBlock_parts (P := P) fc block state balances
    have h₁ := h.sameTree hst.protoArray
    have hasked : fc₁.justifiedBalances = fc.justifiedBalances ∨ fc₁.synced = false :=
      hst.justified.imp_left (fun hj => hj.2.1)
    simp only [Op.run] at hnew ⊢
    rcases heq with ⟨e, heq⟩ | heq
    · rw [heq, hst.votes, hst.protoArray]
      exact ⟨h₁, rfl, hasked.imp_right (fun hs => ⟨hs, fun _ => id⟩)⟩
    · have htree : (fc.onBlock P block state balances).2.protoArray =
          (fc.protoArray.onBlock (toProtoBlock P block state)).2 := by
        rw [heq, registerBlock_eq, ← hst.protoArray]
      have hhas := ProtoArray.onBlock_has h.wellFormed (toProtoBlock P block state)
      refine ⟨?_, ?_, hasked.imp (fun hb => ?_) (fun hs => ⟨?_, fun root hroot => ?_⟩)⟩
      · rw [heq, registerBlock_eq]
        refine h₁.onBlock (fun hno => hnew _ (by rw [← hst.protoArray]; exact hno) ?_)
        rw [htree, hhas]
        exact .inl rfl
      · rw [heq, registerBlock_eq, ← hst.votes]
      · rw [heq, registerBlock_eq]
        exact hb
      · rw [heq, registerBlock_eq]
        exact hs
      · rw [htree, hhas]
        exact .inr hroot
  | onAttestation attestation =>
    have hv := onAttestation_onlyVotes P fc attestation
    exact ⟨h.sameTree hv.protoArray, hv.currentRoots, .inl hv.justifiedBalances⟩
  | updateTime slot =>
    obtain ⟨fc₁, hst, hv⟩ := updateTime_parts (P := P) fc slot
    have htree := hv.protoArray.trans hst.protoArray
    refine ⟨h.sameTree htree, by rw [← hst.votes]; exact hv.currentRoots, ?_⟩
    rcases hst.justified with ⟨-, hb, -⟩ | hs
    · exact .inl (hv.justifiedBalances.trans hb)
    · refine .inr ⟨?_, fun root hroot => ?_⟩
      · cases hs' : (fc.updateTime P slot).2.synced with
        | false => exact hs'
        | true =>
          rw [hv.synced hs'] at hs
          cases hs
      · simp only [Op.run]
        rw [htree]
        exact hroot
  | prune root =>
    refine ⟨h.prune root, ?_, .inl ?_⟩
    · simp only [Op.run]
      rw [prune_eq]
    · simp only [Op.run]
      rw [prune_eq]
  | updateHead => exact absurd rfl hop

end Scored

/-! ## Runs -/

/-- The balances after the call give every block of the tree the support that those before it gave. -/
def Op.KeepsSupport (P : Preset) (fc : ForkChoice) (op : Op) : Prop :=
  ∀ i, i < fc.protoArray.nodes.length →
    support (op.run P fc).justifiedBalances (currentRootOf fc.votes) (fc.protoArray.rootOf i) =
      fc.supportOf (fc.protoArray.rootOf i)

/-- A block that joins the tree has a root that nothing was voted for yet, and not the zero hash. -/
def Op.AddsUnvoted (P : Preset) (fc : ForkChoice) (op : Op) : Prop :=
  ∀ root, fc.protoArray.indices.has root = false → (op.run P fc).protoArray.indices.has root = true →
    root ≠ HEX_ZERO_HASH ∧ support (op.run P fc).justifiedBalances (currentRootOf fc.votes) root = 0

instance (P : Preset) (fc : ForkChoice) (op : Op) : Decidable (op.KeepsSupport P fc) :=
  inferInstanceAs (Decidable (∀ i, i < fc.protoArray.nodes.length → _ = _))

instance (P : Preset) (fc : ForkChoice) (op : Op) : Decidable (op.AddsUnvoted P fc) :=
  decidable_of_iff (∀ root ∈ (op.run P fc).protoArray.indices.entries.map Prod.fst, fc.protoArray.indices.has root = false →
      root ≠ HEX_ZERO_HASH ∧ support (op.run P fc).justifiedBalances (currentRootOf fc.votes) root = 0)
    ⟨fun h root hno hyes => h root (OrderedMap.has_iff.1 hyes) hno, fun h root hmem hno => h root hno (OrderedMap.has_iff.2 hmem)⟩

/-- The weights hold the supports by the current balances. -/
def Weighed (fc : ForkChoice) : Prop := Scored fc.supportOf fc

theorem Weighed.right (h : Weighed fc) : fc.WeightsRight := by
  intro i hi
  rw [weightByVotes_eq h.wellFormed h.noZeroHash]
  exact h.weights i hi

theorem Weighed.updateHead (h : Weighed fc) : Weighed fc.updateHead.2 := by
  obtain ⟨head, heq⟩ := updateHead_eq fc
  have hsync : Weighed fc.sync.2 := by
    cases hs : fc.synced with
    | true =>
      unfold ForkChoice.sync
      rw [hs]
      exact h
    | false =>
      obtain ⟨fc', hrun, -, hscored, -⟩ := h.sync hs
      rw [hrun]
      refine hscored.congr (fun i _ => ?_)
      ring
  rw [heq]
  exact hsync.sameTree rfl

theorem Weighed.op {P : Preset} {op : Op} (h : Weighed fc) (hkeeps : op.KeepsSupport P fc) (hadds : op.AddsUnvoted P fc) :
    Weighed (op.run P fc) := by
  by_cases hop : op = .updateHead
  · rw [hop]
    exact h.updateHead
  have hscored : Scored (support (op.run P fc).justifiedBalances (currentRootOf fc.votes)) fc := h.congr hkeeps
  obtain ⟨hafter, hroots, -⟩ := hscored.op hop hadds
  rw [← hroots] at hafter
  exact hafter

theorem Weighed.construct (fcStore : ForkChoiceStore) {anchor : ProtoBlock} (h : anchor.blockRoot ≠ HEX_ZERO_HASH)
    (queue : List QueuedAttestation) (balances : List Nat) :
    Weighed (construct fcStore (ProtoArray.initializeWith anchor) queue balances) := by
  have hnone : ∀ root, root ≠ HEX_ZERO_HASH → support balances (currentRootOf []) root = 0 := by
    intro root hroot
    refine Finset.sum_eq_zero (fun v _ => ?_)
    rw [if_neg]
    exact Ne.symm hroot
  have hempty : Scored (support balances (currentRootOf [])) (ForkChoice.construct fcStore
      (ProtoArray.new DEFAULT_PRUNE_THRESHOLD anchor.justifiedEpoch anchor.finalizedEpoch) queue balances) :=
    ⟨ProtoArray.WellFormed.new _ _ _, fun i hi => absurd hi (Nat.not_lt_zero i), fun i hi => absurd hi (Nat.not_lt_zero i)⟩
  exact hempty.onBlock (fun _ => ⟨h, hnone anchor.blockRoot h⟩)

/-- **The weights stay right exactly as long as the supports are kept**: after a call on right weights, the next `updateHead`
leaves right ones exactly when the call keeps the supports. -/
theorem weights_right_iff {P : Preset} {op : Op} (h : Weighed fc) (hadds : op.AddsUnvoted P fc) :
    (op.run P fc).updateHead.2.WeightsRight ↔ op.KeepsSupport P fc := by
  constructor
  · intro hright
    by_cases hop : op = .updateHead
    · subst hop
      intro i _
      simp only [Op.run]
      rw [(updateHead_frame fc).2]
      rfl
    -- the weights of the tree before the call, with 0 for what is not in it
    have hknown : ∀ i, i < fc.protoArray.nodes.length → fc.protoArray.indices.has (fc.protoArray.rootOf i) = true := by
      intro i hi
      unfold OrderedMap.has
      rw [h.wellFormed.get?_rootOf hi]
      rfl
    have hscored : Scored (fun root => if fc.protoArray.indices.has root then fc.supportOf root else 0) fc :=
      h.congr (fun i hi => if_pos (hknown i hi))
    obtain ⟨h₁, hroots, hb | ⟨hs, hmono⟩⟩ := hscored.op (P := P) hop (fun root hno hyes => ⟨(hadds root hno hyes).1, by
      rw [hno]
      rfl⟩)
    · intro i _
      rw [hb]
      rfl
    obtain ⟨fc₂, hrun, -, h₂, hhas⟩ := h₁.sync hs
    obtain ⟨head, heq⟩ := updateHead_eq (op.run P fc)
    rw [heq, hrun] at hright
    have hall := h₂.score_eq hright
    intro i hi
    obtain ⟨node, hnode, hroot⟩ := h₂.wellFormed.has_iff.1 ((hhas _).trans (hmono _ (hknown i hi)))
    obtain ⟨j, hj⟩ := List.getElem?_of_mem hnode
    have hrootj : fc₂.protoArray.rootOf j = fc.protoArray.rootOf i := by
      unfold ProtoArray.rootOf at hroot ⊢
      rw [hj]
      exact hroot
    have hscore := hall j (List.getElem?_eq_some_iff.1 hj).1
    rw [hrootj, if_pos (hknown i hi)] at hscore
    have hsame : fc.supportOf (fc.protoArray.rootOf i) = (op.run P fc).supportOf (fc.protoArray.rootOf i) := by omega
    rw [hsame, ← hroots]
    rfl
  · intro hkeeps
    exact (h.op hkeeps hadds).updateHead.right

/-- **The weights are what the votes say** after every `updateHead` of a run whose calls keep the supports; the first call
that does not keep them makes the next `updateHead` leave wrong weights. -/
theorem updateHead_weights (P : Preset) (fcStore : ForkChoiceStore) (anchor : ProtoBlock)
    (hanchor : anchor.blockRoot ≠ HEX_ZERO_HASH) (queue : List QueuedAttestation) (balances : List Nat) (ops : List Op)
    (hrun : Along P (fun fc op => op.KeepsSupport P fc ∧ op.AddsUnvoted P fc)
      (construct fcStore (ProtoArray.initializeWith anchor) queue balances) ops) :
    let fc := runOps P (construct fcStore (ProtoArray.initializeWith anchor) queue balances) ops
    fc.updateHead.2.WeightsRight ∧
      ∀ op : Op, op.AddsUnvoted P fc → ((op.run P fc).updateHead.2.WeightsRight ↔ op.KeepsSupport P fc) := by
  intro fc
  have h : Weighed fc := hrun.keeps (fun h hop => h.op hop.1 hop.2) (Weighed.construct fcStore hanchor queue balances)
  exact ⟨h.updateHead.right, fun op hadds => weights_right_iff h hadds⟩

def voteForB : List Op :=
  [.updateTime 9, .onBlock ⟨8, "a", "b", "b"⟩ (stateAt 8 ⟨0, "a"⟩ ⟨0, "a"⟩) none,
   .onAttestation ⟨[0], 8, "b", ⟨1, "b"⟩⟩]

theorem updateHead_weights_voteForB : (runOps minimal atGenesis voteForB).updateHead.2.WeightsRight :=
  (updateHead_weights minimal _ _ (by decide) _ _ voteForB
    ⟨⟨by decide, by decide⟩, ⟨by decide, by decide⟩, ⟨by decide, by decide⟩, trivial⟩).1

/-- Justifying "b" doubles the balance of the validator that voted for it; the weights keep the old one. -/
theorem updateHead_keeps_old_balance :
    let fc := runOps minimal atGenesis (voteForB ++ [.updateHead, .updateTime 16,
      .onBlock ⟨16, "b", "c", "c"⟩ (stateAt 16 ⟨1, "b"⟩ ⟨0, "a"⟩) (some [2])])
    fc.justifiedBalances = [2] ∧ fc.updateHead.2.protoArray.weightOf 1 = 1 ∧ fc.updateHead.2.weightByVotes 1 = 2 ∧
      ¬ fc.updateHead.2.WeightsRight := by
  intro fc
  have hw : fc.updateHead.2.protoArray.weightOf 1 = 1 := by decide
  have hv : fc.updateHead.2.weightByVotes 1 = 2 := by decide
  refine ⟨by decide, hw, hv, fun h => ?_⟩
  have := h 1 (by decide)
  rw [hw, hv] at this
  cases this

end ForkChoice

end Lodestar
