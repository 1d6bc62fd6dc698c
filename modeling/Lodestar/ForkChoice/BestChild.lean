import Mathlib.Data.Prod.Lex
import Mathlib.Data.Finset.Max
import Lodestar.ForkChoice.ProtoArrayRuns
/-!
# BestChild — what the backward pass leaves in the links

`Best` is the LMD-GHOST choice among the children of a node, and `Ghost` follows it down to a head.  The pass compares a
child with the best child of its parent as that one stands in the array, and a best child of smaller index has not been
visited by then: its weight is that of before the call, and its links may be.

`StaleIsHarmless` says when these comparisons do no harm.  Under it the pass leaves every node with its best child
(`PassLinks.final`), and `findHead` returns the LMD-GHOST head, from every reachable array (`applyScoreChanges_best`).
-/
namespace Lodestar

open Lib Forest

namespace ProtoArray

/-! ## LMD-GHOST on the array -/

def LeadsToViable (s : ProtoArray) (i : Nat) : Prop := ∃ j, inSubtree s.parentOf i j = true ∧ s.viableAt j = true

/-- The order of the choice: by weight, ties by root. -/
def rank (weight : Int) (root : HexRoot) : Int ×ₗ HexRoot := toLex (weight, root)

/-- Of the children of `p` that lead to a viable head, `c` is the heaviest under the weights `w`, ties by root. -/
structure Best (s : ProtoArray) (w : Nat → Int) (p c : Nat) : Prop where
  child : s.parentOf c = some p
  leads : s.LeadsToViable c
  heaviest : ∀ c', s.parentOf c' = some p → s.LeadsToViable c' → rank (w c') (s.rootOf c') ≤ rank (w c) (s.rootOf c)

/-- Every best child is the LMD-GHOST choice, and there is none where no child leads to a viable head. -/
def BestChildren (s : ProtoArray) : Prop :=
  ∀ p, p < s.nodes.length → (∀ c, s.bestChildOf p = some c ↔ Best s s.weightOf p c) ∧
    (s.bestChildOf p = none ↔ ∀ c, s.parentOf c = some p → ¬ s.LeadsToViable c)

inductive Ghost (s : ProtoArray) : Nat → Nat → Prop
  | stop {i : Nat} : (∀ c, s.parentOf c = some i → ¬ s.LeadsToViable c) → Ghost s i i
  | down {i c head : Nat} : Best s s.weightOf i c → Ghost s c head → Ghost s i head

/-! ## When a stale comparison does no harm -/

def newWeight (s : ProtoArray) (deltas : List Int) (i : Nat) : Int :=
  s.weightOf i + subtreeSum s.parentOf s.nodes.length (fun j => deltas.getD j 0) i

/-- In an array `s` that already has its new epochs, with the new weights `w` still to come: the old best child of a node,
which the children after it are compared with before its own turn, neither keeps out the new best child nor lets in a
child where there is none. -/
structure StaleIsHarmless (s : ProtoArray) (w : Nat → Int) : Prop where
  zeroHash : s.ZeroHashIsRoot
  keepsNone : ∀ p b c, s.bestChildOf p = some b → b < c → Best s w p c → s.LeadsToViable b →
    rank (s.weightOf b) (s.rootOf b) ≤ rank (w c) (s.rootOf c)
  letsNone : ∀ p b c, s.bestChildOf p = some b → b < c → s.parentOf c = some p →
    (∀ c', s.parentOf c' = some p → ¬ s.LeadsToViable c') → rank (w c) (s.rootOf c) < rank (s.weightOf b) (s.rootOf b)

variable {s : ProtoArray} {w : Nat → Int} {p c c' k i je fe a b : Nat}

theorem Best.unique (h : s.WellFormed) (hc : Best s w p c) (hc' : Best s w p c') : c = c' := by
  have heq := le_antisymm (hc'.heaviest c hc.child hc.leads) (hc.heaviest c' hc'.child hc'.leads)
  exact h.rootOf_inj (lt_of_parentOf hc.child) (lt_of_parentOf hc'.child) (congrArg (fun x => (ofLex x).2) heq)

open Classical in
theorem exists_best (w : Nat → Int) {p : Nat} (h : ∃ c, s.parentOf c = some p ∧ s.LeadsToViable c) :
    ∃ c, Best s w p c := by
  obtain ⟨c, hpar, hlead⟩ := h
  have hmem : ∀ c, c ∈ (Finset.range s.nodes.length).filter (fun c => s.parentOf c = some p ∧ s.LeadsToViable c) ↔
      s.parentOf c = some p ∧ s.LeadsToViable c := by
    intro c
    rw [Finset.mem_filter, Finset.mem_range]
    exact and_iff_right_of_imp (fun hc => lt_of_parentOf hc.1)
  obtain ⟨b, hb, hmax⟩ := Finset.exists_max_image _ (fun c => rank (w c) (s.rootOf c)) ⟨c, (hmem c).2 ⟨hpar, hlead⟩⟩
  exact ⟨b, ((hmem b).1 hb).1, ((hmem b).1 hb).2, fun c' hpar' hlead' => hmax c' ((hmem c').2 ⟨hpar', hlead'⟩)⟩

variable {i : Nat}

theorem leadsToViable_iff (h : s.WellFormed) :
    s.LeadsToViable i ↔ s.viableAt i = true ∨ ∃ c, s.parentOf c = some i ∧ s.LeadsToViable c := by
  constructor
  · rintro ⟨j, hj, hv⟩
    rcases inSubtree_child h.parentsFirst j hj with rfl | ⟨c, hc, hcj⟩
    · exact .inl hv
    · exact .inr ⟨c, hc, j, hcj, hv⟩
  · rintro (hv | ⟨c, hc, j, hj, hv⟩)
    · exact ⟨i, inSubtree_refl h.parentsFirst i, hv⟩
    · exact ⟨j, inSubtree_trans h.parentsFirst (inSubtree_parent h.parentsFirst hc) j hj, hv⟩

theorem leadsToViable_of_leadsAt (h : s.WellFormed) (hl : s.leadsAt i = true) :
    s.LeadsToViable i := by
  unfold leadsAt at hl
  rw [Bool.or_eq_true] at hl
  rcases hl with hl | hl
  · cases hd : s.bestDescendantOf i with
    | none => rw [hd] at hl; cases hl
    | some d =>
      rw [hd, Option.any_some] at hl
      exact ⟨d, h.descendant_mem hd, hl⟩
  · exact ⟨i, inSubtree_refl h.parentsFirst i, hl⟩

theorem prefers_iff (s : ProtoArray) (c b : Nat) : s.prefers c b = true ↔
    (s.leadsAt c = true ∧ s.leadsAt b = false) ∨
    (s.leadsAt c = s.leadsAt b ∧ rank (s.weightOf b) (s.rootOf b) ≤ rank (s.weightOf c) (s.rootOf c)) := by
  have hrank : rank (s.weightOf b) (s.rootOf b) ≤ rank (s.weightOf c) (s.rootOf c) ↔
      (if s.weightOf c = s.weightOf b then decide (s.rootOf b ≤ s.rootOf c)
        else decide (s.weightOf b ≤ s.weightOf c)) = true := by
    unfold rank
    rw [Prod.Lex.toLex_le_toLex]
    split
    · rename_i heq
      simp [heq]
    · rename_i hne
      have : ¬ s.weightOf b = s.weightOf c := fun h => hne h.symm
      simp only [this, false_and, or_false, decide_eq_true_eq]
      omega
  unfold prefers
  rw [hrank]
  cases s.leadsAt c <;> cases s.leadsAt b <;> simp

/-! ## The links along the pass -/

/-- The links when the nodes from `k` on have been visited: a best child that has been visited is in place; before that the
old link may stand, or a visited child that will give way. -/
structure PassLinks (s₀ : ProtoArray) (w : Nat → Int) (k : Nat) (s : ProtoArray) : Prop where
  settled : ∀ p c, Best s₀ w p c → k ≤ c → s.bestChildOf p = some c ∧ s.bestDescendantOf p = some (s.tipOf c)
  open_ : ∀ p, (∀ c, Best s₀ w p c → c < k) →
    (s.bestChildOf p = none) ∨
    (∃ b, b < k ∧ s.bestChildOf p = some b ∧ s₀.bestChildOf p = some b) ∨
    ((∃ c, Best s₀ w p c) ∧ ∃ c, k ≤ c ∧ s.bestChildOf p = some c)

variable {s s' : ProtoArray}

theorem SameTree.leadsToViable (ht : SameTree s s') (hj : s'.justifiedEpoch = s.justifiedEpoch)
    (hf : s'.finalizedEpoch = s.finalizedEpoch) (i : Nat) : s'.LeadsToViable i ↔ s.LeadsToViable i := by
  unfold LeadsToViable
  rw [ht.parentOf, ht.viableAt hj hf]

section Pass

variable {s₀ : ProtoArray} {w : Nat → Int} {k : Nat} {deltas : List Int} {s : ProtoArray}

theorem PassLinks.noChild (hl : PassLinks s₀ w k s) (hk : PassKeeps s₀ deltas s) {j : Nat} (hj : k ≤ j + 1)
    (hnone : ¬ ∃ c, Best s₀ w j c) : s.bestChildOf j = none := by
  rcases hl.open_ j (fun c hc => absurd ⟨c, hc⟩ hnone) with h | ⟨b, hb, h, -⟩ | ⟨h, -⟩
  · exact h
  · have := hk.wellFormed.parentsFirst _ _ (hk.wellFormed.bestChild _ _ h)
    omega
  · exact absurd h hnone

theorem PassLinks.tip_viable (hl : PassLinks s₀ w k s) (hk : PassKeeps s₀ deltas s) (j : Nat) (hj : k ≤ j + 1)
    (hlead : s.LeadsToViable j) : s.viableAt (s.tipOf j) = true := by
  have hcongr := hk.sameTree.leadsToViable hk.justifiedEpoch hk.finalizedEpoch
  by_cases hex : ∃ c, s₀.parentOf c = some j ∧ s₀.LeadsToViable c
  · obtain ⟨t, ht⟩ := exists_best w hex
    have htpar : s.parentOf t = some j := by rw [hk.sameTree.parentOf]; exact ht.child
    have hjt := hk.wellFormed.parentsFirst t j htpar
    have htlt := lt_of_parentOf htpar
    have htip : s.tipOf j = s.tipOf t := by
      unfold tipOf
      rw [(hl.settled j t ht (by omega)).2]
      rfl
    rw [htip]
    exact PassLinks.tip_viable hl hk t (by omega) ((hcongr t).2 ht.leads)
  · have hbest : ¬ ∃ c, Best s₀ w j c := fun ⟨c, hc⟩ => hex ⟨c, hc.child, hc.leads⟩
    have hd := (hk.wellFormed.linked j).1 (hl.noChild hk hj hbest)
    have htip : s.tipOf j = j := by
      unfold tipOf
      rw [hd]
      rfl
    rw [htip]
    rcases (leadsToViable_iff hk.wellFormed).1 hlead with hv | ⟨c, hc, hcl⟩
    · exact hv
    · rw [hk.sameTree.parentOf] at hc
      exact absurd ⟨c, hc, (hcongr c).1 hcl⟩ hex
termination_by s.nodes.length - j

theorem PassLinks.leadsAt_iff (hl : PassLinks s₀ w k s) (hk : PassKeeps s₀ deltas s) {j : Nat} (hj : k ≤ j + 1) :
    s.leadsAt j = true ↔ s.LeadsToViable j := by
  refine ⟨leadsToViable_of_leadsAt hk.wellFormed, fun hlead => ?_⟩
  have hv := hl.tip_viable hk j hj hlead
  unfold leadsAt
  unfold tipOf at hv
  cases hd : s.bestDescendantOf j with
  | none =>
    rw [hd] at hv
    rw [Bool.or_eq_true]
    exact .inr hv
  | some d =>
    rw [hd] at hv
    rw [Bool.or_eq_true]
    exact .inl hv

end Pass

section Choice

variable {s₀ : ProtoArray} {w : Nat → Int} {deltas : List Int} {s : ProtoArray} {i p : Nat}
  (h₀ : s₀.WellFormed) (hk : PassKeeps s₀ deltas s) (hl : PassLinks s₀ w (i + 1) s) (hcond : StaleIsHarmless s₀ w)
  (hafter : ∀ j, i ≤ j → (s₀.parentOf j).isSome → s.weightOf j = w j)
  (hbefore : ∀ j, j < i → s.weightOf j = s₀.weightOf j) (hp : s₀.parentOf i = some p)

include h₀ hk hl hafter hbefore hp hcond

theorem chosenLinks_of_best (hbest : Best s₀ w p i) : s.chosenLinks p i = (some i, some (s.tipOf i)) := by
  have hcongr := hk.sameTree.leadsToViable hk.justifiedEpoch hk.finalizedEpoch
  have hlead : s.leadsAt i = true := (hl.leadsAt_iff hk (by omega)).2 ((hcongr i).2 hbest.leads)
  have hopen := hl.open_ p (fun c hc => by rw [hc.unique h₀ hbest]; omega)
  have hwi : s.weightOf i = w i := hafter i (Nat.le_refl i) (by rw [hp]; rfl)
  unfold chosenLinks
  cases hb : s.bestChildOf p with
  | none =>
    dsimp only
    rw [if_pos hlead]
  | some b =>
    dsimp only
    by_cases hbi : b = i
    · rw [if_pos hbi, if_pos hlead]
    have hbpar : s₀.parentOf b = some p := by rw [← hk.sameTree.parentOf]; exact hk.wellFormed.bestChild p b hb
    have hpref : s.prefers i b = true := by
      rw [prefers_iff, hk.sameTree.rootOf, hwi]
      cases hlb : s.leadsAt b with
      | false => exact .inl ⟨hlead, rfl⟩
      | true =>
        have hleadb := (hcongr b).1 (leadsToViable_of_leadsAt hk.wellFormed hlb)
        refine .inr ⟨hlead, ?_⟩
        rcases hopen with h | ⟨b', hb', h, hold⟩ | ⟨-, c, hc, h⟩
        · rw [hb] at h; cases h
        · obtain rfl : b = b' := Option.some.inj (hb.symm.trans h)
          rw [hbefore b (by omega)]
          exact hcond.keepsNone p b i hold (by omega) hbest hleadb
        · obtain rfl : b = c := Option.some.inj (hb.symm.trans h)
          rw [hafter b (by omega) (by rw [hbpar]; rfl)]
          exact hbest.heaviest b hbpar hleadb
    rw [if_neg hbi, if_pos hpref]

omit hcond hbefore in
theorem chosenLinks_of_settled {c : Nat} (hbest : Best s₀ w p c) (hic : i < c) :
    s.chosenLinks p i = (s.bestChildOf p, s.bestDescendantOf p) := by
  have hcongr := hk.sameTree.leadsToViable hk.justifiedEpoch hk.finalizedEpoch
  have hleadc : s.leadsAt c = true := (hl.leadsAt_iff hk (by omega)).2 ((hcongr c).2 hbest.leads)
  have hpref : ¬ s.prefers i c = true := by
    rw [prefers_iff, hk.sameTree.rootOf, hafter i (Nat.le_refl i) (by rw [hp]; rfl),
      hafter c (by omega) (by rw [hbest.child]; rfl)]
    rintro (⟨-, h⟩ | ⟨hsame, hle⟩)
    · rw [hleadc] at h; cases h
    · have hleadi := (hcongr i).1 (leadsToViable_of_leadsAt hk.wellFormed (hsame.trans hleadc))
      have heq := le_antisymm hle (hbest.heaviest i hp hleadi)
      have := h₀.rootOf_inj (lt_of_parentOf hbest.child) (lt_of_parentOf hp) (congrArg (fun x => (ofLex x).2) heq)
      omega
  unfold chosenLinks
  rw [(hl.settled p c hbest (by omega)).1]
  dsimp only
  rw [if_neg (by omega), if_neg hpref]

omit h₀ in
theorem chosenLinks_of_open (hopen : ∀ c, Best s₀ w p c → c < i) :
    ((s.chosenLinks p i).1 = none) ∨
    (∃ b, b < i ∧ (s.chosenLinks p i).1 = some b ∧ s₀.bestChildOf p = some b) ∨
    ((∃ c, Best s₀ w p c) ∧ ∃ c, i ≤ c ∧ (s.chosenLinks p i).1 = some c) := by
  have hcongr := hk.sameTree.leadsToViable hk.justifiedEpoch hk.finalizedEpoch
  have hcur := hl.open_ p (fun c hc => Nat.lt_succ_of_lt (hopen c hc))
  by_cases hex : ∃ c, Best s₀ w p c
  · have hchild : ∀ links : Option Nat × Option Nat, links.1 = some i →
        links.1 = none ∨ (∃ b, b < i ∧ links.1 = some b ∧ s₀.bestChildOf p = some b) ∨
          ((∃ c, Best s₀ w p c) ∧ ∃ c, i ≤ c ∧ links.1 = some c) :=
      fun links h => .inr (.inr ⟨hex, i, Nat.le_refl i, h⟩)
    unfold chosenLinks
    cases hb : s.bestChildOf p with
    | none =>
      dsimp only
      split
      · exact hchild _ rfl
      · exact .inl rfl
    | some b =>
      dsimp only
      split
      · split
        · exact hchild _ rfl
        · exact .inl rfl
      · rename_i hbi
        split
        · exact hchild _ rfl
        · rw [hb] at hcur
          rcases hcur with h | ⟨b', hb', h, hold⟩ | ⟨-, c, hc, h⟩
          · cases h
          · cases h
            exact .inr (.inl ⟨b, by omega, rfl, hold⟩)
          · exact .inr (.inr ⟨hex, c, by omega, h⟩)
  · have hnolead : ∀ c', s₀.parentOf c' = some p → ¬ s₀.LeadsToViable c' :=
      fun c' hc' hlead => hex (exists_best w ⟨c', hc', hlead⟩)
    have hnot : ∀ c', s₀.parentOf c' = some p → s.leadsAt c' = false := by
      intro c' hc'
      cases hlc : s.leadsAt c' with
      | false => rfl
      | true => exact absurd ((hcongr c').1 (leadsToViable_of_leadsAt hk.wellFormed hlc)) (hnolead c' hc')
    unfold chosenLinks
    cases hb : s.bestChildOf p with
    | none =>
      rw [hnot i hp]
      exact .inl rfl
    | some b =>
      have hbpar : s₀.parentOf b = some p := by rw [← hk.sameTree.parentOf]; exact hk.wellFormed.bestChild p b hb
      dsimp only
      by_cases hbi : b = i
      · rw [if_pos hbi, hnot i hp]
        exact .inl rfl
      rw [hb] at hcur
      rcases hcur with h | ⟨b', hb', h, hold⟩ | ⟨h, -⟩
      · cases h
      · cases h
        have hpref : ¬ s.prefers i b = true := by
          rw [prefers_iff, hk.sameTree.rootOf, hafter i (Nat.le_refl i) (by rw [hp]; rfl), hbefore b (by omega),
            hnot i hp, hnot b hbpar]
          rintro (⟨h, -⟩ | ⟨-, h⟩)
          · cases h
          · exact absurd h (not_le_of_gt (hcond.letsNone p b i hold (by omega) hp hnolead))
        rw [if_neg hbi, if_neg hpref]
        exact .inr (.inl ⟨b, by omega, rfl, hold⟩)
      · exact absurd h hex

end Choice

/-! ## The whole pass -/

variable {s₀ : ProtoArray}

theorem PassLinks.of_links (hl : PassLinks s₀ w k s) (hc : s'.bestChildOf = s.bestChildOf)
    (hd : s'.bestDescendantOf = s.bestDescendantOf) : PassLinks s₀ w k s' := by
  have ht : s'.tipOf = s.tipOf := by unfold tipOf; rw [hd]
  constructor
  · rw [hc, hd, ht]
    exact hl.settled
  · rw [hc]
    exact hl.open_

theorem PassLinks.lower (h₀ : s₀.WellFormed) (hl : PassLinks s₀ w (i + 1) s) (hp : s₀.parentOf i ≠ some p) :
    (∀ c, Best s₀ w p c → i ≤ c → s.bestChildOf p = some c ∧ s.bestDescendantOf p = some (s.tipOf c)) ∧
    ((∀ c, Best s₀ w p c → c < i) → (s.bestChildOf p = none) ∨
      (∃ b, b < i ∧ s.bestChildOf p = some b ∧ s₀.bestChildOf p = some b) ∨
      ((∃ c, Best s₀ w p c) ∧ ∃ c, i ≤ c ∧ s.bestChildOf p = some c)) := by
  constructor
  · intro c hc hic
    refine hl.settled p c hc ?_
    rcases Nat.eq_or_lt_of_le hic with rfl | h
    · exact absurd hc.child hp
    · exact h
  · intro hopen
    rcases hl.open_ p (fun c hc => Nat.lt_succ_of_lt (hopen c hc)) with h | ⟨b, hb, h, hold⟩ | ⟨hex, c, hc, h⟩
    · exact .inl h
    · refine .inr (.inl ⟨b, ?_, h, hold⟩)
      rcases Nat.eq_or_lt_of_le (Nat.lt_succ_iff.1 hb) with rfl | hlt
      · exact absurd (h₀.bestChild p b hold) hp
      · exact hlt
    · exact .inr (.inr ⟨hex, c, by omega, h⟩)

variable {deltas : List Int}

theorem PassLinks.visit (h₀ : s₀.WellFormed) (hcond : StaleIsHarmless s₀ w) (hk : PassKeeps s₀ deltas s)
    (hl : PassLinks s₀ w (i + 1) s) (hafter : ∀ j, i ≤ j → (s₀.parentOf j).isSome → (visit i deltas s).2.weightOf j = w j)
    (hbefore : ∀ j, j < i → (visit i deltas s).2.weightOf j = s₀.weightOf j) :
    PassLinks s₀ w i (visit i deltas s).2 := by
  have hnoparent : s₀.parentOf i = none → PassLinks s₀ w i s := by
    intro hnone
    exact ⟨fun p => (hl.lower h₀ (by rw [hnone]; simp)).1, fun p => (hl.lower h₀ (by rw [hnone]; simp)).2⟩
  unfold ProtoArray.visit at hafter hbefore ⊢
  rw [hk.sameTree.rootOf, hk.sameTree.parentOf] at hafter hbefore ⊢
  split
  · rename_i hzero
    exact hnoparent (hcond.zeroHash i hzero)
  rename_i hzero
  rw [if_neg hzero] at hafter hbefore
  have hc₁ : (s.addWeight i (deltas.getD i 0)).bestChildOf = s.bestChildOf := funext bestChildOf_addWeight
  have hd₁ : (s.addWeight i (deltas.getD i 0)).bestDescendantOf = s.bestDescendantOf := funext bestDescendantOf_addWeight
  cases hp : s₀.parentOf i with
  | none => exact (hnoparent hp).of_links hc₁ hd₁
  | some p =>
    rw [hp] at hafter hbefore
    simp only [weightOf_setLinks] at hafter hbefore
    obtain ⟨s₁, hs₁⟩ : ∃ s₁, s₁ = s.addWeight i (deltas.getD i 0) := ⟨_, rfl⟩
    rw [← hs₁] at hafter hbefore hc₁ hd₁ ⊢
    have hk₁ : PassKeeps s₀ deltas s₁ := by
      rw [hs₁]
      exact ⟨hk.wellFormed.addWeight i _, hk.sameTree.trans (addWeight_sameTree s i _),
        by rw [addWeight_justifiedEpoch]; exact hk.justifiedEpoch,
        by rw [addWeight_finalizedEpoch]; exact hk.finalizedEpoch, hk.length⟩
    have hl₁ : PassLinks s₀ w (i + 1) s₁ := hl.of_links hc₁ hd₁
    have hplt : p < s₁.nodes.length := by rw [hk₁.sameTree.length]; exact h₀.parent_lt hp
    have hpi := h₀.parentsFirst i p hp
    have htip : ∀ c, i ≤ c → (s₁.setLinks p (s₁.chosenLinks p i)).tipOf c = s₁.tipOf c := by
      intro c hc
      unfold tipOf
      rw [bestDescendantOf_setLinks hplt, if_neg (by omega)]
    constructor
    · intro q c hbest hic
      rw [bestChildOf_setLinks hplt, bestDescendantOf_setLinks hplt, htip c hic]
      by_cases hqp : q = p
      · subst hqp
        rw [if_pos rfl, if_pos rfl]
        rcases Nat.eq_or_lt_of_le hic with rfl | hlt
        · rw [chosenLinks_of_best h₀ hk₁ hl₁ hcond hafter hbefore hp hbest]
          exact ⟨rfl, rfl⟩
        · rw [chosenLinks_of_settled h₀ hk₁ hl₁ hafter hp hbest hlt]
          exact hl₁.settled q c hbest (by omega)
      · rw [if_neg hqp, if_neg hqp]
        exact (hl₁.lower h₀ (by rw [hp]; simpa using Ne.symm hqp)).1 c hbest hic
    · intro q hopen
      rw [bestChildOf_setLinks hplt]
      by_cases hqp : q = p
      · subst hqp
        rw [if_pos rfl]
        exact chosenLinks_of_open hk₁ hl₁ hcond hafter hbefore hp hopen
      · rw [if_neg hqp]
        exact (hl₁.lower h₀ (by rw [hp]; simpa using Ne.symm hqp)).2 hopen

theorem PassLinks.start (h₀ : s₀.WellFormed) (w : Nat → Int) : PassLinks s₀ w s₀.nodes.length s₀ where
  settled p c hc hle := absurd (lt_of_parentOf hc.child) (by omega)
  open_ p _ := by
    cases hb : s₀.bestChildOf p with
    | none => exact .inl rfl
    | some b => exact .inr (.inl ⟨b, h₀.bestChild_lt hb, rfl, rfl⟩)

theorem PassLinks.final (hl : PassLinks s₀ w 0 s) (p c : Nat) : s.bestChildOf p = some c ↔ Best s₀ w p c := by
  constructor
  · intro hc
    by_cases hex : ∃ c, Best s₀ w p c
    · obtain ⟨t, ht⟩ := hex
      have := (hl.settled p t ht (Nat.zero_le t)).1
      obtain rfl : c = t := Option.some.inj (hc.symm.trans this)
      exact ht
    · rcases hl.open_ p (fun c hc => absurd ⟨c, hc⟩ hex) with h | ⟨b, hb, -⟩ | ⟨h, -⟩
      · rw [hc] at h; cases h
      · omega
      · exact absurd h hex
  · intro hc
    exact (hl.settled p c hc (Nat.zero_le c)).1

theorem applyScoreChanges_links (h : s.WellFormed) (hlen : deltas.length = s.nodes.length)
    (hcond : StaleIsHarmless (s.withEpochs je fe) (s.newWeight deltas)) :
    ∃ s' ds, s.applyScoreChanges deltas je fe = (.ok (), s') ∧ PassKeeps (s.withEpochs je fe) ds s' ∧
      PassLinks (s.withEpochs je fe) (s.newWeight deltas) 0 s' ∧
      ∀ j, (s.parentOf j).isSome → s'.weightOf j = s.newWeight deltas j := by
  have ht := withEpochs_sameTree s je fe
  have hnodes := withEpochs_nodes s je fe
  have hstart := PassKeeps.start h hlen je fe
  obtain ⟨s₀, hs₀⟩ : ∃ s₀, s₀ = s.withEpochs je fe := ⟨_, rfl⟩
  rw [← hs₀] at hcond hstart ht hnodes ⊢
  have hnew : ∀ j, s.newWeight deltas j =
      s₀.weightOf j + subtreeSum s₀.parentOf s₀.nodes.length (fun j => deltas.getD j 0) j := by
    intro j
    unfold newWeight weightOf
    rw [ht.parentOf, hnodes]
  have hweight : ∀ {k ds s₁}, PassWeights s₀ (fun j => deltas.getD j 0) k ds s₁ →
      ∀ j, k ≤ j → (s₀.parentOf j).isSome → s₁.weightOf j = s.newWeight deltas j := by
    intro k ds s₁ hP j hj hpar
    obtain ⟨p, hp⟩ := Option.isSome_iff_exists.1 hpar
    rw [hnew]
    refine hP.after j hj (lt_of_parentOf hp) (fun hzero => ?_)
    rw [hcond.zeroHash j hzero] at hp
    cases hp
  obtain ⟨ds, s', hrun, hkeeps, hw, hl⟩ := applyScoreLoop_rule
    (fun k ds s₁ => PassWeights s₀ (fun j => deltas.getD j 0) k ds s₁ ∧ PassLinks s₀ (s.newWeight deltas) k s₁)
    (fun i ds s₁ hi hk hP => by
      have hw := hP.1.visit hcond.zeroHash hi hk
      exact ⟨hw, hP.2.visit hstart.wellFormed hcond hk (hweight hw) hw.before⟩)
    s₀.nodes.length deltas s₀ (Nat.le_refl _) hstart
    ⟨PassWeights.start hstart.wellFormed deltas s₀ (fun _ => rfl), PassLinks.start hstart.wellFormed _⟩
  refine ⟨s', ds, ?_, hkeeps, hl, fun j hpar => hweight hw j (Nat.zero_le j) (by rw [ht.parentOf]; exact hpar)⟩
  unfold applyScoreChanges
  rw [h.size, if_neg (by simpa using hlen), ← hs₀, ← hnodes]
  exact hrun

/-! ## The head -/

theorem Ghost.unique (h : s.WellFormed) (ha : Ghost s i a) (hb : Ghost s i b) : a = b := by
  induction ha with
  | stop hnone =>
    cases hb with
    | stop => rfl
    | down hbest _ => exact absurd hbest.leads (hnone _ hbest.child)
  | down hbest _ ih =>
    cases hb with
    | stop hnone => exact absurd hbest.leads (hnone _ hbest.child)
    | down hbest' hb' =>
      rw [hbest'.unique h hbest] at hb'
      exact ih hb'

def LinksFollow (s : ProtoArray) : Prop := ∀ p c, s.bestChildOf p = some c → s.bestDescendantOf p = some (s.tipOf c)

theorem ghost_tip (h : s.WellFormed) (hbest : s.BestChildren) (hlinks : s.LinksFollow) (i : Nat) (hi : i < s.nodes.length) :
    Ghost s i (s.tipOf i) := by
  cases hc : s.bestChildOf i with
  | none =>
    have htip : s.tipOf i = i := by
      unfold tipOf
      rw [(h.linked i).1 hc]
      rfl
    rw [htip]
    exact .stop ((hbest i hi).2.1 hc)
  | some c =>
    have hpar := h.bestChild i c hc
    have hlt := lt_of_parentOf hpar
    have hic := h.parentsFirst c i hpar
    have htip : s.tipOf i = s.tipOf c := by
      unfold tipOf
      rw [hlinks i c hc]
      rfl
    rw [htip]
    exact .down (((hbest i hi).1 c).1 hc) (ghost_tip h hbest hlinks c hlt)
termination_by s.nodes.length - i

/-- What `findHead` returns for a known root when the head should be the node `head`. -/
def headResult (s : ProtoArray) (justifiedRoot : HexRoot) (justifiedIndex head : Nat) : Except ProtoArrayError HexRoot :=
  match s.nodes[justifiedIndex]? with
  | none => .error (.INVALID_JUSTIFIED_INDEX justifiedIndex)
  | some node =>
    if s.viableAt head then .ok (s.rootOf head)
    else .error (.INVALID_BEST_NODE justifiedRoot s.justifiedEpoch s.finalizedEpoch node.blockRoot node.justifiedEpoch
      node.finalizedEpoch)

theorem findHead_eq (h : s.WellFormed) {root : HexRoot} (hi : s.indices.get? root = some i) :
    s.findHead root = s.headResult root i (s.tipOf i) := by
  obtain ⟨node, hnode, -⟩ := h.get?_iff.1 hi
  have hilt := (List.getElem?_eq_some_iff.1 hnode).1
  have htip : s.tipOf i = node.bestDescendant.getD i := by
    unfold tipOf bestDescendantOf
    rw [hnode]
    rfl
  have htiplt : s.tipOf i < s.nodes.length := h.subtree_lt hilt (h.tip_mem i)
  have htn := List.getElem?_eq_getElem htiplt
  unfold findHead headResult
  rw [hi]
  dsimp only
  rw [hnode]
  dsimp only
  rw [← htip, htn]
  dsimp only
  have hv : s.viableAt (s.tipOf i) = s.nodeIsViableForHead s.nodes[s.tipOf i] := by unfold viableAt; rw [htn]; rfl
  have hr : s.rootOf (s.tipOf i) = s.nodes[s.tipOf i].blockRoot := rootOf_node htn
  rw [hv, hr]
  cases s.nodeIsViableForHead s.nodes[s.tipOf i] <;> rfl

theorem Best.congr (ht : SameTree s s') (hj : s'.justifiedEpoch = s.justifiedEpoch) (hf : s'.finalizedEpoch = s.finalizedEpoch)
    {w w' : Nat → Int} (hw : ∀ j, (s.parentOf j).isSome → w' j = w j) (p c : Nat) : Best s' w' p c ↔ Best s w p c := by
  have hcongr := ht.leadsToViable hj hf
  constructor
  · rintro ⟨hc, hl, hh⟩
    rw [ht.parentOf] at hc
    refine ⟨hc, (hcongr c).1 hl, fun c' hc' hl' => ?_⟩
    have := hh c' (by rw [ht.parentOf]; exact hc') ((hcongr c').2 hl')
    rwa [ht.rootOf, hw c (by rw [hc]; rfl), hw c' (by rw [hc']; rfl)] at this
  · rintro ⟨hc, hl, hh⟩
    refine ⟨by rw [ht.parentOf]; exact hc, (hcongr c).2 hl, fun c' hc' hl' => ?_⟩
    rw [ht.parentOf] at hc'
    rw [ht.rootOf, hw c (by rw [hc]; rfl), hw c' (by rw [hc']; rfl)]
    exact hh c' hc' ((hcongr c').1 hl')

/-- **`applyScoreChanges` where stale comparisons do no harm**: in every array that a run of the methods reaches, it leaves
every node with its LMD-GHOST child, and `findHead` with the LMD-GHOST head. -/
theorem applyScoreChanges_best (pruneThreshold je₀ fe₀ : Nat) (ops : List Op) (deltas : List Int) (je fe : Nat)
    (hlen : deltas.length = (runOps (new pruneThreshold je₀ fe₀) ops).nodes.length)
    (hcond : StaleIsHarmless ((runOps (new pruneThreshold je₀ fe₀) ops).withEpochs je fe)
      ((runOps (new pruneThreshold je₀ fe₀) ops).newWeight deltas)) :
    ∃ s', (runOps (new pruneThreshold je₀ fe₀) ops).applyScoreChanges deltas je fe = (.ok (), s') ∧ s'.BestChildren ∧
      ∀ root i, s'.indices.get? root = some i → ∃ head, Ghost s' i head ∧ (∀ head', Ghost s' i head' → head' = head) ∧
        s'.findHead root = s'.headResult root i head := by
  have h := WellFormed.runOps ops (WellFormed.new pruneThreshold je₀ fe₀)
  obtain ⟨s, hs⟩ : ∃ s, s = runOps (new pruneThreshold je₀ fe₀) ops := ⟨_, rfl⟩
  rw [← hs] at hlen hcond h ⊢
  obtain ⟨s', ds, hrun, hk, hl, hw⟩ := applyScoreChanges_links h hlen hcond
  have ht₀ := withEpochs_sameTree s je fe
  have hbest : ∀ p c, s'.bestChildOf p = some c ↔ Best s' s'.weightOf p c := by
    intro p c
    rw [hl.final, Best.congr hk.sameTree hk.justifiedEpoch hk.finalizedEpoch]
    intro j hj
    rw [ht₀.parentOf] at hj
    exact hw j hj
  have hnone : ∀ p, s'.bestChildOf p = none ↔ ∀ c, s'.parentOf c = some p → ¬ s'.LeadsToViable c := by
    intro p
    constructor
    · intro hn c hc hlead
      obtain ⟨t, ht⟩ := exists_best s'.weightOf ⟨c, hc, hlead⟩
      rw [(hbest p t).2 ht] at hn
      cases hn
    · intro hn
      cases hc : s'.bestChildOf p with
      | none => rfl
      | some c => exact absurd ((hbest p c).1 hc).leads (hn c ((hbest p c).1 hc).child)
  have hlinks : s'.LinksFollow := fun p c hc => (hl.settled p c ((hl.final p c).1 hc) (Nat.zero_le c)).2
  have hchildren : s'.BestChildren := fun p _ => ⟨hbest p, hnone p⟩
  refine ⟨s', hrun, hchildren, fun root i hi => ?_⟩
  obtain ⟨node, hnode, -⟩ := hk.wellFormed.get?_iff.1 hi
  have hghost := ghost_tip hk.wellFormed hchildren hlinks i (List.getElem?_eq_some_iff.1 hnode).1
  exact ⟨s'.tipOf i, hghost, fun _ hg => hg.unique hk.wellFormed hghost, findHead_eq hk.wellFormed hi⟩

def genesisBlock (slot : Nat) (blockRoot parentRoot : HexRoot) : ProtoBlock :=
  ⟨slot, blockRoot, parentRoot, blockRoot, blockRoot, 0, 0⟩

def fork : List Op :=
  [.onBlock (genesisBlock 0 "a" "z"), .onBlock (genesisBlock 1 "b" "a"), .onBlock (genesisBlock 1 "c" "a")]

theorem applyScoreChanges_best_fork :
    ∃ s', (runOps (new 0 0 0) fork).applyScoreChanges [0, 2, 1] 0 0 = (.ok (), s') ∧ s'.BestChildren ∧
      ∀ root i, s'.indices.get? root = some i → ∃ head, Ghost s' i head ∧ (∀ head', Ghost s' i head' → head' = head) ∧
        s'.findHead root = s'.headResult root i head :=
  applyScoreChanges_best 0 0 0 fork [0, 2, 1] 0 0 (by decide) (by
    have hwf := (WellFormed.runOps fork (WellFormed.new 0 0 0))
    -- the best child of "a" is its last child, so no child comes after it
    have hlast : ∀ b c, (runOps (new 0 0 0) fork).parentOf b ≠ none → (runOps (new 0 0 0) fork).parentOf c ≠ none → b < c →
        b = 1 ∧ c = 2 := by
      intro b c hb hc hlt
      obtain ⟨p, hp⟩ := Option.ne_none_iff_exists'.1 hb
      obtain ⟨q, hq⟩ := Option.ne_none_iff_exists'.1 hc
      have hb0 := hwf.parentsFirst b p hp
      have : c < 3 := lt_of_parentOf hq
      omega
    have hnever : ∀ p b c, (runOps (new 0 0 0) fork).bestChildOf p = some b → b < c →
        (runOps (new 0 0 0) fork).parentOf c ≠ some p := by
      intro p b c hb hlt hc
      have hbp := hwf.bestChild p b hb
      obtain ⟨rfl, rfl⟩ := hlast b c (by rw [hbp]; simp) (by rw [hc]; simp) hlt
      obtain rfl : p = 0 := by
        have : (runOps (new 0 0 0) fork).parentOf 1 = some 0 := by decide
        exact Option.some.inj (hbp.symm.trans this)
      revert hb
      decide
    refine ⟨fun i hi => ?_, fun p b c hb hlt hbest _ => absurd hbest.child (hnever p b c hb hlt),
      fun p b c hb hlt hc _ => absurd hc (hnever p b c hb hlt)⟩
    by_contra hne
    obtain ⟨p, hp⟩ := Option.ne_none_iff_exists'.1 hne
    have hlt : i < 3 := lt_of_parentOf hp
    have hzero : ∀ i : Fin 3, (runOps (new 0 0 0) fork).rootOf i ≠ HEX_ZERO_HASH := by decide
    exact hzero ⟨i, hlt⟩ hi)

def lostVotes : ProtoArray :=
  runOps (new 0 0 0) (fork ++ [.applyScoreChanges [0, 2, 1] 0 0, .applyScoreChanges [0, -2, 0] 0 0])

/-- "c" was compared with the old weight of "b" and is not looked at again: the lighter "b" stays the head. -/
theorem applyScoreChanges_keeps_stale :
    (∀ i : Fin 3, 0 ≤ lostVotes.weightOf i) ∧ lostVotes.bestChildOf 0 = some 1 ∧ ¬ lostVotes.BestChildren ∧
      lostVotes.findHead "a" = .ok "b" ∧ Ghost lostVotes 0 2 ∧ lostVotes.rootOf 2 = "c" := by
  have hlead : lostVotes.LeadsToViable 2 := ⟨2, by decide, by decide⟩
  refine ⟨by decide, by decide, fun h => ?_, by decide, .down (c := 2) ⟨by decide, hlead, ?_⟩ (.stop ?_), by decide⟩
  · have := (((h 0 (by decide)).1 1).1 (by decide)).heaviest 2 (by decide) hlead
    revert this
    decide
  · intro c hc _
    have hlight : ∀ c : Fin 3, lostVotes.parentOf c = some 0 → lostVotes.weightOf c < lostVotes.weightOf 2 ∨ c = 2 := by
      decide
    rcases hlight ⟨c, lt_of_parentOf hc⟩ hc with h | h
    · exact Prod.Lex.toLex_le_toLex.2 (.inl h)
    · cases h
      exact le_refl _
  · intro c hc _
    have hno : ∀ c : Fin 3, lostVotes.parentOf c ≠ some 2 := by decide
    exact hno ⟨c, lt_of_parentOf hc⟩ hc

end ProtoArray

end Lodestar
