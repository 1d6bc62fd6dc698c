import Lodestar.Lib.Tallies
import Lodestar.StateTransition.EpochSteps
import Lodestar.StateTransition.AttesterStatuses
import Lodestar.Util.Math
/-!
# EpochTotals — the sums of effective balances an epoch is weighed with

The specification sums the effective balances of a set of indices.  The record sums them over the statuses with certain flags, or
over the active validators: the sums are the same where the flags mark the set (`stakeWith_eq`).
-/
namespace Lodestar.StateTransition

open Lib

variable {P : Preset} {cfg : ChainConfig} {s : CachedBeaconState P} {process : EpochProcess}

/-! ## Sums over sets of indices -/

def effectiveBalanceOf (validators : List Validator) (i : Nat) : Nat := ((validators[i]?).map (·.effectiveBalance)).getD 0

variable {validators : List Validator}

theorem effectiveBalanceOf_eq {i : Nat} {v : Validator} (hv : validators[i]? = some v) :
    effectiveBalanceOf validators i = v.effectiveBalance := by
  simp [effectiveBalanceOf, hv]

def totalOf (P : Preset) (validators : List Validator) (indices : List Nat) : Nat :=
  max P.EFFECTIVE_BALANCE_INCREMENT (indices.map (effectiveBalanceOf validators)).sum

theorem getTotalBalance_eq {st : BeaconState P} {indices : List Nat} (h : ∀ i ∈ indices, i < st.validators.length) :
    getTotalBalance st indices = .ok (totalOf P st.validators indices) := by
  have key : ∀ (indices : List Nat) (total : Nat), (∀ i ∈ indices, i < st.validators.length) →
      indices.foldlM (fun total index => do
        let validator ← getAt typeError st.validators index
        pure (total + validator.effectiveBalance)) total =
      (.ok (total + (indices.map (effectiveBalanceOf st.validators)).sum) : Except String Nat) := by
    intro indices
    induction indices with
    | nil => intro total _; rfl
    | cons i indices ih =>
      intro total hbound
      have hi := hbound i List.mem_cons_self
      have hread : getAt typeError st.validators i = .ok st.validators[i] := getAt_eq_ok.2 (List.getElem?_eq_getElem hi)
      rw [List.foldlM_cons, hread, List.map_cons, List.sum_cons, effectiveBalanceOf_eq (List.getElem?_eq_getElem hi)]
      have hrest := ih (total + st.validators[i].effectiveBalance) fun j hj => hbound j (List.mem_cons_of_mem i hj)
      rw [Nat.add_assoc] at hrest
      exact hrest
  unfold getTotalBalance
  rw [key indices 0 h, Nat.zero_add]
  rfl

theorem filter_map_range {α β : Type} {p : α → Bool} {f : α → β} {q : Nat → Bool} {g : Nat → β} (l : List α)
    (h : ∀ (i : Nat) (a : α), l[i]? = some a → p a = q i ∧ f a = g i) :
    (l.filter p).map f = ((List.range l.length).filter q).map g := by
  induction l using List.reverseRecOn with
  | nil => rfl
  | append_singleton l a ih =>
    obtain ⟨hp, hf⟩ := h l.length a (by simp)
    have hbefore := ih fun i b hb => h i b (by rw [List.getElem?_append_left (List.getElem?_eq_some_iff.1 hb).1, hb])
    rw [List.filter_append, List.map_append, hbefore, List.length_append, List.length_singleton, List.range_succ,
      List.filter_append, List.map_append, List.filter_singleton, List.filter_singleton, hp]
    cases q l.length <;> simp [hf]

theorem indicesWhere_eq (test : Validator → Bool) (validators : List Validator) : indicesWhere test validators =
    (List.range validators.length).filter fun i => (validators[i]?).any test := by
  unfold indicesWhere
  rw [filter_map_range (q := fun i => (validators[i]?).any test) (g := id), List.map_id, List.length_zipIdx]
  intro i entry hentry
  rw [List.getElem?_zipIdx, Option.map_eq_some_iff] at hentry
  obtain ⟨v, hv, rfl⟩ := hentry
  simp [hv]

theorem stakeWith_eq {statuses : List AttesterStatus} {markers : Nat} {marked : Nat → Bool}
    (hlength : statuses.length = validators.length)
    (h : ∀ (i : Nat) status, statuses[i]? = some status → hasMarkers status.flags markers = marked i) :
    stakeWith P markers statuses validators = totalOf P validators ((List.range validators.length).filter marked) := by
  unfold stakeWith totalOf
  rw [filter_map_range (q := marked) (g := effectiveBalanceOf validators), List.length_zip, hlength, Nat.min_self]
  rintro i ⟨status, v⟩ hentry
  obtain ⟨hstatus, hv⟩ := List.getElem?_zip_eq_some.1 hentry
  exact ⟨h i status hstatus, (effectiveBalanceOf_eq hv).symm⟩

theorem totalActiveStake_eq (hp : Prepared cfg s process) : process.totalActiveStake = totalOf P s.validators
    (indicesWhere (isActiveValidator · s.epochCtx.currentShuffling.epoch) s.validators) := by
  rw [hp.totalActiveStake, totalOf, indicesWhere_eq, filter_map_range (q := fun i =>
    (s.validators[i]?).any (isActiveValidator · s.epochCtx.currentShuffling.epoch)) (g := effectiveBalanceOf s.validators)]
  intro i v hv
  exact ⟨by simp [hv], (effectiveBalanceOf_eq hv).symm⟩

theorem getTotalActiveBalance_eq (hp : Prepared cfg s process)
    (hepoch : s.epochCtx.currentShuffling.epoch = getCurrentEpoch s.toBeaconState) :
    getTotalActiveBalance s.toBeaconState = .ok process.totalActiveStake := by
  have hbound : ∀ i ∈ indicesWhere (isActiveValidator · s.epochCtx.currentShuffling.epoch) s.validators, i < s.validators.length := by
    intro i hi
    obtain ⟨v, hv, -⟩ := mem_indicesWhere.1 hi
    exact (List.getElem?_eq_some_iff.1 hv).1
  rw [totalActiveStake_eq hp, ← getTotalBalance_eq hbound, hepoch]
  rfl

/-! ## The validators that count -/

def specGetEligibleValidatorIndices (s : CachedBeaconState P) : List Nat :=
  indicesWhere (isEligibleValidator (getPreviousEpoch s.toBeaconState)) s.validators

def isEligible (s : CachedBeaconState P) (i : Nat) : Bool :=
  (s.validators[i]?).any (isEligibleValidator (getPreviousEpoch s.toBeaconState))

theorem isEligible_eq : specGetEligibleValidatorIndices s = (List.range s.validators.length).filter (isEligible s) :=
  indicesWhere_eq _ _

theorem addAtOrThrow_inside {l : List Int} {i n x : Nat} (hl : l.length = n) (hi : i < n) :
    addAtOrThrow l i x = .ok (addTo l [(i, (x : Int))]) :=
  if_pos (hl.symm ▸ hi)

end Lodestar.StateTransition
