import Lodestar.Lib.SortedList
import Lodestar.StateTransition.ExitQueue
/-!
# RegistryUpdates — eligibilities, ejections and activations against the specification

The specification goes through the registry once, sets an eligibility here and an exit there, and looks for the end of the exit
queue at every exit; then it sorts the validators that finality allows to be activated.  The code looks once, before the
transition, and counts on; it ejects first and sets eligibilities afterwards, and it sorts the validators that any finality
could allow.  What they write is the same: `processRegistryUpdates_spec`.
-/
namespace Lodestar.StateTransition

open Lib

variable {P : Preset} {env : Env P} {cfg : ChainConfig} {s s' : CachedBeaconState P} {process : EpochProcess}

/-! ## The specification -/

def specIsEligibleForActivationQueue (P : Preset) (v : Validator) : Bool :=
  decide (v.activationEligibilityEpoch = FAR_FUTURE_EPOCH) && v.effectiveBalance == P.MAX_EFFECTIVE_BALANCE

def specIsEligibleForActivation (finalizedEpoch : Nat) (v : Validator) : Bool :=
  decide (v.activationEligibilityEpoch ≤ finalizedEpoch) && decide (v.activationEpoch = FAR_FUTURE_EPOCH)

def setEligible (epoch : Nat) (v : Validator) : Validator := { v with activationEligibilityEpoch := (epoch : ℕ∞) }

def setActivation (epoch : Nat) (v : Validator) : Validator := { v with activationEpoch := (epoch : ℕ∞) }

def specRegistryStep (cfg : ChainConfig) (state : CachedBeaconState P) (index : Nat) :
    Except String (CachedBeaconState P) := do
  let validator ← getAt typeError state.validators index
  let currentEpoch := getCurrentEpoch state.toBeaconState
  let state := if specIsEligibleForActivationQueue P validator
    then updateValidator state index (setEligible (currentEpoch + 1)) else state
  if isActiveValidator validator currentEpoch && decide (validator.effectiveBalance ≤ cfg.EJECTION_BALANCE)
  then specInitiateValidatorExit cfg state index else pure state

def specProcessRegistryUpdates (cfg : ChainConfig) (state : CachedBeaconState P) : Except String (CachedBeaconState P) := do
  let state ← (List.range state.validators.length).foldlM (specRegistryStep cfg) state
  -- order by the sequence of activation eligibility and then index
  let activationQueue := (indicesWhere (specIsEligibleForActivation state.finalizedCheckpoint.epoch) state.validators).insertionSort
    (activationOrder state.validators)
  let activationEpoch := computeActivationExitEpoch P (getCurrentEpoch state.toBeaconState)
  pure ((activationQueue.take (churnLimitOf cfg state)).foldl
    (fun state index => updateValidator state index (setActivation activationEpoch)) state)

/-! ## The exit queue of the record -/

def nextExit (cfg : ChainConfig) (s : CachedBeaconState P) : ℕ∞ × Nat :=
  if churnLimitOf cfg s ≤ lastChurn s then (lastExit s + 1, 0) else (lastExit s, lastChurn s)

theorem exitQueueEndFrom_eq : ∀ (validators : List Validator) (start : ℕ∞),
    exitQueueEndFrom start validators = latest start (exitsOf validators)
  | [], start => rfl
  | v :: validators, start => by
    have hrest := exitQueueEndFrom_eq validators
    unfold exitQueueEndFrom at hrest ⊢
    rw [List.foldl_cons, hrest]
    by_cases hfar : v.exitEpoch = FAR_FUTURE_EPOCH
    · simp [exitsOf, hfar]
    · by_cases hlt : start < v.exitEpoch
      · simp [exitsOf, hfar, hlt, latest_cons, max_eq_right hlt.le]
      · simp [exitsOf, hfar, hlt, latest_cons, max_eq_left (not_lt.1 hlt)]

theorem length_filter_active (s : CachedBeaconState P) (epoch : Nat) :
    (s.validators.filter (isActiveValidator · epoch)).length = (getActiveValidatorIndices s.toBeaconState epoch).length := by
  rw [length_getActiveValidatorIndices, List.countP_map, List.countP_eq_length_filter]
  rfl

theorem prepareEpochProcessState_queue (hepoch : s.epochCtx.currentShuffling.epoch = getCurrentEpoch s.toBeaconState)
    (h : prepareEpochProcessState cfg s = .ok process) :
    process.churnLimit = churnLimitOf cfg s ∧ (process.exitQueueEnd, process.exitQueueEndChurn) = nextExit cfg s := by
  unfold prepareEpochProcessState at h
  simp only [bind_eq_ok, pure_eq_ok] at h
  obtain ⟨statuses, -, rfl⟩ := h
  have hlimit : getChurnLimit cfg (s.validators.filter (isActiveValidator · s.epochCtx.currentShuffling.epoch)).length =
      churnLimitOf cfg s := by
    unfold churnLimitOf
    rw [length_filter_active, hepoch]
  have hend : exitQueueEndFrom (computeActivationExitEpoch P s.epochCtx.currentShuffling.epoch : Nat) s.validators =
      lastExit s := by
    rw [exitQueueEndFrom_eq, hepoch]
    rfl
  have hchurn := count_exitsOf (lastExit_ne_far s) s.validators
  refine ⟨hlimit, ?_⟩
  rw [hlimit, hend, ← hchurn]
  rfl

/-! ## The loop over the registry -/

variable {i : Nat} {v : Validator}

section

variable (cfg : ChainConfig) (hv : s.validators[i]? = some v) (hfar : v.exitEpoch = FAR_FUTURE_EPOCH)
include hv hfar

theorem setExit_nextExit : specInitiateValidatorExit cfg s i = .ok (setExit cfg s i (nextExit cfg s).1) ∧
      churnLimitOf cfg (setExit cfg s i (nextExit cfg s).1) = churnLimitOf cfg s ∧
      lastExit (setExit cfg s i (nextExit cfg s).1) = (nextExit cfg s).1 ∧
      lastChurn (setExit cfg s i (nextExit cfg s).1) = (nextExit cfg s).2 + 1 := by
  have hlimit : ∀ {epoch : ℕ∞}, (getCurrentEpoch s.toBeaconState : ℕ∞) < epoch →
      churnLimitOf cfg (setExit cfg s i epoch) = churnLimitOf cfg s := by
    intro epoch hlate
    exact congrArg (getChurnLimit cfg) (setExit_active cfg hv hfar hlate)
  rw [spec_eq cfg hv hfar]
  unfold nextExit
  by_cases hfull : churnLimitOf cfg s ≤ lastChurn s
  · simp only [if_pos hfull, Nat.zero_add]
    exact ⟨trivial, hlimit (currentEpoch_lt_next s), setExit_next cfg hv hfar⟩
  · simp only [if_neg hfull]
    exact ⟨trivial, hlimit (currentEpoch_lt_lastExit s), setExit_last cfg hv hfar⟩

theorem ejectStep_eq : ∃ validators, specInitiateValidatorExit cfg s i = .ok { s with validators := validators } ∧
      churnLimitOf cfg { s with validators := validators } = churnLimitOf cfg s ∧
      ejectStep cfg (churnLimitOf cfg s) (s.validators, nextExit cfg s) i =
        (validators, nextExit cfg { s with validators := validators }) := by
  obtain ⟨hspec, hlimit, hlast, hchurn⟩ := setExit_nextExit cfg hv hfar
  refine ⟨(setExit cfg s i (nextExit cfg s).1).validators, hspec, hlimit, ?_⟩
  have hunfold : ∀ t : CachedBeaconState P, nextExit cfg t =
      if churnLimitOf cfg t ≤ lastChurn t then (lastExit t + 1, 0) else (lastExit t, lastChurn t) := fun _ => rfl
  have hnext := hunfold (setExit cfg s i (nextExit cfg s).1)
  rw [hlimit, hlast, hchurn] at hnext
  refine Eq.trans ?_ (congrArg (Prod.mk _) hnext.symm)
  unfold ejectStep
  dsimp only
  split <;> rfl

end

theorem setEligible_keeps (s : CachedBeaconState P) (i epoch : Nat) : KeepsExits s (updateValidator s i (setEligible epoch)) where
  slot := rfl
  currentShuffling := rfl
  validators := by
    refine ⟨0, List.ext_getElem? fun j => ?_⟩
    simp only [updateValidator, List.replicate_zero, List.append_nil, List.getElem?_map, List.getElem?_modify]
    split
    · cases s.validators[j]? <;> rfl
    · simp

theorem nextExit_setEligible (cfg : ChainConfig) (s : CachedBeaconState P) (i epoch : Nat) :
    nextExit cfg (updateValidator s i (setEligible epoch)) = nextExit cfg s := by
  obtain ⟨-, hlast, hchurn⟩ := (setEligible_keeps s i epoch).queue
  unfold nextExit
  rw [hlast, hchurn, (setEligible_keeps s i epoch).churnLimitOf]

theorem ejectStep_setEligible (limit epoch i j : Nat) (validators : List Validator) (queue : ℕ∞ × Nat) :
    ejectStep cfg limit (validators.modify i (setEligible epoch), queue) j =
      ((ejectStep cfg limit (validators, queue) j).1.modify i (setEligible epoch),
        (ejectStep cfg limit (validators, queue) j).2) := by
  have hcomm := modify_comm (f := setEligible epoch) (g := fun v : Validator => { v with
    exitEpoch := queue.1, withdrawableEpoch := queue.1 + cfg.MIN_VALIDATOR_WITHDRAWABILITY_DELAY }) (fun _ => rfl) validators i j
  unfold ejectStep
  dsimp only
  rw [hcomm]
  split <;> rfl

theorem foldl_ejectStep_setEligible (limit epoch i : Nat) : ∀ (indices : List Nat) (validators : List Validator) (queue : ℕ∞ × Nat),
    (indices.foldl (ejectStep cfg limit) (validators.modify i (setEligible epoch), queue)).1 =
      (indices.foldl (ejectStep cfg limit) (validators, queue)).1.modify i (setEligible epoch)
  | [], validators, queue => rfl
  | j :: indices, validators, queue => by
    rw [List.foldl_cons, List.foldl_cons, ejectStep_setEligible, foldl_ejectStep_setEligible limit epoch i indices]

theorem ejection_step (cfg : ChainConfig) (hv : s.validators[i]? = some v) (epoch : Nat) :
    ∃ validators, (if isActiveValidator v epoch && decide (v.effectiveBalance ≤ cfg.EJECTION_BALANCE)
        then specInitiateValidatorExit cfg s i else pure s) = .ok { s with validators := validators } ∧
      churnLimitOf cfg { s with validators := validators } = churnLimitOf cfg s ∧
      (validators, nextExit cfg { s with validators := validators }) = if isToEject cfg epoch v
        then ejectStep cfg (churnLimitOf cfg s) (s.validators, nextExit cfg s) i else (s.validators, nextExit cfg s) := by
  have heject : isToEject cfg epoch v = ((isActiveValidator v epoch && decide (v.effectiveBalance ≤ cfg.EJECTION_BALANCE)) &&
      decide (v.exitEpoch = FAR_FUTURE_EPOCH)) := by
    unfold isToEject
    rw [Bool.and_right_comm]
  rw [heject]
  by_cases hout : (isActiveValidator v epoch && decide (v.effectiveBalance ≤ cfg.EJECTION_BALANCE)) = true
  · rw [if_pos hout, hout]
    by_cases hfar : v.exitEpoch = FAR_FUTURE_EPOCH
    · obtain ⟨validators, hspec, hlimit, hstep⟩ := ejectStep_eq cfg hv hfar
      exact ⟨validators, hspec, hlimit, by simp [hfar, hstep]⟩
    · exact ⟨s.validators, spec_exiting hv hfar, rfl, by simp [hfar]⟩
  · rw [if_neg hout, Bool.eq_false_of_not_eq_true hout]
    exact ⟨s.validators, rfl, rfl, rfl⟩

theorem specRegistryStep_eq (cfg : ChainConfig) (hv : s.validators[i]? = some v) :
    ∃ validators, specRegistryStep cfg s i = .ok { s with validators := validators } ∧
      churnLimitOf cfg { s with validators := validators } = churnLimitOf cfg s ∧
      let acc := if isToEject cfg (getCurrentEpoch s.toBeaconState) v
        then ejectStep cfg (churnLimitOf cfg s) (s.validators, nextExit cfg s) i else (s.validators, nextExit cfg s)
      validators = (if isToSetActivationEligibility P v
        then acc.1.modify i (setEligible (getCurrentEpoch s.toBeaconState + 1)) else acc.1) ∧
      nextExit cfg { s with validators := validators } = acc.2 := by
  unfold specRegistryStep
  rw [getAt_eq_ok.2 hv]
  simp only [bind, Except.bind]
  have hqueue : specIsEligibleForActivationQueue P v = isToSetActivationEligibility P v := rfl
  rw [hqueue]
  by_cases heligible : isToSetActivationEligibility P v = true
  · simp only [if_pos heligible]
    have hv' : (updateValidator s i (setEligible (getCurrentEpoch s.toBeaconState + 1))).validators[i]? =
        some (setEligible (getCurrentEpoch s.toBeaconState + 1) v) := by
      simp [updateValidator, hv]
    obtain ⟨validators, hrun, hlimit, hacc⟩ := ejection_step cfg hv' (getCurrentEpoch s.toBeaconState)
    have hsame : isToEject cfg (getCurrentEpoch s.toBeaconState) (setEligible (getCurrentEpoch s.toBeaconState + 1) v) =
        isToEject cfg (getCurrentEpoch s.toBeaconState) v := rfl
    rw [(setEligible_keeps s i _).churnLimitOf] at hlimit
    rw [hsame, nextExit_setEligible, (setEligible_keeps s i _).churnLimitOf] at hacc
    unfold updateValidator at hacc
    rw [ejectStep_setEligible] at hacc
    refine ⟨validators, hrun, hlimit, ?_, ?_⟩
    · refine (congrArg Prod.fst hacc).trans ?_
      split <;> rfl
    · refine (congrArg Prod.snd hacc).trans ?_
      split <;> rfl
  · simp only [if_neg heligible]
    obtain ⟨validators, hrun, hlimit, hacc⟩ := ejection_step cfg hv (getCurrentEpoch s.toBeaconState)
    exact ⟨validators, hrun, hlimit, congrArg Prod.fst hacc, congrArg Prod.snd hacc⟩

theorem registryLoop_eq (cfg : ChainConfig) (limit epoch : Nat) : ∀ (entries : List (Validator × Nat)) (s : CachedBeaconState P),
    churnLimitOf cfg s = limit → getCurrentEpoch s.toBeaconState = epoch → (entries.map (·.2)).Nodup →
    (∀ entry ∈ entries, s.validators[entry.2]? = some entry.1) →
    ∃ validators, (entries.map (·.2)).foldlM (specRegistryStep cfg) s = .ok { s with validators := validators } ∧
      churnLimitOf cfg { s with validators := validators } = limit ∧
      validators = ((entries.filter fun entry => isToSetActivationEligibility P entry.1).map (·.2)).foldl
        (fun validators index => validators.modify index (setEligible (epoch + 1)))
        (((entries.filter fun entry => isToEject cfg epoch entry.1).map (·.2)).foldl (ejectStep cfg limit)
          (s.validators, nextExit cfg s)).1
  | [], s, hlimit, _, _, _ => ⟨s.validators, rfl, hlimit, rfl⟩
  | (v, i) :: entries, s, hlimit, hepoch, hnd, hread => by
    obtain ⟨hi, hnd⟩ := List.nodup_cons.1 hnd
    obtain ⟨validators, hstep, hlimit', hvalidators, hnext⟩ := specRegistryStep_eq cfg (hread (v, i) List.mem_cons_self)
    rw [hlimit, hepoch] at hvalidators hnext
    rw [hlimit] at hlimit'
    generalize hout : (if isToEject cfg epoch (v, i).1 then ejectStep cfg limit (s.validators, nextExit cfg s) (v, i).2
      else (s.validators, nextExit cfg s)) = acc at hvalidators hnext
    -- the rest of the loop reads other validators
    have hread' : ∀ entry ∈ entries, validators[entry.2]? = some entry.1 := by
      intro entry hentry
      have hne : i ≠ entry.2 := by
        intro heq
        rw [heq] at hi
        exact hi (List.mem_map.2 ⟨entry, hentry, rfl⟩)
      have hacc : acc.1[entry.2]? = s.validators[entry.2]? := by
        rw [← hout]
        unfold ejectStep
        split
        · dsimp only
          split <;> exact List.getElem?_modify_ne _ _ hne
        · rfl
      rw [← hread entry (List.mem_cons_of_mem _ hentry), ← hacc, hvalidators]
      split
      · exact List.getElem?_modify_ne _ _ hne
      · rfl
    have hejected : (((v, i) :: entries).filter fun entry => isToEject cfg epoch entry.1).map (·.2) =
        (if isToEject cfg epoch v then [i] else []) ++
          (entries.filter fun entry => isToEject cfg epoch entry.1).map (·.2) := by
      rw [List.filter_cons]
      split <;> rfl
    have hfirst : (if isToEject cfg epoch v then [i] else []).foldl (ejectStep cfg limit) (s.validators, nextExit cfg s) =
        acc := by
      rw [← hout]
      split <;> rfl
    obtain ⟨after, hrun, hlimit'', hafter⟩ :=
      registryLoop_eq cfg limit epoch entries { s with validators := validators } hlimit' hepoch hnd hread'
    refine ⟨after, ?_, hlimit'', ?_⟩
    · rw [List.map_cons, List.foldlM_cons, hstep]
      exact hrun
    rw [hafter, hejected, List.foldl_append, hfirst, List.filter_cons, hnext]
    rw [hvalidators]
    by_cases heligible : isToSetActivationEligibility P v = true
    · simp only [if_pos heligible, foldl_ejectStep_setEligible, List.map_cons, List.foldl_cons]
    · simp only [if_neg heligible]

/-! ## The activation queue -/

variable {validators : List Validator}

theorem filter_indicesWhere {test test' : Validator → Bool} {p : Nat → Bool}
    (h : ∀ (i : Nat) v, validators[i]? = some v → ((test v = true ∧ p i = true) ↔ test' v = true)) :
    (indicesWhere test validators).filter p = indicesWhere test' validators := by
  refine List.Perm.eq_of_pairwise' (r := (· < ·)) ((indicesWhere_sorted test validators).sublist List.filter_sublist)
    (indicesWhere_sorted test' validators) ?_
  rw [List.perm_ext_iff_of_nodup ((indicesWhere_nodup test validators).filter p) (indicesWhere_nodup test' validators)]
  intro i
  rw [List.mem_filter, mem_indicesWhere, mem_indicesWhere]
  constructor
  · rintro ⟨⟨v, hv, ht⟩, hp⟩
    exact ⟨v, hv, (h i v hv).1 ⟨ht, hp⟩⟩
  · rintro ⟨v, hv, ht⟩
    exact ⟨⟨v, hv, ((h i v hv).2 ht).1⟩, ((h i v hv).2 ht).2⟩

section Order

variable (validators : List Validator)

instance activationOrder_total : Std.Total (activationOrder validators) where
  total a b := by
    unfold activationOrder
    dsimp only
    rcases lt_trichotomy (((validators[a]?).map (·.activationEligibilityEpoch)).getD ⊤)
      (((validators[b]?).map (·.activationEligibilityEpoch)).getD ⊤) with h | h | h
    · exact .inl (.inl h)
    · rcases Nat.le_total a b with hle | hle
      · exact .inl (.inr ⟨h, hle⟩)
      · exact .inr (.inr ⟨h.symm, hle⟩)
    · exact .inr (.inl h)

instance activationOrder_trans : IsTrans Nat (activationOrder validators) where
  trans a b c := by
    rintro (hab | ⟨hab, hle⟩) (hbc | ⟨hbc, hle'⟩)
    · exact .inl (lt_trans hab hbc)
    · exact .inl (hbc ▸ hab)
    · exact .inl (hab ▸ hbc)
    · exact .inr ⟨hab.trans hbc, Nat.le_trans hle hle'⟩

instance activationOrder_antisymm : Std.Antisymm (activationOrder validators) where
  antisymm a b := by
    rintro (hab | ⟨hab, hle⟩) (hba | ⟨hba, hle'⟩)
    · exact absurd (lt_trans hab hba) (lt_irrefl _)
    · exact absurd (hba ▸ hab) (lt_irrefl _)
    · exact absurd (hab ▸ hba) (lt_irrefl _)
    · exact Nat.le_antisymm hle hle'

end Order

variable {finalizedEpoch epoch : Nat}

/-- **The validators the code activates** are the first of the specification's queue, up to the churn limit: as long as finality is
not ahead of the epoch, what it allows comes first in the order. -/
theorem activations_eq (validators : List Validator) (hfinal : finalizedEpoch ≤ epoch) (limit : Nat) :
    (((indicesWhere (isToMaybeActivate epoch) validators).insertionSort (activationOrder validators)).take limit).takeWhile
      (fun index => !decide ((finalizedEpoch : ℕ∞) < ((validators[index]?).map (·.activationEligibilityEpoch)).getD 0)) =
    ((indicesWhere (specIsEligibleForActivation finalizedEpoch) validators).insertionSort (activationOrder validators)).take limit := by
  rw [← List.take_takeWhile, takeWhile_eq_filter (List.pairwise_insertionSort _ _), filter_insertionSort]
  · congr 2
    refine filter_indicesWhere fun i v hv => ?_
    have hle : (finalizedEpoch : ℕ∞) ≤ epoch := by exact_mod_cast hfinal
    simp only [isToMaybeActivate, specIsEligibleForActivation, hv, Option.map_some, Option.getD_some, Bool.and_eq_true,
      decide_eq_true_eq, Bool.not_eq_true', decide_eq_false_iff_not, not_lt]
    constructor
    · rintro ⟨⟨hfar, -⟩, helig⟩
      exact ⟨helig, hfar⟩
    · rintro ⟨helig, hfar⟩
      exact ⟨⟨hfar, le_trans helig hle⟩, helig⟩
  · intro a ha b hb hab hpb
    rw [List.mem_insertionSort, mem_indicesWhere] at ha hb
    obtain ⟨v, hv, -⟩ := ha
    obtain ⟨w, hw, -⟩ := hb
    simp only [activationOrder, hv, hw, Option.map_some, Option.getD_some] at hab hpb ⊢
    simp only [Bool.not_eq_true', decide_eq_false_iff_not, not_lt] at hpb ⊢
    rcases hab with hlt | ⟨heq, -⟩
    · exact le_trans hlt.le hpb
    · exact heq ▸ hpb

theorem foldl_ejectStep_entries (cfg : ChainConfig) (limit : Nat) : ∀ (indices : List Nat) (acc : List Validator × ℕ∞ × Nat),
    (indices.foldl (ejectStep cfg limit) acc).1.map (fun v => (v.activationEligibilityEpoch, v.activationEpoch)) =
      acc.1.map (fun v => (v.activationEligibilityEpoch, v.activationEpoch))
  | [], acc => rfl
  | i :: indices, acc => by
    rw [List.foldl_cons, foldl_ejectStep_entries cfg limit indices]
    refine List.ext_getElem? fun j => ?_
    unfold ejectStep
    dsimp only
    split <;>
    · simp only [List.getElem?_map, List.getElem?_modify]
      split
      · cases acc.1[j]? <;> rfl
      · simp

theorem registryLoop_entry (cfg : ChainConfig) (limit epoch : Nat) (validators : List Validator) (queue : ℕ∞ × Nat)
    (indices : List Nat) (i : Nat) :
    ((((indicesWhere (isToSetActivationEligibility P) validators).foldl
        (fun validators index => validators.modify index (setEligible (epoch + 1)))
        (indices.foldl (ejectStep cfg limit) (validators, queue)).1)[i]?).map
          fun v => (v.activationEligibilityEpoch, v.activationEpoch)) =
      (validators[i]?).map fun v =>
        (if isToSetActivationEligibility P v then ((epoch + 1 : Nat) : ℕ∞) else v.activationEligibilityEpoch, v.activationEpoch) := by
  have hejected := congrArg (fun l => l[i]?) (foldl_ejectStep_entries cfg limit indices (validators, queue))
  simp only [List.getElem?_map] at hejected
  rw [getElem?_foldl_modify (fun _ => setEligible (epoch + 1)) i _ _ (indicesWhere_nodup _ _)]
  generalize (indices.foldl (ejectStep cfg limit) (validators, queue)).1[i]? = after at hejected ⊢
  cases hv : validators[i]? with
  | none =>
    rw [hv] at hejected
    cases after with
    | none => split <;> rfl
    | some w => cases hejected
  | some v =>
    rw [hv] at hejected
    cases after with
    | none => cases hejected
    | some w =>
      have hpair : w.activationEligibilityEpoch = v.activationEligibilityEpoch ∧ w.activationEpoch = v.activationEpoch := by
        simpa using hejected
      have hmem : i ∈ indicesWhere (isToSetActivationEligibility P) validators ↔ isToSetActivationEligibility P v = true := by
        rw [mem_indicesWhere, hv]
        simp
      by_cases hset : isToSetActivationEligibility P v = true
      · simp [hmem, hset, setEligible, hpair]
      · simp [hmem, hset, hpair]

theorem activationQueue_eq (validators' : List Validator) (hfinal : finalizedEpoch ≤ epoch)
    (hentry : ∀ i : Nat, ((validators'[i]?).map fun v => (v.activationEligibilityEpoch, v.activationEpoch)) =
      (validators[i]?).map fun v =>
        (if isToSetActivationEligibility P v then ((epoch + 1 : Nat) : ℕ∞) else v.activationEligibilityEpoch, v.activationEpoch)) :
    (indicesWhere (specIsEligibleForActivation finalizedEpoch) validators').insertionSort (activationOrder validators') =
      (indicesWhere (specIsEligibleForActivation finalizedEpoch) validators).insertionSort (activationOrder validators) := by
  have hlt : (finalizedEpoch : ℕ∞) < ((epoch + 1 : Nat) : ℕ∞) := by exact_mod_cast Nat.lt_succ_of_le hfinal
  -- a validator of the queue is not one whose eligibility is set now
  have hnot : ∀ v, specIsEligibleForActivation finalizedEpoch v = true → ¬ isToSetActivationEligibility P v = true := by
    intro v hv hset
    simp only [specIsEligibleForActivation, isToSetActivationEligibility, Bool.and_eq_true, decide_eq_true_eq] at hv hset
    have hle := hv.1
    rw [hset.1] at hle
    exact absurd (ENat.natCast_lt_top finalizedEpoch) (not_lt.2 hle)
  have hindices : indicesWhere (specIsEligibleForActivation finalizedEpoch) validators' =
      indicesWhere (specIsEligibleForActivation finalizedEpoch) validators := by
    refine indicesWhere_congr fun i => ?_
    have hi := hentry i
    cases hv : validators[i]? with
    | none =>
      rw [hv] at hi
      simp only [Option.map_none, Option.map_eq_none_iff] at hi
      rw [hi]
    | some v =>
      rw [hv, Option.map_some, Option.map_eq_some_iff] at hi
      obtain ⟨v', hv', hpair⟩ := hi
      obtain ⟨helig, hact⟩ := Prod.mk.inj hpair
      simp only [hv', Option.some.injEq, exists_eq_left']
      by_cases hset : isToSetActivationEligibility P v = true
      · rw [if_pos hset] at helig
        refine iff_of_false (fun h => ?_) fun h => hnot v h hset
        simp only [specIsEligibleForActivation, helig, Bool.and_eq_true, decide_eq_true_eq] at h
        exact absurd hlt (not_lt.2 h.1)
      · rw [if_neg hset] at helig
        simp [specIsEligibleForActivation, helig, hact]
  rw [hindices]
  have hepochOf : ∀ i ∈ indicesWhere (specIsEligibleForActivation finalizedEpoch) validators,
      ((validators'[i]?).map (·.activationEligibilityEpoch)).getD ⊤ = ((validators[i]?).map (·.activationEligibilityEpoch)).getD ⊤ := by
    intro i hi
    obtain ⟨v, hv, htest⟩ := mem_indicesWhere.1 hi
    have hfirst := congrArg (Option.map Prod.fst) (hentry i)
    rw [Option.map_map, Option.map_map, hv] at hfirst
    rw [hv]
    have hread : (validators'[i]?).map (·.activationEligibilityEpoch) = some v.activationEligibilityEpoch := by
      simpa [hnot v htest, Function.comp_def] using hfirst
    rw [hread]
    rfl
  refine insertionSort_congr fun a ha b hb => ?_
  unfold activationOrder
  dsimp only
  rw [hepochOf a ha, hepochOf b hb]

theorem foldl_updateValidator (update : Validator → Validator) (indices : List Nat) (s : CachedBeaconState P) :
    indices.foldl (fun state index => updateValidator state index update) s =
      { s with validators := indices.foldl (fun validators index => validators.modify index update) s.validators } :=
  List.foldl_hom (fun validators => { s with validators }) fun _ _ => rfl

/-! ## The registry updates -/

/-- **The registry updates are the specification's**: for every registry and epoch, on the state that the steps before have made of
the one the record was prepared from, they write every epoch of every validator that `process_registry_updates` writes. -/
theorem processRegistryUpdates_spec (hepoch : s.epochCtx.currentShuffling.epoch = getCurrentEpoch s.toBeaconState)
    (hprep : prepareEpochProcessState cfg s = .ok process) (hslot : s'.slot = s.slot) (hctx : s'.epochCtx = s.epochCtx)
    (hvalidators : s'.validators = s.validators)
    (hfinal : s'.finalizedCheckpoint.epoch ≤ getCurrentEpoch s'.toBeaconState) (balances : Option (List Nat)) :
    specProcessRegistryUpdates cfg s' = .ok (processRegistryUpdates cfg s' { process with balances := balances }) := by
  have hp := (prepareEpochProcessState_ok hprep).1
  obtain ⟨hlimit, hqueue⟩ := prepareEpochProcessState_queue hepoch hprep
  -- the epoch, the queue and the churn limit are those of the state before
  have hnow : getCurrentEpoch s'.toBeaconState = getCurrentEpoch s.toBeaconState := by
    unfold getCurrentEpoch
    rw [hslot]
  have hkeeps : KeepsExits s s' := ⟨hslot, by rw [hctx], 0, by rw [hvalidators]; simp⟩
  have hlimit' : churnLimitOf cfg s' = process.churnLimit := by
    rw [hlimit, hkeeps.churnLimitOf]
  have hnext : nextExit cfg s' = nextExit cfg s := by
    obtain ⟨-, hlast, hchurn⟩ := hkeeps.queue
    unfold nextExit
    rw [hlast, hchurn, hkeeps.churnLimitOf]
  obtain ⟨after, hloop, hlimit'', hafter⟩ := registryLoop_eq cfg process.churnLimit (getCurrentEpoch s.toBeaconState)
    s'.validators.zipIdx s' hlimit' hnow (nodup_map_snd_zipIdx _ 0) fun entry hentry => List.mem_zipIdx_iff_getElem?.1 hentry
  have hrange : s'.validators.zipIdx.map (·.2) = List.range s'.validators.length := by
    rw [List.zipIdx_map_snd, List.range_eq_range']
  rw [hrange] at hloop
  have hentry := registryLoop_entry (P := P) cfg process.churnLimit (getCurrentEpoch s.toBeaconState) s'.validators
    (nextExit cfg s') (indicesWhere (isToEject cfg (getCurrentEpoch s.toBeaconState)) s'.validators)
  have hactivated := activations_eq s'.validators (hnow ▸ hfinal) process.churnLimit
  have hsorted := activationQueue_eq after (hnow ▸ hfinal) (fun i => hafter ▸ hentry i)
  have hspec : specProcessRegistryUpdates cfg s' = .ok { s' with
      validators := (((indicesWhere (specIsEligibleForActivation s'.finalizedCheckpoint.epoch) after).insertionSort
        (activationOrder after)).take process.churnLimit).foldl (fun validators index =>
          validators.modify index (setActivation (computeActivationExitEpoch P (getCurrentEpoch s'.toBeaconState)))) after } := by
    unfold specProcessRegistryUpdates
    rw [hloop]
    simp only [bind, Except.bind, hlimit'', foldl_updateValidator]
    rfl
  rw [hspec, hsorted, ← hactivated, hnow]
  unfold processRegistryUpdates
  rw [hp.indicesToEject, hp.indicesToSetActivationEligibility, hp.indicesToMaybeActivate, hp.currentEpoch, hp.validators, hctx,
    hepoch, ← hvalidators, hafter]
  have hstart : (s'.validators, process.exitQueueEnd, process.exitQueueEndChurn) = (s'.validators, nextExit cfg s') := by
    rw [hnext, ← hqueue]
  rw [hstart]
  rfl

/-- In the last slot of epoch 2: two validators to eject, one that leaves in epoch 8, one without an eligibility, and two in the
activation queue, of which finality allows the second. -/
def mixedRegistry : BeaconState minimal :=
  let validator := fun (byte : UInt8) (balance : Nat) (eligibility activation exit : ℕ∞) => ({
    pubkey := pubkeyOf byte, withdrawalCredentials := zeroRoot, effectiveBalance := balance, slashed := false
    activationEligibilityEpoch := eligibility, activationEpoch := activation, exitEpoch := exit
    withdrawableEpoch := exit + (256 : Nat) } : Validator)
  { awaitingDeposit with
    slot := 23
    validators := [validator 1 16000000000 0 0 ⊤, validator 2 32000000000 0 0 8, validator 3 16000000000 0 0 ⊤,
      validator 4 32000000000 ⊤ ⊤ ⊤, validator 5 32000000000 2 ⊤ ⊤, validator 6 32000000000 1 ⊤ ⊤]
    balances := [16000000000, 32000000000, 16000000000, 32000000000, 32000000000, 32000000000]
    finalizedCheckpoint := { epoch := 1, root := zeroRoot } }

theorem processRegistryUpdates_spec_mixed : ∃ s process,
    createCachedBeaconState (plainEnv minimal) (minimalConfig ⊤) mixedRegistry noOpts = .ok s ∧
    prepareEpochProcessState (minimalConfig ⊤) s = .ok process ∧
    specProcessRegistryUpdates (minimalConfig ⊤) s = .ok (processRegistryUpdates (minimalConfig ⊤) s process) ∧
    (processRegistryUpdates (minimalConfig ⊤) s process).validators.map
      (fun v => [v.activationEligibilityEpoch, v.activationEpoch, v.exitEpoch, v.withdrawableEpoch]) =
      [[0, 0, 8, 264], [0, 0, 8, 264], [0, 0, 8, 264], [3, ⊤, ⊤, ⊤], [2, ⊤, ⊤, ⊤], [1, 7, ⊤, ⊤]] := by
  have heval : ((createCachedBeaconState (plainEnv minimal) (minimalConfig ⊤) mixedRegistry noOpts) >>= fun s =>
      (prepareEpochProcessState (minimalConfig ⊤) s).map fun process => ([s.epochCtx.currentShuffling.epoch,
        getCurrentEpoch s.toBeaconState, s.finalizedCheckpoint.epoch],
        (processRegistryUpdates (minimalConfig ⊤) s process).validators.map
          fun v => [v.activationEligibilityEpoch, v.activationEpoch, v.exitEpoch, v.withdrawableEpoch])) =
      .ok ([2, 2, 1], [[0, 0, 8, 264], [0, 0, 8, 264], [0, 0, 8, 264], [3, ⊤, ⊤, ⊤], [2, ⊤, ⊤, ⊤], [1, 7, ⊤, ⊤]]) := by
    decide +kernel
  obtain ⟨s, hs, heval⟩ := bind_eq_ok.1 heval
  obtain ⟨process, hprep, heval⟩ := map_eq_ok.1 heval
  obtain ⟨hepochs, hwritten⟩ := Prod.mk.inj heval
  simp only [List.cons.injEq, and_true] at hepochs
  obtain ⟨hctx, hnow, hfinalized⟩ := hepochs
  have hfinal : s.finalizedCheckpoint.epoch ≤ getCurrentEpoch s.toBeaconState := by omega
  exact ⟨s, process, hs, hprep, processRegistryUpdates_spec (hctx.trans hnow.symm) hprep rfl rfl rfl hfinal process.balances,
    hwritten⟩

end Lodestar.StateTransition
