import Lodestar.StateTransition.SharedPubkeys
/-!
# StateValidators — the validators of a state by their status

The validators are filtered by status, and the index of each is looked up again by its public key in the head state's map, which
knows every key of the state.  The index that is found is then tested for being there, and the test takes 0 for absent.
-/
namespace Lodestar.Api

open Lib StateTransition

variable {P : Preset}

inductive ValidatorStatus
  | active_exiting
  | active_ongoing
  | active_slashed
  | exited_slashed
  | exited_unslashed
  | pending_initialized
  | pending_queued
  | withdrawal_done
  | withdrawal_possible
deriving DecidableEq, Repr

def ValidatorStatus.text : ValidatorStatus → String
  | .active_exiting => "active_exiting"
  | .active_ongoing => "active_ongoing"
  | .active_slashed => "active_slashed"
  | .exited_slashed => "exited_slashed"
  | .exited_unslashed => "exited_unslashed"
  | .pending_initialized => "pending_initialized"
  | .pending_queued => "pending_queued"
  | .withdrawal_done => "withdrawal_done"
  | .withdrawal_possible => "withdrawal_possible"

def getValidatorStatus (validator : Validator) (currentEpoch : Nat) : Except String ValidatorStatus := do
  -- pending
  if validator.activationEpoch > currentEpoch then
    if validator.activationEligibilityEpoch = FAR_FUTURE_EPOCH then return .pending_initialized
    else if validator.activationEligibilityEpoch < FAR_FUTURE_EPOCH then return .pending_queued
  -- active
  if validator.activationEpoch ≤ currentEpoch ∧ currentEpoch < validator.exitEpoch then
    if validator.exitEpoch = FAR_FUTURE_EPOCH then return .active_ongoing
    else if validator.exitEpoch < FAR_FUTURE_EPOCH then
      return if validator.slashed then .active_slashed else .active_exiting
  -- exited
  if validator.exitEpoch ≤ currentEpoch ∧ currentEpoch < validator.withdrawableEpoch then
    return if validator.slashed then .exited_slashed else .exited_unslashed
  -- withdrawal
  if validator.withdrawableEpoch ≤ currentEpoch then
    return if validator.effectiveBalance ≠ 0 then .withdrawal_possible else .withdrawal_done
  throw "ValidatorStatus unknown"

structure ValidatorResponse where
  index : Nat
  status : ValidatorStatus
  balance : Option Nat
  validator : Validator
deriving DecidableEq

def toValidatorResponse (index : Nat) (validator : Validator) (balance : Option Nat) (currentEpoch : Nat) :
    Except String ValidatorResponse := do
  pure { index, status := ← getValidatorStatus validator currentEpoch, balance, validator }

inductive ValidatorId
  | index (id : Nat)
  | pubkey (id : BLSPubkey)

/-- What a test of a `number` or `undefined` takes for true. -/
def truthy (value : Option Nat) : Bool := value.any (· ≠ 0)

variable (state : BeaconState P) (getHeadState : Except String (CachedBeaconState P))

def getStateValidatorIndex (id : ValidatorId) : Except String (Option Nat) :=
  match id with
  | .index id => pure (if state.validators.length > id then some id else none)
  | .pubkey id => do
    let validatorIndex := (← getHeadState).epochCtx.pubkey2index.get? id
    -- validator added later than given stateId
    if truthy validatorIndex ∧ validatorIndex.any (· ≥ state.validators.length) then return none
    return validatorIndex

section

variable (statuses : List String) (currentEpoch : Nat)

def includesStatus (validator : Validator) : Except String Bool := do
  pure (statuses.contains (← getValidatorStatus validator currentEpoch).text)

def pushValidatorResponse (responses : List ValidatorResponse) (validator : Validator) :
    Except String (List ValidatorResponse) := do
  match ← getStateValidatorIndex state getHeadState (.pubkey validator.pubkey) with
  | none => return responses
  | some validatorIndex =>
    if truthy (some validatorIndex) then
      if ← includesStatus statuses currentEpoch validator then
        return responses ++ [← toValidatorResponse validatorIndex validator state.balances[validatorIndex]? currentEpoch]
    return responses

def filterStateValidatorsByStatuses : Except String (List ValidatorResponse) := do
  let filteredValidators ← state.validators.filterM (includesStatus statuses currentEpoch)
  filteredValidators.foldlM (pushValidatorResponse state getHeadState statuses currentEpoch) []

/-! ## Statuses -/

theorem getValidatorStatus_returns (validator : Validator) (currentEpoch : Nat) :
    ∃ status, getValidatorStatus validator currentEpoch = .ok status := by
  have hfar : ∀ epoch : ℕ∞, epoch ≠ FAR_FUTURE_EPOCH → epoch < FAR_FUTURE_EPOCH := fun _ => Ne.lt_top
  unfold getValidatorStatus
  by_cases hpending : validator.activationEpoch > currentEpoch
  · by_cases heligible : validator.activationEligibilityEpoch = FAR_FUTURE_EPOCH
    · simp [hpending, heligible, pure, Except.pure]
    · simp [hpending, heligible, hfar _ heligible, pure, Except.pure]
  · have hactivated := not_lt.1 hpending
    by_cases hactive : (currentEpoch : ℕ∞) < validator.exitEpoch
    · by_cases hexit : validator.exitEpoch = FAR_FUTURE_EPOCH
      · rw [hexit] at hactive
        simp [hpending, hactivated, hactive, hexit, pure, Except.pure]
      · simp [hpending, hactivated, hactive, hexit, hfar _ hexit, pure, Except.pure]
    · by_cases hexited : (currentEpoch : ℕ∞) < validator.withdrawableEpoch
      · simp [hpending, hactivated, hactive, not_lt.1 hactive, hexited, pure, Except.pure]
      · simp [hpending, hactivated, hactive, not_lt.1 hactive, hexited, not_lt.1 hexited, pure, Except.pure]

def responseOf (validator : Validator) (index : Nat) : Option ValidatorResponse :=
  match getValidatorStatus validator currentEpoch with
  | .ok status =>
    if statuses.contains status.text then some { index, status, balance := state.balances[index]?, validator } else none
  | .error _ => none

/-- **The validators with one of the statuses, each with its own index and balance**, in the order of the registry. -/
def validatorsWithStatuses : List ValidatorResponse :=
  state.validators.zipIdx.filterMap fun entry => responseOf state statuses currentEpoch entry.1 entry.2

end

variable {state getHeadState} {head : CachedBeaconState P} {registry : List BLSPubkey} {validator : Validator}

section

variable (hhead : getHeadState = .ok head) (hindex : Indexes head.epochCtx.pubkey2index registry)
  (hstate : state.pubkeys <+: registry)
include hhead hindex hstate

theorem getStateValidatorIndex_own {index : Nat} (hvalidator : state.validators[index]? = some validator) :
    getStateValidatorIndex state getHeadState (.pubkey validator.pubkey) = .ok (some index) := by
  have hlt := (List.getElem?_eq_some_iff.1 hvalidator).1
  have hkey : registry[index]? = some validator.pubkey := by
    obtain ⟨rest, rfl⟩ := hstate
    rw [List.getElem?_append_left (by simpa [BeaconState.pubkeys] using hlt)]
    simp [BeaconState.pubkeys, hvalidator]
  unfold getStateValidatorIndex
  simp [hhead, (hindex.get?_iff _ _).2 hkey, bind, Except.bind, pure, Except.pure, hlt]

theorem pushValidatorResponse_own {index : Nat} (hvalidator : state.validators[index]? = some validator)
    (statuses : List String) (currentEpoch : Nat) (responses : List ValidatorResponse) :
    pushValidatorResponse state getHeadState statuses currentEpoch responses validator =
      .ok (responses ++ ((responseOf state statuses currentEpoch validator index).filter (·.index ≠ 0)).toList) := by
  obtain ⟨status, hstatus⟩ := getValidatorStatus_returns validator currentEpoch
  unfold pushValidatorResponse
  rw [getStateValidatorIndex_own hhead hindex hstate hvalidator]
  by_cases hzero : index = 0
  · by_cases hmatches : status.text ∈ statuses <;>
      simp [responseOf, hstatus, hmatches, hzero, truthy, bind, Except.bind, pure, Except.pure]
  · by_cases hmatches : status.text ∈ statuses <;>
      simp [responseOf, includesStatus, toValidatorResponse, hstatus, hmatches, hzero, truthy, bind, Except.bind, pure, Except.pure,
        Option.filter]

theorem filterStateValidatorsByStatuses_eq (statuses : List String) (currentEpoch : Nat) :
    filterStateValidatorsByStatuses state getHeadState statuses currentEpoch =
      .ok ((validatorsWithStatuses state statuses currentEpoch).filter (·.index ≠ 0)) := by
  choose status hstatus using fun validator => getValidatorStatus_returns validator currentEpoch
  have hloop : ∀ back front, state.validators = front ++ back → ∀ responses,
      (back.filter fun validator => statuses.contains (status validator).text).foldlM
        (pushValidatorResponse state getHeadState statuses currentEpoch) responses =
      .ok (responses ++ ((back.zipIdx front.length).filterMap fun entry =>
        responseOf state statuses currentEpoch entry.1 entry.2).filter (·.index ≠ 0)) := by
    intro back
    induction back with
    | nil => simp [pure, Except.pure]
    | cons validator back ih =>
      intro front hsplit responses
      have hvalidator : state.validators[front.length]? = some validator := by simp [hsplit]
      have ih := ih (front ++ [validator]) (by simp [hsplit])
      rw [List.length_append, List.length_singleton] at ih
      rw [List.zipIdx_cons]
      by_cases hmatches : (status validator).text ∈ statuses
      · rw [List.filter_cons_of_pos (by simpa using hmatches), List.foldlM_cons,
          pushValidatorResponse_own hhead hindex hstate hvalidator]
        refine (ih _).trans ?_
        rw [List.append_assoc, List.filterMap_cons]
        cases responseOf state statuses currentEpoch validator front.length with
        | none => rfl
        | some response => by_cases hzero : response.index = 0 <;> simp [hzero, Option.filter]
      · rw [List.filter_cons_of_neg (by simpa using hmatches), ih responses]
        simp [responseOf, hstatus, hmatches]
  unfold filterStateValidatorsByStatuses
  rw [filterM_eq_filter (p := fun validator => statuses.contains (status validator).text)]
  · exact hloop state.validators [] rfl []
  · intro validator _
    simp [includesStatus, hstatus, bind, Except.bind, pure, Except.pure]

end

/-- **The validators with one of the statuses come out, each once with its own index and balance, in order**, if and only if the first
validator of the registry is not one of them. -/
theorem filterStateValidatorsByStatuses_iff (hhead : getHeadState = .ok head)
    (hindex : Indexes head.epochCtx.pubkey2index registry) (hregistry : head.pubkeys <+: registry)
    (hstate : state.pubkeys <+: head.pubkeys) (statuses : List String) (currentEpoch : Nat) :
    filterStateValidatorsByStatuses state getHeadState statuses currentEpoch =
        .ok (validatorsWithStatuses state statuses currentEpoch) ↔
      ∀ validator, state.validators[0]? = some validator → ∀ status,
        getValidatorStatus validator currentEpoch = .ok status → status.text ∉ statuses := by
  rw [filterStateValidatorsByStatuses_eq hhead hindex (hstate.trans hregistry), Except.ok.injEq, List.filter_eq_self]
  unfold validatorsWithStatuses
  constructor
  · intro h validator hvalidator status hstatus hmatches
    have hentry := h { index := 0, status, balance := state.balances[0]?, validator } (List.mem_filterMap.2 ⟨(validator, 0),
      List.mem_zipIdx_iff_getElem?.2 hvalidator, by simp [responseOf, hstatus, hmatches]⟩)
    simp at hentry
  · intro h response hresponse
    obtain ⟨⟨validator, index⟩, hentry, hresponse⟩ := List.mem_filterMap.1 hresponse
    have hvalidator := List.mem_zipIdx_iff_getElem?.1 hentry
    unfold responseOf at hresponse
    dsimp only at hresponse hvalidator
    split at hresponse
    · rename_i status hstatus
      split at hresponse
      · rename_i hmatches
        cases hresponse
        rw [decide_eq_true_iff]
        rintro rfl
        exact h validator hvalidator status hstatus (List.contains_iff_mem.1 hmatches)
      · cases hresponse
    · cases hresponse

/-- Two validators are active, and the second comes out. -/
theorem filterStateValidatorsByStatuses_loses_first :
    let head := slashedInEpoch8 0
    head.pubkeys.Nodup ∧
    (∀ v ∈ head.validators, v.activationEpoch ≤ v.exitEpoch ∧ v.exitEpoch ≤ v.withdrawableEpoch) ∧
    (filterStateValidatorsByStatuses head.toBeaconState (.ok head) ["active_ongoing"] 40).map (List.map (·.index)) = .ok [1] ∧
    (validatorsWithStatuses head.toBeaconState ["active_ongoing"] 40).map (·.index) = [0, 1] := by
  decide +kernel

theorem filterStateValidatorsByStatuses_iff_exited :
    let head := slashedInEpoch8 0
    filterStateValidatorsByStatuses head.toBeaconState (.ok head) ["exited_slashed"] 40 =
        .ok (validatorsWithStatuses head.toBeaconState ["exited_slashed"] 40) ↔
      ∀ validator, head.validators[0]? = some validator → ∀ status,
        getValidatorStatus validator 40 = .ok status → status.text ∉ ["exited_slashed"] := by
  have hindex := ((Indexes.empty.set_new (k := Vector.replicate 48 (1 : UInt8)) (by decide)).set_new
    (k := Vector.replicate 48 2) (by decide)).set_new (k := Vector.replicate 48 3) (by decide)
  exact filterStateValidatorsByStatuses_iff rfl hindex ⟨[], rfl⟩ (List.prefix_refl _) ["exited_slashed"] 40

end Lodestar.Api
