import Mathlib.Data.ENat.Lattice
import Lodestar.Lib.Greatest
import Lodestar.StateTransition.EpochCache
/-!
# ExitQueue — the exits of one block against the specification

The specification looks for the end of the exit queue at every exit and counts who leaves then; the code looks once a block and
counts on in its cache, but its count can start one short or one ahead (`Lag`), and then it goes wrong where the queue fills up:
`rightExits_iff`.

Slashings and voluntary exits call `initiateValidatorExit` with the cache of the block; nothing else in a block writes an exit
epoch.  So every block is such a run of exits, from a cache that is empty (`processOperations_exits`).
-/
namespace Lodestar.StateTransition

open Lib

variable {P : Preset} {env : Env P} {cfg : ChainConfig} {fork : ForkName}

/-! ## The specification -/

def exitsOf (validators : List Validator) : List ℕ∞ :=
  (validators.map (·.exitEpoch)).filter fun epoch => decide (epoch ≠ FAR_FUTURE_EPOCH)

section

variable (cfg : ChainConfig) (state : CachedBeaconState P) (index : Nat)

def setExit (exitQueueEpoch : ℕ∞) : CachedBeaconState P :=
  updateValidator state index fun v => { v with
    exitEpoch := exitQueueEpoch, withdrawableEpoch := exitQueueEpoch + cfg.MIN_VALIDATOR_WITHDRAWABILITY_DELAY }

/-- The specification's `initiate_validator_exit`: everything is read from the registry. -/
def specInitiateValidatorExit : Except String (CachedBeaconState P) := do
  let validator ← getAt typeError state.validators index
  if validator.exitEpoch ≠ FAR_FUTURE_EPOCH then pure state
  else
    let currentEpoch := getCurrentEpoch state.toBeaconState
    let exitQueueEpoch := latest ((computeActivationExitEpoch P currentEpoch : Nat) : ℕ∞) (exitsOf state.validators)
    let exitQueueChurn := (state.validators.filter fun v => decide (v.exitEpoch = exitQueueEpoch)).length
    let churnLimit := getChurnLimit cfg (getActiveValidatorIndices state.toBeaconState currentEpoch).length
    pure (setExit cfg state index (if churnLimit ≤ exitQueueChurn then exitQueueEpoch + 1 else exitQueueEpoch))

end

/-! ## Runs of exits -/

/-- Whatever else a block does between two exits: no activation or exit of a validator changes, and validators that join have
neither. -/
structure KeepsExits (s s' : CachedBeaconState P) : Prop where
  slot : s'.slot = s.slot
  currentShuffling : s'.epochCtx.currentShuffling = s.epochCtx.currentShuffling
  validators : ∃ joined, s'.validators.map (fun v => (v.activationEpoch, v.exitEpoch)) =
    s.validators.map (fun v => (v.activationEpoch, v.exitEpoch)) ++
      List.replicate joined (FAR_FUTURE_EPOCH, FAR_FUTURE_EPOCH)

/-- A call of `initiateValidatorExit`: the state it is made on, the validator, and the state it leaves. -/
structure ExitCall (P : Preset) where
  before : CachedBeaconState P
  index : Nat
  after : CachedBeaconState P

def ExitCall.sets (call : ExitCall P) : Bool :=
  (call.before.validators[call.index]?).any fun v => decide (v.exitEpoch = FAR_FUTURE_EPOCH)

inductive ExitRun (cfg : ChainConfig) : CachedBeaconState P × ValidatorExitCache → List (ExitCall P) →
    CachedBeaconState P × ValidatorExitCache → Prop
  | done (work : CachedBeaconState P × ValidatorExitCache) : ExitRun cfg work [] work
  | call {s s' : CachedBeaconState P} {cache cache' : ValidatorExitCache} {index : Nat} {calls : List (ExitCall P)}
      {work : CachedBeaconState P × ValidatorExitCache} (h : initiateValidatorExit cfg s index cache = .ok (s', cache'))
      (rest : ExitRun cfg (s', cache') calls work) : ExitRun cfg (s, cache) (⟨s, index, s'⟩ :: calls) work
  | other {s s' : CachedBeaconState P} {cache : ValidatorExitCache} {calls : List (ExitCall P)}
      {work : CachedBeaconState P × ValidatorExitCache} (h : KeepsExits s s') (rest : ExitRun cfg (s', cache) calls work) :
      ExitRun cfg (s, cache) calls work

/-! ## The end of the queue -/

def firstExit (s : CachedBeaconState P) : ℕ∞ := (computeActivationExitEpoch P (getCurrentEpoch s.toBeaconState) : Nat)

/-- The end of the queue in the registry, and how many exit then. -/
def lastExit (s : CachedBeaconState P) : ℕ∞ := latest (firstExit s) (exitsOf s.validators)

def lastChurn (s : CachedBeaconState P) : Nat := (exitsOf s.validators).count (lastExit s)

def churnLimitOf (cfg : ChainConfig) (s : CachedBeaconState P) : Nat :=
  getChurnLimit cfg (getActiveValidatorIndices s.toBeaconState (getCurrentEpoch s.toBeaconState)).length

def Agrees (cfg : ChainConfig) (calls : List (ExitCall P)) : Prop :=
  ∀ call ∈ calls, specInitiateValidatorExit cfg call.before call.index = .ok call.after

def Bounded (cfg : ChainConfig) (calls : List (ExitCall P)) : Prop :=
  ∀ call ∈ calls, call.sets = true → lastChurn call.after ≤ churnLimitOf cfg call.before

/-- The context has the epoch of the state and knows how many validators are active in it. -/
structure ExitContext (s : CachedBeaconState P) : Prop where
  epoch : s.epochCtx.currentShuffling.epoch = getCurrentEpoch s.toBeaconState
  active : s.epochCtx.currentShuffling.activeIndices.length =
    (getActiveValidatorIndices s.toBeaconState (getCurrentEpoch s.toBeaconState)).length

variable {s : CachedBeaconState P}

theorem Fresh.exitContext (h : Fresh env cfg s) : ExitContext s where
  epoch := h.currentEpoch
  active := by rw [computeEpochShuffling_active h.duties.current]

variable {epoch : ℕ∞}

theorem lastExit_ne_far (s : CachedBeaconState P) : lastExit s ≠ FAR_FUTURE_EPOCH := by
  unfold lastExit
  rcases latest_mem (exitsOf s.validators) (firstExit s) with h | h
  · rw [h]
    exact ENat.natCast_ne_top _
  · exact of_decide_eq_true (List.mem_filter.1 h).2

theorem count_exitsOf (hfar : epoch ≠ FAR_FUTURE_EPOCH) (validators : List Validator) :
    (exitsOf validators).count epoch = (validators.filter fun v => decide (v.exitEpoch = epoch)).length := by
  unfold exitsOf
  rw [List.count_filter (by simpa using hfar), List.count_eq_countP, List.countP_map, List.countP_eq_length_filter]
  rfl

theorem exitQueueFrom_eq : ∀ (validators : List Validator) (start : ℕ∞ × Nat),
    exitQueueFrom start validators = latestPass start (exitsOf validators)
  | [], start => rfl
  | v :: validators, start => by
    have hrest := exitQueueFrom_eq validators
    unfold exitQueueFrom at hrest ⊢
    rw [List.foldl_cons, hrest]
    by_cases hfar : v.exitEpoch = FAR_FUTURE_EPOCH
    · simp [exitsOf, hfar]
    · simp [exitsOf, hfar, latestPass]

theorem exitQueueFrom_start (s : CachedBeaconState P) : exitQueueFrom (firstExit s, 0) s.validators =
    (lastExit s, if lastExit s = firstExit s then lastChurn s else lastChurn s - 1) := by
  rw [exitQueueFrom_eq, latestPass_eq, Nat.zero_add]
  unfold lastChurn
  by_cases hstart : lastExit s = firstExit s
  · rw [if_pos hstart, hstart]
    exact Prod.ext hstart (if_pos hstart)
  · rw [if_neg hstart]
    exact Prod.ext rfl (if_neg hstart)

variable {index : Nat} {v : Validator}

theorem spec_eq (cfg : ChainConfig) (hv : s.validators[index]? = some v) (hfar : v.exitEpoch = FAR_FUTURE_EPOCH) :
    specInitiateValidatorExit cfg s index =
      .ok (setExit cfg s index (if churnLimitOf cfg s ≤ lastChurn s then lastExit s + 1 else lastExit s)) := by
  have hcount := count_exitsOf (lastExit_ne_far s) s.validators
  unfold specInitiateValidatorExit
  rw [getAt_eq_ok.2 hv]
  unfold lastChurn churnLimitOf
  rw [hcount]
  simp only [bind, Except.bind, hfar, ne_eq, not_true_eq_false, if_false]
  rfl

/-! ## Steps -/

theorem length_getActiveValidatorIndices (s : CachedBeaconState P) (epoch : Nat) :
    (getActiveValidatorIndices s.toBeaconState epoch).length =
      (s.validators.map fun v => (v.activationEpoch, v.exitEpoch)).countP
        (fun entry : ℕ∞ × ℕ∞ => decide (entry.1 ≤ (epoch : ℕ∞)) && decide ((epoch : ℕ∞) < entry.2)) := by
  unfold getActiveValidatorIndices indicesWhere
  have hfirst : (s.validators.zipIdx.filter fun entry => isActiveValidator entry.1 epoch).map Prod.fst =
      s.validators.filter fun v => isActiveValidator v epoch := by
    conv_rhs => rw [← List.zipIdx_map_fst 0 s.validators, List.filter_map]
    rfl
  have hlength := congrArg List.length hfirst
  rw [List.length_map] at hlength
  rw [List.length_map, hlength, List.countP_map, List.countP_eq_length_filter]
  rfl

section Other

variable {s s' : CachedBeaconState P} (h : KeepsExits s s')

include h

theorem KeepsExits.exitsOf : exitsOf s'.validators = exitsOf s.validators := by
  have hpairs : ∀ validators : List Validator, StateTransition.exitsOf validators =
      ((validators.map fun v => (v.activationEpoch, v.exitEpoch)).map Prod.snd).filter
        fun epoch => decide (epoch ≠ FAR_FUTURE_EPOCH) := by
    intro validators
    rw [List.map_map]
    rfl
  obtain ⟨joined, hjoined⟩ := h.validators
  rw [hpairs, hpairs, hjoined]
  simp

theorem KeepsExits.currentEpoch : getCurrentEpoch s'.toBeaconState = getCurrentEpoch s.toBeaconState := by
  unfold getCurrentEpoch
  rw [h.slot]

theorem KeepsExits.queue : firstExit s' = firstExit s ∧ lastExit s' = lastExit s ∧ lastChurn s' = lastChurn s := by
  have hfirst : firstExit s' = firstExit s := by
    unfold firstExit
    rw [h.currentEpoch]
  have hlast : lastExit s' = lastExit s := by
    unfold lastExit
    rw [hfirst, h.exitsOf]
  refine ⟨hfirst, hlast, ?_⟩
  unfold lastChurn
  rw [hlast, h.exitsOf]

theorem KeepsExits.active : (getActiveValidatorIndices s'.toBeaconState (getCurrentEpoch s'.toBeaconState)).length =
    (getActiveValidatorIndices s.toBeaconState (getCurrentEpoch s.toBeaconState)).length := by
  obtain ⟨joined, hjoined⟩ := h.validators
  rw [h.currentEpoch, length_getActiveValidatorIndices, length_getActiveValidatorIndices, hjoined, List.countP_append]
  simp [FAR_FUTURE_EPOCH, List.countP_replicate]

theorem KeepsExits.churnLimitOf (cfg : ChainConfig) : churnLimitOf cfg s' = churnLimitOf cfg s := by
  unfold StateTransition.churnLimitOf
  rw [h.active]

theorem KeepsExits.exitContext (hctx : ExitContext s) : ExitContext s' where
  epoch := by rw [h.currentShuffling, h.currentEpoch, hctx.epoch]
  active := by rw [h.currentShuffling, h.active, hctx.active]

end Other

section SetExit

variable {s : CachedBeaconState P} {index : Nat} {v : Validator} {epoch : ℕ∞} (hv : s.validators[index]? = some v)
  (hfar : v.exitEpoch = FAR_FUTURE_EPOCH)

include hv

theorem setExit_validators (cfg : ChainConfig) (epoch : ℕ∞) : ∃ front back v', s.validators = front ++ v :: back ∧
    (setExit cfg s index epoch).validators = front ++ v' :: back ∧ v'.exitEpoch = epoch ∧
      v'.activationEpoch = v.activationEpoch := by
  obtain ⟨hlt, hget⟩ := List.getElem?_eq_some_iff.1 hv
  refine ⟨s.validators.take index, s.validators.drop (index + 1), { v with
    exitEpoch := epoch, withdrawableEpoch := epoch + cfg.MIN_VALIDATOR_WITHDRAWABILITY_DELAY }, ?_, ?_, rfl, rfl⟩
  · rw [← hget, List.getElem_cons_drop, List.take_append_drop]
  · unfold setExit updateValidator
    rw [List.modify_eq_take_cons_drop hlt, hget]

theorem setExit_ne {e e' : ℕ∞} (hne : e ≠ e') : setExit cfg s index e ≠ setExit cfg s index e' := by
  intro heq
  have hread : ∀ epoch : ℕ∞, ((setExit cfg s index epoch).validators[index]?).map (·.exitEpoch) = some epoch := by
    intro epoch
    unfold setExit updateValidator
    rw [List.getElem?_modify, hv]
    simp
  have hsame := hread e
  rw [heq, hread e'] at hsame
  exact hne (Option.some.inj hsame).symm

include hfar

theorem exitsOf_setExit (hepoch : epoch ≠ FAR_FUTURE_EPOCH) :
    (exitsOf (setExit cfg s index epoch).validators).Perm (epoch :: exitsOf s.validators) := by
  obtain ⟨front, back, v', hold, hnew, hexit, -⟩ := setExit_validators hv cfg epoch
  unfold exitsOf
  rw [hold, hnew]
  simp only [List.map_append, List.map_cons, List.filter_append, List.filter_cons, hexit, hfar]
  simp [hepoch, List.perm_middle]

variable (cfg) in
theorem lastExit_setExit (hepoch : epoch ≠ FAR_FUTURE_EPOCH) :
    lastExit (setExit cfg s index epoch) = max (lastExit s) epoch := by
  unfold lastExit
  rw [latest_perm (exitsOf_setExit hv hfar hepoch), latest_insert]
  rfl

variable (cfg) in
theorem setExit_active (hlate : (getCurrentEpoch s.toBeaconState : ℕ∞) < epoch) :
    (getActiveValidatorIndices (setExit cfg s index epoch).toBeaconState (getCurrentEpoch s.toBeaconState)).length =
      (getActiveValidatorIndices s.toBeaconState (getCurrentEpoch s.toBeaconState)).length := by
  obtain ⟨front, back, v', hold, hnew, hexit, hactivation⟩ := setExit_validators hv cfg epoch
  rw [length_getActiveValidatorIndices, length_getActiveValidatorIndices, hold, hnew]
  have hnow : (getCurrentEpoch s.toBeaconState : ℕ∞) < FAR_FUTURE_EPOCH := ENat.natCast_lt_top _
  simp [List.countP_cons, hexit, hactivation, hfar, hlate, hnow]

end SetExit

/-! ## The cache -/

/-- How the count in the cache stands to that of the validators at the end of the queue. -/
inductive Lag
  | inSync
  | ahead
  | behind

def Lag.Count : Lag → (exitQueueChurn lastChurn : Nat) → Prop
  | .inSync, exitQueueChurn, lastChurn => exitQueueChurn + 1 = lastChurn
  | .ahead, exitQueueChurn, lastChurn => exitQueueChurn = lastChurn
  | .behind, exitQueueChurn, lastChurn => exitQueueChurn + 2 = lastChurn

/-- The epochs of `n` further exits are right: the queue is not filled up to where the count goes wrong. -/
def Lag.Holds : Lag → (lastChurn n churnLimit : Nat) → Prop
  | .inSync, _, _, _ => True
  | .ahead, lastChurn, n, churnLimit => churnLimit ≤ lastChurn ∨ lastChurn + n < churnLimit
  | .behind, lastChurn, n, churnLimit => churnLimit < lastChurn ∨ lastChurn + n ≤ churnLimit

/-- The cache knows the end of the queue and the churn limit, and counts with a lag. -/
structure Follows (cfg : ChainConfig) (lag : Lag) (work : CachedBeaconState P × ValidatorExitCache) : Prop where
  context : ExitContext work.1
  cache : ∃ exitQueueChurn, work.2 = ⟨some (lastExit work.1), some exitQueueChurn, some (churnLimitOf cfg work.1)⟩ ∧
    lag.Count exitQueueChurn (lastChurn work.1)

/-- **Which exits of a block are right**, by the end of the queue before the block and how many exits the block sets: the first
possible epoch still has room, or the block does not fill up the epoch that it starts with; and the churn limit is not zero. -/
def CountsRight (cfg : ChainConfig) (s : CachedBeaconState P) (exits : Nat) : Prop :=
  let churnLimit := churnLimitOf cfg s
  exits = 0 ∨ (0 < churnLimit ∧
    if lastExit s = firstExit s then lastChurn s < churnLimit ∨ exits < churnLimit ∨ churnLimit = 1
    else if churnLimit < lastChurn s then exits < churnLimit ∨ churnLimit = 1
    else lastChurn s + exits ≤ churnLimit)

instance (cfg : ChainConfig) (s : CachedBeaconState P) (exits : Nat) : Decidable (CountsRight cfg s exits) := by
  unfold CountsRight
  infer_instance

theorem lastExit_lt_succ (s : CachedBeaconState P) : lastExit s < lastExit s + 1 :=
  ENat.lt_add_one_iff (lastExit_ne_far s) |>.2 (le_refl _)

theorem currentEpoch_lt_lastExit (s : CachedBeaconState P) : (getCurrentEpoch s.toBeaconState : ℕ∞) < lastExit s := by
  refine lt_of_lt_of_le ?_ (start_le_latest (exitsOf s.validators) (firstExit s))
  unfold firstExit computeActivationExitEpoch
  exact_mod_cast Nat.lt_of_lt_of_le (Nat.lt_succ_self _) (Nat.le_add_right _ _)

theorem lastChurn_pos (h : lastExit s ≠ firstExit s) : 0 < lastChurn s := by
  rcases latest_mem (exitsOf s.validators) (firstExit s) with hstart | hmem
  · exact absurd hstart h
  · exact List.count_pos_iff.2 hmem

section Exit

variable {s : CachedBeaconState P} {index : Nat} {v : Validator} (hv : s.validators[index]? = some v)
  (hfar : v.exitEpoch = FAR_FUTURE_EPOCH)

include hv hfar

variable (cfg) in
theorem setExit_context (hctx : ExitContext s) {epoch : ℕ∞} (hlate : (getCurrentEpoch s.toBeaconState : ℕ∞) < epoch) :
    ExitContext (setExit cfg s index epoch) ∧ churnLimitOf cfg (setExit cfg s index epoch) = churnLimitOf cfg s := by
  have hactive := setExit_active cfg hv hfar hlate
  refine ⟨⟨hctx.epoch, hctx.active.trans hactive.symm⟩, ?_⟩
  unfold churnLimitOf
  exact congrArg (getChurnLimit cfg) hactive

variable (cfg) in
theorem setExit_last : lastExit (setExit cfg s index (lastExit s)) = lastExit s ∧
    lastChurn (setExit cfg s index (lastExit s)) = lastChurn s + 1 := by
  have hlast := lastExit_setExit cfg hv hfar (lastExit_ne_far s)
  rw [max_self] at hlast
  refine ⟨hlast, ?_⟩
  unfold lastChurn
  rw [hlast, (exitsOf_setExit hv hfar (lastExit_ne_far s)).count_eq, List.count_cons_self]

variable (cfg) in
theorem setExit_next : lastExit (setExit cfg s index (lastExit s + 1)) = lastExit s + 1 ∧
    lastChurn (setExit cfg s index (lastExit s + 1)) = 1 := by
  have hne : lastExit s + 1 ≠ FAR_FUTURE_EPOCH := by
    intro h
    exact lastExit_ne_far s (by simpa [FAR_FUTURE_EPOCH] using h)
  have hlast := lastExit_setExit cfg hv hfar hne
  rw [max_eq_right (le_of_lt (lastExit_lt_succ s))] at hlast
  refine ⟨hlast, ?_⟩
  unfold lastChurn
  rw [hlast, (exitsOf_setExit hv hfar hne).count_eq, List.count_cons_self, count_eq_zero_of_latest_lt (lastExit_lt_succ s)]

theorem initiate_first (hctx : ExitContext s) :
    initiateValidatorExit cfg s index .empty =
      let found := if lastExit s = firstExit s then lastChurn s else lastChurn s - 1
      if churnLimitOf cfg s ≤ found then
        .ok (setExit cfg s index (lastExit s + 1), ⟨some (lastExit s + 1), some 1, some (churnLimitOf cfg s)⟩)
      else .ok (setExit cfg s index (lastExit s), ⟨some (lastExit s), some found, some (churnLimitOf cfg s)⟩) := by
  have hstart := exitQueueFrom_start s
  generalize (if lastExit s = firstExit s then lastChurn s else lastChurn s - 1) = found at hstart ⊢
  unfold firstExit at hstart
  unfold initiateValidatorExit nextExitEpoch
  rw [getAt_eq_ok.2 hv, hctx.epoch, hctx.active]
  simp only [bind, Except.bind, hfar, ne_eq, not_true_eq_false, if_false, ValidatorExitCache.empty, pure, Except.pure, hstart]
  unfold churnLimitOf
  split <;> rfl

theorem initiate_next (epoch : ℕ∞) (churn limit : Nat) :
    initiateValidatorExit cfg s index ⟨some epoch, some churn, some limit⟩ =
      if limit ≤ churn + 1 then .ok (setExit cfg s index (epoch + 1), ⟨some (epoch + 1), some 0, some limit⟩)
      else .ok (setExit cfg s index epoch, ⟨some epoch, some (churn + 1), some limit⟩) := by
  unfold initiateValidatorExit nextExitEpoch
  rw [getAt_eq_ok.2 hv]
  simp only [bind, Except.bind, hfar, ne_eq, not_true_eq_false, if_false, pure, Except.pure]
  split <;> rfl

end Exit

theorem initiateValidatorExit_cases {s s' : CachedBeaconState P} {cache cache' : ValidatorExitCache}
    (h : initiateValidatorExit cfg s index cache = .ok (s', cache')) : ∃ v, s.validators[index]? = some v ∧
      (v.exitEpoch = FAR_FUTURE_EPOCH ∨ (v.exitEpoch ≠ FAR_FUTURE_EPOCH ∧ s' = s ∧ cache' = cache)) := by
  obtain ⟨v, hv, h⟩ := bind_eq_ok.1 h
  refine ⟨v, getAt_eq_ok.1 hv, ?_⟩
  by_cases hfar : v.exitEpoch = FAR_FUTURE_EPOCH
  · exact .inl hfar
  · rw [if_pos hfar] at h
    have heq := pure_eq_ok.1 h
    exact .inr ⟨hfar, (congrArg Prod.fst heq).symm, (congrArg Prod.snd heq).symm⟩

theorem spec_exiting (hv : s.validators[index]? = some v) (hexit : v.exitEpoch ≠ FAR_FUTURE_EPOCH) :
    specInitiateValidatorExit cfg s index = .ok s := by
  unfold specInitiateValidatorExit
  rw [getAt_eq_ok.2 hv]
  simp only [bind, Except.bind, if_pos hexit]
  rfl

section Follows

variable {s s' : CachedBeaconState P} {cache cache' : ValidatorExitCache} {index : Nat} {v : Validator} {lag : Lag}

theorem currentEpoch_lt_next (s : CachedBeaconState P) : (getCurrentEpoch s.toBeaconState : ℕ∞) < lastExit s + 1 :=
  lt_trans (currentEpoch_lt_lastExit s) (lastExit_lt_succ s)

variable {churn : Nat}

section

variable (hv : s.validators[index]? = some v) (hfar : v.exitEpoch = FAR_FUTURE_EPOCH) (hctx : ExitContext s)
include hv hfar hctx

theorem follows_last (hcount : lag.Count churn (lastChurn s + 1)) :
    Follows cfg lag (setExit cfg s index (lastExit s), ⟨some (lastExit s), some churn, some (churnLimitOf cfg s)⟩) := by
  obtain ⟨hctx', hlimit⟩ := setExit_context cfg hv hfar hctx (currentEpoch_lt_lastExit s)
  obtain ⟨hlast, hchurn⟩ := setExit_last cfg hv hfar
  refine ⟨hctx', churn, ?_, ?_⟩
  · dsimp only
    rw [hlast, hlimit]
  · dsimp only
    rw [hchurn]
    exact hcount

theorem follows_next (hcount : lag.Count churn 1) : Follows cfg lag (setExit cfg s index (lastExit s + 1),
      ⟨some (lastExit s + 1), some churn, some (churnLimitOf cfg s)⟩) := by
  obtain ⟨hctx', hlimit⟩ := setExit_context cfg hv hfar hctx (currentEpoch_lt_next s)
  obtain ⟨hlast, hchurn⟩ := setExit_next cfg hv hfar
  refine ⟨hctx', churn, ?_, ?_⟩
  · dsimp only
    rw [hlast, hlimit]
  · dsimp only
    rw [hchurn]
    exact hcount

end

theorem Follows.step (hfollows : Follows cfg lag (s, cache)) (hv : s.validators[index]? = some v)
    (hfar : v.exitEpoch = FAR_FUTURE_EPOCH) (h : initiateValidatorExit cfg s index cache = .ok (s', cache')) (n : Nat) :
    (specInitiateValidatorExit cfg s index = .ok s' ∧ churnLimitOf cfg s' = churnLimitOf cfg s ∧ ∃ lag',
      Follows cfg lag' (s', cache') ∧ (lag'.Holds (lastChurn s') n (churnLimitOf cfg s) ↔
        lag.Holds (lastChurn s) (n + 1) (churnLimitOf cfg s))) ∨
    (specInitiateValidatorExit cfg s index ≠ .ok s' ∧ ¬ lag.Holds (lastChurn s) (n + 1) (churnLimitOf cfg s)) := by
  obtain ⟨hctx, churn, hcache, hcount⟩ := hfollows
  dsimp only at hctx hcache hcount
  rw [hcache, initiate_next hv hfar] at h
  have hspec := spec_eq cfg hv hfar
  have hlastChurn := (setExit_last cfg hv hfar).2
  by_cases hcode : churnLimitOf cfg s ≤ churn + 1
  · rw [if_pos hcode] at h
    cases h
    by_cases hfull : churnLimitOf cfg s ≤ lastChurn s
    · -- both go on to the next epoch, and the count is right from there on
      rw [if_pos hfull] at hspec
      refine .inl ⟨hspec, (setExit_context cfg hv hfar hctx (currentEpoch_lt_next s)).2, .inSync,
        follows_next hv hfar hctx rfl, ?_⟩
      cases lag <;> simp only [Lag.Holds, Lag.Count, true_iff] at hcount ⊢ <;> omega
    · rw [if_neg hfull] at hspec
      refine .inr ⟨fun hsame => ?_, ?_⟩
      · rw [hspec] at hsame
        exact setExit_ne hv (ne_of_lt (lastExit_lt_succ s)) (Except.ok.inj hsame)
      · cases lag <;> simp only [Lag.Holds, Lag.Count] at hcount ⊢ <;> omega
  · rw [if_neg hcode] at h
    cases h
    by_cases hfull : churnLimitOf cfg s ≤ lastChurn s
    · rw [if_pos hfull] at hspec
      refine .inr ⟨fun hsame => ?_, ?_⟩
      · rw [hspec] at hsame
        exact setExit_ne hv (ne_of_gt (lastExit_lt_succ s)) (Except.ok.inj hsame)
      · cases lag <;> simp only [Lag.Holds, Lag.Count] at hcount ⊢ <;> omega
    · -- both stay at the end of the queue, with the same lag
      rw [if_neg hfull] at hspec
      have hcount' : lag.Count (churn + 1) (lastChurn s + 1) := by
        cases lag <;> simp only [Lag.Count] at hcount ⊢ <;> omega
      refine .inl ⟨hspec, (setExit_context cfg hv hfar hctx (currentEpoch_lt_lastExit s)).2, lag,
        follows_last hv hfar hctx hcount', ?_⟩
      cases lag <;> simp only [Lag.Holds, Lag.Count] at hcount ⊢ <;> omega

theorem sets_iff (hv : s.validators[index]? = some v) :
    ExitCall.sets (⟨s, index, s'⟩ : ExitCall P) = true ↔ v.exitEpoch = FAR_FUTURE_EPOCH := by
  simp [ExitCall.sets, hv]

theorem agrees_of_follows {work work' : CachedBeaconState P × ValidatorExitCache} {calls : List (ExitCall P)}
    (hrun : ExitRun cfg work calls work') : ∀ {lag : Lag}, Follows cfg lag work →
      (Agrees cfg calls ↔ lag.Holds (lastChurn work.1) (calls.countP ExitCall.sets) (churnLimitOf cfg work.1)) := by
  induction hrun with
  | done work =>
    intro lag hfollows
    have hnil : Agrees cfg ([] : List (ExitCall P)) := fun call hcall => absurd hcall List.not_mem_nil
    refine iff_of_true hnil ?_
    rw [List.countP_nil]
    cases lag <;> simp only [Lag.Holds] <;> omega
  | other hkeeps rest ih =>
    intro lag hfollows
    obtain ⟨-, hlast, hchurn⟩ := hkeeps.queue
    obtain ⟨hctx, churn, hcache, hcount⟩ := hfollows
    dsimp only at hctx hcache hcount ih ⊢
    rw [← hchurn, ← hkeeps.churnLimitOf cfg]
    refine ih ⟨hkeeps.exitContext hctx, churn, ?_, ?_⟩
    · dsimp only
      rw [hcache, hlast, hkeeps.churnLimitOf]
    · dsimp only
      rw [hchurn]
      exact hcount
  | @call s s' cache cache' index calls work h rest ih =>
    intro lag hfollows
    obtain ⟨v, hv, hfar | ⟨hexit, rfl, rfl⟩⟩ := initiateValidatorExit_cases h
    · rw [List.countP_cons_of_pos ((sets_iff hv).2 hfar)]
      unfold Agrees
      rw [List.forall_mem_cons]
      rcases hfollows.step hv hfar h (calls.countP ExitCall.sets) with ⟨hspec, hlimit, lag', hfollows', hholds⟩ | ⟨hspec, hnot⟩
      · have hrest := ih hfollows'
        rw [hlimit, hholds] at hrest
        rw [← hrest]
        exact and_iff_right hspec
      · exact iff_of_false (fun hagrees => hspec hagrees.1) hnot
    · rw [List.countP_cons_of_neg (mt (sets_iff hv).1 hexit), ← ih hfollows]
      unfold Agrees
      rw [List.forall_mem_cons]
      exact and_iff_right (spec_exiting hv hexit)

end Follows

/-! ## A whole block -/

section Block

variable {s s' : CachedBeaconState P} {cache cache' : ValidatorExitCache} {index : Nat} {v : Validator}

/-- **The first exit that a block sets** and what the cache then knows: nothing is wrong yet, unless the epoch the code finds is
full and the one missing in its count makes it look free. -/
theorem first_step (hctx : ExitContext s) (hv : s.validators[index]? = some v) (hfar : v.exitEpoch = FAR_FUTURE_EPOCH)
    (h : initiateValidatorExit cfg s index .empty = .ok (s', cache')) :
    (specInitiateValidatorExit cfg s index = .ok s' ∧ churnLimitOf cfg s' = churnLimitOf cfg s ∧ ∃ lag,
      Follows cfg lag (s', cache') ∧ ∀ n, 0 < churnLimitOf cfg s →
        (lag.Holds (lastChurn s') n (churnLimitOf cfg s) ↔ CountsRight cfg s (n + 1))) ∨
    (specInitiateValidatorExit cfg s index ≠ .ok s' ∧ ∀ n, ¬ CountsRight cfg s (n + 1)) := by
  have hlastChurn := (setExit_last cfg hv hfar).2
  have hnextChurn := (setExit_next cfg hv hfar).2
  have hspec := spec_eq cfg hv hfar
  rw [initiate_first hv hfar hctx] at h
  unfold CountsRight
  by_cases hstart : lastExit s = firstExit s
  · -- the first possible epoch is counted from the start
    simp only [if_pos hstart] at h ⊢
    by_cases hfull : churnLimitOf cfg s ≤ lastChurn s
    · rw [if_pos hfull] at h hspec
      cases h
      refine .inl ⟨hspec, (setExit_context cfg hv hfar hctx (currentEpoch_lt_next s)).2, .ahead,
        follows_next hv hfar hctx rfl, fun n hpos => ?_⟩
      simp only [Lag.Holds]
      omega
    · rw [if_neg hfull] at h hspec
      cases h
      refine .inl ⟨hspec, (setExit_context cfg hv hfar hctx (currentEpoch_lt_lastExit s)).2, .inSync,
        follows_last hv hfar hctx rfl, fun n hpos => ?_⟩
      simp only [Lag.Holds, true_iff]
      omega
  · have hpos := lastChurn_pos hstart
    simp only [if_neg hstart] at h ⊢
    by_cases hfull : churnLimitOf cfg s ≤ lastChurn s - 1
    · rw [if_pos hfull] at h
      rw [if_pos (show churnLimitOf cfg s ≤ lastChurn s by omega)] at hspec
      cases h
      refine .inl ⟨hspec, (setExit_context cfg hv hfar hctx (currentEpoch_lt_next s)).2, .ahead,
        follows_next hv hfar hctx rfl, fun n hlimit => ?_⟩
      rw [hnextChurn, if_pos (show churnLimitOf cfg s < lastChurn s by omega)]
      simp only [Lag.Holds]
      omega
    · rw [if_neg hfull] at h
      cases h
      by_cases hexact : churnLimitOf cfg s ≤ lastChurn s
      · -- the epoch is full, and the code puts one more there
        rw [if_pos hexact] at hspec
        refine .inr ⟨fun hsame => ?_, fun n => ?_⟩
        · rw [hspec] at hsame
          exact setExit_ne hv (ne_of_gt (lastExit_lt_succ s)) (Except.ok.inj hsame)
        · rw [if_neg (show ¬ churnLimitOf cfg s < lastChurn s by omega)]
          omega
      · rw [if_neg hexact] at hspec
        refine .inl ⟨hspec, (setExit_context cfg hv hfar hctx (currentEpoch_lt_lastExit s)).2, .behind,
          follows_last hv hfar hctx (show lastChurn s - 1 + 2 = lastChurn s + 1 by omega), fun n hlimit => ?_⟩
        rw [hlastChurn, if_neg (show ¬ churnLimitOf cfg s < lastChurn s by omega)]
        simp only [Lag.Holds]
        omega

theorem churn_of_spec (hv : s.validators[index]? = some v) (hfar : v.exitEpoch = FAR_FUTURE_EPOCH)
    (hspec : specInitiateValidatorExit cfg s index = .ok s') :
    lastChurn s' ≤ churnLimitOf cfg s ↔ 0 < churnLimitOf cfg s := by
  rw [spec_eq cfg hv hfar] at hspec
  by_cases hfull : churnLimitOf cfg s ≤ lastChurn s
  · rw [if_pos hfull] at hspec
    rw [← Except.ok.inj hspec, (setExit_next cfg hv hfar).2, Nat.one_le_iff_ne_zero, Nat.pos_iff_ne_zero]
  · rw [if_neg hfull] at hspec
    rw [← Except.ok.inj hspec, (setExit_last cfg hv hfar).2]
    omega

theorem context_of_spec (hctx : ExitContext s) (hv : s.validators[index]? = some v) (hfar : v.exitEpoch = FAR_FUTURE_EPOCH)
    (hspec : specInitiateValidatorExit cfg s index = .ok s') : ExitContext s' ∧ churnLimitOf cfg s' = churnLimitOf cfg s := by
  rw [spec_eq cfg hv hfar] at hspec
  rw [← Except.ok.inj hspec]
  split
  · exact setExit_context cfg hv hfar hctx (currentEpoch_lt_next s)
  · exact setExit_context cfg hv hfar hctx (currentEpoch_lt_lastExit s)

theorem bounded_of_agrees {work work' : CachedBeaconState P × ValidatorExitCache} {calls : List (ExitCall P)}
    (hrun : ExitRun cfg work calls work') : ExitContext work.1 → 0 < churnLimitOf cfg work.1 → Agrees cfg calls →
      Bounded cfg calls := by
  induction hrun with
  | done work => exact fun _ _ _ call hcall => absurd hcall List.not_mem_nil
  | other hkeeps rest ih =>
    intro hctx hpos hagrees
    exact ih (hkeeps.exitContext hctx) (by rw [hkeeps.churnLimitOf]; exact hpos) hagrees
  | @call s s' cache cache' index calls work h rest ih =>
    intro hctx hpos hagrees
    unfold Agrees at hagrees
    rw [List.forall_mem_cons] at hagrees
    obtain ⟨hspec, hagrees⟩ := hagrees
    obtain ⟨v, hv, hfar | ⟨hexit, rfl, rfl⟩⟩ := initiateValidatorExit_cases h
    · obtain ⟨hctx', hlimit⟩ := context_of_spec hctx hv hfar hspec
      refine List.forall_mem_cons.2 ⟨fun _ => (churn_of_spec hv hfar hspec).2 hpos, ih hctx' ?_ hagrees⟩
      rw [hlimit]
      exact hpos
    · exact List.forall_mem_cons.2 ⟨fun hsets => absurd ((sets_iff hv).1 hsets) hexit, ih hctx hpos hagrees⟩

/-- **The exits of a block are right** if and only if the end of the queue before the block and their number allow it. -/
theorem rightExits_iff {work work' : CachedBeaconState P × ValidatorExitCache} {calls : List (ExitCall P)}
    (hrun : ExitRun cfg work calls work') : work.2 = .empty → ExitContext work.1 →
      (Agrees cfg calls ∧ Bounded cfg calls ↔ CountsRight cfg work.1 (calls.countP ExitCall.sets)) := by
  induction hrun with
  | done work =>
    intro _ _
    exact iff_of_true ⟨fun call hcall => absurd hcall List.not_mem_nil, fun call hcall => absurd hcall List.not_mem_nil⟩ (.inl rfl)
  | other hkeeps rest ih =>
    intro hempty hctx
    obtain ⟨hfirst, hlast, hchurn⟩ := hkeeps.queue
    rw [ih hempty (hkeeps.exitContext hctx)]
    unfold CountsRight
    rw [hfirst, hlast, hchurn, hkeeps.churnLimitOf]
  | @call s s' cache cache' index calls work h rest ih =>
    intro hempty hctx
    subst hempty
    have hcons : Agrees cfg (⟨s, index, s'⟩ :: calls) ∧ Bounded cfg (⟨s, index, s'⟩ :: calls) ↔
        (specInitiateValidatorExit cfg s index = .ok s' ∧ Agrees cfg calls) ∧
          ((ExitCall.sets ⟨s, index, s'⟩ = true → lastChurn s' ≤ churnLimitOf cfg s) ∧ Bounded cfg calls) := by
      unfold Agrees Bounded
      rw [List.forall_mem_cons, List.forall_mem_cons]
    rw [hcons]
    obtain ⟨v, hv, hfar | ⟨hexit, rfl, rfl⟩⟩ := initiateValidatorExit_cases h
    · have hsets := (@sets_iff P s s' index v hv).2 hfar
      rw [List.countP_cons_of_pos hsets]
      rcases first_step hctx hv hfar h with ⟨hspec, hlimit, lag, hfollows, hholds⟩ | ⟨hspec, hnot⟩
      · have hrest := agrees_of_follows rest hfollows
        rw [hlimit] at hrest
        refine ⟨fun ⟨⟨_, hagrees⟩, hbound, _⟩ => ?_, fun hright => ?_⟩
        · exact (hholds _ ((churn_of_spec hv hfar hspec).1 (hbound hsets))).1 (hrest.1 hagrees)
        · have hpos : 0 < churnLimitOf cfg s := (hright.resolve_left (Nat.succ_ne_zero _)).1
          have hagrees := hrest.2 ((hholds _ hpos).2 hright)
          refine ⟨⟨hspec, hagrees⟩, fun _ => (churn_of_spec hv hfar hspec).2 hpos, ?_⟩
          exact bounded_of_agrees rest hfollows.context (hlimit ▸ hpos) hagrees
      · exact iff_of_false (fun hright => hspec hright.1.1) (hnot _)
    · have hsets := mt (@sets_iff P s' s' index v hv).1 hexit
      rw [List.countP_cons_of_neg hsets, ← ih rfl hctx]
      simp [hsets, spec_exiting hv hexit]

end Block

/-! ## Two blocks -/

def initiateExits (cfg : ChainConfig) : (indices : List Nat) → CachedBeaconState P × ValidatorExitCache →
    Except String (List (ExitCall P) × (CachedBeaconState P × ValidatorExitCache))
  | [], work => .ok ([], work)
  | index :: indices, (s, cache) => do
    let (s', cache') ← initiateValidatorExit cfg s index cache
    let (calls, work) ← initiateExits cfg indices (s', cache')
    .ok (⟨s, index, s'⟩ :: calls, work)

theorem initiateExits_run : ∀ {indices : List Nat} {work work' : CachedBeaconState P × ValidatorExitCache} {calls : List (ExitCall P)},
    initiateExits cfg indices work = .ok (calls, work') → ExitRun cfg work calls work'
  | [], work, _, _, h => by
    cases h
    exact .done work
  | index :: indices, (s, cache), _, _, h => by
    obtain ⟨⟨s', cache'⟩, hcall, h⟩ := bind_eq_ok.1 h
    obtain ⟨⟨calls, work⟩, hrest, h⟩ := bind_eq_ok.1 h
    cases h
    exact .call hcall (initiateExits_run hrest)

/-- Nine validators of a minimal network in epoch 1: the first possible exit is in epoch 6 and the churn limit 4. -/
def nineValidators : BeaconState minimal :=
  let active := fun (byte : Nat) => ({
    pubkey := pubkeyOf (UInt8.ofNat byte), withdrawalCredentials := zeroRoot, effectiveBalance := 32000000000, slashed := false
    activationEligibilityEpoch := 0, activationEpoch := 0, exitEpoch := ⊤, withdrawableEpoch := ⊤ } : Validator)
  { awaitingDeposit with
    validators := (List.range 9).map active
    balances := List.replicate 9 32000000000
    eth1DepositIndex := 3 }

theorem rightExits_iff_eight : ∃ s₀ calls s₁ cache₁,
    createCachedBeaconState (plainEnv minimal) (minimalConfig ⊤) nineValidators noOpts = .ok s₀ ∧
    ExitRun (minimalConfig ⊤) (s₀, .empty) calls (s₁, cache₁) ∧ s₁.validators.map (·.exitEpoch) = [6, 6, 6, 6, 7, 7, 7, 7, ⊤] ∧
    Agrees (minimalConfig ⊤) calls ∧ Bounded (minimalConfig ⊤) calls := by
  have heval : (createCachedBeaconState (plainEnv minimal) (minimalConfig ⊤) nineValidators noOpts >>= fun s₀ =>
      (initiateExits (minimalConfig ⊤) (List.range 8) (s₀, .empty)).map fun run =>
        (decide (CountsRight (minimalConfig ⊤) s₀ (run.1.countP ExitCall.sets)), run.2.1.validators.map (·.exitEpoch))) =
      .ok (true, [6, 6, 6, 6, 7, 7, 7, 7, ⊤]) := by
    decide +kernel
  obtain ⟨s₀, hs₀, heval⟩ := bind_eq_ok.1 heval
  obtain ⟨⟨calls, s₁, cache₁⟩, hrun, heval⟩ := map_eq_ok.1 heval
  rw [Prod.mk.injEq, decide_eq_true_eq] at heval
  have hright := (rightExits_iff (initiateExits_run hrun) rfl (createCachedBeaconState_fresh hs₀).exitContext).2 heval.1
  exact ⟨s₀, calls, s₁, cache₁, hs₀, initiateExits_run hrun, heval.2, hright⟩

/-- Epoch 7 has as many exits as it may have, and the code puts a fifth there. -/
theorem initiateValidatorExit_overfills : ∃ s₀ calls s₁ cache₁ s₂ cache₂ specified,
    createCachedBeaconState (plainEnv minimal) (minimalConfig ⊤) nineValidators noOpts = .ok s₀ ∧
    ExitRun (minimalConfig ⊤) (s₀, .empty) calls (s₁, cache₁) ∧ ExitRun (minimalConfig ⊤) (s₁, .empty) [⟨s₁, 8, s₂⟩] (s₂, cache₂) ∧
    specInitiateValidatorExit (minimalConfig ⊤) s₁ 8 = .ok specified ∧
    [s₁, s₂, specified].map (fun s => s.validators.map (·.exitEpoch)) =
      [[6, 6, 6, 6, 7, 7, 7, 7, ⊤], [6, 6, 6, 6, 7, 7, 7, 7, 7], [6, 6, 6, 6, 7, 7, 7, 7, 8]] ∧
    [churnLimitOf (minimalConfig ⊤) s₁, lastChurn s₂] = [4, 5] := by
  have heval : (createCachedBeaconState (plainEnv minimal) (minimalConfig ⊤) nineValidators noOpts >>= fun s₀ =>
      initiateExits (minimalConfig ⊤) (List.range 8) (s₀, .empty) >>= fun run =>
      initiateValidatorExit (minimalConfig ⊤) run.2.1 8 .empty >>= fun work =>
      (specInitiateValidatorExit (minimalConfig ⊤) run.2.1 8).map fun specified =>
        ([run.2.1, work.1, specified].map (fun s => s.validators.map (·.exitEpoch)),
          [churnLimitOf (minimalConfig ⊤) run.2.1, lastChurn work.1])) =
      .ok ([[6, 6, 6, 6, 7, 7, 7, 7, ⊤], [6, 6, 6, 6, 7, 7, 7, 7, 7], [6, 6, 6, 6, 7, 7, 7, 7, 8]], [4, 5]) := by
    decide +kernel
  obtain ⟨s₀, hs₀, heval⟩ := bind_eq_ok.1 heval
  obtain ⟨⟨calls, s₁, cache₁⟩, hrun, heval⟩ := bind_eq_ok.1 heval
  obtain ⟨⟨s₂, cache₂⟩, hexit, heval⟩ := bind_eq_ok.1 heval
  obtain ⟨specified, hspec, heval⟩ := map_eq_ok.1 heval
  rw [Prod.mk.injEq] at heval
  exact ⟨s₀, calls, s₁, cache₁, s₂, cache₂, specified, hs₀, initiateExits_run hrun, .call hexit (.done _), hspec, heval⟩

/-! ## The exits of a block -/

section BlockExits

variable {s s' : CachedBeaconState P} {cache cache' : ValidatorExitCache} {verify : Bool}

theorem KeepsExits.of_eq (hslot : s'.slot = s.slot) (hctx : s'.epochCtx.currentShuffling = s.epochCtx.currentShuffling)
    (hvalidators : s'.validators.map (fun v => (v.activationEpoch, v.exitEpoch)) =
      s.validators.map (fun v => (v.activationEpoch, v.exitEpoch))) : KeepsExits s s' :=
  ⟨hslot, hctx, 0, by rw [hvalidators, List.replicate_zero, List.append_nil]⟩

theorem KeepsExits.refl (s : CachedBeaconState P) : KeepsExits s s := .of_eq rfl rfl rfl

theorem KeepsExits.trans {s₁ s₂ s₃ : CachedBeaconState P} (h : KeepsExits s₁ s₂) (h' : KeepsExits s₂ s₃) : KeepsExits s₁ s₃ := by
  obtain ⟨joined, hjoined⟩ := h.validators
  obtain ⟨joined', hjoined'⟩ := h'.validators
  refine ⟨h'.slot.trans h.slot, h'.currentShuffling.trans h.currentShuffling, joined + joined', ?_⟩
  rw [hjoined', hjoined, List.append_assoc, List.replicate_append_replicate]

theorem KeepsExits.updateValidator {index : Nat} {change : Validator → Validator}
    (h : ∀ v, (change v).activationEpoch = v.activationEpoch ∧ (change v).exitEpoch = v.exitEpoch) :
    KeepsExits s (StateTransition.updateValidator s index change) := by
  refine .of_eq rfl rfl ?_
  unfold StateTransition.updateValidator
  refine List.ext_getElem? fun i => ?_
  rw [List.getElem?_map, List.getElem?_map, List.getElem?_modify]
  cases s.validators[i]? with
  | none => rfl
  | some v =>
    by_cases hi : index = i
    · simp [hi, h v]
    · simp [hi]

theorem processAttestation_keepsExits {attestation : Attestation} (h : processAttestation env fork s attestation verify = .ok s') :
    KeepsExits s s' := by
  obtain ⟨_, _, _, _, _, -, -, -, rfl⟩ := processAttestation_writes h
  exact .of_eq rfl rfl rfl

def Exits (cfg : ChainConfig) (work work' : CachedBeaconState P × ValidatorExitCache) : Prop :=
  ∃ calls, ExitRun cfg work calls work'

theorem Exits.refl (work : CachedBeaconState P × ValidatorExitCache) : Exits cfg work work := ⟨[], .done work⟩

variable {work₁ work₂ work₃ : CachedBeaconState P × ValidatorExitCache}

theorem ExitRun.append {calls calls' : List (ExitCall P)} (h : ExitRun cfg work₁ calls work₂) (h' : ExitRun cfg work₂ calls' work₃) :
    ExitRun cfg work₁ (calls ++ calls') work₃ := by
  induction h with
  | done work => exact h'
  | call hcall rest ih => exact .call hcall (ih h')
  | other hkeeps rest ih => exact .other hkeeps (ih h')

theorem Exits.trans (h : Exits cfg work₁ work₂) (h' : Exits cfg work₂ work₃) : Exits cfg work₁ work₃ := by
  obtain ⟨calls, hcalls⟩ := h
  obtain ⟨calls', hcalls'⟩ := h'
  exact ⟨calls ++ calls', hcalls.append hcalls'⟩

theorem Exits.of_keeps (h : KeepsExits s s') : Exits cfg (s, cache) (s', cache) := ⟨[], .other h (.done _)⟩

variable {work work' : CachedBeaconState P × ValidatorExitCache}

theorem BlockWrite.exits (h : BlockWrite env cfg work work') :
    Exits cfg work work' := by
  cases h with
  | @exit s s' cache cache' index hexit => exact ⟨[⟨s, index, s'⟩], .call hexit (.done _)⟩
  | slashing s cache index withdrawableEpoch slashings =>
    have hslashed : KeepsExits s (updateValidator s index fun v => { v with
        slashed := true, withdrawableEpoch := withdrawableEpoch v }) := KeepsExits.updateValidator fun v => ⟨rfl, rfl⟩
    exact .of_keeps (hslashed.trans (.of_eq rfl rfl rfl))
  | balances => exact .of_keeps (.of_eq rfl rfl rfl)
  | depositIndex => exact .of_keeps (.of_eq rfl rfl rfl)
  -- the validator that joins has neither been activated nor is it leaving
  | deposit s cache hkey hctx => exact .of_keeps ⟨rfl, hctx.currentShuffling, 1, by simp [depositValidator]⟩

theorem BlockWrites.exits (h : BlockWrites env cfg work work') : Exits cfg work work' :=
  h.keeps Exits.refl (fun _ _ _ => Exits.trans) fun _ _ => BlockWrite.exits

/-- **The operations of a block are a run of exits**: whatever the block brings, an exit epoch is only written by a call of
`initiateValidatorExit`, and all these calls share the one cache. -/
theorem processOperations_exits {body : BeaconBlockBody} (h : processOperations env cfg fork s body verify = .ok s') :
    ∃ cache', Exits cfg (s, .empty) (s', cache') := by
  obtain ⟨t, t', cache, cache', hslashings, hattestations, hwrites⟩ := processOperations_writes h
  have hattested : KeepsExits t t' := foldlM_keeps KeepsExits.refl (fun _ _ _ => KeepsExits.trans) _
    (fun op _ s s' hop => processAttestation_keepsExits hop) _ _ hattestations
  exact ⟨cache', ((applySlashings_writes hslashings).exits.trans (.of_keeps hattested)).trans hwrites.exits⟩

end BlockExits

/-- The first eight validators have each signed two headers. -/
def slashingBody : BeaconBlockBody :=
  let header := fun (proposerIndex : Nat) => ({
    slot := 8, proposerIndex := proposerIndex, parentRoot := zeroRoot, stateRoot := zeroRoot, bodyRoot := zeroRoot } : BeaconBlockHeader)
  let sign := fun (header : BeaconBlockHeader) => (⟨header, Vector.replicate 96 0⟩ : SignedBeaconBlockHeader)
  { depositBlock.message.body with
    deposits := []
    proposerSlashings := (List.range 8).map fun i => ⟨sign (header i), sign { header i with bodyRoot := Vector.replicate 32 1 }⟩ }

theorem processOperations_exits_slashing : ∃ s₀ s' cache',
    createCachedBeaconState (plainEnv minimal) (minimalConfig ⊤) nineValidators noOpts = .ok s₀ ∧
    processOperations (plainEnv minimal) (minimalConfig ⊤) .phase0 s₀ slashingBody false = .ok s' ∧
    s'.validators.map (·.exitEpoch) = [6, 6, 6, 6, 7, 7, 7, 7, ⊤] ∧ Exits (minimalConfig ⊤) (s₀, .empty) (s', cache') := by
  have heval : (createCachedBeaconState (plainEnv minimal) (minimalConfig ⊤) nineValidators noOpts >>= fun s₀ =>
      (processOperations (plainEnv minimal) (minimalConfig ⊤) .phase0 s₀ slashingBody false).map fun s => s.validators.map (·.exitEpoch)) =
      .ok [6, 6, 6, 6, 7, 7, 7, 7, ⊤] := by
    decide +kernel
  obtain ⟨s₀, hs₀, heval⟩ := bind_eq_ok.1 heval
  obtain ⟨s', hs', hexits⟩ := map_eq_ok.1 heval
  obtain ⟨cache', hrun⟩ := processOperations_exits hs'
  exact ⟨s₀, s', cache', hs₀, hs', hexits, hrun⟩

end Lodestar.StateTransition
