import Mathlib.Logic.Relation
import Lodestar.StateTransition.Block
/-!
# BlockWrites — what the operations of a block write

An attestation records votes and pays its proposer.  Every other operation is a chain of writes of five kinds: an exit, the mark
of a slashing, the balances, the index of the deposits and the validator of a deposit.  So is the sync aggregate.  What a block
keeps is then one case for each.
-/
namespace Lodestar.StateTransition

open Lib

variable {P : Preset} {env : Env P} {cfg : ChainConfig} {fork : ForkName} {s s' : CachedBeaconState P}
  {cache cache' : ValidatorExitCache} {verify : Bool}

/-! ## The writes -/

def SameButKeys (ctx ctx' : EpochContext) : Prop :=
  ∃ pubkey2index index2pubkey, ctx' = { ctx with pubkey2index := pubkey2index, index2pubkey := index2pubkey }

theorem SameButKeys.refl (ctx : EpochContext) : SameButKeys ctx ctx := ⟨_, _, rfl⟩

theorem SameButKeys.trans {ctx₁ ctx₂ ctx₃ : EpochContext} (h : SameButKeys ctx₁ ctx₂) (h' : SameButKeys ctx₂ ctx₃) :
    SameButKeys ctx₁ ctx₃ := by
  obtain ⟨_, _, rfl⟩ := h
  obtain ⟨_, _, rfl⟩ := h'
  exact ⟨_, _, rfl⟩

theorem SameButKeys.currentShuffling {ctx ctx' : EpochContext} (h : SameButKeys ctx ctx') :
    ctx'.currentShuffling = ctx.currentShuffling := by
  obtain ⟨_, _, rfl⟩ := h
  rfl

inductive BlockWrite (env : Env P) (cfg : ChainConfig) :
    CachedBeaconState P × ValidatorExitCache → CachedBeaconState P × ValidatorExitCache → Prop
  | exit {state state' : CachedBeaconState P} {cache cache' : ValidatorExitCache} {index : Nat}
      (h : initiateValidatorExit cfg state index cache = .ok (state', cache')) : BlockWrite env cfg (state, cache) (state', cache')
  | slashing (state : CachedBeaconState P) (cache : ValidatorExitCache) (index : Nat) (withdrawableEpoch : Validator → ℕ∞)
      (slashings : Vector Nat P.EPOCHS_PER_SLASHINGS_VECTOR) :
    BlockWrite env cfg (state, cache) ({ updateValidator state index fun v => { v with
      slashed := true, withdrawableEpoch := withdrawableEpoch v } with slashings := slashings }, cache)
  | balances (state : CachedBeaconState P) (cache : ValidatorExitCache) {balances : List Nat}
      (hlength : balances.length = state.balances.length) :
    BlockWrite env cfg (state, cache) ({ state with balances := balances }, cache)
  | depositIndex (state : CachedBeaconState P) (cache : ValidatorExitCache) (eth1DepositIndex : Nat) :
    BlockWrite env cfg (state, cache) ({ state with eth1DepositIndex := eth1DepositIndex }, cache)
  | deposit (state : CachedBeaconState P) (cache : ValidatorExitCache) {data : DepositData} {epochCtx : EpochContext}
      (hkey : env.publicKeyFromBytes data.pubkey true = true) (hctx : SameButKeys state.epochCtx epochCtx)
      (inactivityScores : List Nat) :
    BlockWrite env cfg (state, cache) ({ state with
      validators := state.validators ++ [depositValidator P data]
      balances := state.balances ++ [data.amount]
      previousEpochParticipation := state.previousEpochParticipation ++ [emptyParticipationStatus]
      currentEpochParticipation := state.currentEpochParticipation ++ [emptyParticipationStatus]
      inactivityScores := inactivityScores
      epochCtx := epochCtx }, cache)

abbrev BlockWrites (env : Env P) (cfg : ChainConfig) :
    CachedBeaconState P × ValidatorExitCache → CachedBeaconState P × ValidatorExitCache → Prop :=
  Relation.ReflTransGen (BlockWrite env cfg)

namespace BlockWrites

variable {work work' : CachedBeaconState P × ValidatorExitCache}

theorem keeps {R : CachedBeaconState P × ValidatorExitCache → CachedBeaconState P × ValidatorExitCache → Prop}
    (refl : ∀ work, R work work) (trans : ∀ a b c, R a b → R b c → R a c)
    (hwrite : ∀ work work', BlockWrite env cfg work work' → R work work') (h : BlockWrites env cfg work work') : R work work' := by
  induction h with
  | refl => exact refl work
  | tail _ hlast ih => exact trans _ _ _ ih (hwrite _ _ hlast)

variable {Operation : Type} {operations : List Operation}

theorem loop {processOp : CachedBeaconState P × ValidatorExitCache → Operation →
      Except String (CachedBeaconState P × ValidatorExitCache)}
    (hop : ∀ work op work', processOp work op = .ok work' → BlockWrites env cfg work work')
    (h : operations.foldlM processOp work = .ok work') : BlockWrites env cfg work work' :=
  foldlM_keeps (fun _ => .refl) (fun _ _ _ => .trans) operations (fun op _ work work' => hop work op work') _ _ h

theorem stateLoop {processOp : CachedBeaconState P → Operation → Except String (CachedBeaconState P)}
    (hop : ∀ s op s', processOp s op = .ok s' → BlockWrites env cfg (s, cache) (s', cache))
    (h : operations.foldlM processOp s = .ok s') : BlockWrites env cfg (s, cache) (s', cache) :=
  foldlM_keeps (R := fun s s' => BlockWrites env cfg (s, cache) (s', cache)) (fun _ => .refl) (fun _ _ _ => .trans) operations
    (fun op _ s s' => hop s op s') _ _ h

end BlockWrites

/-! ## Balances -/

variable {index delta : Nat}

theorem increaseBalance_ok (h : increaseBalance s index delta = .ok s') :
    ∃ balances, balances.length = s.balances.length ∧ s' = { s with balances := balances } := by
  unfold increaseBalance at h
  simp only [bind_eq_ok, pure_eq_ok, modifyAt_eq_ok] at h
  obtain ⟨balances, ⟨-, rfl⟩, rfl⟩ := h
  exact ⟨_, List.length_modify _ _ _, rfl⟩

theorem increaseBalance_writes (h : increaseBalance s index delta = .ok s') :
    BlockWrites env cfg (s, cache) (s', cache) := by
  obtain ⟨balances, hlength, rfl⟩ := increaseBalance_ok h
  exact .single (.balances s cache hlength)

theorem decreaseBalance_ok (h : decreaseBalance s index delta = .ok s') :
    ∃ balances, balances.length = s.balances.length ∧ s' = { s with balances := balances } := by
  unfold decreaseBalance at h
  simp only [bind_eq_ok, pure_eq_ok, modifyAt_eq_ok] at h
  obtain ⟨balances, ⟨-, rfl⟩, rfl⟩ := h
  exact ⟨_, List.length_modify _ _ _, rfl⟩

theorem decreaseBalance_writes (h : decreaseBalance s index delta = .ok s') :
    BlockWrites env cfg (s, cache) (s', cache) := by
  obtain ⟨balances, hlength, rfl⟩ := decreaseBalance_ok h
  exact .single (.balances s cache hlength)

/-! ## Slashings and exits -/

theorem slashValidator_writes {index : Nat} {whistleblower : Option Nat}
    (h : slashValidatorAllForks cfg fork s index cache whistleblower = .ok (s', cache')) :
    BlockWrites env cfg (s, cache) (s', cache') := by
  unfold slashValidatorAllForks at h
  simp only [bind_eq_ok, pure_eq_ok, Prod.mk.injEq, Prod.exists] at h
  obtain ⟨s₁, cache₁, hexit, validator, -, s₂, hdecrease, proposer, -, proposerIndex, -, s₃, hincrease, s₄, hincrease', rfl, rfl⟩ :=
    h
  have hrewards : BlockWrites env cfg (s₂, cache₁) (s₄, cache₁) :=
    (increaseBalance_writes hincrease).trans (increaseBalance_writes hincrease')
  have hpenalty := (decreaseBalance_writes hdecrease).trans hrewards
  exact .head (.exit hexit) (.head (.slashing s₁ cache₁ index _ _) hpenalty)

theorem processProposerSlashing_writes {proposerSlashing : ProposerSlashing}
    (h : processProposerSlashing env cfg fork s proposerSlashing cache verify = .ok (s', cache')) :
    BlockWrites env cfg (s, cache) (s', cache') := by
  obtain ⟨_, -, h⟩ := bind_eq_ok.1 h
  exact slashValidator_writes h

variable {indices : List Nat}

theorem slashEach_writes {slashedAny : Bool} (h : slashEach cfg fork s cache indices = .ok ((s', cache'), slashedAny)) :
    BlockWrites env cfg (s, cache) (s', cache') := by
  refine foldlM_keeps (R := fun acc acc' : (CachedBeaconState P × ValidatorExitCache) × Bool => BlockWrites env cfg acc.1 acc'.1)
    (fun _ => .refl) (fun _ _ _ => .trans) indices ?_ _ _ h
  intro index _ acc acc' hstep
  simp only [bind_eq_ok] at hstep
  obtain ⟨validator, -, hstep⟩ := hstep
  split at hstep
  · simp only [bind_eq_ok, pure_eq_ok] at hstep
    obtain ⟨next, hslash, rfl⟩ := hstep
    exact slashValidator_writes hslash
  · rw [pure_eq_ok] at hstep
    exact hstep ▸ .refl

theorem processAttesterSlashing_writes {attesterSlashing : AttesterSlashing}
    (h : processAttesterSlashing env cfg fork s attesterSlashing cache verify = .ok (s', cache')) :
    BlockWrites env cfg (s, cache) (s', cache') := by
  unfold processAttesterSlashing at h
  simp only [bind_eq_ok, pure_eq_ok, Prod.exists] at h
  obtain ⟨_, -, s₁, cache₁, slashedAny, hslash, _, -, hnext⟩ := h
  cases hnext
  exact slashEach_writes hslash

theorem processVoluntaryExit_writes {signedVoluntaryExit : SignedVoluntaryExit}
    (h : processVoluntaryExit env cfg s signedVoluntaryExit cache verify = .ok (s', cache')) :
    BlockWrites env cfg (s, cache) (s', cache') := by
  obtain ⟨_, -, h⟩ := bind_eq_ok.1 h
  exact .single (.exit h)

/-! ## Deposits and the sync aggregate -/

theorem processDeposit_writes {deposit : Deposit} (h : processDeposit env fork s deposit = .ok s') :
    BlockWrites env cfg (s, cache) (s', cache) := by
  unfold processDeposit at h
  simp only [bind_eq_ok] at h
  obtain ⟨_, -, _, -, h⟩ := h
  refine .head (.depositIndex s cache (s.eth1DepositIndex + 1)) ?_
  split at h
  · split at h
    · rename_i hvalid
      rw [Bool.and_eq_true] at hvalid
      unfold addValidator EpochContext.addPubkey at h
      simp only [bind_eq_ok, pure_eq_ok] at h
      obtain ⟨epochCtx, ⟨_, -, rfl⟩, rfl⟩ := h
      exact .single (.deposit _ cache hvalid.1 ⟨_, _, rfl⟩ _)
    · rw [pure_eq_ok] at h
      exact h ▸ .refl
  · exact increaseBalance_writes h

variable {block : BeaconBlock}

theorem processSyncAggregate_writes (h : processSyncAggregate env s block verify = .ok s') :
    BlockWrites env cfg (s, cache) (s', cache) := by
  unfold processSyncAggregate at h
  simp only [bind_eq_ok] at h
  obtain ⟨_, -, _, -, _, -, proposerIndex, -, s₁, h₁, s₂, h₂, h₃⟩ := h
  have hrewards : BlockWrites env cfg (s, cache) (s₁, cache) := .stateLoop (fun _ _ _ => increaseBalance_writes) h₁
  exact (hrewards.trans (increaseBalance_writes h₂)).trans (BlockWrites.stateLoop (fun _ _ _ => decreaseBalance_writes) h₃)

/-! ## Attestations -/

theorem length_addParticipation {validators : List Validator} {flags : ParticipationStatus}
    {participation : List ParticipationStatus} {work : List ParticipationStatus × Nat}
    (h : addParticipation validators flags participation indices = .ok work) : work.1.length = participation.length := by
  refine foldlM_keeps (R := fun acc acc' : List ParticipationStatus × Nat => acc'.1.length = acc.1.length) (fun _ => rfl)
    (fun _ _ _ h h' => h'.trans h) indices (fun index _ acc acc' hstep => ?_) _ _ h
  simp only [bind_eq_ok] at hstep
  obtain ⟨status, -, hstep⟩ := hstep
  split at hstep
  · simp only [bind_eq_ok, pure_eq_ok] at hstep
    obtain ⟨validator, -, rfl⟩ := hstep
    exact List.length_set
  · rw [pure_eq_ok] at hstep
    subst hstep
    exact List.length_set

theorem processAttestation_writes {attestation : Attestation} (h : processAttestation env fork s attestation verify = .ok s') :
    ∃ previousEpochAttestations currentEpochAttestations previousEpochParticipation currentEpochParticipation balances,
      previousEpochParticipation.length = s.previousEpochParticipation.length ∧
      currentEpochParticipation.length = s.currentEpochParticipation.length ∧ balances.length = s.balances.length ∧
      s' = { s with
        previousEpochAttestations := previousEpochAttestations
        currentEpochAttestations := currentEpochAttestations
        previousEpochParticipation := previousEpochParticipation
        currentEpochParticipation := currentEpochParticipation
        balances := balances } := by
  cases fork with
  | phase0 =>
    unfold processAttestation processAttestationPhase0 at h
    simp only [bind_eq_ok, pure_eq_ok] at h
    obtain ⟨_, -, proposerIndex, -, next, hnext, _, -, _, -, _, -, rfl⟩ := h
    split at hnext
    · simp only [bind_eq_ok, pure_eq_ok] at hnext
      obtain ⟨_, -, rfl⟩ := hnext
      exact ⟨_, _, _, _, _, rfl, rfl, rfl, rfl⟩
    · simp only [bind_eq_ok, pure_eq_ok] at hnext
      obtain ⟨_, -, rfl⟩ := hnext
      exact ⟨_, _, _, _, _, rfl, rfl, rfl, rfl⟩
  | altair =>
    unfold processAttestation processAttestationAltair at h
    simp only [bind_eq_ok, Prod.exists] at h
    obtain ⟨_, -, _, -, _, -, _, -, flags, -, indices, -, participation, total, hparticipation, _, -, _, -, hincrease⟩ := h
    have hlength := length_addParticipation hparticipation
    obtain ⟨balances, hbalances, rfl⟩ := increaseBalance_ok hincrease
    split at hlength
    · rename_i hcurrent
      rw [if_pos hcurrent] at hbalances ⊢
      exact ⟨_, _, _, _, _, rfl, hlength, hbalances, rfl⟩
    · rename_i hprevious
      rw [if_neg hprevious] at hbalances ⊢
      exact ⟨_, _, _, _, _, hlength, rfl, hbalances, rfl⟩

/-! ## The whole block -/

def applySlashings (env : Env P) (cfg : ChainConfig) (fork : ForkName) (body : BeaconBlockBody) (verify : Bool)
    (work : CachedBeaconState P × ValidatorExitCache) : Except String (CachedBeaconState P × ValidatorExitCache) := do
  let work ← body.proposerSlashings.foldlM (fun work op => processProposerSlashing env cfg fork work.1 op work.2 verify) work
  body.attesterSlashings.foldlM (fun work op => processAttesterSlashing env cfg fork work.1 op work.2 verify) work

variable {body : BeaconBlockBody}

theorem applySlashings_writes {work work' : CachedBeaconState P × ValidatorExitCache}
    (h : applySlashings env cfg fork body verify work = .ok work') : BlockWrites env cfg work work' := by
  obtain ⟨work₁, h₁, h₂⟩ := bind_eq_ok.1 h
  have hproposers : BlockWrites env cfg work work₁ := .loop (fun _ _ _ => processProposerSlashing_writes) h₁
  exact hproposers.trans (BlockWrites.loop (fun _ _ _ => processAttesterSlashing_writes) h₂)

theorem processOperations_writes (h : processOperations env cfg fork s body verify = .ok s') :
    ∃ t t' cache cache', applySlashings env cfg fork body verify (s, .empty) = .ok (t, cache) ∧
      body.attestations.foldlM (fun state op => processAttestation env fork state op verify) t = .ok t' ∧
      BlockWrites env cfg (t', cache) (s', cache') := by
  unfold processOperations at h
  simp only [bind_eq_ok, pure_eq_ok] at h
  obtain ⟨_, -, work₁, h₁, ⟨s₂, cache₂⟩, h₂, s₃, h₃, s₄, h₄, ⟨s₅, cache₅⟩, h₅, rfl⟩ := h
  have hdeposits : BlockWrites env cfg (s₃, cache₂) (s₄, cache₂) := .stateLoop (fun _ _ _ => processDeposit_writes) h₄
  have hexits : BlockWrites env cfg (s₄, cache₂) (s₅, cache₅) := .loop (fun _ _ _ => processVoluntaryExit_writes) h₅
  exact ⟨s₂, s₃, cache₂, cache₅, bind_eq_ok.2 ⟨work₁, h₁, h₂⟩, h₃, hdeposits.trans hexits⟩

theorem processBlockByFork_writes (h : processBlockByFork env cfg fork s block verify = .ok s') :
    ∃ s₁ s₂ t t' cache cache', processBlockHeader env cfg s block = .ok s₁ ∧ processRandao env s₁ block verify = .ok s₂ ∧
      applySlashings env cfg fork block.body verify (processEth1Data s₂ block.body, .empty) = .ok (t, cache) ∧
      block.body.attestations.foldlM (fun state op => processAttestation env fork state op verify) t = .ok t' ∧
      BlockWrites env cfg (t', cache) (s', cache') := by
  unfold processBlockByFork at h
  simp only [bind_eq_ok] at h
  obtain ⟨s₁, h₁, s₂, h₂, s₃, h₃, h₄⟩ := h
  obtain ⟨t, t', cache, cache', hslashings, hattestations, hwrites⟩ := processOperations_writes h₃
  refine ⟨s₁, s₂, t, t', cache, cache', h₁, h₂, hslashings, hattestations, hwrites.trans ?_⟩
  cases fork with
  | phase0 =>
    rw [pure_eq_ok] at h₄
    exact h₄ ▸ .refl
  | altair => exact processSyncAggregate_writes h₄

end Lodestar.StateTransition
