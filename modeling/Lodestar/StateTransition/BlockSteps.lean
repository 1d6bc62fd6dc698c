import Lodestar.StateTransition.BlockWrites
import Lodestar.StateTransition.Duties
/-!
# BlockSteps — what a block leaves of the duties of its epoch

In epoch `c`, the operations of a block write the mix of `c` only, set activations and exits after epoch `c + 1` only, append
validators that are not active, and leave every effective balance: `KeepsDuties`.  An exit of the block takes its epoch from
the end of the exit queue, which is late enough from the first exit on.
-/
namespace Lodestar.StateTransition

open Lib

variable {P : Preset} {env : Env P} {cfg : ChainConfig} {fork : ForkName} {c : Nat} {s s' s'' : CachedBeaconState P}
  {cache cache' : ValidatorExitCache} {block : BeaconBlock} {verify : Bool}

/-! ## The relation -/

/-- A validator that a deposit added: not active yet, with a key that parses. -/
def Deposited (env : Env P) (c : Nat) (v : Validator) : Prop :=
  Dormant c v ∧ env.publicKeyFromBytes v.pubkey false = true

theorem Deposited.aged {v v' : Validator} (h : Deposited env c v) (h' : AgedSameBalance c v v') : Deposited env c v' :=
  ⟨h.1.aged h'.toAged, h'.pubkey ▸ h.2⟩

structure KeepsDuties (env : Env P) (c : Nat) (s s' : CachedBeaconState P) : Prop where
  slot : s'.slot = s.slot
  epochCtx : SameButKeys s.epochCtx s'.epochCtx
  mixes : SameMixesBut c s.toBeaconState s'.toBeaconState
  validators : Evolves (AgedSameBalance c) (Deposited env c) s.validators s'.validators

namespace KeepsDuties

theorem of_eq (hslot : s'.slot = s.slot) (hctx : s'.epochCtx = s.epochCtx) (hmixes : s'.randaoMixes = s.randaoMixes)
    (hvalidators : s'.validators = s.validators) : KeepsDuties env c s s' where
  slot := hslot
  epochCtx := hctx ▸ SameButKeys.refl _
  mixes e _ := getRandaoMix_congr hmixes e
  validators := hvalidators ▸ Evolves.refl (AgedSameBalance.refl c) _

theorem refl (s : CachedBeaconState P) : KeepsDuties env c s s := of_eq rfl rfl rfl rfl

theorem trans (h : KeepsDuties env c s s') (h' : KeepsDuties env c s' s'') : KeepsDuties env c s s'' where
  slot := h'.slot.trans h.slot
  epochCtx := h.epochCtx.trans h'.epochCtx
  mixes e he := (h'.mixes e he).trans (h.mixes e he)
  validators := h.validators.trans (fun _ _ _ => AgedSameBalance.trans) (fun _ _ => Deposited.aged) h'.validators

theorem currentEpoch (h : KeepsDuties env c s s') (hc : s.epochCtx.currentShuffling.epoch = c) :
    s'.epochCtx.currentShuffling.epoch = c := by
  rw [h.epochCtx.currentShuffling, hc]

theorem updateValidator {index : Nat} {update : Validator → Validator}
    (h : ∀ v, s.validators[index]? = some v → AgedSameBalance c v (update v)) :
    KeepsDuties env c s (StateTransition.updateValidator s index update) where
  slot := rfl
  epochCtx := SameButKeys.refl _
  mixes _ _ := rfl
  validators := Evolves.modify (AgedSameBalance.refl c) index update h

end KeepsDuties

/-! ## Header, randao and eth1 data -/

theorem processBlockHeader_keeps (h : processBlockHeader env cfg s block = .ok s') :
    KeepsDuties env c s s' ∧ 0 < s.validators.length := by
  unfold processBlockHeader at h
  simp only [bind_eq_ok, pure_eq_ok, getAt_eq_ok] at h
  obtain ⟨_, -, _, -, _, -, _, -, _, -, proposer, hproposer, _, -, rfl⟩ := h
  refine ⟨KeepsDuties.of_eq rfl rfl rfl rfl, ?_⟩
  exact Nat.lt_of_le_of_lt (Nat.zero_le _) (List.getElem?_eq_some_iff.1 hproposer).1

theorem processRandao_keeps (h : processRandao env s block verify = .ok s') (hc : s.epochCtx.currentShuffling.epoch = c) :
    KeepsDuties env c s s' := by
  unfold processRandao at h
  simp only [bind_eq_ok, pure_eq_ok] at h
  obtain ⟨_, -, _, -, rfl⟩ := h
  subst hc
  exact ⟨rfl, SameButKeys.refl _, SameMixesBut.of_set (Nat.mod_lt _ (historicalVector_pos P)) rfl,
    Evolves.refl (AgedSameBalance.refl _) _⟩

theorem processEth1Data_keeps (s : CachedBeaconState P) (body : BeaconBlockBody) :
    KeepsDuties env c s (processEth1Data s body) :=
  KeepsDuties.of_eq rfl rfl rfl rfl

/-! ## Exits -/

def LateQueue (c : Nat) (cache : ValidatorExitCache) : Prop :=
  ∀ epoch, cache.exitQueueEpoch = some epoch → ((c + 2 : Nat) : ℕ∞) ≤ epoch

theorem lateQueue_empty (c : Nat) : LateQueue c .empty := fun _ h => by cases h

theorem le_exitQueueFrom (validators : List Validator) (start : ℕ∞ × Nat) : start.1 ≤ (exitQueueFrom start validators).1 := by
  refine List.foldlRecOn (motive := fun queue : ℕ∞ × Nat => start.1 ≤ queue.1) validators _ (le_refl _) fun _ h _ _ => le_trans h ?_
  split
  · exact le_refl _
  · split
    · exact le_refl _
    · split
      · rename_i h
        exact h.le
      · exact le_refl _

theorem nextExitEpoch_late {epoch : ℕ∞} (h : nextExitEpoch cfg s cache = .ok (epoch, cache'))
    (hc : s.epochCtx.currentShuffling.epoch = c) (hlate : LateQueue c cache) :
    ((c + 2 : Nat) : ℕ∞) ≤ epoch ∧ LateQueue c cache' := by
  have key : ∀ epoch' : ℕ∞, ((c + 2 : Nat) : ℕ∞) ≤ epoch' → ∀ churn limit, ∀ cond : Prop, ∀ [Decidable cond],
      ((c + 2 : Nat) : ℕ∞) ≤ (if cond then (epoch' + 1, churn) else (epoch', limit) : ℕ∞ × Nat).1 := by
    intro epoch' hle churn limit cond _
    split
    · exact le_trans hle le_self_add
    · exact hle
  unfold nextExitEpoch at h
  split at h
  · simp only [pure_eq_ok, Prod.mk.injEq] at h
    obtain ⟨rfl, rfl⟩ := h
    have hstart : ((c + 2 : Nat) : ℕ∞) ≤ (exitQueueFrom ((computeActivationExitEpoch P s.epochCtx.currentShuffling.epoch : Nat), 0)
        s.validators).1 := by
      refine le_trans ?_ (le_exitQueueFrom _ _)
      rw [hc]
      dsimp only
      exact_mod_cast le_computeActivationExitEpoch P c
    refine ⟨key _ hstart _ _ _, fun epoch hepoch => ?_⟩
    cases hepoch
    exact key _ hstart _ _ _
  · rename_i exitQueueEpoch hqueue
    split at h
    · simp only [pure_eq_ok, Prod.mk.injEq] at h
      obtain ⟨rfl, rfl⟩ := h
      have hstart := hlate _ hqueue
      refine ⟨key _ hstart _ _ _, fun epoch hepoch => ?_⟩
      cases hepoch
      exact key _ hstart _ _ _
    · cases h

def KeepsWork (env : Env P) (c : Nat) (work work' : CachedBeaconState P × ValidatorExitCache) : Prop :=
  work.1.epochCtx.currentShuffling.epoch = c → LateQueue c work.2 → KeepsDuties env c work.1 work'.1 ∧ LateQueue c work'.2

theorem KeepsWork.refl (work : CachedBeaconState P × ValidatorExitCache) : KeepsWork env c work work :=
  fun _ hlate => ⟨KeepsDuties.refl _, hlate⟩

theorem KeepsWork.trans {work₁ work₂ work₃ : CachedBeaconState P × ValidatorExitCache} (h : KeepsWork env c work₁ work₂)
    (h' : KeepsWork env c work₂ work₃) : KeepsWork env c work₁ work₃ := by
  intro hc hlate
  obtain ⟨hkeeps, hlate₂⟩ := h hc hlate
  obtain ⟨hkeeps', hlate₃⟩ := h' (hkeeps.currentEpoch hc) hlate₂
  exact ⟨hkeeps.trans hkeeps', hlate₃⟩

theorem initiateValidatorExit_keeps {index : Nat} (h : initiateValidatorExit cfg s index cache = .ok (s', cache')) :
    KeepsWork env c (s, cache) (s', cache') := by
  intro hc hlate
  unfold initiateValidatorExit at h
  simp only [bind_eq_ok, getAt_eq_ok] at h
  obtain ⟨validator, hvalidator, h⟩ := h
  split at h
  · simp only [pure_eq_ok, Prod.mk.injEq] at h
    obtain ⟨rfl, rfl⟩ := h
    exact ⟨KeepsDuties.refl _, hlate⟩
  · rename_i hexit
    simp only [bind_eq_ok, pure_eq_ok, Prod.mk.injEq, Prod.exists] at h
    obtain ⟨epoch, cache₁, hnext, rfl, rfl⟩ := h
    obtain ⟨hle, hlate'⟩ := nextExitEpoch_late hnext hc hlate
    refine ⟨KeepsDuties.updateValidator fun v hv => ?_, hlate'⟩
    rw [hvalidator, Option.some.injEq] at hv
    subst hv
    exact ⟨⟨rfl, .inl rfl, .inr ⟨not_not.1 hexit, hle⟩⟩, rfl⟩

/-! ## Operations -/

variable {work work' : CachedBeaconState P × ValidatorExitCache}

theorem BlockWrite.keepsWork (h : BlockWrite env cfg work work') :
    KeepsWork env c work work' := by
  cases h with
  | exit hexit => exact initiateValidatorExit_keeps hexit
  | slashing s cache index withdrawableEpoch slashings =>
    refine fun _ hlate => ⟨⟨rfl, SameButKeys.refl _, fun _ _ => rfl, ?_⟩, hlate⟩
    exact Evolves.modify (AgedSameBalance.refl c) index _ fun v _ => ⟨⟨rfl, .inl rfl, .inl rfl⟩, rfl⟩
  | balances => exact fun _ hlate => ⟨KeepsDuties.of_eq rfl rfl rfl rfl, hlate⟩
  | depositIndex => exact fun _ hlate => ⟨KeepsDuties.of_eq rfl rfl rfl rfl, hlate⟩
  | deposit s cache hkey hctx =>
    refine fun _ hlate => ⟨⟨rfl, hctx, fun _ _ => rfl, Evolves.append (AgedSameBalance.refl c) fun v hv => ?_⟩, hlate⟩
    rw [List.mem_singleton] at hv
    exact hv ▸ ⟨le_top, env.publicKeyFromBytes_of_validate _ hkey⟩

theorem BlockWrites.keepsWork (h : BlockWrites env cfg work work') : KeepsWork env c work work' :=
  h.keeps KeepsWork.refl (fun _ _ _ => KeepsWork.trans) fun _ _ => BlockWrite.keepsWork

theorem processAttestation_keeps {attestation : Attestation} (h : processAttestation env fork s attestation verify = .ok s') :
    KeepsDuties env c s s' := by
  obtain ⟨_, _, _, _, _, -, -, -, rfl⟩ := processAttestation_writes h
  exact KeepsDuties.of_eq rfl rfl rfl rfl

/-! ## The whole block -/

theorem beforeAttestations_keeps {s₁ s₂ : CachedBeaconState P} (h₁ : processBlockHeader env cfg s block = .ok s₁)
    (h₂ : processRandao env s₁ block verify = .ok s₂)
    (hslashings : applySlashings env cfg fork block.body verify (processEth1Data s₂ block.body, .empty) = .ok (s', cache))
    (hc : s.epochCtx.currentShuffling.epoch = c) : KeepsDuties env c s s' ∧ LateQueue c cache ∧ 0 < s.validators.length := by
  obtain ⟨hkeeps₁, hpos⟩ := processBlockHeader_keeps (c := c) h₁
  have hkeeps₂ := hkeeps₁.trans (processRandao_keeps h₂ (hkeeps₁.currentEpoch hc))
  have hkeeps₃ := hkeeps₂.trans (processEth1Data_keeps s₂ block.body)
  obtain ⟨hslashed, hlate⟩ := (applySlashings_writes hslashings).keepsWork (hkeeps₃.currentEpoch hc) (lateQueue_empty c)
  exact ⟨hkeeps₃.trans hslashed, hlate, hpos⟩

theorem processBlockByFork_keeps (h : processBlockByFork env cfg fork s block verify = .ok s')
    (hc : s.epochCtx.currentShuffling.epoch = c) : KeepsDuties env c s s' ∧ 0 < s.validators.length := by
  obtain ⟨s₁, s₂, t, t', cache, cache', h₁, h₂, hslashings, hattestations, hwrites⟩ := processBlockByFork_writes h
  obtain ⟨hkeeps, hlate, hpos⟩ := beforeAttestations_keeps h₁ h₂ hslashings hc
  have hattested : KeepsDuties env c t t' := foldlM_keeps KeepsDuties.refl (fun _ _ _ => KeepsDuties.trans) _
    (fun op _ s s' hop => processAttestation_keeps hop) _ _ hattestations
  have hkeeps' := hkeeps.trans hattested
  obtain ⟨hrest, -⟩ := hwrites.keepsWork (hkeeps'.currentEpoch hc) hlate
  exact ⟨hkeeps'.trans hrest, hpos⟩

end Lodestar.StateTransition
