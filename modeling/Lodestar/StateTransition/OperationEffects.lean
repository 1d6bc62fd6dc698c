import Mathlib.Data.Set.Insert
import Lodestar.StateTransition.Committees
import Lodestar.StateTransition.Histories
/-!
# OperationEffects — what the operations of a block leave behind them

A slashing or an exit rewrites the records of the validators it names and no others, so what a later operation meets is known
from the set of validators that are gone by then.  Each kind of operation comes with when it goes through on what others of
its kind have left, for an operation that is valid on the state they all started from.
-/
namespace Lodestar.StateTransition

open Lib

variable {P : Preset} {env : Env P} {cfg : ChainConfig} {fork : ForkName} {s t t' : CachedBeaconState P}
  {cache cache' : ValidatorExitCache} {gone : Set Nat}

/-! ## The state and the operations -/

/-- What holds of a state that a block is made on. -/
structure HeadState (env : Env P) (cfg : ChainConfig) (s : CachedBeaconState P) : Prop where
  duties : HasDuties env cfg s.toBeaconState s.epochCtx
  aligned : Aligned s.toBeaconState
  proposer : ∃ index : Nat, s.epochCtx.getBeaconProposer P s.slot = .ok (index : Int)

variable {s₀ s₁ s₂ s₃ : CachedBeaconState P}

theorem Path.headState {turns : List Turn} (h : Path env cfg s₀ turns s) (hfresh : Fresh env cfg s₀)
    (haligned : Aligned s₀.toBeaconState) (hproposer : ∃ index : Nat, s.epochCtx.getBeaconProposer P s.slot = .ok (index : Int)) :
    HeadState env cfg s :=
  ⟨(h.fresh hfresh).duties, h.aligned haligned, hproposer⟩

def Slashable (s : CachedBeaconState P) (index : Nat) : Prop :=
  ∃ v, s.validators[index]? = some v ∧ isSlashableValidator v s.epochCtx.currentShuffling.epoch = true

def ProposerSlashing.proposerIndex (slashing : ProposerSlashing) : Nat := slashing.signedHeader1.message.proposerIndex

def SignedVoluntaryExit.validatorIndex (signedVoluntaryExit : SignedVoluntaryExit) : Nat :=
  signedVoluntaryExit.message.validatorIndex

def AttesterSlashing.Names (slashing : AttesterSlashing) (index : Nat) : Prop :=
  index ∈ slashing.attestation1.attestingIndices ∧ index ∈ slashing.attestation2.attestingIndices

/-! ## What operations leave -/

/-- What slashings, attestations and exits do not write, and the lengths of the lists they do write. -/
structure SameBackground (s t : CachedBeaconState P) : Prop where
  slot : t.slot = s.slot
  epochCtx : t.epochCtx = s.epochCtx
  blockRoots : t.blockRoots = s.blockRoots
  previousJustifiedCheckpoint : t.previousJustifiedCheckpoint = s.previousJustifiedCheckpoint
  currentJustifiedCheckpoint : t.currentJustifiedCheckpoint = s.currentJustifiedCheckpoint
  eth1Data : t.eth1Data = s.eth1Data
  eth1DepositIndex : t.eth1DepositIndex = s.eth1DepositIndex
  validators : t.validators.length = s.validators.length
  balances : t.balances.length = s.balances.length
  previousEpochParticipation : t.previousEpochParticipation.length = s.previousEpochParticipation.length
  currentEpochParticipation : t.currentEpochParticipation.length = s.currentEpochParticipation.length

theorem SameBackground.refl (s : CachedBeaconState P) : SameBackground s s :=
  ⟨rfl, rfl, rfl, rfl, rfl, rfl, rfl, rfl, rfl, rfl, rfl⟩

theorem SameBackground.trans (h : SameBackground s₁ s₂) (h' : SameBackground s₂ s₃) : SameBackground s₁ s₃ where
  slot := h'.slot.trans h.slot
  epochCtx := h'.epochCtx.trans h.epochCtx
  blockRoots := h'.blockRoots.trans h.blockRoots
  previousJustifiedCheckpoint := h'.previousJustifiedCheckpoint.trans h.previousJustifiedCheckpoint
  currentJustifiedCheckpoint := h'.currentJustifiedCheckpoint.trans h.currentJustifiedCheckpoint
  eth1Data := h'.eth1Data.trans h.eth1Data
  eth1DepositIndex := h'.eth1DepositIndex.trans h.eth1DepositIndex
  validators := h'.validators.trans h.validators
  balances := h'.balances.trans h.balances
  previousEpochParticipation := h'.previousEpochParticipation.trans h.previousEpochParticipation
  currentEpochParticipation := h'.currentEpochParticipation.trans h.currentEpochParticipation

/-- The records of a set have come to pass a test, and every other record is as it was. -/
def Records (test : Validator → Prop) (gone : Set Nat) (s t : CachedBeaconState P) : Prop :=
  ∀ i v, s.validators[i]? = some v → ∃ v', t.validators[i]? = some v' ∧ (i ∈ gone → test v') ∧ (i ∉ gone → v' = v)

theorem Records.refl (test : Validator → Prop) (s : CachedBeaconState P) : Records test ∅ s s :=
  fun _ v hv => ⟨v, hv, fun hmem => absurd hmem (Set.notMem_empty _), fun _ => rfl⟩

variable {index : Nat}

theorem Records.update {test : Validator → Prop} {update : Validator → Validator} (h : Records test gone s t)
    (htest : ∀ v, t.validators[index]? = some v → test (update v)) (hvalidators : t'.validators = t.validators.modify index update) :
    Records test (gone ∪ {index}) s t' := by
  intro i v hv
  obtain ⟨v', hv', hgone, hkept⟩ := h i v hv
  rw [hvalidators, List.getElem?_modify, hv']
  by_cases hi : index = i
  · refine ⟨update v', by simp [hi], fun _ => htest v' (hi ▸ hv'), fun hnot => ?_⟩
    exact absurd (.inr hi.symm) hnot
  · refine ⟨v', by simp [hi], fun hmem => ?_, fun hnot => hkept fun hmem => hnot (.inl hmem)⟩
    rcases hmem with hmem | hmem
    · exact hgone hmem
    · exact absurd hmem.symm hi

/-! ## Exits -/

def Exiting (v : Validator) : Prop := v.exitEpoch ≠ FAR_FUTURE_EPOCH

/-- What a block has found of the exit queue is whole. -/
def CacheReady (cache : ValidatorExitCache) : Prop :=
  ∀ exitQueueEpoch, cache.exitQueueEpoch = some exitQueueEpoch → exitQueueEpoch ≠ FAR_FUTURE_EPOCH ∧
    ∃ exitQueueChurn churnLimit, cache.exitQueueChurn = some exitQueueChurn ∧ cache.churnLimit = some churnLimit

theorem cacheReady_empty : CacheReady .empty := fun _ h => by cases h

theorem exitQueueFrom_ne_far (validators : List Validator) (start : ℕ∞ × Nat) (h : start.1 ≠ FAR_FUTURE_EPOCH) :
    (exitQueueFrom start validators).1 ≠ FAR_FUTURE_EPOCH := by
  refine List.foldlRecOn (motive := fun queue : ℕ∞ × Nat => queue.1 ≠ FAR_FUTURE_EPOCH) validators _ h fun _ h v _ => ?_
  by_cases hfar : v.exitEpoch = FAR_FUTURE_EPOCH
  · rw [if_pos hfar]
    exact h
  · rw [if_neg hfar]
    split
    · exact h
    · split
      · exact hfar
      · exact h

theorem nextExitEpoch_returns (h : CacheReady cache) :
    Returns (nextExitEpoch cfg t cache) fun next => next.1 ≠ FAR_FUTURE_EPOCH ∧ CacheReady next.2 := by
  have hnext : ∀ {epoch : ℕ∞}, epoch ≠ FAR_FUTURE_EPOCH → ∀ (churn churn' : Nat) (full : Prop) [Decidable full],
      (if full then (epoch + 1, churn) else (epoch, churn') : ℕ∞ × Nat).1 ≠ FAR_FUTURE_EPOCH := by
    intro epoch hepoch churn churn' full _
    split
    · exact WithTop.add_ne_top.2 ⟨hepoch, ENat.natCast_ne_top 1⟩
    · exact hepoch
  unfold nextExitEpoch
  cases hqueue : cache.exitQueueEpoch with
  | none =>
    have hend := hnext (exitQueueFrom_ne_far t.validators
      ((computeActivationExitEpoch P t.epochCtx.currentShuffling.epoch : Nat), 0) (ENat.natCast_ne_top _))
    refine .pure ⟨hend _ _ _, fun epoch hepoch => ?_⟩
    cases hepoch
    exact ⟨hend _ _ _, _, _, rfl, rfl⟩
  | some epoch =>
    obtain ⟨hfar, churn, limit, hchurn, hlimit⟩ := h epoch hqueue
    rw [hchurn, hlimit]
    refine .pure ⟨hnext hfar _ _ _, fun epoch' hepoch' => ?_⟩
    cases hepoch'
    exact ⟨hnext hfar _ _ _, _, _, rfl, rfl⟩

variable {v : Validator}

theorem initiateValidatorExit_returns (hready : CacheReady cache) (hv : t.validators[index]? = some v) :
    Returns (initiateValidatorExit cfg t index cache) fun work =>
      ∃ update, work.1 = updateValidator t index update ∧ Exiting (update v) ∧ CacheReady work.2 := by
  refine (Returns.of_eq (getAt_eq_ok.2 hv)).bind fun v' hv' => ?_
  subst hv'
  by_cases hexiting : v'.exitEpoch = FAR_FUTURE_EPOCH
  · rw [if_neg (not_not.2 hexiting)]
    refine (nextExitEpoch_returns hready).bind fun next hnext => ?_
    exact .pure ⟨_, rfl, hnext.1, hnext.2⟩
  · rw [if_pos hexiting]
    refine .pure ⟨id, ?_, hexiting, hready⟩
    unfold updateValidator
    rw [List.modify_id]

/-! ## Balances -/

theorem increaseBalance_returns (delta : Nat) (h : index < t.balances.length) :
    Returns (increaseBalance t index delta) fun t' => SameBackground t t' ∧ t'.validators = t.validators := by
  refine (Returns.of_eq (modifyAt_eq_ok.2 ⟨h, rfl⟩)).bind fun balances hbalances => .pure ⟨?_, rfl⟩
  subst hbalances
  exact ⟨rfl, rfl, rfl, rfl, rfl, rfl, rfl, rfl, List.length_modify _ _ _, rfl, rfl⟩

theorem decreaseBalance_returns (delta : Nat) (h : index < t.balances.length) :
    Returns (decreaseBalance t index delta) fun t' => SameBackground t t' ∧ t'.validators = t.validators := by
  refine (Returns.of_eq (modifyAt_eq_ok.2 ⟨h, rfl⟩)).bind fun balances hbalances => .pure ⟨?_, rfl⟩
  subst hbalances
  exact ⟨rfl, rfl, rfl, rfl, rfl, rfl, rfl, rfl, List.length_modify _ _ _, rfl, rfl⟩

/-! ## Slashings -/

/-- A slashing has been applied: the validator is marked, and on its way out. -/
def SlashedOut (v : Validator) : Prop := v.slashed = true ∧ Exiting v

def HasProposer (t : CachedBeaconState P) : Prop :=
  ∃ index : Nat, t.epochCtx.getBeaconProposer P t.slot = .ok (index : Int) ∧ index < t.balances.length

theorem HasProposer.of_background (h : HasProposer s) (hback : SameBackground s t) : HasProposer t := by
  obtain ⟨index, hproposer, hlt⟩ := h
  refine ⟨index, ?_, hback.balances ▸ hlt⟩
  rw [hback.epochCtx, hback.slot]
  exact hproposer

theorem slashValidator_returns (hready : CacheReady cache) (hv : t.validators[index]? = some v) (hproposer : HasProposer t)
    (hlt : index < t.balances.length) :
    Returns (slashValidatorAllForks cfg fork t index cache none) fun work => SameBackground t work.1 ∧ CacheReady work.2 ∧
      ∃ update, work.1.validators = t.validators.modify index update ∧ SlashedOut (update v) := by
  refine (initiateValidatorExit_returns hready hv).bind fun work hexited => ?_
  obtain ⟨exit, hexit, hexiting, hready'⟩ := hexited
  obtain ⟨t₁, cache'⟩ := work
  obtain rfl : t₁ = updateValidator t index exit := hexit
  have hexited : (updateValidator t index exit).validators[index]? = some (exit v) := by
    simp [updateValidator, hv]
  refine (Returns.of_eq (getAt_eq_ok.2 hexited)).bind fun v' _ => ?_
  -- the record is marked, and then only balances change
  refine (decreaseBalance_returns _ ?_).bind fun t₂ hdecreased => ?_
  · exact hlt
  obtain ⟨hback₂, hval₂⟩ := hdecreased
  have hback : SameBackground t t₂ := by
    refine SameBackground.trans ?_ hback₂
    exact ⟨rfl, rfl, rfl, rfl, rfl, rfl, rfl, by simp [updateValidator], rfl, rfl, rfl⟩
  have hmarked : ∃ update, t₂.validators = t.validators.modify index update ∧ SlashedOut (update v) :=
    ⟨_, hval₂.trans (List.modify_modify_eq exit _ index t.validators), rfl, hexiting⟩
  obtain ⟨proposer, hproposer, hproposer_lt⟩ := hproposer.of_background hback
  refine (Returns.of_eq hproposer).bind fun _ h => ?_
  subst h
  refine (Returns.of_eq (show asIndex (proposer : Int) = .ok proposer from rfl)).bind fun _ h => ?_
  subst h
  refine (increaseBalance_returns _ hproposer_lt).bind fun t₃ hrewarded => ?_
  obtain ⟨hback₃, hval₃⟩ := hrewarded
  refine (increaseBalance_returns _ (hback₃.balances ▸ hproposer_lt)).bind fun t₄ hwhistled => ?_
  obtain ⟨hback₄, hval₄⟩ := hwhistled
  obtain ⟨update, hupdate, hslashed⟩ := hmarked
  refine .pure ⟨(hback.trans hback₃).trans hback₄, hready', update, ?_, hslashed⟩
  rw [hval₄, hval₃]
  exact hupdate

structure AfterSlashings (s : CachedBeaconState P) (gone : Set Nat) (work : CachedBeaconState P × ValidatorExitCache) : Prop where
  background : SameBackground s work.1
  records : Records SlashedOut gone s work.1
  cache : CacheReady work.2

theorem AfterSlashings.start (s : CachedBeaconState P) : AfterSlashings s ∅ (s, .empty) :=
  ⟨SameBackground.refl s, Records.refl _ s, cacheReady_empty⟩

theorem HeadState.hasProposer (h : HeadState env cfg s) : HasProposer s := by
  obtain ⟨index, hproposer⟩ := h.proposer
  exact ⟨index, hproposer, h.aligned.balances ▸ h.duties.proposer_lt hproposer⟩

variable {work : CachedBeaconState P × ValidatorExitCache}

theorem AfterSlashings.slash (h : AfterSlashings s gone work) (hhead : HeadState env cfg s) (hv : s.validators[index]? = some v) :
    Returns (slashValidatorAllForks cfg fork work.1 index work.2 none) (AfterSlashings s (gone ∪ {index})) := by
  obtain ⟨v', hv', -⟩ := h.records index v hv
  have hlt : index < work.1.balances.length := by
    rw [h.background.balances, hhead.aligned.balances]
    exact (List.getElem?_eq_some_iff.1 hv).1
  refine (slashValidator_returns h.cache hv' (hhead.hasProposer.of_background h.background) hlt).mono
    fun work' ⟨hback, hready, update, hvalidators, hslashed⟩ => ⟨h.background.trans hback, ?_, hready⟩
  refine h.records.update (fun w hw => ?_) hvalidators
  rw [hv', Option.some.injEq] at hw
  exact hw ▸ hslashed

theorem AfterSlashings.slashable_iff {v' : Validator} (h : AfterSlashings s gone work) (hv' : work.1.validators[index]? = some v') :
    isSlashableValidator v' work.1.epochCtx.currentShuffling.epoch = true ↔ Slashable s index ∧ index ∉ gone := by
  have hlt : index < s.validators.length := h.background.validators ▸ (List.getElem?_eq_some_iff.1 hv').1
  obtain ⟨w, hw, hgone, hkept⟩ := h.records index _ (List.getElem?_eq_getElem hlt)
  rw [hv', Option.some.injEq] at hw
  subst hw
  rw [h.background.epochCtx]
  constructor
  · intro hslashable
    have hnot : index ∉ gone := by
      intro hmem
      unfold isSlashableValidator at hslashable
      rw [(hgone hmem).1] at hslashable
      cases hslashable
    exact ⟨⟨_, List.getElem?_eq_getElem hlt, hkept hnot ▸ hslashable⟩, hnot⟩
  · rintro ⟨⟨v, hv, hslashable⟩, hnot⟩
    rw [List.getElem?_eq_getElem hlt, Option.some.injEq] at hv
    rw [hkept hnot, hv]
    exact hslashable

/-! ## Proposer slashings -/

variable {slashing : ProposerSlashing}

theorem assertValidProposerSlashing_iff : assertValidProposerSlashing env t slashing false = .ok () ↔
    slashing.signedHeader1.message.slot = slashing.signedHeader2.message.slot ∧
    slashing.signedHeader1.message.proposerIndex = slashing.signedHeader2.message.proposerIndex ∧
    slashing.signedHeader1.message ≠ slashing.signedHeader2.message ∧
    ∃ v, t.validators[slashing.proposerIndex]? = some v ∧ isSlashableValidator v t.epochCtx.currentShuffling.epoch = true := by
  unfold assertValidProposerSlashing ProposerSlashing.proposerIndex
  simp only [bind_eq_ok, check_eq_ok, decide_eq_true_eq, getAt_eq_ok, Bool.false_eq_true, if_false, pure_eq_ok, exists_const,
    and_true]

theorem processProposerSlashing_guarded (hhead : HeadState env cfg s)
    (hvalid : assertValidProposerSlashing env s slashing false = .ok ()) :
    Guarded (AfterSlashings s) (fun gone op => op.proposerIndex ∉ gone) (fun gone op => gone ∪ {op.proposerIndex})
      (fun work op => processProposerSlashing env cfg fork work.1 op work.2 false) slashing := by
  obtain ⟨hslot, hproposer, hdifferent, v, hv, hslashable⟩ := assertValidProposerSlashing_iff.1 hvalid
  refine Guarded.of_returns (fun gone work h hnot => ?_) fun gone work work' h hwork => ?_
  · obtain ⟨v', hv', -⟩ := h.records _ v hv
    have hvalid' : assertValidProposerSlashing env work.1 slashing false = .ok () :=
      assertValidProposerSlashing_iff.2 ⟨hslot, hproposer, hdifferent, v', hv',
        (h.slashable_iff hv').2 ⟨⟨v, hv, hslashable⟩, hnot⟩⟩
    exact (Returns.of_eq hvalid').bind fun _ _ => h.slash hhead hv
  · unfold processProposerSlashing at hwork
    obtain ⟨_, hvalid', -⟩ := bind_eq_ok.1 hwork
    obtain ⟨-, -, -, v', hv', hslashable'⟩ := assertValidProposerSlashing_iff.1 hvalid'
    exact ((h.slashable_iff hv').1 hslashable').2

/-! ## Attester slashings -/

theorem strictlyIncreasing_iff : ∀ {indices : List Nat}, strictlyIncreasing indices = true ↔ indices.Pairwise (· < ·)
  | [] => by simp [strictlyIncreasing]
  | [a] => by simp [strictlyIncreasing]
  | a :: b :: indices => by
    unfold strictlyIncreasing
    rw [Bool.and_eq_true, decide_eq_true_eq, strictlyIncreasing_iff, List.pairwise_cons (a := a)]
    constructor
    · rintro ⟨hab, hrest⟩
      refine ⟨fun c hc => ?_, hrest⟩
      rcases List.mem_cons.1 hc with rfl | hc
      · exact hab
      · exact hab.trans ((List.pairwise_cons.1 hrest).1 c hc)
    · rintro ⟨hfirst, hrest⟩
      exact ⟨hfirst b List.mem_cons_self, hrest⟩

theorem le_getLastD : ∀ {indices : List Nat}, indices.Pairwise (· < ·) → ∀ i ∈ indices, i ≤ indices.getLastD 0
  | [], _, i, hi => absurd hi List.not_mem_nil
  | [a], _, i, hi => (List.mem_singleton.1 hi).le
  | a :: b :: indices, h, i, hi => by
    obtain ⟨hfirst, hrest⟩ := List.pairwise_cons.1 h
    rcases List.mem_cons.1 hi with rfl | hi
    · exact (hfirst b List.mem_cons_self).le.trans (le_getLastD hrest b List.mem_cons_self)
    · exact le_getLastD hrest i hi

variable {indexedAttestation : IndexedAttestation}

theorem isValidIndexedAttestation_iff :
    isValidIndexedAttestation env t indexedAttestation false = .ok true ↔
      0 < indexedAttestation.attestingIndices.length ∧
      indexedAttestation.attestingIndices.length ≤ P.MAX_VALIDATORS_PER_COMMITTEE ∧
      indexedAttestation.attestingIndices.Pairwise (· < ·) ∧
      indexedAttestation.attestingIndices.getLastD 0 < t.validators.length := by
  unfold isValidIndexedAttestation
  dsimp only
  rw [← strictlyIncreasing_iff]
  generalize indexedAttestation.attestingIndices.length = size
  generalize indexedAttestation.attestingIndices.getLastD 0 = last
  generalize strictlyIncreasing indexedAttestation.attestingIndices = sorted
  by_cases hsome : 0 < size
  · by_cases hroom : size ≤ P.MAX_VALIDATORS_PER_COMMITTEE
    · cases sorted with
      | false => simp [hsome, hroom, pure_eq_ok]
      | true =>
        by_cases hknown : t.validators.length ≤ last
        · simp [hsome, hroom, hknown, pure_eq_ok]
        · simp [hsome, hroom, hknown, pure_eq_ok, Nat.lt_of_not_le hknown]
    · simp [hsome, hroom, pure_eq_ok]
  · simp [hsome, pure_eq_ok]

theorem lt_of_isValidIndexedAttestation (h : isValidIndexedAttestation env t indexedAttestation false = .ok true) :
    ∀ i ∈ indexedAttestation.attestingIndices, i < t.validators.length := by
  obtain ⟨-, -, hsorted, hlast⟩ := isValidIndexedAttestation_iff.1 h
  exact fun i hi => (le_getLastD hsorted i hi).trans_lt hlast

variable {slashing : AttesterSlashing}

theorem assertValidAttesterSlashing_iff : assertValidAttesterSlashing env t slashing false = .ok () ↔
    isSlashableAttestationData slashing.attestation1.data slashing.attestation2.data = true ∧
    isValidIndexedAttestation env t slashing.attestation1 false = .ok true ∧
    isValidIndexedAttestation env t slashing.attestation2 false = .ok true := by
  unfold assertValidAttesterSlashing
  simp only [bind_eq_ok, check_eq_ok, exists_const]
  constructor
  · rintro ⟨hslashable, _, hfirst, rfl, _, hsecond, rfl⟩
    exact ⟨hslashable, hfirst, hsecond⟩
  · rintro ⟨hslashable, hfirst, hsecond⟩
    exact ⟨hslashable, true, hfirst, rfl, true, hsecond, rfl⟩

theorem assertValidAttesterSlashing_congr (h : t.validators.length = s.validators.length) :
    assertValidAttesterSlashing env t slashing false = .ok () ↔ assertValidAttesterSlashing env s slashing false = .ok () := by
  simp only [assertValidAttesterSlashing_iff, isValidIndexedAttestation_iff, h]

def slashIf (cfg : ChainConfig) (fork : ForkName) (acc : (CachedBeaconState P × ValidatorExitCache) × Bool) (index : Nat) :
    Except String ((CachedBeaconState P × ValidatorExitCache) × Bool) := do
  let ((state, cache), slashedAny) := acc
  let validator ← getAt typeError state.validators index
  if isSlashableValidator validator state.epochCtx.currentShuffling.epoch then do
    let next ← slashValidatorAllForks cfg fork state index cache none
    pure (next, true)
  else pure ((state, cache), slashedAny)

theorem slashIf_returns (hhead : HeadState env cfg s) {acc : (CachedBeaconState P × ValidatorExitCache) × Bool}
    (hlt : index < s.validators.length) (h : AfterSlashings s gone acc.1) : Returns (slashIf cfg fork acc index) fun acc' =>
      AfterSlashings s (gone ∪ {i | i = index ∧ Slashable s i}) acc'.1 ∧
      (acc'.2 = true ↔ acc.2 = true ∨ Slashable s index ∧ index ∉ gone) := by
  obtain ⟨v', hv', -⟩ := h.records index _ (List.getElem?_eq_getElem hlt)
  have hiff := h.slashable_iff hv'
  refine (Returns.of_eq (getAt_eq_ok.2 hv')).bind fun _ hv => ?_
  subst hv
  by_cases hslash : Slashable s index ∧ index ∉ gone
  · rw [if_pos (hiff.2 hslash)]
    refine (h.slash hhead (List.getElem?_eq_getElem hlt)).bind fun work hwork => .pure ⟨?_, ?_⟩
    · have hone : {i | i = index ∧ Slashable s i} = {index} := by
        ext i
        constructor
        · exact fun hi => hi.1
        · exact fun hi => ⟨hi, hi ▸ hslash.1⟩
      rw [hone]
      exact hwork
    · simp [hslash]
  · rw [if_neg fun hslashable => hslash (hiff.1 hslashable)]
    refine .pure ⟨?_, by simp [hslash]⟩
    have hsame : gone ∪ {i | i = index ∧ Slashable s i} = gone := by
      refine Set.union_eq_self_of_subset_right ?_
      rintro i ⟨rfl, hi⟩
      by_contra hnot
      exact hslash ⟨hi, hnot⟩
    rw [hsame]
    exact h

theorem slashEach_returns (hhead : HeadState env cfg s) : ∀ (indices : List Nat) (gone : Set Nat)
    (acc : (CachedBeaconState P × ValidatorExitCache) × Bool), (∀ i ∈ indices, i < s.validators.length) →
    AfterSlashings s gone acc.1 → Returns (indices.foldlM (slashIf cfg fork) acc) fun acc' =>
      AfterSlashings s (gone ∪ {i | i ∈ indices ∧ Slashable s i}) acc'.1 ∧
      (acc'.2 = true ↔ acc.2 = true ∨ ∃ i ∈ indices, Slashable s i ∧ i ∉ gone)
  | [], gone, acc, _, h => by
    refine .pure ⟨?_, by simp⟩
    have hnone : gone ∪ {i | i ∈ ([] : List Nat) ∧ Slashable s i} = gone := by
      ext i
      simp
    rw [hnone]
    exact h
  | index :: indices, gone, acc, hlt, h => by
    refine (slashIf_returns hhead (hlt index List.mem_cons_self) h).bind fun acc₁ ⟨h₁, hany₁⟩ => ?_
    refine (slashEach_returns hhead indices _ acc₁ (fun i hi => hlt i (List.mem_cons_of_mem index hi)) h₁).mono
      fun acc₂ ⟨h₂, hany₂⟩ => ⟨?_, ?_⟩
    · have hgone : gone ∪ {i | i = index ∧ Slashable s i} ∪ {i | i ∈ indices ∧ Slashable s i} =
          gone ∪ {i | i ∈ index :: indices ∧ Slashable s i} := by
        ext i
        simp only [Set.mem_union, Set.mem_ofPred_eq, List.mem_cons]
        rw [or_assoc, or_and_right]
      exact hgone ▸ h₂
    · rw [hany₂, hany₁]
      simp only [Set.mem_union, Set.mem_ofPred_eq, List.mem_cons, exists_eq_or_imp, not_or]
      constructor
      · rintro ((hany | hfirst) | ⟨i, hi, hslashable, hnot, -⟩)
        · exact .inl hany
        · exact .inr (.inl hfirst)
        · exact .inr (.inr ⟨i, hi, hslashable, hnot⟩)
      · rintro (hany | hfirst | ⟨i, hi, hslashable, hnot⟩)
        · exact .inl (.inl hany)
        · exact .inl (.inr hfirst)
        · by_cases hsame : i = index
          · exact .inl (.inr ⟨hsame ▸ hslashable, hsame ▸ hnot⟩)
          · exact .inr ⟨i, hi, hslashable, hnot, fun hboth => hsame hboth.1⟩

/-- **An attester slashing that is valid alone goes through where one of the validators it names can be slashed still.** -/
theorem processAttesterSlashing_guarded (hhead : HeadState env cfg s)
    (hvalid : assertValidAttesterSlashing env s slashing false = .ok ()) :
    Guarded (AfterSlashings s) (fun gone op => ∃ i, op.Names i ∧ Slashable s i ∧ i ∉ gone)
      (fun gone op => gone ∪ {i | op.Names i ∧ Slashable s i})
      (fun work op => processAttesterSlashing env cfg fork work.1 op work.2 false) slashing := by
  have hindices : ∀ i, i ∈ ((slashing.attestation1.attestingIndices.eraseDups).filter
      (slashing.attestation2.attestingIndices.contains ·)).insertionSort (· ≤ ·) ↔ slashing.Names i := by
    intro i
    rw [(List.perm_insertionSort _ _).mem_iff, List.mem_filter, List.mem_eraseDups, List.contains_iff_mem]
    rfl
  have hlt : ∀ i, slashing.Names i → i < s.validators.length := fun i hi =>
    lt_of_isValidIndexedAttestation (assertValidAttesterSlashing_iff.1 hvalid).2.1 i hi.1
  have hrun : ∀ gone work, AfterSlashings s gone work → ∃ next slashedAny, slashEach cfg fork work.1 work.2
      (((slashing.attestation1.attestingIndices.eraseDups).filter
        (slashing.attestation2.attestingIndices.contains ·)).insertionSort (· ≤ ·)) = .ok (next, slashedAny) ∧
      AfterSlashings s (gone ∪ {i | slashing.Names i ∧ Slashable s i}) next ∧
      (slashedAny = true ↔ ∃ i, slashing.Names i ∧ Slashable s i ∧ i ∉ gone) := by
    intro gone work h
    obtain ⟨⟨next, slashedAny⟩, hnext, hafter, hany⟩ := @slashEach_returns P env cfg fork s hhead _ gone (work, false)
      (fun i hi => hlt i ((hindices i).1 hi)) h
    simp only [hindices, Bool.false_eq_true, false_or] at hafter hany
    exact ⟨next, slashedAny, hnext, hafter, hany⟩
  refine Guarded.of_returns (fun gone work h hallowed => ?_) fun gone work work' h hwork => ?_
  · obtain ⟨next, slashedAny, hnext, hafter, hany⟩ := hrun gone work h
    refine (Returns.of_eq ((assertValidAttesterSlashing_congr h.background.validators).2 hvalid)).bind fun _ _ => ?_
    refine (Returns.of_eq hnext).bind fun _ hpair => ?_
    subst hpair
    exact (Returns.check (hany.2 hallowed)).bind fun _ _ => .pure hafter
  · obtain ⟨next, slashedAny, hnext, -, hany⟩ := hrun gone work h
    unfold processAttesterSlashing at hwork
    simp only [bind_eq_ok, hnext, Except.ok.injEq, exists_eq_left', check_eq_ok] at hwork
    obtain ⟨_, -, _, hslashed, -⟩ := hwork
    exact hany.1 hslashed

/-! ## Voluntary exits -/

/-- What exits have left of a state, with the validators that have been slashed or have exited. -/
structure AfterExits (s : CachedBeaconState P) (gone : Set Nat) (work : CachedBeaconState P × ValidatorExitCache) : Prop where
  currentShuffling : work.1.epochCtx.currentShuffling = s.epochCtx.currentShuffling
  records : Records Exiting gone s work.1
  cache : CacheReady work.2

variable {signedVoluntaryExit : SignedVoluntaryExit}

theorem assertValidVoluntaryExit_iff :
    assertValidVoluntaryExit env cfg t signedVoluntaryExit false = .ok () ↔
      ∃ v, t.validators[signedVoluntaryExit.validatorIndex]? = some v ∧
        isActiveValidator v t.epochCtx.currentShuffling.epoch = true ∧ v.exitEpoch = FAR_FUTURE_EPOCH ∧
        signedVoluntaryExit.message.epoch ≤ t.epochCtx.currentShuffling.epoch ∧
        v.activationEpoch + cfg.SHARD_COMMITTEE_PERIOD ≤ t.epochCtx.currentShuffling.epoch := by
  unfold assertValidVoluntaryExit SignedVoluntaryExit.validatorIndex
  simp only [bind_eq_ok, check_eq_ok, decide_eq_true_eq, getAt_eq_ok, Bool.false_eq_true, if_false, pure_eq_ok, exists_const,
    exists_eq_left', and_true]

theorem processVoluntaryExit_guarded (hvalid : assertValidVoluntaryExit env cfg s signedVoluntaryExit false = .ok ()) :
    Guarded (AfterExits s) (fun gone op => op.validatorIndex ∉ gone) (fun gone op => gone ∪ {op.validatorIndex})
      (fun work op => processVoluntaryExit env cfg work.1 op work.2 false) signedVoluntaryExit := by
  obtain ⟨v, hv, hactive, hfar, hepoch, hlong⟩ := assertValidVoluntaryExit_iff.1 hvalid
  refine Guarded.of_returns (fun gone work h hnot => ?_) fun gone work work' h hwork hmem => ?_
  · obtain ⟨v', hv', -, hkept⟩ := h.records _ v hv
    obtain rfl : v' = v := hkept hnot
    have hvalid' : assertValidVoluntaryExit env cfg work.1 signedVoluntaryExit false = .ok () := by
      rw [assertValidVoluntaryExit_iff, h.currentShuffling]
      exact ⟨v', hv', hactive, hfar, hepoch, hlong⟩
    refine (Returns.of_eq hvalid').bind fun _ _ => ?_
    refine (initiateValidatorExit_returns h.cache hv').mono fun work' ⟨update, hupdate, hexiting, hready⟩ => ?_
    obtain ⟨state, cache⟩ := work'
    obtain rfl : state = updateValidator work.1 signedVoluntaryExit.validatorIndex update := hupdate
    refine ⟨h.currentShuffling, h.records.update (fun w hw => ?_) rfl, hready⟩
    rw [hv', Option.some.injEq] at hw
    exact hw ▸ hexiting
  · unfold processVoluntaryExit at hwork
    obtain ⟨_, hvalid', -⟩ := bind_eq_ok.1 hwork
    obtain ⟨v', hv', -, hfar', -⟩ := assertValidVoluntaryExit_iff.1 hvalid'
    obtain ⟨w, hw, hgone, -⟩ := h.records _ v hv
    rw [hv', Option.some.injEq] at hw
    subst hw
    exact hgone hmem hfar'

/-! ## Deposits -/

/-- What some deposits have left of a state. -/
structure AfterDeposits (s : CachedBeaconState P) (count : Nat) (t : CachedBeaconState P) : Prop where
  eth1Data : t.eth1Data = s.eth1Data
  eth1DepositIndex : t.eth1DepositIndex = s.eth1DepositIndex + count
  currentShuffling : t.epochCtx.currentShuffling = s.epochCtx.currentShuffling
  balances : t.balances.length = t.validators.length
  validators : ∃ joined, t.validators = s.validators ++ joined

theorem AfterDeposits.start (h : s.balances.length = s.validators.length) : AfterDeposits s 0 s :=
  ⟨rfl, rfl, rfl, h, [], (List.append_nil _).symm⟩

def Proved (env : Env P) (depositRoot : Root) (index : Nat) (deposit : Deposit) : Prop :=
  verifyMerkleBranch env (env.depositDataRoot deposit.data) deposit.proof (DEPOSIT_CONTRACT_TREE_DEPTH + 1) index depositRoot =
    .ok true

theorem processDeposit_guarded (env : Env P) (fork : ForkName) (s : CachedBeaconState P) (deposit : Deposit) :
    Guarded (AfterDeposits s) (fun count op => Proved env s.eth1Data.depositRoot (s.eth1DepositIndex + count) op)
      (fun count _ => count + 1) (fun t op => processDeposit env fork t op) deposit := by
  refine Guarded.of_returns (fun count t h hproved => ?_) fun count t t' h hdeposit => ?_
  · obtain ⟨heth1Data, hindex, hshuffling, hbalances, joined, hvalidators⟩ := h
    rw [← hindex, ← heth1Data] at hproved
    refine (Returns.of_eq hproved).bind fun _ hverified => (Returns.check hverified).bind fun _ _ => ?_
    dsimp only
    cases hcached : (t.epochCtx.pubkey2index.get? deposit.data.pubkey).filter (· < t.validators.length) with
    | none =>
      by_cases hvalid : (env.publicKeyFromBytes deposit.data.pubkey true && env.verifyDepositSignature deposit.data) = true
      · rw [if_pos hvalid]
        have hparses := env.publicKeyFromBytes_of_validate _ (Bool.and_eq_true_iff.1 hvalid).1
        refine Returns.bind (Q := fun ctx => ctx.currentShuffling = t.epochCtx.currentShuffling)
          ((Returns.check hparses).bind fun _ _ => .pure rfl) fun ctx hctx => .pure ?_
        refine ⟨heth1Data, ?_, hctx.trans hshuffling, ?_, joined ++ [depositValidator P deposit.data], ?_⟩
        · simp [hindex, Nat.add_assoc]
        · simp [hbalances]
        · simp [hvalidators]
      · rw [if_neg hvalid]
        refine .pure ⟨heth1Data, ?_, hshuffling, hbalances, joined, hvalidators⟩
        simp [hindex, Nat.add_assoc]
    | some cachedIndex =>
      have hlt : cachedIndex < t.balances.length := by
        rw [hbalances]
        simpa using (Option.filter_eq_some_iff.1 hcached).2
      refine (Returns.of_eq (modifyAt_eq_ok.2 ⟨hlt, rfl⟩)).bind fun balances hmodified => .pure ?_
      subst hmodified
      refine ⟨heth1Data, ?_, hshuffling, ?_, joined, hvalidators⟩
      · simp [hindex, Nat.add_assoc]
      · simp [hbalances]
  · unfold processDeposit at hdeposit
    obtain ⟨verified, hverified, hdeposit⟩ := bind_eq_ok.1 hdeposit
    obtain ⟨_, hcheck, -⟩ := bind_eq_ok.1 hdeposit
    rw [check_eq_ok] at hcheck
    unfold Proved
    rw [← h.eth1DepositIndex, ← h.eth1Data, hverified, hcheck]

end Lodestar.StateTransition
