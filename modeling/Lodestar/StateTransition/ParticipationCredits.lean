import Lodestar.StateTransition.AttestationRewards
/-!
# ParticipationCredits — every flag is paid for once

A block pays its proposer for the flags its attestations are the first to set.  A flag that is set stays set in the list of its
epoch, which is the current one and then the previous one, and afterwards no attestation of the epoch is accepted.  So over any run
of slots and blocks of altair no flag of a validator and an epoch is paid for twice: `walkCredits_nodup`.
-/
namespace Lodestar.StateTransition

open Lib

variable {P : Preset} {env : Env P} {cfg : ChainConfig} {s s' t t' : CachedBeaconState P} {verify : Bool}

/-! ## Runs with what they pay for -/

def walkAttestations (env : Env P) (verify : Bool) : List Attestation → CachedBeaconState P →
    Except String (List Credit × CachedBeaconState P)
  | [], s => pure ([], s)
  | attestation :: attestations, s => do
    let credits ← attestationCredits s attestation
    let s₁ ← processAttestationAltair env s attestation verify
    let (rest, s') ← walkAttestations env verify attestations s₁
    pure (credits ++ rest, s')

def walkCredits (env : Env P) (cfg : ChainConfig) : List (Option BeaconBlock) → CachedBeaconState P →
    Except String (List Credit × CachedBeaconState P)
  | [], s => pure ([], s)
  | none :: steps, s => do
    let s₁ ← advanceSlot env cfg s
    walkCredits env cfg steps s₁
  | some block :: steps, s => do
    let t ← stateBeforeAttestations env cfg .altair s block true
    let paid ← walkAttestations env true block.body.attestations t
    let s₁ ← processBlock env cfg s block true
    let (rest, s') ← walkCredits env cfg steps s₁
    pure (paid.1 ++ rest, s')

/-! ## What has been paid for -/

def IsSet (participation : List ParticipationStatus) (credit : Credit) : Prop :=
  ∃ status, participation[credit.validator]? = some status ∧ hasFlag status credit.flagIndex = true

/-- The flags paid for so far: no flag twice, and those of the two epochs of the state are set. -/
structure Paid (s : CachedBeaconState P) (credits : List Credit) : Prop where
  nodup : credits.Nodup
  past : ∀ credit ∈ credits, credit.epoch ≤ getCurrentEpoch s.toBeaconState
  current : ∀ credit ∈ credits, credit.epoch = getCurrentEpoch s.toBeaconState → IsSet s.currentEpochParticipation credit
  previous : ∀ credit ∈ credits, credit.epoch + 1 = getCurrentEpoch s.toBeaconState → IsSet s.previousEpochParticipation credit

theorem paid_nil (s : CachedBeaconState P) : Paid s [] where
  nodup := List.nodup_nil
  past _ h := absurd h List.not_mem_nil
  current _ h := absurd h List.not_mem_nil
  previous _ h := absurd h List.not_mem_nil

variable {credit : Credit} {participation participation' : List ParticipationStatus}

theorem IsSet.append (h : IsSet participation credit) (more : List ParticipationStatus) :
    IsSet (participation ++ more) credit := by
  obtain ⟨status, hstatus, hflag⟩ := h
  exact ⟨status, by rw [List.getElem?_append_left (List.getElem?_eq_some_iff.1 hstatus).1, hstatus], hflag⟩

variable {credits : List Credit}

theorem Paid.keepsVotes (h : Paid s credits) (hkept : KeepsVotes s t) : Paid t credits := by
  have hepoch : getCurrentEpoch t.toBeaconState = getCurrentEpoch s.toBeaconState := congrArg (computeEpochAtSlot P) hkept.slot
  obtain ⟨added, -, hprevious, hcurrent⟩ := hkept.participation
  refine ⟨h.nodup, fun credit hcredit => hepoch ▸ h.past credit hcredit, fun credit hcredit he => ?_, fun credit hcredit he => ?_⟩
  · rw [hcurrent]
    exact (h.current credit hcredit (he.trans hepoch)).append _
  · rw [hprevious]
    exact (h.previous credit hcredit (he.trans hepoch)).append _

theorem Paid.slot (h : Paid s credits) (haltair : cfg.ALTAIR_FORK_EPOCH ≤ (getCurrentEpoch s.toBeaconState : ℕ∞))
    (hslot : advanceSlot env cfg s = .ok s') :
    Paid s' credits ∧ cfg.ALTAIR_FORK_EPOCH ≤ (getCurrentEpoch s'.toBeaconState : ℕ∞) := by
  rcases advanceSlot_split hslot with ⟨hepoch, rfl⟩ | ⟨t, ctx, hepoch, htransition, -, -, hnext⟩
  · refine ⟨⟨h.nodup, fun credit hcredit => hepoch ▸ h.past credit hcredit, fun credit hcredit he => ?_, fun credit hcredit he => ?_⟩,
      hepoch ▸ haltair⟩
    · exact h.current credit hcredit (he.trans hepoch)
    · exact h.previous credit hcredit (he.trans hepoch)
  · have hlater : cfg.ALTAIR_FORK_EPOCH < ((getCurrentEpoch s.toBeaconState + 1 : Nat) : ℕ∞) :=
      lt_of_le_of_lt haltair (by exact_mod_cast Nat.lt_succ_self _)
    rw [if_neg hlater.ne'] at hnext
    subst hnext
    have hfork : getForkName P cfg s.slot = .altair := if_pos haltair
    rw [hfork] at htransition
    obtain ⟨process, s₁, r, -, hjustified, hkept, hrotated⟩ := processEpochByFork_votes htransition
    have hcurrent₁ : s₁.currentEpochParticipation = s.currentEpochParticipation := by
      rw [processJustificationAndFinalization_frame hjustified]
      rfl
    obtain ⟨added, -, -, hcurrent₂⟩ := hkept.participation
    obtain ⟨added', -, hprevious, -⟩ := hrotated.participation
    have hlist : t.previousEpochParticipation = s.currentEpochParticipation ++ List.replicate added emptyParticipationStatus ++
        List.replicate added' emptyParticipationStatus := by
      rw [hprevious, ← hcurrent₁, ← hcurrent₂]
      rfl
    have hnow : getCurrentEpoch { t with slot := s.slot + 1, epochCtx := ctx }.toBeaconState = getCurrentEpoch s.toBeaconState + 1 :=
      hepoch
    rw [hnow]
    refine ⟨⟨h.nodup, fun credit hcredit => ?_, fun credit hcredit he => ?_, fun credit hcredit he => ?_⟩, hlater.le⟩
    · rw [hnow]
      exact (h.past credit hcredit).trans (Nat.le_succ _)
    · rw [hnow] at he
      have := h.past credit hcredit
      omega
    · rw [hnow] at he
      rw [hlist]
      exact ((h.current credit hcredit (Nat.succ.inj he)).append _).append _

theorem attestationCredits_new {attestation : Attestation} (hduties : HasDuties env cfg s.toBeaconState s.epochCtx)
    (hcredits : attestationCredits s attestation = .ok credits) (h : processAttestationAltair env s attestation verify = .ok s') :
    credits.Nodup ∧ ∀ credit ∈ credits,
      credit.epoch = attestation.data.target.epoch ∧ IsSet (s'.participationOf (isOfCurrentEpoch s attestation.data)) credit ∧
      ¬ IsSet (s.participationOf (isOfCurrentEpoch s attestation.data)) credit := by
  obtain ⟨-, hbounds, hset⟩ := processAttestationAltair_flags hduties h
  have hset := hset (isOfCurrentEpoch s attestation.data)
  have hvoters : (voters s attestation).Nodup ∧ credits = (voters s attestation).flatMap (newCredits (timelyFlags s attestation)
      (s.participationOf (isOfCurrentEpoch s attestation.data)) attestation.data.target.epoch) := by
    unfold attestationCredits at hcredits
    simp only [bind_eq_ok, pure_eq_ok] at hcredits
    obtain ⟨flags, hflags, indices, hindices, rfl⟩ := hcredits
    unfold voters timelyFlags
    rw [hflags, hindices]
    exact ⟨(hduties.attestingIndices hindices).1, rfl⟩
  obtain ⟨hnodup, rfl⟩ := hvoters
  refine ⟨?_, fun credit hcredit => ?_⟩
  · refine List.nodup_flatMap.2 ⟨fun i _ => ?_, hnodup.imp fun hne => ?_⟩
    · unfold newCredits
      refine (List.nodup_range.filter _).map fun flagIndex flagIndex' heq => ?_
      injection heq
    · unfold newCredits
      intro credit hleft hright
      simp only [List.mem_map] at hleft hright
      obtain ⟨_, -, rfl⟩ := hleft
      obtain ⟨_, -, heq⟩ := hright
      injection heq with hindex
      exact hne hindex.symm
  · obtain ⟨i, hi, hcredit⟩ := List.mem_flatMap.1 hcredit
    unfold newCredits at hcredit
    simp only [List.mem_map, List.mem_filter, Bool.and_eq_true, Bool.not_eq_true'] at hcredit
    obtain ⟨flagIndex, ⟨-, hflag, hnew⟩, rfl⟩ := hcredit
    obtain ⟨old, hold⟩ : ∃ old, (s.participationOf (isOfCurrentEpoch s attestation.data))[i]? = some old :=
      ⟨_, List.getElem?_eq_getElem (hbounds i hi)⟩
    have hafter := hset i flagIndex
    rw [hold] at hnew hafter
    refine ⟨rfl, ?_, ?_⟩
    · have hsets : setsFlag s (isOfCurrentEpoch s attestation.data) i flagIndex attestation = true := by simp [setsFlag, hi, hflag]
      rw [Option.map_some, hsets, Bool.or_true, Option.map_eq_some_iff] at hafter
      exact hafter
    · rintro ⟨status, hstatus, hon⟩
      rw [hold, Option.some.injEq] at hstatus
      subst hstatus
      rw [Option.any_some, hon] at hnew
      cases hnew

theorem IsSet.attestation {attestation : Attestation} (hduties : HasDuties env cfg s.toBeaconState s.epochCtx)
    (h : processAttestationAltair env s attestation verify = .ok s') {isCurrent : Bool}
    (hset : IsSet (s.participationOf isCurrent) credit) : IsSet (s'.participationOf isCurrent) credit := by
  obtain ⟨status, hstatus, hflag⟩ := hset
  obtain ⟨-, -, hflags⟩ := processAttestationAltair_flags hduties h
  have hafter := hflags isCurrent credit.validator credit.flagIndex
  rw [hstatus, Option.map_some, hflag, Bool.true_or, Option.map_eq_some_iff] at hafter
  exact hafter

theorem targetEpoch_of_accepted {attestation : Attestation} (hduties : HasDuties env cfg s.toBeaconState s.epochCtx)
    (h : validateAttestation s attestation = .ok ()) :
    (isOfCurrentEpoch s attestation.data = true ∧ attestation.data.target.epoch = getCurrentEpoch s.toBeaconState) ∨
    (isOfCurrentEpoch s attestation.data = false ∧ attestation.data.target.epoch + 1 = getCurrentEpoch s.toBeaconState) := by
  unfold validateAttestation at h
  simp only [bind_eq_ok, check_eq_ok, decide_eq_true_eq] at h
  obtain ⟨_, -, _, -, _, htarget, -⟩ := h
  unfold isOfCurrentEpoch
  rw [hduties.currentEpoch, hduties.previousEpoch] at *
  by_cases hcurrent : attestation.data.target.epoch = getCurrentEpoch s.toBeaconState
  · exact .inl ⟨decide_eq_true hcurrent, hcurrent⟩
  · refine .inr ⟨decide_eq_false hcurrent, ?_⟩
    have hprevious := htarget.resolve_right hcurrent
    unfold previousEpochOf GENESIS_EPOCH at hprevious
    split at hprevious
    · omega
    · omega

theorem Paid.attestation {attestation : Attestation} {credits new : List Credit} (hpaid : Paid s credits)
    (hduties : HasDuties env cfg s.toBeaconState s.epochCtx) (hnew : attestationCredits s attestation = .ok new)
    (h : processAttestationAltair env s attestation verify = .ok s') : Paid s' (credits ++ new) := by
  obtain ⟨flags, indices, participation, total, proposerIndex, hvalid, -⟩ := processAttestationAltair_run h
  obtain ⟨hground, -, -⟩ := processAttestationAltair_flags hduties h
  obtain ⟨hnodup, hfresh⟩ := attestationCredits_new hduties hnew h
  have hepoch : getCurrentEpoch s'.toBeaconState = getCurrentEpoch s.toBeaconState := congrArg (computeEpochAtSlot P) hground.slot
  have htarget := targetEpoch_of_accepted hduties hvalid
  have hold : ∀ (isCurrent : Bool) credit, IsSet (s.participationOf isCurrent) credit → IsSet (s'.participationOf isCurrent) credit :=
    fun _ _ => IsSet.attestation hduties h
  refine ⟨List.nodup_append.2 ⟨hpaid.nodup, hnodup, fun credit hcredit credit' hcredit' heq => ?_⟩, fun credit hcredit => ?_,
    fun credit hcredit he => ?_, fun credit hcredit he => ?_⟩
  · subst heq
    obtain ⟨hcreditEpoch, -, hunset⟩ := hfresh credit hcredit'
    rcases htarget with ⟨hcurrent, he⟩ | ⟨hprevious, he⟩
    · rw [hcurrent] at hunset
      exact hunset (hpaid.current credit hcredit (hcreditEpoch.trans he))
    · rw [hprevious] at hunset
      exact hunset (hpaid.previous credit hcredit (by rw [hcreditEpoch, he]))
  · rw [hepoch]
    rcases List.mem_append.1 hcredit with hcredit | hcredit
    · exact hpaid.past credit hcredit
    · rw [(hfresh credit hcredit).1]
      rcases htarget with ⟨-, he⟩ | ⟨-, he⟩ <;> omega
  · rw [hepoch] at he
    rcases List.mem_append.1 hcredit with hcredit | hcredit
    · exact hold true credit (hpaid.current credit hcredit he)
    · obtain ⟨hcreditEpoch, hset, -⟩ := hfresh credit hcredit
      rcases htarget with ⟨hcurrent, -⟩ | ⟨-, htarget⟩
      · rw [hcurrent] at hset
        exact hset
      · omega
  · rw [hepoch] at he
    rcases List.mem_append.1 hcredit with hcredit | hcredit
    · exact hold false credit (hpaid.previous credit hcredit he)
    · obtain ⟨hcreditEpoch, hset, -⟩ := hfresh credit hcredit
      rcases htarget with ⟨-, htarget⟩ | ⟨hprevious, -⟩
      · omega
      · rw [hprevious] at hset
        exact hset

/-! ## Whole runs -/

theorem Paid.attestations : ∀ (attestations : List Attestation) {s s' : CachedBeaconState P} {credits : List Credit},
    HasDuties env cfg s.toBeaconState s.epochCtx → Paid s credits →
    attestations.foldlM (fun state op => processAttestationAltair env state op verify) s = .ok s' →
    ∃ new, walkAttestations env verify attestations s = .ok (new, s') ∧ Paid s' (credits ++ new)
  | [], s, s', credits, _, hpaid, h => by
    rw [List.foldlM_nil, pure_eq_ok] at h
    subst h
    refine ⟨[], rfl, ?_⟩
    rw [List.append_nil]
    exact hpaid
  | attestation :: attestations, s, s', credits, hduties, hpaid, h => by
    obtain ⟨t, hfirst, hrest⟩ := bind_eq_ok.1 h
    obtain ⟨flags, indices, participation, total, proposerIndex, -, hflags, hindices, -⟩ := processAttestationAltair_run hfirst
    obtain ⟨first, hcredits⟩ : ∃ first, attestationCredits s attestation = .ok first := by
      unfold attestationCredits
      rw [hflags, hindices]
      exact ⟨_, rfl⟩
    obtain ⟨hground, -, -⟩ := processAttestationAltair_flags hduties hfirst
    obtain ⟨rest, hwalk, hpaid'⟩ := Paid.attestations attestations (hground.hasDuties hduties)
      (hpaid.attestation hduties hcredits hfirst) hrest
    refine ⟨first ++ rest, ?_, ?_⟩
    · unfold walkAttestations
      simp only [bind_eq_ok, pure_eq_ok]
      exact ⟨first, hcredits, t, hfirst, _, hwalk, rfl⟩
    · rw [← List.append_assoc]
      exact hpaid'

theorem Paid.block {block : BeaconBlock} (hpaid : Paid s credits) (hfresh : Fresh env cfg s)
    (haltair : cfg.ALTAIR_FORK_EPOCH ≤ (getCurrentEpoch s.toBeaconState : ℕ∞)) (hblock : processBlock env cfg s block true = .ok s') :
    ∃ t t' new, stateBeforeAttestations env cfg .altair s block true = .ok t ∧
      walkAttestations env true block.body.attestations t = .ok (new, t') ∧ Paid s' (credits ++ new) := by
  have hfork : getForkName P cfg block.slot = .altair := by
    rw [(processBlockByFork_applies hblock).slot]
    exact if_pos haltair
  unfold processBlock at hblock
  rw [hfork] at hblock
  obtain ⟨t, t', hbefore, hkept, hfold, hafter⟩ := processBlockByFork_votes hblock
  obtain ⟨hkeeps, hpos⟩ := stateBeforeAttestations_keeps hbefore hfresh.currentEpoch
  obtain ⟨new, hwalk, hpaid'⟩ := (hpaid.keepsVotes hkept).attestations _ (hfresh.block hkeeps hpos).duties hfold
  exact ⟨t, t', new, hbefore, hwalk, hpaid'.keepsVotes hafter⟩

theorem Paid.run : ∀ (steps : List (Option BeaconBlock)) {s s' : CachedBeaconState P} {turns : List Turn} {credits : List Credit},
    Fresh env cfg s → cfg.ALTAIR_FORK_EPOCH ≤ (getCurrentEpoch s.toBeaconState : ℕ∞) → Paid s credits →
    walk env cfg steps s = .ok (turns, s') → ∃ new, walkCredits env cfg steps s = .ok (new, s') ∧ Paid s' (credits ++ new)
  | [], s, s', turns, credits, _, _, hpaid, h => by
    cases h
    refine ⟨[], rfl, ?_⟩
    rw [List.append_nil]
    exact hpaid
  | none :: steps, s, s', turns, credits, hfresh, haltair, hpaid, h => by
    unfold walk at h
    simp only [bind_eq_ok, pure_eq_ok, Prod.mk.injEq] at h
    obtain ⟨s₁, hslot, ⟨turns', _⟩, hrest, -, rfl⟩ := h
    obtain ⟨hpaid', haltair'⟩ := hpaid.slot haltair hslot
    obtain ⟨new, hwalk, hpaid''⟩ := Paid.run steps (advanceSlot_fresh hslot hfresh) haltair' hpaid' hrest
    refine ⟨new, ?_, hpaid''⟩
    exact bind_eq_ok.2 ⟨s₁, hslot, hwalk⟩
  | some block :: steps, s, s', turns, credits, hfresh, haltair, hpaid, h => by
    unfold walk at h
    simp only [bind_eq_ok, pure_eq_ok, Prod.mk.injEq] at h
    obtain ⟨s₁, hblock, ⟨turns', _⟩, hrest, -, rfl⟩ := h
    have hepoch : getCurrentEpoch s₁.toBeaconState = getCurrentEpoch s.toBeaconState :=
      congrArg (computeEpochAtSlot P) (Path.processBlock_slot hblock)
    obtain ⟨t, t', first, hbefore, hfirst, hpaid'⟩ := hpaid.block hfresh haltair hblock
    obtain ⟨rest, hwalk, hpaid''⟩ := Paid.run steps (processBlock_fresh hblock hfresh) (hepoch ▸ haltair) hpaid' hrest
    refine ⟨first ++ rest, ?_, ?_⟩
    · unfold walkCredits
      simp only [bind_eq_ok, pure_eq_ok]
      exact ⟨t, hbefore, _, hfirst, s₁, hblock, _, hwalk, rfl⟩
    · rw [← List.append_assoc]
      exact hpaid''

/-- **No flag is paid for twice**, over any slots and blocks. -/
theorem walkCredits_nodup {steps : List (Option BeaconBlock)} {turns : List Turn} (hfresh : Fresh env cfg s)
    (haltair : cfg.ALTAIR_FORK_EPOCH ≤ (getCurrentEpoch s.toBeaconState : ℕ∞)) (h : walk env cfg steps s = .ok (turns, s')) :
    ∃ credits, walkCredits env cfg steps s = .ok (credits, s') ∧ credits.Nodup := by
  obtain ⟨credits, hwalk, hpaid⟩ := Paid.run steps hfresh haltair (paid_nil s) h
  exact ⟨credits, hwalk, hpaid.nodup⟩

/-! ## Any order -/

theorem participation_ext
    (h : ∀ (i flagIndex : Nat), (participation[i]?).map (hasFlag · flagIndex) = (participation'[i]?).map (hasFlag · flagIndex)) :
    participation = participation' := by
  apply List.ext_getElem?
  intro i
  have hsource := h i TIMELY_SOURCE_FLAG_INDEX
  have htarget := h i TIMELY_TARGET_FLAG_INDEX
  have hhead := h i TIMELY_HEAD_FLAG_INDEX
  cases hold : participation[i]? with
  | none =>
    cases hnew : participation'[i]? with
    | none => rfl
    | some status => simp [hold, hnew] at hsource
  | some status =>
    cases hnew : participation'[i]? with
    | none => simp [hold, hnew] at hsource
    | some status' =>
      rw [hold, hnew, Option.map_some, Option.map_some, Option.some.injEq] at hsource htarget hhead
      obtain ⟨head, target, source⟩ := status
      obtain ⟨head', target', source'⟩ := status'
      obtain rfl : source = source' := hsource
      obtain rfl : target = target' := htarget
      obtain rfl : head = head' := hhead
      rfl

theorem foldlM_processAttestationAltair_perm {attestations attestations' : List Attestation}
    (hduties : HasDuties env cfg s.toBeaconState s.epochCtx) (hperm : attestations'.Perm attestations)
    (h : attestations.foldlM (fun state op => processAttestationAltair env state op verify) s = .ok t)
    (h' : attestations'.foldlM (fun state op => processAttestationAltair env state op verify) s = .ok t') (isCurrent : Bool) :
    t'.participationOf isCurrent = t.participationOf isCurrent := by
  obtain ⟨-, hflags⟩ := foldlM_processAttestationAltair_flags attestations hduties h
  obtain ⟨-, hflags'⟩ := foldlM_processAttestationAltair_flags attestations' hduties h'
  apply participation_ext
  intro i flagIndex
  rw [hflags, hflags', hperm.any_eq]

/-- **What the attestations of a block leave in a state of altair**: each list of flags is the old one and what the attestations set,
in any order; each attestation pays what the specification pays for it, the base rewards by weight of the flags it is the first to
set; and over any slots and blocks that follow no flag is paid for twice. -/
theorem processAttestations_altair (hfresh : Fresh env cfg s)
    (haltair : cfg.ALTAIR_FORK_EPOCH ≤ (getCurrentEpoch s.toBeaconState : ℕ∞))
    (hmultiples : ∀ v ∈ s.validators, P.EFFECTIVE_BALANCE_INCREMENT ∣ v.effectiveBalance) :
    (∀ (attestations : List Attestation) verify s', attestations.foldlM (fun state op => processAttestationAltair env state op verify) s = .ok s' →
      (∀ isCurrent i flagIndex, ((s'.participationOf isCurrent)[i]?).map (hasFlag · flagIndex) =
        ((s.participationOf isCurrent)[i]?).map fun old =>
          hasFlag old flagIndex || attestations.any (setsFlag s isCurrent i flagIndex)) ∧
      (∀ (attestations' : List Attestation) s'', attestations'.Perm attestations →
        attestations'.foldlM (fun state op => processAttestationAltair env state op verify) s = .ok s'' →
        s''.previousEpochParticipation = s'.previousEpochParticipation ∧
        s''.currentEpochParticipation = s'.currentEpochParticipation) ∧
      ∀ before attestation after, attestations = before ++ attestation :: after → ∃ t t' totalBalance credits participation,
        before.foldlM (fun state op => processAttestationAltair env state op verify) s = .ok t ∧
        processAttestationAltair env t attestation verify = .ok t' ∧ specRewardAttestation t attestation = .ok t' ∧
        getTotalActiveBalance t.toBeaconState = .ok totalBalance ∧ attestationCredits t attestation = .ok credits ∧
        specUpdateParticipation t attestation = .ok (participation, (credits.map (creditValue t totalBalance)).sum)) ∧
    ∀ steps turns s', walk env cfg steps s = .ok (turns, s') →
      ∃ credits, walkCredits env cfg steps s = .ok (credits, s') ∧ credits.Nodup := by
  refine ⟨fun attestations verify s' h => ⟨?_, fun attestations' s'' hperm h' => ?_, ?_⟩,
    fun steps turns s' => walkCredits_nodup hfresh haltair⟩
  · exact (foldlM_processAttestationAltair_flags attestations hfresh.duties h).2
  · exact ⟨foldlM_processAttestationAltair_perm hfresh.duties hperm h h' false,
      foldlM_processAttestationAltair_perm hfresh.duties hperm h h' true⟩
  · rintro before attestation after rfl
    rw [List.foldlM_append] at h
    obtain ⟨t, hbefore, h⟩ := bind_eq_ok.1 h
    obtain ⟨t', hstep, -⟩ := bind_eq_ok.1 h
    obtain ⟨hground, -⟩ := foldlM_processAttestationAltair_flags before hfresh.duties hbefore
    have hepoch : getCurrentEpoch t.toBeaconState = getCurrentEpoch s.toBeaconState := congrArg (computeEpochAtSlot P) hground.slot
    obtain ⟨hspec, totalBalance, credits, participation, htotal, hcredits, hupdate⟩ :=
      processAttestationAltair_spec (hground.hasDuties hfresh.duties) (hepoch ▸ haltair) (hground.validators ▸ hmultiples) hstep
    exact ⟨t, t', totalBalance, credits, participation, hbefore, hstep, hspec, htotal, hcredits, hupdate⟩

def votesBlock : BeaconBlock :=
  let vote := fun (slot epoch : Nat) => ({
    aggregationBits := [true]
    data := {
      slot := slot, index := 0, beaconBlockRoot := zeroRoot
      source := { epoch := 0, root := zeroRoot }, target := { epoch := epoch, root := zeroRoot } }
    signature := Vector.replicate 96 0 } : Attestation)
  { depositBlock.message with
    slot := 23
    body := { depositBlock.message.body with attestations := [vote 19 2, vote 15 1, vote 19 2] } }

/-- The flags of the attestations, and what the block and the epoch transition after it pay for. -/
theorem processAttestations_altair_votes : ∃ s t credits s',
    createCachedBeaconState (plainEnv minimal) (minimalConfig 0) unevenParticipation noOpts = .ok s ∧
    votesBlock.body.attestations.foldlM (fun state op => processAttestationAltair (plainEnv minimal) state op true) s = .ok t ∧
    (∀ isCurrent i flagIndex, ((t.participationOf isCurrent)[i]?).map (hasFlag · flagIndex) =
      ((s.participationOf isCurrent)[i]?).map fun old =>
        hasFlag old flagIndex || votesBlock.body.attestations.any (setsFlag s isCurrent i flagIndex)) ∧
    walkCredits (plainEnv minimal) (minimalConfig 0) [some votesBlock, none] s = .ok (credits, s') ∧ credits.Nodup ∧
    credits = [{ validator := 1, epoch := 2, flagIndex := 1 }, { validator := 4, epoch := 1, flagIndex := 1 }] := by
  have heval : (createCachedBeaconState (plainEnv minimal) (minimalConfig 0) unevenParticipation noOpts >>= fun s =>
      votesBlock.body.attestations.foldlM (fun state op => processAttestationAltair (plainEnv minimal) state op true) s >>= fun _ =>
        walk (plainEnv minimal) (minimalConfig 0) [some votesBlock, none] s >>= fun _ =>
          (walkCredits (plainEnv minimal) (minimalConfig 0) [some votesBlock, none] s).map fun paid =>
            (s.validators.all fun v => decide (minimal.EFFECTIVE_BALANCE_INCREMENT ∣ v.effectiveBalance), paid.1)) =
      .ok (true, [{ validator := 1, epoch := 2, flagIndex := 1 }, { validator := 4, epoch := 1, flagIndex := 1 }]) := by
    decide +kernel
  obtain ⟨s, hs, heval⟩ := bind_eq_ok.1 heval
  obtain ⟨t, ht, heval⟩ := bind_eq_ok.1 heval
  obtain ⟨⟨turns, s'⟩, hwalk, heval⟩ := bind_eq_ok.1 heval
  obtain ⟨paid, hpaid, heval⟩ := map_eq_ok.1 heval
  simp only [Prod.mk.injEq, decide_eq_true_eq, List.all_eq_true] at heval
  obtain ⟨hmultiples, hcredits⟩ := heval
  obtain ⟨hblock, hruns⟩ := processAttestations_altair (createCachedBeaconState_fresh hs) zero_le hmultiples
  obtain ⟨credits, hwalkCredits, hnodup⟩ := hruns _ turns s' hwalk
  obtain rfl : paid = (credits, s') := Except.ok.inj (hpaid.symm.trans hwalkCredits)
  exact ⟨s, t, credits, s', hs, ht, (hblock _ true t ht).1, hwalkCredits, hnodup, hcredits⟩

end Lodestar.StateTransition
