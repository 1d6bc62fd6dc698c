import Lodestar.LightClient.LightClientUpdater
import Lodestar.LightClient.Rotations
import Lodestar.StateTransition.EpochCache
/-!
# BestUpdates — the update kept for a period is the best that could have been made

The server's `isBetterUpdate` is a total preorder on updates, finality before bits.  A signature gives up to two candidates
(`candidates`), and where both are of one period the one with finality has the same bits, so comparing it alone is enough.
-/
namespace Lodestar.LightClient

open Lib StateTransition

variable {P : Preset} {crypto : Crypto}

/-! ## The order of updates -/

namespace Server

variable {u v : LightClientUpdate}

theorem isBetterUpdate_iff : isBetterUpdate u v = true ↔
    (isFinalizedUpdate v = true ∧ isFinalizedUpdate u = false) ∨
      (isFinalizedUpdate v = isFinalizedUpdate u ∧ sumBits u.syncCommitteeBits ≤ sumBits v.syncCommitteeBits) := by
  unfold isBetterUpdate
  cases isFinalizedUpdate u <;> cases isFinalizedUpdate v <;> simp

theorem isBetterUpdate_refl (u : LightClientUpdate) : isBetterUpdate u u = true :=
  isBetterUpdate_iff.2 (.inr ⟨rfl, le_refl _⟩)

theorem isBetterUpdate_trans {u v w : LightClientUpdate} (huv : isBetterUpdate u v = true) (hvw : isBetterUpdate v w = true) :
    isBetterUpdate u w = true := by
  rw [isBetterUpdate_iff] at huv hvw ⊢
  rcases huv with ⟨hv, hu⟩ | ⟨hv, hu⟩ <;> rcases hvw with ⟨hw, hv'⟩ | ⟨hw, hv'⟩
  · rw [hv] at hv'
    cases hv'
  · exact .inl ⟨hw.trans hv, hu⟩
  · exact .inl ⟨hw, hv ▸ hv'⟩
  · exact .inr ⟨hw.trans hv, hu.trans hv'⟩

theorem isBetterUpdate_total (h : isBetterUpdate u v = false) : isBetterUpdate v u = true := by
  rw [← Bool.not_eq_true, isBetterUpdate_iff] at h
  rw [isBetterUpdate_iff]
  cases hu : isFinalizedUpdate u <;> cases hv : isFinalizedUpdate v <;> simp_all <;> omega

theorem isBetterUpdate_finalized (attested : SyncAttestedData) (finalizedData : FinalizedCheckpointData)
    (signatureData : CommitteeSignatureData) :
    isBetterUpdate (nonFinalizedUpdate attested signatureData) (finalizedUpdate attested finalizedData signatureData) = true := by
  rw [isBetterUpdate_iff]
  have hnot : isFinalizedUpdate (nonFinalizedUpdate attested signatureData) = false := rfl
  rw [hnot]
  cases isFinalizedUpdate (finalizedUpdate attested finalizedData signatureData) with
  | false => exact .inr ⟨rfl, le_refl _⟩
  | true => exact .inl ⟨rfl, rfl⟩

end Server

/-! ## What could have been made -/

structure Candidate where
  update : LightClientUpdate
  signatureSlot : Nat

def signatureCandidates (P : Preset) (db : LightClientUpdaterDb) (attested : SyncAttestedData)
    (signatureData : CommitteeSignatureData) : List Candidate :=
  let signaturePeriod := computeSyncPeriodAtSlot P signatureData.slot
  let finalized := (db.lightclientFinalizedCheckpoint.get? attested.finalizedCheckpoint.epoch).toList.map fun finalizedData =>
    ({ update := finalizedUpdate attested finalizedData signatureData, signatureSlot := signatureData.slot } : Candidate)
  let nonFinalized := { update := nonFinalizedUpdate attested signatureData, signatureSlot := signatureData.slot }
  (finalized ++ [nonFinalized]).filter fun candidate => candidate.update.period P = signaturePeriod

def attestedData (env : ServerEnv P) (updater : LightClientUpdater) (block : BeaconBlock) (postState : BeaconState P) :
    Option SyncAttestedData :=
  match getBlockRootAtSlot postState (postState.slot - 1) with
  | .error _ => none
  | .ok root => (updater.setHeadData env block postState).prevHeadData.get? (toHexString root)

def candidates (env : ServerEnv P) (updater : LightClientUpdater) : ServerCall P → List Candidate
  | .onHead block postState =>
    (attestedData env updater block postState).toList.flatMap fun attested =>
      signatureCandidates P updater.db attested (committeeSignatureData block postState)
  | .onFinalized _ _ _ => []

def built (env : ServerEnv P) : LightClientUpdater → List (ServerCall P) → List Candidate
  | _, [] => []
  | updater, call :: calls => candidates env updater call ++ built env (updater.step env call) calls

def AttestedBetween (env : ServerEnv P) (updater : LightClientUpdater) : ServerCall P → Prop
  | .onHead block postState => ∀ attested ∈ attestedData env updater block postState,
      attested.header.slot ≤ block.slot ∧
      ∀ finalizedData ∈ updater.db.lightclientFinalizedCheckpoint.get? attested.finalizedCheckpoint.epoch,
        finalizedData.header.slot ≤ attested.header.slot
  | .onFinalized _ _ _ => True

instance (env : ServerEnv P) (updater : LightClientUpdater) :
    (call : ServerCall P) → Decidable (AttestedBetween env updater call)
  | .onHead block postState => inferInstanceAs (Decidable (∀ attested ∈ attestedData env updater block postState, _))
  | .onFinalized _ _ _ => .isTrue trivial

def RunsBetween (env : ServerEnv P) : LightClientUpdater → List (ServerCall P) → Prop
  | _, [] => True
  | updater, call :: calls => AttestedBetween env updater call ∧ RunsBetween env (updater.step env call) calls

instance instDecidableRunsBetween (env : ServerEnv P) : (updater : LightClientUpdater) → (calls : List (ServerCall P)) →
    Decidable (RunsBetween env updater calls)
  | _, [] => .isTrue trivial
  | updater, call :: calls =>
    have := instDecidableRunsBetween env (updater.step env call) calls
    inferInstanceAs (Decidable (AttestedBetween env updater call ∧ RunsBetween env (updater.step env call) calls))

/-- The header, the finality header where there is one, and the signature are all of the period. -/
structure InPeriod (P : Preset) (period : Nat) (candidate : Candidate) : Prop where
  header : candidate.update.period P = period
  finality : isEmptyHeader candidate.update.finalityHeader = false →
    computeSyncPeriodAtSlot P candidate.update.finalityHeader.slot = period
  signature : computeSyncPeriodAtSlot P candidate.signatureSlot = period

theorem computeSyncPeriodAtSlot_mono {slot slot' : Nat} (h : slot ≤ slot') :
    computeSyncPeriodAtSlot P slot ≤ computeSyncPeriodAtSlot P slot' :=
  Nat.div_le_div_right (Nat.div_le_div_right h)

variable {db : LightClientUpdaterDb} {attested : SyncAttestedData} {signatureData : CommitteeSignatureData}

variable {candidate c d : Candidate}

theorem signatureCandidates_inPeriod (hsigned : attested.header.slot ≤ signatureData.slot)
    (hfinalized : ∀ finalizedData ∈ db.lightclientFinalizedCheckpoint.get? attested.finalizedCheckpoint.epoch, finalizedData.header.slot ≤ attested.header.slot)
    (h : candidate ∈ signatureCandidates P db attested signatureData) :
    InPeriod P (candidate.update.period P) candidate := by
  unfold signatureCandidates at h
  rw [List.mem_filter] at h
  obtain ⟨hmem, hperiod⟩ := h
  rw [decide_eq_true_eq] at hperiod
  rcases List.mem_append.1 hmem with hmem | hmem
  · obtain ⟨finalizedData, hdata, rfl⟩ := List.mem_map.1 hmem
    rw [Option.mem_toList] at hdata
    refine ⟨rfl, fun _ => ?_, hperiod.symm⟩
    have hle := computeSyncPeriodAtSlot_mono (P := P) (hfinalized finalizedData hdata)
    have hge := computeSyncPeriodAtSlot_mono (P := P) hsigned
    rw [← hperiod] at hge
    exact Nat.le_antisymm hge hle
  · obtain rfl := List.mem_singleton.1 hmem
    refine ⟨rfl, fun hempty => ?_, hperiod.symm⟩
    cases hempty

/-! ## What a call does to the best updates -/

/-- The best updates get no worse, are no worse than the candidates, and nothing else comes in. -/
structure Absorbs (P : Preset) (cs : List Candidate) (best best' : OrderedMap Nat LightClientUpdate) : Prop where
  keeps : ∀ period prev, best.get? period = some prev →
    ∃ stored, best'.get? period = some stored ∧ Server.isBetterUpdate prev stored = true
  covers : ∀ c ∈ cs, ∃ stored, best'.get? (c.update.period P) = some stored ∧ Server.isBetterUpdate c.update stored = true
  origin : ∀ period stored, best'.get? period = some stored →
    best.get? period = some stored ∨ ∃ c ∈ cs, c.update = stored ∧ c.update.period P = period

theorem Absorbs.nil (best : OrderedMap Nat LightClientUpdate) : Absorbs P [] best best where
  keeps _ prev h := ⟨prev, h, Server.isBetterUpdate_refl prev⟩
  covers _ h := absurd h List.not_mem_nil
  origin _ _ h := .inl h

variable {best best' best'' : OrderedMap Nat LightClientUpdate}

theorem Absorbs.append {cs ds : List Candidate} (hcs : Absorbs P cs best best') (hds : Absorbs P ds best' best'')
    : Absorbs P (cs ++ ds) best best'' where
  keeps period prev h := by
    obtain ⟨stored, hstored, hbetter⟩ := hcs.keeps period prev h
    obtain ⟨stored', hstored', hbetter'⟩ := hds.keeps period stored hstored
    exact ⟨stored', hstored', Server.isBetterUpdate_trans hbetter hbetter'⟩
  covers c h := by
    rcases List.mem_append.1 h with h | h
    · obtain ⟨stored, hstored, hbetter⟩ := hcs.covers c h
      obtain ⟨stored', hstored', hbetter'⟩ := hds.keeps _ stored hstored
      exact ⟨stored', hstored', Server.isBetterUpdate_trans hbetter hbetter'⟩
    · exact hds.covers c h
  origin period stored h := by
    rcases hds.origin period stored h with h | ⟨c, hc, hstored⟩
    · rcases hcs.origin period stored h with h | ⟨c, hc, hstored⟩
      · exact .inl h
      · exact .inr ⟨c, List.mem_append_left _ hc, hstored⟩
    · exact .inr ⟨c, List.mem_append_right _ hc, hstored⟩

theorem Absorbs.with_worse (h : Absorbs P [c] best best') (hperiod : d.update.period P = c.update.period P)
    (hworse : Server.isBetterUpdate d.update c.update = true) : Absorbs P [c, d] best best' where
  keeps := h.keeps
  covers e he := by
    obtain ⟨stored, hstored, hbetter⟩ := h.covers c List.mem_cons_self
    rcases List.mem_cons.1 he with rfl | he
    · exact ⟨stored, hstored, hbetter⟩
    · obtain rfl := List.mem_singleton.1 he
      exact ⟨stored, hperiod ▸ hstored, Server.isBetterUpdate_trans hworse hbetter⟩
  origin period stored hstored := by
    rcases h.origin period stored hstored with h | ⟨e, he, hstored⟩
    · exact .inl h
    · exact .inr ⟨e, List.mem_cons.2 (.inl (List.mem_singleton.1 he)), hstored⟩

theorem putBest_absorbs (best : OrderedMap Nat LightClientUpdate) (c : Candidate) :
    Absorbs P [c] best (putBest best (c.update.period P) c.update) := by
  unfold putBest
  split
  · rename_i hbetter
    constructor
    · intro period prev hprev
      by_cases hperiod : period = c.update.period P
      · subst hperiod
        rw [hprev] at hbetter
        exact ⟨c.update, by rw [OrderedMap.get?_set, if_pos rfl], hbetter⟩
      · exact ⟨prev, by rw [OrderedMap.get?_set, if_neg hperiod, hprev], Server.isBetterUpdate_refl prev⟩
    · intro d hd
      obtain rfl := List.mem_singleton.1 hd
      exact ⟨d.update, by rw [OrderedMap.get?_set, if_pos rfl], Server.isBetterUpdate_refl d.update⟩
    · intro period stored hstored
      rw [OrderedMap.get?_set] at hstored
      split at hstored
      · rename_i hperiod
        exact .inr ⟨c, List.mem_singleton_self c, Option.some.inj hstored, hperiod.symm⟩
      · exact .inl hstored
  · rename_i hworse
    constructor
    · intro period prev hprev
      exact ⟨prev, hprev, Server.isBetterUpdate_refl prev⟩
    · intro d hd
      obtain rfl := List.mem_singleton.1 hd
      cases hprev : best.get? (d.update.period P) with
      | none =>
        rw [hprev] at hworse
        exact absurd rfl hworse
      | some prev =>
        rw [hprev, Option.all_some, Bool.not_eq_true] at hworse
        exact ⟨prev, rfl, Server.isBetterUpdate_total hworse⟩
    · intro period stored hstored
      exact .inl hstored

section

variable (db : LightClientUpdaterDb) (attested : SyncAttestedData) (signatureData : CommitteeSignatureData)

theorem persistBestNonFinalizedUpdate_best (withFinalized : Option Nat) :
    (persistBestNonFinalizedUpdate P db attested signatureData withFinalized).bestUpdatePerCommitteePeriod =
      if computeSyncPeriodAtSlot P attested.header.slot = computeSyncPeriodAtSlot P signatureData.slot ∧
          withFinalized ≠ some (computeSyncPeriodAtSlot P attested.header.slot) then
        putBest db.bestUpdatePerCommitteePeriod (computeSyncPeriodAtSlot P attested.header.slot)
          (nonFinalizedUpdate attested signatureData)
      else db.bestUpdatePerCommitteePeriod := by
  unfold persistBestNonFinalizedUpdate
  dsimp only
  by_cases hperiod : computeSyncPeriodAtSlot P attested.header.slot = computeSyncPeriodAtSlot P signatureData.slot
  · rw [if_neg (not_not.2 hperiod)]
    by_cases hskip : withFinalized ≠ some (computeSyncPeriodAtSlot P attested.header.slot)
    · rw [if_pos hskip, if_pos (And.intro hperiod hskip)]
      split <;> rfl
    · have hnot : ¬ (computeSyncPeriodAtSlot P attested.header.slot = computeSyncPeriodAtSlot P signatureData.slot ∧
          withFinalized ≠ some (computeSyncPeriodAtSlot P attested.header.slot)) := fun h => hskip h.2
      rw [if_neg hskip, if_neg hnot]
      split <;> rfl
  · have hnot : ¬ (computeSyncPeriodAtSlot P attested.header.slot = computeSyncPeriodAtSlot P signatureData.slot ∧
        withFinalized ≠ some (computeSyncPeriodAtSlot P attested.header.slot)) := fun h => hperiod h.1
    rw [if_pos hperiod, if_neg hnot]

theorem persistBestNonFinalizedUpdate_absorbs :
    Absorbs P (([{ update := nonFinalizedUpdate attested signatureData, signatureSlot := signatureData.slot }] :
          List Candidate).filter fun candidate => candidate.update.period P = computeSyncPeriodAtSlot P signatureData.slot)
      db.bestUpdatePerCommitteePeriod
      (persistBestNonFinalizedUpdate P db attested signatureData none).bestUpdatePerCommitteePeriod := by
  rw [persistBestNonFinalizedUpdate_best]
  by_cases hperiod : computeSyncPeriodAtSlot P attested.header.slot = computeSyncPeriodAtSlot P signatureData.slot
  · rw [if_pos ⟨hperiod, by simp⟩, List.filter_cons_of_pos (by exact decide_eq_true hperiod), List.filter_nil]
    exact putBest_absorbs db.bestUpdatePerCommitteePeriod
      { update := nonFinalizedUpdate attested signatureData, signatureSlot := signatureData.slot }
  · rw [if_neg fun h => hperiod h.1, List.filter_cons_of_neg (by exact fun h => hperiod (of_decide_eq_true h)), List.filter_nil]
    exact .nil _

end

theorem persistBestFinalizedUpdate_some {finalizedData : FinalizedCheckpointData}
    (hdata : db.lightclientFinalizedCheckpoint.get? attested.finalizedCheckpoint.epoch = some finalizedData)
    (hperiod : computeSyncPeriodAtSlot P finalizedData.header.slot = computeSyncPeriodAtSlot P signatureData.slot) :
    (persistBestFinalizedUpdate P db attested signatureData).1.bestUpdatePerCommitteePeriod =
        putBest db.bestUpdatePerCommitteePeriod (computeSyncPeriodAtSlot P finalizedData.header.slot)
          (finalizedUpdate attested finalizedData signatureData) ∧
      (persistBestFinalizedUpdate P db attested signatureData).2 =
        some (computeSyncPeriodAtSlot P finalizedData.header.slot) := by
  unfold persistBestFinalizedUpdate
  rw [hdata]
  dsimp only
  rw [if_neg (not_not.2 hperiod)]
  constructor
  · dsimp only
    split <;> rfl
  · rfl

theorem persistBestFinalizedUpdate_none
    (h : ∀ finalizedData, db.lightclientFinalizedCheckpoint.get? attested.finalizedCheckpoint.epoch = some finalizedData →
      computeSyncPeriodAtSlot P finalizedData.header.slot ≠ computeSyncPeriodAtSlot P signatureData.slot) :
    persistBestFinalizedUpdate P db attested signatureData = (db, none) := by
  unfold persistBestFinalizedUpdate
  cases hdata : db.lightclientFinalizedCheckpoint.get? attested.finalizedCheckpoint.epoch with
  | none => rfl
  | some finalizedData => exact if_pos (h finalizedData hdata)

theorem persist_absorbs (hsigned : attested.header.slot ≤ signatureData.slot)
    (hfinalized : ∀ finalizedData ∈ db.lightclientFinalizedCheckpoint.get? attested.finalizedCheckpoint.epoch,
      finalizedData.header.slot ≤ attested.header.slot) :
    Absorbs P (signatureCandidates P db attested signatureData) db.bestUpdatePerCommitteePeriod
      (persistBestNonFinalizedUpdate P (persistBestFinalizedUpdate P db attested signatureData).1 attested signatureData
        (persistBestFinalizedUpdate P db attested signatureData).2).bestUpdatePerCommitteePeriod := by
  unfold signatureCandidates
  dsimp only
  cases hdata : db.lightclientFinalizedCheckpoint.get? attested.finalizedCheckpoint.epoch with
  | none =>
    rw [persistBestFinalizedUpdate_none fun finalizedData h => by cases hdata.symm.trans h]
    exact persistBestNonFinalizedUpdate_absorbs db attested signatureData
  | some finalizedData =>
    rw [Option.toList_some, List.map_singleton, List.singleton_append]
    by_cases hperiod : computeSyncPeriodAtSlot P finalizedData.header.slot = computeSyncPeriodAtSlot P signatureData.slot
    · -- the attested header is between the two, so of their period, and the second pass is skipped
      have hattested : computeSyncPeriodAtSlot P attested.header.slot = computeSyncPeriodAtSlot P finalizedData.header.slot :=
        Nat.le_antisymm (hperiod ▸ computeSyncPeriodAtSlot_mono hsigned)
          (computeSyncPeriodAtSlot_mono (hfinalized finalizedData hdata))
      obtain ⟨hbest, hsome⟩ := persistBestFinalizedUpdate_some hdata hperiod
      rw [persistBestNonFinalizedUpdate_best, hsome, hbest, if_neg fun h => h.2 (by rw [hattested]),
        List.filter_cons_of_pos (by exact decide_eq_true hperiod),
        List.filter_cons_of_pos (by exact decide_eq_true (hattested.trans hperiod)), List.filter_nil]
      refine (putBest_absorbs db.bestUpdatePerCommitteePeriod
        { update := finalizedUpdate attested finalizedData signatureData, signatureSlot := signatureData.slot }).with_worse
        hattested (Server.isBetterUpdate_finalized attested finalizedData signatureData)
    · rw [persistBestFinalizedUpdate_none fun finalizedData' h => by cases hdata.symm.trans h; exact hperiod,
        List.filter_cons_of_neg (by exact fun h => hperiod (of_decide_eq_true h))]
      exact persistBestNonFinalizedUpdate_absorbs db attested signatureData

variable {env : ServerEnv P} {updater : LightClientUpdater} {call : ServerCall P}

theorem step_absorbs (hbetween : AttestedBetween env updater call) :
    Absorbs P (candidates env updater call) updater.db.bestUpdatePerCommitteePeriod
      (updater.step env call).db.bestUpdatePerCommitteePeriod := by
  cases call with
  | onFinalized checkpoint block postState => exact .nil _
  | onHead block postState =>
    unfold AttestedBetween attestedData at hbetween
    unfold candidates attestedData LightClientUpdater.step LightClientUpdater.onHead
    dsimp only at hbetween ⊢
    cases hroot : getBlockRootAtSlot postState (postState.slot - 1) with
    | error e => exact .nil _
    | ok root =>
      rw [hroot] at hbetween
      dsimp only
      cases hattested : (updater.setHeadData env block postState).prevHeadData.get? (toHexString root) with
      | none => exact .nil _
      | some attested =>
        obtain ⟨hsigned, hfinalized⟩ := hbetween attested hattested
        rw [Option.toList_some, List.flatMap_singleton]
        exact persist_absorbs hsigned hfinalized

/-! ## Runs -/

theorem candidates_inPeriod (hbetween : AttestedBetween env updater call) (hc : c ∈ candidates env updater call) :
    InPeriod P (c.update.period P) c := by
  cases call with
  | onFinalized checkpoint block postState => exact absurd hc List.not_mem_nil
  | onHead block postState =>
    obtain ⟨attested, hattested, hc⟩ := List.mem_flatMap.1 hc
    obtain ⟨hsigned, hfinalized⟩ := hbetween attested (Option.mem_toList.1 hattested)
    exact signatureCandidates_inPeriod hsigned hfinalized hc

theorem built_inPeriod : ∀ {calls : List (ServerCall P)} {updater : LightClientUpdater},
    RunsBetween env updater calls → ∀ c ∈ built env updater calls, InPeriod P (c.update.period P) c
  | [], _, _, c, hc => absurd hc List.not_mem_nil
  | call :: calls, updater, ⟨hbetween, hrest⟩, c, hc => by
    rcases List.mem_append.1 hc with hc | hc
    · exact candidates_inPeriod hbetween hc
    · exact built_inPeriod hrest c hc

theorem run_absorbs : ∀ {calls : List (ServerCall P)} {updater : LightClientUpdater},
    RunsBetween env updater calls → Absorbs P (built env updater calls) updater.db.bestUpdatePerCommitteePeriod
      (calls.foldl (LightClientUpdater.step env) updater).db.bestUpdatePerCommitteePeriod
  | [], _, _ => .nil _
  | _ :: _, _, ⟨hbetween, hrest⟩ => (step_absorbs hbetween).append (run_absorbs hrest)

structure PassesPeriodChecks (P : Preset) (snapshot : LightClientSnapshotFast crypto) (update : LightClientUpdate) : Prop where
  period : update.period P = snapshot.period P ∨ update.period P = snapshot.period P + 1
  finality : isEmptyHeader update.finalityHeader = false →
    computeSyncPeriodAtSlot P update.finalityHeader.slot = update.period P

/-- **The update kept for a period** was made in a run of calls, is all of that period, and so passes the period checks of a
client in the period or the one before; and it is no worse than any update that could have been made for the period. -/
theorem bestUpdatePerCommitteePeriod_best (crypto : Crypto) (env : ServerEnv P) (calls : List (ServerCall P))
    (hbetween : RunsBetween env .new calls) :
    (∀ period stored, (LightClientUpdater.run env calls).db.bestUpdatePerCommitteePeriod.get? period = some stored →
      (∃ c ∈ built env .new calls, c.update = stored ∧ InPeriod P period c) ∧
        ∀ snapshot : LightClientSnapshotFast crypto, snapshot.period P = period ∨ snapshot.period P + 1 = period →
          PassesPeriodChecks P snapshot stored) ∧
      ∀ c ∈ built env .new calls, ∃ stored,
        (LightClientUpdater.run env calls).db.bestUpdatePerCommitteePeriod.get? (c.update.period P) = some stored ∧
          Server.isBetterUpdate c.update stored = true := by
  have habsorbs := run_absorbs hbetween
  refine ⟨fun period stored hstored => ?_, habsorbs.covers⟩
  rcases habsorbs.origin period stored hstored with hnone | ⟨c, hc, rfl, rfl⟩
  · cases hnone
  · have hin := built_inPeriod hbetween c hc
    refine ⟨⟨c, hc, rfl, hin⟩, fun snapshot hsnapshot => ⟨?_, hin.finality⟩⟩
    rcases hsnapshot with hsame | hnext
    · exact .inl hsame.symm
    · exact .inr hnext.symm

/-! ## A finalized checkpoint and two heads -/

def slotEnv : ServerEnv minimal where
  blockRoot block := Vector.replicate 32 (UInt8.ofNat block.slot)
  bodyRoot _ := zeroRoot
  getSingleProof _ _ := Vector.replicate _ zeroRoot

def headBlock (slot : Nat) : BeaconBlock :=
  { depositBlock.message with slot, stateRoot := Vector.replicate 32 1 }

def headState (slot parentSlot : Nat) : BeaconState minimal :=
  { awaitingDeposit with slot, blockRoots := Vector.replicate _ (Vector.replicate 32 (UInt8.ofNat parentSlot)) }

def headCalls : List (ServerCall minimal) :=
  [.onFinalized ⟨0, zeroRoot⟩ (headBlock 0) (headState 0 0), .onHead (headBlock 8) (headState 8 0),
    .onHead (headBlock 9) (headState 9 8)]

/-- The second head makes two candidates, and the one with finality is kept. -/
theorem bestUpdatePerCommitteePeriod_best_heads :
    ((LightClientUpdater.run slotEnv headCalls).db.bestUpdatePerCommitteePeriod.get? 0).map (·.finalityHeader.slot) = some 8 ∧
    (built slotEnv .new headCalls).length = 2 ∧ ∀ c ∈ built slotEnv .new headCalls, ∃ stored,
      (LightClientUpdater.run slotEnv headCalls).db.bestUpdatePerCommitteePeriod.get? (c.update.period minimal) = some stored ∧
        Server.isBetterUpdate c.update stored = true :=
  ⟨by decide +kernel, by decide +kernel,
    (bestUpdatePerCommitteePeriod_best plainCrypto slotEnv headCalls (by decide +kernel)).2⟩

end Lodestar.LightClient
