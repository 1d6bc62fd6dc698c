import Lodestar.LightClient.Update
import Lodestar.StateTransition.Util
/-!
# LightClientIniter — the proofs that start a light client

The proof of a state holds the sections of its two sync committees.  They are cut out and stored by their sync periods, once for
all epochs of a period; the rest is stored by the epoch of the checkpoint.  A proof is put together again from the rest and the
committees of the period of that epoch.

The committees are stored under the period of the finalized *block*, which is before that of the checkpoint's epoch where the
slots before the epoch were skipped and the epoch starts a period.  What is put together is then not the proof of a state
(`handleAll_returns_iff`).
-/
namespace Lodestar.LightClient

open Lib StateTransition

@[ext] structure TreeOffsetProof where
  offsets : List Nat
  leaves : List Root
deriving DecidableEq

def syncProofLeavesLength (P : Preset) : Nat := P.SYNC_COMMITTEE_SIZE * 2 + 2

def splice {α : Type} (arr : List α) (start deleteCount : Nat) : List α × List α :=
  ((arr.drop start).take deleteCount, arr.take start ++ arr.drop (start + deleteCount))

def spliceIn {α : Type} (arr : List α) (start : Nat) (items : List α) : List α := arr.take start ++ items ++ arr.drop start

structure InitProofDb where
  lightClientInitProof : OrderedMap Nat TreeOffsetProof
  lightClientSyncCommitteeProof : OrderedMap Nat TreeOffsetProof

def keysBelow (repository : OrderedMap Nat TreeOffsetProof) (bound : Nat) : List Nat :=
  (repository.entries.map (·.1)).filter fun key => decide (key < bound)

def getInitProofByEpoch (P : Preset) (db : InitProofDb) (epoch : Nat) : Option TreeOffsetProof :=
  let currentPeriod := computeSyncPeriodAtEpoch P epoch
  let nextPeriod := currentPeriod + 1
  match db.lightClientInitProof.get? epoch, db.lightClientSyncCommitteeProof.get? currentPeriod,
    db.lightClientSyncCommitteeProof.get? nextPeriod with
  | some stateProof, some currentSyncCommitteeProof, some nextSyncCommitteeProof =>
    -- splice in committee proofs, and re-add the offsets that were removed
    some
      { offsets := spliceIn stateProof.offsets 7
          ([1, syncProofLeavesLength P] ++ currentSyncCommitteeProof.offsets ++ nextSyncCommitteeProof.offsets)
        leaves := spliceIn stateProof.leaves 7 (currentSyncCommitteeProof.leaves ++ nextSyncCommitteeProof.leaves) }
  | _, _, _ => none

structure CutProof where
  stateProof : TreeOffsetProof
  currentSyncCommitteeProof : TreeOffsetProof
  nextSyncCommitteeProof : TreeOffsetProof

def cutProof (stateProof : TreeOffsetProof) : CutProof :=
  -- these two will always be 1, syncProofLeavesLength
  let offsets := (splice stateProof.offsets 7 2).2
  let (currentOffsets, offsets) := splice offsets 7 1025
  let (currentLeaves, leaves) := splice stateProof.leaves 7 1026
  let (nextOffsets, offsets) := splice offsets 7 1025
  let (nextLeaves, leaves) := splice leaves 7 1026
  ⟨⟨offsets, leaves⟩, ⟨currentOffsets, currentLeaves⟩, ⟨nextOffsets, nextLeaves⟩⟩

structure FinalizedSummary where
  slot : Nat
  stateRoot : Root

structure FinalizedCall (State : Type) where
  checkpoint : Checkpoint
  getBlock : Root → Option FinalizedSummary
  getState : Root → Option State

variable {State : Type}

/-- The proof of the paths in `stateProofPaths`, and the weak subjectivity period. -/
structure StateProofs (State : Type) where
  createProof : State → TreeOffsetProof
  computeWeakSubjectivityPeriod : State → Nat

variable (P : Preset) (cfg : ChainConfig) (proofs : StateProofs State)

def onFinalized (db : InitProofDb) (call : FinalizedCall State) : Except String InitProofDb :=
  -- discard any states that occur before altair
  match call.getBlock call.checkpoint.root with
  | none => .error "Block not found in fork choice"
  | some finalizedSummary =>
    let finalizedBlockEpoch := computeEpochAtSlot P finalizedSummary.slot
    if (finalizedBlockEpoch : ℕ∞) < cfg.ALTAIR_FORK_EPOCH then .ok db
    else
      match call.getState finalizedSummary.stateRoot with
      | none => .error "State not found in cache"
      | some finalizedState =>
        let currentPeriod := computeSyncPeriodAtEpoch P finalizedBlockEpoch
        let nextPeriod := currentPeriod + 1
        let cut := cutProof (proofs.createProof finalizedState)
        -- calculate beginning of weak subjectivity period to prune from there
        let wsEpoch := finalizedBlockEpoch - proofs.computeWeakSubjectivityPeriod finalizedState
        let wsSyncPeriod := computeSyncPeriodAtEpoch P wsEpoch
        let stateProofs := (keysBelow db.lightClientInitProof wsEpoch).foldl OrderedMap.delete db.lightClientInitProof
        let committeeProofs :=
          (keysBelow db.lightClientSyncCommitteeProof wsSyncPeriod).foldl OrderedMap.delete db.lightClientSyncCommitteeProof
        .ok
          { lightClientInitProof := stateProofs.set call.checkpoint.epoch cut.stateProof
            lightClientSyncCommitteeProof := (committeeProofs.set currentPeriod cut.currentSyncCommitteeProof).set nextPeriod
              cut.nextSyncCommitteeProof }

def handle (db : InitProofDb) (call : FinalizedCall State) : InitProofDb :=
  match onFinalized P cfg proofs db call with
  | .ok db' => db'
  | .error _ => db

def InitProofDb.empty : InitProofDb := ⟨.empty, .empty⟩

def handleAll (calls : List (FinalizedCall State)) : InitProofDb := calls.foldl (handle P cfg proofs) .empty

/-! ## Sections -/

structure Rest where
  offsetsBefore : List Nat
  offsetsAfter : List Nat
  leavesBefore : List Root
  leavesAfter : List Root
  offsetsBefore_length : offsetsBefore.length = 7
  leavesBefore_length : leavesBefore.length = 7

def Rest.with (P : Preset) (rest : Rest) (current next : TreeOffsetProof) : TreeOffsetProof where
  offsets := rest.offsetsBefore ++ ([1, syncProofLeavesLength P] ++ current.offsets ++ next.offsets) ++ rest.offsetsAfter
  leaves := rest.leavesBefore ++ (current.leaves ++ next.leaves) ++ rest.leavesAfter

def Rest.alone (rest : Rest) : TreeOffsetProof where
  offsets := rest.offsetsBefore ++ rest.offsetsAfter
  leaves := rest.leavesBefore ++ rest.leavesAfter

variable {start deleteCount bound key : Nat}

theorem splice_append {α : Type} {before removed after : List α} (hstart : before.length = start)
    (hcount : removed.length = deleteCount)
    : splice (before ++ (removed ++ after)) start deleteCount = (removed, before ++ after) := by
  subst hstart hcount
  unfold splice
  rw [List.drop_left, List.take_left, List.take_left, ← List.append_assoc, ← List.length_append, List.drop_left]

theorem spliceIn_append {α : Type} {before items after : List α} (hstart : before.length = start) :
    spliceIn (before ++ after) start items = before ++ items ++ after := by
  subst hstart
  unfold spliceIn
  rw [List.take_left, List.drop_left]

variable {P cfg proofs} {current next current' next' : TreeOffsetProof}

theorem cutProof_with (rest : Rest) (hcurrentOffsets : current.offsets.length = 1025)
    (hcurrentLeaves : current.leaves.length = 1026) (hnextOffsets : next.offsets.length = 1025)
    (hnextLeaves : next.leaves.length = 1026) : cutProof (rest.with P current next) = ⟨rest.alone, current, next⟩ := by
  have htwo (after : List Nat) : splice (rest.offsetsBefore ++ ([1, syncProofLeavesLength P] ++ after)) 7 2 =
    ([1, syncProofLeavesLength P], rest.offsetsBefore ++ after) := splice_append rest.offsetsBefore_length rfl
  have hcurrent (after : List Nat) : splice (rest.offsetsBefore ++ (current.offsets ++ after)) 7 1025 =
    (current.offsets, rest.offsetsBefore ++ after) := splice_append rest.offsetsBefore_length hcurrentOffsets
  have hnext (after : List Nat) : splice (rest.offsetsBefore ++ (next.offsets ++ after)) 7 1025 =
    (next.offsets, rest.offsetsBefore ++ after) := splice_append rest.offsetsBefore_length hnextOffsets
  have hcurrent' (after : List Root) : splice (rest.leavesBefore ++ (current.leaves ++ after)) 7 1026 =
    (current.leaves, rest.leavesBefore ++ after) := splice_append rest.leavesBefore_length hcurrentLeaves
  have hnext' (after : List Root) : splice (rest.leavesBefore ++ (next.leaves ++ after)) 7 1026 =
    (next.leaves, rest.leavesBefore ++ after) := splice_append rest.leavesBefore_length hnextLeaves
  unfold cutProof Rest.with
  simp only [List.append_assoc, htwo, hcurrent, hnext, hcurrent', hnext']
  rfl

/-! ## What the repositories hold -/

/-- The finalized chain, as far as its proofs go: the block of each finalized checkpoint, the state after it, and the committee of
each sync period.  The proof of a state has the sections of the two committees of its period where they are cut, and a section
depends only on the committee that it proves. -/
structure FinalizedChain (P : Preset) (proofs : StateProofs State) (Committee : Type) where
  /-- The slot of the block of the checkpoint of an epoch. -/
  slot : Nat → Nat
  postState : Nat → State
  committeeOf : Nat → Committee
  sectionOf : Committee → TreeOffsetProof
  rest : Nat → Rest
  offsets_length : ∀ committee, (sectionOf committee).offsets.length = 1025
  leaves_length : ∀ committee, (sectionOf committee).leaves.length = 1026
  createProof_eq : ∀ epoch, proofs.createProof (postState epoch) =
    (rest epoch).with P (sectionOf (committeeOf (computeSyncPeriodAtSlot P (slot epoch))))
      (sectionOf (committeeOf (computeSyncPeriodAtSlot P (slot epoch) + 1)))

variable {Committee : Type} {chain : FinalizedChain P proofs Committee}

structure OnChain (chain : FinalizedChain P proofs Committee) (call : FinalizedCall State) : Prop where
  slot : ∀ summary, call.getBlock call.checkpoint.root = some summary → summary.slot = chain.slot call.checkpoint.epoch
  postState : ∀ summary state, call.getBlock call.checkpoint.root = some summary → call.getState summary.stateRoot = some state →
    state = chain.postState call.checkpoint.epoch

/-- The rest is stored by the epoch of the checkpoint, and committees by the periods of blocks. -/
structure Stored (chain : FinalizedChain P proofs Committee) (db : InitProofDb) : Prop where
  stateProof : ∀ epoch proof, db.lightClientInitProof.get? epoch = some proof → proof = (chain.rest epoch).alone
  committeeProof : ∀ period proof, db.lightClientSyncCommitteeProof.get? period = some proof →
    proof = chain.sectionOf (chain.committeeOf period)

variable {proof : TreeOffsetProof}

theorem get?_pruned {repository : OrderedMap Nat TreeOffsetProof}
    (h : ((keysBelow repository bound).foldl OrderedMap.delete repository).get? key = some proof) :
    repository.get? key = some proof := by
  rw [OrderedMap.get?_foldl_delete] at h
  split at h
  · cases h
  · exact h

variable {call : FinalizedCall State}

theorem Stored.onFinalized {db db' : InitProofDb} (h : Stored chain db) (hchain : OnChain chain call)
    (hcall : onFinalized P cfg proofs db call = .ok db') : Stored chain db' := by
  unfold LightClient.onFinalized at hcall
  split at hcall
  · cases hcall
  · rename_i summary hsummary
    dsimp only at hcall
    split at hcall
    · cases hcall
      exact h
    · split at hcall
      · cases hcall
      · rename_i state hstate
        have hcut : cutProof (proofs.createProof state) = ⟨(chain.rest call.checkpoint.epoch).alone,
            chain.sectionOf (chain.committeeOf (computeSyncPeriodAtSlot P summary.slot)),
            chain.sectionOf (chain.committeeOf (computeSyncPeriodAtSlot P summary.slot + 1))⟩ := by
          rw [hchain.postState summary state hsummary hstate, chain.createProof_eq, hchain.slot summary hsummary]
          exact cutProof_with _ (chain.offsets_length _) (chain.leaves_length _) (chain.offsets_length _) (chain.leaves_length _)
        cases hcall
        rw [hcut]
        constructor
        · intro epoch proof hproof
          rw [OrderedMap.get?_set] at hproof
          split at hproof
          · rename_i hepoch
            cases hproof
            rw [hepoch]
          · exact h.stateProof epoch proof (get?_pruned hproof)
        · intro period proof hproof
          rw [OrderedMap.get?_set, OrderedMap.get?_set] at hproof
          split at hproof
          · rename_i hperiod
            cases hproof
            rw [hperiod]
            rfl
          · split at hproof
            · rename_i hperiod
              cases hproof
              rw [hperiod]
              rfl
            · exact h.committeeProof period proof (get?_pruned hproof)

variable {db : InitProofDb}

theorem Stored.handle (h : Stored chain db) (hchain : OnChain chain call) :
    Stored chain (handle P cfg proofs db call) := by
  unfold LightClient.handle
  split
  · rename_i hcall
    exact h.onFinalized hchain hcall
  · exact h

theorem stored_empty : Stored chain .empty where
  stateProof _ _ h := by cases h
  committeeProof _ _ h := by cases h

variable {calls : List (FinalizedCall State)}

theorem stored_handleAll (hchain : ∀ call ∈ calls, OnChain chain call) : Stored chain (handleAll P cfg proofs calls) :=
  List.foldlRecOn calls _ stored_empty fun _ h call hcall => h.handle (hchain call hcall)

/-! ## What is put together -/

variable {epoch : Nat}

theorem Stored.getInitProofByEpoch (h : Stored chain db) (hproof : getInitProofByEpoch P db epoch = some proof) :
    proof = (chain.rest epoch).with P (chain.sectionOf (chain.committeeOf (computeSyncPeriodAtEpoch P epoch)))
      (chain.sectionOf (chain.committeeOf (computeSyncPeriodAtEpoch P epoch + 1))) := by
  unfold LightClient.getInitProofByEpoch at hproof
  dsimp only at hproof
  split at hproof
  · rename_i stateProof currentProof nextProof hstate hcurrent hnext
    cases hproof
    rw [h.stateProof _ _ hstate, h.committeeProof _ _ hcurrent, h.committeeProof _ _ hnext]
    unfold Rest.alone Rest.with
    rw [spliceIn_append (chain.rest epoch).offsetsBefore_length, spliceIn_append (chain.rest epoch).leavesBefore_length]
  · cases hproof

theorem Rest.with_inj {rest : Rest} (hoffsets : current.offsets.length = current'.offsets.length)
    (hleaves : current.leaves.length = current'.leaves.length) :
    rest.with P current next = rest.with P current' next' ↔ current = current' ∧ next = next' := by
  constructor
  · intro h
    rw [TreeOffsetProof.mk.injEq] at h
    have hoffsets' := List.append_cancel_left (List.append_cancel_right h.1)
    rw [List.append_assoc, List.append_assoc] at hoffsets'
    obtain ⟨ho, ho'⟩ := List.append_inj (List.append_cancel_left hoffsets') hoffsets
    obtain ⟨hl, hl'⟩ := List.append_inj (List.append_cancel_left (List.append_cancel_right h.2)) hleaves
    exact ⟨TreeOffsetProof.ext ho hl, TreeOffsetProof.ext ho' hl'⟩
  · rintro ⟨rfl, rfl⟩
    rfl

def RowsStored (P : Preset) (db : InitProofDb) (epoch : Nat) : Prop :=
  db.lightClientInitProof.has epoch = true ∧ db.lightClientSyncCommitteeProof.has (computeSyncPeriodAtEpoch P epoch) = true ∧
    db.lightClientSyncCommitteeProof.has (computeSyncPeriodAtEpoch P epoch + 1) = true

/-- The committees of the period of an epoch are proved as those of the period of its block. -/
def SameSections (chain : FinalizedChain P proofs Committee) (epoch : Nat) : Prop :=
  chain.sectionOf (chain.committeeOf (computeSyncPeriodAtEpoch P epoch)) =
      chain.sectionOf (chain.committeeOf (computeSyncPeriodAtSlot P (chain.slot epoch))) ∧
    chain.sectionOf (chain.committeeOf (computeSyncPeriodAtEpoch P epoch + 1)) =
      chain.sectionOf (chain.committeeOf (computeSyncPeriodAtSlot P (chain.slot epoch) + 1))

theorem rowsStored_iff : RowsStored P db epoch ↔ ∃ proof, getInitProofByEpoch P db epoch = some proof := by
  unfold RowsStored OrderedMap.has LightClient.getInitProofByEpoch
  dsimp only
  constructor
  · rintro ⟨hstate, hcurrent, hnext⟩
    obtain ⟨stateProof, hstate⟩ := Option.isSome_iff_exists.1 hstate
    obtain ⟨currentProof, hcurrent⟩ := Option.isSome_iff_exists.1 hcurrent
    obtain ⟨nextProof, hnext⟩ := Option.isSome_iff_exists.1 hnext
    rw [hstate, hcurrent, hnext]
    exact ⟨_, rfl⟩
  · rintro ⟨proof, hproof⟩
    split at hproof
    · rename_i hstate hcurrent hnext
      rw [hstate, hcurrent, hnext]
      exact ⟨rfl, rfl, rfl⟩
    · cases hproof

/-- What is returned for a checkpoint is nothing, or the proof of the state after its block. -/
def ReturnsProof (chain : FinalizedChain P proofs Committee) (db : InitProofDb) (epoch : Nat) : Prop :=
  getInitProofByEpoch P db epoch = none ∨ getInitProofByEpoch P db epoch = some (proofs.createProof (chain.postState epoch))

theorem Stored.returnsProof_iff (h : Stored chain db) (epoch : Nat) :
    ReturnsProof chain db epoch ↔ (RowsStored P db epoch → SameSections chain epoch) := by
  unfold ReturnsProof
  cases hproof : LightClient.getInitProofByEpoch P db epoch with
  | none =>
    refine iff_of_true (.inl rfl) fun hrows => ?_
    obtain ⟨proof, hsome⟩ := rowsStored_iff.1 hrows
    rw [hproof] at hsome
    cases hsome
  | some proof =>
    have hrows : RowsStored P db epoch := rowsStored_iff.2 ⟨proof, hproof⟩
    have hsame : some proof = some (proofs.createProof (chain.postState epoch)) ↔ SameSections chain epoch := by
      rw [h.getInitProofByEpoch hproof, chain.createProof_eq, Option.some.injEq]
      refine Rest.with_inj ?_ ?_
      · rw [chain.offsets_length, chain.offsets_length]
      · rw [chain.leaves_length, chain.leaves_length]
    rw [hsame]
    constructor
    · rintro (hnone | hsections)
      · cases hnone
      · exact fun _ => hsections
    · exact fun hsections => .inr (hsections hrows)

/-- **After any finalized checkpoints the proofs are those of the states after their blocks** exactly where, for each of them whose
rows are stored, the committees of the period of its epoch are proved as those of the period of its block. -/
theorem handleAll_returns_iff (P : Preset) (cfg : ChainConfig) (proofs : StateProofs State) (chain : FinalizedChain P proofs Committee)
    (calls : List (FinalizedCall State)) (hchain : ∀ call ∈ calls, OnChain chain call) :
    (∀ call ∈ calls, ReturnsProof chain (handleAll P cfg proofs calls) call.checkpoint.epoch) ↔
      ∀ call ∈ calls, RowsStored P (handleAll P cfg proofs calls) call.checkpoint.epoch → SameSections chain call.checkpoint.epoch :=
  forall₂_congr fun _ _ => (stored_handleAll hchain).returnsProof_iff _

/-! ## A skipped slot at the start of a period -/

def plainSection (period : Nat) : TreeOffsetProof := ⟨List.replicate 1025 period, List.replicate 1026 zeroRoot⟩

def plainRest : Rest where
  offsetsBefore := List.replicate 7 0
  offsetsAfter := []
  leavesBefore := List.replicate 7 zeroRoot
  leavesAfter := []
  offsetsBefore_length := rfl
  leavesBefore_length := rfl

def plainProofs : StateProofs Nat where
  createProof period := plainRest.with mainnet (plainSection period) (plainSection (period + 1))
  computeWeakSubjectivityPeriod _ := 256

def skippedSlot (epoch : Nat) : Nat := if epoch = 256 then 8191 else epoch * 32

def skippedChain : FinalizedChain mainnet plainProofs Nat where
  slot := skippedSlot
  postState epoch := computeSyncPeriodAtSlot mainnet (skippedSlot epoch)
  committeeOf := id
  sectionOf := plainSection
  rest _ := plainRest
  offsets_length _ := List.length_replicate
  leaves_length _ := List.length_replicate
  createProof_eq _ := rfl

def skippedCall (epoch : Nat) : FinalizedCall Nat where
  checkpoint := ⟨epoch, zeroRoot⟩
  getBlock _ := some ⟨skippedSlot epoch, zeroRoot⟩
  getState _ := some (computeSyncPeriodAtSlot mainnet (skippedSlot epoch))

theorem skippedCall_onChain (epoch : Nat) : OnChain skippedChain (skippedCall epoch) where
  slot _ h := by
    cases h
    rfl
  postState _ _ _ h := by
    cases h
    rfl

theorem forall_skippedCall_onChain (epochs : List Nat) : ∀ call ∈ epochs.map skippedCall, OnChain skippedChain call := by
  rintro call hcall
  obtain ⟨epoch, -, rfl⟩ := List.mem_map.1 hcall
  exact skippedCall_onChain epoch

theorem handleAll_returns_skipped : (∀ call ∈ [256, 257].map skippedCall,
        ReturnsProof skippedChain (handleAll mainnet (minimalConfig 0) plainProofs ([256, 257].map skippedCall)) call.checkpoint.epoch) ↔
      ∀ call ∈ [256, 257].map skippedCall,
        RowsStored mainnet (handleAll mainnet (minimalConfig 0) plainProofs ([256, 257].map skippedCall)) call.checkpoint.epoch →
          SameSections skippedChain call.checkpoint.epoch :=
  handleAll_returns_iff mainnet (minimalConfig 0) plainProofs skippedChain ([256, 257].map skippedCall) (forall_skippedCall_onChain [256, 257])

/-- After epoch 257 the proof of epoch 256 has the committees of the next period. -/
theorem skipped_returns_other : ¬ ∀ (P : Preset) (cfg : ChainConfig) (proofs : StateProofs Nat) (chain : FinalizedChain P proofs Nat)
    (calls : List (FinalizedCall Nat)), (∀ call ∈ calls, OnChain chain call) →
      ∀ call ∈ calls, ReturnsProof chain (handleAll P cfg proofs calls) call.checkpoint.epoch := by
  intro h
  have hchain := forall_skippedCall_onChain [256, 257]
  have hreturns := h mainnet (minimalConfig 0) plainProofs skippedChain _ hchain (skippedCall 256) List.mem_cons_self
  have hsame := ((stored_handleAll hchain).returnsProof_iff 256).1 hreturns ⟨by decide +kernel, by decide +kernel, by decide +kernel⟩
  have hhead : (plainSection 1).offsets.head? = (plainSection 0).offsets.head? := congrArg (fun proof => proof.offsets.head?) hsame.1
  exact absurd hhead (by decide)

end Lodestar.LightClient
