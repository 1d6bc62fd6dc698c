import Lodestar.Chain.OnlyVerified
/-!
# ImportedBlocks — the number of imported blocks that a failed segment reports

A block counts once `runStateTransition` returned.  The counter of `processChainSegment` starts again with every epoch, and a block
that the fork choice took before its announcement threw is not counted.

So the count is that of the whole segment exactly where the failure comes in the first epoch, and not between the two:
`processChainSegment_importedBlocks_iff`.
-/
namespace Lodestar

open Lib

/-! ## Blocks in the fork choice -/

def Effect.isRegistered : Effect → Bool
  | .registered _ => true
  | _ => false

def imported (w : World) : Nat := w.effects.countP Effect.isRegistered

@[simp] theorem imported_emit (w : World) (e : Effect) : imported (w.emit e) = imported w + if e.isRegistered then 1 else 0 := by
  unfold imported World.emit
  rw [List.countP_append, List.countP_singleton]

@[simp] theorem imported_forkChoice (w : World) (fc : ForkChoice) : imported { w with forkChoice := fc } = imported w := rfl

section Process

variable {State SignatureSet : Type} (P : Preset) (m : Modules State SignatureSet)

/-! ## Where a failure is counted right -/

def announcementThrows (job : IProcessBlock) : List SignedBeaconBlock → State → World → Bool
  | [], _, _ => false
  | block :: blocks, preState, w =>
    match transitionBlock P m job block preState w with
    | (.error _, _) => false
    | (.ok postState, w) =>
      match announceBlock P m job block postState w with
      | (.error _, _) => true
      | (.ok (), w) => announcementThrows job blocks postState (pause P m w)

def epochAnnouncementThrows (job : IProcessBlock) (blocksInEpoch : List SignedBeaconBlock) (w : World) : Bool :=
  match blocksInEpoch with
  | [] => false
  | firstBlock :: _ =>
    match m.getPreState firstBlock.message with
    | .error _ => false
    | .ok preState => announcementThrows P m (jobInBatch m job) blocksInEpoch preState (pause P m w)

def failsInFirstEpoch (job : IProcessBlock) (blocks : List SignedBeaconBlock) (w : World) : Bool :=
  match groupBlocksByEpoch P blocks with
  | [] => true
  | firstEpoch :: _ =>
    (blocks.head?.any fun block => !w.forkChoice.protoArray.hasBlock block.message.parentRoot) ||
      (!(processBlocksInEpoch P m job firstEpoch w).1.isOk && !epochAnnouncementThrows P m job firstEpoch w)

variable {P m}

/-! ## What each part imports -/

@[simp] theorem imported_pause (w : World) : imported (pause P m w) = imported w := rfl

@[simp] theorem emitCheckpointEvent_imported (state : State) (w : World) :
    imported (emitCheckpointEvent P m state w).2 = imported w := by
  unfold emitCheckpointEvent
  by_cases h : (m.view state).slot % P.SLOTS_PER_EPOCH ≠ 0
  · rw [if_pos h]
  · rw [if_neg h]
    simp [Effect.isRegistered]

theorem processSlotsToNearestCheckpoint_imported : ∀ (n slot : Nat) (state : State) (w : World),
    imported (processSlotsToNearestCheckpoint P m n slot state w).2 = imported w
  | 0, _, _, _ => rfl
  | n + 1, slot, state, w => by
    unfold processSlotsToNearestCheckpoint
    cases m.processSlots state slot with
    | error e => rfl
    | ok postState =>
      have hemit := emitCheckpointEvent_imported (P := P) (m := m) postState w
      dsimp only
      rcases hr : emitCheckpointEvent P m postState w with ⟨r, w'⟩
      rw [hr] at hemit
      cases r with
      | error e => exact hemit
      | ok u => exact (processSlotsToNearestCheckpoint_imported n _ postState (pause P m w')).trans hemit

theorem cacheCheckpointStates_imported (b : SignedBeaconBlock) (preState : State) (w : World) :
    imported (cacheCheckpointStates P m b preState w).2 = imported w := by
  unfold cacheCheckpointStates
  dsimp only
  split
  · exact processSlotsToNearestCheckpoint_imported _ _ preState w
  · rfl

theorem registerBlock_imported (b : SignedBeaconBlock) (postState : State) (w : World) :
    imported (registerBlock P m b postState w).2 = imported w + (registerBlock P m b postState w).1.isOk.toNat := by
  unfold registerBlock
  cases balancesFor m postState w with
  | error e => rfl
  | ok balances =>
    dsimp only
    rcases w.forkChoice.onBlock P b.message (m.view postState) (some balances) with ⟨r, fc⟩
    cases r with
    | error e => rfl
    | ok u => simp [Effect.isRegistered, Except.isOk, Except.toBool]

section

variable (job : IProcessBlock)

theorem transitionBlock_imported (b : SignedBeaconBlock) (preState : State) (w : World) :
    imported (transitionBlock P m job b preState w).2 = imported w + (transitionBlock P m job b preState w).1.isOk.toNat := by
  have hcache := cacheCheckpointStates_imported (P := P) (m := m) b preState w
  unfold transitionBlock
  rcases hr : cacheCheckpointStates P m b preState w with ⟨r, w₁⟩
  rw [hr] at hcache
  cases r with
  | error e => exact hcache
  | ok state =>
    dsimp only at hcache ⊢
    cases m.stateTransition state b (!job.validSignatures && !job.validProposerSignature) (!job.validSignatures) with
    | error e => exact hcache
    | ok postState =>
      have hverified : imported (if job.validSignatures then w₁ else w₁.emit (.verified b)) = imported w := by
        by_cases hvalid : job.validSignatures = true
        · rw [if_pos hvalid, hcache]
        · rw [if_neg hvalid, imported_emit, hcache]
          rfl
      rw [← hverified]
      exact registerBlock_imported b postState _

theorem announceBlock_imported (b : SignedBeaconBlock) (postState : State) (w : World) :
    imported (announceBlock P m job b postState w).2 = imported w := by
  unfold announceBlock
  by_cases hre : job.reprocess = true
  · rw [if_pos hre]
  · rw [if_neg hre]
    have hemit : imported (if b.message.slot % P.SLOTS_PER_EPOCH = 0 then emitCheckpointEvent P m postState w
        else (.ok (), w)).2 = imported w := by
      by_cases hslot : b.message.slot % P.SLOTS_PER_EPOCH = 0
      · rw [if_pos hslot, emitCheckpointEvent_imported]
      · rw [if_neg hslot]
    rcases hr : (if b.message.slot % P.SLOTS_PER_EPOCH = 0 then emitCheckpointEvent P m postState w
        else (.ok (), w)) with ⟨r, w₁⟩
    rw [hr] at hemit
    cases r with
    | error e => exact hemit
    | ok u =>
      dsimp only at hemit ⊢
      rcases ((w₁.emit (.block b)).emit (.persisted b)).forkChoice.updateHead with ⟨r, fc⟩
      cases r with
      | error e => simp [Effect.isRegistered, hemit]
      | ok head =>
        dsimp only
        split
        · simp [Effect.isRegistered, hemit]
        · simp [Effect.isRegistered, hemit]

/-! ## A run of blocks -/

theorem importBlocks_imported (job : IProcessBlock) : ∀ (blocks : List SignedBeaconBlock) (preState : State) (n : Nat) (w : World),
    imported (importBlocks P m job blocks preState n w).2.2 + n =
      imported w + (importBlocks P m job blocks preState n w).2.1 + (announcementThrows P m job blocks preState w).toNat
  | [], _, _, _ => rfl
  | b :: bs, preState, n, w => by
    have htrans := transitionBlock_imported (P := P) (m := m) job b preState w
    unfold importBlocks runStateTransition announcementThrows
    rcases hr : transitionBlock P m job b preState w with ⟨r, w₁⟩
    rw [hr] at htrans
    cases r with
    | error e =>
      rw [htrans]
      rfl
    | ok postState =>
      have hann := announceBlock_imported (P := P) (m := m) job b postState w₁
      dsimp only at htrans ⊢
      have htaken : imported w₁ = imported w + 1 := htrans
      rcases hr' : announceBlock P m job b postState w₁ with ⟨r, w₂⟩
      rw [hr'] at hann
      cases r with
      | error e =>
        dsimp only at hann ⊢
        rw [hann, htaken, Bool.toNat_true]
        omega
      | ok u =>
        have hrest := importBlocks_imported job bs postState (n + 1) (pause P m w₂)
        dsimp only at hann ⊢
        rw [imported_pause, hann, htaken] at hrest
        omega

theorem importBlocks_ok (job : IProcessBlock) : ∀ (blocks : List SignedBeaconBlock) {preState state : State} {n n' : Nat}
    {w w' : World}, importBlocks P m job blocks preState n w = (.ok state, n', w') →
    n' = n + blocks.length ∧ announcementThrows P m job blocks preState w = false
  | [], preState, state, n, n', w, w', h => by
    cases h
    exact ⟨rfl, rfl⟩
  | b :: bs, preState, state, n, n', w, w', h => by
    unfold importBlocks runStateTransition at h
    unfold announcementThrows
    rcases hr : transitionBlock P m job b preState w with ⟨r, w₁⟩
    rw [hr] at h
    cases r with
    | error e => cases h
    | ok postState =>
      dsimp only at h ⊢
      rcases hr' : announceBlock P m job b postState w₁ with ⟨r, w₂⟩
      rw [hr'] at h
      cases r with
      | error e => cases h
      | ok u =>
        obtain ⟨hn, hthrows⟩ := importBlocks_ok job bs h
        refine ⟨?_, hthrows⟩
        rw [hn, List.length_cons]
        omega

theorem verifyBatch_imported (state : State) (blocks : List SignedBeaconBlock) (w : World) :
    imported (verifyBatch P m job state blocks w).2 = imported w := by
  have hverified : imported { w with effects := w.effects ++ blocks.map .verified } = imported w := by
    unfold imported
    simp [Function.comp_def, Effect.isRegistered]
  unfold verifyBatch
  cases collectSignatureSets m job state blocks with
  | error e => rfl
  | ok signatureSets =>
    dsimp only
    by_cases hsome : signatureSets.length > 0
    · rw [if_pos hsome]
      cases m.verifySignatureSets signatureSets with
      | error e => rfl
      | ok verdict =>
        cases verdict with
        | false => rfl
        | true => exact hverified
    · rw [if_neg hsome]
      exact hverified

/-! ## An epoch -/

theorem processBlocksInEpoch_imported (blocks : List SignedBeaconBlock) (w : World) :
    imported (processBlocksInEpoch P m job blocks w).2.2 =
      imported w + (processBlocksInEpoch P m job blocks w).2.1 + (epochAnnouncementThrows P m job blocks w).toNat := by
  unfold processBlocksInEpoch epochAnnouncementThrows
  cases blocks with
  | nil => rfl
  | cons b bs =>
    dsimp only
    cases m.getPreState b.message with
    | error e => rfl
    | ok preState =>
      have himport := importBlocks_imported (P := P) (m := m) (jobInBatch m job) (b :: bs) preState 0 (pause P m w)
      dsimp only
      rcases hr : importBlocks P m (jobInBatch m job) (b :: bs) preState 0 (pause P m w) with ⟨r, n, w₁⟩
      rw [hr] at himport
      cases r with
      | error e => exact himport
      | ok state =>
        dsimp only at himport ⊢
        by_cases hbatch : (!m.disableBlsBatchVerify && !job.validSignatures) = true
        · have hverify := verifyBatch_imported (P := P) (m := m) job state (b :: bs) w₁
          rw [if_pos hbatch]
          rcases hv : verifyBatch P m job state (b :: bs) w₁ with ⟨r, w₂⟩
          rw [hv] at hverify
          cases r with
          | error e => exact hverify.trans himport
          | ok u => exact hverify.trans himport
        · rw [if_neg hbatch]
          exact himport

end

variable {job : IProcessBlock} {w w' : World} {blocks first : List SignedBeaconBlock}

theorem processBlocksInEpoch_ok {n : Nat} (h : processBlocksInEpoch P m job blocks w = (.ok (), n, w')) : n = blocks.length := by
  unfold processBlocksInEpoch at h
  cases blocks with
  | nil =>
    cases h
    rfl
  | cons b bs =>
    dsimp only at h
    cases hpre : m.getPreState b.message with
    | error e =>
      rw [hpre] at h
      cases h
    | ok preState =>
      rw [hpre] at h
      dsimp only at h
      rcases hr : importBlocks P m (jobInBatch m job) (b :: bs) preState 0 (pause P m w) with ⟨r, n', w₁⟩
      rw [hr] at h
      cases r with
      | error e => cases h
      | ok state =>
        have hn := (importBlocks_ok (jobInBatch m job) (b :: bs) hr).1
        rw [Nat.zero_add] at hn
        dsimp only at h
        by_cases hbatch : (!m.disableBlsBatchVerify && !job.validSignatures) = true
        · rw [if_pos hbatch] at h
          rcases hv : verifyBatch P m job state (b :: bs) w₁ with ⟨r, w₂⟩
          rw [hv] at h
          cases r with
          | error e => cases h
          | ok u =>
            cases h
            exact hn
        · rw [if_neg hbatch] at h
          cases h
          exact hn

/-! ## A segment -/

theorem processGroups_le (job : IProcessBlock) : ∀ (groups : List (List SignedBeaconBlock)) {e : ChainSegmentError} {w w' : World},
    processGroups P m job groups w = (.error e, w') → imported w + e.importedBlocks ≤ imported w'
  | [], _, _, _, h => by cases h
  | group :: groups, e, w, w', h => by
    have hgroup := processBlocksInEpoch_imported (P := P) (m := m) job group w
    unfold processGroups at h
    rcases hr : processBlocksInEpoch P m job group w with ⟨r, n, w₁⟩
    rw [hr] at h hgroup
    dsimp only at hgroup
    cases r with
    | error code =>
      cases h
      dsimp only
      omega
    | ok u =>
      have hrest := processGroups_le job groups h
      omega

/-- **The count of the epochs of a segment is right where the first of them fails, and no announcement does.** -/
theorem processGroups_iff {groups : List (List SignedBeaconBlock)} (hne : first ≠ []) {e : ChainSegmentError}
    (h : processGroups P m job (first :: groups) w = (.error e, w')) :
    imported w' = imported w + e.importedBlocks ↔
      (processBlocksInEpoch P m job first w).1.isOk = false ∧ epochAnnouncementThrows P m job first w = false := by
  have hfirst := processBlocksInEpoch_imported (P := P) (m := m) job first w
  unfold processGroups at h
  rcases hr : processBlocksInEpoch P m job first w with ⟨r, n, w₁⟩
  rw [hr] at h hfirst
  dsimp only at hfirst
  cases r with
  | error code =>
    cases h
    have hfailed : (Except.error code : Except BlockErrorCode Unit).isOk = false := rfl
    rw [hfirst, hfailed]
    cases epochAnnouncementThrows P m job first w <;> simp
  | ok u =>
    have hpos := List.length_pos_iff.2 hne
    have hall := processBlocksInEpoch_ok hr
    have hrest := processGroups_le job groups h
    have hpassed : (Except.ok u : Except BlockErrorCode Unit).isOk = true := rfl
    rw [hpassed]
    constructor
    · intro hcount
      omega
    · intro hfails
      exact absurd hfails.1 (by simp)

/-- **The error of a segment counts the imported blocks of the whole segment exactly where its first epoch fails**, or its parent is
unknown, unless a block was in the fork choice already when its announcement threw. -/
theorem processChainSegment_importedBlocks_iff (job : IProcessBlock) (blocks : List SignedBeaconBlock) {e : ChainSegmentError}
    {w w' : World} (h : processChainSegment P m job blocks w = (.error e, w')) :
    imported w' = imported w + e.importedBlocks ↔ failsInFirstEpoch P m job blocks w = true := by
  unfold processChainSegment at h
  unfold failsInFirstEpoch
  cases hhead : blocks.head? with
  | none =>
    rw [hhead] at h
    cases h
  | some firstSegBlock =>
    rw [hhead] at h
    dsimp only at h
    by_cases hparent : (!w.forkChoice.protoArray.hasBlock firstSegBlock.message.parentRoot) = true
    · rw [if_pos hparent] at h
      cases h
      cases groupBlocksByEpoch P blocks <;> simp [hparent]
    · rw [if_neg hparent] at h
      have hnonempty : ∀ group ∈ groupBlocksByEpoch P blocks, group ≠ [] :=
        groupBlocksByEpoch_all (fun _ _ => List.cons_ne_nil _ _) fun _ _ _ _ => by simp
      cases hgroups : groupBlocksByEpoch P blocks with
      | nil =>
        rw [hgroups] at h
        cases h
      | cons first groups =>
        rw [hgroups] at h hnonempty
        rw [processGroups_iff (hnonempty first List.mem_cons_self) h]
        simp [hparent]

end Process

/-! ## Two epochs -/

def refusesSlot9 : Modules ForkState SignedBeaconBlock :=
  { lenient true with
    stateTransition := fun state block _ _ =>
      if block.message.slot = 9 then .error (.error (.message "invalid state root")) else .ok { state with slot := block.message.slot } }

/-- The block of the first epoch is imported, the block of the second fails, and none is reported. -/
theorem processChainSegment_importedBlocks_fails :
    let out := processChainSegment minimal refusesSlot9 ⟨false, false, false, false⟩ [unsignedBlock, nextEpochBlock] ⟨atSlot9, []⟩
    out.1 = .error ⟨.BEACON_CHAIN_ERROR (.message "invalid state root"), 0⟩ ∧ imported ⟨atSlot9, []⟩ = 0 ∧ imported out.2 = 1 := by
  decide

/-- The two blocks are of one epoch, and the one that is imported is reported. -/
theorem processChainSegment_importedBlocks_iff_slot9 :
    let out := processChainSegment minimal refusesSlot9 ⟨false, false, false, false⟩
      [⟨⟨8, "a", "b", "b"⟩, Vector.replicate 96 0⟩, nextEpochBlock] ⟨atSlot9, []⟩
    out.1 = .error ⟨.BEACON_CHAIN_ERROR (.message "invalid state root"), 1⟩ ∧ imported out.2 = 1 := by
  intro out
  have hfails : out = (.error ⟨.BEACON_CHAIN_ERROR (.message "invalid state root"), 1⟩, out.2) := rfl
  exact ⟨rfl, (processChainSegment_importedBlocks_iff _ _ hfails).2 (by decide)⟩

end Lodestar
