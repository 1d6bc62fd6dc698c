import Lodestar.ForkChoice.HeadEpochs
import Lodestar.Chain.ProcessBlocks
/-!
# OnlyVerified — which blocks get into the chain without a signature check

With batch verification a block is registered, announced and stored before its signatures are looked at, and nothing takes
it back.  `processBlocksInEpoch_onlyVerified_iff` says exactly when all of that happens to verified blocks only: when batch
verification is off, when the caller vouches for the signatures, when not even the first block is registered, or when the
whole batch gets through and verifies.
-/
namespace Lodestar

open Lib

/-! ## Other calls register nothing -/

theorem OtherCall.tree (P : Preset) {fc : ForkChoice} (h : fc.protoArray.WellFormed) (call : OtherCall) :
    (call.op.run P fc).protoArray.WellFormed ∧
      ∀ root, (call.op.run P fc).protoArray.hasBlock root = true → fc.protoArray.hasBlock root = true := by
  cases call with
  | onAttestation attestation =>
    have hv := ForkChoice.onAttestation_onlyVotes P fc attestation
    simp only [OtherCall.op, ForkChoice.Op.run]
    rw [hv.protoArray]
    exact ⟨h, fun _ => id⟩
  | updateTime slot =>
    obtain ⟨fc₁, hst, hv⟩ := ForkChoice.updateTime_parts (P := P) fc slot
    simp only [OtherCall.op, ForkChoice.Op.run]
    rw [hv.protoArray, hst.protoArray]
    exact ⟨h, fun _ => id⟩
  | prune root => exact ForkChoice.prune_tree h root
  | updateHead =>
    obtain ⟨ht, hwf⟩ := ForkChoice.updateHead_sameTree h
    refine ⟨hwf, fun root hroot => ?_⟩
    unfold ProtoArray.hasBlock at hroot ⊢
    rw [← ht.indices]
    exact hroot

theorem OtherCall.tree_all (P : Preset) : ∀ (calls : List OtherCall) {fc : ForkChoice}, fc.protoArray.WellFormed →
    (ForkChoice.runOps P fc (calls.map OtherCall.op)).protoArray.WellFormed ∧
      ∀ root, (ForkChoice.runOps P fc (calls.map OtherCall.op)).protoArray.hasBlock root = true →
        fc.protoArray.hasBlock root = true
  | [], _, h => ⟨h, fun _ => id⟩
  | call :: calls, _, h => by
    obtain ⟨hwf, hroots⟩ := call.tree P h
    obtain ⟨hwf', hroots'⟩ := OtherCall.tree_all P calls hwf
    exact ⟨hwf', fun root hroot => hroots root (hroots' root hroot)⟩

/-! ## What a run keeps -/

/-- What holds of the world while `blocks` are processed from the fork choice `fc₀`; `checking` says whether the state
transition verifies signatures. -/
structure Tracked (fc₀ : ForkChoice) (blocks : List SignedBeaconBlock) (checking : Bool) (w : World) : Prop where
  wellFormed : w.forkChoice.protoArray.WellFormed
  roots : ∀ root, w.forkChoice.protoArray.hasBlock root = true →
    fc₀.protoArray.hasBlock root = true ∨ ∃ b, .registered b ∈ w.effects ∧ b.message.root = root
  fromBatch : ∀ b, .registered b ∈ w.effects → b ∈ blocks
  announced : ∀ b, .block b ∈ w.effects ∨ .persisted b ∈ w.effects → .registered b ∈ w.effects
  checked : checking = true → ∀ b, .registered b ∈ w.effects → .verified b ∈ w.effects
  unchecked : checking = false → ∀ b, .verified b ∉ w.effects

/-- A part of the processing that keeps this and takes no effect back. -/
def Keeps (fc₀ : ForkChoice) (blocks : List SignedBeaconBlock) (checking : Bool) (w w' : World) : Prop :=
  Tracked fc₀ blocks checking w → Tracked fc₀ blocks checking w' ∧ w.effects ⊆ w'.effects

section Keeps

variable {fc₀ : ForkChoice} {blocks : List SignedBeaconBlock} {checking : Bool} {w w' w'' : World}

theorem Keeps.refl (w : World) : Keeps fc₀ blocks checking w w := fun h => ⟨h, fun _ => id⟩

theorem Keeps.trans (h : Keeps fc₀ blocks checking w w') (h' : Keeps fc₀ blocks checking w' w'') :
    Keeps fc₀ blocks checking w w'' := by
  intro ht
  obtain ⟨ht', hsub⟩ := h ht
  obtain ⟨ht'', hsub'⟩ := h' ht'
  exact ⟨ht'', fun _ he => hsub' (hsub he)⟩

theorem mem_emit {w : World} {e e' : Effect} : e ∈ (w.emit e').effects ↔ e ∈ w.effects ∨ e = e' := by
  unfold World.emit
  rw [List.mem_append, List.mem_singleton]

variable {fc : ForkChoice}

theorem keeps_forkChoice
    (hwf : w.forkChoice.protoArray.WellFormed → fc.protoArray.WellFormed ∧
      ∀ root, fc.protoArray.hasBlock root = true → w.forkChoice.protoArray.hasBlock root = true) :
    Keeps fc₀ blocks checking w { w with forkChoice := fc } := by
  intro h
  obtain ⟨hwf, hroots⟩ := hwf h.wellFormed
  exact ⟨⟨hwf, fun root hroot => h.roots root (hroots root hroot), h.fromBatch, h.announced, h.checked, h.unchecked⟩,
    fun _ => id⟩

theorem keeps_emit {e : Effect} (hreg : ∀ b, e ≠ .registered b) (hver : ∀ b, e ≠ .verified b)
    (hann : ∀ b, e = .block b ∨ e = .persisted b → .registered b ∈ w.effects) :
    Keeps fc₀ blocks checking w (w.emit e) := by
  have hmem : ∀ b, .registered b ∈ (w.emit e).effects → .registered b ∈ w.effects := by
    intro b hb
    rcases mem_emit.1 hb with hb | hb
    · exact hb
    · exact absurd hb.symm (hreg b)
  intro h
  refine ⟨⟨h.wellFormed, fun root hroot => ?_, fun b hb => h.fromBatch b (hmem b hb), fun b hb => ?_, fun hc b hb => ?_,
    fun hc b hb => ?_⟩, fun _ he => mem_emit.2 (.inl he)⟩
  · rcases h.roots root hroot with hold | ⟨b, hb, hroot⟩
    · exact .inl hold
    · exact .inr ⟨b, mem_emit.2 (.inl hb), hroot⟩
  · rw [mem_emit] at hb ⊢
    rw [mem_emit] at hb
    left
    rcases hb with (hb | hb) | (hb | hb)
    · exact h.announced b (.inl hb)
    · exact hann b (.inl hb.symm)
    · exact h.announced b (.inr hb)
    · exact hann b (.inr hb.symm)
  · exact mem_emit.2 (.inl (h.checked hc b (hmem b hb)))
  · rcases mem_emit.1 hb with hb | hb
    · exact h.unchecked hc b hb
    · exact hver b hb.symm

theorem keeps_verified (hc : checking = true) (b : SignedBeaconBlock) :
    Keeps fc₀ blocks checking w (w.emit (.verified b)) := by
  have hmem : ∀ e, (∀ b', e ≠ .verified b') → e ∈ (w.emit (.verified b)).effects → e ∈ w.effects := by
    intro e hne he
    exact (mem_emit.1 he).resolve_right (hne b)
  intro h
  refine ⟨⟨h.wellFormed, fun root hroot => ?_, fun b' hb => h.fromBatch b' (hmem _ (fun _ => by simp) hb), fun b' hb => ?_,
    fun hc b' hb => ?_, fun hno => ?_⟩, fun _ he => mem_emit.2 (.inl he)⟩
  · rcases h.roots root hroot with hold | ⟨b', hb, hroot⟩
    · exact .inl hold
    · exact .inr ⟨b', mem_emit.2 (.inl hb), hroot⟩
  · exact mem_emit.2 (.inl (h.announced b' (hb.imp (hmem _ (fun _ => by simp)) (hmem _ (fun _ => by simp)))))
  · exact mem_emit.2 (.inl (h.checked hc b' (hmem _ (fun _ => by simp) hb)))
  · rw [hc] at hno
    cases hno

theorem keeps_registered {P : Preset} {b : SignedBeaconBlock} {state : ForkState} {balances : Option (List Nat)}
    (hrun : w.forkChoice.onBlock P b.message state balances = (.ok (), fc)) (hb : b ∈ blocks)
    (hver : checking = true → .verified b ∈ w.effects) :
    Keeps fc₀ blocks checking w ({ w with forkChoice := fc }.emit (.registered b)) := by
  intro h
  obtain ⟨hwf, hroots⟩ := ForkChoice.onBlock_tree h.wellFormed hrun
  refine ⟨⟨hwf, fun root hroot => ?_, fun b' hb' => ?_, fun b' hb' => ?_, fun hc b' hb' => ?_, fun hc b' hb' => ?_⟩,
    fun _ he => mem_emit.2 (.inl he)⟩
  · rcases hroots root hroot with hold | ⟨-, rfl⟩
    · rcases h.roots root hold with hold | ⟨b', hb', hroot⟩
      · exact .inl hold
      · exact .inr ⟨b', mem_emit.2 (.inl hb'), hroot⟩
    · exact .inr ⟨b, mem_emit.2 (.inr rfl), rfl⟩
  · rcases mem_emit.1 hb' with hb' | hb'
    · exact h.fromBatch b' hb'
    · cases hb'
      exact hb
  · rw [mem_emit, mem_emit] at hb'
    refine mem_emit.2 (.inl (h.announced b' ?_))
    rcases hb' with (hb' | hb') | (hb' | hb')
    · exact .inl hb'
    · cases hb'
    · exact .inr hb'
    · cases hb'
  · rcases mem_emit.1 hb' with hb' | hb'
    · exact mem_emit.2 (.inl (h.checked hc b' hb'))
    · cases hb'
      exact mem_emit.2 (.inl (hver hc))
  · rcases mem_emit.1 hb' with hb' | hb'
    · exact h.unchecked hc b' hb'
    · cases hb'

end Keeps

section Process

variable {State SignatureSet : Type} {P : Preset} {m : Modules State SignatureSet}
variable {fc₀ : ForkChoice} {blocks : List SignedBeaconBlock} {checking : Bool}

theorem pause_keeps (w : World) : Keeps fc₀ blocks checking w (pause P m w) :=
  keeps_forkChoice (fun h => OtherCall.tree_all P _ h)

theorem emitCheckpointEvent_keeps (state : State) (w : World) :
    Keeps fc₀ blocks checking w (emitCheckpointEvent P m state w).2 := by
  unfold emitCheckpointEvent
  dsimp only
  split
  · exact Keeps.refl w
  · exact keeps_emit (fun _ => by simp) (fun _ => by simp) (fun _ h => by simp at h)

theorem processSlotsToNearestCheckpoint_keeps : ∀ (n slot : Nat) (state : State) (w : World),
    Keeps fc₀ blocks checking w (processSlotsToNearestCheckpoint P m n slot state w).2
  | 0, _, _, w => Keeps.refl w
  | n + 1, slot, state, w => by
    unfold processSlotsToNearestCheckpoint
    split
    · exact Keeps.refl w
    · rename_i postState _
      have hemit : Keeps fc₀ blocks checking w (emitCheckpointEvent P m postState w).2 :=
        emitCheckpointEvent_keeps postState w
      rcases hr : emitCheckpointEvent P m postState w with ⟨r, w'⟩
      rw [hr] at hemit
      cases r with
      | error e => exact hemit
      | ok u => exact hemit.trans ((pause_keeps w').trans (processSlotsToNearestCheckpoint_keeps n _ postState _))

theorem cacheCheckpointStates_keeps (b : SignedBeaconBlock) (preState : State) (w : World) :
    Keeps fc₀ blocks checking w (cacheCheckpointStates P m b preState w).2 := by
  unfold cacheCheckpointStates
  dsimp only
  split
  · exact processSlotsToNearestCheckpoint_keeps _ _ preState w
  · exact Keeps.refl w

variable {b : SignedBeaconBlock} {w : World} {postState preState : State}

theorem registerBlock_keeps (hb : ∀ state, (registerBlock P m b postState w).1 = .ok state → b ∈ blocks)
    (hver : checking = true → .verified b ∈ w.effects) : Keeps fc₀ blocks checking w (registerBlock P m b postState w).2 := by
  unfold registerBlock at hb ⊢
  split
  · exact Keeps.refl w
  · rename_i balances hbal
    rw [hbal] at hb
    dsimp only at hb
    rcases hrun : w.forkChoice.onBlock P b.message (m.view postState) (some balances) with ⟨r, fc⟩
    rw [hrun] at hb
    cases r with
    | error e =>
      refine keeps_forkChoice (fun h => ?_)
      obtain ⟨hwf, hroots⟩ := ForkChoice.onBlock_tree h hrun
      exact ⟨hwf, fun root hroot => (hroots root hroot).resolve_right (fun hno => by cases hno.1)⟩
    | ok u => exact keeps_registered hrun (hb postState rfl) hver

variable {job : IProcessBlock}

theorem transitionBlock_keeps (hjob : job.validSignatures = !checking)
    (hb : ∀ state, (transitionBlock P m job b preState w).1 = .ok state → b ∈ blocks) :
    Keeps fc₀ blocks checking w (transitionBlock P m job b preState w).2 := by
  have hcache : Keeps fc₀ blocks checking w (cacheCheckpointStates P m b preState w).2 :=
    cacheCheckpointStates_keeps b preState w
  unfold transitionBlock at hb ⊢
  rcases hr : cacheCheckpointStates P m b preState w with ⟨r, w₁⟩
  rw [hr] at hcache hb
  cases r with
  | error e => exact hcache
  | ok state =>
    dsimp only at hb ⊢
    split
    · exact hcache
    · rename_i postState hst
      rw [hst] at hb
      cases checking with
      | true =>
        rw [hjob] at hb ⊢
        exact hcache.trans ((keeps_verified rfl b).trans (registerBlock_keeps hb (fun _ => mem_emit.2 (.inr rfl))))
      | false =>
        rw [hjob] at hb ⊢
        exact hcache.trans (registerBlock_keeps hb (fun h => by cases h))

theorem transitionBlock_registers {w w' : World} (h : transitionBlock P m job b preState w = (.ok postState, w'))
    : .registered b ∈ w'.effects := by
  unfold transitionBlock registerBlock at h
  split at h
  · cases h
  · split at h
    · cases h
    · split at h
      · cases h
      · split at h
        · cases h
        · cases h
          exact mem_emit.2 (.inr rfl)

theorem announceBlock_keeps (job : IProcessBlock) (postState : State) (hreg : .registered b ∈ w.effects) :
    Keeps fc₀ blocks checking w (announceBlock P m job b postState w).2 := by
  unfold announceBlock
  dsimp only
  split
  · exact Keeps.refl w
  · have hemit : Keeps fc₀ blocks checking w
        (if b.message.slot % P.SLOTS_PER_EPOCH = 0 then emitCheckpointEvent P m postState w else (.ok (), w)).2 ∧
        .registered b ∈ (if b.message.slot % P.SLOTS_PER_EPOCH = 0 then emitCheckpointEvent P m postState w
          else (.ok (), w)).2.effects := by
      split
      · refine ⟨emitCheckpointEvent_keeps postState w, ?_⟩
        unfold emitCheckpointEvent
        dsimp only
        split
        · exact hreg
        · exact mem_emit.2 (.inl hreg)
      · exact ⟨Keeps.refl w, hreg⟩
    split
    · rename_i heq
      rw [heq] at hemit
      exact hemit.1
    · rename_i w₁ heq
      rw [heq] at hemit
      obtain ⟨hk, hreg₁⟩ := hemit
      have hann : Keeps fc₀ blocks checking w ((w₁.emit (.block b)).emit (.persisted b)) := by
        refine hk.trans ((keeps_emit (fun _ => by simp) (fun _ => by simp) (fun b' h => ?_)).trans
          (keeps_emit (fun _ => by simp) (fun _ => by simp) (fun b' h => ?_)))
        · simp only [Effect.block.injEq, reduceCtorEq, or_false] at h
          exact h ▸ hreg₁
        · simp only [Effect.persisted.injEq, reduceCtorEq, false_or] at h
          exact mem_emit.2 (.inl (h ▸ hreg₁))
      have hhead : Keeps fc₀ blocks checking ((w₁.emit (.block b)).emit (.persisted b))
          { (w₁.emit (.block b)).emit (.persisted b) with
            forkChoice := ((w₁.emit (.block b)).emit (.persisted b)).forkChoice.updateHead.2 } := by
        refine keeps_forkChoice (fun h => ?_)
        obtain ⟨ht, hwf⟩ := ForkChoice.updateHead_sameTree h
        refine ⟨hwf, fun root hroot => ?_⟩
        unfold ProtoArray.hasBlock at hroot ⊢
        rw [← ht.indices]
        exact hroot
      rcases hr : ((w₁.emit (.block b)).emit (.persisted b)).forkChoice.updateHead with ⟨r, fc⟩
      rw [hr] at hhead
      cases r with
      | error e => exact hann.trans hhead
      | ok head =>
        dsimp only
        split
        · exact (hann.trans hhead).trans (keeps_emit (fun _ => by simp) (fun _ => by simp) (fun _ h => by simp at h))
        · exact hann.trans hhead

theorem runStateTransition_keeps (hjob : job.validSignatures = !checking) (hb : b ∈ blocks) (preState : State) (w : World) :
    Keeps fc₀ blocks checking w (runStateTransition P m job b preState w).2 := by
  have htrans : Keeps fc₀ blocks checking w (transitionBlock P m job b preState w).2 :=
    transitionBlock_keeps hjob (fun _ _ => hb)
  unfold runStateTransition
  rcases hr : transitionBlock P m job b preState w with ⟨r, w₁⟩
  rw [hr] at htrans
  cases r with
  | error e => exact htrans
  | ok postState =>
    have hann : Keeps fc₀ blocks checking w₁ (announceBlock P m job b postState w₁).2 :=
      announceBlock_keeps job postState (transitionBlock_registers hr)
    dsimp only
    rcases hr' : announceBlock P m job b postState w₁ with ⟨r, w₂⟩
    rw [hr'] at hann
    cases r with
    | error e => exact htrans.trans hann
    | ok u => exact htrans.trans hann

theorem importBlocks_keeps (hjob : job.validSignatures = !checking) :
    ∀ (bs : List SignedBeaconBlock) (preState : State) (n : Nat) (w : World), bs ⊆ blocks →
      Keeps fc₀ blocks checking w (importBlocks P m job bs preState n w).2.2
  | [], _, _, w, _ => Keeps.refl w
  | b :: bs, preState, n, w, hsub => by
    have hrun : Keeps fc₀ blocks checking w (runStateTransition P m job b preState w).2 :=
      runStateTransition_keeps hjob (hsub List.mem_cons_self) preState w
    unfold importBlocks
    rcases hr : runStateTransition P m job b preState w with ⟨r, w₁⟩
    rw [hr] at hrun
    cases r with
    | error e => exact hrun
    | ok postState =>
      exact hrun.trans ((pause_keeps w₁).trans (importBlocks_keeps hjob bs postState (n + 1) _
        (fun _ hx => hsub (List.mem_cons_of_mem _ hx))))

end Process

/-! ## The batch -/

/-- The signatures of a block were found valid, by the caller or on the way. -/
def SignaturesVerified (job : IProcessBlock) (w : World) (b : SignedBeaconBlock) : Prop :=
  job.validSignatures = true ∨ .verified b ∈ w.effects

/-- What the processing should guarantee: only verified blocks are registered, announced and stored, and when it ends with
`INVALID_SIGNATURE` the fork choice has gained none that was not verified. -/
structure OnlyVerified (job : IProcessBlock) (before : ForkChoice) (out : Except BlockErrorCode Unit × Nat × World) :
    Prop where
  registered : ∀ b, .registered b ∈ out.2.2.effects → SignaturesVerified job out.2.2 b
  announced : ∀ b, .block b ∈ out.2.2.effects → SignaturesVerified job out.2.2 b
  persisted : ∀ b, .persisted b ∈ out.2.2.effects → SignaturesVerified job out.2.2 b
  invalid : out.1 = .error .INVALID_SIGNATURE → ∀ root, out.2.2.forkChoice.protoArray.hasBlock root = true →
    before.protoArray.hasBlock root = true ∨ ∃ b, b.message.root = root ∧ SignaturesVerified job out.2.2 b

section Batch

variable {State SignatureSet : Type} (P : Preset) (m : Modules State SignatureSet)

section

variable (job : IProcessBlock) (blocks : List SignedBeaconBlock) (fc : ForkChoice)

def firstRegistered : Bool :=
  match blocks with
  | [] => false
  | firstBlock :: _ =>
    match m.getPreState firstBlock.message with
    | .error _ => false
    | .ok preState => (transitionBlock P m (jobInBatch m job) firstBlock preState (pause P m ⟨fc, []⟩)).1.isOk

def batchVerifies : Bool :=
  match blocks with
  | [] => true
  | firstBlock :: _ =>
    match m.getPreState firstBlock.message with
    | .error _ => false
    | .ok preState =>
      match importBlocks P m (jobInBatch m job) blocks preState 0 (pause P m ⟨fc, []⟩) with
      | (.error _, _, _) => false
      | (.ok state, _, w) => (verifyBatch P m job state blocks w).1.isOk

end

variable {P m}

variable {fc : ForkChoice}

theorem Tracked.start (blocks : List SignedBeaconBlock) (checking : Bool) (h : fc.protoArray.WellFormed) :
    Tracked fc blocks checking ⟨fc, []⟩ where
  wellFormed := h
  roots _ hroot := .inl hroot
  fromBatch _ hb := absurd hb List.not_mem_nil
  announced _ hb := (hb.elim List.not_mem_nil List.not_mem_nil).elim
  checked _ _ hb := absurd hb List.not_mem_nil
  unchecked _ _ hb := List.not_mem_nil hb

variable {job : IProcessBlock} {before : ForkChoice} {blocks : List SignedBeaconBlock} {checking : Bool}
  {r : Except BlockErrorCode Unit} {w : World}

theorem Tracked.onlyVerified {n : Nat} (h : Tracked before blocks checking w)
    (hver : ∀ b, .registered b ∈ w.effects → SignaturesVerified job w b) : OnlyVerified job before (r, n, w) where
  registered := hver
  announced b hb := hver b (h.announced b (.inl hb))
  persisted b hb := hver b (h.announced b (.inr hb))
  invalid _ root hroot := (h.roots root hroot).imp_right (fun ⟨b, hb, hroot⟩ => ⟨b, hroot, hver b hb⟩)

variable {b : SignedBeaconBlock}

theorem Tracked.not_onlyVerified {n : Nat} (h : Tracked before blocks false w) (hjob : job.validSignatures = false)
    (hb : .registered b ∈ w.effects) : ¬ OnlyVerified job before (r, n, w) := by
  intro hov
  rcases hov.registered b hb with hvalid | hver
  · rw [hjob] at hvalid
    cases hvalid
  · exact h.unchecked rfl b hver

variable {fc₀ : ForkChoice}

theorem Tracked.verifyAll (h : Tracked fc₀ blocks false w) :
    Tracked fc₀ blocks true { w with effects := w.effects ++ blocks.map .verified } := by
  have hmem : ∀ e, (∀ b, e ≠ .verified b) → e ∈ w.effects ++ blocks.map Effect.verified → e ∈ w.effects := by
    intro e hne he
    rcases List.mem_append.1 he with he | he
    · exact he
    · obtain ⟨b, -, rfl⟩ := List.mem_map.1 he
      exact absurd rfl (hne b)
  refine ⟨h.wellFormed, fun root hroot => ?_, fun b hb => h.fromBatch b (hmem _ (fun _ => by simp) hb), fun b hb => ?_,
    fun _ b hb => ?_, fun hno => by cases hno⟩
  · rcases h.roots root hroot with hold | ⟨b, hb, hroot⟩
    · exact .inl hold
    · exact .inr ⟨b, List.mem_append_left _ hb, hroot⟩
  · exact List.mem_append_left _ (h.announced b (hb.imp (hmem _ (fun _ => by simp)) (hmem _ (fun _ => by simp))))
  · exact List.mem_append_right _ (List.mem_map_of_mem (h.fromBatch b (hmem _ (fun _ => by simp) hb)))

theorem importBlocks_first (b : SignedBeaconBlock) (bs : List SignedBeaconBlock) (preState : State) (n : Nat)
    (hjob : job.validSignatures = !checking) (h : Tracked fc₀ (b :: bs) checking w) :
    ((transitionBlock P m job b preState w).1.isOk = false ∧
      ∃ e, importBlocks P m job (b :: bs) preState n w = (.error e, n, (transitionBlock P m job b preState w).2)) ∨
    ((transitionBlock P m job b preState w).1.isOk = true ∧
      .registered b ∈ (importBlocks P m job (b :: bs) preState n w).2.2.effects) := by
  have htrans : Keeps fc₀ (b :: bs) checking w (transitionBlock P m job b preState w).2 :=
    transitionBlock_keeps hjob (fun _ _ => List.mem_cons_self)
  unfold importBlocks runStateTransition
  rcases hr : transitionBlock P m job b preState w with ⟨r, w₁⟩
  rw [hr] at htrans
  cases r with
  | error e => exact .inl ⟨rfl, e, rfl⟩
  | ok postState =>
    have hreg := transitionBlock_registers hr
    have hann : Keeps fc₀ (b :: bs) checking w₁ (announceBlock P m job b postState w₁).2 :=
      announceBlock_keeps job postState hreg
    refine .inr ⟨rfl, ?_⟩
    dsimp only
    obtain ⟨h₁, -⟩ := htrans h
    rcases hr' : announceBlock P m job b postState w₁ with ⟨r, w₂⟩
    rw [hr'] at hann
    obtain ⟨h₂, hsub⟩ := hann h₁
    cases r with
    | error e => exact hsub hreg
    | ok u =>
      have hrest : Keeps fc₀ (b :: bs) checking w₂ (importBlocks P m job bs postState (n + 1) (pause P m w₂)).2.2 :=
        (pause_keeps w₂).trans (importBlocks_keeps hjob bs postState (n + 1) _ (fun _ hx => List.mem_cons_of_mem _ hx))
      exact (hrest h₂).2 (hsub hreg)

theorem verifyBatch_tracked (job : IProcessBlock) (state : State) (h : Tracked fc₀ blocks false w) :
    (∃ e, (verifyBatch P m job state blocks w).1 = .error e ∧ w.effects ⊆ (verifyBatch P m job state blocks w).2.effects ∧
      Tracked fc₀ blocks false (verifyBatch P m job state blocks w).2) ∨
    ((verifyBatch P m job state blocks w).1 = .ok () ∧ Tracked fc₀ blocks true (verifyBatch P m job state blocks w).2) := by
  unfold verifyBatch
  split
  · rename_i e _
    exact .inl ⟨e, rfl, fun _ => id, h⟩
  · dsimp only
    split
    · split
      · rename_i e _
        exact .inl ⟨e, rfl, (pause_keeps w h).2, (pause_keeps w h).1⟩
      · exact .inl ⟨_, rfl, (pause_keeps w h).2, (pause_keeps w h).1⟩
      · exact .inr ⟨rfl, (pause_keeps _ h.verifyAll).1⟩
    · exact .inr ⟨rfl, h.verifyAll⟩

variable {all : List SignedBeaconBlock}

theorem processBlocksInEpoch_keeps (h : m.disableBlsBatchVerify = true ∨ job.validSignatures = true) (hsub : blocks ⊆ all)
    (w : World) :
    Keeps fc₀ all (!(jobInBatch m job).validSignatures) w (processBlocksInEpoch P m job blocks w).2.2 := by
  have hjob : (jobInBatch m job).validSignatures = !!(jobInBatch m job).validSignatures := by simp
  unfold processBlocksInEpoch
  split
  · exact Keeps.refl w
  · rename_i b bs
    split
    · exact pause_keeps w
    · rename_i preState _
      have himport : Keeps fc₀ all (!(jobInBatch m job).validSignatures) w
          (importBlocks P m (jobInBatch m job) (b :: bs) preState 0 (pause P m w)).2.2 :=
        (pause_keeps w).trans (importBlocks_keeps hjob (b :: bs) preState 0 _ hsub)
      rcases hr : importBlocks P m (jobInBatch m job) (b :: bs) preState 0 (pause P m w) with ⟨r, n, w'⟩
      rw [hr] at himport
      cases r with
      | error e => exact himport
      | ok state =>
        dsimp only
        rw [if_neg (by rcases h with h | h <;> simp [h])]
        exact himport

theorem Tracked.verified (hw : Tracked fc₀ blocks (!(jobInBatch m job).validSignatures) w)
    (h : m.disableBlsBatchVerify = true ∨ job.validSignatures = true) :
    ∀ b, .registered b ∈ w.effects → SignaturesVerified job w b := by
  intro b hb
  cases hvalid : job.validSignatures with
  | true => exact .inl hvalid
  | false =>
    have hdis := h.resolve_right (by rw [hvalid]; simp)
    exact .inr (hw.checked (by unfold jobInBatch; rw [hdis, hvalid]; rfl) b hb)

theorem onlyVerified_of_checked (hfc : fc.protoArray.WellFormed) (h : m.disableBlsBatchVerify = true ∨ job.validSignatures = true)
    (blocks : List SignedBeaconBlock) :
    OnlyVerified job fc (processBlocksInEpoch P m job blocks ⟨fc, []⟩) := by
  have hout := (processBlocksInEpoch_keeps (P := P) h (fun _ => id) _ (Tracked.start blocks _ hfc)).1
  exact hout.onlyVerified (hout.verified h)

theorem onlyVerified_batch_iff (hfc : fc.protoArray.WellFormed) (hdis : m.disableBlsBatchVerify = false)
    (hvalid : job.validSignatures = false) (blocks : List SignedBeaconBlock) :
    OnlyVerified job fc (processBlocksInEpoch P m job blocks ⟨fc, []⟩) ↔
      firstRegistered P m job blocks fc = false ∨ batchVerifies P m job blocks fc = true := by
  have hjob : (jobInBatch m job).validSignatures = !false := by unfold jobInBatch; rw [hdis]; rfl
  have hnone : ∀ (r : Except BlockErrorCode Unit) (n : Nat) (w : World), Tracked fc [] false w →
      OnlyVerified job fc (r, n, w) := fun r n w hw =>
    hw.onlyVerified (fun b hb => absurd (hw.fromBatch b hb) List.not_mem_nil)
  unfold processBlocksInEpoch firstRegistered batchVerifies
  cases blocks with
  | nil => exact ⟨fun _ => .inl rfl, fun _ => hnone _ _ _ (Tracked.start [] false hfc)⟩
  | cons b bs =>
    dsimp only
    cases m.getPreState b.message with
    | error e =>
      exact ⟨fun _ => .inl rfl, fun _ => hnone _ _ _ (pause_keeps (P := P) (m := m) _ (Tracked.start [] false hfc)).1⟩
    | ok preState =>
      dsimp only
      have hpause := (pause_keeps (P := P) (m := m) _ (Tracked.start (b :: bs) false hfc)).1
      have himport := (importBlocks_keeps (P := P) (m := m) hjob (b :: bs) preState 0 _ (fun _ => id) hpause).1
      rcases importBlocks_first (P := P) (m := m) b bs preState 0 hjob hpause with ⟨hno, e, hrun⟩ | ⟨hyes, hreg⟩
      · -- the first block is refused, and the batch ends there
        rw [hrun, hno]
        refine ⟨fun _ => .inl rfl, fun _ => hnone _ _ _ ?_⟩
        refine (transitionBlock_keeps hjob (fun state hok => ?_) (pause_keeps _ (Tracked.start [] false hfc)).1).1
        rw [hok] at hno
        cases hno
      · rw [hyes]
        rcases hr : importBlocks P m (jobInBatch m job) (b :: bs) preState 0 (pause P m ⟨fc, []⟩) with ⟨r, n, w⟩
        rw [hr] at himport hreg
        cases r with
        | error e => simp [himport.not_onlyVerified hvalid hreg]
        | ok state =>
          dsimp only
          rw [if_pos (by simp [hdis, hvalid])]
          rcases verifyBatch_tracked (P := P) (m := m) job state himport with
            ⟨e, herr, hsub, hbatch⟩ | ⟨hok, hbatch⟩
          · rcases hv : verifyBatch P m job state (b :: bs) w with ⟨r', w'⟩
            rw [hv] at herr hsub hbatch
            dsimp only at herr
            rw [herr]
            simp [hbatch.not_onlyVerified hvalid (hsub hreg), Except.isOk, Except.toBool]
          · rcases hv : verifyBatch P m job state (b :: bs) w with ⟨r', w'⟩
            rw [hv] at hok hbatch
            dsimp only at hok
            rw [hok]
            exact ⟨fun _ => .inr rfl, fun _ => hbatch.onlyVerified (fun b hb => .inr (hbatch.checked rfl b hb))⟩

/-- **Exactly when only verified blocks get in**: batch verification is off, the caller vouches for the signatures, not even
the first block is registered, or the whole batch gets through and verifies. -/
theorem processBlocksInEpoch_onlyVerified_iff (P : Preset) (m : Modules State SignatureSet) (job : IProcessBlock)
    (blocks : List SignedBeaconBlock) (fc : ForkChoice) (hfc : fc.Reachable P) :
    OnlyVerified job fc (processBlocksInEpoch P m job blocks ⟨fc, []⟩) ↔
      m.disableBlsBatchVerify = true ∨ job.validSignatures = true ∨ firstRegistered P m job blocks fc = false ∨
        batchVerifies P m job blocks fc = true := by
  have hwf := hfc.synced.wellFormed
  by_cases h : m.disableBlsBatchVerify = true ∨ job.validSignatures = true
  · exact ⟨fun _ => h.imp_right .inl, fun _ => onlyVerified_of_checked hwf h blocks⟩
  · rw [not_or, Bool.not_eq_true, Bool.not_eq_true] at h
    rw [onlyVerified_batch_iff hwf h.1 h.2, h.1, h.2]
    simp

/-! ## Chain segments -/

variable {Q : List SignedBeaconBlock → Prop}

theorem addToGroup_all (hone : Q [b]) (hmore : ∀ group, Q group → Q (group ++ [b]))
    {groups : OrderedMap Nat (List SignedBeaconBlock)} (h : ∀ e ∈ groups.entries, Q e.2) :
    ∀ e ∈ (addToGroup P b groups).entries, Q e.2 := by
  intro e he
  rcases OrderedMap.mem_set he with rfl | he
  · dsimp only
    cases hget : groups.get? (computeEpochAtSlot P b.message.slot) with
    | none => exact hone
    | some group => exact hmore group (h _ (OrderedMap.get?_eq_some_iff.1 hget))
  · exact h e he

theorem groupBlocksByEpoch_all (hone : ∀ b ∈ blocks, Q [b]) (hmore : ∀ b ∈ blocks, ∀ group, Q group → Q (group ++ [b])) :
    ∀ group ∈ groupBlocksByEpoch P blocks, Q group := by
  have hfold : ∀ (bs : List SignedBeaconBlock) (groups : OrderedMap Nat (List SignedBeaconBlock)), bs ⊆ blocks →
      (∀ e ∈ groups.entries, Q e.2) → ∀ e ∈ (bs.foldl (fun groups b => addToGroup P b groups) groups).entries, Q e.2 := by
    intro bs
    induction bs with
    | nil => exact fun _ _ h => h
    | cons b bs ih =>
      intro groups hsub h
      have hb : b ∈ blocks := hsub List.mem_cons_self
      exact ih _ (fun _ hx => hsub (List.mem_cons_of_mem _ hx)) (addToGroup_all (hone b hb) (hmore b hb) h)
  intro group hgroup
  obtain ⟨e, he, rfl⟩ := List.mem_map.1 hgroup
  exact hfold blocks .empty (fun _ => id) (fun _ h => absurd h List.not_mem_nil) e he

theorem groupBlocksByEpoch_subset (blocks : List SignedBeaconBlock) : ∀ group ∈ groupBlocksByEpoch P blocks, group ⊆ blocks :=
  groupBlocksByEpoch_all (fun b hb => by simpa using hb)
    fun b hb group hgroup => List.append_subset.2 ⟨hgroup, by simpa using hb⟩

theorem processGroups_keeps (h : m.disableBlsBatchVerify = true ∨ job.validSignatures = true) :
    ∀ (groups : List (List SignedBeaconBlock)) (w : World), (∀ group ∈ groups, group ⊆ all) →
    Keeps fc₀ all (!(jobInBatch m job).validSignatures) w (processGroups P m job groups w).2
  | [], w, _ => Keeps.refl w
  | group :: groups, w, hsub => by
    have hgroup : Keeps fc₀ all (!(jobInBatch m job).validSignatures) w (processBlocksInEpoch P m job group w).2.2 :=
      processBlocksInEpoch_keeps h (hsub group List.mem_cons_self) w
    unfold processGroups
    rcases hr : processBlocksInEpoch P m job group w with ⟨r, n, w'⟩
    rw [hr] at hgroup
    cases r with
    | error e => exact hgroup
    | ok u => exact hgroup.trans (processGroups_keeps h groups w' (fun g hg => hsub g (List.mem_cons_of_mem _ hg)))

/-- **A whole segment**, over all its epochs: without batch verification, or with signatures the caller vouches for, only
verified blocks of the segment are registered, announced and stored. -/
theorem processChainSegment_verified (hfc : fc.Reachable P) (h : m.disableBlsBatchVerify = true ∨ job.validSignatures = true)
    (blocks : List SignedBeaconBlock) (b : SignedBeaconBlock)
    (hb : .registered b ∈ (processChainSegment P m job blocks ⟨fc, []⟩).2.effects ∨
      .block b ∈ (processChainSegment P m job blocks ⟨fc, []⟩).2.effects ∨
      .persisted b ∈ (processChainSegment P m job blocks ⟨fc, []⟩).2.effects) :
    b ∈ blocks ∧ SignaturesVerified job (processChainSegment P m job blocks ⟨fc, []⟩).2 b := by
  have hseg : Keeps fc blocks (!(jobInBatch m job).validSignatures) ⟨fc, []⟩
      (processChainSegment P m job blocks ⟨fc, []⟩).2 := by
    unfold processChainSegment
    split
    · split
      · exact Keeps.refl _
      · exact processGroups_keeps h _ _ (groupBlocksByEpoch_subset blocks)
    · exact Keeps.refl _
  obtain ⟨hout, -⟩ := hseg (Tracked.start blocks _ hfc.synced.wellFormed)
  have hreg : .registered b ∈ (processChainSegment P m job blocks ⟨fc, []⟩).2.effects := by
    rcases hb with hb | hb | hb
    · exact hb
    · exact hout.announced b (.inl hb)
    · exact hout.announced b (.inr hb)
  exact ⟨hout.fromBatch b hreg, hout.verified h b hreg⟩

end Batch

def lenient (verdict : Bool) : Modules ForkState SignedBeaconBlock where
  disableBlsBatchVerify := false
  getPreState _ := .ok (ForkChoice.stateAt 0 ⟨0, "a"⟩ ⟨0, "a"⟩)
  view := id
  currentShufflingEpoch state := computeEpochAtSlot minimal state.slot
  latestBlockRoot _ := "a"
  processSlots state slot := .ok { state with slot := slot }
  stateTransition state block _ _ := .ok { state with slot := block.message.slot }
  justifiedBalances _ _ := none
  getAllBlockSignatureSets _ block := .ok [block]
  getAllBlockSignatureSetsExceptProposer _ block := .ok [block]
  verifySignatureSets _ := .ok verdict
  meanwhile _ := []

def unsignedBlock : SignedBeaconBlock := ⟨⟨7, "a", "b", "b"⟩, Vector.replicate 96 0⟩

def atSlot9 : ForkChoice := ForkChoice.runOps minimal ForkChoice.atGenesis [.updateTime 9]

theorem atSlot9_reachable : atSlot9.Reachable minimal :=
  ⟨0, 0, 0, [.onBlock ⟨0, "a", "z", "a", "a", 0, 0⟩], _, _, _, [.updateTime 9], rfl⟩

theorem processBlocksInEpoch_onlyVerified_valid : OnlyVerified ⟨false, false, false, false⟩ atSlot9
      (processBlocksInEpoch minimal (lenient true) ⟨false, false, false, false⟩ [unsignedBlock] ⟨atSlot9, []⟩) :=
  (processBlocksInEpoch_onlyVerified_iff minimal (lenient true) _ _ atSlot9 atSlot9_reachable).2
    (.inr (.inr (.inr (by decide))))

def nextEpochBlock : SignedBeaconBlock := ⟨⟨9, "b", "c", "c"⟩, Vector.replicate 96 0⟩

def futureBlock : SignedBeaconBlock := ⟨⟨10, "c", "d", "d"⟩, Vector.replicate 96 0⟩

/-- Blocks of two epochs, where the fork choice refuses the last. -/
theorem processChainSegment_verified_twoEpochs :
    let out := processChainSegment minimal { lenient true with disableBlsBatchVerify := true } ⟨false, false, false, false⟩
      [unsignedBlock, nextEpochBlock, futureBlock] ⟨atSlot9, []⟩
    out.1.isOk = false ∧ .registered futureBlock ∉ out.2.effects ∧
      ∀ b ∈ [unsignedBlock, nextEpochBlock],
        .persisted b ∈ out.2.effects ∧ SignaturesVerified ⟨false, false, false, false⟩ out.2 b := by
  intro out
  have hpersisted : ∀ b ∈ [unsignedBlock, nextEpochBlock], .persisted b ∈ out.2.effects := by decide
  refine ⟨by decide, by decide, fun b hb => ⟨hpersisted b hb, ?_⟩⟩
  exact (processChainSegment_verified atSlot9_reachable (.inl rfl) _ _ (.inr (.inr (hpersisted b hb)))).2

/-- The signature is invalid, and the block is in the fork choice and stored. -/
theorem processBlocksInEpoch_imports_invalid :
    let out := processBlocksInEpoch minimal (lenient false) ⟨false, false, false, false⟩ [unsignedBlock] ⟨atSlot9, []⟩
    out.1 = .error .INVALID_SIGNATURE ∧ atSlot9.protoArray.hasBlock "b" = false ∧
      out.2.2.forkChoice.protoArray.hasBlock "b" = true ∧ .persisted unsignedBlock ∈ out.2.2.effects ∧
      ¬ OnlyVerified ⟨false, false, false, false⟩ atSlot9 out := by
  refine ⟨by decide, by decide, by decide, by decide, fun h => ?_⟩
  have hreg := h.registered unsignedBlock (by decide)
  unfold SignaturesVerified at hreg
  revert hreg
  decide

end Lodestar
