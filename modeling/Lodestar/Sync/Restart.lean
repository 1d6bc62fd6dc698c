import Lodestar.Lib.Runs
import Lodestar.Sync.BatchSegments
/-!
# Restart — a stopped chain that starts again

`startSyncing` drops batches by an epoch it computes with a constant.  The order survives it exactly where it drops batches that
await validation only, and drops up to a batch or past all of them: `startSyncing_iff`.
-/
namespace Lodestar.Sync

open Lib Runs

namespace SyncChain

variable {P : Preset} {opts : SyncChainOpts} {s s' : SyncChain} {b b' : Batch}

/-! ## Restarts -/

/-- The start that is aimed at is not after the chain's, or the batches before it await validation and it is where a batch starts or
after all of them. -/
def StartMeets (s : SyncChain) (localFinalizedEpoch : Nat) : Prop :=
  alignedEpoch s.startEpoch localFinalizedEpoch ≤ (s.startEpoch : Int) ∨
    ((∀ b ∈ s.batches, (b.startEpoch : Int) < alignedEpoch s.startEpoch localFinalizedEpoch → b.status = .AwaitingValidation) ∧
      ((∀ b ∈ s.batches, (b.startEpoch : Int) < alignedEpoch s.startEpoch localFinalizedEpoch) ∨
        ∃ b ∈ s.batches, (b.startEpoch : Int) = alignedEpoch s.startEpoch localFinalizedEpoch))

instance (s : SyncChain) (localFinalizedEpoch : Nat) : Decidable (s.StartMeets localFinalizedEpoch) :=
  inferInstanceAs (Decidable (_ ∨ ((∀ b ∈ s.batches, _ → _) ∧ ((∀ b ∈ s.batches, _) ∨ ∃ b ∈ s.batches, _))))

/-- `startSyncing` does not throw, keeps the batches at or after the aligned epoch, and the batches follow one another from the new
start. -/
def StartsWell (P : Preset) (opts : SyncChainOpts) (s : SyncChain) (localFinalizedEpoch : Nat) : Prop :=
  let started := s.startSyncing P opts localFinalizedEpoch
  started.1 = .ok () ∧
    (∀ b ∈ s.batches, alignedEpoch s.startEpoch localFinalizedEpoch ≤ (b.startEpoch : Int) →
      ∃ b' ∈ started.2.batches, b'.id = b.id ∧ b'.startEpoch = b.startEpoch) ∧
    started.2.batches.map Batch.startEpoch = List.range' started.2.startEpoch started.2.batches.length opts.epochsPerBatch

theorem awaitNext_batches (s : SyncChain) : s.awaitNext.batches = s.batches ∧ s.awaitNext.startEpoch = s.startEpoch := by
  unfold awaitNext
  cases s.batchProcessor.error with
  | some error => exact ⟨rfl, rfl⟩
  | none =>
    dsimp only
    split
    · exact ⟨rfl, rfl⟩
    · split <;> exact ⟨rfl, rfl⟩

theorem triggerBatchProcessor_batches (s : SyncChain) :
    s.triggerBatchProcessor.batches = s.batches ∧ s.triggerBatchProcessor.startEpoch = s.startEpoch := by
  unfold triggerBatchProcessor
  dsimp only
  split
  · exact awaitNext_batches _
  · exact ⟨rfl, rfl⟩

theorem startSyncing_stopped (P : Preset) (opts : SyncChainOpts) (hstopped : s.status = .Stopped) (localFinalizedEpoch : Nat)
    {s' : SyncChain}
    (hadvance : ({ s with status := .Syncing } : SyncChain).advanceChain (alignedEpoch s.startEpoch localFinalizedEpoch) =
      (.ok (), s')) :
    s.startSyncing P opts localFinalizedEpoch = (.ok (), (s'.requestBatches P opts).triggerBatchProcessor) := by
  unfold startSyncing
  rw [hstopped]
  dsimp only
  rw [hadvance]

theorem Sound.syncing (h : s.Sound opts) : ({ s with status := .Syncing } : SyncChain).Sound opts := by
  have hkeeps : Keeps opts s { s with status := .Syncing } :=
    h.keeps_of_eq rfl rfl rfl rfl rfl rfl rfl fun hsynced => by cases hsynced
  exact hkeeps.sound

variable {localFinalizedEpoch : Nat}

theorem StartMeets.started (hmeets : s.StartMeets localFinalizedEpoch) (h : s.Sound opts) (hstopped : s.status = .Stopped) :
    (s.startSyncing P opts localFinalizedEpoch).2.Sound opts ∧ s.StartsWell P opts localFinalizedEpoch := by
  have hsyncing := h.syncing
  have hvalidated : ∀ b ∈ s.batches, (b.startEpoch : Int) < alignedEpoch s.startEpoch localFinalizedEpoch →
      b.status = .AwaitingValidation := by
    intro b hb hlt
    rcases hmeets with hle | ⟨hall, -⟩
    · have := h.placed.start_le hb
      omega
    · exact hall b hb hlt
  obtain ⟨s', front, hadvance, htrimmed, hplaced, hfront, -, -⟩ :=
    advanceChain_trims hsyncing.placed hvalidated (hmeets.imp_right And.right)
  have hadvanced : s'.Sound opts := by
    refine ⟨hplaced, htrimmed.accounted hsyncing.accounted, ?_, ?_⟩
    · rw [htrimmed.loop, htrimmed.batchProcessor]
      exact h.running
    · have hordered := hsyncing.ordered
      rw [htrimmed.outlines] at hordered
      rw [htrimmed.loop]
      exact hordered.drop htrimmed.validated_outlines
  obtain ⟨added, hrequested⟩ := requestBatches_requested P opts hplaced.distinct
  have hrequest := requestBatches_keeps (P := P) hadvanced
  have hstarted := startSyncing_stopped P opts hstopped localFinalizedEpoch hadvance
  have hsound : (s.startSyncing P opts localFinalizedEpoch).2.Sound opts := by
    rw [hstarted]
    exact (triggerBatchProcessor_keeps hrequest.sound).sound
  refine ⟨hsound, ?_, ?_, hsound.placed.tiled⟩
  · rw [hstarted]
  · intro b hb hle
    have hkept : b ∈ s'.batches := by
      rw [show s.batches = front ++ s'.batches from htrimmed.batches] at hb
      rcases List.mem_append.1 hb with hb | hb
      · have := hfront b hb
        omega
      · exact hb
    have hmem : b.outline ∈ (s'.requestBatches P opts).batches.map Batch.outline := by
      rw [hrequested.batches]
      exact List.mem_append_left _ (List.mem_map_of_mem hkept)
    obtain ⟨b', hb', houtline⟩ := List.mem_map.1 hmem
    rw [hstarted]
    rw [(triggerBatchProcessor_batches _).1]
    exact ⟨b', hb', congrArg Outline.id houtline, congrArg Outline.startEpoch houtline⟩

theorem advanceChain_throws {newStartEpoch : Int} (hgt : (s.startEpoch : Int) < newStartEpoch) (hb : b ∈ s.batches)
    (hlt : (b.startEpoch : Int) < newStartEpoch) (hstatus : b.status ≠ .AwaitingValidation) :
    ∃ e s', s.advanceChain newStartEpoch = (.error e, s') := by
  have herror := dropBefore_error hb hlt hstatus
  unfold advanceChain
  rw [if_neg (by omega)]
  dsimp only
  cases heq : (dropBefore newStartEpoch s.batches).error with
  | none => exact absurd heq herror
  | some e => exact ⟨e, _, rfl⟩

theorem StartsWell.meets (hwell : s.StartsWell P opts localFinalizedEpoch) (h : s.Sound opts) (hstopped : s.status = .Stopped) :
    s.StartMeets localFinalizedEpoch := by
  obtain ⟨hok, -, htiled⟩ := hwell
  have hsyncing := h.syncing
  by_cases hle : alignedEpoch s.startEpoch localFinalizedEpoch ≤ (s.startEpoch : Int)
  · exact .inl hle
  · have hgt : (s.startEpoch : Int) < alignedEpoch s.startEpoch localFinalizedEpoch := by omega
    have hvalidated : ∀ b ∈ s.batches, (b.startEpoch : Int) < alignedEpoch s.startEpoch localFinalizedEpoch →
        b.status = .AwaitingValidation := by
      intro b hb hlt
      by_contra hstatus
      obtain ⟨e, s', hthrows⟩ := advanceChain_throws (s := { s with status := .Syncing }) hgt hb hlt hstatus
      unfold startSyncing at hok
      rw [hstopped] at hok
      dsimp only at hok
      rw [hthrows] at hok
      cases hok
    refine .inr ⟨hvalidated, ?_⟩
    obtain ⟨s', front, hadvance, htrimmed, hdistinct, hstart, hfront, -⟩ := advanceChain_drops hsyncing.placed hgt hvalidated
    obtain ⟨added, hrequested⟩ := requestBatches_requested P opts hdistinct
    have hbatches : s.batches = front ++ s'.batches := htrimmed.batches
    rw [startSyncing_stopped P opts hstopped localFinalizedEpoch hadvance] at htiled
    rw [(triggerBatchProcessor_batches _).1, (triggerBatchProcessor_batches _).2, hrequested.startEpochs, hrequested.startEpoch,
      hstart] at htiled
    cases hleft : s'.batches with
    | nil =>
      left
      intro b hb
      rw [hbatches, hleft, List.append_nil] at hb
      exact hfront b hb
    | cons first rest =>
      -- the first batch that is left is where the chain starts
      right
      refine ⟨first, ?_, ?_⟩
      · rw [hbatches, hleft]
        simp
      · rw [hleft, List.map_cons, List.cons_append] at htiled
        cases hlength : (s'.requestBatches P opts).batches.length with
        | zero =>
          rw [hlength] at htiled
          cases htiled
        | succ n =>
          rw [hlength, List.range'_succ, List.cons.injEq] at htiled
          omega

/-! ## Runs -/

/-- A step that only makes batches, or changes how far they are. -/
def Event.Quiet : Event → Prop
  | .startSyncing _ => False
  | .turn => False
  | .settle => False
  | _ => True

variable {event : Event}

theorem next_keeps (h : s.Sound opts) (hnext : next P opts event s = some s') (hquiet : event.Quiet) :
    Keeps opts s s' := by
  unfold next at hnext
  cases event with
  | addPeer peer target =>
    cases hnext
    have hadded : Keeps opts s ({ s with peerset := s.peerset.set peer target } : SyncChain).computeTarget :=
      h.keeps_of_eq rfl rfl rfl rfl rfl rfl rfl id
    exact hadded.trans (requestBatches_keeps hadded.sound)
  | removePeer peer =>
    cases hnext
    exact h.keeps_of_eq rfl rfl rfl rfl rfl rfl rfl id
  | startSyncing localFinalizedEpoch => exact hquiet.elim
  | stopSyncing =>
    cases hnext
    exact h.keeps_of_eq rfl rfl rfl rfl rfl rfl rfl fun hsynced => by cases hsynced
  | remove =>
    cases hnext
    exact endBatchProcessor_keeps h .aborted
  | downloaded id result =>
    dsimp only at hnext
    by_cases hawaited : id ∈ s.downloads
    · rw [if_pos hawaited] at hnext
      cases hnext
      exact downloaded_keeps h id result
    · rw [if_neg hawaited] at hnext
      cases hnext
  | turn => exact hquiet.elim
  | processed result =>
    cases hloop : s.loop <;> rw [hloop] at hnext <;> cases hnext
    exact processedSegment_keeps h hloop result
  | settle => exact hquiet.elim

theorem turn_of_next (hnext : next P opts .turn s = some s') : s.loop = .resumed ∧ s' = s.turn P opts := by
  unfold next at hnext
  by_cases hloop : s.loop = .resumed
  · rw [if_pos hloop] at hnext
    cases hnext
    exact ⟨hloop, rfl⟩
  · rw [if_neg hloop] at hnext
    cases hnext

theorem settle_of_next (hnext : next P opts .settle s = some s') : ¬s.loop.Active ∧ s' = s.settle := by
  unfold next at hnext
  cases hloop : s.loop <;> rw [hloop] at hnext <;> cases hnext <;> exact ⟨id, rfl⟩

theorem startSyncing_not_stopped (hstatus : s.status ≠ .Stopped) (localFinalizedEpoch : Nat) :
    (s.startSyncing P opts localFinalizedEpoch).2 = s := by
  unfold startSyncing
  cases hcase : s.status with
  | Stopped => exact absurd hcase hstatus
  | _ => rfl

def Restarts (s : SyncChain) : Event → Prop
  | .startSyncing localFinalizedEpoch => s.status = .Stopped → s.StartMeets localFinalizedEpoch
  | _ => True

instance (s : SyncChain) (event : Event) : Decidable (s.Restarts event) :=
  match event with
  | .startSyncing localFinalizedEpoch => inferInstanceAs (Decidable (s.status = .Stopped → s.StartMeets localFinalizedEpoch))
  | .addPeer _ _ => isTrue trivial
  | .removePeer _ => isTrue trivial
  | .stopSyncing => isTrue trivial
  | .remove => isTrue trivial
  | .downloaded _ _ => isTrue trivial
  | .turn => isTrue trivial
  | .processed _ => isTrue trivial
  | .settle => isTrue trivial

theorem Sound.leave (h : s.Sound opts) (slot : Nat) :
    ({ s with batchProcessor := { s.batchProcessor with ended := true }, loop := .leaving (some slot) } : SyncChain).Sound opts :=
  ⟨h.placed.of_places rfl rfl rfl rfl rfl, h.accounted.mono rfl (fun _ => id) fun o ho hne => .inr ⟨o, ho, rfl, hne⟩,
    fun hactive => hactive.elim, trivial⟩

theorem next_sound (h : s.Sound opts) (hnext : next P opts event s = some s') (hrestarts : s.Restarts event) :
    s'.Sound opts := by
  cases event with
  | startSyncing localFinalizedEpoch =>
    cases hnext
    by_cases hstopped : s.status = .Stopped
    · exact ((hrestarts hstopped).started h hstopped).1
    · rw [startSyncing_not_stopped hstopped]
      exact h
  | turn =>
    obtain ⟨hloop, rfl⟩ := turn_of_next hnext
    rcases turn_cases (P := P) h hloop with hkeeps | ⟨target, -, -, heq⟩
    · exact hkeeps.sound
    · rw [heq]
      exact h.leave target.slot
  | settle =>
    obtain ⟨hended, rfl⟩ := settle_of_next hnext
    exact settle_sound h hended
  | _ => exact (next_keeps h hnext trivial).sound

theorem init_sound (startEpoch : Nat) : (init startEpoch).Sound opts := by
  constructor
  · constructor
    · constructor
      · exact List.nodup_nil
      · exact fun b hb => absurd hb List.not_mem_nil
    · exact List.nodup_nil
    · rfl
  · exact fun b hb => absurd hb List.not_mem_nil
  · exact fun _ => rfl
  · exact ⟨[], [], rfl, by simp, by simp⟩

theorem run_sound {startEpoch : Nat} {steps : List (SyncChain × Event)} (hrun : Run (next P opts) (init startEpoch) steps s)
    (hrestarts : ∀ step ∈ steps, step.1.Restarts step.2) : s.Sound opts :=
  hrun.always (init_sound startEpoch) (fun _ _ _ hnext hmeets h => next_sound h hnext hmeets) hrestarts s
    (List.mem_append_right _ (List.mem_singleton.2 rfl))

/-- **A stopped chain starts well again exactly where the restart meets the condition**, after a run whose restarts met it. -/
theorem startSyncing_iff (P : Preset) (opts : SyncChainOpts) {startEpoch : Nat} {steps : List (SyncChain × Event)} {s : SyncChain}
    (hrun : Run (next P opts) (init startEpoch) steps s) (hrestarts : ∀ step ∈ steps, step.1.Restarts step.2)
    (hstopped : s.status = .Stopped) (localFinalizedEpoch : Nat) :
    s.StartsWell P opts localFinalizedEpoch ↔ s.StartMeets localFinalizedEpoch := by
  have h : s.Sound opts := run_sound hrun hrestarts
  constructor
  · exact fun hwell => hwell.meets h hstopped
  · exact fun hmeets => (hmeets.started h hstopped).2

def stoppedDownload : List Event := [.addPeer "peer" ⟨32, zeroRoot⟩, .startSyncing 0, .stopSyncing]

def plainOpts : SyncChainOpts := { hashBlocks := fun _ => [], shuffle := fun _ peers => peers }

theorem startSyncing_iff_stoppedDownload :
    let s := (exec (next minimal plainOpts) stoppedDownload (init 0)).2
    s.StartsWell minimal plainOpts 1 ∧ ¬s.StartsWell minimal plainOpts 2 := by
  have hiff := startSyncing_iff minimal plainOpts (exec_run (next minimal plainOpts) stoppedDownload (init 0))
    (by decide) (by decide)
  exact ⟨(hiff 1).2 (by decide), fun hwell => absurd ((hiff 2).1 hwell) (by decide)⟩

/-- **A start throws where the first batch is still downloaded and the epoch after it is finalized.** -/
theorem startSyncing_fails : ¬∀ (steps : List (SyncChain × Event)) (s : SyncChain), Run (next minimal plainOpts) (init 0) steps s →
    s.status = .Stopped → ∀ localFinalizedEpoch, s.StartsWell minimal plainOpts localFinalizedEpoch := by
  intro h
  have hwell := h _ _ (exec_run (next minimal plainOpts) stoppedDownload (init 0)) (by decide) 2
  exact absurd hwell.1 (by decide)

end SyncChain

end Lodestar.Sync
