import Lodestar.Sync.Restart
/-!
# RangeTiles — the slots that range sync requests and processes

A chain that never starts past its own start requests the slots after the first slot of its start epoch, in order, each of them
once.  Where it breaks out of its loop at a target, every slot up to the target is in a batch that was processed.

The done test and the include test meet at the same slot: a chain that is not done makes a batch, but while the last batch waits to
be processed and reaches the target (`range_tiles`).
-/
namespace Lodestar.Sync

open Lib Runs
open ReqResp (BeaconBlocksByRangeRequest)

/-! ## Slots -/

def slotsOf (request : BeaconBlocksByRangeRequest) : List Nat := List.range' request.startSlot request.count request.step

theorem slotsOf_request (P : Preset) (epochsPerBatch : Nat) (b : Batch) : slotsOf (b.request P epochsPerBatch) =
    List.range' (computeStartSlotAtEpoch P b.startEpoch + 1) (epochsPerBatch * P.SLOTS_PER_EPOCH) := by
  unfold slotsOf Batch.request
  dsimp only
  rw [Nat.add_sub_cancel_left]
  rfl

theorem flatMap_slots (P : Preset) (epochsPerBatch : Nat) : ∀ (n startEpoch : Nat),
    ((List.range' startEpoch n epochsPerBatch).flatMap fun epoch =>
      List.range' (computeStartSlotAtEpoch P epoch + 1) (epochsPerBatch * P.SLOTS_PER_EPOCH)) =
    List.range' (computeStartSlotAtEpoch P startEpoch + 1) (n * (epochsPerBatch * P.SLOTS_PER_EPOCH))
  | 0, startEpoch => by simp
  | n + 1, startEpoch => by
    have hnext : computeStartSlotAtEpoch P (startEpoch + epochsPerBatch) + 1 =
        computeStartSlotAtEpoch P startEpoch + 1 + epochsPerBatch * P.SLOTS_PER_EPOCH := by
      unfold computeStartSlotAtEpoch
      rw [Nat.add_mul]
      omega
    rw [List.range'_succ, List.flatMap_cons, flatMap_slots P epochsPerBatch n, hnext, List.range'_append_1, Nat.add_mul,
      Nat.one_mul, Nat.add_comm (n * _)]

namespace SyncChain

variable {P : Preset} {opts : SyncChainOpts} {s s' : SyncChain} {b : Batch}

def requestedSlots (P : Preset) (opts : SyncChainOpts) (s : SyncChain) : List Nat :=
  s.made.flatMap fun b => slotsOf (b.request P opts.epochsPerBatch)

def InProcessed (P : Preset) (opts : SyncChainOpts) (s : SyncChain) (slot : Nat) : Prop :=
  ∃ b ∈ s.made, b.startEpoch ∈ s.processed ∧ slot ∈ slotsOf (b.request P opts.epochsPerBatch)

variable {startEpoch x slot : Nat}

theorem requestedSlots_eq (h : s.made.map Batch.startEpoch = List.range' startEpoch s.made.length opts.epochsPerBatch)
    : s.requestedSlots P opts =
      List.range' (computeStartSlotAtEpoch P startEpoch + 1) (s.made.length * (opts.epochsPerBatch * P.SLOTS_PER_EPOCH)) := by
  unfold requestedSlots
  simp only [slotsOf_request]
  rw [← flatMap_slots, ← h, List.flatMap_map]

/-! ## What is processed next -/

theorem Settled.batches {batches : List Batch} (h : Settled (batches.map Batch.outline)) : ∃ pre post, batches = pre ++ post ∧
    (∀ c ∈ pre, c.status = .AwaitingValidation) ∧ ∀ c ∈ post, c.status.stage = .pending := by
  obtain ⟨before, after, heq, hbefore, hafter⟩ := h
  obtain ⟨pre, post, rfl, rfl, rfl⟩ := List.map_eq_append_iff.1 heq
  refine ⟨pre, post, rfl, ?_, ?_⟩
  · exact fun c hc => Batch.status_of_validated (hbefore _ (List.mem_map_of_mem hc))
  · exact fun c hc => hafter _ (List.mem_map_of_mem hc)

theorem Placed.toBeProcessed_eq (h : s.Placed opts) {pre post : List Batch} (hbatches : s.batches = pre ++ post)
    (hpre : ∀ c ∈ pre, c.status = .AwaitingValidation) (hpost : ∀ c ∈ post, c.status.stage = .pending) :
    toBeProcessedStartEpoch s.batches s.startEpoch opts.epochsPerBatch = s.startEpoch + pre.length * opts.epochsPerBatch := by
  have hskip : (post.reverse.find? fun b => b.status == .AwaitingValidation) = none := by
    rw [List.find?_eq_none]
    intro c hc hstatus
    have hpending := hpost c (List.mem_reverse.1 hc)
    rw [beq_iff_eq] at hstatus
    rw [hstatus] at hpending
    cases hpending
  unfold toBeProcessedStartEpoch
  rw [hbatches, List.reverse_append, List.find?_append, hskip, Option.none_or]
  rcases List.eq_nil_or_concat pre with rfl | ⟨pre', last, rfl⟩
  · simp
  · have hlast : last.status = .AwaitingValidation := hpre last (by simp)
    have hstarts := (h.tiled_append hbatches).1
    rw [List.concat_eq_append, List.map_append, List.map_singleton, List.length_append, List.length_singleton, List.range'_concat]
      at hstarts
    have hstart := (List.append_inj' hstarts rfl).2
    rw [List.cons.injEq] at hstart
    rw [List.concat_eq_append, List.reverse_concat, List.find?_cons_of_pos (by simp [hlast]), List.length_append,
      List.length_singleton]
    dsimp only
    rw [hstart.1, Nat.add_mul, Nat.one_mul, Nat.mul_comm pre'.length, Nat.add_assoc]

theorem Ready.toBeProcessed_le (h : s.Ready opts) {o : Outline} (ho : o ∈ s.batches.map Batch.outline)
    (hne : o.stage ≠ .validated) :
    toBeProcessedStartEpoch s.batches s.startEpoch opts.epochsPerBatch ≤ o.startEpoch := by
  obtain ⟨pre, post, hbatches, hpre, hpost⟩ := h.settled.batches
  rw [h.placed.toBeProcessed_eq hbatches hpre hpost]
  obtain ⟨c, hc, rfl⟩ := List.mem_map.1 ho
  rw [hbatches] at hc
  rcases List.mem_append.1 hc with hc | hc
  · refine absurd ?_ hne
    show c.status.stage = .validated
    rw [hpre c hc]
    rfl
  · have hmem := List.mem_map_of_mem (f := Batch.startEpoch) hc
    rw [(h.placed.tiled_append hbatches).2] at hmem
    obtain ⟨i, -, heq⟩ := List.mem_range'.1 hmem
    show _ ≤ c.startEpoch
    omega

theorem Ready.toBeProcessed_le_next (h : s.Ready opts) :
    toBeProcessedStartEpoch s.batches s.startEpoch opts.epochsPerBatch ≤ s.nextEpoch opts := by
  obtain ⟨pre, post, hbatches, hpre, hpost⟩ := h.settled.batches
  rw [h.placed.toBeProcessed_eq hbatches hpre hpost]
  unfold nextEpoch
  have hle : pre.length ≤ s.batches.length := by
    rw [hbatches, List.length_append]
    omega
  have hmul := Nat.mul_le_mul_right opts.epochsPerBatch hle
  omega

/-! ## Runs that never start past the start -/

/-- The batches made follow one another from the first start, and where the loop came to a good end, the slots up to the target it
ended at are processed. -/
structure Tiles (P : Preset) (opts : SyncChainOpts) (startEpoch : Nat) (s : SyncChain) : Prop where
  starts : s.made.map Batch.startEpoch = List.range' startEpoch s.made.length opts.epochsPerBatch
  nextEpoch : s.nextEpoch opts = startEpoch + s.made.length * opts.epochsPerBatch
  reached : s.loop.Left → ∃ slot, (s.loop = .leaving (some slot) ∨ s.loop = .synced (some slot)) ∧
    ∀ x, computeStartSlotAtEpoch P startEpoch < x → x ≤ slot → s.InProcessed P opts x
  ended : s.status = .Synced → ∃ slot, s.loop = .synced slot

variable {startEpoch : Nat}

theorem Extends.tiles {added : List Batch} (h : Extends opts s s' added) (hs : s.Tiles P opts startEpoch) :
    s'.Tiles P opts startEpoch where
  starts := by
    rw [h.made, List.map_append, hs.starts, h.starts, hs.nextEpoch, List.length_append, Nat.mul_comm s.made.length,
      List.range'_append]
  nextEpoch := by rw [h.nextEpoch, hs.nextEpoch, h.made, List.length_append, Nat.add_mul, Nat.add_assoc]
  reached hleft := by
    rcases h.loop with heq | ⟨-, hno⟩
    · rw [heq] at hleft ⊢
      obtain ⟨slot, hloop, hall⟩ := hs.reached hleft
      refine ⟨slot, hloop, fun x hlt hle => ?_⟩
      obtain ⟨b, hb, hdone, hx⟩ := hall x hlt hle
      refine ⟨b, ?_, h.processed _ hdone, hx⟩
      rw [h.made]
      exact List.mem_append_left _ hb
    · exact absurd hleft hno
  ended hsynced := by
    obtain ⟨slot, hslot⟩ := hs.ended (h.status hsynced)
    rcases h.loop with heq | ⟨hactive, -⟩
    · exact ⟨slot, heq.trans hslot⟩
    · rw [hslot] at hactive
      exact hactive.elim

theorem Tiles.done (hs : s.Tiles P opts startEpoch) (h : s.Ready opts) {target : ChainTarget}
    (hdone : s.isDone P opts target = true) (hlt : computeStartSlotAtEpoch P startEpoch < x) (hle : x ≤ target.slot) :
    s.InProcessed P opts x := by
  unfold isDone at hdone
  rw [decide_eq_true_iff] at hdone
  have hnext := h.toBeProcessed_le_next
  -- the slot was requested
  have hrequested : x ∈ s.requestedSlots P opts := by
    rw [requestedSlots_eq hs.starts, List.mem_range'_1]
    refine ⟨hlt, ?_⟩
    have hslots := Nat.mul_le_mul_right P.SLOTS_PER_EPOCH hnext
    rw [hs.nextEpoch, Nat.add_mul, Nat.mul_assoc] at hslots
    unfold computeStartSlotAtEpoch at hdone ⊢
    omega
  obtain ⟨b, hb, hx⟩ := List.mem_flatMap.1 hrequested
  refine ⟨b, hb, ?_, hx⟩
  rcases h.accounted b hb with hprocessed | ⟨o, ho, hstart, hne⟩
  · exact hprocessed
  · -- else the batch would be processed next, or later
    have hlater := Nat.mul_le_mul_right P.SLOTS_PER_EPOCH (h.toBeProcessed_le ho hne)
    rw [slotsOf_request, List.mem_range'_1, ← hstart] at hx
    unfold computeStartSlotAtEpoch at hdone hx
    omega

def StartsWithin (s : SyncChain) : Event → Prop
  | .startSyncing localFinalizedEpoch => s.status = .Stopped → localFinalizedEpoch ≤ s.startEpoch
  | _ => True

instance (s : SyncChain) (event : Event) : Decidable (s.StartsWithin event) :=
  match event with
  | .startSyncing localFinalizedEpoch => inferInstanceAs (Decidable (s.status = .Stopped → localFinalizedEpoch ≤ s.startEpoch))
  | .addPeer _ _ => isTrue trivial
  | .removePeer _ => isTrue trivial
  | .stopSyncing => isTrue trivial
  | .remove => isTrue trivial
  | .downloaded _ _ => isTrue trivial
  | .turn => isTrue trivial
  | .processed _ => isTrue trivial
  | .settle => isTrue trivial

variable {localFinalizedEpoch : Nat}

theorem alignedEpoch_le (h : localFinalizedEpoch ≤ startEpoch) :
    alignedEpoch startEpoch localFinalizedEpoch ≤ (startEpoch : Int) := by
  have hfloor := Int.ediv_mul_le ((localFinalizedEpoch : Int) - startEpoch) (b := (EPOCHS_PER_BATCH : Int)) (by decide)
  unfold alignedEpoch
  omega

variable {event : Event}

theorem StartsWithin.restarts (h : s.StartsWithin event) : s.Restarts event := by
  cases event with
  | startSyncing localFinalizedEpoch => exact fun hstopped => .inl (alignedEpoch_le (h hstopped))
  | _ => trivial

theorem startSyncing_keeps (h : s.Sound opts) (hstopped : s.status = .Stopped) (hle : localFinalizedEpoch ≤ s.startEpoch) :
    Keeps opts s (s.startSyncing P opts localFinalizedEpoch).2 := by
  have hadvance : ({ s with status := .Syncing } : SyncChain).advanceChain (alignedEpoch s.startEpoch localFinalizedEpoch) =
      (.ok (), { s with status := .Syncing }) := by
    unfold advanceChain
    rw [if_pos (alignedEpoch_le hle)]
  have hsyncing : Keeps opts s { s with status := .Syncing } :=
    h.keeps_of_eq rfl rfl rfl rfl rfl rfl rfl fun hsynced => by cases hsynced
  have hrequest := requestBatches_keeps (P := P) hsyncing.sound
  rw [startSyncing_stopped P opts hstopped localFinalizedEpoch hadvance]
  exact (hsyncing.trans hrequest).trans (triggerBatchProcessor_keeps hrequest.sound)

theorem Sound.ready (h : s.Sound opts) (hloop : s.loop = .resumed) : s.Ready opts := by
  have hordered := h.ordered
  have hrunning := h.running
  rw [hloop] at hordered hrunning
  exact ⟨h.placed, h.accounted, hrunning trivial, hordered⟩

theorem next_cases (h : s.Sound opts) (hnext : next P opts event s = some s') (hwithin : s.StartsWithin event) :
    Keeps opts s s' ∨
      (event = .turn ∧ s.loop = .resumed ∧ ∃ target, s.target = some target ∧ s.isDone P opts target = true ∧
        s' = { s with batchProcessor := { s.batchProcessor with ended := true }, loop := .leaving (some target.slot) }) ∨
      (event = .settle ∧ ¬s.loop.Active ∧ s' = s.settle) := by
  cases event with
  | startSyncing localFinalizedEpoch =>
    left
    cases hnext
    by_cases hstopped : s.status = .Stopped
    · exact startSyncing_keeps h hstopped (hwithin hstopped)
    · rw [startSyncing_not_stopped hstopped]
      exact ⟨h, [], Extends.refl s⟩
  | turn =>
    obtain ⟨hloop, rfl⟩ := turn_of_next hnext
    rcases turn_cases (P := P) h hloop with hkeeps | ⟨target, htarget, hdone, heq⟩
    · exact .inl hkeeps
    · exact .inr (.inl ⟨rfl, hloop, target, htarget, hdone, heq⟩)
  | settle => exact .inr (.inr ⟨rfl, settle_of_next hnext⟩)
  | _ => exact .inl (next_keeps h hnext trivial)

theorem Tiles.settle (hs : s.Tiles P opts startEpoch) (hloop : ¬s.loop.Active) : s.settle.Tiles P opts startEpoch := by
  unfold SyncChain.settle
  cases hcase : s.loop with
  | leaving slot =>
    obtain ⟨slot', hslot, hall⟩ := hs.reached (by rw [hcase]; trivial)
    have heq : slot = some slot' := by
      rw [hcase] at hslot
      rcases hslot with hslot | hslot
      · cases hslot
        rfl
      · cases hslot
    refine ⟨hs.starts, hs.nextEpoch, fun _ => ⟨slot', .inr ?_, hall⟩, fun _ => ⟨slot, rfl⟩⟩
    rw [heq]
  | throwing error =>
    have hnot : s.status ≠ .Synced := by
      intro hsynced
      obtain ⟨slot, hslot⟩ := hs.ended hsynced
      rw [hcase] at hslot
      cases hslot
    cases error with
    | aborted => exact ⟨hs.starts, hs.nextEpoch, fun hleft => hleft.elim, fun hsynced => absurd hsynced hnot⟩
    | batch err => exact ⟨hs.starts, hs.nextEpoch, fun hleft => hleft.elim, fun hsynced => by cases hsynced⟩
    | batchesStatus message => exact ⟨hs.starts, hs.nextEpoch, fun hleft => hleft.elim, fun hsynced => by cases hsynced⟩
  | failed => exact hs
  | synced slot => exact hs
  | waiting =>
    rw [hcase] at hloop
    exact absurd trivial hloop
  | resumed =>
    rw [hcase] at hloop
    exact absurd trivial hloop
  | processing id blocks =>
    rw [hcase] at hloop
    exact absurd trivial hloop

theorem settle_left (hend : s.settle.loop = .leaving (some slot) ∨ s.settle.loop = .synced (some slot)) :
    s.loop = .leaving (some slot) ∨ s.loop = .synced (some slot) := by
  unfold SyncChain.settle at hend
  cases hcase : s.loop with
  | leaving slot' =>
    rw [hcase] at hend
    rcases hend with hend | hend <;> cases hend
    exact .inl rfl
  | throwing error =>
    rw [hcase] at hend
    cases error <;> rcases hend with hend | hend <;> cases hend
  | _ =>
    rw [hcase] at hend
    rw [hcase] at hend
    exact hend

theorem next_tiles (h : s.Sound opts) (hs : s.Tiles P opts startEpoch) (hnext : next P opts event s = some s')
    (hwithin : s.StartsWithin event) : s'.Tiles P opts startEpoch := by
  rcases next_cases h hnext hwithin with ⟨-, added, hadded⟩ | ⟨-, hloop, target, -, hdone, rfl⟩ | ⟨-, hend, rfl⟩
  · exact hadded.tiles hs
  · refine ⟨hs.starts, hs.nextEpoch, fun _ => ⟨target.slot, .inl rfl, ?_⟩, fun hsynced => ?_⟩
    · exact fun x hlt hle => hs.done (h.ready hloop) hdone hlt hle
    · obtain ⟨slot, hslot⟩ := hs.ended hsynced
      rw [hloop] at hslot
      cases hslot
  · exact hs.settle hend

theorem init_tiles : (init startEpoch).Tiles P opts startEpoch := by
  constructor
  · rfl
  · rfl
  · exact fun hleft => hleft.elim
  · exact fun hsynced => by cases hsynced

variable {steps : List (SyncChain × Event)}

section

variable (hrun : Run (next P opts) (init startEpoch) steps s) (hwithin : ∀ step ∈ steps, step.1.StartsWithin step.2)
include hrun hwithin

theorem run_tiles : s.Sound opts ∧ s.Tiles P opts startEpoch := by
  have hfirst : (init startEpoch).Sound opts ∧ (init startEpoch).Tiles P opts startEpoch := ⟨init_sound startEpoch, init_tiles⟩
  have hstep : ∀ s event s', next P opts event s = some s' → s.StartsWithin event →
      s.Sound opts ∧ s.Tiles P opts startEpoch → s'.Sound opts ∧ s'.Tiles P opts startEpoch := by
    rintro s event s' hnext hstart ⟨h, hs⟩
    exact ⟨next_sound h hnext hstart.restarts, next_tiles h hs hnext hstart⟩
  exact hrun.always hfirst hstep hwithin s (List.mem_append_right _ (List.mem_singleton.2 rfl))

theorem run_target (hend : s.loop = .leaving (some slot) ∨ s.loop = .synced (some slot)) :
    ∃ step ∈ steps, step.2 = .turn ∧ ∃ target, step.1.target = some target ∧ target.slot = slot := by
  induction hrun with
  | refl => rcases hend with hend | hend <;> cases hend
  | @step steps s s' event hrun hnext ih =>
    rw [List.forall_mem_append, List.forall_mem_singleton] at hwithin
    have hbefore : (s.loop = .leaving (some slot) ∨ s.loop = .synced (some slot)) →
        ∃ step ∈ steps ++ [(s, event)], step.2 = .turn ∧ ∃ target, step.1.target = some target ∧ target.slot = slot := by
      intro hbefore
      obtain ⟨step, hstep, hrest⟩ := ih hwithin.1 hbefore
      exact ⟨step, List.mem_append_left _ hstep, hrest⟩
    obtain ⟨h, -⟩ := run_tiles hrun hwithin.1
    rcases next_cases h hnext hwithin.2 with ⟨-, added, hadded⟩ | ⟨hturn, -, target, htarget, -, rfl⟩ | ⟨-, hactive, rfl⟩
    · rcases hadded.loop with heq | ⟨-, hno⟩
      · rw [heq] at hend
        exact hbefore hend
      · rcases hend with hend | hend <;> rw [hend] at hno <;> exact absurd trivial hno
    · refine ⟨(s, event), by simp, hturn, target, htarget, ?_⟩
      rcases hend with hend | hend <;> cases hend
      rfl
    · exact hbefore (settle_left hend)

end

/-! ## The done test and the include test -/

/-- The chain is not done, has room in its buffer, and has no batch that waits to be downloaded, is downloaded or is processed. -/
structure Free (P : Preset) (opts : SyncChainOpts) (s : SyncChain) : Prop where
  notDone : ∀ target ∈ s.target, s.isDone P opts target = false
  room : (s.batches.filter fun b => b.status == .Downloading || b.status == .AwaitingProcessing).length ≤ BATCH_BUFFER_SIZE
  idle : ∀ b ∈ s.batches, b.status ≠ .AwaitingDownload ∧ b.status ≠ .Downloading ∧ b.status ≠ .Processing

/-- The last batch waits to be processed, and its request reaches the target. -/
def ReachesTarget (P : Preset) (opts : SyncChainOpts) (s : SyncChain) : Prop :=
  ∃ b ∈ s.batches.getLast?, b.status = .AwaitingProcessing ∧ ∃ target ∈ s.target,
    target.slot < (b.request P opts.epochsPerBatch).startSlot + (b.request P opts.epochsPerBatch).count

theorem Placed.nextStart_not_mem (h : s.Placed opts) (hpositive : 1 ≤ opts.epochsPerBatch) :
    nextStart (s.batches.map Batch.startEpoch) s.startEpoch opts.epochsPerBatch ∉ s.batches.map Batch.startEpoch := by
  rw [h.tiled, nextStart_range']
  intro hmem
  obtain ⟨i, hi, heq⟩ := List.mem_range'.1 hmem
  have hlt := Nat.mul_lt_mul_of_pos_right hi hpositive
  rw [Nat.mul_comm opts.epochsPerBatch] at heq
  omega

theorem toBeProcessed_of_last {batches : List Batch} {last : Batch} (hlast : batches.getLast? = some last)
    (hstatus : last.status = .AwaitingValidation) (startEpoch epochsPerBatch : Nat) :
    toBeProcessedStartEpoch batches startEpoch epochsPerBatch = last.startEpoch + epochsPerBatch := by
  obtain ⟨front, rfl⟩ := List.getLast?_eq_some_iff.1 hlast
  unfold toBeProcessedStartEpoch
  rw [List.reverse_concat, List.find?_cons_of_pos (by simp [hstatus])]

theorem Placed.includeNextBatch (h : s.Placed opts) (hpositive : 1 ≤ opts.epochsPerBatch) (hfree : s.Free P opts) :
    (s.includeNextBatch P opts).isSome ∨ s.ReachesTarget P opts := by
  have hroom := hfree.room
  have hkey := h.nextStart_not_mem hpositive
  have hnotAny : (s.batches.any fun b =>
      b.startEpoch == toBeDownloadedStartEpoch s.batches s.startEpoch opts.epochsPerBatch) = false := by
    rw [List.any_eq_false]
    intro c hc heq
    rw [beq_iff_eq, toBeDownloadedStartEpoch_eq] at heq
    exact hkey (heq ▸ List.mem_map_of_mem hc)
  unfold SyncChain.includeNextBatch
  dsimp only
  rw [if_neg (by omega), hnotAny]
  cases htarget : s.target with
  | none =>
    left
    rfl
  | some target =>
    have hnotDone := hfree.notDone target htarget
    unfold isDone at hnotDone
    rw [decide_eq_false_iff_not] at hnotDone
    by_cases hbeyond : target.slot <
        computeStartSlotAtEpoch P (toBeDownloadedStartEpoch s.batches s.startEpoch opts.epochsPerBatch) + BATCH_SLOT_OFFSET
    · right
      unfold toBeDownloadedStartEpoch BATCH_SLOT_OFFSET at hbeyond
      cases hlast : s.batches.getLast? with
      | none =>
        -- without batches, the done test and the include test compare the same slot
        rw [hlast] at hbeyond
        rw [List.getLast?_eq_none_iff.1 hlast] at hnotDone
        exact absurd (Nat.le_of_lt_succ hbeyond) hnotDone
      | some last =>
        rw [hlast] at hbeyond
        refine ⟨last, hlast, ?_, target, htarget, ?_⟩
        · cases hstatus : last.status with
          | AwaitingProcessing => rfl
          | AwaitingValidation =>
            rw [toBeProcessed_of_last hlast hstatus] at hnotDone
            exact absurd (Nat.le_of_lt_succ hbeyond) hnotDone
          | AwaitingDownload => exact absurd hstatus (hfree.idle last (List.mem_of_getLast? hlast)).1
          | Downloading => exact absurd hstatus (hfree.idle last (List.mem_of_getLast? hlast)).2.1
          | Processing => exact absurd hstatus (hfree.idle last (List.mem_of_getLast? hlast)).2.2
        · unfold Batch.request BATCH_SLOT_OFFSET
          unfold computeStartSlotAtEpoch at hbeyond ⊢
          dsimp only
          rw [Nat.add_mul] at hbeyond
          omega
    · left
      rw [Option.any_some, decide_eq_false hbeyond]
      rfl

/-- **A chain that never starts past its start** requests the slots after the first slot of its start epoch one by one; where it is
synced, every slot up to the target that ended it is in a batch that was processed; and where it is free, it makes the next batch,
but while the last one waits to be processed and reaches the target. -/
theorem range_tiles (P : Preset) (opts : SyncChainOpts) (hpositive : 1 ≤ opts.epochsPerBatch) {startEpoch : Nat}
    {steps : List (SyncChain × Event)} {s : SyncChain} (hrun : Run (next P opts) (init startEpoch) steps s)
    (hwithin : ∀ step ∈ steps, step.1.StartsWithin step.2) :
    s.requestedSlots P opts =
        List.range' (computeStartSlotAtEpoch P startEpoch + 1) (s.made.length * (opts.epochsPerBatch * P.SLOTS_PER_EPOCH)) ∧
      (s.status = .Synced → ∃ step ∈ steps, step.2 = .turn ∧ ∃ target, step.1.target = some target ∧
        s.loop = .synced (some target.slot) ∧
        ∀ slot, computeStartSlotAtEpoch P startEpoch < slot → slot ≤ target.slot → s.InProcessed P opts slot) ∧
      (s.Free P opts → (s.includeNextBatch P opts).isSome ∨ s.ReachesTarget P opts) := by
  obtain ⟨h, htiles⟩ := run_tiles hrun hwithin
  refine ⟨requestedSlots_eq htiles.starts, ?_, h.placed.includeNextBatch hpositive⟩
  intro hsynced
  obtain ⟨slot, hslot⟩ := htiles.ended hsynced
  obtain ⟨slot', hloop, hall⟩ := htiles.reached (by rw [hslot]; trivial)
  have hend : s.loop = .synced (some slot') := by
    rcases hloop with hloop | hloop
    · rw [hslot] at hloop
      cases hloop
    · exact hloop
  obtain ⟨step, hstep, hturn, target, htarget, rfl⟩ := run_target hrun hwithin (.inr hend)
  exact ⟨step, hstep, hturn, target, htarget, hend, hall⟩

/-- Three batches, of which the second is downloaded first. -/
def syncedTo40 : List Event :=
  [.addPeer "a" ⟨40, zeroRoot⟩, .addPeer "b" ⟨40, zeroRoot⟩, .startSyncing 0, .downloaded 1 (some []), .downloaded 0 (some []), .turn,
    .processed .ok, .downloaded 2 (some []), .turn, .processed .ok, .turn, .processed .ok, .turn, .settle]

theorem range_tiles_syncedTo40 :
    let s := (exec (next minimal plainOpts) syncedTo40 (init 0)).2
    s.status = .Synced ∧ s.requestedSlots minimal plainOpts = List.range' 1 48 ∧
      ∀ slot, 0 < slot → slot ≤ 40 → s.InProcessed minimal plainOpts slot := by
  intro s
  have hsynced : s.status = .Synced := by decide
  obtain ⟨htiles, hended, -⟩ :=
    range_tiles minimal plainOpts (by decide) (exec_run (next minimal plainOpts) syncedTo40 (init 0)) (by decide)
  obtain ⟨_, -, -, target, -, hloop, hall⟩ := hended hsynced
  have htarget : Loop.synced (some 40) = .synced (some target.slot) := (show s.loop = _ by decide).symm.trans hloop
  rw [← Option.some.inj (Loop.synced.inj htarget)] at hall
  exact ⟨hsynced, htiles, hall⟩

def downloadedToTarget : List Event := [.addPeer "peer" ⟨16, zeroRoot⟩, .startSyncing 0, .downloaded 0 (some [])]

/-- **A chain that is free makes no batch** where the one that waits to be processed reaches the target. -/
theorem freeIncludes_fails : ¬∀ (steps : List (SyncChain × Event)) (s : SyncChain), Run (next minimal plainOpts) (init 0) steps s →
    (∀ step ∈ steps, step.1.StartsWithin step.2) → s.Free minimal plainOpts → (s.includeNextBatch minimal plainOpts).isSome := by
  intro h
  have hfree : (exec (next minimal plainOpts) downloadedToTarget (init 0)).2.Free minimal plainOpts := by
    constructor
    · decide
    · decide
    · decide
  exact absurd (h _ _ (exec_run (next minimal plainOpts) downloadedToTarget (init 0)) (by decide) hfree) (by decide)

end SyncChain

end Lodestar.Sync
