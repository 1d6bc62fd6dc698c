import Lodestar.Sync.BatchOrder
/-!
# BatchSegments — turns of the main loop, and the segments they process

A turn processes the first batch after the validated ones.  Where its segment is processed, the batch is validated by the next one
that imports a block; where it fails, the batch is retried, and so are the batches before it that are still there.  What is dropped
awaits validation, up to the batch itself, and the order is kept (`processedSegment_keeps`, `turn_cases`).
-/
namespace Lodestar.Sync

open Lib

/-! ## Processing -/

namespace Batch

variable {b b' : Batch}

theorem status_of_validated (h : b.status.stage = .validated) : b.status = .AwaitingValidation := by
  cases hstatus : b.status <;> rw [hstatus] at h <;> first | rfl | cases h

theorem status_of_processing (h : b.status.stage = .processing) : b.status = .Processing := by
  cases hstatus : b.status <;> rw [hstatus] at h <;> first | rfl | cases h

theorem startProcessing_outline {hashBlocks : List SignedBeaconBlock → List UInt8} {blocks : List SignedBeaconBlock}
    (h : b.startProcessing hashBlocks = .ok (blocks, b')) : b'.outline = ⟨b.id, b.startEpoch, .processing⟩ := by
  unfold startProcessing at h
  cases hstate : b.state <;> rw [hstate] at h <;> cases h
  rfl

theorem processingSuccess_of_processing (h : b.status = .Processing) :
    ∃ b', b.processingSuccess = .ok b' ∧ b'.outline = ⟨b.id, b.startEpoch, .validated⟩ := by
  unfold status BatchState.status at h
  unfold processingSuccess
  cases hstate : b.state <;> rw [hstate] at h <;> first | exact ⟨_, rfl, rfl⟩ | cases h

theorem onProcessingError_outline (b : Batch) (attempt : Attempt) :
    ∃ b', (b.onProcessingError attempt = (.ok (), b') ∧ b'.outline = ⟨b.id, b.startEpoch, .pending⟩) ∨
      ∃ e, b.onProcessingError attempt = (.error e, b') ∧ b'.outline = b.outline := by
  unfold onProcessingError
  dsimp only
  split
  · exact ⟨_, .inr ⟨_, rfl, rfl⟩⟩
  · exact ⟨_, .inl ⟨rfl, rfl⟩⟩

theorem processingError_outline (b : Batch) :
    ∃ b', (b.processingError = (.ok (), b') ∧ b'.outline = ⟨b.id, b.startEpoch, .pending⟩) ∨
      ∃ e, b.processingError = (.error e, b') ∧ b'.outline = b.outline := by
  unfold processingError
  cases b.state with
  | Processing attempt => exact b.onProcessingError_outline attempt
  | _ => exact ⟨b, .inr ⟨_, rfl, rfl⟩⟩

theorem validationError_outline (b : Batch) :
    ∃ b', (b.validationError = (.ok (), b') ∧ b'.outline = ⟨b.id, b.startEpoch, .pending⟩) ∨
      ∃ e, b.validationError = (.error e, b') ∧ b'.outline = b.outline := by
  unfold validationError
  cases b.state with
  | AwaitingValidation attempt => exact b.onProcessingError_outline attempt
  | _ => exact ⟨b, .inr ⟨_, rfl, rfl⟩⟩

end Batch

theorem getNextBatchToProcess_some : ∀ {batches : List Batch} {b : Batch}, getNextBatchToProcess batches = some b →
    ∃ pre post, batches = pre ++ b :: post ∧ b.status = .AwaitingProcessing ∧ ∀ c ∈ pre, c.status = .AwaitingValidation
  | c :: batches, b, h => by
    unfold getNextBatchToProcess at h
    cases hstatus : c.status <;> rw [hstatus] at h
    case AwaitingValidation =>
      obtain ⟨pre, post, rfl, hb, hpre⟩ := getNextBatchToProcess_some h
      exact ⟨c :: pre, post, rfl, hb, List.forall_mem_cons.2 ⟨hstatus, hpre⟩⟩
    case AwaitingProcessing =>
      cases h
      exact ⟨[], batches, rfl, hstatus, by simp⟩
    all_goals cases h

/-- What marking batches for retry does to them. -/
structure Invalidated (startEpoch : Nat) (batches : List Batch) (invalidated : Except BatchError Unit × List Batch) : Prop where
  ids : invalidated.2.map Batch.id = batches.map Batch.id
  starts : invalidated.2.map Batch.startEpoch = batches.map Batch.startEpoch
  demoted : ∀ o ∈ batches.map Batch.outline, o.stage ≠ .validated →
    ∃ o' ∈ invalidated.2.map Batch.outline, o'.startEpoch = o.startEpoch ∧ o'.stage ≠ .validated
  retried : invalidated.1 = .ok () → ∀ b ∈ invalidated.2, b.status.stage = .pending ∨ (startEpoch ≤ b.startEpoch ∧ b ∈ batches)

theorem invalidateBefore_invalidated (startEpoch : Nat) : ∀ batches : List Batch,
    Invalidated startEpoch batches (invalidateBefore startEpoch batches)
  | [] => by
    constructor <;> simp [invalidateBefore]
  | b :: batches => by
    have ih := invalidateBefore_invalidated startEpoch batches
    -- a batch in place of the first, before batches that are left or marked
    have hcons : ∀ (b' : Batch) (rest : Except BatchError Unit × List Batch) (result : Except BatchError Unit),
        b'.id = b.id → b'.startEpoch = b.startEpoch → (b'.status.stage = b.status.stage ∨ b'.status.stage = .pending) →
        Invalidated startEpoch batches rest →
        (result = .ok () → rest.1 = .ok () ∧ (b'.status.stage = .pending ∨ (startEpoch ≤ b.startEpoch ∧ b' = b))) →
        Invalidated startEpoch (b :: batches) (result, b' :: rest.2) := by
      intro b' rest result hid hstart hstage hrest hok
      constructor
      · simp [hid, hrest.ids]
      · simp [hstart, hrest.starts]
      · rw [List.map_cons, List.forall_mem_cons]
        constructor
        · intro hne
          refine ⟨b'.outline, List.mem_cons_self, hstart, ?_⟩
          show b'.status.stage ≠ .validated
          rcases hstage with hstage | hstage
          · rw [hstage]
            exact hne
          · rw [hstage]
            simp
        · intro o ho hne
          obtain ⟨o', ho', hrest⟩ := hrest.demoted o ho hne
          exact ⟨o', List.mem_cons_of_mem _ ho', hrest⟩
      · intro hresult
        obtain ⟨hrestOk, hb'⟩ := hok hresult
        rw [List.forall_mem_cons]
        constructor
        · rcases hb' with hpending | ⟨hle, rfl⟩
          · exact .inl hpending
          · exact .inr ⟨hle, List.mem_cons_self⟩
        · intro c hc
          rcases hrest.retried hrestOk c hc with hpending | ⟨hle, hmem⟩
          · exact .inl hpending
          · exact .inr ⟨hle, List.mem_cons_of_mem _ hmem⟩
    have hkept : Invalidated startEpoch batches (.error (b.errorType .MAX_PROCESSING_ATTEMPTS), batches) := by
      constructor
      case demoted => exact fun o ho hne => ⟨o, ho, rfl, hne⟩
      all_goals simp
    unfold invalidateBefore
    by_cases hlt : b.startEpoch < startEpoch
    · rw [if_pos hlt]
      obtain ⟨after, ⟨heq, houtline⟩ | ⟨e, heq, houtline⟩⟩ := b.validationError_outline
      · rw [heq]
        have hpending : after.status.stage = .pending := congrArg Outline.stage houtline
        exact hcons _ _ _ (congrArg Outline.id houtline) (congrArg Outline.startEpoch houtline) (.inr hpending) ih
          fun hok => ⟨hok, .inl hpending⟩
      · rw [heq]
        exact hcons _ (.error (b.errorType .MAX_PROCESSING_ATTEMPTS), batches) _ (congrArg Outline.id houtline)
          (congrArg Outline.startEpoch houtline) (.inl (congrArg Outline.stage houtline)) hkept fun hok => by cases hok
    · rw [if_neg hlt]
      exact hcons b _ _ rfl rfl (.inl rfl) ih fun hok => ⟨hok, .inr ⟨by omega, rfl⟩⟩

namespace SyncChain

variable {P : Preset} {opts : SyncChainOpts} {s s' : SyncChain} {b b' : Batch}

variable {pre post : List Batch}

theorem Placed.lt_of_split (h : s.Placed opts) (hbatches : s.batches = pre ++ b :: post) :
    (∀ c ∈ pre, c.startEpoch < b.startEpoch) ∧ ∀ c ∈ post, b.startEpoch < c.startEpoch := by
  have hstrict := (h.sorted.and h.keys).imp fun hab => Nat.lt_of_le_of_ne hab.1 hab.2
  rw [hbatches, List.map_append, List.map_cons, List.pairwise_append, List.pairwise_cons] at hstrict
  obtain ⟨-, ⟨hpost, -⟩, hpre⟩ := hstrict
  constructor
  · exact fun c hc => hpre _ (List.mem_map_of_mem hc) _ List.mem_cons_self
  · exact fun c hc => hpost _ (List.mem_map_of_mem hc)

theorem Sound.putBatch_stage (h : s.Sound opts) (hbatches : s.batches = pre ++ b :: post) (hid : b'.id = b.id)
    (hstart : b'.startEpoch = b.startEpoch) (processed : List Nat) (hprocessed : ∀ epoch ∈ s.processed, epoch ∈ processed)
    (hstage : b'.status.stage = .validated → b.startEpoch ∈ processed) :
    let s' : SyncChain := { s.putBatch b' with processed := processed }
    s'.batches = pre ++ b' :: post ∧ s'.Placed opts ∧ s'.Accounted ∧ Extends opts s s' [] := by
  obtain ⟨hput, hdropped⟩ := h.placed.distinct.putBatch_split hbatches hid
  refine ⟨hput, ?_, ?_, ?_⟩
  · refine h.placed.of_places ?_ ?_ (congrArg _ hdropped) rfl rfl
    · show (s.putBatch b').batches.map Batch.id = _
      simp [hput, hbatches, hid]
    · show (s.putBatch b').batches.map Batch.startEpoch = _
      simp [hput, hbatches, hstart]
  · refine h.accounted.mono rfl hprocessed fun o ho hne => ?_
    rw [hput]
    rw [hbatches, List.map_append, List.map_cons] at ho
    rw [List.map_append, List.map_cons]
    rcases List.mem_append.1 ho with ho | ho
    · exact .inr ⟨o, List.mem_append_left _ ho, rfl, hne⟩
    · rcases List.mem_cons.1 ho with rfl | ho
      · by_cases hvalidated : b'.status.stage = .validated
        · exact .inl (hstage hvalidated)
        · exact .inr ⟨b'.outline, by simp, hstart, hvalidated⟩
      · exact .inr ⟨o, List.mem_append_right _ (List.mem_cons_of_mem _ ho), rfl, hne⟩
  · constructor
    case processed => exact hprocessed
    all_goals simp [putBatch, nextEpoch]

/-! ## Segments -/

variable {blocks : List SignedBeaconBlock}

theorem Sound.processing_split (h : s.Sound opts) {id : Nat} (hloop : s.loop = .processing id blocks) :
    ∃ pre b post, s.batches = pre ++ b :: post ∧ b.id = id ∧ b.status = .Processing ∧ (∀ c ∈ pre, c.status = .AwaitingValidation) ∧
      ∀ c ∈ post, c.status.stage = .pending := by
  have hordered := h.ordered
  rw [hloop] at hordered
  obtain ⟨before, o, after, heq, hid, hstage, hbefore, hafter⟩ := hordered
  obtain ⟨pre, rest, hbatches, rfl, hrest⟩ := List.map_eq_append_iff.1 heq
  obtain ⟨b, post, rfl, rfl, rfl⟩ := List.map_eq_cons_iff.1 hrest
  refine ⟨pre, b, post, hbatches, hid, Batch.status_of_processing hstage, ?_, ?_⟩
  · exact fun c hc => Batch.status_of_validated (hbefore _ (List.mem_map_of_mem hc))
  · exact fun c hc => hafter _ (List.mem_map_of_mem hc)

theorem settled_of_split (hpre : ∀ c ∈ pre, c.status = .AwaitingValidation)
    (hb : b.status.stage = .validated ∨ b.status.stage = .pending) (hpost : ∀ c ∈ post, c.status.stage = .pending) :
    Settled ((pre ++ b :: post).map Batch.outline) := by
  have hbefore : ∀ o ∈ pre.map Batch.outline, o.stage = .validated := by
    intro o ho
    obtain ⟨c, hc, rfl⟩ := List.mem_map.1 ho
    show c.status.stage = .validated
    rw [hpre c hc]
    rfl
  have hafter : ∀ o ∈ post.map Batch.outline, o.stage = .pending := by
    intro o ho
    obtain ⟨c, hc, rfl⟩ := List.mem_map.1 ho
    exact hpost c hc
  rcases hb with hb | hb
  · refine ⟨(pre ++ [b]).map Batch.outline, post.map Batch.outline, by simp, ?_, hafter⟩
    rw [List.map_append, List.map_singleton, List.forall_mem_append, List.forall_mem_singleton]
    exact ⟨hbefore, hb⟩
  · refine ⟨pre.map Batch.outline, (b :: post).map Batch.outline, by simp, hbefore, ?_⟩
    rw [List.map_cons, List.forall_mem_cons]
    exact ⟨hb, hafter⟩

/-- A part of a step after which the chain is still ready. -/
structure Prepares (opts : SyncChainOpts) (s s' : SyncChain) : Prop where
  ready : s'.Ready opts
  history : ∃ added, Extends opts s s' added
  loop : s'.loop = s.loop

theorem Prepares.trans {s'' : SyncChain} (h : Prepares opts s s') (h' : Prepares opts s' s'') : Prepares opts s s'' := by
  obtain ⟨added, hadded⟩ := h.history
  obtain ⟨added', hadded'⟩ := h'.history
  exact ⟨h'.ready, ⟨_, hadded.trans hadded'⟩, h'.loop.trans h.loop⟩

theorem Prepares.awaitNext (h : Prepares opts s s') (hactive : s.loop.Active) : Keeps opts s s'.awaitNext := by
  obtain ⟨added, hadded⟩ := h.history
  have hnext := h.ready.awaitNext (h.loop.symm ▸ hactive)
  obtain ⟨added', hadded'⟩ := hnext.history
  exact ⟨hnext.sound, _, hadded.trans hadded'⟩

theorem Ready.requestBatches (h : s.Ready opts) : Prepares opts s (s.requestBatches P opts) := by
  obtain ⟨added, hr⟩ := requestBatches_requested P opts h.placed.distinct
  refine ⟨⟨hr.placed h.placed, hr.accounted h.accounted, ?_, ?_⟩, ⟨added, hr.history h.placed⟩, hr.loop⟩
  · rw [hr.batchProcessor]
    exact h.running
  · rw [hr.batches]
    exact h.settled.append hr.pending_outlines

theorem Ready.triggerBatchProcessor (h : s.Ready opts) (hloop : s.loop ≠ .waiting) : Prepares opts s s.triggerBatchProcessor := by
  unfold SyncChain.triggerBatchProcessor
  rw [if_neg hloop]
  constructor
  · refine ⟨h.placed.of_places rfl rfl rfl rfl rfl, ?_, h.running, h.settled⟩
    exact h.accounted.mono rfl (fun _ => id) fun o ho hne => .inr ⟨o, ho, rfl, hne⟩
  · refine ⟨[], ?_⟩
    constructor
    all_goals simp [nextEpoch]
  · rfl

theorem Ready.advanceIf (h : s.Ready opts) (hbatches : s.batches = pre ++ b :: post)
    (hpre : ∀ c ∈ pre, c.status = .AwaitingValidation) (imported : Bool) :
    ∃ s' rest, s.advanceIf imported b.startEpoch = (.ok (), s') ∧ Prepares opts s s' ∧ s'.batches = rest ++ b :: post := by
  have hsplit := h.placed.lt_of_split hbatches
  have hb : b ∈ s.batches := by
    rw [hbatches]
    simp
  cases imported with
  | false =>
    exact ⟨s, pre, rfl, ⟨h, ⟨[], Extends.refl s⟩, rfl⟩, hbatches⟩
  | true =>
    have hvalidated : ∀ c ∈ s.batches, (c.startEpoch : Int) < b.startEpoch → c.status = .AwaitingValidation := by
      intro c hc hlt
      rw [hbatches] at hc
      rcases List.mem_append.1 hc with hc | hc
      · exact hpre c hc
      · rcases List.mem_cons.1 hc with rfl | hc
        · omega
        · have := hsplit.2 c hc
          omega
    have hhit : ∃ c ∈ s.batches, (c.startEpoch : Int) = b.startEpoch := ⟨b, hb, rfl⟩
    obtain ⟨s', front, heq, htrimmed, hplaced, hfront, -, hnext⟩ := advanceChain_trims h.placed hvalidated (.inr (.inr hhit))
    have hready : s'.Ready opts := by
      refine ⟨hplaced, htrimmed.accounted h.accounted, ?_, ?_⟩
      · rw [htrimmed.batchProcessor]
        exact h.running
      · have hsettled := h.settled
        rw [htrimmed.outlines] at hsettled
        exact hsettled.drop
    have hextends : Extends opts s s' [] := by
      constructor
      case nextEpoch => simp [hnext hhit]
      case loop => exact .inl htrimmed.loop
      all_goals simp [htrimmed.made, htrimmed.processed, htrimmed.status]
    obtain ⟨rest, hrest⟩ : ∃ rest, s'.batches = rest ++ b :: post := by
      have hboth := htrimmed.batches
      rw [hbatches] at hboth
      rcases List.append_eq_append_iff.1 hboth with ⟨middle, rfl, hmiddle⟩ | ⟨middle, -, hmiddle⟩
      · cases middle with
        | nil => exact ⟨[], hmiddle.symm⟩
        | cons c middle =>
          -- the batch itself is not before itself
          rw [List.cons_append, List.cons.injEq] at hmiddle
          have hself := hfront b (by rw [hmiddle.1]; simp)
          omega
      · exact ⟨middle, hmiddle⟩
    exact ⟨s', rest, heq, ⟨hready, ⟨[], hextends⟩, htrimmed.loop⟩, hrest⟩

theorem Sound.processedBatch (h : s.Sound opts) (hbatches : s.batches = pre ++ b :: post) (hb : b.status = .Processing)
    (hpre : ∀ c ∈ pre, c.status = .AwaitingValidation) (hpost : ∀ c ∈ post, c.status.stage = .pending) (hloop : s.loop ≠ .waiting)
    (hactive : s.loop.Active) (blocks : List SignedBeaconBlock) :
    ∃ s', s.processedBatch P opts b blocks = (.ok (), s') ∧ Prepares opts s s' := by
  obtain ⟨b', hsuccess, houtline⟩ := Batch.processingSuccess_of_processing hb
  have hstart : b'.startEpoch = b.startEpoch := congrArg Outline.startEpoch houtline
  have hstage : b'.status.stage = .validated := congrArg Outline.stage houtline
  obtain ⟨hput, hplaced, haccounted, hextends⟩ := h.putBatch_stage hbatches (congrArg Outline.id houtline) hstart
    (s.processed ++ [b.startEpoch]) (by simp +contextual) fun _ => by simp
  have hprepared : Prepares opts s { s.putBatch b' with processed := s.processed ++ [b.startEpoch] } := by
    refine ⟨⟨hplaced, haccounted, h.running hactive, ?_⟩, ⟨[], hextends⟩, rfl⟩
    rw [hput]
    exact settled_of_split hpre (.inl hstage) hpost
  obtain ⟨s', rest, hadvance, hadvanced, -⟩ := hprepared.ready.advanceIf hput hpre (0 < blocks.length)
  have htrigger := hadvanced.ready.triggerBatchProcessor (by rw [hadvanced.loop]; exact hloop)
  have hrequest := htrigger.ready.requestBatches (P := P)
  refine ⟨_, ?_, ((hprepared.trans hadvanced).trans htrigger).trans hrequest⟩
  rw [hstart] at hadvance
  unfold SyncChain.processedBatch
  rw [hsuccess]
  dsimp only
  rw [hadvance]

theorem Sound.failedBatch (h : s.Sound opts) (hbatches : s.batches = pre ++ b :: post) (hb : b.status = .Processing)
    (hpre : ∀ c ∈ pre, c.status = .AwaitingValidation) (hpost : ∀ c ∈ post, c.status.stage = .pending) (hactive : s.loop.Active)
    (importedBlocks : Nat) :
    (∃ s', s.failedBatch P opts b importedBlocks = (.ok (), s') ∧ Prepares opts s s') ∨
      ∃ e s', s.failedBatch P opts b importedBlocks = (.error e, s') ∧ s'.Placed opts ∧ s'.Accounted ∧
        (∃ added, Extends opts s s' added) ∧ s'.loop = s.loop := by
  obtain ⟨after, ⟨heq, houtline⟩ | ⟨e, heq, houtline⟩⟩ := b.processingError_outline
  · -- the batch is retried
    have hstart : after.startEpoch = b.startEpoch := congrArg Outline.startEpoch houtline
    have hstage : after.status.stage = .pending := congrArg Outline.stage houtline
    obtain ⟨hput, hplaced, haccounted, hextends⟩ := h.putBatch_stage hbatches (congrArg Outline.id houtline) hstart
      s.processed (fun _ => id) fun hvalidated => by rw [hstage] at hvalidated; cases hvalidated
    have hprepared : Prepares opts s (s.putBatch after) := by
      refine ⟨⟨hplaced, haccounted, h.running hactive, ?_⟩, ⟨[], hextends⟩, rfl⟩
      have hsettled := settled_of_split hpre (.inr hstage) hpost
      rw [← hput] at hsettled
      exact hsettled
    obtain ⟨s', rest, hadvance, hadvanced, hrest⟩ := hprepared.ready.advanceIf hput hpre (0 < importedBlocks)
    have hinvalidated := invalidateBefore_invalidated b.startEpoch s'.batches
    have hprogress := hprepared.trans hadvanced
    obtain ⟨added, hadded⟩ := hprogress.history
    have hready := hadvanced.ready
    have hplaced' : ({ s' with batches := (invalidateBefore b.startEpoch s'.batches).2 } : SyncChain).Placed opts :=
      hready.placed.of_places hinvalidated.ids hinvalidated.starts rfl rfl rfl
    have haccounted' : ({ s' with batches := (invalidateBefore b.startEpoch s'.batches).2 } : SyncChain).Accounted :=
      hready.accounted.mono rfl (fun _ => id) fun o ho hne => .inr (hinvalidated.demoted o ho hne)
    have hextends' : Extends opts s' { s' with batches := (invalidateBefore b.startEpoch s'.batches).2 } [] := by
      have hlength := congrArg List.length hinvalidated.ids
      rw [List.length_map, List.length_map] at hlength
      constructor
      case nextEpoch => simp [nextEpoch, hlength]
      all_goals simp
    unfold SyncChain.failedBatch
    rw [hstart] at hadvance
    rw [heq]
    dsimp only
    rw [hadvance]
    dsimp only
    cases hresult : (invalidateBefore b.startEpoch s'.batches).1 with
    | error e => exact .inr ⟨e, _, rfl, hplaced', haccounted', ⟨_, hadded.trans hextends'⟩, hprogress.loop⟩
    | ok u =>
      have hpending : ∀ o ∈ (invalidateBefore b.startEpoch s'.batches).2.map Batch.outline, o.stage = .pending := by
        intro o ho
        obtain ⟨c, hc, rfl⟩ := List.mem_map.1 ho
        rcases hinvalidated.retried hresult c hc with hpending | ⟨hle, hmem⟩
        · exact hpending
        · rw [hrest] at hmem
          rcases List.mem_append.1 hmem with hmem | hmem
          · have := (hready.placed.lt_of_split hrest).1 c hmem
            omega
          · rcases List.mem_cons.1 hmem with rfl | hmem
            · exact hstage
            · exact hpost c hmem
      have hmarked : Prepares opts s { s' with batches := (invalidateBefore b.startEpoch s'.batches).2 } :=
        ⟨⟨hplaced', haccounted', hready.running, [], _, rfl, by simp, hpending⟩, ⟨_, hadded.trans hextends'⟩, hprogress.loop⟩
      exact .inl ⟨_, rfl, hmarked.trans (hmarked.ready.requestBatches (P := P))⟩
  · -- it failed too often
    obtain ⟨-, hplaced, haccounted, hextends⟩ := h.putBatch_stage hbatches (congrArg Outline.id houtline)
      (congrArg Outline.startEpoch houtline) s.processed (fun _ => id) fun hvalidated => by
        have hstage : after.status.stage = b.status.stage := congrArg Outline.stage houtline
        rw [hstage, hb] at hvalidated
        cases hvalidated
    refine .inr ⟨e, s.putBatch after, ?_, hplaced, haccounted, ⟨_, hextends⟩, rfl⟩
    unfold SyncChain.failedBatch
    rw [heq]

theorem processedSegment_keeps (h : s.Sound opts) {id : Nat} (hloop : s.loop = .processing id blocks) (result : SegmentResult) :
    Keeps opts s (s.processedSegment P opts id blocks result) := by
  have hactive : s.loop.Active := by
    rw [hloop]
    trivial
  obtain ⟨pre, b, post, hbatches, rfl, hb, hpre, hpost⟩ := h.processing_split hloop
  have hfind : s.findBatch b.id = some b := by
    apply h.placed.distinct.findBatch_eq
    rw [hbatches]
    simp
  have hsuccess := h.processedBatch (P := P) hbatches hb hpre hpost (by rw [hloop]; simp) hactive blocks
  have hfailed := fun importedBlocks => h.failedBatch (P := P) hbatches hb hpre hpost hactive importedBlocks
  have hfailure : ∀ importedBlocks, Keeps opts s (afterSegment (s.failedBatch P opts b importedBlocks)) := by
    intro importedBlocks
    rcases hfailed importedBlocks with ⟨s', heq, hprepared⟩ | ⟨e, s', heq, hplaced, haccounted, ⟨added, hadded⟩, hkept⟩
    · rw [heq]
      exact hprepared.awaitNext hactive
    · rw [heq]
      have hthrow := throwInLoop_keeps hplaced haccounted (hkept.symm ▸ hactive) (.batch e)
      obtain ⟨added', hadded'⟩ := hthrow.history
      exact ⟨hthrow.sound, _, hadded.trans hadded'⟩
  unfold processedSegment
  rw [hfind]
  cases result with
  | ok =>
    obtain ⟨s', heq, hprepared⟩ := hsuccess
    dsimp only
    rw [heq]
    exact hprepared.awaitNext hactive
  | chainSegmentError importedBlocks => exact hfailure importedBlocks
  | otherError => exact hfailure 0

/-! ## Turns -/

theorem Settled.pending_tail {o : Outline} {outlines : List Outline} (h : Settled (o :: outlines)) (ho : o.stage = .pending) :
    ∀ o' ∈ outlines, o'.stage = .pending := by
  obtain ⟨before, after, heq, hbefore, hafter⟩ := h
  cases before with
  | nil =>
    subst heq
    exact (List.forall_mem_cons.1 hafter).2
  | cons c before =>
    rw [List.cons_append, List.cons.injEq] at heq
    have hvalidated := hbefore c List.mem_cons_self
    rw [← heq.1, ho] at hvalidated
    cases hvalidated

theorem begin_keeps (h : s.Sound opts) (hloop : s.loop = .resumed) (hnext : getNextBatchToProcess s.batches = some b)
    {begun : List SignedBeaconBlock × Batch} (hstart : b.startProcessing opts.hashBlocks = .ok begun) :
    Keeps opts s { s.putBatch begun.2 with loop := .processing begun.2.id begun.1 } := by
  obtain ⟨pre, post, hbatches, hb, hpre⟩ := getNextBatchToProcess_some hnext
  have houtline := Batch.startProcessing_outline hstart
  have hid : begun.2.id = b.id := congrArg Outline.id houtline
  have hstage : begun.2.status.stage = .processing := congrArg Outline.stage houtline
  obtain ⟨hput, hplaced, haccounted, hextends⟩ := h.putBatch_stage hbatches hid (congrArg Outline.startEpoch houtline)
    s.processed (fun _ => id) fun hvalidated => by rw [hstage] at hvalidated; cases hvalidated
  have hactive : s.loop.Active := by
    rw [hloop]
    trivial
  have hsettled : Settled (pre.map Batch.outline ++ b.outline :: post.map Batch.outline) := by
    have hordered := h.ordered
    rw [hloop, hbatches, List.map_append, List.map_cons] at hordered
    exact hordered
  have hpending : b.outline.stage = .pending := by
    show b.status.stage = .pending
    rw [hb]
    rfl
  constructor
  · constructor
    · exact hplaced.of_places rfl rfl rfl rfl rfl
    · exact haccounted.mono rfl (fun _ => id) fun o ho hne => .inr ⟨o, ho, rfl, hne⟩
    · exact fun _ => h.running hactive
    · refine ⟨pre.map Batch.outline, begun.2.outline, post.map Batch.outline, ?_, rfl, hstage, ?_, ?_⟩
      · show (s.putBatch begun.2).batches.map Batch.outline = _
        have hmap := congrArg (List.map Batch.outline) hput
        rw [List.map_append, List.map_cons] at hmap
        exact hmap
      · intro o ho
        obtain ⟨c, hc, rfl⟩ := List.mem_map.1 ho
        show c.status.stage = .validated
        rw [hpre c hc]
        rfl
      · exact hsettled.drop.pending_tail hpending
  · refine ⟨[], ?_⟩
    constructor
    case loop => exact .inr ⟨hactive, id⟩
    case nextEpoch => exact hextends.nextEpoch
    all_goals simp [putBatch]

theorem turn_cases (h : s.Sound opts) (hloop : s.loop = .resumed) : Keeps opts s (s.turn P opts) ∨
    ∃ target, s.target = some target ∧ s.isDone P opts target = true ∧ s.turn P opts =
      { s with batchProcessor := { s.batchProcessor with ended := true }, loop := .leaving (some target.slot) } := by
  have hactive : s.loop.Active := by
    rw [hloop]
    trivial
  have hordered := h.ordered
  rw [hloop] at hordered
  have hready : s.Ready opts := ⟨h.placed, h.accounted, h.running hactive, hordered⟩
  unfold turn
  by_cases hsyncing : s.status ≠ .Syncing
  · rw [if_pos hsyncing]
    exact .inl (hready.awaitNext hactive)
  · rw [if_neg hsyncing]
    cases hvalid : validateBatchesStatus s.batches with
    | error message => exact .inl (throwInLoop_keeps h.placed h.accounted hactive _)
    | ok u =>
      cases htarget : s.target.filter (s.isDone P opts) with
      | some target =>
        obtain ⟨hsome, hdone⟩ := Option.filter_eq_some_iff.1 htarget
        exact .inr ⟨target, hsome, hdone, rfl⟩
      | none =>
        left
        cases hnext : getNextBatchToProcess s.batches with
        | none => exact hready.awaitNext hactive
        | some b =>
          dsimp only
          cases hstart : b.startProcessing opts.hashBlocks with
          | error e => exact throwInLoop_keeps h.placed h.accounted hactive _
          | ok begun =>
            exact begin_keeps h hloop hnext hstart

theorem settle_sound (h : s.Sound opts) (hloop : ¬s.loop.Active) : s.settle.Sound opts := by
  unfold settle
  cases hcase : s.loop with
  | leaving slot => exact h.of_history rfl rfl rfl rfl rfl (fun hactive => hactive.elim) trivial
  | throwing error => cases error <;> exact h.of_history rfl rfl rfl rfl rfl (fun hactive => hactive.elim) trivial
  | waiting =>
    rw [hcase] at hloop
    exact absurd trivial hloop
  | resumed =>
    rw [hcase] at hloop
    exact absurd trivial hloop
  | processing id blocks =>
    rw [hcase] at hloop
    exact absurd trivial hloop
  | failed => exact h
  | synced slot => exact h

end SyncChain

end Lodestar.Sync
