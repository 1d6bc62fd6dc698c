import Lodestar.Sync.BatchRequests
/-!
# BatchOrder — the batches of a chain follow one another

The batches of a chain start one batch size apart, the first of them at the start of the chain, and while the main loop runs they
are validated, processed and pending in this order.  Requests and downloads keep that, and so does every advance over validated
batches that goes up to a batch or past all of them.
-/
namespace Lodestar.Sync

open Lib

/-! ## Dropping -/

variable {newStartEpoch : Int}

theorem dropBefore_append {back : List Batch} (hback : ∀ b ∈ back, newStartEpoch ≤ (b.startEpoch : Int)) :
    ∀ {front : List Batch}, (∀ b ∈ front, (b.startEpoch : Int) < newStartEpoch ∧ b.status = .AwaitingValidation) →
      ∃ reports, dropBefore newStartEpoch (front ++ back) = { error := none, kept := back, dropped := front, reports := reports }
  | [], _ => by
    refine ⟨[], ?_⟩
    induction back with
    | nil => rfl
    | cons b back ih =>
      rw [List.forall_mem_cons] at hback
      have hrest := ih hback.2
      rw [List.nil_append] at hrest ⊢
      unfold dropBefore
      rw [if_neg (by omega), hrest]
  | b :: front, hfront => by
    rw [List.forall_mem_cons] at hfront
    obtain ⟨reports, hrest⟩ := dropBefore_append hback hfront.2
    obtain ⟨attempt, hok⟩ : ∃ attempt, b.validationSuccess = .ok attempt := by
      have hstatus := hfront.1.2
      unfold Batch.status BatchState.status at hstatus
      unfold Batch.validationSuccess
      cases hstate : b.state <;> rw [hstate] at hstatus <;> first | exact Exists.intro _ rfl | cases hstatus
    refine ⟨reportsFor b attempt ++ reports, ?_⟩
    rw [List.cons_append]
    unfold dropBefore
    rw [if_pos hfront.1.1, hok, hrest]

theorem dropBefore_error : ∀ {batches : List Batch} {b : Batch}, b ∈ batches →
    (b.startEpoch : Int) < newStartEpoch → b.status ≠ .AwaitingValidation → (dropBefore newStartEpoch batches).error ≠ none
  | c :: batches, b, hmem, hlt, hstatus => by
    unfold dropBefore
    rcases List.mem_cons.1 hmem with rfl | hmem
    · have hthrows : b.validationSuccess = .error (b.wrongStatusErrorType .AwaitingValidation) := by
        unfold Batch.status BatchState.status at hstatus
        unfold Batch.validationSuccess
        cases hstate : b.state <;> first | rfl | exact absurd (by rw [hstate]) hstatus
      rw [if_pos hlt, hthrows]
      simp
    · have hrest := dropBefore_error hmem hlt hstatus
      by_cases hc : (c.startEpoch : Int) < newStartEpoch
      · rw [if_pos hc]
        cases c.validationSuccess with
        | error e => simp
        | ok attempt => exact hrest
      · rw [if_neg hc]
        exact hrest

namespace Loop

def Active : Loop → Prop
  | .waiting => True
  | .resumed => True
  | .processing _ _ => True
  | _ => False

def Left : Loop → Prop
  | .leaving _ => True
  | .synced _ => True
  | _ => False

end Loop

namespace SyncChain

variable {P : Preset} {opts : SyncChainOpts} {s s' s'' : SyncChain} {b b' : Batch}

/-! ## The order -/

/-- Batches of a chain are told apart, and follow one another from its start. -/
structure Placed (opts : SyncChainOpts) (s : SyncChain) : Prop where
  distinct : s.Distinct
  keys : (s.batches.map Batch.startEpoch).Nodup
  tiled : s.batches.map Batch.startEpoch = List.range' s.startEpoch s.batches.length opts.epochsPerBatch

def Accounted (s : SyncChain) : Prop :=
  ∀ b ∈ s.made, b.startEpoch ∈ s.processed ∨ ∃ o ∈ s.batches.map Batch.outline, o.startEpoch = b.startEpoch ∧ o.stage ≠ .validated

def Settled (outlines : List Outline) : Prop :=
  ∃ before after, outlines = before ++ after ∧ (∀ o ∈ before, o.stage = .validated) ∧ ∀ o ∈ after, o.stage = .pending

def InOrder (outlines : List Outline) : Loop → Prop
  | .waiting => Settled outlines
  | .resumed => Settled outlines
  | .processing id _ => ∃ before o after, outlines = before ++ o :: after ∧ o.id = id ∧ o.stage = .processing ∧
      (∀ o ∈ before, o.stage = .validated) ∧ ∀ o ∈ after, o.stage = .pending
  | _ => True

structure Sound (opts : SyncChainOpts) (s : SyncChain) : Prop where
  placed : s.Placed opts
  accounted : s.Accounted
  running : s.loop.Active → s.batchProcessor.ended = false
  ordered : InOrder (s.batches.map Batch.outline) s.loop

structure Ready (opts : SyncChainOpts) (s : SyncChain) : Prop where
  placed : s.Placed opts
  accounted : s.Accounted
  running : s.batchProcessor.ended = false
  settled : Settled (s.batches.map Batch.outline)

def nextEpoch (opts : SyncChainOpts) (s : SyncChain) : Nat := s.startEpoch + s.batches.length * opts.epochsPerBatch

/-- **What most steps do to the history of a chain**: the batches they make follow on, no processed batch is forgotten, and the loop
does not come to a good end. -/
structure Extends (opts : SyncChainOpts) (s s' : SyncChain) (added : List Batch) : Prop where
  made : s'.made = s.made ++ added
  starts : added.map Batch.startEpoch = List.range' (s.nextEpoch opts) added.length opts.epochsPerBatch
  nextEpoch : s'.nextEpoch opts = s.nextEpoch opts + added.length * opts.epochsPerBatch
  processed : ∀ epoch ∈ s.processed, epoch ∈ s'.processed
  status : s'.status = .Synced → s.status = .Synced
  loop : s'.loop = s.loop ∨ (s.loop.Active ∧ ¬s'.loop.Left)

structure Keeps (opts : SyncChainOpts) (s s' : SyncChain) : Prop where
  sound : s'.Sound opts
  history : ∃ added, Extends opts s s' added

theorem Settled.append {outlines added : List Outline} (h : Settled outlines) (hadded : ∀ o ∈ added, o.stage = .pending) :
    Settled (outlines ++ added) := by
  obtain ⟨before, after, rfl, hbefore, hafter⟩ := h
  exact ⟨before, after ++ added, List.append_assoc _ _ _, hbefore, List.forall_mem_append.2 ⟨hafter, hadded⟩⟩

theorem Settled.drop {front outlines : List Outline} (h : Settled (front ++ outlines)) : Settled outlines := by
  obtain ⟨before, after, heq, hbefore, hafter⟩ := h
  rcases List.append_eq_append_iff.1 heq with ⟨middle, rfl, rfl⟩ | ⟨middle, rfl, rfl⟩
  · exact ⟨middle, after, rfl, (List.forall_mem_append.1 hbefore).2, hafter⟩
  · exact ⟨[], outlines, rfl, by simp, (List.forall_mem_append.1 hafter).2⟩

variable {loop : Loop}

theorem InOrder.append {outlines added : List Outline} (h : InOrder outlines loop) (hadded : ∀ o ∈ added, o.stage = .pending) :
    InOrder (outlines ++ added) loop := by
  cases loop with
  | waiting => exact Settled.append h hadded
  | resumed => exact Settled.append h hadded
  | processing id blocks =>
    obtain ⟨before, o, after, rfl, hid, hstage, hbefore, hafter⟩ := h
    refine ⟨before, o, after ++ added, ?_, hid, hstage, hbefore, List.forall_mem_append.2 ⟨hafter, hadded⟩⟩
    rw [List.append_assoc, List.cons_append]
  | _ => trivial

theorem InOrder.drop {front outlines : List Outline} (h : InOrder (front ++ outlines) loop)
    (hfront : ∀ o ∈ front, o.stage = .validated) : InOrder outlines loop := by
  cases loop with
  | waiting => exact Settled.drop h
  | resumed => exact Settled.drop h
  | processing id blocks =>
    obtain ⟨before, o, after, heq, hid, hstage, hbefore, hafter⟩ := h
    rcases List.append_eq_append_iff.1 heq with ⟨middle, rfl, rfl⟩ | ⟨middle, rfl, hmiddle⟩
    · exact ⟨middle, o, after, rfl, hid, hstage, (List.forall_mem_append.1 hbefore).2, hafter⟩
    · cases middle with
      | nil => exact ⟨[], o, after, hmiddle.symm, hid, hstage, by simp, hafter⟩
      | cons c middle =>
        -- the batch in process was not validated
        have hvalidated := hfront c (by simp)
        rw [List.cons_append, List.cons.injEq] at hmiddle
        rw [← hmiddle.1, hstage] at hvalidated
        cases hvalidated
  | _ => trivial

theorem Placed.of_places (h : s.Placed opts) (hids : s'.batches.map Batch.id = s.batches.map Batch.id)
    (hstarts : s'.batches.map Batch.startEpoch = s.batches.map Batch.startEpoch)
    (hdropped : s'.dropped.map Batch.id = s.dropped.map Batch.id) (hmade : s'.made = s.made)
    (hstart : s'.startEpoch = s.startEpoch) : s'.Placed opts := by
  have hall : (s'.batches ++ s'.dropped).map Batch.id = (s.batches ++ s.dropped).map Batch.id := by
    rw [List.map_append, List.map_append, hids, hdropped]
  have hlength := congrArg List.length hstarts
  rw [List.length_map, List.length_map] at hlength
  constructor
  · constructor
    · rw [hall]
      exact h.distinct.nodup
    · intro b hb
      have hmem : b.id ∈ (s.batches ++ s.dropped).map Batch.id := hall ▸ List.mem_map_of_mem hb
      obtain ⟨c, hc, heq⟩ := List.mem_map.1 hmem
      rw [hmade, ← heq]
      exact h.distinct.fresh c hc
  · rw [hstarts]
    exact h.keys
  · rw [hstarts, hstart, hlength]
    exact h.tiled

theorem Accounted.mono (h : s.Accounted) (hmade : s'.made = s.made) (hprocessed : ∀ epoch ∈ s.processed, epoch ∈ s'.processed)
    (houtlines : ∀ o ∈ s.batches.map Batch.outline, o.stage ≠ .validated → o.startEpoch ∈ s'.processed ∨
      ∃ o' ∈ s'.batches.map Batch.outline, o'.startEpoch = o.startEpoch ∧ o'.stage ≠ .validated) : s'.Accounted := by
  intro b hb
  rw [hmade] at hb
  rcases h b hb with hdone | ⟨o, ho, hstart, hstage⟩
  · exact .inl (hprocessed _ hdone)
  · rw [← hstart]
    exact houtlines o ho hstage

namespace Extends

variable {added added' : List Batch}

theorem refl (s : SyncChain) : Extends opts s s [] := by
  constructor <;> simp

theorem trans (h : Extends opts s s' added) (h' : Extends opts s' s'' added') : Extends opts s s'' (added ++ added') where
  made := by rw [h'.made, h.made, List.append_assoc]
  starts := by
    rw [List.map_append, h.starts, h'.starts, h.nextEpoch, List.length_append, Nat.mul_comm added.length, List.range'_append]
  nextEpoch := by rw [h'.nextEpoch, h.nextEpoch, List.length_append, Nat.add_mul, Nat.add_assoc]
  processed epoch hepoch := h'.processed epoch (h.processed epoch hepoch)
  status hsynced := h.status (h'.status hsynced)
  loop := by
    rcases h.loop with heq | ⟨hactive, hleft⟩
    · rw [← heq]
      exact h'.loop
    · rcases h'.loop with heq | ⟨-, hleft'⟩
      · rw [heq]
        exact .inr ⟨hactive, hleft⟩
      · exact .inr ⟨hactive, hleft'⟩

end Extends

theorem Keeps.trans (h : Keeps opts s s') (h' : Keeps opts s' s'') : Keeps opts s s'' := by
  obtain ⟨added, hadded⟩ := h.history
  obtain ⟨added', hadded'⟩ := h'.history
  exact ⟨h'.sound, _, hadded.trans hadded'⟩

section

variable (h : s.Sound opts) (hbatches : s'.batches = s.batches) (hdropped : s'.dropped = s.dropped) (hmade : s'.made = s.made)
  (hstart : s'.startEpoch = s.startEpoch) (hprocessed : s'.processed = s.processed)
include h hbatches hdropped hmade hstart hprocessed

theorem Sound.of_history (hrunning : s'.loop.Active → s'.batchProcessor.ended = false)
    (hordered : InOrder (s.batches.map Batch.outline) s'.loop) : s'.Sound opts := by
  constructor
  · exact h.placed.of_places (by rw [hbatches]) (by rw [hbatches]) (by rw [hdropped]) hmade hstart
  · refine h.accounted.mono hmade (by simp [hprocessed]) fun o ho hstage => .inr ⟨o, ?_, rfl, hstage⟩
    rw [hbatches]
    exact ho
  · exact hrunning
  · rw [hbatches]
    exact hordered

theorem Sound.keeps_of_eq (hloop : s'.loop = s.loop) (hended : s'.batchProcessor.ended = s.batchProcessor.ended)
    (hstatus : s'.status = .Synced → s.status = .Synced) : Keeps opts s s' := by
  constructor
  · refine h.of_history hbatches hdropped hmade hstart hprocessed ?_ ?_
    · rw [hloop, hended]
      exact h.running
    · rw [hloop]
      exact h.ordered
  · refine ⟨[], ?_⟩
    constructor
    case nextEpoch => simp [nextEpoch, hbatches, hstart]
    case loop => exact .inl hloop
    case status => exact hstatus
    all_goals simp [hmade, hprocessed]

end

namespace Requested

variable {added : List Batch}

section

variable (hr : Requested opts s s' added)
include hr

theorem placed (h : s.Placed opts) : s'.Placed opts where
  distinct := hr.distinct h.distinct
  keys := hr.keys h.keys
  tiled := by
    have hlength : s'.batches.length = s.batches.length + added.length := by
      have := congrArg List.length hr.startEpochs
      simpa using this
    rw [hr.startEpochs, hr.starts, h.tiled, nextStart_range', hr.startEpoch, hlength, Nat.mul_comm s.batches.length]
    exact List.range'_append

theorem accounted (h : s.Accounted) : s'.Accounted := by
  intro b hb
  rw [hr.made] at hb
  rw [hr.processed, hr.batches]
  rcases List.mem_append.1 hb with hb | hb
  · rcases h b hb with hdone | ⟨o, ho, hrest⟩
    · exact .inl hdone
    · exact .inr ⟨o, List.mem_append_left _ ho, hrest⟩
  · refine .inr ⟨b.outline, List.mem_append_right _ (List.mem_map_of_mem hb), rfl, ?_⟩
    show b.status.stage ≠ .validated
    rw [hr.pending b hb]
    simp

theorem pending_outlines : ∀ o ∈ added.map Batch.outline, o.stage = .pending := by
  intro o ho
  obtain ⟨b, hb, rfl⟩ := List.mem_map.1 ho
  exact hr.pending b hb

theorem history (h : s.Placed opts) : Extends opts s s' added where
  made := hr.made
  starts := by
    rw [hr.starts, h.tiled, nextStart_range']
    rfl
  nextEpoch := by
    have hlength := congrArg List.length hr.batches
    rw [List.length_append, List.length_map, List.length_map, List.length_map] at hlength
    unfold SyncChain.nextEpoch
    rw [hr.startEpoch, hlength, Nat.add_mul, Nat.add_assoc]
  processed := by simp [hr.processed]
  status := by simp [hr.status]
  loop := .inl hr.loop

end

end Requested

theorem requestBatches_keeps (h : s.Sound opts) : Keeps opts s (s.requestBatches P opts) := by
  obtain ⟨added, hr⟩ := requestBatches_requested P opts h.placed.distinct
  refine ⟨⟨hr.placed h.placed, hr.accounted h.accounted, ?_, ?_⟩, added, hr.history h.placed⟩
  · rw [hr.loop, hr.batchProcessor]
    exact h.running
  · rw [hr.batches, hr.loop]
    exact h.ordered.append hr.pending_outlines

/-! ## The loop -/

theorem awaitNext_cases (h : s.batchProcessor.ended = false) : ∃ loop processor,
    s.awaitNext = { s with loop := loop, batchProcessor := processor } ∧ (loop.Active → processor.ended = false) ∧ ¬loop.Left ∧
      ∀ outlines, Settled outlines → InOrder outlines loop := by
  unfold awaitNext
  cases herror : s.batchProcessor.error with
  | some error => exact ⟨.throwing error, s.batchProcessor, rfl, fun hactive => hactive.elim, id, fun _ _ => trivial⟩
  | none =>
    rw [if_neg (by rw [h]; simp)]
    by_cases htriggered : s.batchProcessor.triggered = true
    · rw [if_pos htriggered]
      exact ⟨.resumed, { s.batchProcessor with triggered := false }, rfl, fun _ => h, id, fun _ h => h⟩
    · rw [if_neg htriggered]
      exact ⟨.waiting, s.batchProcessor, rfl, fun _ => h, id, fun _ h => h⟩

theorem Ready.awaitNext (h : s.Ready opts) (hactive : s.loop.Active) : Keeps opts s s.awaitNext := by
  obtain ⟨loop, processor, heq, hended, hleft, horder⟩ := awaitNext_cases h.running
  rw [heq]
  constructor
  · refine ⟨h.placed.of_places rfl rfl rfl rfl rfl, ?_, hended, horder _ h.settled⟩
    exact h.accounted.mono rfl (by simp) fun o ho hstage => .inr ⟨o, ho, rfl, hstage⟩
  · refine ⟨[], ?_⟩
    constructor
    case loop => exact .inr ⟨hactive, hleft⟩
    case nextEpoch => simp [nextEpoch]
    all_goals simp

theorem wake_keeps (h : s.Sound opts) {processor : ItTrigger} (hended : processor.ended = s.batchProcessor.ended) :
    Keeps opts s (if s.loop = .waiting then ({ s with batchProcessor := processor } : SyncChain).awaitNext
      else { s with batchProcessor := processor }) := by
  have hset : Keeps opts s { s with batchProcessor := processor } := h.keeps_of_eq rfl rfl rfl rfl rfl rfl hended id
  by_cases hwaiting : s.loop = .waiting
  · rw [if_pos hwaiting]
    have hordered := h.ordered
    have hactive : s.loop.Active := by
      rw [hwaiting]
      trivial
    rw [hwaiting] at hordered
    have hready : ({ s with batchProcessor := processor } : SyncChain).Ready opts :=
      ⟨hset.sound.placed, hset.sound.accounted, hended.trans (h.running hactive), hordered⟩
    exact hset.trans (hready.awaitNext hactive)
  · rw [if_neg hwaiting]
    exact hset

theorem triggerBatchProcessor_keeps (h : s.Sound opts) : Keeps opts s s.triggerBatchProcessor := wake_keeps h rfl

theorem endBatchProcessor_keeps (h : s.Sound opts) (error : SyncError) : Keeps opts s (s.endBatchProcessor error) :=
  wake_keeps h rfl

theorem throwInLoop_keeps (hplaced : s.Placed opts) (haccounted : s.Accounted) (hactive : s.loop.Active) (error : SyncError) :
    Keeps opts s (s.throwInLoop error) := by
  constructor
  · refine ⟨hplaced.of_places rfl rfl rfl rfl rfl, ?_, fun hthrowing => hthrowing.elim, trivial⟩
    exact haccounted.mono rfl (fun _ => id) fun o ho hstage => .inr ⟨o, ho, rfl, hstage⟩
  · refine ⟨[], ?_⟩
    constructor
    case loop => exact .inr ⟨hactive, id⟩
    case nextEpoch => simp [nextEpoch, throwInLoop]
    all_goals simp [throwInLoop]

/-! ## Downloads -/

theorem putBatch_keeps (h : s.Sound opts) (hb : b ∈ s.batches ++ s.dropped) (houtline : b'.outline = b.outline) :
    Keeps opts s (s.putBatch b') := by
  obtain ⟨hbatches, hdropped⟩ := h.placed.distinct.putBatch_outline hb houtline
  constructor
  · constructor
    · have hids := congrArg (List.map Outline.id) hbatches
      have hstarts := congrArg (List.map Outline.startEpoch) hbatches
      have hgone := congrArg (List.map Outline.id) hdropped
      rw [← map_id, ← map_id] at hids hgone
      rw [← map_startEpoch, ← map_startEpoch] at hstarts
      exact h.placed.of_places hids hstarts hgone rfl rfl
    · refine h.accounted.mono rfl (fun _ => id) fun o ho hstage => .inr ⟨o, ?_, rfl, hstage⟩
      rw [hbatches]
      exact ho
    · exact h.running
    · rw [hbatches]
      exact h.ordered
  · refine ⟨[], ?_⟩
    constructor
    all_goals simp [putBatch, nextEpoch]

theorem downloaded_keeps (h : s.Sound opts) (id : Nat) (result : Option (List SignedBeaconBlock)) :
    Keeps opts s (s.downloaded P opts id result) := by
  have herased : Keeps opts s { s with downloads := s.downloads.erase id } :=
    h.keeps_of_eq rfl rfl rfl rfl rfl rfl rfl fun hsynced => hsynced
  unfold downloaded
  dsimp only
  cases hfind : ({ s with downloads := s.downloads.erase id } : SyncChain).findBatch id with
  | none => exact herased
  | some b =>
    have hmem := (findBatch_mem hfind).1
    cases result with
    | some blocks =>
      dsimp only
      cases hsuccess : b.downloadingSuccess blocks with
      | error e =>
        have hend := endBatchProcessor_keeps herased.sound (.batch e)
        exact (herased.trans hend).trans (requestBatches_keeps hend.sound)
      | ok b' =>
        have hput := putBatch_keeps herased.sound hmem (Batch.downloadingSuccess_outline hsuccess)
        have htrigger := triggerBatchProcessor_keeps hput.sound
        have hrequest := requestBatches_keeps (P := P) htrigger.sound
        exact (((herased.trans hput).trans htrigger).trans hrequest).trans (requestBatches_keeps hrequest.sound)
    | none =>
      have hput := putBatch_keeps herased.sound hmem (Batch.downloadingError_outline b)
      dsimp only
      rcases hfailed : b.downloadingError with ⟨r, b'⟩
      rw [hfailed] at hput
      cases r with
      | error e =>
        have hend := endBatchProcessor_keeps hput.sound (.batch e)
        exact ((herased.trans hput).trans hend).trans (requestBatches_keeps hend.sound)
      | ok u =>
        have hrequest := requestBatches_keeps (P := P) hput.sound
        exact ((herased.trans hput).trans hrequest).trans (requestBatches_keeps hrequest.sound)

/-! ## Advances -/

structure Trimmed (s s' : SyncChain) (front : List Batch) : Prop where
  batches : s.batches = front ++ s'.batches
  validated : ∀ b ∈ front, b.status = .AwaitingValidation
  target : s'.target = s.target
  status : s'.status = s.status
  loop : s'.loop = s.loop
  batchProcessor : s'.batchProcessor = s.batchProcessor
  made : s'.made = s.made
  processed : s'.processed = s.processed

theorem Placed.start_le (h : s.Placed opts) (hb : b ∈ s.batches) : s.startEpoch ≤ b.startEpoch := by
  have hmem := List.mem_map_of_mem (f := Batch.startEpoch) hb
  rw [h.tiled] at hmem
  obtain ⟨i, -, heq⟩ := List.mem_range'.1 hmem
  omega

theorem Placed.sorted (h : s.Placed opts) : (s.batches.map Batch.startEpoch).Pairwise (· ≤ ·) := by
  rw [h.tiled]
  exact List.pairwise_le_range' _

theorem Placed.tiled_append (h : s.Placed opts) {pre post : List Batch} (hbatches : s.batches = pre ++ post) :
    pre.map Batch.startEpoch = List.range' s.startEpoch pre.length opts.epochsPerBatch ∧
      post.map Batch.startEpoch =
        List.range' (s.startEpoch + pre.length * opts.epochsPerBatch) post.length opts.epochsPerBatch := by
  have hstarts := h.tiled
  have hlength := congrArg List.length hbatches
  rw [List.length_append] at hlength
  rw [hbatches, List.map_append, eq_comm, List.range'_eq_append_iff] at hstarts
  obtain ⟨k, -, hpre, hpost⟩ := hstarts
  have hk := congrArg List.length hpre
  rw [List.length_map, List.length_range'] at hk
  rw [hpre, hpost, ← hk, ← hbatches, hlength, Nat.add_sub_cancel_left]
  exact ⟨rfl, rfl⟩

namespace Trimmed

variable {front : List Batch}

theorem outlines (h : Trimmed s s' front) :
    s.batches.map Batch.outline = front.map Batch.outline ++ s'.batches.map Batch.outline := by
  rw [h.batches, List.map_append]

theorem validated_outlines (h : Trimmed s s' front) : ∀ o ∈ front.map Batch.outline, o.stage = .validated := by
  intro o ho
  obtain ⟨b, hb, rfl⟩ := List.mem_map.1 ho
  show b.status.stage = .validated
  rw [h.validated b hb]
  rfl

theorem accounted (h : Trimmed s s' front) (hs : s.Accounted) : s'.Accounted := by
  refine hs.mono h.made (by simp [h.processed]) fun o ho hstage => .inr ⟨o, ?_, rfl, hstage⟩
  rw [h.outlines] at ho
  rcases List.mem_append.1 ho with ho | ho
  · exact absurd (h.validated_outlines o ho) hstage
  · exact ho

end Trimmed

variable {newStartEpoch : Int}

theorem advanceChain_drops (h : s.Placed opts) (hgt : (s.startEpoch : Int) < newStartEpoch)
    (hvalidated : ∀ b ∈ s.batches, (b.startEpoch : Int) < newStartEpoch → b.status = .AwaitingValidation) :
    ∃ s' front, s.advanceChain newStartEpoch = (.ok (), s') ∧ Trimmed s s' front ∧ s'.Distinct ∧
      s'.startEpoch = newStartEpoch.toNat ∧ (∀ b ∈ front, (b.startEpoch : Int) < newStartEpoch) ∧
      ∀ b ∈ s'.batches, newStartEpoch ≤ (b.startEpoch : Int) := by
  obtain ⟨front, back, hbatches, hfront, hback⟩ := split_at_epoch newStartEpoch h.sorted
  have hdrops : ∀ b ∈ front, (b.startEpoch : Int) < newStartEpoch ∧ b.status = .AwaitingValidation := by
    intro b hb
    refine ⟨hfront b hb, hvalidated b ?_ (hfront b hb)⟩
    rw [hbatches]
    exact List.mem_append_left _ hb
  obtain ⟨reports, hadvanced⟩ := dropBefore_append hback hdrops
  have hids : ((back ++ (s.dropped ++ front)).map Batch.id).Perm ((s.batches ++ s.dropped).map Batch.id) := by
    rw [hbatches]
    apply List.Perm.map
    rw [← List.append_assoc, List.append_assoc front]
    exact List.perm_append_comm
  unfold advanceChain
  rw [if_neg (by omega), hbatches, hadvanced]
  refine ⟨_, front, rfl, ⟨hbatches, fun b hb => (hdrops b hb).2, rfl, rfl, rfl, rfl, rfl, rfl⟩, ⟨?_, ?_⟩, rfl, hfront, hback⟩
  · exact hids.nodup_iff.2 h.distinct.nodup
  · intro b hb
    obtain ⟨c, hc, heq⟩ := List.mem_map.1 (hids.mem_iff.1 (List.mem_map_of_mem hb))
    rw [← heq]
    exact h.distinct.fresh c hc

theorem advanceChain_trims (h : s.Placed opts)
    (hvalidated : ∀ b ∈ s.batches, (b.startEpoch : Int) < newStartEpoch → b.status = .AwaitingValidation)
    (hhits : newStartEpoch ≤ (s.startEpoch : Int) ∨
      (∀ b ∈ s.batches, (b.startEpoch : Int) < newStartEpoch) ∨ ∃ b ∈ s.batches, (b.startEpoch : Int) = newStartEpoch) :
    ∃ s' front, s.advanceChain newStartEpoch = (.ok (), s') ∧ Trimmed s s' front ∧ s'.Placed opts ∧
      (∀ b ∈ front, (b.startEpoch : Int) < newStartEpoch) ∧ (∀ b ∈ s'.batches, newStartEpoch ≤ (b.startEpoch : Int)) ∧
      ((∃ b ∈ s.batches, (b.startEpoch : Int) = newStartEpoch) → s'.nextEpoch opts = s.nextEpoch opts) := by
  by_cases hno : newStartEpoch ≤ (s.startEpoch : Int)
  · refine ⟨s, [], ?_, ⟨rfl, by simp, rfl, rfl, rfl, rfl, rfl, rfl⟩, h, by simp, ?_, fun _ => rfl⟩
    · unfold advanceChain
      rw [if_pos hno]
    · intro b hb
      have := h.start_le hb
      omega
  · obtain ⟨s', front, heq, htrimmed, hdistinct, hstart, hfront, hback⟩ := advanceChain_drops h (by omega) hvalidated
    have htiled := (h.tiled_append htrimmed.batches).2
    -- the batch that is hit is the first one left
    have hfirst : (∃ b ∈ s.batches, (b.startEpoch : Int) = newStartEpoch) →
        newStartEpoch.toNat = s.startEpoch + front.length * opts.epochsPerBatch := by
      rintro ⟨b, hb, hhit⟩
      have hb' : b ∈ s'.batches := by
        rw [htrimmed.batches] at hb
        rcases List.mem_append.1 hb with hb | hb
        · have := hfront b hb
          omega
        · exact hb
      have hmem := List.mem_map_of_mem (f := Batch.startEpoch) hb'
      rw [htiled] at hmem
      obtain ⟨i, hi, hbstart⟩ := List.mem_range'.1 hmem
      have hhead : s.startEpoch + front.length * opts.epochsPerBatch ∈ s'.batches.map Batch.startEpoch := by
        rw [htiled]
        exact List.mem_range'.2 ⟨0, by omega, by simp⟩
      obtain ⟨first, hfirstMem, hfirstStart⟩ := List.mem_map.1 hhead
      have hle := hback first hfirstMem
      omega
    refine ⟨s', front, heq, htrimmed, ⟨hdistinct, ?_, ?_⟩, hfront, hback, ?_⟩
    · have hkeys := h.keys
      rw [htrimmed.batches, List.map_append] at hkeys
      exact hkeys.sublist (List.sublist_append_right _ _)
    · rw [hstart]
      rcases hhits with hle | hall | hhit
      · exact absurd hle hno
      · -- no batch is left
        have hnil : s'.batches = [] := by
          rw [List.eq_nil_iff_forall_not_mem]
          intro b hb
          have hlt := hall b (by rw [htrimmed.batches]; exact List.mem_append_right _ hb)
          have hle := hback b hb
          omega
        rw [hnil]
        rfl
      · rw [hfirst hhit]
        exact htiled
    · intro hhit
      unfold nextEpoch
      rw [hstart, hfirst hhit, htrimmed.batches, List.length_append, Nat.add_mul, Nat.add_assoc]

end SyncChain

end Lodestar.Sync
