import Lodestar.Sync.SyncChain
/-!
# BatchRequests — what requests do to the batches of a chain

Batches are objects with an identity of their own, and a method of one leaves the others alone.  Requests begin downloads and add
batches at the end, each where the one before it ends (`requestBatches_requested`).
-/
namespace Lodestar.Sync

open Lib

/-! ## Outlines -/

inductive Stage
  | validated
  | processing
  | pending
deriving DecidableEq

def BatchStatus.stage : BatchStatus → Stage
  | .AwaitingValidation => .validated
  | .Processing => .processing
  | .AwaitingDownload => .pending
  | .Downloading => .pending
  | .AwaitingProcessing => .pending

structure Outline where
  id : Nat
  startEpoch : Nat
  stage : Stage
deriving DecidableEq

def Batch.outline (b : Batch) : Outline := ⟨b.id, b.startEpoch, b.status.stage⟩

namespace Batch

variable {b b' : Batch}

theorem outline_eq : b'.outline = b.outline ↔ b'.id = b.id ∧ b'.startEpoch = b.startEpoch ∧ b'.status.stage = b.status.stage := by
  unfold outline
  simp

@[simp] theorem new_id (id startEpoch : Nat) : (new id startEpoch).id = id := rfl

@[simp] theorem new_startEpoch (id startEpoch : Nat) : (new id startEpoch).startEpoch = startEpoch := rfl

@[simp] theorem new_status (id startEpoch : Nat) : (new id startEpoch).status = .AwaitingDownload := rfl

theorem startDownloading_of_await (h : b.status = .AwaitingDownload) (peer : PeerId) :
    b.startDownloading peer = .ok { b with state := .Downloading peer } := by
  unfold status BatchState.status at h
  unfold startDownloading
  cases hstate : b.state <;> rw [hstate] at h <;> first | rfl | cases h

theorem downloadingSuccess_outline {blocks : List SignedBeaconBlock} (h : b.downloadingSuccess blocks = .ok b') :
    b'.outline = b.outline := by
  unfold downloadingSuccess at h
  cases hstate : b.state <;> rw [hstate] at h <;> cases h
  simp [outline, status, BatchState.status, BatchStatus.stage, hstate]

theorem downloadingError_outline (b : Batch) : b.downloadingError.2.outline = b.outline := by
  unfold downloadingError
  cases hstate : b.state with
  | Downloading peer =>
    dsimp only
    split <;> simp [outline, status, BatchState.status, BatchStatus.stage, hstate]
  | _ => rfl

end Batch

/-! ## Where the batches start -/

def nextStart (starts : List Nat) (startEpoch epochsPerBatch : Nat) : Nat :=
  match starts.getLast? with
  | some last => last + epochsPerBatch
  | none => startEpoch

theorem toBeDownloadedStartEpoch_eq (batches : List Batch) (startEpoch epochsPerBatch : Nat) :
    toBeDownloadedStartEpoch batches startEpoch epochsPerBatch =
      nextStart (batches.map Batch.startEpoch) startEpoch epochsPerBatch := by
  unfold toBeDownloadedStartEpoch nextStart
  rw [List.getLast?_map]
  cases batches.getLast? <;> rfl

theorem nextStart_range' (startEpoch n epochsPerBatch : Nat) :
    nextStart (List.range' startEpoch n epochsPerBatch) startEpoch epochsPerBatch = startEpoch + n * epochsPerBatch := by
  cases n with
  | zero => simp [nextStart]
  | succ n =>
    unfold nextStart
    rw [List.range'_concat, List.getLast?_concat]
    dsimp only
    rw [Nat.add_assoc, Nat.add_mul, Nat.one_mul, Nat.mul_comm epochsPerBatch n]

theorem split_at_epoch (newStartEpoch : Int) : ∀ {batches : List Batch}, (batches.map Batch.startEpoch).Pairwise (· ≤ ·) →
    ∃ front back, batches = front ++ back ∧ (∀ b ∈ front, (b.startEpoch : Int) < newStartEpoch) ∧
      ∀ b ∈ back, newStartEpoch ≤ (b.startEpoch : Int)
  | [], _ => ⟨[], [], rfl, by simp, by simp⟩
  | b :: batches, h => by
    rw [List.map_cons, List.pairwise_cons] at h
    by_cases hb : (b.startEpoch : Int) < newStartEpoch
    · obtain ⟨front, back, rfl, hfront, hback⟩ := split_at_epoch newStartEpoch h.2
      exact ⟨b :: front, back, rfl, List.forall_mem_cons.2 ⟨hb, hfront⟩, hback⟩
    · refine ⟨[], b :: batches, rfl, by simp, List.forall_mem_cons.2 ⟨by omega, ?_⟩⟩
      intro c hc
      have hle := h.1 c.startEpoch (List.mem_map_of_mem hc)
      omega

namespace SyncChain

variable {P : Preset} {opts : SyncChainOpts} {s s' s'' : SyncChain} {b b' : Batch}

/-! ## Objects -/

/-- Each object has an identity of its own, and a new one will have another. -/
structure Distinct (s : SyncChain) : Prop where
  nodup : ((s.batches ++ s.dropped).map Batch.id).Nodup
  fresh : ∀ b ∈ s.batches ++ s.dropped, b.id < s.made.length

theorem Distinct.eq_of_id (h : s.Distinct) (hb : b ∈ s.batches ++ s.dropped) (hb' : b' ∈ s.batches ++ s.dropped)
    (hid : b'.id = b.id) : b' = b := List.inj_on_of_nodup_map h.nodup hb' hb hid

theorem findBatch_mem {id : Nat} (h : s.findBatch id = some b) : b ∈ s.batches ++ s.dropped ∧ b.id = id :=
  ⟨List.mem_of_find?_eq_some h, by simpa using List.find?_some h⟩

theorem Distinct.findBatch_eq (h : s.Distinct) (hb : b ∈ s.batches ++ s.dropped) : s.findBatch b.id = some b := by
  cases hfind : s.findBatch b.id with
  | none =>
    have hnone := List.find?_eq_none.1 hfind b hb
    simp at hnone
  | some other =>
    obtain ⟨hmem, hid⟩ := findBatch_mem hfind
    rw [h.eq_of_id hb hmem hid]

theorem Distinct.putBatch_outline (h : s.Distinct) (hb : b ∈ s.batches ++ s.dropped) (houtline : b'.outline = b.outline) :
    (s.putBatch b').batches.map Batch.outline = s.batches.map Batch.outline ∧
      (s.putBatch b').dropped.map Batch.outline = s.dropped.map Batch.outline := by
  have hsame : ∀ c ∈ s.batches ++ s.dropped, (if c.id = b'.id then b' else c).outline = c.outline := by
    intro c hc
    have hid := (Batch.outline_eq.1 houtline).1
    by_cases hcid : c.id = b'.id
    · rw [if_pos hcid, houtline, h.eq_of_id hb hc (hcid.trans hid)]
    · rw [if_neg hcid]
  unfold SyncChain.putBatch
  constructor
  · rw [List.map_map]
    exact List.map_congr_left fun c hc => hsame c (List.mem_append_left _ hc)
  · rw [List.map_map]
    exact List.map_congr_left fun c hc => hsame c (List.mem_append_right _ hc)

theorem Distinct.putBatch_split (h : s.Distinct) {pre post : List Batch} (hbatches : s.batches = pre ++ b :: post)
    (hid : b'.id = b.id) : (s.putBatch b').batches = pre ++ b' :: post ∧ (s.putBatch b').dropped = s.dropped := by
  have hnodup := h.nodup
  rw [List.map_append, List.nodup_append, hbatches, List.map_append, List.map_cons, List.nodup_append, List.nodup_cons] at hnodup
  obtain ⟨⟨-, ⟨hpost, -⟩, hpre⟩, -, hdropped⟩ := hnodup
  have hkeep : ∀ l : List Batch, (∀ c ∈ l, c.id ≠ b.id) → (l.map fun c => if c.id = b'.id then b' else c) = l := by
    intro l hl
    have hid' : (l.map fun c => if c.id = b'.id then b' else c) = l.map id := by
      apply List.map_congr_left
      intro c hc
      rw [if_neg (by rw [hid]; exact hl c hc)]
      rfl
    rw [hid', List.map_id]
  unfold SyncChain.putBatch
  constructor
  · rw [hbatches, List.map_append, List.map_cons, if_pos hid.symm, hkeep pre, hkeep post]
    · exact fun c hc heq => hpost (heq ▸ List.mem_map_of_mem hc)
    · exact fun c hc => hpre _ (List.mem_map_of_mem hc) _ List.mem_cons_self
  · refine hkeep _ fun c hc heq => ?_
    exact hdropped b.id (by simp) c.id (List.mem_map_of_mem hc) heq.symm

/-! ## Requests -/

/-- What requests do to a chain: batches are added at the end, each where the one before it ends, and of the batches there were only
downloads begin. -/
structure Requested (opts : SyncChainOpts) (s s' : SyncChain) (added : List Batch) : Prop where
  batches : s'.batches.map Batch.outline = s.batches.map Batch.outline ++ added.map Batch.outline
  dropped : s'.dropped.map Batch.outline = s.dropped.map Batch.outline
  made : s'.made = s.made ++ added
  pending : ∀ b ∈ added, b.status.stage = .pending
  ids : added.map Batch.id = List.range' s.made.length added.length
  starts : added.map Batch.startEpoch =
    List.range' (nextStart (s.batches.map Batch.startEpoch) s.startEpoch opts.epochsPerBatch) added.length opts.epochsPerBatch
  keys : (s.batches.map Batch.startEpoch).Nodup → (s'.batches.map Batch.startEpoch).Nodup
  startEpoch : s'.startEpoch = s.startEpoch
  target : s'.target = s.target
  status : s'.status = s.status
  loop : s'.loop = s.loop
  batchProcessor : s'.batchProcessor = s.batchProcessor
  processed : s'.processed = s.processed

theorem map_startEpoch (batches : List Batch) :
    batches.map Batch.startEpoch = (batches.map Batch.outline).map Outline.startEpoch := by
  rw [List.map_map]
  rfl

theorem map_id (batches : List Batch) : batches.map Batch.id = (batches.map Batch.outline).map Outline.id := by
  rw [List.map_map]
  rfl

namespace Requested

variable {added added' : List Batch}

theorem refl (s : SyncChain) : Requested opts s s [] := by
  constructor <;> simp

theorem startEpochs (h : Requested opts s s' added) :
    s'.batches.map Batch.startEpoch = s.batches.map Batch.startEpoch ++ added.map Batch.startEpoch := by
  rw [map_startEpoch, h.batches, List.map_append, ← map_startEpoch, ← map_startEpoch]

theorem distinct (h : Requested opts s s' added) (hs : s.Distinct) : s'.Distinct := by
  have hids : (s'.batches ++ s'.dropped).map Batch.id = s.batches.map Batch.id ++ added.map Batch.id ++ s.dropped.map Batch.id := by
    rw [List.map_append, map_id, map_id, h.batches, h.dropped, List.map_append, ← map_id, ← map_id, ← map_id]
  have hnew : ∀ id ∈ added.map Batch.id, s.made.length ≤ id ∧ id < s'.made.length := by
    intro id hid
    rw [h.ids, List.mem_range'_1] at hid
    rw [h.made, List.length_append]
    exact hid
  have hold : ∀ id ∈ (s.batches ++ s.dropped).map Batch.id, id < s.made.length := by
    intro id hid
    obtain ⟨b, hb, rfl⟩ := List.mem_map.1 hid
    exact hs.fresh b hb
  have hnodup : (added.map Batch.id).Nodup := by
    rw [h.ids]
    exact List.nodup_range' 1
  have hperm : ((s'.batches ++ s'.dropped).map Batch.id).Perm ((s.batches ++ s.dropped).map Batch.id ++ added.map Batch.id) := by
    rw [hids, List.map_append, List.append_assoc, List.append_assoc]
    exact List.Perm.append_left _ List.perm_append_comm
  constructor
  · rw [hperm.nodup_iff, List.nodup_append]
    refine ⟨hs.nodup, hnodup, ?_⟩
    intro id hid id' hid' heq
    have := hold id hid
    have := (hnew id' hid').1
    omega
  · intro b hb
    have hmem := hperm.mem_iff.1 (List.mem_map_of_mem hb)
    rcases List.mem_append.1 hmem with hmem | hmem
    · have := hold b.id hmem
      rw [h.made, List.length_append]
      omega
    · exact (hnew b.id hmem).2

theorem trans (h : Requested opts s s' added) (h' : Requested opts s' s'' added') : Requested opts s s'' (added ++ added') where
  batches := by rw [h'.batches, h.batches, List.map_append, List.append_assoc]
  dropped := h'.dropped.trans h.dropped
  made := by rw [h'.made, h.made, List.append_assoc]
  pending := List.forall_mem_append.2 ⟨h.pending, h'.pending⟩
  ids := by
    rw [List.map_append, h.ids, h'.ids, h.made, List.length_append, List.length_append, List.range'_append_1]
  starts := by
    have hnext : nextStart (s'.batches.map Batch.startEpoch) s'.startEpoch opts.epochsPerBatch =
        nextStart (s.batches.map Batch.startEpoch) s.startEpoch opts.epochsPerBatch + opts.epochsPerBatch * added.length := by
      rw [h.startEpochs, h.startEpoch, h.starts]
      cases hlen : added.length with
      | zero => simp
      | succ n =>
        unfold nextStart
        rw [List.range'_concat, ← List.append_assoc, List.getLast?_concat]
        dsimp only
        rw [Nat.mul_add, Nat.mul_one, Nat.add_assoc]
    rw [List.map_append, h.starts, h'.starts, hnext, List.length_append, List.range'_append]
  keys hnodup := h'.keys (h.keys hnodup)
  startEpoch := h'.startEpoch.trans h.startEpoch
  target := h'.target.trans h.target
  status := h'.status.trans h.status
  loop := h'.loop.trans h.loop
  batchProcessor := h'.batchProcessor.trans h.batchProcessor
  processed := h'.processed.trans h.processed

end Requested

theorem sendBatch_eq (h : b.status = .AwaitingDownload) (peer : PeerId) (s : SyncChain) :
    s.sendBatch b peer = { s.putBatch { b with state := .Downloading peer } with downloads := s.downloads ++ [b.id] } := by
  unfold sendBatch
  rw [Batch.startDownloading_of_await h]

theorem Distinct.sendBatch (h : s.Distinct) (hb : b ∈ s.batches) (hstatus : b.status = .AwaitingDownload) (peer : PeerId) :
    Requested opts s (s.sendBatch b peer) [] := by
  have houtline : ({ b with state := .Downloading peer } : Batch).outline = b.outline := by
    rw [Batch.outline_eq]
    refine ⟨rfl, rfl, ?_⟩
    rw [hstatus]
    rfl
  have hput := h.putBatch_outline (List.mem_append_left _ hb) houtline
  have hstarts := congrArg (List.map Outline.startEpoch) hput.1
  rw [← map_startEpoch, ← map_startEpoch] at hstarts
  rw [sendBatch_eq hstatus]
  constructor
  case batches =>
    rw [List.map_nil, List.append_nil]
    exact hput.1
  case dropped => exact hput.2
  case keys =>
    intro hnodup
    rw [← hstarts] at hnodup
    exact hnodup
  all_goals simp [putBatch]

theorem includeNextBatch_eq_some (h : s.includeNextBatch P opts = some (b, s')) :
    b = Batch.new s.made.length (nextStart (s.batches.map Batch.startEpoch) s.startEpoch opts.epochsPerBatch) ∧
      b.startEpoch ∉ s.batches.map Batch.startEpoch ∧
      s' = { s with batches := s.batches ++ [b], made := s.made ++ [b] } := by
  unfold includeNextBatch at h
  dsimp only at h
  split at h
  · cases h
  · split at h
    · cases h
    · split at h
      · cases h
      · rename_i hkey
        rw [toBeDownloadedStartEpoch_eq] at h hkey
        cases h
        refine ⟨rfl, ?_, rfl⟩
        intro hmem
        obtain ⟨c, hc, heq⟩ := List.mem_map.1 hmem
        exact hkey (List.any_eq_true.2 ⟨c, hc, by simpa using heq⟩)

theorem Distinct.includeNextBatch (h : s.Distinct) (hinclude : s.includeNextBatch P opts = some (b, s')) (peer : PeerId) :
    Requested opts s (s'.sendBatch b peer) [b] := by
  obtain ⟨hnew, hkey, hs'⟩ := includeNextBatch_eq_some hinclude
  have hincluded : Requested opts s s' [b] := by
    subst hs'
    constructor
    case pending =>
      rw [List.forall_mem_singleton, hnew]
      rfl
    case ids => simp [hnew]
    case starts => simp [hnew]
    case keys =>
      intro hnodup
      rw [List.map_append, List.nodup_append]
      refine ⟨hnodup, by simp, ?_⟩
      intro a ha c hc heq
      rw [List.map_singleton, List.mem_singleton] at hc
      exact hkey (hc ▸ heq ▸ ha)
    all_goals simp
  have hmem : b ∈ s'.batches := by
    rw [hs']
    simp
  have hsend : Requested opts s' (s'.sendBatch b peer) [] :=
    (hincluded.distinct h).sendBatch hmem (by rw [hnew, Batch.new_status]) peer
  simpa using hincluded.trans hsend

theorem retryBatches_requested (peers : List PeerId) (activeRequests : PeerId → Nat) : ∀ (batches : List Batch) (s : SyncChain),
    s.Distinct → (batches.map Batch.id).Nodup → (∀ b ∈ batches, b ∈ s.batches) →
      Requested opts s (retryBatches peers activeRequests batches s) []
  | [], s, _, _, _ => Requested.refl s
  | b :: batches, s, h, hnodup, hmem => by
    rw [List.map_cons, List.nodup_cons] at hnodup
    rw [List.forall_mem_cons] at hmem
    have hskip := retryBatches_requested peers activeRequests batches s h hnodup.2 hmem.2
    unfold retryBatches
    by_cases hstatus : b.status = .AwaitingDownload
    · rw [if_pos hstatus]
      cases bestPeerToRetryBatch peers activeRequests b with
      | none => exact hskip
      | some peer =>
        have hsend : Requested opts s (s.sendBatch b peer) [] := h.sendBatch hmem.1 hstatus peer
        refine hsend.trans (retryBatches_requested peers activeRequests batches _ (hsend.distinct h) hnodup.2 ?_)
        intro c hc
        rw [sendBatch_eq hstatus]
        refine List.mem_map.2 ⟨c, hmem.2 c hc, if_neg ?_⟩
        exact fun heq => hnodup.1 (heq ▸ List.mem_map_of_mem hc)
    · rw [if_neg hstatus]
      exact hskip

theorem requestNewBatches_requested : ∀ (peers : List PeerId) (s : SyncChain), s.Distinct →
    ∃ added, Requested opts s (requestNewBatches P opts peers s) added
  | [], s, _ => ⟨[], Requested.refl s⟩
  | peer :: peers, s, h => by
    unfold requestNewBatches
    cases hinclude : s.includeNextBatch P opts with
    | none => exact ⟨[], Requested.refl s⟩
    | some included =>
      have hsend : Requested opts s (included.2.sendBatch included.1 peer) [included.1] := h.includeNextBatch hinclude peer
      obtain ⟨added, hrest⟩ := requestNewBatches_requested peers _ (hsend.distinct h)
      exact ⟨_, hsend.trans hrest⟩

theorem requestBatches_requested (P : Preset) (opts : SyncChainOpts) (h : s.Distinct) :
    ∃ added, Requested opts s (s.requestBatches P opts) added := by
  unfold requestBatches
  by_cases hsyncing : s.status ≠ .Syncing
  · rw [if_pos hsyncing]
    exact ⟨[], Requested.refl s⟩
  · rw [if_neg hsyncing]
    have hnodup : (s.batches.map Batch.id).Nodup := h.nodup.sublist ((List.sublist_append_left _ _).map _)
    have hshuffled : Requested opts s { s with shuffles := s.shuffles + 1 } [] := by
      constructor <;> simp
    have hretry := hshuffled.trans (retryBatches_requested (opts.shuffle s.shuffles (s.peerset.entries.map Prod.fst))
      (activeRequestsByPeer s.batches) s.batches { s with shuffles := s.shuffles + 1 } (hshuffled.distinct h) hnodup fun _ => id)
    obtain ⟨added, hnew⟩ := requestNewBatches_requested (P := P)
      (idlePeers (opts.shuffle s.shuffles (s.peerset.entries.map Prod.fst)) (activeRequestsByPeer s.batches)) _ (hretry.distinct h)
    exact ⟨_, hretry.trans hnew⟩

end SyncChain

end Lodestar.Sync
