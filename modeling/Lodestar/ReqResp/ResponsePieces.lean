import Lodestar.ReqResp.Responses
/-!
# ResponsePieces — a response read by scans

A reader of a `BufferedSource` depends on the pieces in which the pending bytes reach it, and on nothing else of the source:
a response is its result byte, then a scan for each of the context bytes, the header and the payload (`responseDecode_cons`).
-/
namespace Lodestar.ReqResp

open Lib
open Lodestar.StateTransition (ForkName)

variable {ResponseBody : Type} (codec : Codec ResponseBody) (context : ForkDigestContext) (protocol : Protocol)

def aborted : Failure := .SszSnappyError .SOURCE_ABORTED

def contextVerdict (bytes : Buffer) : Verdict Failure ForkName :=
  (fixedWidth CONTEXT_BYTES_FORK_DIGEST_LENGTH bytes).andThen (forkDigest2ForkName context)

def payloadVerdict (type : ResponseType) (deserializeToTree : Bool) (sszDataLength : Nat) (bytes : Buffer) :
    Verdict Failure ResponseBody :=
  (bodyVerdict codec sszDataLength bytes).andThen fun data => deserializeSszBody codec data type deserializeToTree

def scanForkName (contextBytes : ContextBytesType) (pieces : List Buffer) : Except Failure (ForkName × List Buffer) :=
  match contextBytes with
  | .Empty => .ok (.phase0, pieces)
  | .ForkDigest => scan (contextVerdict context) (.error (.Error "Source ended while reading context bytes")) [] pieces

def scanPayload (type : ResponseType) (deserializeToTree : Bool) (pieces : List Buffer) :
    Except Failure (ResponseBody × List Buffer) := do
  let (sszDataLength, pieces) ← scan (headerVerdict codec type) (.error aborted) [] pieces
  scan (payloadVerdict codec type deserializeToTree sszDataLength) (.error aborted) [] pieces

def scanSuccess (pieces : List Buffer) : Except Failure (ResponseBody × List Buffer) := do
  let (forkName, pieces) ← scanForkName context (contextBytesTypeByProtocol protocol) pieces
  scanPayload codec (getResponseSzzTypeByMethod protocol forkName) (deserializeToTreeByMethod protocol.method) pieces

def messageOf : List Buffer → String
  | [] => ""
  | piece :: _ => decodeErrorMessage piece

variable {codec context protocol}

/-! ## The readers match the scans -/

variable {α β : Type} {r : Except Failure (α × BufferedSource)} {q : Except Failure (α × List Buffer)}

theorem matches_bind {f : α × BufferedSource → Except Failure (β × BufferedSource)}
    {g : α × List Buffer → Except Failure (β × List Buffer)} (h : Matches r q)
    (hnext : ∀ value s, s.Sound → Matches (f (value, s)) (g (value, s.pieces))) :
    Matches (r >>= f) (q >>= g) := by
  cases q with
  | error failure =>
    have hr : r = .error failure := h
    rw [hr]
    rfl
  | ok scanned =>
    obtain ⟨value, pieces⟩ := scanned
    obtain ⟨s, hr, rfl, hs⟩ := h
    rw [hr]
    exact hnext value s hs

theorem matches_map (f : α → Except Failure β) (h : Matches r q) :
    Matches (r >>= fun x => (f x.1).map fun value => (value, x.2)) (q >>= fun x => (f x.1).map fun value => (value, x.2)) := by
  refine matches_bind h ?_
  intro value s hs
  cases f value with
  | error failure => rfl
  | ok value' => exact ⟨s, rfl, rfl, hs⟩

variable {s : BufferedSource}

theorem readsContextBytes (hs : s.Sound) :
    Matches (readContextBytesForkDigest s)
      (scan (fixedWidth CONTEXT_BYTES_FORK_DIGEST_LENGTH) (.error (.Error "Source ended while reading context bytes")) []
        s.pieces) := by
  refine forAwait_scan (R := fun gathered _ buffer => buffer = gathered ∧ buffer.length < CONTEXT_BYTES_FORK_DIGEST_LENGTH)
    ⟨?_, ?_⟩ (fun _ h => by cases h) ⟨rfl, by decide⟩ hs
  · rintro gathered buffer chunk state ⟨rfl, -⟩ -
    unfold fixedWidth
    by_cases hlen : CONTEXT_BYTES_FORK_DIGEST_LENGTH ≤ (buffer ++ chunk).length
    · rw [if_pos hlen, if_pos hlen]
    · rw [if_neg hlen, if_neg hlen]
      exact ⟨(), _, rfl, rfl, by omega⟩
  · rintro gathered buffer state ⟨rfl, hlen⟩ -
    rw [if_neg (by omega)]
    exact ⟨(), rfl, rfl, hlen⟩

theorem readsForkName (contextBytes : ContextBytesType) (hs : s.Sound) :
    Matches (readForkName context contextBytes s) (scanForkName context contextBytes s.pieces) := by
  cases contextBytes with
  | Empty => exact ⟨s, rfl, rfl, hs⟩
  | ForkDigest =>
    have h := matches_map (forkDigest2ForkName context) (readsContextBytes hs)
    rw [← scan_andThen] at h
    have hread : readForkName context .ForkDigest s = readContextBytesForkDigest s >>= fun x =>
        (forkDigest2ForkName context x.1).map fun value => (value, x.2) := by
      congr 1
    exact h

theorem readsPayload (type : ResponseType) (deserializeToTree : Bool) (hs : s.Sound) :
    Matches (readSszSnappyPayload codec type deserializeToTree s) (scanPayload codec type deserializeToTree s.pieces) := by
  refine matches_bind (readsHeader type hs) ?_
  intro sszDataLength s₁ hs₁
  have h := matches_map (fun data => deserializeSszBody codec data type deserializeToTree)
    (readsBody codec sszDataLength hs₁)
  have hscan := scan_andThen (bodyVerdict codec sszDataLength) (.error aborted)
    (fun data => deserializeSszBody codec data type deserializeToTree) [] s₁.pieces
  have hread : Matches (readSszSnappyBody codec sszDataLength s₁ >>= fun x =>
        (deserializeSszBody codec x.1 type deserializeToTree).map fun value => (value, x.2))
      (scan (payloadVerdict codec type deserializeToTree sszDataLength) (.error aborted) [] s₁.pieces) :=
    hscan.symm ▸ h
  exact hread

theorem readsSuccess (hs : s.Sound) :
    Matches (readSuccess codec context protocol s) (scanSuccess codec context protocol s.pieces) := by
  refine matches_bind (readsForkName _ hs) ?_
  intro forkName s₁ hs₁
  exact readsPayload _ _ hs₁

theorem readsErrorMessage (hs : s.Sound) :
    ∃ s', readErrorMessage s = .ok (messageOf s.pieces, s') := by
  unfold readErrorMessage forAwait
  by_cases hbuffer : s.buffer = []
  · have hpieces : s.pieces = s.source := by simp [BufferedSource.pieces, requeue, hbuffer]
    rw [hpieces]
    cases hsource : s.source with
    | nil =>
      rw [forAwaitFrom_done hsource (.inr hbuffer)]
      exact ⟨_, rfl⟩
    | cons chunk source =>
      have hne := hs.nonempty chunk (by rw [hsource]; exact List.mem_cons_self ..)
      have hlen : ¬ chunk.length = 0 := by rw [List.length_eq_zero_iff]; exact hne
      rw [forAwaitFrom_fetch hsource (.inr hbuffer), hbuffer, List.nil_append, if_neg hlen]
      exact ⟨_, rfl⟩
  · have hpieces : s.pieces = s.buffer :: s.source := by simp [BufferedSource.pieces, requeue, hbuffer]
    have hlen : ¬ s.buffer.length = 0 := by rw [List.length_eq_zero_iff]; exact hbuffer
    rw [forAwaitFrom_pending hbuffer, hpieces, if_neg hlen]
    exact ⟨_, rfl⟩

theorem sound_new {source : List Buffer} (h : ∀ chunk ∈ source, chunk ≠ []) : (BufferedSource.new source).Sound :=
  ⟨h, fun hdone => nomatch hdone⟩

theorem pieces_new (source : List Buffer) : (BufferedSource.new source).pieces = source := by
  simp [BufferedSource.pieces, BufferedSource.new, requeue]

theorem readsResultHeader_nil (hpieces : s.pieces = []) :
    ∃ s', readResultHeader s = .ok (.StreamEnded, s') := by
  have hbuffer : s.buffer = [] := by
    by_contra hbuffer
    simp [BufferedSource.pieces, requeue, hbuffer] at hpieces
  have hsource : s.source = [] := by simpa [BufferedSource.pieces, requeue, hbuffer] using hpieces
  rw [readResultHeader_eq, if_pos hbuffer, hsource]
  exact ⟨_, rfl⟩

variable {byte : UInt8} {bytes : Buffer} {pieces : List Buffer}

theorem readsResultHeader_cons (hs : s.Sound) (hpieces : s.pieces = (byte :: bytes) :: pieces) :
    ∃ s', readResultHeader s = .ok (.Status (some byte), s') ∧ s'.pieces = requeue bytes pieces ∧ s'.Sound := by
  have hdone : s.isDone = false := by
    cases h : s.isDone with
    | false => rfl
    | true =>
      have hnil := hs.isDone h
      rw [hpieces] at hnil
      cases hnil
  rw [readResultHeader_eq]
  by_cases hbuffer : s.buffer = []
  · have hsource : s.source = (byte :: bytes) :: pieces := by
      simpa [BufferedSource.pieces, requeue, hbuffer] using hpieces
    rw [if_pos hbuffer, hsource]
    refine ⟨_, rfl, rfl, ⟨?_, fun h => by rw [hdone] at h; cases h⟩⟩
    intro chunk hc
    exact hs.nonempty chunk (by rw [hsource]; exact List.mem_cons_of_mem _ hc)
  · have hcons : s.buffer = byte :: bytes ∧ s.source = pieces := by
      simpa [BufferedSource.pieces, requeue, hbuffer] using hpieces
    rw [if_neg hbuffer, hcons.1]
    refine ⟨_, rfl, ?_, ⟨hs.nonempty, fun h => by rw [hdone] at h; cases h⟩⟩
    simp only [BufferedSource.pieces, hcons.2]
    rfl

/-! ## A response by its pieces -/

theorem decodeFrom_nil (hpieces : s.pieces = []) : decodeFrom codec context protocol s = ⟨[], none⟩ := by
  obtain ⟨s', hread⟩ := readsResultHeader_nil hpieces
  rw [decodeFrom]
  split
  · rfl
  · split
    · rename_i h
      rw [hread] at h
      cases h
    · rfl
    · rename_i h
      rw [hread] at h
      cases h

theorem decodeFrom_round {s s₁ : BufferedSource} (hdone : s.isDone = false)
    (hread : readResultHeader s = .ok (.Status (some byte), s₁)) :
    decodeFrom codec context protocol s =
      if byte ≠ SUCCESS then
        match readErrorMessage s₁ with
        | .error failure => ⟨[], some failure⟩
        | .ok (errorMessage, _) => ⟨[], some (.ResponseError (some byte) errorMessage)⟩
      else
        match readSuccess codec context protocol s₁ with
        | .error failure => ⟨[], some failure⟩
        | .ok (body, s₂) => ⟨body :: (decodeFrom codec context protocol s₂).bodies,
            (decodeFrom codec context protocol s₂).failure⟩ := by
  rw [decodeFrom, hdone]
  simp only [Bool.false_eq_true, if_false]
  split
  · rename_i h
    rw [hread] at h
    cases h
  · rename_i h
    rw [hread] at h
    cases h
  · rename_i status s₁' h
    rw [hread] at h
    cases h
    by_cases hbyte : byte ≠ SUCCESS
    · rw [if_pos hbyte]
      exact dif_pos (by simpa using hbyte)
    · rw [dif_neg (by simpa using hbyte), if_neg hbyte]
      split
      · rename_i h'
        rw [h']
      · rename_i h'
        rw [h']

theorem not_isDone (hs : s.Sound) (hpieces : s.pieces ≠ []) : s.isDone = false := by
  cases h : s.isDone with
  | false => rfl
  | true => exact absurd (hs.isDone h) hpieces

section Round
variable {s : BufferedSource} {byte : UInt8} {bytes : Buffer} {pieces : List Buffer}

section

variable (hs : s.Sound) (hpieces : s.pieces = (byte :: bytes) :: pieces)
include hs hpieces

theorem decodeFrom_error (hbyte : byte ≠ SUCCESS) :
    decodeFrom codec context protocol s = ⟨[], some (.ResponseError (some byte) (messageOf (requeue bytes pieces)))⟩ := by
  obtain ⟨s₁, hread, hpieces₁, hs₁⟩ := readsResultHeader_cons hs hpieces
  obtain ⟨s', hmessage⟩ := readsErrorMessage hs₁
  rw [decodeFrom_round (not_isDone hs (by simp [hpieces])) hread, if_pos hbyte, hmessage, hpieces₁]

theorem decodeFrom_failed (hbyte : byte = SUCCESS) {failure : Failure}
    (hscan : scanSuccess codec context protocol (requeue bytes pieces) = .error failure) :
    decodeFrom codec context protocol s = ⟨[], some failure⟩ := by
  obtain ⟨s₁, hread, hpieces₁, hs₁⟩ := readsResultHeader_cons hs hpieces
  have hsuccess : Matches (readSuccess codec context protocol s₁) _ := readsSuccess hs₁
  rw [hpieces₁, hscan] at hsuccess
  have hfails : readSuccess codec context protocol s₁ = .error failure := hsuccess
  rw [decodeFrom_round (not_isDone hs (by simp [hpieces])) hread, if_neg (by simpa using hbyte), hfails]

theorem decodeFrom_body (hbyte : byte = SUCCESS) {body : ResponseBody} {pieces' : List Buffer}
    (hscan : scanSuccess codec context protocol (requeue bytes pieces) = .ok (body, pieces')) :
    ∃ s', s'.Sound ∧ s'.pieces = pieces' ∧ s'.pending.length < s.pending.length ∧
      decodeFrom codec context protocol s = ⟨body :: (decodeFrom codec context protocol s').bodies,
        (decodeFrom codec context protocol s').failure⟩ := by
  obtain ⟨s₁, hread, hpieces₁, hs₁⟩ := readsResultHeader_cons hs hpieces
  have hsuccess : Matches (readSuccess codec context protocol s₁) _ := readsSuccess hs₁
  rw [hpieces₁, hscan] at hsuccess
  obtain ⟨s₂, hr, hpieces₂, hs₂⟩ := hsuccess
  refine ⟨s₂, hs₂, hpieces₂, lt_of_le_of_lt (readSuccess_pending_le hr) (readResultHeader_pending_lt hread), ?_⟩
  rw [decodeFrom_round (not_isDone hs (by simp [hpieces])) hread, if_neg (by simpa using hbyte), hr]

end

end Round

theorem pieces_nonempty (hs : s.Sound) : ∀ piece ∈ s.pieces, piece ≠ [] := by
  intro piece hp
  unfold BufferedSource.pieces requeue at hp
  split at hp
  · exact hs.nonempty piece hp
  · rename_i hbuffer
    rcases List.mem_cons.1 hp with rfl | hp
    · exact hbuffer
    · exact hs.nonempty piece hp

theorem decodeFrom_congr {s t : BufferedSource} (hs : s.Sound) (ht : t.Sound) (h : s.pieces = t.pieces) :
    decodeFrom codec context protocol s = decodeFrom codec context protocol t := by
  cases hpieces : s.pieces with
  | nil => rw [decodeFrom_nil hpieces, decodeFrom_nil (h ▸ hpieces)]
  | cons piece pieces =>
    have hne := pieces_nonempty hs piece (by rw [hpieces]; exact List.mem_cons_self ..)
    obtain ⟨byte, bytes, rfl⟩ : ∃ byte bytes, piece = byte :: bytes := List.exists_cons_of_ne_nil hne
    have hpieces' : t.pieces = (byte :: bytes) :: pieces := h ▸ hpieces
    by_cases hbyte : byte = SUCCESS
    · cases hscan : scanSuccess codec context protocol (requeue bytes pieces) with
      | error failure => rw [decodeFrom_failed hs hpieces hbyte hscan, decodeFrom_failed ht hpieces' hbyte hscan]
      | ok scanned =>
        obtain ⟨s₂, hs₂, hps, hlt, hes⟩ := decodeFrom_body hs hpieces hbyte hscan
        obtain ⟨t₂, ht₂, hpt, -, het⟩ := decodeFrom_body ht hpieces' hbyte hscan
        have ih := decodeFrom_congr hs₂ ht₂ (hps.trans hpt.symm)
        rw [hes, het, ih]
    · rw [decodeFrom_error hs hpieces hbyte, decodeFrom_error ht hpieces' hbyte]
termination_by s.pending.length

theorem responseDecode_nil : responseDecode codec context protocol [] = ⟨[], none⟩ := decodeFrom_nil (pieces_new [])

/-- **A response begins with its result byte**, which is followed by the message of an error or by a body and the rest of
the response. -/
theorem responseDecode_cons (hne : ∀ piece ∈ pieces, piece ≠ []) :
    responseDecode codec context protocol ((byte :: bytes) :: pieces) =
      if byte ≠ SUCCESS then ⟨[], some (.ResponseError (some byte) (messageOf (requeue bytes pieces)))⟩
      else
        match scanSuccess codec context protocol (requeue bytes pieces) with
        | .error failure => ⟨[], some failure⟩
        | .ok (body, pieces') => ⟨body :: (responseDecode codec context protocol pieces').bodies,
            (responseDecode codec context protocol pieces').failure⟩ := by
  have hs : (BufferedSource.new ((byte :: bytes) :: pieces)).Sound := by
    apply sound_new
    intro piece hp
    rcases List.mem_cons.1 hp with rfl | hp
    · simp
    · exact hne piece hp
  have hpieces := pieces_new ((byte :: bytes) :: pieces)
  unfold responseDecode
  by_cases hbyte : byte = SUCCESS
  · rw [if_neg (by simpa using hbyte)]
    cases hscan : scanSuccess codec context protocol (requeue bytes pieces) with
    | error failure => exact decodeFrom_failed hs hpieces hbyte hscan
    | ok scanned =>
      obtain ⟨body, rest⟩ := scanned
      obtain ⟨s', hs', hpieces', -, h⟩ := decodeFrom_body hs hpieces hbyte hscan
      have hrest : decodeFrom codec context protocol s' = decodeFrom codec context protocol (.new rest) := by
        apply decodeFrom_congr hs'
        · rw [← hpieces']
          exact sound_new (pieces_nonempty hs')
        · rw [pieces_new, hpieces']
      rw [h, hrest]
  · rw [if_pos hbyte]
    exact decodeFrom_error hs hpieces hbyte

end Lodestar.ReqResp
