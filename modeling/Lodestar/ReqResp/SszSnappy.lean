import Lodestar.Lib.Fallible
import Lodestar.ReqResp.BufferedSource
/-!
# SszSnappy — the reader of the ssz_snappy encoding

The header is the length of the SSZ bytes as a varint, the body snappy frames.  The decompressor is fed chunk by chunk and
keeps an unfinished frame for the next call; what it has put out after several chunks is what it puts out for all of them at
once (`uncompressFrames_append`), so that the body's reader is a scan with a verdict on the bytes gathered (`readsBody`).
-/
namespace Lodestar.ReqResp

open Lib

def MAX_VARINT_BYTES : Nat := 10

/-- Computes the worst-case compression result by SSZ-Snappy.  It is compared with whole numbers only, so the fraction of
the source's `sszLength / 6` is dropped. -/
def maxEncodedLen (sszLength : Nat) : Nat := 32 + sszLength + sszLength / 6

/-! ## Snappy frames -/

def IDENTIFIER : Buffer := [0x73, 0x4e, 0x61, 0x50, 0x70, 0x59]

inductive ChunkType
  | IDENTIFIER
  | COMPRESSED
  | UNCOMPRESSED
  | PADDING
deriving DecidableEq, Repr

def getChunkType (value : UInt8) : Except String ChunkType :=
  if value = 0xff then .ok .IDENTIFIER
  else if value = 0x00 then .ok .COMPRESSED
  else if value = 0x01 then .ok .UNCOMPRESSED
  else if value = 0xfe then .ok .PADDING
  else .error "Unsupported snappy chunk type"

def getFrameSize (buffer : Buffer) (offset : Nat) : Nat :=
  (buffer.getD offset 0).toNat + (buffer.getD (offset + 1) 0).toNat <<< 8 + (buffer.getD (offset + 2) 0).toNat <<< 16

structure SnappyFramesUncompress where
  buffer : Buffer
  foundIdentifier : Bool
deriving DecidableEq, Repr

def SnappyFramesUncompress.new : SnappyFramesUncompress := ⟨[], false⟩

variable {ResponseBody : Type} (codec : Codec ResponseBody)

def uncompressFrame (type : ChunkType) (data : Buffer) (foundIdentifier : Bool) : Except String Buffer :=
  if !foundIdentifier && decide (type ≠ .IDENTIFIER) then .error "malformed input: must begin with an identifier"
  else
    match type with
    | .IDENTIFIER => if data ≠ IDENTIFIER then .error "malformed input: bad identifier" else .ok []
    | .COMPRESSED => codec.snappyUncompress (data.drop 4)
    | .UNCOMPRESSED => .ok (data.drop 4)
    | .PADDING => .ok []

def uncompressFrames (buffer : Buffer) (foundIdentifier : Bool) (result : Buffer) :
    Except String (Buffer × SnappyFramesUncompress) :=
  if hlen : buffer.length < 4 then .ok (result, ⟨buffer, foundIdentifier⟩)
  else
    match getChunkType (buffer.getD 0 0) with
    | .error error => .error error
    | .ok type =>
      let frameSize := getFrameSize buffer 1
      let data := (buffer.drop 4).take frameSize
      if buffer.length - 4 < frameSize then .ok (result, ⟨buffer, foundIdentifier⟩)
      else
        match uncompressFrame codec type data foundIdentifier with
        | .error error => .error error
        | .ok uncompressed => uncompressFrames (buffer.drop (4 + frameSize)) true (result ++ uncompressed)
termination_by buffer.length
decreasing_by
  rw [List.length_drop]
  omega

def SnappyFramesUncompress.uncompress (d : SnappyFramesUncompress) (chunk : Buffer) :
    Except String (Option Buffer × SnappyFramesUncompress) :=
  (uncompressFrames codec (d.buffer ++ chunk) d.foundIdentifier []).map fun r =>
    (if r.1.length = 0 then none else some r.1, r.2)

/-! ## The reader -/

/-- Reads `<encoding-dependent-header>` for ssz-snappy: the length of the raw SSZ bytes as an unsigned protobuf varint. -/
def readSszSnappyHeader (type : ResponseType) (s : BufferedSource) : Except Failure (Nat × BufferedSource) :=
  forAwait (fun state buffer =>
      -- get next bytes if empty
      if buffer.length = 0 then .continue_ state buffer
      else
        match codec.varintDecode buffer with
        | .error message => .throw_ (.RangeError message)
        | .ok (sszDataLength, varintBytes) =>
          if MAX_VARINT_BYTES < varintBytes then .throw_ (.SszSnappyError (.INVALID_VARINT_BYTES_COUNT varintBytes))
          else
            let buffer := buffer.drop varintBytes
            let minSize := codec.getMinSerializedLength type
            let maxSize := codec.getMaxSerializedLength type
            if sszDataLength < minSize then .throw_ (.SszSnappyError (.UNDER_SSZ_MIN_SIZE minSize sszDataLength))
            else if maxSize < sszDataLength then .throw_ (.SszSnappyError (.OVER_SSZ_MAX_SIZE maxSize sszDataLength))
            else .return_ sszDataLength buffer)
    (.error (.SszSnappyError .SOURCE_ABORTED)) () s

structure BodyState where
  decompressor : SnappyFramesUncompress
  uncompressedData : Buffer
  readBytes : Nat

/-- Reads `<encoded-payload>` for ssz-snappy and decompresses it. -/
def readSszSnappyBody (sszDataLength : Nat) (s : BufferedSource) : Except Failure (Buffer × BufferedSource) :=
  forAwait (fun (state : BodyState) buffer =>
      let readBytes := state.readBytes + buffer.length
      if maxEncodedLen sszDataLength < readBytes then
        .throw_ (.SszSnappyError (.TOO_MUCH_BYTES_READ readBytes sszDataLength))
      -- no bytes left to consume, get next
      else if buffer.length = 0 then .continue_ { state with readBytes := readBytes } buffer
      else
        match state.decompressor.uncompress codec buffer with
        | .error error => .throw_ (.SszSnappyError (.DECOMPRESSOR_ERROR error))
        | .ok (uncompressed, decompressor) =>
          let buffer := buffer.drop buffer.length
          let uncompressedData := state.uncompressedData ++ uncompressed.getD []
          if sszDataLength < uncompressedData.length then .throw_ (.SszSnappyError (.TOO_MANY_BYTES sszDataLength))
          -- keep reading chunks until `n` SSZ bytes
          else if uncompressedData.length < sszDataLength then .continue_ ⟨decompressor, uncompressedData, readBytes⟩ buffer
          else .return_ (uncompressedData.take sszDataLength) buffer)
    (.error (.SszSnappyError .SOURCE_ABORTED)) ⟨.new, [], 0⟩ s

def deserializeSszBody (bytes : Buffer) (type : ResponseType) (deserializeToTree : Bool) : Except Failure ResponseBody :=
  let read := if deserializeToTree then codec.createTreeBackedFromBytes type bytes else codec.deserialize type bytes
  read.mapError fun error => .SszSnappyError (.DESERIALIZE_ERROR error)

def readSszSnappyPayload (type : ResponseType) (deserializeToTree : Bool) (s : BufferedSource) :
    Except Failure (ResponseBody × BufferedSource) := do
  let (sszDataLength, s) ← readSszSnappyHeader codec type s
  let (bytes, s) ← readSszSnappyBody codec sszDataLength s
  let body ← deserializeSszBody codec bytes type deserializeToTree
  return (body, s)

def readEncodedPayload (encoding : Encoding) (type : ResponseType) (deserializeToTree : Bool) (s : BufferedSource) :
    Except Failure (ResponseBody × BufferedSource) :=
  match encoding with
  | .SSZ_SNAPPY => readSszSnappyPayload codec type deserializeToTree s

/-! ## Verdicts -/

def headerVerdict (type : ResponseType) (bytes : Buffer) : Verdict Failure Nat :=
  match codec.varintDecode bytes with
  | .error message => .fail (.RangeError message)
  | .ok (sszDataLength, varintBytes) =>
    if MAX_VARINT_BYTES < varintBytes then .fail (.SszSnappyError (.INVALID_VARINT_BYTES_COUNT varintBytes))
    else if sszDataLength < codec.getMinSerializedLength type then
      .fail (.SszSnappyError (.UNDER_SSZ_MIN_SIZE (codec.getMinSerializedLength type) sszDataLength))
    else if codec.getMaxSerializedLength type < sszDataLength then
      .fail (.SszSnappyError (.OVER_SSZ_MAX_SIZE (codec.getMaxSerializedLength type) sszDataLength))
    else .done sszDataLength varintBytes

def bodyVerdict (sszDataLength : Nat) (bytes : Buffer) : Verdict Failure Buffer :=
  if maxEncodedLen sszDataLength < bytes.length then
    .fail (.SszSnappyError (.TOO_MUCH_BYTES_READ bytes.length sszDataLength))
  else
    match uncompressFrames codec bytes false [] with
    | .error error => .fail (.SszSnappyError (.DECOMPRESSOR_ERROR error))
    | .ok (data, _) =>
      if sszDataLength < data.length then .fail (.SszSnappyError (.TOO_MANY_BYTES sszDataLength))
      else if data.length < sszDataLength then .wait
      else .done data bytes.length

variable {codec}

/-! ## The decompressor, chunk by chunk -/

section

variable (codec : Codec ResponseBody) (buffer : Buffer) (found : Bool) (result more : Buffer)

theorem uncompressFrames_result : uncompressFrames codec buffer found (result ++ more) =
      (uncompressFrames codec buffer found more).map fun r => (result ++ r.1, r.2) := by
  fun_induction uncompressFrames codec buffer found more with
  | case1 buffer found more hlen =>
    rw [uncompressFrames, dif_pos hlen]
    rfl
  | case2 buffer found more hlen error htype =>
    rw [uncompressFrames, dif_neg hlen, htype]
    rfl
  | case3 buffer found more hlen type htype frameSize hshort =>
    rw [uncompressFrames, dif_neg hlen, htype]
    exact if_pos hshort
  | case4 buffer found more hlen type htype frameSize data hlong error hframe =>
    rw [uncompressFrames, dif_neg hlen, htype]
    dsimp only
    rw [if_neg hlong, hframe]
    rfl
  | case5 buffer found more hlen type htype frameSize data hlong uncompressed hframe ih =>
    rw [uncompressFrames, dif_neg hlen, htype]
    dsimp only
    rw [if_neg hlong, hframe]
    dsimp only
    rw [List.append_assoc, ih]

/-- **Bytes that follow are fed to the state that the bytes before them have left**, unless these have thrown. -/
theorem uncompressFrames_append_eq : uncompressFrames codec (buffer ++ more) found result =
      match uncompressFrames codec buffer found result with
      | .error error => .error error
      | .ok (data, d) => uncompressFrames codec (d.buffer ++ more) d.foundIdentifier data := by
  have hget : ∀ {buffer : Buffer}, ¬ buffer.length < 4 → ∀ i, i < 4 → (buffer ++ more).getD i 0 = buffer.getD i 0 := by
    intro buffer hlen i hi
    rw [List.getD_eq_getElem?_getD, List.getD_eq_getElem?_getD, List.getElem?_append_left (by omega)]
  have hsize : ∀ {buffer : Buffer}, ¬ buffer.length < 4 → getFrameSize (buffer ++ more) 1 = getFrameSize buffer 1 := by
    intro buffer hlen
    unfold getFrameSize
    rw [hget hlen 1 (by omega), hget hlen 2 (by omega), hget hlen 3 (by omega)]
  have hlong : ∀ {buffer : Buffer}, ¬ buffer.length < 4 → ¬ (buffer ++ more).length < 4 := by
    intro buffer hlen
    rw [List.length_append]
    omega
  have hdata : ∀ {buffer : Buffer} {frameSize : Nat}, ¬ buffer.length < 4 → ¬ buffer.length - 4 < frameSize →
      ((buffer ++ more).drop 4).take frameSize = (buffer.drop 4).take frameSize := by
    intro buffer frameSize hlen hwhole
    rw [List.drop_append_of_le_length (by omega), List.take_append_of_le_length (by rw [List.length_drop]; omega)]
  fun_induction uncompressFrames codec buffer found result with
  | case1 buffer found result hlen => rfl
  | case2 buffer found result hlen error htype =>
    rw [uncompressFrames, dif_neg (hlong hlen), hget hlen 0 (by omega), htype]
  | case3 buffer found result hlen type htype frameSize hshort => rfl
  | case4 buffer found result hlen type htype frameSize data hwhole error hframe =>
    rw [uncompressFrames, dif_neg (hlong hlen), hget hlen 0 (by omega), htype]
    dsimp only
    rw [hsize hlen, hdata hlen hwhole, if_neg (by rw [List.length_append]; omega), hframe]
  | case5 buffer found result hlen type htype frameSize data hwhole uncompressed hframe ih =>
    have hrest : (buffer ++ more).drop (4 + frameSize) = buffer.drop (4 + frameSize) ++ more :=
      List.drop_append_of_le_length (by omega)
    rw [uncompressFrames, dif_neg (hlong hlen), hget hlen 0 (by omega), htype]
    dsimp only
    rw [hsize hlen, hdata hlen hwhole, if_neg (by rw [List.length_append]; omega), hframe]
    rw [hrest]
    exact ih

end

variable {buffer result data gathered bytes : Buffer}

/-! ## The readers as scans -/

/-- A reader that leaves the buffer as it is until its verdict. -/
def Untouched (gathered : Buffer) (_ : Unit) (buffer : Buffer) : Prop := gathered = [] ∧ buffer = []

variable {s : BufferedSource}

theorem readsHeader (type : ResponseType) (hs : s.Sound) :
    Matches (readSszSnappyHeader codec type s)
      (scan (headerVerdict codec type) (.error (.SszSnappyError .SOURCE_ABORTED)) [] s.pieces) := by
  refine forAwait_scan (R := Untouched) ⟨?_, ?_⟩ (fun _ h => by cases h) ⟨rfl, rfl⟩ hs
  · rintro gathered buffer chunk state ⟨rfl, rfl⟩ hne
    rw [List.nil_append]
    have hlen : ¬ chunk.length = 0 := by rw [List.length_eq_zero_iff]; exact hne
    rw [if_neg hlen]
    unfold headerVerdict
    cases codec.varintDecode chunk with
    | error message => rfl
    | ok r =>
      obtain ⟨sszDataLength, varintBytes⟩ := r
      dsimp only
      by_cases h₁ : MAX_VARINT_BYTES < varintBytes
      · rw [if_pos h₁, if_pos h₁]
      rw [if_neg h₁, if_neg h₁]
      by_cases h₂ : sszDataLength < codec.getMinSerializedLength type
      · rw [if_pos h₂, if_pos h₂]
      rw [if_neg h₂, if_neg h₂]
      by_cases h₃ : codec.getMaxSerializedLength type < sszDataLength
      · rw [if_pos h₃, if_pos h₃]
      · rw [if_neg h₃, if_neg h₃]
  · rintro gathered buffer state ⟨-, rfl⟩ hne
    exact absurd rfl hne

theorem SnappyFramesUncompress.uncompress_eq (d : SnappyFramesUncompress) (chunk : Buffer) :
    (d.uncompress codec chunk).map (fun r => (r.1.getD [], r.2)) =
      uncompressFrames codec (d.buffer ++ chunk) d.foundIdentifier [] := by
  unfold uncompress
  cases uncompressFrames codec (d.buffer ++ chunk) d.foundIdentifier [] with
  | error error => rfl
  | ok r =>
    by_cases hnil : r.1.length = 0
    · simp [Except.map, ← List.length_eq_zero_iff.1 hnil]
    · simp [Except.map, hnil]

/-- The body's locals after `gathered`: all of it went to the decompressor. -/
structure BodyGathered (codec : Codec ResponseBody) (gathered : Buffer) (state : BodyState) (buffer : Buffer) : Prop where
  buffer : buffer = []
  readBytes : state.readBytes = gathered.length
  frames : uncompressFrames codec gathered false [] = .ok (state.uncompressedData, state.decompressor)

theorem BodyGathered.uncompress {state : BodyState} (h : BodyGathered codec gathered state buffer) (chunk : Buffer) :
    uncompressFrames codec (gathered ++ chunk) false [] =
      (state.decompressor.uncompress codec chunk).map fun r => (state.uncompressedData ++ r.1.getD [], r.2) := by
  have hresult := uncompressFrames_result codec (state.decompressor.buffer ++ chunk)
    state.decompressor.foundIdentifier state.uncompressedData []
  rw [List.append_nil, ← state.decompressor.uncompress_eq] at hresult
  rw [uncompressFrames_append_eq, h.frames]
  dsimp only
  rw [hresult]
  cases state.decompressor.uncompress codec chunk <;> rfl

theorem readsBody (codec : Codec ResponseBody) (sszDataLength : Nat) (hs : s.Sound) :
    Matches (readSszSnappyBody codec sszDataLength s)
      (scan (bodyVerdict codec sszDataLength) (.error (.SszSnappyError .SOURCE_ABORTED)) [] s.pieces) := by
  refine forAwait_scan (R := BodyGathered codec) ⟨?_, ?_⟩ (fun _ h => by cases h) ⟨rfl, rfl, ?_⟩ hs
  · intro gathered buffer chunk state hR hne
    have hlen : ¬ chunk.length = 0 := by rw [List.length_eq_zero_iff]; exact hne
    have hread : state.readBytes + chunk.length = (gathered ++ chunk).length := by
      rw [hR.readBytes, List.length_append]
    have huncompress := hR.uncompress chunk
    rw [hR.buffer, List.nil_append]
    rw [hread]
    unfold bodyVerdict
    by_cases hmuch : maxEncodedLen sszDataLength < (gathered ++ chunk).length
    · rw [if_pos hmuch, if_pos hmuch]
    rw [if_neg hmuch, if_neg hmuch, if_neg hlen]
    cases hu : state.decompressor.uncompress codec chunk with
    | error error =>
      rw [huncompress, hu]
      rfl
    | ok r =>
      obtain ⟨uncompressed, decompressor⟩ := r
      rw [hu] at huncompress
      simp only [Except.map] at huncompress
      rw [huncompress]
      dsimp only
      by_cases hmany : sszDataLength < (state.uncompressedData ++ uncompressed.getD []).length
      · rw [if_pos hmany, if_pos hmany]
      rw [if_neg hmany, if_neg hmany]
      by_cases hfew : (state.uncompressedData ++ uncompressed.getD []).length < sszDataLength
      · rw [if_pos hfew, if_pos hfew]
        exact ⟨_, _, rfl, ⟨List.drop_length .., rfl, huncompress⟩⟩
      · rw [if_neg hfew, if_neg hfew]
        dsimp only
        rw [List.take_of_length_le (by omega), List.drop_length, List.drop_length]
  · intro gathered buffer state hR hne
    exact absurd hR.buffer hne
  · rw [uncompressFrames, dif_pos (by decide)]
    rfl

/-! ## What the readers consume -/

variable {type : ResponseType} {s s' : BufferedSource}

theorem readSszSnappyHeader_pending_le {n : Nat} (h : readSszSnappyHeader codec type s = .ok (n, s')) :
    s'.pending.length ≤ s.pending.length := by
  refine forAwait_pending_le ?_ h
  intro state buffer
  dsimp only
  split
  · rename_i hturn
    split at hturn
    · cases hturn
      exact le_rfl
    · split at hturn
      · cases hturn
      · repeat (split at hturn; · cases hturn)
        cases hturn
  · rename_i hturn
    split at hturn
    · cases hturn
    · split at hturn
      · cases hturn
      · repeat (split at hturn; · cases hturn)
        cases hturn
        rw [List.length_drop]
        omega
  · trivial

theorem readSszSnappyBody_pending_le {n : Nat} (h : readSszSnappyBody codec n s = .ok (bytes, s')) :
    s'.pending.length ≤ s.pending.length := by
  refine forAwait_pending_le ?_ h
  intro state buffer
  dsimp only
  split
  · rename_i rest hturn
    split at hturn
    · cases hturn
    · split at hturn
      · cases hturn
        exact le_rfl
      · split at hturn
        · cases hturn
        · split at hturn
          · cases hturn
          · split at hturn <;> cases hturn
            rw [List.length_drop]
            omega
  · rename_i rest hturn
    split at hturn
    · cases hturn
    · split at hturn
      · cases hturn
      · split at hturn
        · cases hturn
        · split at hturn
          · cases hturn
          · split at hturn <;> cases hturn
            rw [List.length_drop]
            omega
  · trivial

theorem readSszSnappyPayload_pending_le {tree : Bool} {body : ResponseBody}
    (h : readSszSnappyPayload codec type tree s = .ok (body, s')) : s'.pending.length ≤ s.pending.length := by
  obtain ⟨⟨n, s₁⟩, hheader, h⟩ := Lib.bind_eq_ok.1 h
  obtain ⟨⟨bytes, s₂⟩, hbody, h⟩ := Lib.bind_eq_ok.1 h
  obtain ⟨value, hvalue, h⟩ := Lib.bind_eq_ok.1 h
  cases h
  exact le_trans (readSszSnappyBody_pending_le hbody) (readSszSnappyHeader_pending_le hheader)

end Lodestar.ReqResp
