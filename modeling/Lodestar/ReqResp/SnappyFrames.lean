import Lodestar.ReqResp.SszSnappy
/-!
# SnappyFrames — what the decompressor makes of a stream of frames

A frame is a type byte, the length of its data in three bytes, and the data.  A whole frame puts out its block; a frame
broken off is kept and puts out nothing.  So of a stream of frames none of which has an empty block, every proper prefix puts
out less than the whole (`uncompressFrames_take`).
-/
namespace Lodestar.ReqResp

open Lib

variable {ResponseBody : Type}

def frameBytes (type : UInt8) (data : Buffer) : Buffer :=
  type :: UInt8.ofNat (data.length % 256) :: UInt8.ofNat (data.length / 256 % 256) :: UInt8.ofNat (data.length / 65536) :: data

structure Frame where
  type : UInt8
  data : Buffer
  block : Buffer

def Frame.bytes (f : Frame) : Buffer := frameBytes f.type f.data

structure Frame.Holds (codec : Codec ResponseBody) (f : Frame) : Prop where
  size : f.data.length < 2 ^ 24
  reads : ∃ type, getChunkType f.type = .ok type ∧ uncompressFrame codec type f.data true = .ok f.block
  block : f.block ≠ []

def identifierFrame : Buffer := frameBytes 0xff IDENTIFIER

/-- The chunks are the snappy frame stream of some data: its identifier, then its blocks in order, cut anywhere. -/
structure FrameStream (codec : Codec ResponseBody) (data : Buffer) (chunks : List Buffer) (frames : List Frame) : Prop where
  chunked : Chunked chunks (identifierFrame ++ frames.flatMap Frame.bytes)
  holds : ∀ f ∈ frames, f.Holds codec
  blocks : frames.flatMap Frame.block = data
  length : (identifierFrame ++ frames.flatMap Frame.bytes).length ≤ maxEncodedLen data.length

variable {codec : Codec ResponseBody}

theorem length_frameBytes (type : UInt8) (data : Buffer) : (frameBytes type data).length = 4 + data.length := by
  simp only [frameBytes, List.length_cons]
  omega

variable {type : UInt8} {data : Buffer}

theorem getFrameSize_frameBytes (hsize : data.length < 2 ^ 24) (rest : Buffer) :
    getFrameSize (frameBytes type data ++ rest) 1 = data.length := by
  have h₀ : (UInt8.ofNat (data.length % 256)).toNat = data.length % 256 :=
    UInt8.toNat_ofNat_of_lt (show data.length % 256 < 256 by omega)
  have h₁ : (UInt8.ofNat (data.length / 256 % 256)).toNat = data.length / 256 % 256 :=
    UInt8.toNat_ofNat_of_lt (show data.length / 256 % 256 < 256 by omega)
  have h₂ : (UInt8.ofNat (data.length / 65536)).toNat = data.length / 65536 :=
    UInt8.toNat_ofNat_of_lt (show data.length / 65536 < 256 by omega)
  have e₁ : (frameBytes type data ++ rest).getD 1 0 = UInt8.ofNat (data.length % 256) := rfl
  have e₂ : (frameBytes type data ++ rest).getD (1 + 1) 0 = UInt8.ofNat (data.length / 256 % 256) := rfl
  have e₃ : (frameBytes type data ++ rest).getD (1 + 2) 0 = UInt8.ofNat (data.length / 65536) := rfl
  unfold getFrameSize
  rw [e₁, e₂, e₃, h₀, h₁, h₂, Nat.shiftLeft_eq, Nat.shiftLeft_eq]
  omega

variable {t : ChunkType}

theorem uncompressFrames_frame (htype : getChunkType type = .ok t) (hsize : data.length < 2 ^ 24) (rest result : Buffer)
    (found : Bool) :
    uncompressFrames codec (frameBytes type data ++ rest) found result =
      match uncompressFrame codec t data found with
      | .error error => .error error
      | .ok block => uncompressFrames codec rest true (result ++ block) := by
  have hlen := length_frameBytes type data
  have hget : (frameBytes type data ++ rest).getD 0 0 = type := rfl
  have hdata : ((frameBytes type data ++ rest).drop 4).take data.length = data := by
    rw [show (frameBytes type data ++ rest).drop 4 = data ++ rest from rfl, List.take_left]
  have hrest : (frameBytes type data ++ rest).drop (4 + data.length) = rest := by
    rw [← hlen, List.drop_left]
  rw [uncompressFrames, dif_neg (by rw [List.length_append]; omega), hget, htype]
  dsimp only
  rw [getFrameSize_frameBytes hsize, hdata, hrest]
  exact if_neg (by rw [List.length_append]; omega)

theorem uncompressFrames_take_frame (htype : getChunkType type = .ok t) (hsize : data.length < 2 ^ 24) {m : Nat}
    (hm : m < (frameBytes type data).length) (result : Buffer) (found : Bool) :
    uncompressFrames codec ((frameBytes type data).take m) found result =
      .ok (result, ⟨(frameBytes type data).take m, found⟩) := by
  have hlen := length_frameBytes type data
  rw [uncompressFrames]
  by_cases hshort : m < 4
  · rw [dif_pos (by rw [List.length_take]; omega)]
  · have hget : ∀ i, i < 4 → ((frameBytes type data).take m).getD i 0 = (frameBytes type data).getD i 0 := by
      intro i hi
      rw [List.getD_eq_getElem?_getD, List.getD_eq_getElem?_getD, List.getElem?_take_of_lt (by omega)]
    have hfirst : (frameBytes type data).getD 0 0 = type := rfl
    have hframe : getFrameSize (frameBytes type data ++ []) 1 = data.length := getFrameSize_frameBytes hsize []
    rw [List.append_nil] at hframe
    have hsize' : getFrameSize ((frameBytes type data).take m) 1 = data.length := by
      rw [← hframe]
      unfold getFrameSize
      rw [hget 1 (by omega), hget 2 (by omega), hget 3 (by omega)]
    rw [dif_neg (by rw [List.length_take]; omega), hget 0 (by omega), hfirst, htype]
    dsimp only
    rw [hsize', if_pos (by rw [List.length_take]; omega)]

theorem uncompressFrames_nil (result : Buffer) (found : Bool) :
    uncompressFrames codec [] found result = .ok (result, ⟨[], found⟩) := by
  rw [uncompressFrames, dif_pos (by decide)]

theorem uncompressFrames_frames : ∀ (frames : List Frame) (result : Buffer), (∀ f ∈ frames, f.Holds codec) →
    uncompressFrames codec (frames.flatMap Frame.bytes) true result =
      .ok (result ++ frames.flatMap Frame.block, ⟨[], true⟩)
  | [], result, _ => by
    rw [List.flatMap_nil, List.flatMap_nil, List.append_nil]
    exact uncompressFrames_nil result true
  | f :: frames, result, h => by
    have hf := h f (List.mem_cons_self ..)
    obtain ⟨t, htype, hblock⟩ := hf.reads
    have ih := uncompressFrames_frames frames (result ++ f.block) fun g hg => h g (List.mem_cons_of_mem _ hg)
    rw [List.flatMap_cons, List.flatMap_cons, Frame.bytes, uncompressFrames_frame htype hf.size, hblock]
    dsimp only
    rw [ih, List.append_assoc]

theorem uncompressFrames_take : ∀ (frames : List Frame) (result : Buffer) (m : Nat), (∀ f ∈ frames, f.Holds codec) →
    m < (frames.flatMap Frame.bytes).length →
    ∃ out d, uncompressFrames codec ((frames.flatMap Frame.bytes).take m) true result = .ok (out, d) ∧
      out.length < (result ++ frames.flatMap Frame.block).length
  | [], _, _, _, hm => by cases hm
  | f :: frames, result, m, h, hm => by
    have hf := h f (List.mem_cons_self ..)
    obtain ⟨t, htype, hblock⟩ := hf.reads
    have hpos : 0 < f.block.length := List.length_pos_iff.2 hf.block
    rw [List.flatMap_cons, List.length_append] at hm
    rw [List.flatMap_cons, List.flatMap_cons]
    by_cases hin : m < f.bytes.length
    · refine ⟨result, ⟨f.bytes.take m, true⟩, ?_, ?_⟩
      · rw [List.take_append_of_le_length (by omega)]
        exact uncompressFrames_take_frame htype hf.size hin result true
      · simp only [List.length_append]
        omega
    · obtain ⟨k, rfl⟩ : ∃ k, m = f.bytes.length + k := ⟨m - f.bytes.length, by omega⟩
      have htail : ∀ g ∈ frames, g.Holds codec := fun g hg => h g (List.mem_cons_of_mem _ hg)
      obtain ⟨out, d, hout, hlt⟩ := uncompressFrames_take frames (result ++ f.block) k htail (by omega)
      refine ⟨out, d, ?_, ?_⟩
      · rw [List.take_length_add_append, Frame.bytes, uncompressFrames_frame htype hf.size, hblock]
        exact hout
      · rwa [List.append_assoc] at hlt

/-! ## A frame stream -/

theorem uncompressFrames_identifier (codec : Codec ResponseBody) (rest : Buffer) :
    uncompressFrames codec (identifierFrame ++ rest) false [] = uncompressFrames codec rest true [] :=
  uncompressFrames_frame (t := .IDENTIFIER) (by decide) (by decide) rest [] false

section Stream
variable {data : Buffer} {chunks : List Buffer} {frames : List Frame}

theorem FrameStream.bodyVerdict_take (h : FrameStream codec data chunks frames) (hne : data ≠ []) {m : Nat}
    (hm : m < (identifierFrame ++ frames.flatMap Frame.bytes).length) :
    bodyVerdict codec data.length ((identifierFrame ++ frames.flatMap Frame.bytes).take m) = .wait := by
  have hpos : 0 < data.length := List.length_pos_iff.2 hne
  have hout : ∃ out d, uncompressFrames codec ((identifierFrame ++ frames.flatMap Frame.bytes).take m) false [] =
      .ok (out, d) ∧ out.length < data.length := by
    by_cases hin : m < identifierFrame.length
    · refine ⟨[], ⟨identifierFrame.take m, false⟩, ?_, hpos⟩
      rw [List.take_append_of_le_length (by omega)]
      exact uncompressFrames_take_frame (t := .IDENTIFIER) (by decide) (by decide) hin [] false
    · obtain ⟨k, rfl⟩ : ∃ k, m = identifierFrame.length + k := ⟨m - identifierFrame.length, by omega⟩
      rw [List.length_append] at hm
      obtain ⟨out, d, hread, hlt⟩ := uncompressFrames_take frames [] k h.holds (by omega)
      rw [List.nil_append, h.blocks] at hlt
      refine ⟨out, d, ?_, hlt⟩
      rw [List.take_length_add_append, uncompressFrames_identifier]
      exact hread
  obtain ⟨out, d, hread, hlt⟩ := hout
  unfold bodyVerdict
  have hlen := h.length
  rw [if_neg (by rw [List.length_take]; omega), hread]
  dsimp only
  rw [if_neg (by omega), if_pos hlt]

theorem FrameStream.bodyVerdict_whole (h : FrameStream codec data chunks frames) :
    bodyVerdict codec data.length (identifierFrame ++ frames.flatMap Frame.bytes) =
      .done data (identifierFrame ++ frames.flatMap Frame.bytes).length := by
  have hread : uncompressFrames codec (identifierFrame ++ frames.flatMap Frame.bytes) false [] = .ok (data, ⟨[], true⟩) := by
    rw [uncompressFrames_identifier, uncompressFrames_frames frames [] h.holds, List.nil_append, h.blocks]
  unfold bodyVerdict
  rw [if_neg (Nat.not_lt.2 h.length), hread]
  dsimp only
  rw [if_neg (Nat.lt_irrefl _), if_neg (Nat.lt_irrefl _)]

end Stream

end Lodestar.ReqResp
