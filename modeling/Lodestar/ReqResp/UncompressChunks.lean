import Lodestar.ReqResp.ChunkIndependence
/-!
# UncompressChunks — the decompressor and the cuts of its input

Fed a stream in chunks, the decompressor puts out in all what it puts out for the stream in one chunk, keeps the same bytes, and
throws the same error if it throws (`feed_new`).  What it keeps is never a whole frame.
-/
namespace Lodestar.ReqResp

open Lib

variable {ResponseBody : Type} {codec : Codec ResponseBody}

namespace SnappyFramesUncompress

/-- The calls of `uncompress`, a chunk each: all they put out, and the state they leave; or what the first to throw throws. -/
def feed (codec : Codec ResponseBody) (d : SnappyFramesUncompress) : List Buffer → Except String (Buffer × SnappyFramesUncompress)
  | [] => .ok ([], d)
  | chunk :: chunks => do
    let (output, d) ← d.uncompress codec chunk
    let (rest, d) ← feed codec d chunks
    return (output.getD [] ++ rest, d)

/-- The buffer starts with all the bytes of a frame. -/
def WholeFrame (buffer : Buffer) : Prop := 4 ≤ buffer.length ∧ 4 + getFrameSize buffer 1 ≤ buffer.length

theorem uncompressFrames_rest {buffer : Buffer} {found : Bool} {result output : Buffer} {d : SnappyFramesUncompress}
    (h : uncompressFrames codec buffer found result = .ok (output, d)) :
    ¬ WholeFrame d.buffer ∧ uncompressFrames codec d.buffer d.foundIdentifier [] = .ok ([], d) := by
  fun_induction uncompressFrames codec buffer found result with
  | case1 buffer found result hlen =>
    cases h
    exact ⟨fun hwhole => Nat.not_lt.2 hwhole.1 hlen, by rw [uncompressFrames, dif_pos hlen]⟩
  | case2 buffer found result hlen error htype => cases h
  | case3 buffer found result hlen type htype frameSize hshort =>
    cases h
    constructor
    · intro hwhole
      have hsize : 4 + frameSize ≤ buffer.length := hwhole.2
      omega
    · rw [uncompressFrames, dif_neg hlen, htype]
      exact if_pos hshort
  | case4 buffer found result hlen type htype frameSize data hlong error hframe => cases h
  | case5 buffer found result hlen type htype frameSize data hlong uncompressed hframe ih => exact ih h

theorem feed_eq : ∀ (chunks : List Buffer) {d : SnappyFramesUncompress},
    uncompressFrames codec d.buffer d.foundIdentifier [] = .ok ([], d) →
    feed codec d chunks = uncompressFrames codec (d.buffer ++ chunks.flatten) d.foundIdentifier []
  | [], d, hrest => by
    rw [List.flatten_nil, List.append_nil, hrest]
    rfl
  | chunk :: chunks, d, hrest => by
    have hchunk := @SnappyFramesUncompress.uncompress_eq _ codec d chunk
    have hwhole := uncompressFrames_append_eq codec (d.buffer ++ chunk) d.foundIdentifier [] chunks.flatten
    rw [List.flatten_cons, ← List.append_assoc, hwhole, ← hchunk]
    unfold feed
    cases hcall : d.uncompress codec chunk with
    | error error => rfl
    | ok r =>
      obtain ⟨output, d'⟩ := r
      rw [hcall] at hchunk
      have hnext := feed_eq chunks (uncompressFrames_rest hchunk.symm).2
      have hresult := uncompressFrames_result codec (d'.buffer ++ chunks.flatten) d'.foundIdentifier (output.getD []) []
      rw [List.append_nil] at hresult
      show (feed codec d' chunks >>= fun r => pure (output.getD [] ++ r.1, r.2)) =
        uncompressFrames codec (d'.buffer ++ chunks.flatten) d'.foundIdentifier (output.getD [])
      rw [hnext, hresult]
      cases uncompressFrames codec (d'.buffer ++ chunks.flatten) d'.foundIdentifier [] <;> rfl

theorem feed_new (codec : Codec ResponseBody) (chunks : List Buffer) :
    feed codec .new chunks = uncompressFrames codec chunks.flatten false [] :=
  feed_eq chunks (uncompressFrames_nil [] false)

/-- **The cuts do not matter**: however a stream is cut into chunks, the same is put out in all and the same bytes are kept, or the
same error is thrown; and what is kept starts with no whole frame. -/
theorem feed_chunked (codec : Codec ResponseBody) {stream : Buffer} {chunks chunks' : List Buffer} (h : Chunked chunks stream)
    (h' : Chunked chunks' stream) :
    feed codec .new chunks = feed codec .new chunks' ∧
      ∀ output d, feed codec .new chunks = .ok (output, d) → ¬ WholeFrame d.buffer := by
  have hfeed := feed_new codec chunks
  rw [h.flatten] at hfeed
  refine ⟨?_, fun output d houtput => ?_⟩
  · rw [hfeed, feed_new, h'.flatten]
  · rw [hfeed] at houtput
    exact (uncompressFrames_rest houtput).1

/-- The frames of a ping's response in one piece, and cut in the header of the second frame. -/
theorem feed_chunked_ping : feed pingCodec .new [pingResponse.drop 2] = .ok ([1, 0, 0, 0, 0, 0, 0, 0], ⟨[], true⟩) ∧
    feed pingCodec .new [pingResponse.drop 2] = feed pingCodec .new [(pingResponse.drop 2).take 11, pingResponse.drop 13] := by
  have hwhole : Chunked [pingResponse.drop 2] (pingResponse.drop 2) := Chunked.single (by decide)
  have hcut : Chunked [(pingResponse.drop 2).take 11, pingResponse.drop 13] (pingResponse.drop 2) := ⟨rfl, by decide⟩
  exact ⟨by decide +kernel, (feed_chunked pingCodec hwhole hcut).1⟩

end SnappyFramesUncompress

end Lodestar.ReqResp
