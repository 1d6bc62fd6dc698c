import Lodestar.Lib.Utf8
import Lodestar.ReqResp.SnappyFrames
import Lodestar.StateTransition.Util
/-!
# Responses — the reader and the writer of a response

`response_chunk ::= <result> | <context-bytes> | <encoding-dependent-header> | <encoded-payload>`, any number of them one
after the other.  The reading generator yields a body for each and ends where the stream does, or throws; `Decoded` is all it
yields and what it throws.  The readers see the stream only through its pieces, so that a response is read by scans
(`responseDecode_cons`).

The writing generator yields every part of a `<response_chunk>` as a chunk of its own, the payload as the snappy stream cuts it.
`Library` is what is assumed of the varint, snappy and SSZ libraries: what they write they read back.
-/
namespace Lodestar.ReqResp

open Lib
open Lodestar.StateTransition (ForkName Version ChainConfig getForkName)

/-! ## The reader -/

section Decode

/-! ## Error messages -/

def encodeErrorMessage (errorMessage : String) : Buffer := (Utf8.encode errorMessage.toList).take 256

/-- The characters that `/[^\x20-\x7F]/g` leaves. -/
def isPrintable (c : Char) : Bool := decide (0x20 ≤ c.toNat ∧ c.toNat ≤ 0x7F)

def decodeErrorMessage (errorMessage : Buffer) : String :=
  String.ofList ((Utf8.decode (errorMessage.take 256)).filter isPrintable)

/-! ## The readers -/

/-- A result byte, `undefined` where a buffer had none, or the stream ended before it. -/
inductive ResultHeader
  | Status (status : Option UInt8)
  | StreamEnded
deriving DecidableEq, Repr

/-- Consumes a stream source to read a `<result>`.  `buffer.get(0)` of no bytes is `undefined`, which is not `null`, so the
loop returns at its first buffer. -/
def readResultHeader (s : BufferedSource) : Except Failure (ResultHeader × BufferedSource) :=
  forAwait (fun (_ : Unit) buffer => .return_ (.Status buffer.head?) (buffer.drop 1)) (.ok .StreamEnded) () s

/-- Consumes a stream source to read an optional `<error_response>?`.  The text decoder is not fatal, so the bytes are never
returned in hex. -/
def readErrorMessage (s : BufferedSource) : Except Failure (String × BufferedSource) :=
  forAwait (fun (_ : Unit) buffer =>
      -- the entire `<error_message>` is expected to be in the same chunk
      if buffer.length = 0 then .continue_ () buffer else .return_ (decodeErrorMessage buffer) buffer)
    (.ok "") () s

/-- Consumes a stream source to read `<context-bytes>`, where it's a fixed-width 4 byte. -/
def readContextBytesForkDigest (s : BufferedSource) : Except Failure (Buffer × BufferedSource) :=
  forAwait (fun (_ : Unit) buffer =>
      if CONTEXT_BYTES_FORK_DIGEST_LENGTH ≤ buffer.length then
        .return_ (buffer.take CONTEXT_BYTES_FORK_DIGEST_LENGTH) (buffer.drop CONTEXT_BYTES_FORK_DIGEST_LENGTH)
      else .continue_ () buffer)
    (.error (.Error "Source ended while reading context bytes")) () s

variable {ResponseBody : Type} (codec : Codec ResponseBody) (context : ForkDigestContext) (protocol : Protocol)

def readForkName (contextBytes : ContextBytesType) (s : BufferedSource) : Except Failure (ForkName × BufferedSource) :=
  match contextBytes with
  | .Empty => .ok (.phase0, s)
  | .ForkDigest => do
    let (forkDigest, s) ← readContextBytesForkDigest s
    let forkName ← forkDigest2ForkName context forkDigest
    return (forkName, s)

def readSuccess (s : BufferedSource) : Except Failure (ResponseBody × BufferedSource) := do
  let (forkName, s) ← readForkName context (contextBytesTypeByProtocol protocol) s
  let type := getResponseSzzTypeByMethod protocol forkName
  readEncodedPayload codec protocol.encoding type (deserializeToTreeByMethod protocol.method) s

/-- What a generator yields, and what it throws in the end. -/
structure Decoded (ResponseBody : Type) where
  bodies : List ResponseBody
  failure : Option Failure
deriving DecidableEq, Repr

variable {codec context protocol}

theorem readResultHeader_eq (s : BufferedSource) :
    readResultHeader s =
      if s.buffer = [] then
        match s.source with
        | [] => .ok (.StreamEnded, { s with isDone := true })
        | chunk :: source => .ok (.Status chunk.head?, ⟨s.isDone, chunk.drop 1, source⟩)
      else .ok (.Status s.buffer.head?, { s with buffer := s.buffer.drop 1 }) := by
  unfold readResultHeader forAwait
  split
  · rename_i hbuffer
    split
    · rename_i hsource
      rw [forAwaitFrom_done hsource (.inr hbuffer)]
      rfl
    · rename_i chunk source hsource
      rw [forAwaitFrom_fetch hsource (.inr hbuffer), hbuffer]
      rfl
  · rename_i hbuffer
    rw [forAwaitFrom_pending hbuffer]

variable {s s' : BufferedSource}

theorem readResultHeader_pending_lt {status : UInt8} (h : readResultHeader s = .ok (.Status (some status), s')) :
    s'.pending.length < s.pending.length := by
  have hdrop : ∀ {buffer : Buffer}, buffer.head? = some status → (buffer.drop 1).length < buffer.length := by
    intro buffer hhead
    cases buffer with
    | nil => cases hhead
    | cons byte bytes => simp
  rw [readResultHeader_eq] at h
  split at h
  · rename_i hbuffer
    split at h
    · cases h
    · rename_i chunk source hsource
      rw [Except.ok.injEq, Prod.mk.injEq, ResultHeader.Status.injEq] at h
      obtain ⟨hhead, rfl⟩ := h
      have hlt := hdrop hhead
      simp only [BufferedSource.pending, hbuffer, hsource, List.flatten_cons, List.length_append, List.length_nil]
      omega
  · rw [Except.ok.injEq, Prod.mk.injEq, ResultHeader.Status.injEq] at h
    obtain ⟨hhead, rfl⟩ := h
    have hlt := hdrop hhead
    simp only [BufferedSource.pending, List.length_append]
    omega

theorem readForkName_pending_le {contextBytes : ContextBytesType} {forkName : ForkName}
    (h : readForkName context contextBytes s = .ok (forkName, s')) : s'.pending.length ≤ s.pending.length := by
  cases contextBytes with
  | Empty =>
    cases h
    exact le_rfl
  | ForkDigest =>
    obtain ⟨⟨forkDigest, s₁⟩, hread, h⟩ := Lib.bind_eq_ok.1 h
    obtain ⟨name, -, h⟩ := Lib.bind_eq_ok.1 h
    cases h
    refine forAwait_pending_le ?_ hread
    intro state buffer
    dsimp only
    by_cases hlen : CONTEXT_BYTES_FORK_DIGEST_LENGTH ≤ buffer.length
    · rw [if_pos hlen]
      dsimp only
      rw [List.length_drop]
      omega
    · rw [if_neg hlen]

theorem readSuccess_pending_le {body : ResponseBody} (h : readSuccess codec context protocol s = .ok (body, s')) :
    s'.pending.length ≤ s.pending.length := by
  obtain ⟨⟨forkName, s₁⟩, hfork, h⟩ := Lib.bind_eq_ok.1 h
  exact le_trans (readSszSnappyPayload_pending_le h) (readForkName_pending_le hfork)

variable (codec context protocol)

def decodeFrom (s : BufferedSource) : Decoded ResponseBody :=
  if s.isDone then ⟨[], none⟩
  else
    match _h : readResultHeader s with
    | .error failure => ⟨[], some failure⟩
    -- stream is only allowed to end at the start of a `<response_chunk>` block
    | .ok (.StreamEnded, _) => ⟨[], none⟩
    | .ok (.Status status, s₁) =>
      if _hstatus : status ≠ some SUCCESS then
        match readErrorMessage s₁ with
        | .error failure => ⟨[], some failure⟩
        | .ok (errorMessage, _) => ⟨[], some (.ResponseError status errorMessage)⟩
      else
        match _h' : readSuccess codec context protocol s₁ with
        | .error failure => ⟨[], some failure⟩
        | .ok (body, s₂) =>
          let rest := decodeFrom s₂
          ⟨body :: rest.bodies, rest.failure⟩
termination_by s.pending.length
decreasing_by
  have hsome : status = some SUCCESS := by simpa using _hstatus
  subst hsome
  exact lt_of_le_of_lt (readSuccess_pending_le _h') (readResultHeader_pending_lt _h)

/-- Consumes a stream source to read a `<response>`. -/
def responseDecode (source : List Buffer) : Decoded ResponseBody := decodeFrom codec context protocol (.new source)

end Decode

/-! ## The writer -/

section Encode

structure Library (ResponseBody : Type) extends Codec ResponseBody where
  varintEncode : Nat → Buffer
  /-- `createCompressStream`, given all its data at once. -/
  compress : Buffer → List Buffer
  serialize : ResponseType → ResponseBody → Except String Buffer
  /-- `body.message.slot` of a block. -/
  messageSlot : ResponseBody → Nat
  IsValue : ResponseType → ResponseBody → Prop
  varintDecode_varintEncode : ∀ n, varintDecode (varintEncode n) = .ok (n, (varintEncode n).length)
  varintEncode_length : ∀ n, n ≤ MAX_SAFE_INTEGER → (varintEncode n).length ≤ MAX_VARINT_BYTES
  compress_frames : ∀ data, data ≠ [] → ∃ frames, FrameStream toCodec data (compress data) frames
  minSerializedLength_pos : ∀ type, 0 < getMinSerializedLength type
  maxSerializedLength_safe : ∀ type, getMaxSerializedLength type ≤ MAX_SAFE_INTEGER
  serialize_value : ∀ {type body}, IsValue type body → ∃ bytes, serialize type body = .ok bytes ∧
    getMinSerializedLength type ≤ bytes.length ∧ bytes.length ≤ getMaxSerializedLength type ∧
    deserialize type bytes = .ok body ∧ createTreeBackedFromBytes type bytes = .ok body

/-! ## The writers -/

structure Yielded where
  chunks : List Buffer
  failure : Option Failure
deriving DecidableEq, Repr

/-- `yield*` of one generator after another. -/
def Yielded.andThen (first next : Yielded) : Yielded :=
  match first.failure with
  | some _ => first
  | none => ⟨first.chunks ++ next.chunks, next.failure⟩

def Yielded.ofExcept (chunks : Except Failure (List Buffer)) : Yielded :=
  match chunks with
  | .error failure => ⟨[], some failure⟩
  | .ok chunks => ⟨chunks, none⟩

variable {ResponseBody : Type} (P : Preset) (config : ChainConfig) (context : ForkDigestContext) (lib : Library ResponseBody)
  (protocol : Protocol)

section

variable (body : ResponseBody)

def writeSszSnappyPayload (type : ResponseType) : Yielded :=
  match lib.serialize type body with
  | .error error => ⟨[], some (.SszSnappyError (.SERIALIZE_ERROR error))⟩
  | .ok serializedBody => ⟨lib.varintEncode serializedBody.length :: lib.compress serializedBody, none⟩

def writeEncodedPayload (encoding : Encoding) (type : ResponseType) : Yielded :=
  match encoding with
  | .SSZ_SNAPPY => writeSszSnappyPayload lib body type

/-- Yields byte chunks for a `<context-bytes>`.  This item is mandatory but may be empty. -/
def writeContextBytes (contextBytesType : ContextBytesType) (forkName : ForkName) : Yielded :=
  match contextBytesType with
  | .Empty => ⟨[], none⟩
  | .ForkDigest => .ofExcept ((forkName2ForkDigest context forkName).map fun forkDigest => [forkDigest.toList])

def getForkNameFromResponseBody : ForkName :=
  match protocol.method with
  | .Status | .Goodbye | .Ping | .Metadata => .phase0
  | .BeaconBlocksByRange | .BeaconBlocksByRoot => getForkName P config (lib.messageSlot body)

def encodeSuccess : Yielded :=
  let forkName := getForkNameFromResponseBody P config lib protocol body
  let type := getResponseSzzTypeByMethod protocol forkName
  (Yielded.mk [[SUCCESS]] none).andThen
    ((writeContextBytes context (contextBytesTypeByProtocol protocol) forkName).andThen
      (writeEncodedPayload lib body protocol.encoding type))

end

/-- Yields byte chunks for a `<response>` with a zero response code `<result>`. -/
def responseEncodeSuccess : List ResponseBody → Yielded
  | [] => ⟨[], none⟩
  | body :: bodies => (encodeSuccess P config context lib protocol body).andThen (responseEncodeSuccess bodies)

inductive RpcResponseStatusError
  | INVALID_REQUEST
  | SERVER_ERROR
  | RESOURCE_UNAVAILABLE
deriving DecidableEq, Repr

def RpcResponseStatusError.toByte : RpcResponseStatusError → UInt8
  | .INVALID_REQUEST => 1
  | .SERVER_ERROR => 2
  | .RESOURCE_UNAVAILABLE => 3

/-- Yields byte chunks for a `<response_chunk>` with a non-zero response code `<result>`. -/
def responseEncodeError (status : RpcResponseStatusError) (errorMessage : String) : List Buffer :=
  [status.toByte] :: if errorMessage ≠ "" then [encodeErrorMessage errorMessage] else []

/-- A response as `handleRequest` writes it: the bodies its handler yields, and the error it may end in. -/
def responseEncode (bodies : List ResponseBody) (error : Option (RpcResponseStatusError × String)) : Yielded :=
  (responseEncodeSuccess P config context lib protocol bodies).andThen
    ⟨error.elim [] fun e => responseEncodeError e.1 e.2, none⟩

/-! ## Fork digests -/

def configForks (genesisForkVersion : Version) : List (ForkName × Version) :=
  [(.phase0, genesisForkVersion), (.altair, config.ALTAIR_FORK_VERSION)]

end Encode

end Lodestar.ReqResp
