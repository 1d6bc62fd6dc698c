import Lodestar.ReqResp.ResponsePieces
/-!
# RoundTrip — what is read of a written response

The writer takes the SSZ type of a body from the fork of its slot, the reader from the context bytes, and where a protocol
has none it takes the type of phase0.  Where both take the same type, a body is read as it was written, whatever follows it
(`responseDecode_encodeSuccess`), and so is a whole response.
-/
namespace Lodestar.ReqResp

open Lib
open Lodestar.StateTransition (ForkName Version ChainConfig getForkName)

variable {ResponseBody : Type} {P : Preset} {config : ChainConfig} {context : ForkDigestContext} {lib : Library ResponseBody}
  {protocol : Protocol}

/-! ## The payload -/

variable {type : ResponseType}

theorem headerVerdict_varintEncode {n : Nat} (hmin : lib.getMinSerializedLength type ≤ n)
    (hmax : n ≤ lib.getMaxSerializedLength type) :
    headerVerdict lib.toCodec type (lib.varintEncode n) = .done n (lib.varintEncode n).length := by
  have hsafe := le_trans hmax (lib.maxSerializedLength_safe type)
  unfold headerVerdict
  rw [lib.varintDecode_varintEncode]
  dsimp only
  rw [if_neg (Nat.not_lt.2 (lib.varintEncode_length n hsafe)), if_neg (Nat.not_lt.2 hmin), if_neg (Nat.not_lt.2 hmax)]

variable {data : Buffer}

theorem scan_compress (type : ResponseType) (tree : Bool) (hne : data ≠ []) (more : List Buffer) :
    scan (payloadVerdict lib.toCodec type tree data.length) (.error aborted) [] (lib.compress data ++ more) =
      (deserializeSszBody lib.toCodec data type tree).map fun body => (body, more) := by
  obtain ⟨frames, hframes⟩ := lib.compress_frames data hne
  have hstream : identifierFrame ++ frames.flatMap Frame.bytes ≠ [] := by simp [identifierFrame, frameBytes]
  have hwait : ∀ m, m < (identifierFrame ++ frames.flatMap Frame.bytes).length →
      payloadVerdict lib.toCodec type tree data.length ((identifierFrame ++ frames.flatMap Frame.bytes).take m) = .wait := by
    intro m hm
    unfold payloadVerdict
    rw [hframes.bodyVerdict_take hne hm]
    rfl
  have hscan := scan_append (payloadVerdict lib.toCodec type tree data.length) (.error aborted) more []
    hframes.chunked hstream (fun m _ hm => hwait m hm)
  rw [hscan, List.nil_append]
  unfold payloadVerdict
  rw [hframes.bodyVerdict_whole]
  simp only [Verdict.andThen]
  cases hbody : deserializeSszBody lib.toCodec data type tree with
  | error failure => simp [Except.map]
  | ok body => simp [Except.map, requeue]

theorem scanPayload_written (tree : Bool) (hmin : lib.getMinSerializedLength type ≤ data.length)
    (hmax : data.length ≤ lib.getMaxSerializedLength type) (more : List Buffer) :
    scanPayload lib.toCodec type tree (lib.varintEncode data.length :: lib.compress data ++ more) =
      (deserializeSszBody lib.toCodec data type tree).map fun body => (body, more) := by
  have hne : data ≠ [] := by
    rintro rfl
    have hpos := lib.minSerializedLength_pos type
    rw [List.length_nil] at hmin
    omega
  unfold scanPayload
  rw [List.cons_append, scan_cons_done (headerVerdict_varintEncode hmin hmax), List.drop_length]
  exact scan_compress type tree hne more

/-! ## Context bytes -/

/-- The fork a reader takes a chunk for that was written for another. -/
def receivedFork (context : ForkDigestContext) (contextBytesType : ContextBytesType) (forkName : ForkName) :
    Except Failure ForkName :=
  match contextBytesType with
  | .Empty => .ok .phase0
  | .ForkDigest => forkName2ForkDigest context forkName >>= fun forkDigest => forkDigest2ForkName context forkDigest.toList

variable {contextBytesType : ContextBytesType} {forkName forkName' : ForkName}

theorem scanForkName_written {chunks : List Buffer} (h : writeContextBytes context contextBytesType forkName = ⟨chunks, none⟩)
    (more : List Buffer) :
    scanForkName context contextBytesType (chunks ++ more) =
      (receivedFork context contextBytesType forkName).map fun name => (name, more) := by
  cases contextBytesType with
  | Empty =>
    cases h
    rfl
  | ForkDigest =>
    unfold writeContextBytes at h
    cases hdigest : forkName2ForkDigest context forkName with
    | error failure =>
      rw [hdigest] at h
      cases h
    | ok forkDigest =>
      rw [hdigest] at h
      cases h
      have hlen : forkDigest.toList.length = CONTEXT_BYTES_FORK_DIGEST_LENGTH := by simp [CONTEXT_BYTES_FORK_DIGEST_LENGTH]
      have hfixed : fixedWidth (ε := Failure) CONTEXT_BYTES_FORK_DIGEST_LENGTH forkDigest.toList =
          .done forkDigest.toList CONTEXT_BYTES_FORK_DIGEST_LENGTH := by
        unfold fixedWidth
        rw [if_pos (by omega), List.take_of_length_le (by omega)]
      unfold scanForkName receivedFork
      rw [hdigest]
      cases hname : forkDigest2ForkName context forkDigest.toList with
      | error failure =>
        have hv : contextVerdict context forkDigest.toList = .fail failure := by
          simp [contextVerdict, hfixed, Verdict.andThen, hname]
        rw [List.singleton_append, scan_cons_fail hv]
        simp [bind, Except.bind, Except.map, hname]
      | ok name =>
        have hv : contextVerdict context forkDigest.toList = .done name CONTEXT_BYTES_FORK_DIGEST_LENGTH := by
          simp [contextVerdict, hfixed, Verdict.andThen, hname]
        rw [List.singleton_append, scan_cons_done hv, List.drop_eq_nil_of_le (by omega)]
        simp [bind, Except.bind, Except.map, hname, requeue]

section Digests
variable (computeForkDigest : Version → Root → ForkDigest) (config : ChainConfig) (genesisForkVersion : Version) (root : Root)

def contextOf : ForkDigestContext := .new computeForkDigest (configForks config genesisForkVersion) root

def DigestsDiffer : Prop := computeForkDigest genesisForkVersion root ≠ computeForkDigest config.ALTAIR_FORK_VERSION root

variable {computeForkDigest config genesisForkVersion root}

theorem get?_ofBytes (known : OrderedMap ForkDigest ForkName) (forkDigest : ForkDigest) :
    (if h : forkDigest.toList.toArray.size = 4 then known.get? ⟨forkDigest.toList.toArray, h⟩ else none) =
      known.get? forkDigest := by
  have hsize : forkDigest.toList.toArray.size = 4 := by simp
  rw [dif_pos hsize]
  congr 1

theorem forkName2ForkDigest_contextOf (forkName : ForkName) :
    forkName2ForkDigest (contextOf computeForkDigest config genesisForkVersion root) forkName =
      .ok (match forkName with
        | .phase0 => computeForkDigest genesisForkVersion root
        | .altair => computeForkDigest config.ALTAIR_FORK_VERSION root) := by
  unfold forkName2ForkDigest contextOf ForkDigestContext.new configForks
  cases forkName with
  | phase0 => simp [OrderedMap.get?_set]
  | altair => simp [OrderedMap.get?_set]

theorem forkDigest2ForkName_contextOf (forkName : ForkName) (hfork : forkName = .altair ∨
    DigestsDiffer computeForkDigest config genesisForkVersion root) :
    forkDigest2ForkName (contextOf computeForkDigest config genesisForkVersion root)
      (match forkName with
        | .phase0 => computeForkDigest genesisForkVersion root
        | .altair => computeForkDigest config.ALTAIR_FORK_VERSION root).toList = .ok forkName := by
  unfold forkDigest2ForkName
  rw [get?_ofBytes]
  cases forkName with
  | phase0 =>
    have hdiffer := hfork.resolve_left (by decide)
    unfold DigestsDiffer at hdiffer
    simp [contextOf, ForkDigestContext.new, configForks, OrderedMap.get?_set, hdiffer]
  | altair => simp [contextOf, ForkDigestContext.new, configForks, OrderedMap.get?_set]

end Digests

/-! ## One body -/

def ValidBody (P : Preset) (config : ChainConfig) (lib : Library ResponseBody) (protocol : Protocol) (body : ResponseBody) :
    Prop :=
  lib.IsValue (getResponseSzzTypeByMethod protocol (getForkNameFromResponseBody P config lib protocol body)) body

def SameType (P : Preset) (config : ChainConfig) (context : ForkDigestContext) (lib : Library ResponseBody)
    (protocol : Protocol) (body : ResponseBody) : Prop :=
  ∃ forkName, receivedFork context (contextBytesTypeByProtocol protocol)
      (getForkNameFromResponseBody P config lib protocol body) = .ok forkName ∧
    getResponseSzzTypeByMethod protocol forkName =
      getResponseSzzTypeByMethod protocol (getForkNameFromResponseBody P config lib protocol body)

theorem writeContextBytes_of_received (h : receivedFork context contextBytesType forkName = .ok forkName') :
    ∃ chunks, writeContextBytes context contextBytesType forkName = ⟨chunks, none⟩ ∧ ∀ chunk ∈ chunks, chunk ≠ [] := by
  cases contextBytesType with
  | Empty => exact ⟨[], rfl, by simp⟩
  | ForkDigest =>
    obtain ⟨forkDigest, hdigest, -⟩ := Lib.bind_eq_ok.1 h
    refine ⟨[forkDigest.toList], ?_, ?_⟩
    · unfold writeContextBytes
      rw [hdigest]
      rfl
    · intro chunk hchunk
      have hlen : forkDigest.toList.length = 4 := by simp
      rw [List.mem_singleton.1 hchunk]
      intro hnil
      rw [hnil] at hlen
      cases hlen

variable {body : ResponseBody}

theorem responseDecode_written {bytes : Buffer}
    (hserialize : lib.serialize (getResponseSzzTypeByMethod protocol (getForkNameFromResponseBody P config lib protocol body)) body = .ok bytes)
    (hreceived : receivedFork context (contextBytesTypeByProtocol protocol) (getForkNameFromResponseBody P config lib protocol body) = .ok forkName')
    (hmin : lib.getMinSerializedLength (getResponseSzzTypeByMethod protocol forkName') ≤ bytes.length)
    (hmax : bytes.length ≤ lib.getMaxSerializedLength (getResponseSzzTypeByMethod protocol forkName')) :
    ∃ chunks, encodeSuccess P config context lib protocol body = ⟨chunks, none⟩ ∧ (∀ chunk ∈ chunks, chunk ≠ []) ∧
      ∀ more : List Buffer, (∀ chunk ∈ more, chunk ≠ []) →
        responseDecode lib.toCodec context protocol (chunks ++ more) =
          match deserializeSszBody lib.toCodec bytes (getResponseSzzTypeByMethod protocol forkName')
            (deserializeToTreeByMethod protocol.method) with
          | .error failure => ⟨[], some failure⟩
          | .ok value => ⟨value :: (responseDecode lib.toCodec context protocol more).bodies,
              (responseDecode lib.toCodec context protocol more).failure⟩ := by
  obtain ⟨contextChunks, hcontext, hcontextNe⟩ := writeContextBytes_of_received hreceived
  have hencode : encodeSuccess P config context lib protocol body =
      ⟨[SUCCESS] :: (contextChunks ++ (lib.varintEncode bytes.length :: lib.compress bytes)), none⟩ := by
    simp only [encodeSuccess, writeEncodedPayload, writeSszSnappyPayload, hserialize, hcontext, Yielded.andThen,
      List.singleton_append]
  have hne : bytes ≠ [] := by
    rintro rfl
    have hpos := lib.minSerializedLength_pos (getResponseSzzTypeByMethod protocol forkName')
    rw [List.length_nil] at hmin
    omega
  have hvarint : lib.varintEncode bytes.length ≠ [] := by
    intro hnil
    have hused := (lib.varintDecode_used (lib.varintDecode_varintEncode bytes.length)).1
    rw [hnil] at hused
    cases hused
  obtain ⟨frames, hframes⟩ := lib.compress_frames bytes hne
  have hchunks : ∀ chunk ∈ contextChunks ++ (lib.varintEncode bytes.length :: lib.compress bytes), chunk ≠ [] := by
    intro chunk hchunk
    rcases List.mem_append.1 hchunk with hc | hc
    · exact hcontextNe chunk hc
    · rcases List.mem_cons.1 hc with rfl | hc
      · exact hvarint
      · exact hframes.chunked.nonempty chunk hc
  refine ⟨_, hencode, ?_, ?_⟩
  · intro chunk hchunk
    rcases List.mem_cons.1 hchunk with rfl | hc
    · simp
    · exact hchunks chunk hc
  · intro more hmore
    have hscan : scanSuccess lib.toCodec context protocol
        (contextChunks ++ (lib.varintEncode bytes.length :: lib.compress bytes ++ more)) =
          (deserializeSszBody lib.toCodec bytes (getResponseSzzTypeByMethod protocol forkName')
            (deserializeToTreeByMethod protocol.method)).map fun value => (value, more) := by
      unfold scanSuccess
      rw [scanForkName_written hcontext, hreceived]
      exact scanPayload_written _ hmin hmax more
    rw [List.cons_append, responseDecode_cons, if_neg (by simp)]
    · simp only [requeue, if_true, List.append_assoc]
      rw [hscan]
      cases deserializeSszBody lib.toCodec bytes (getResponseSzzTypeByMethod protocol forkName')
        (deserializeToTreeByMethod protocol.method) <;> rfl
    · intro piece hp
      rcases List.mem_append.1 hp with hp | hp
      · exact hchunks piece hp
      · exact hmore piece hp

theorem responseDecode_encodeSuccess (hvalid : ValidBody P config lib protocol body)
    (hsame : SameType P config context lib protocol body) :
    ∃ chunks, encodeSuccess P config context lib protocol body = ⟨chunks, none⟩ ∧ (∀ chunk ∈ chunks, chunk ≠ []) ∧
      ∀ more : List Buffer, (∀ chunk ∈ more, chunk ≠ []) →
        responseDecode lib.toCodec context protocol (chunks ++ more) =
          ⟨body :: (responseDecode lib.toCodec context protocol more).bodies,
            (responseDecode lib.toCodec context protocol more).failure⟩ := by
  obtain ⟨forkName', hreceived, htype⟩ := hsame
  obtain ⟨bytes, hserialize, hmin, hmax, hread, htree⟩ := lib.serialize_value hvalid
  have hdeserialize : deserializeSszBody lib.toCodec bytes (getResponseSzzTypeByMethod protocol forkName')
      (deserializeToTreeByMethod protocol.method) = .ok body := by
    unfold deserializeSszBody
    rw [htype]
    split <;> simp [hread, htree, Except.mapError]
  obtain ⟨chunks, hencode, hne, hdecode⟩ := responseDecode_written hserialize hreceived (htype ▸ hmin) (htype ▸ hmax)
  refine ⟨chunks, hencode, hne, ?_⟩
  intro more hmore
  rw [hdecode more hmore, hdeserialize]

theorem responseDecode_responseEncodeSuccess : ∀ (bodies : List ResponseBody),
    (∀ body ∈ bodies, ValidBody P config lib protocol body) →
    (∀ body ∈ bodies, SameType P config context lib protocol body) →
    ∃ chunks, responseEncodeSuccess P config context lib protocol bodies = ⟨chunks, none⟩ ∧
      ∀ more : List Buffer, (∀ chunk ∈ more, chunk ≠ []) → (∀ chunk ∈ chunks ++ more, chunk ≠ []) ∧
        responseDecode lib.toCodec context protocol (chunks ++ more) =
          ⟨bodies ++ (responseDecode lib.toCodec context protocol more).bodies,
            (responseDecode lib.toCodec context protocol more).failure⟩
  | [], _, _ => ⟨[], rfl, fun more hmore => ⟨hmore, rfl⟩⟩
  | body :: bodies, hvalid, hsame => by
    obtain ⟨first, hfirst, hne, hread⟩ :=
      responseDecode_encodeSuccess (hvalid body (List.mem_cons_self ..)) (hsame body (List.mem_cons_self ..))
    obtain ⟨rest, hrest, ih⟩ := responseDecode_responseEncodeSuccess bodies
      (fun b hb => hvalid b (List.mem_cons_of_mem _ hb)) (fun b hb => hsame b (List.mem_cons_of_mem _ hb))
    refine ⟨first ++ rest, by simp only [responseEncodeSuccess, hfirst, hrest, Yielded.andThen], ?_⟩
    intro more hmore
    obtain ⟨hrestNe, hdecode⟩ := ih more hmore
    refine ⟨?_, ?_⟩
    · rw [List.append_assoc]
      intro chunk hchunk
      rcases List.mem_append.1 hchunk with hc | hc
      · exact hne chunk hc
      · exact hrestNe chunk hc
    · rw [List.append_assoc, hread _ hrestNe, hdecode]
      rfl

/-! ## Errors -/

def receivedMessage (errorMessage : String) : String :=
  String.ofList ((((Utf8.encode errorMessage.toList).take 256).map fun byte => Char.ofNat byte.toNat).filter isPrintable)

theorem isPrintable_bounds (c : Char) (h : isPrintable c = true) : 0 < c.toNat ∧ c.toNat < 0x80 := by
  unfold isPrintable at h
  rw [decide_eq_true_eq] at h
  omega

theorem decodeErrorMessage_encodeErrorMessage (errorMessage : String) :
    decodeErrorMessage (encodeErrorMessage errorMessage) = receivedMessage errorMessage := by
  unfold decodeErrorMessage encodeErrorMessage receivedMessage
  rw [List.take_take, Nat.min_self, Utf8.decode, Utf8.filter_decodeFrom isPrintable_bounds _ none (by simp)]

/-- **A message arrives as it was sent exactly when it is printable and has at most 256 characters.** -/
theorem receivedMessage_eq_iff (errorMessage : String) :
    receivedMessage errorMessage = errorMessage ↔
      errorMessage.toList.length ≤ 256 ∧ ∀ c ∈ errorMessage.toList, isPrintable c = true := by
  unfold receivedMessage
  constructor
  · intro h
    have hlist := congrArg String.toList h
    rw [String.toList_ofList] at hlist
    refine ⟨?_, ?_⟩
    · rw [← hlist]
      refine le_trans (List.length_filter_le ..) ?_
      rw [List.length_map, List.length_take]
      omega
    · intro c hc
      rw [← hlist] at hc
      exact (List.mem_filter.1 hc).2
  · rintro ⟨hlen, hprintable⟩
    have hascii : ∀ c ∈ errorMessage.toList, c.toNat < 0x80 := fun c hc => (isPrintable_bounds c (hprintable c hc)).2
    have hbytes : (Utf8.encode errorMessage.toList).length ≤ 256 := by
      rw [Utf8.encode_ascii hascii, List.length_map]
      exact hlen
    rw [List.take_of_length_le hbytes, Utf8.map_encode_ascii hascii, List.filter_eq_self.2 hprintable, String.ofList_toList]

theorem encodeErrorMessage_ne_nil {errorMessage : String} (h : errorMessage ≠ "") : encodeErrorMessage errorMessage ≠ [] := by
  have hlist : errorMessage.toList ≠ [] := by
    intro hnil
    apply h
    rw [← String.ofList_toList (s := errorMessage), hnil]
  obtain ⟨c, cs, hcons⟩ := List.exists_cons_of_ne_nil hlist
  have hchar : 0 < (String.utf8EncodeChar c).length := by
    unfold String.utf8EncodeChar
    dsimp only
    split
    · simp
    split
    · simp
    split <;> simp
  have hpos : 0 < (Utf8.encode errorMessage.toList).length := by
    unfold Utf8.encode
    rw [hcons, List.flatMap_cons, List.length_append]
    omega
  intro hnil
  have hlen := congrArg List.length hnil
  unfold encodeErrorMessage at hlen
  rw [List.length_take, List.length_nil] at hlen
  omega

theorem responseDecode_responseEncodeError (codec : Codec ResponseBody) (context : ForkDigestContext) (protocol : Protocol)
    (status : RpcResponseStatusError) (errorMessage : String) :
    (∀ chunk ∈ responseEncodeError status errorMessage, chunk ≠ []) ∧
    responseDecode codec context protocol (responseEncodeError status errorMessage) =
      ⟨[], some (.ResponseError (some status.toByte) (receivedMessage errorMessage))⟩ := by
  have hstatus : status.toByte ≠ SUCCESS := by cases status <;> decide
  unfold responseEncodeError
  by_cases hempty : errorMessage = ""
  · rw [if_neg (by simpa using hempty)]
    refine ⟨by simp, ?_⟩
    rw [responseDecode_cons (by simp), if_pos hstatus, hempty]
    rfl
  · have hne := encodeErrorMessage_ne_nil hempty
    rw [if_pos hempty]
    refine ⟨?_, ?_⟩
    · intro chunk hchunk
      rcases List.mem_cons.1 hchunk with rfl | hc
      · simp
      · rw [List.mem_singleton.1 hc]
        exact hne
    · rw [responseDecode_cons (by simpa using hne), if_pos hstatus]
      simp only [requeue, if_true, messageOf, decodeErrorMessage_encodeErrorMessage]

/-! ## Responses -/

def isBlocksMethod : Method → Bool
  | .BeaconBlocksByRange | .BeaconBlocksByRoot => true
  | .Status | .Goodbye | .Ping | .Metadata => false

section Response
variable {computeForkDigest : Version → Root → ForkDigest} {genesisForkVersion : Version} {root : Root}

theorem sameType_of_phase0 {body : ResponseBody} (hdigests : DigestsDiffer computeForkDigest config genesisForkVersion root)
    (hphase0 : isBlocksMethod protocol.method = true → protocol.version = .V1 →
      getForkNameFromResponseBody P config lib protocol body = .phase0) :
    SameType P config (contextOf computeForkDigest config genesisForkVersion root) lib protocol body := by
  cases hblocks : isBlocksMethod protocol.method with
  | false =>
    refine ⟨.phase0, ?_, ?_⟩
    · unfold contextBytesTypeByProtocol
      cases hm : protocol.method <;> rw [hm] at hblocks <;> first | rfl | cases hblocks
    · unfold getResponseSzzTypeByMethod
      cases hm : protocol.method <;> rw [hm] at hblocks <;> first | rfl | cases hblocks
  | true =>
    refine ⟨getForkNameFromResponseBody P config lib protocol body, ?_, rfl⟩
    cases hversion : protocol.version with
    | V1 =>
      have hcontext : contextBytesTypeByProtocol protocol = .Empty := by
        unfold contextBytesTypeByProtocol
        rw [hversion]
        cases protocol.method <;> rfl
      rw [hcontext, hphase0 hblocks hversion]
      rfl
    | V2 =>
      have hcontext : contextBytesTypeByProtocol protocol = .ForkDigest := by
        unfold contextBytesTypeByProtocol
        rw [hversion]
        cases hm : protocol.method <;> rw [hm] at hblocks <;> first | rfl | cases hblocks
      rw [hcontext]
      unfold receivedFork
      rw [forkName2ForkDigest_contextOf]
      exact forkDigest2ForkName_contextOf _ (.inr hdigests)

/-- **A response is read as it was written**, but for what of an error message is not printable or beyond 256 bytes. -/
theorem responseDecode_responseEncode (hdigests : DigestsDiffer computeForkDigest config genesisForkVersion root)
    {bodies : List ResponseBody} (hvalid : ∀ body ∈ bodies, ValidBody P config lib protocol body)
    (hphase0 : isBlocksMethod protocol.method = true → protocol.version = .V1 →
      ∀ body ∈ bodies, getForkNameFromResponseBody P config lib protocol body = .phase0)
    (error : Option (RpcResponseStatusError × String)) :
    (responseEncode P config (contextOf computeForkDigest config genesisForkVersion root) lib protocol bodies error).failure =
      none ∧
    responseDecode lib.toCodec (contextOf computeForkDigest config genesisForkVersion root) protocol
      (responseEncode P config (contextOf computeForkDigest config genesisForkVersion root) lib protocol bodies error).chunks =
      ⟨bodies, error.map fun e => .ResponseError (some e.1.toByte) (receivedMessage e.2)⟩ ∧
    ∀ e, error = some e → (receivedMessage e.2 = e.2 ↔
      e.2.toList.length ≤ 256 ∧ ∀ c ∈ e.2.toList, isPrintable c = true) := by
  have hsame : ∀ body ∈ bodies,
      SameType P config (contextOf computeForkDigest config genesisForkVersion root) lib protocol body :=
    fun body hb => sameType_of_phase0 hdigests fun hblocks hv1 => hphase0 hblocks hv1 body hb
  obtain ⟨chunks, hencode, hread⟩ := responseDecode_responseEncodeSuccess bodies hvalid hsame
  refine ⟨?_, ?_, fun e _ => receivedMessage_eq_iff e.2⟩
  · unfold responseEncode
    rw [hencode]
    rfl
  · unfold responseEncode
    rw [hencode]
    simp only [Yielded.andThen]
    cases error with
    | none =>
      have hnil := (hread [] (by simp)).2
      simpa [responseDecode_nil] using hnil
    | some e =>
      obtain ⟨hne, herror⟩ := responseDecode_responseEncodeError lib.toCodec
        (contextOf computeForkDigest config genesisForkVersion root) protocol e.1 e.2
      have hdecode := (hread _ hne).2
      rw [herror, List.append_nil] at hdecode
      exact hdecode

end Response

/-! ## Libraries that can be run

Numbers and blocks all of whose other fields are zero or empty; a writer of snappy frames that compresses nothing. -/

def checksum (block : Buffer) : Buffer :=
  let crcBit (c : UInt32) : UInt32 := if c &&& 1 = 1 then (c >>> 1) ^^^ 0x82f63b78 else c >>> 1
  let crc := ~~~ block.foldl (fun c byte => crcBit^[8] (c ^^^ byte.toUInt32)) 0xffffffff
  let masked := ((crc >>> 15) ||| (crc <<< 17)) + 0xa282ead8
  [masked.toUInt8, (masked >>> 8).toUInt8, (masked >>> 16).toUInt8, (masked >>> 24).toUInt8]

def blocksOf (data : Buffer) : List Buffer :=
  if data.length ≤ 65536 then [data] else data.take 65536 :: blocksOf (data.drop 65536)
termination_by data.length
decreasing_by
  rw [List.length_drop]
  omega

def plainFrame (block : Buffer) : Frame := ⟨0x01, checksum block ++ block, block⟩

def plainCompress (data : Buffer) : List Buffer := identifierFrame :: (blocksOf data).map fun block => (plainFrame block).bytes

example : plainCompress [0x01, 0x00, 0x00, 0x00, 0x00, 0x00, 0x00, 0x00] =
    [[0xff, 0x06, 0x00, 0x00, 0x73, 0x4e, 0x61, 0x50, 0x70, 0x59],
      [0x01, 0x0c, 0x00, 0x00, 0x01, 0x75, 0xde, 0x41, 0x01, 0x00, 0x00, 0x00, 0x00, 0x00, 0x00, 0x00]] := by decide +kernel

theorem blocksOf_spec (data : Buffer) (hne : data ≠ []) :
    (∀ block ∈ blocksOf data, block ≠ [] ∧ block.length ≤ 65536) ∧ (blocksOf data).flatten = data ∧
      ((blocksOf data).flatMap fun block => (plainFrame block).bytes).length ≤ 8 + data.length + data.length / 6 := by
  have hframe : ∀ block : Buffer, (plainFrame block).bytes.length = 8 + block.length := by
    simp only [plainFrame, Frame.bytes, frameBytes, checksum, List.length_cons, List.length_append, List.length_nil]
    omega
  fun_induction blocksOf data with
  | case1 data hle =>
    refine ⟨?_, by simp, ?_⟩
    · intro block hblock
      rw [List.mem_singleton.1 hblock]
      exact ⟨hne, hle⟩
    · rw [List.flatMap_singleton, hframe]
      omega
  | case2 data hlong ih =>
    have hlen : (data.drop 65536).length = data.length - 65536 := List.length_drop ..
    have hdrop : data.drop 65536 ≠ [] := by
      intro hnil
      rw [hnil] at hlen
      simp only [List.length_nil] at hlen
      omega
    have htake : (data.take 65536).length = 65536 := by
      rw [List.length_take]
      omega
    obtain ⟨hblocks, hflatten, hlength⟩ := ih hdrop
    refine ⟨?_, ?_, ?_⟩
    · intro block hblock
      rcases List.mem_cons.1 hblock with rfl | hb
      · refine ⟨?_, by omega⟩
        intro hnil
        rw [hnil] at htake
        cases htake
      · exact hblocks block hb
    · rw [List.flatten_cons, hflatten, List.take_append_drop]
    · rw [List.flatMap_cons, List.length_append, hframe, htake]
      omega

theorem plainCompress_frames (codec : Codec ResponseBody) (data : Buffer) (hne : data ≠ []) :
    FrameStream codec data (plainCompress data) ((blocksOf data).map plainFrame) := by
  obtain ⟨hblocks, hflatten, hlength⟩ := blocksOf_spec data hne
  have hbytes : ((blocksOf data).map plainFrame).flatMap Frame.bytes =
      (blocksOf data).flatMap fun block => (plainFrame block).bytes := by rw [List.flatMap_map]
  refine ⟨⟨?_, ?_⟩, ?_, ?_, ?_⟩
  · rw [plainCompress, List.flatten_cons, hbytes, List.flatMap]
  · intro chunk hchunk
    rcases List.mem_cons.1 hchunk with rfl | hc
    · simp [identifierFrame, frameBytes]
    · obtain ⟨block, -, rfl⟩ := List.mem_map.1 hc
      simp [Frame.bytes, frameBytes]
  · intro f hf
    obtain ⟨block, hblock, rfl⟩ := List.mem_map.1 hf
    obtain ⟨hblockNe, hsize⟩ := hblocks block hblock
    refine ⟨?_, ⟨.UNCOMPRESSED, rfl, ?_⟩, hblockNe⟩
    · simp only [plainFrame, checksum, List.length_append, List.length_cons, List.length_nil]
      omega
    · rfl
  · rw [List.flatMap_map]
    conv => rhs; rw [← hflatten]
    rw [List.flatMap]
    congr 1
    exact List.map_id _
  · rw [hbytes, List.length_append]
    have hid : identifierFrame.length = 10 := by decide
    unfold maxEncodedLen
    omega

inductive PlainBody
  | number (bytes : Vector UInt8 8)
  | block (forkName : ForkName) (slot : Vector UInt8 8)
deriving DecidableEq

def offsetBytes (n : Nat) : Buffer := [UInt8.ofNat n, UInt8.ofNat (n / 256), 0, 0]

def plainBlockBody (forkName : ForkName) : Buffer :=
  match forkName with
  | .phase0 => List.replicate 200 0 ++ (List.replicate 5 (offsetBytes 220)).flatten
  | .altair => List.replicate 200 0 ++ (List.replicate 5 (offsetBytes 380)).flatten ++ List.replicate 160 0

def plainBlock (forkName : ForkName) (slot : Buffer) : Buffer :=
  offsetBytes 100 ++ List.replicate 96 0 ++ slot ++ List.replicate 72 0 ++ offsetBytes 84 ++ plainBlockBody forkName

def eightBytes (bytes : Buffer) : Vector UInt8 8 := Vector.ofFn fun i => bytes.getD i 0

theorem eightBytes_toList (bytes : Vector UInt8 8) : eightBytes bytes.toList = bytes := by
  apply Vector.ext
  simp [eightBytes]

def plainSerialize : ResponseType → PlainBody → Except String Buffer
  | .Ping, .number bytes | .Goodbye, .number bytes => .ok bytes.toList
  | .SignedBeaconBlock forkName, .block _ slot => .ok (plainBlock forkName slot.toList)
  | _, _ => .error "Cannot convert undefined or null to object"

def plainDeserialize : ResponseType → Buffer → Except String PlainBody
  | .Ping, bytes | .Goodbye, bytes => .ok (.number (eightBytes bytes))
  | .SignedBeaconBlock forkName, bytes =>
    let slot := (bytes.drop 100).take 8
    if bytes = plainBlock forkName slot then .ok (.block forkName (eightBytes slot))
    else .error "Offset into fixed-size data"
  | _, _ => .error "Unexpected type"

/-- The offsets of a tree are used as they are: a reader of phase0 blocks passes over the sync aggregate that stands before the
five lists of an altair block. -/
def plainTreeBacked : ResponseType → Buffer → Except String PlainBody
  | .SignedBeaconBlock .phase0, bytes =>
    let slot := (bytes.drop 100).take 8
    if bytes = plainBlock .altair slot then .ok (.block .phase0 (eightBytes slot))
    else plainDeserialize (.SignedBeaconBlock .phase0) bytes
  | type, bytes => plainDeserialize type bytes

def PlainValue : ResponseType → PlainBody → Prop
  | .Ping, .number _ | .Goodbye, .number _ => True
  | .SignedBeaconBlock forkName, .block forkName' _ => forkName = forkName'
  | _, _ => False

def plainMinLength : ResponseType → Nat
  | .Status => 84
  | .Goodbye | .Ping => 8
  | .Metadata .phase0 => 16
  | .Metadata .altair => 17
  | .SignedBeaconBlock .phase0 => 404
  | .SignedBeaconBlock .altair => 564

def plainMaxLength : ResponseType → Nat
  | .SignedBeaconBlock .phase0 => 157656
  | .SignedBeaconBlock .altair => 157816
  | type => plainMinLength type

section

variable (forkName : ForkName) (slot : Vector UInt8 8)

theorem length_plainBlock : (plainBlock forkName slot.toList).length = plainMinLength (.SignedBeaconBlock forkName) := by
  have hfront : (offsetBytes 100 ++ List.replicate 96 (0 : UInt8)).length = 100 := by decide
  have hmiddle : (List.replicate 72 (0 : UInt8)).length = 72 := by decide
  have hoffset : (offsetBytes 84).length = 4 := by decide
  have hslot : slot.toList.length = 8 := by simp
  have hbody : (plainBlockBody forkName).length + 184 = plainMinLength (.SignedBeaconBlock forkName) := by
    cases forkName <;> decide +kernel
  unfold plainBlock
  rw [List.length_append, List.length_append, List.length_append, List.length_append, hfront, hmiddle, hoffset, hslot]
  omega

theorem plainBlock_slot : ((plainBlock forkName slot.toList).drop 100).take 8 = slot.toList := by
  have hcut : ∀ front middle rest : Buffer, front.length = 100 → middle.length = 8 →
      ((front ++ (middle ++ rest)).drop 100).take 8 = middle := by
    intro front middle rest hfront hmiddle
    rw [← hfront, List.drop_left, ← hmiddle, List.take_left]
  unfold plainBlock
  rw [List.append_assoc, List.append_assoc, List.append_assoc]
  exact hcut _ _ _ (by decide) (by simp)

theorem plainDeserialize_plainBlock :
    plainDeserialize (.SignedBeaconBlock forkName) (plainBlock forkName slot.toList) = .ok (.block forkName slot) := by
  unfold plainDeserialize
  dsimp only
  rw [plainBlock_slot, if_pos rfl, eightBytes_toList]

end

theorem plainSerialize_value {body : PlainBody} (h : PlainValue type body) :
    ∃ bytes, plainSerialize type body = .ok bytes ∧ plainMinLength type ≤ bytes.length ∧ bytes.length ≤ plainMaxLength type ∧
      plainDeserialize type bytes = .ok body ∧ plainTreeBacked type bytes = .ok body := by
  cases body with
  | number bytes =>
    have hnumber : plainDeserialize .Ping bytes.toList = .ok (.number bytes) := by
      simp [plainDeserialize, eightBytes_toList]
    cases type with
    | Ping => exact ⟨_, rfl, by simp [plainMinLength], by simp [plainMaxLength, plainMinLength], hnumber, hnumber⟩
    | Goodbye => exact ⟨_, rfl, by simp [plainMinLength], by simp [plainMaxLength, plainMinLength], hnumber, hnumber⟩
    | Status => cases h
    | Metadata forkName => cases h
    | SignedBeaconBlock forkName => cases h
  | block forkName' slot =>
    cases type with
    | SignedBeaconBlock forkName =>
      obtain rfl : forkName = forkName' := h
      have hlen := length_plainBlock forkName slot
      have hread := plainDeserialize_plainBlock forkName slot
      refine ⟨_, rfl, by omega, ?_, hread, ?_⟩
      · rw [hlen]
        cases forkName <;> decide
      · cases forkName with
        | phase0 =>
          unfold plainTreeBacked
          dsimp only
          rw [if_neg]
          · exact hread
          · intro heq
            have hlengths := congrArg List.length heq
            rw [hlen, plainBlock_slot, length_plainBlock] at hlengths
            cases hlengths
        | altair => exact hread
    | Ping => cases h
    | Goodbye => cases h
    | Status => cases h
    | Metadata forkName => cases h

def plainLibrary : Library PlainBody where
  varintDecode := Varint.decode
  snappyUncompress _ := .error "Invalid Snappy bitstream"
  getMinSerializedLength := plainMinLength
  getMaxSerializedLength := plainMaxLength
  deserialize := plainDeserialize
  createTreeBackedFromBytes := plainTreeBacked
  varintDecode_used := Varint.decode_used
  varintDecode_front := Varint.decode_front
  varintEncode := Varint.encode
  compress := plainCompress
  serialize := plainSerialize
  messageSlot
    | .number _ => 0
    | .block _ slot => StateTransition.bytesToBigInt slot.toList
  IsValue := PlainValue
  varintDecode_varintEncode := Varint.decode_encode
  varintEncode_length n h := Varint.length_encode_le (Nat.lt_of_le_of_lt h (by decide))
  compress_frames data hne := ⟨_, plainCompress_frames _ data hne⟩
  minSerializedLength_pos type := by
    cases type with
    | Metadata forkName => cases forkName <;> decide
    | SignedBeaconBlock forkName => cases forkName <;> decide
    | _ => decide
  maxSerializedLength_safe type := by
    cases type with
    | Metadata forkName => cases forkName <;> decide
    | SignedBeaconBlock forkName => cases forkName <;> decide
    | _ => decide
  serialize_value := plainSerialize_value

def slotBytes (slot : UInt8) : Vector UInt8 8 := #v[slot, 0, 0, 0, 0, 0, 0, 0]

def forkAtOne : ChainConfig := StateTransition.minimalConfig 1

def plainContext : ForkDigestContext := contextOf (fun version _ => version) forkAtOne minimalForkVersion zeroRoot

def blocksV1 : Protocol := ⟨.BeaconBlocksByRange, .V1, .SSZ_SNAPPY⟩

def blocksV2 : Protocol := ⟨.BeaconBlocksByRange, .V2, .SSZ_SNAPPY⟩

/-- Blocks on both sides of the fork over version 2, then an error. -/
theorem responseDecode_responseEncode_throughFork :
    responseDecode plainLibrary.toCodec plainContext blocksV2
      (responseEncode mainnet forkAtOne plainContext plainLibrary blocksV2
        [.block .phase0 (slotBytes 31), .block .altair (slotBytes 32)] (some (.SERVER_ERROR, "TEST_ERROR"))).chunks =
      ⟨[.block .phase0 (slotBytes 31), .block .altair (slotBytes 32)],
        some (.ResponseError (some 2) (receivedMessage "TEST_ERROR"))⟩ := by
  have hdigests : DigestsDiffer (fun version _ => version) forkAtOne minimalForkVersion zeroRoot := by
    unfold DigestsDiffer
    decide
  have hvalid : ∀ body ∈ [PlainBody.block .phase0 (slotBytes 31), .block .altair (slotBytes 32)],
      ValidBody mainnet forkAtOne plainLibrary blocksV2 body := by
    intro body hbody
    rcases List.mem_cons.1 hbody with rfl | hbody
    · change ForkName.phase0 = _
      decide
    · rw [List.mem_singleton.1 hbody]
      change ForkName.altair = _
      decide
  exact (responseDecode_responseEncode hdigests hvalid (fun _ h => by cases h) (some (.SERVER_ERROR, "TEST_ERROR"))).2.1

/-- Version 1 serves an altair block as one and reads it as a block of phase0, which is not the one sent; a character that is not
printable does not arrive. -/
theorem responseDecode_altair_over_V1 :
    (blocksV1.method, blocksV1.version, blocksV1.encoding) ∈ protocolsSupported ∧
    ValidBody mainnet forkAtOne plainLibrary blocksV1 (.block .altair (slotBytes 32)) ∧
    (responseEncode mainnet forkAtOne plainContext plainLibrary blocksV1 [.block .altair (slotBytes 32)] none).failure = none ∧
    responseDecode plainLibrary.toCodec plainContext blocksV1
      (responseEncode mainnet forkAtOne plainContext plainLibrary blocksV1 [.block .altair (slotBytes 32)] none).chunks =
      ⟨[.block .phase0 (slotBytes 32)], none⟩ ∧
    responseDecode plainLibrary.toCodec plainContext blocksV1
      (responseEncode mainnet forkAtOne plainContext plainLibrary blocksV1 [] (some (.SERVER_ERROR, "TEST_ERROR\u03A9"))).chunks =
      ⟨[], some (.ResponseError (some 2) "TEST_ERROR")⟩ := by
  refine ⟨by decide, ?_, ?_, ?_, ?_⟩
  · change ForkName.altair = _
    decide
  · decide +kernel
  · decide +kernel
  · decide +kernel

end Lodestar.ReqResp
