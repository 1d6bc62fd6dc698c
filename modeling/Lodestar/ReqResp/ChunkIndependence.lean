import Lodestar.ReqResp.ResponsePieces
/-!
# ChunkIndependence — which streams are read alike however they are cut

The result byte and the context bytes are read alike from any cut.  The other readers act on whatever has arrived: the error
message is read from the first piece of it, the length from the first piece of it, and the payload takes all of the piece
that completes it, whatever follows the payload in there.  So a stream is read alike from all its cuts exactly when each of
these verdicts is the same for every piece it may be given (`CutProof`); a response that another one follows never is.
-/
namespace Lodestar.ReqResp

open Lib
open Lodestar.StateTransition (ForkName)

variable {ResponseBody : Type} (codec : Codec ResponseBody) (context : ForkDigestContext) (protocol : Protocol)

/-! ## The condition -/

/-- The error message reads the same from every first piece of it. -/
def MessageSettled (message : Buffer) : Prop :=
  ∀ k, 0 < k → k ≤ message.length → decodeErrorMessage (message.take k) = decodeErrorMessage message

/-- The length reads the same from every first piece of the payload. -/
def HeaderSettled (type : ResponseType) (payload : Buffer) : Prop :=
  ∀ k, 0 < k → k ≤ payload.length → headerVerdict codec type (payload.take k) = headerVerdict codec type payload

/-- Before the last byte of the stream the body is not decided, or refused as it is in the end. -/
def BodySettled (type : ResponseType) (deserializeToTree : Bool) (sszDataLength : Nat) (body : Buffer) : Prop :=
  ∀ m, 0 < m → m < body.length →
    payloadVerdict codec type deserializeToTree sszDataLength (body.take m) = .wait ∨
    ∃ failure, payloadVerdict codec type deserializeToTree sszDataLength (body.take m) = .fail failure ∧
      payloadVerdict codec type deserializeToTree sszDataLength body = .fail failure

def PayloadSettled (type : ResponseType) (deserializeToTree : Bool) (payload : Buffer) : Prop :=
  HeaderSettled codec type payload ∧
  ∀ sszDataLength used, headerVerdict codec type payload = .done sszDataLength used →
    BodySettled codec type deserializeToTree sszDataLength (payload.drop used)

def forkNameOf (contextBytes : ContextBytesType) (bytes : Buffer) : Except Failure (ForkName × Buffer) :=
  match contextBytes with
  | .Empty => .ok (.phase0, bytes)
  | .ForkDigest =>
    if bytes.length < CONTEXT_BYTES_FORK_DIGEST_LENGTH then .error (.Error "Source ended while reading context bytes")
    else
      (forkDigest2ForkName context (bytes.take CONTEXT_BYTES_FORK_DIGEST_LENGTH)).map fun forkName =>
        (forkName, bytes.drop CONTEXT_BYTES_FORK_DIGEST_LENGTH)

/-- **No verdict on the stream depends on the pieces it arrives in.** -/
def CutProof (stream : Buffer) : Prop :=
  match stream with
  | [] => True
  | result :: bytes =>
    if result ≠ SUCCESS then MessageSettled bytes
    else
      match forkNameOf context (contextBytesTypeByProtocol protocol) bytes with
      | .error _ => True
      | .ok (forkName, payload) => PayloadSettled codec (getResponseSzzTypeByMethod protocol forkName)
          (deserializeToTreeByMethod protocol.method) payload

variable {codec context protocol}

/-! ## What is thrown where -/

def ofHeader : Failure → Bool
  | .RangeError _ => true
  | .SszSnappyError (.INVALID_VARINT_BYTES_COUNT _) => true
  | .SszSnappyError (.UNDER_SSZ_MIN_SIZE ..) => true
  | .SszSnappyError (.OVER_SSZ_MAX_SIZE ..) => true
  | _ => false

theorem headerVerdict_cases (codec : Codec ResponseBody) (type : ResponseType) (bytes : Buffer) :
    (∃ failure, headerVerdict codec type bytes = .fail failure ∧ ofHeader failure = true) ∨
    ∃ n used, headerVerdict codec type bytes = .done n used ∧ codec.varintDecode bytes = .ok (n, used) := by
  unfold headerVerdict
  split
  · exact .inl ⟨_, rfl, rfl⟩
  · rename_i n used hv
    split
    · exact .inl ⟨_, rfl, rfl⟩
    split
    · exact .inl ⟨_, rfl, rfl⟩
    split
    · exact .inl ⟨_, rfl, rfl⟩
    · exact .inr ⟨n, used, rfl, hv⟩

variable {type : ResponseType} {bytes bytes' stream payload : Buffer}

theorem headerVerdict_congr (h : codec.varintDecode bytes = codec.varintDecode bytes') :
    headerVerdict codec type bytes = headerVerdict codec type bytes' := by
  unfold headerVerdict
  rw [h]

variable {bytes : Buffer} {n used : Nat}

theorem headerVerdict_done (h : headerVerdict codec type bytes = .done n used) : codec.varintDecode bytes = .ok (n, used) := by
  rcases headerVerdict_cases codec type bytes with ⟨failure, hfail, -⟩ | ⟨n', used', hdone, hv⟩
  · rw [hfail] at h
    cases h
  · rw [hdone] at h
    cases h
    exact hv

variable {payload : Buffer} {k n used : Nat}

theorem headerVerdict_of_take (h : headerVerdict codec type (payload.take k) = .done n used) :
    headerVerdict codec type payload = .done n used := by
  have hv := headerVerdict_done h
  rw [← h]
  exact headerVerdict_congr ((codec.varintDecode_of_take hv).trans hv.symm)

theorem headerVerdict_take_used (h : headerVerdict codec type payload = .done n used) :
    headerVerdict codec type (payload.take used) = .done n used := by
  have hv := headerVerdict_done h
  have hfront := codec.varintDecode_front hv []
  rw [List.append_nil] at hfront
  rw [← h]
  exact headerVerdict_congr (hfront.trans hv.symm)

variable {tree : Bool} {failure : Failure}

theorem payloadVerdict_fail (h : payloadVerdict codec type tree n bytes = .fail failure) :
    ofHeader failure = false ∧ failure ≠ aborted := by
  unfold payloadVerdict bodyVerdict deserializeSszBody at h
  split at h
  · cases h
    exact ⟨rfl, by simp [aborted]⟩
  · split at h
    · cases h
      exact ⟨rfl, by simp [aborted]⟩
    · split at h
      · cases h
        exact ⟨rfl, by simp [aborted]⟩
      · split at h
        · cases h
        · simp only [Verdict.andThen] at h
          split at h
          · rename_i failure' hread
            cases h
            split at hread <;>
            · simp only [Except.mapError] at hread
              split at hread
              · cases hread
                exact ⟨rfl, by simp [aborted]⟩
              · cases hread
          · cases h

theorem payloadVerdict_done {body : ResponseBody} (h : payloadVerdict codec type tree n bytes = .done body used) :
    used = bytes.length := by
  unfold payloadVerdict bodyVerdict at h
  split at h
  · cases h
  · split at h
    · cases h
    · split at h
      · cases h
      · split at h
        · cases h
        · simp only [Verdict.andThen] at h
          split at h
          · cases h
          · cases h
            rfl

/-! ## The rest of a response after one of its chunks -/

section

variable (codec : Codec ResponseBody) (context : ForkDigestContext) (protocol : Protocol)

def finish (r : Except Failure (ResponseBody × List Buffer)) : Decoded ResponseBody :=
  match r with
  | .error failure => ⟨[], some failure⟩
  | .ok (body, pieces) => ⟨body :: (responseDecode codec context protocol pieces).bodies,
      (responseDecode codec context protocol pieces).failure⟩

def afterResult (result : UInt8) (pieces : List Buffer) : Decoded ResponseBody :=
  if result ≠ SUCCESS then ⟨[], some (.ResponseError (some result) (messageOf pieces))⟩
  else finish codec context protocol (scanSuccess codec context protocol pieces)

end

variable {result : UInt8} {pieces : List Buffer}

theorem responseDecode_afterResult (hne : ∀ piece ∈ pieces, piece ≠ []) :
    responseDecode codec context protocol ((result :: bytes) :: pieces) =
      afterResult codec context protocol result (requeue bytes pieces) := by
  rw [responseDecode_cons hne]
  rfl

theorem responseDecode_ne (hne : stream ≠ []) :
    responseDecode codec context protocol [stream] ≠ ⟨[], none⟩ := by
  obtain ⟨result, bytes, rfl⟩ : ∃ result bytes, stream = result :: bytes := List.exists_cons_of_ne_nil hne
  rw [responseDecode_afterResult (by simp)]
  unfold afterResult finish
  split
  · simp
  · split <;> simp

/-! ## Result and context bytes -/

theorem agrees_result (result : UInt8) (bytes : Buffer) :
    Agrees (responseDecode codec context protocol) (result :: bytes) ↔
      Agrees (afterResult codec context protocol result) bytes := by
  apply agrees_iff
  · intro P hP
    cases P with
    | nil => cases hP.flatten
    | cons piece pieces =>
      have hne := hP.nonempty piece (List.mem_cons_self ..)
      obtain ⟨byte, rest, rfl⟩ : ∃ byte rest, piece = byte :: rest := List.exists_cons_of_ne_nil hne
      have hflatten := hP.flatten
      obtain ⟨rfl, rfl⟩ := hflatten
      exact ⟨requeue rest pieces, hP.tail.requeue rest, responseDecode_afterResult hP.tail.nonempty⟩
  · intro P' hP'
    exact ⟨[result] :: P', Chunked.cons (by simp) hP', responseDecode_afterResult hP'.nonempty⟩

theorem agrees_message (hresult : result ≠ SUCCESS) (message : Buffer) :
    Agrees (afterResult codec context protocol result) message ↔ MessageSettled message := by
  have hafter : ∀ pieces, afterResult codec context protocol result pieces =
      ⟨[], some (.ResponseError (some result) (messageOf pieces))⟩ := fun pieces => if_pos hresult
  constructor
  · intro h k hpos hle
    rcases Nat.lt_or_eq_of_le hle with hlt | rfl
    · have hwhole : Chunked [message] message := Chunked.single (by rintro rfl; simp at hlt)
      have heq := h _ _ (Chunked.two hpos hlt) hwhole
      rw [hafter, hafter] at heq
      simpa [messageOf] using heq
    · rw [List.take_length]
  · intro h P Q hP hQ
    have hread : ∀ {P : List Buffer}, Chunked P message →
        messageOf P = if message = [] then "" else decodeErrorMessage message := by
      intro P hP
      cases P with
      | nil =>
        have hnil : message = [] := hP.flatten.symm
        rw [if_pos hnil]
        rfl
      | cons piece pieces =>
        obtain ⟨hpos, hle, htake, -⟩ := hP.head_eq_take
        have hne : ¬ message = [] := by
          rintro rfl
          exact absurd hpos (by simpa using hle)
        rw [if_neg hne, ← h _ hpos hle, ← htake]
        rfl
    rw [hafter, hafter, hread hP, hread hQ]

theorem scanForkName_chunked (context : ForkDigestContext) (contextBytes : ContextBytesType) (h : Chunked pieces bytes) :
    match forkNameOf context contextBytes bytes with
    | .error failure => scanForkName context contextBytes pieces = .error failure
    | .ok (forkName, payload) => ∃ pieces', Chunked pieces' payload ∧
        scanForkName context contextBytes pieces = .ok (forkName, pieces') := by
  cases contextBytes with
  | Empty => exact ⟨pieces, h, rfl⟩
  | ForkDigest =>
    have hscan := scan_andThen (fixedWidth CONTEXT_BYTES_FORK_DIGEST_LENGTH)
      (.error (.Error "Source ended while reading context bytes")) (forkDigest2ForkName context) [] pieces
    have hnone : ([] : Buffer).length < CONTEXT_BYTES_FORK_DIGEST_LENGTH := by decide
    have hfixed := scan_fixedWidth CONTEXT_BYTES_FORK_DIGEST_LENGTH
      (.error (Failure.Error "Source ended while reading context bytes")) h hnone
    rw [List.nil_append] at hfixed
    have hread : scanForkName context .ForkDigest pieces = _ := hscan
    unfold forkNameOf
    by_cases hshort : bytes.length < CONTEXT_BYTES_FORK_DIGEST_LENGTH
    · rw [if_pos hshort] at hfixed ⊢
      rw [hread, hfixed]
      rfl
    · rw [if_neg hshort] at hfixed ⊢
      obtain ⟨pieces', hchunked, hfixed⟩ := hfixed
      rw [hread, hfixed]
      cases hfork : forkDigest2ForkName context (bytes.take CONTEXT_BYTES_FORK_DIGEST_LENGTH) with
      | error failure => simp [hfork, bind, Except.bind, Except.map]
      | ok forkName => exact ⟨pieces', hchunked, by simp [hfork, bind, Except.bind, Except.map]⟩

theorem exists_context_piece {contextBytes : ContextBytesType} {forkName : ForkName}
    (hfork : forkNameOf context contextBytes bytes = .ok (forkName, payload)) (P : List Buffer) :
    ∃ pre, bytes = pre ++ payload ∧ scanForkName context contextBytes (requeue pre P) = .ok (forkName, P) := by
  cases contextBytes with
  | Empty =>
    cases hfork
    exact ⟨[], rfl, rfl⟩
  | ForkDigest =>
    unfold forkNameOf at hfork
    dsimp only at hfork
    split at hfork
    · cases hfork
    · rename_i hlong
      cases hd : forkDigest2ForkName context (bytes.take CONTEXT_BYTES_FORK_DIGEST_LENGTH) with
      | error failure => rw [hd] at hfork; cases hfork
      | ok name =>
        rw [hd] at hfork
        cases hfork
        refine ⟨bytes.take CONTEXT_BYTES_FORK_DIGEST_LENGTH, (List.take_append_drop ..).symm, ?_⟩
        have hlen : (bytes.take CONTEXT_BYTES_FORK_DIGEST_LENGTH).length = CONTEXT_BYTES_FORK_DIGEST_LENGTH := by
          rw [List.length_take]
          omega
        have hne : bytes.take CONTEXT_BYTES_FORK_DIGEST_LENGTH ≠ [] := by
          intro hnil
          rw [hnil] at hlen
          cases hlen
        have hv : contextVerdict context (bytes.take CONTEXT_BYTES_FORK_DIGEST_LENGTH) =
            .done forkName CONTEXT_BYTES_FORK_DIGEST_LENGTH := by
          unfold contextVerdict fixedWidth
          rw [if_pos (by omega), List.take_take, Nat.min_self]
          simp only [Verdict.andThen, hd]
        unfold scanForkName requeue
        rw [if_neg hne]
        rw [scan_cons_done hv, List.drop_eq_nil_of_le (by omega)]
        rfl

theorem agrees_context (bytes : Buffer) :
    Agrees (afterResult codec context protocol SUCCESS) bytes ↔
      match forkNameOf context (contextBytesTypeByProtocol protocol) bytes with
      | .error _ => True
      | .ok (forkName, payload) => Agrees (fun pieces => finish codec context protocol
          (scanPayload codec (getResponseSzzTypeByMethod protocol forkName) (deserializeToTreeByMethod protocol.method) pieces))
          payload := by
  cases hfork : forkNameOf context (contextBytesTypeByProtocol protocol) bytes with
  | error failure =>
    simp only [iff_true]
    have hread : ∀ P, Chunked P bytes → afterResult codec context protocol SUCCESS P = ⟨[], some failure⟩ := by
      intro P hP
      have h := scanForkName_chunked context (contextBytesTypeByProtocol protocol) hP
      rw [hfork] at h
      rw [afterResult, if_neg (by simp)]
      simp [scanSuccess, h, bind, Except.bind, finish]
    intro P Q hP hQ
    rw [hread P hP, hread Q hQ]
  | ok found =>
    apply agrees_iff
    · intro P hP
      have h := scanForkName_chunked context (contextBytesTypeByProtocol protocol) hP
      rw [hfork] at h
      obtain ⟨P', hP', h⟩ := h
      refine ⟨P', hP', ?_⟩
      rw [afterResult, if_neg (by simp)]
      simp [scanSuccess, h, bind, Except.bind]
    · intro P' hP'
      obtain ⟨pre, hbytes, hP⟩ := exists_context_piece hfork P'
      refine ⟨requeue pre P', hbytes ▸ hP'.requeue pre, ?_⟩
      rw [afterResult, if_neg (by simp)]
      simp [scanSuccess, hP, bind, Except.bind]

/-! ## The payload -/

variable {piece : Buffer}

theorem scanPayload_fail (h : headerVerdict codec type piece = .fail failure) :
    scanPayload codec type tree (piece :: pieces) = .error failure := by
  unfold scanPayload
  rw [scan_cons_fail h]
  rfl

theorem scanPayload_done (h : headerVerdict codec type piece = .done n used) :
    scanPayload codec type tree (piece :: pieces) =
      scan (payloadVerdict codec type tree n) (.error aborted) [] (requeue (piece.drop used) pieces) := by
  unfold scanPayload
  rw [scan_cons_done h]
  rfl

theorem finish_payload
    (h : finish codec context protocol (scan (payloadVerdict codec type tree n) (.error aborted) [] pieces) = ⟨[], some failure⟩) :
    ofHeader failure = false := by
  cases hscan : scan (payloadVerdict codec type tree n) (.error aborted) [] pieces with
  | error failure' =>
    rw [hscan] at h
    simp only [finish, Decoded.mk.injEq, Option.some.injEq, true_and] at h
    subst h
    rcases scan_eq_error hscan with hended | ⟨bytes, hv⟩
    · cases hended
      rfl
    · exact (payloadVerdict_fail hv).1
  | ok scanned =>
    rw [hscan] at h
    simp [finish] at h

theorem headerSettled_of_agrees
    (h : Agrees (fun pieces => finish codec context protocol (scanPayload codec type tree pieces)) payload) :
    HeaderSettled codec type payload := by
  intro k hpos hle
  rcases Nat.lt_or_eq_of_le hle with hlt | rfl
  · have hwhole : Chunked [payload] payload := Chunked.single (by rintro rfl; simp at hlt)
    have heq := h _ _ (Chunked.two hpos hlt) hwhole
    dsimp only at heq
    rcases headerVerdict_cases codec type (payload.take k) with ⟨failure, hfail, hof⟩ | ⟨n, used, hdone, -⟩
    · rw [scanPayload_fail hfail] at heq
      rcases headerVerdict_cases codec type payload with ⟨failure', hfail', -⟩ | ⟨n, used, hdone, -⟩
      · rw [scanPayload_fail hfail'] at heq
        simp only [finish, Decoded.mk.injEq, Option.some.injEq, true_and] at heq
        rw [hfail, hfail', heq]
      · rw [scanPayload_done hdone] at heq
        have hof' := finish_payload heq.symm
        rw [hof] at hof'
        cases hof'
    · rw [hdone, headerVerdict_of_take hdone]
  · rw [List.take_length]

variable {P : List Buffer}

theorem scanPayload_cut (tree : Bool) (hdone : headerVerdict codec type payload = .done n used) (hP : Chunked P (payload.drop used)) :
    Chunked (payload.take used :: P) payload ∧
      scanPayload codec type tree (payload.take used :: P) =
        scan (payloadVerdict codec type tree n) (.error aborted) [] P := by
  have hbounds := codec.varintDecode_used (headerVerdict_done hdone)
  have hne : payload.take used ≠ [] := by
    intro hnil
    have hlen := congrArg List.length hnil
    rw [List.length_take, List.length_nil] at hlen
    omega
  have hchunked := Chunked.cons hne hP
  rw [List.take_append_drop] at hchunked
  refine ⟨hchunked, ?_⟩
  rw [scanPayload_done (headerVerdict_take_used hdone), List.drop_eq_nil_of_le (by rw [List.length_take]; omega)]
  rfl

theorem HeaderSettled.firstPiece (h : HeaderSettled codec type payload) (hne : payload ≠ []) (hP : Chunked P payload) :
    ∃ piece pieces, P = piece :: pieces ∧ headerVerdict codec type piece = headerVerdict codec type payload ∧
      ∀ used, used ≤ piece.length → Chunked (requeue (piece.drop used) pieces) (payload.drop used) := by
  cases P with
  | nil => exact absurd hP.flatten.symm hne
  | cons piece pieces =>
    obtain ⟨hpos, hle, htake, -⟩ := hP.head_eq_take
    have hv := h _ hpos hle
    rw [← htake] at hv
    refine ⟨piece, pieces, rfl, hv, ?_⟩
    intro used hused
    have hchunked := hP.tail.requeue (piece.drop used)
    rwa [← List.drop_append_of_le_length hused, ← List.flatten_cons, hP.flatten] at hchunked

theorem agrees_header (type : ResponseType) (tree : Bool) (payload : Buffer) :
    Agrees (fun pieces => finish codec context protocol (scanPayload codec type tree pieces)) payload ↔
      HeaderSettled codec type payload ∧
      ∀ n used, headerVerdict codec type payload = .done n used →
        Agrees (fun pieces => finish codec context protocol
          (scan (payloadVerdict codec type tree n) (.error aborted) [] pieces)) (payload.drop used) := by
  constructor
  · intro h
    refine ⟨headerSettled_of_agrees h, ?_⟩
    intro n used hdone P Q hP hQ
    obtain ⟨hcutP, hreadP⟩ := scanPayload_cut tree hdone hP
    obtain ⟨hcutQ, hreadQ⟩ := scanPayload_cut tree hdone hQ
    have heq := h _ _ hcutP hcutQ
    dsimp only at heq
    rwa [hreadP, hreadQ] at heq
  · rintro ⟨hsettled, hbody⟩ P Q hP hQ
    by_cases hnil : payload = []
    · subst hnil
      rw [Chunked.nil_iff.1 hP, Chunked.nil_iff.1 hQ]
    obtain ⟨p, ps, rfl, hvP, hdropP⟩ := hsettled.firstPiece hnil hP
    obtain ⟨q, qs, rfl, hvQ, hdropQ⟩ := hsettled.firstPiece hnil hQ
    dsimp only
    rcases headerVerdict_cases codec type payload with ⟨failure, hfail, -⟩ | ⟨n, used, hdone, -⟩
    · rw [scanPayload_fail (hvP.trans hfail), scanPayload_fail (hvQ.trans hfail)]
    · have hp := hvP.trans hdone
      have hq := hvQ.trans hdone
      have husedP := (codec.varintDecode_used (headerVerdict_done hp)).2
      have husedQ := (codec.varintDecode_used (headerVerdict_done hq)).2
      rw [scanPayload_done hp, scanPayload_done hq]
      exact hbody n used hdone _ _ (hdropP used husedP) (hdropQ used husedQ)

def settledBody (v : Verdict Failure ResponseBody) : Decoded ResponseBody :=
  match v with
  | .wait => ⟨[], some aborted⟩
  | .fail failure => ⟨[], some failure⟩
  | .done body _ => ⟨[body], none⟩

theorem finish_single (type : ResponseType) (tree : Bool) (n : Nat) (body : Buffer) :
    finish codec context protocol (scan (payloadVerdict codec type tree n) (.error aborted) [] [body]) =
      settledBody (payloadVerdict codec type tree n body) := by
  unfold scan
  rw [List.nil_append]
  cases hv : payloadVerdict codec type tree n body with
  | wait => rfl
  | fail failure => rfl
  | done value used =>
    dsimp only
    rw [payloadVerdict_done hv, List.drop_length]
    simp only [requeue, if_true, finish, settledBody, responseDecode_nil]

variable {body : Buffer}

theorem bodySettled_of_agrees
    (h : Agrees (fun pieces => finish codec context protocol (scan (payloadVerdict codec type tree n) (.error aborted) [] pieces)) body) :
    BodySettled codec type tree n body := by
  intro m hpos hlt
  have hwhole : Chunked [body] body := Chunked.single (by rintro rfl; simp at hlt)
  have heq := h _ _ (Chunked.two hpos hlt) hwhole
  dsimp only at heq
  rw [finish_single] at heq
  cases hv : payloadVerdict codec type tree n (body.take m) with
  | wait => exact .inl rfl
  | fail failure =>
    right
    refine ⟨failure, rfl, ?_⟩
    rw [scan_cons_fail hv] at heq
    cases hw : payloadVerdict codec type tree n body with
    | wait =>
      rw [hw] at heq
      simp only [finish, settledBody, Decoded.mk.injEq, Option.some.injEq, true_and] at heq
      exact absurd heq (payloadVerdict_fail hv).2
    | fail failure' =>
      rw [hw] at heq
      simp only [finish, settledBody, Decoded.mk.injEq, Option.some.injEq, true_and] at heq
      rw [heq]
    | done value used =>
      rw [hw] at heq
      simp [finish, settledBody] at heq
  | done value used =>
    -- the rest of the stream would have to be read as the end of the response
    exfalso
    have hrest : body.drop m ≠ [] := by
      intro hnil
      have hlen := congrArg List.length hnil
      rw [List.length_drop, List.length_nil] at hlen
      omega
    rw [scan_cons_done hv, payloadVerdict_done hv, List.drop_length] at heq
    have hne : responseDecode codec context protocol [body.drop m] ≠ ⟨[], none⟩ := responseDecode_ne hrest
    cases hw : payloadVerdict codec type tree n body with
    | wait => rw [hw] at heq; simp [finish, settledBody, requeue] at heq
    | fail failure => rw [hw] at heq; simp [finish, settledBody, requeue] at heq
    | done value' used' =>
      rw [hw] at heq
      simp only [finish, settledBody, requeue, if_true, Decoded.mk.injEq, List.cons.injEq] at heq
      apply hne
      rw [← heq.1.2, ← heq.2]

theorem BodySettled.finish_eq (h : BodySettled codec type tree n body) (hne : body ≠ []) (hP : Chunked P body) :
    finish codec context protocol (scan (payloadVerdict codec type tree n) (.error aborted) [] P) =
      settledBody (payloadVerdict codec type tree n body) := by
  have hdecided := scan_decided (payloadVerdict codec type tree n) (.error aborted) [] hP
  rw [List.nil_append] at hdecided
  rcases hdecided with ⟨m, hpos, hle, hd⟩ | ⟨hw, he⟩
  · rcases Nat.lt_or_eq_of_le hle with hlt | rfl
    · rcases h m hpos hlt with hwait | ⟨failure, hfail, hend⟩
      · rcases hd with ⟨failure, hv, -⟩ | ⟨value, used, chunks, hv, -⟩
        · rw [hwait] at hv
          cases hv
        · rw [hwait] at hv
          cases hv
      · rcases hd with ⟨failure', hv, hr⟩ | ⟨value, used, chunks, hv, -⟩
        · rw [hfail] at hv
          cases hv
          rw [hr, hend]
          rfl
        · rw [hfail] at hv
          cases hv
    · rw [Decided, List.take_length, List.drop_length] at hd
      rcases hd with ⟨failure, hv, hr⟩ | ⟨value, used, chunks, hv, hchunked, hr⟩
      · rw [hv, hr]
        rfl
      · rw [payloadVerdict_done hv, List.drop_length, List.append_nil, Chunked.nil_iff] at hchunked
        rw [hv, hr, hchunked]
        simp only [finish, settledBody, responseDecode_nil]
  · rw [hw.resolve_left hne, he]
    rfl

theorem agrees_body (type : ResponseType) (tree : Bool) (n : Nat) (body : Buffer) :
    Agrees (fun pieces => finish codec context protocol
        (scan (payloadVerdict codec type tree n) (.error aborted) [] pieces)) body ↔
      BodySettled codec type tree n body := by
  refine ⟨bodySettled_of_agrees, fun h => ?_⟩
  by_cases hnil : body = []
  · subst hnil
    exact agrees_nil _
  · intro P Q hP hQ
    dsimp only
    rw [h.finish_eq hnil hP, h.finish_eq hnil hQ]

/-- **A response stream is read alike from all its cuts exactly when no verdict on it depends on the pieces it arrives
in.** -/
theorem responseDecode_agrees_iff (codec : Codec ResponseBody) (context : ForkDigestContext) (protocol : Protocol)
    (stream : Buffer) :
    (∀ P Q : List Buffer, Chunked P stream → Chunked Q stream →
      responseDecode codec context protocol P = responseDecode codec context protocol Q) ↔
    CutProof codec context protocol stream := by
  change Agrees (responseDecode codec context protocol) stream ↔ _
  cases stream with
  | nil =>
    simp only [CutProof, iff_true]
    exact agrees_nil _
  | cons result bytes =>
    rw [agrees_result]
    unfold CutProof
    dsimp only
    by_cases hresult : result = SUCCESS
    · subst hresult
      rw [if_neg (by simp), agrees_context]
      cases forkNameOf context (contextBytesTypeByProtocol protocol) bytes with
      | error failure => rfl
      | ok found =>
        dsimp only
        rw [agrees_header]
        unfold PayloadSettled
        simp only [agrees_body]
    · rw [if_pos hresult, agrees_message hresult]

/-! ## Two responses in one chunk -/

/-- Reads pings, a `uint64` each; no frame of theirs is compressed. -/
def pingCodec : Codec Nat where
  varintDecode := Varint.decode
  snappyUncompress _ := .error "Invalid Snappy bitstream"
  getMinSerializedLength _ := 8
  getMaxSerializedLength _ := 8
  deserialize _ bytes := .ok (StateTransition.bytesToBigInt bytes)
  createTreeBackedFromBytes _ bytes := .ok (StateTransition.bytesToBigInt bytes)
  varintDecode_used := Varint.decode_used
  varintDecode_front := Varint.decode_front

def pingV1 : Protocol := ⟨.Ping, .V1, .SSZ_SNAPPY⟩

/-- The result byte, the length, the identifier of a frame stream and one uncompressed frame that holds the number 1. -/
def pingResponse : Buffer :=
  [0x00, 0x08, 0xff, 0x06, 0x00, 0x00, 0x73, 0x4e, 0x61, 0x50, 0x70, 0x59,
    0x01, 0x0c, 0x00, 0x00, 0x01, 0x75, 0xde, 0x41, 0x01, 0x00, 0x00, 0x00, 0x00, 0x00, 0x00, 0x00]

/-- Two responses are read as two when each comes in a chunk of its own, and not at all when they share one. -/
theorem responseDecode_shared_chunk :
    Chunked [pingResponse, pingResponse] (pingResponse ++ pingResponse) ∧
    Chunked [pingResponse ++ pingResponse] (pingResponse ++ pingResponse) ∧
    responseDecode pingCodec ⟨.empty, .empty⟩ pingV1 [pingResponse, pingResponse] = ⟨[1, 1], none⟩ ∧
    responseDecode pingCodec ⟨.empty, .empty⟩ pingV1 [pingResponse ++ pingResponse] =
      ⟨[], some (.SszSnappyError (.TOO_MUCH_BYTES_READ 54 8))⟩ := by
  refine ⟨⟨rfl, ?_⟩, ⟨rfl, ?_⟩, ?_, ?_⟩
  · simp [pingResponse]
  · simp [pingResponse]
  · decide +kernel
  · decide +kernel

end Lodestar.ReqResp
