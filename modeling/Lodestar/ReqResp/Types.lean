import Lodestar.Lib.Numerals
import Lodestar.StateTransition.State
/-!
# ReqResp types — protocols, response types, fork digests and the errors of a response

The varint, snappy and SSZ libraries are `Codec`, functions of the bytes they are given.  The varint library reads a number
from the front of what it is given and reports how many bytes it took.
-/
namespace Lodestar.ReqResp

open Lib
open Lodestar.StateTransition (ForkName Version)

abbrev Buffer := List UInt8
abbrev ForkDigest := Vector UInt8 4

structure BeaconBlocksByRangeRequest where
  startSlot : Nat
  count : Nat
  step : Nat
deriving DecidableEq, Repr

inductive Method
  | Status
  | Goodbye
  | Ping
  | Metadata
  | BeaconBlocksByRange
  | BeaconBlocksByRoot
deriving DecidableEq, Repr

inductive RpcVersion
  | V1
  | V2
deriving DecidableEq, Repr

inductive Encoding
  | SSZ_SNAPPY
deriving DecidableEq, Repr

structure Protocol where
  method : Method
  version : RpcVersion
  encoding : Encoding
deriving DecidableEq, Repr

def protocolsSupported : List (Method × RpcVersion × Encoding) :=
  [(.Status, .V1, .SSZ_SNAPPY), (.Goodbye, .V1, .SSZ_SNAPPY), (.Ping, .V1, .SSZ_SNAPPY), (.Metadata, .V1, .SSZ_SNAPPY),
    (.Metadata, .V2, .SSZ_SNAPPY), (.BeaconBlocksByRange, .V1, .SSZ_SNAPPY), (.BeaconBlocksByRange, .V2, .SSZ_SNAPPY),
    (.BeaconBlocksByRoot, .V1, .SSZ_SNAPPY), (.BeaconBlocksByRoot, .V2, .SSZ_SNAPPY)]

def deserializeToTreeByMethod : Method → Bool
  | .Status | .Goodbye | .Ping | .Metadata => false
  | .BeaconBlocksByRange | .BeaconBlocksByRoot => true

def CONTEXT_BYTES_FORK_DIGEST_LENGTH : Nat := 4

inductive ContextBytesType
  | Empty
  | ForkDigest
deriving DecidableEq, Repr

/-- Meaning of the `<context-bytes>` chunk per protocol. -/
def contextBytesTypeByProtocol (protocol : Protocol) : ContextBytesType :=
  match protocol.method with
  | .Status | .Goodbye | .Ping | .Metadata => .Empty
  | .BeaconBlocksByRange | .BeaconBlocksByRoot =>
    match protocol.version with
    | .V1 => .Empty
    | .V2 => .ForkDigest

/-- The SSZ types of responses, `ssz.phase0.Status` and so on. -/
inductive ResponseType
  | Status
  | Goodbye
  | Ping
  | Metadata (fork : ForkName)
  | SignedBeaconBlock (fork : ForkName)
deriving DecidableEq, Repr

def getResponseSzzTypeByMethod (protocol : Protocol) (forkName : ForkName) : ResponseType :=
  match protocol.method with
  | .Status => .Status
  | .Goodbye => .Goodbye
  | .Ping => .Ping
  | .Metadata => .Metadata (if protocol.version = .V1 then .phase0 else .altair)
  | .BeaconBlocksByRange | .BeaconBlocksByRoot => .SignedBeaconBlock forkName

/-! ## Result codes and errors -/

def SUCCESS : UInt8 := 0

inductive SszSnappyError
  | INVALID_VARINT_BYTES_COUNT (bytes : Nat)
  | UNDER_SSZ_MIN_SIZE (minSize sszDataLength : Nat)
  | OVER_SSZ_MAX_SIZE (maxSize sszDataLength : Nat)
  | TOO_MUCH_BYTES_READ (readBytes sszDataLength : Nat)
  | DECOMPRESSOR_ERROR (decompressorError : String)
  | DESERIALIZE_ERROR (deserializeError : String)
  | SERIALIZE_ERROR (serializeError : String)
  | TOO_MANY_BYTES (sszDataLength : Nat)
  | SOURCE_ABORTED
deriving DecidableEq, Repr

/-- What a reader or a writer of responses throws.  The status of a `ResponseError` is `undefined` when no byte of it was
read. -/
inductive Failure
  | ResponseError (status : Option UInt8) (errorMessage : String)
  | SszSnappyError (error : SszSnappyError)
  | RangeError (message : String)
  | Error (message : String)
deriving DecidableEq, Repr

/-! ## Fork digests -/

structure ForkDigestContext where
  forkDigestByForkName : OrderedMap ForkName ForkDigest
  forkNameByForkDigest : OrderedMap ForkDigest ForkName

def ForkDigestContext.new (computeForkDigest : Version → Root → ForkDigest) (forks : List (ForkName × Version))
    (genesisValidatorsRoot : Root) : ForkDigestContext :=
  forks.foldl (fun context fork =>
    let forkDigest := computeForkDigest fork.2 genesisValidatorsRoot
    { forkNameByForkDigest := context.forkNameByForkDigest.set forkDigest fork.1,
      forkDigestByForkName := context.forkDigestByForkName.set fork.1 forkDigest }) ⟨.empty, .empty⟩

/-- The digest is a four-byte slice, or any other bytes, which no map entry has. -/
def forkDigest2ForkName (context : ForkDigestContext) (forkDigest : Buffer) : Except Failure ForkName :=
  let known := if h : forkDigest.toArray.size = 4 then context.forkNameByForkDigest.get? ⟨forkDigest.toArray, h⟩ else none
  match known with
  | some forkName => .ok forkName
  | none => .error (.Error ("Unknwon forkDigest " ++ String.ofList ((Hex.ofBytes forkDigest).toList.drop 2)))

def forkName2ForkDigest (context : ForkDigestContext) (forkName : ForkName) : Except Failure ForkDigest :=
  match context.forkDigestByForkName.get? forkName with
  | some forkDigest => .ok forkDigest
  | none =>
    let name := match forkName with
      | .phase0 => "phase0"
      | .altair => "altair"
    .error (.Error ("No precomputed forkDigest for " ++ name))

/-! ## The libraries -/

structure Codec (ResponseBody : Type) where
  /-- `varint.decode` and `varint.decode.bytes`. -/
  varintDecode : Buffer → Except String (Nat × Nat)
  /-- `uncompress` of snappyjs, one frame's data at a time. -/
  snappyUncompress : Buffer → Except String Buffer
  getMinSerializedLength : ResponseType → Nat
  getMaxSerializedLength : ResponseType → Nat
  deserialize : ResponseType → Buffer → Except String ResponseBody
  createTreeBackedFromBytes : ResponseType → Buffer → Except String ResponseBody
  varintDecode_used : ∀ {bytes : Buffer} {value used : Nat}, varintDecode bytes = .ok (value, used) →
    0 < used ∧ used ≤ bytes.length
  varintDecode_front : ∀ {bytes : Buffer} {value used : Nat}, varintDecode bytes = .ok (value, used) →
    ∀ rest, varintDecode (bytes.take used ++ rest) = .ok (value, used)

namespace Codec

variable {ResponseBody : Type} (codec : Codec ResponseBody)

variable {bytes : Buffer}

theorem varintDecode_append {value used : Nat} (h : codec.varintDecode bytes = .ok (value, used)) (rest : Buffer) :
    codec.varintDecode (bytes ++ rest) = .ok (value, used) := by
  have hfront := codec.varintDecode_front h (bytes.drop used ++ rest)
  rwa [← List.append_assoc, List.take_append_drop] at hfront

theorem varintDecode_of_take {k value used : Nat} (h : codec.varintDecode (bytes.take k) = .ok (value, used)) :
    codec.varintDecode bytes = .ok (value, used) := by
  have happend := codec.varintDecode_append h (bytes.drop k)
  rwa [List.take_append_drop] at happend

end Codec

end Lodestar.ReqResp
