import Mathlib.Logic.Function.Basic
import Lodestar.Lib.Async
import Lodestar.Lib.RecordMap
import Lodestar.Types
/-!
# Database — the slashing protection repositories

Five buckets, each a map from a public key to its records: attestations by target epoch, their lower bound, the two span
tables and blocks by slot.  A key of a bucket is the public key followed by the epoch or slot in eight big-endian bytes,
so the records of one public key are ordered by that number and those of two public keys never meet.
-/
namespace Lodestar.Validator

open Async Lib

structure SlashingProtectionAttestation where
  sourceEpoch : Nat
  targetEpoch : Nat
  signingRoot : Root
deriving DecidableEq, Repr

structure SlashingProtectionAttestationLowerBound where
  minSourceEpoch : Nat
  minTargetEpoch : Nat
deriving DecidableEq, Repr

structure SlashingProtectionBlock where
  slot : Nat
  signingRoot : Root
deriving DecidableEq, Repr

/-- `IDistanceEntry`; the distance is a `number`, a difference of epochs. -/
structure DistanceEntry where
  source : Nat
  distance : Int
deriving DecidableEq, Repr

structure Att where
  source : Nat
  target : Nat
deriving DecidableEq, Repr

structure Db where
  attestationByTarget : BLSPubkey → RecordMap SlashingProtectionAttestation.targetEpoch
  attestationLowerBound : BLSPubkey → Option SlashingProtectionAttestationLowerBound
  minSpan : BLSPubkey → RecordMap DistanceEntry.source
  maxSpan : BLSPubkey → RecordMap DistanceEntry.source
  blockBySlot : BLSPubkey → RecordMap SlashingProtectionBlock.slot

def Db.empty : Db where
  attestationByTarget _ := .empty
  attestationLowerBound _ := none
  minSpan _ := .empty
  maxSpan _ := .empty
  blockBySlot _ := .empty

inductive DbOp
  | attestationGet (pubkey : BLSPubkey) (targetEpoch : Nat)
  | attestationGetAll (pubkey : BLSPubkey) (limit : Option Nat)
  | attestationSet (pubkey : BLSPubkey) (atts : List SlashingProtectionAttestation)
  | lowerBoundGet (pubkey : BLSPubkey)
  | lowerBoundSet (pubkey : BLSPubkey) (value : SlashingProtectionAttestationLowerBound)
  | minSpanGet (pubkey : BLSPubkey) (epoch : Nat)
  | minSpanSetBatch (pubkey : BLSPubkey) (values : List DistanceEntry)
  | maxSpanGet (pubkey : BLSPubkey) (epoch : Nat)
  | maxSpanSetBatch (pubkey : BLSPubkey) (values : List DistanceEntry)
  | blockGet (pubkey : BLSPubkey) (slot : Nat)
  | blockGetAll (pubkey : BLSPubkey) (limit : Option Nat)
  | blockSet (pubkey : BLSPubkey) (blocks : List SlashingProtectionBlock)

abbrev DbOp.Res : DbOp → Type
  | attestationGet .. => Option SlashingProtectionAttestation
  | lowerBoundGet .. => Option SlashingProtectionAttestationLowerBound
  | minSpanGet .. | maxSpanGet .. => Option Int
  | blockGet .. => Option SlashingProtectionBlock
  | attestationGetAll .. => List SlashingProtectionAttestation
  | blockGetAll .. => List SlashingProtectionBlock
  | attestationSet .. | lowerBoundSet .. | minSpanSetBatch .. | maxSpanSetBatch .. | blockSet .. => Unit

/-- The blocks of one public key in slot order, those at `Number.MAX_SAFE_INTEGER` or later left out of the range. -/
def Db.blockValues (db : Db) (pubkey : BLSPubkey) (limit : Option Nat) : List SlashingProtectionBlock :=
  let inRange := (db.blockBySlot pubkey).entries.filter (fun b => decide (b.slot < MAX_SAFE_INTEGER))
  match limit with
  | none => inRange
  | some n => inRange.take n

def Db.attestationValues (db : Db) (pubkey : BLSPubkey) (limit : Option Nat) : List SlashingProtectionAttestation :=
  let inRange := (db.attestationByTarget pubkey).entries.filter (fun a => decide (a.targetEpoch < MAX_SAFE_INTEGER))
  match limit with
  | none => inRange
  | some n => inRange.take n

/-- What each operation returns, and the database after it. -/
def Db.answer : Prog.Handler DbOp DbOp.Res Db
  | .attestationGet pubkey targetEpoch, db => ((db.attestationByTarget pubkey).get? targetEpoch, db)
  | .attestationGetAll pubkey limit, db => (db.attestationValues pubkey limit, db)
  | .attestationSet pubkey atts, db =>
      ((), { db with attestationByTarget :=
        Function.update db.attestationByTarget pubkey ((db.attestationByTarget pubkey).insertMany atts) })
  | .lowerBoundGet pubkey, db => (db.attestationLowerBound pubkey, db)
  | .lowerBoundSet pubkey value, db =>
      ((), { db with attestationLowerBound := Function.update db.attestationLowerBound pubkey (some value) })
  | .minSpanGet pubkey epoch, db => (((db.minSpan pubkey).get? epoch).map (·.distance), db)
  | .minSpanSetBatch pubkey values, db =>
      ((), { db with minSpan := Function.update db.minSpan pubkey ((db.minSpan pubkey).insertMany values) })
  | .maxSpanGet pubkey epoch, db => (((db.maxSpan pubkey).get? epoch).map (·.distance), db)
  | .maxSpanSetBatch pubkey values, db =>
      ((), { db with maxSpan := Function.update db.maxSpan pubkey ((db.maxSpan pubkey).insertMany values) })
  | .blockGet pubkey slot, db => ((db.blockBySlot pubkey).get? slot, db)
  | .blockGetAll pubkey limit, db => (db.blockValues pubkey limit, db)
  | .blockSet pubkey blocks, db =>
      ((), { db with blockBySlot :=
        Function.update db.blockBySlot pubkey ((db.blockBySlot pubkey).insertMany blocks) })

inductive SurroundAttestationErrorCode
  | IS_SURROUNDING
  | IS_SURROUNDED
deriving DecidableEq, Repr

/-- `InvalidAttestationErrorType`, with what each code carries. -/
inductive InvalidAttestationError
  | DOUBLE_VOTE (att prev : SlashingProtectionAttestation)
  | NEW_SURROUNDS_PREV (att : SlashingProtectionAttestation) (prev : Option SlashingProtectionAttestation)
  | PREV_SURROUNDS_NEW (att : SlashingProtectionAttestation) (prev : Option SlashingProtectionAttestation)
  | SOURCE_EXCEEDS_TARGET
  | SOURCE_LESS_THAN_LOWER_BOUND (sourceEpoch minSourceEpoch : Nat)
  | TARGET_LESS_THAN_OR_EQ_LOWER_BOUND (targetEpoch minTargetEpoch : Nat)
deriving DecidableEq, Repr

inductive InvalidBlockError
  | DOUBLE_BLOCK_PROPOSAL (block block2 : SlashingProtectionBlock)
  | SLOT_LESS_THAN_LOWER_BOUND (slot minSlot : Nat)
deriving DecidableEq, Repr

inductive SlashingProtectionError
  | surround (code : SurroundAttestationErrorCode) (att : Att) (att2Target : Int)
  | attestation (err : InvalidAttestationError)
  | block (err : InvalidBlockError)
deriving DecidableEq, Repr

abbrev SP (α : Type) := Prog DbOp DbOp.Res SlashingProtectionError α

abbrev SP.on {α : Type} (p : SP α) (db : Db) : Except SlashingProtectionError α × Db := p.run Db.answer db

/-! ## The span tables as the checks read them -/

def Db.minSpanAt (db : Db) (pubkey : BLSPubkey) (e : Nat) : Option Int := ((db.minSpan pubkey).get? e).map (·.distance)
def Db.maxSpanAt (db : Db) (pubkey : BLSPubkey) (e : Nat) : Option Int := ((db.maxSpan pubkey).get? e).map (·.distance)

section

variable (db : Db) (pk : BLSPubkey)

@[simp] theorem Db.answer_attestationGet (t : Nat) :
    Db.answer (.attestationGet pk t) db = ((db.attestationByTarget pk).get? t, db) := rfl

@[simp] theorem Db.answer_minSpanGet (e : Nat) : Db.answer (.minSpanGet pk e) db = (db.minSpanAt pk e, db) := rfl

@[simp] theorem Db.answer_maxSpanGet (e : Nat) : Db.answer (.maxSpanGet pk e) db = (db.maxSpanAt pk e, db) := rfl

end

end Lodestar.Validator
