import Mathlib.Data.Multiset.AddSub
import Lodestar.Lib.Bits
import Lodestar.OpPools.Common
import Lodestar.Params
import Lodestar.Types
/-!
# SyncContributionAndProofPool — sync committee contributions on their way into a block

Contributions of the subcommittees for one slot and block root are merged into one aggregate: a flag for each position of
the sync committee and the aggregated signature.  A signature is a multiset of single signatures, the free commutative
monoid on what one validator signs for a slot and a root.
-/
namespace Lodestar.OpPools

open Lib

variable {V : Type}

abbrev Signature (V : Type) := Multiset (V × Nat × Root)

/-- SyncCommittee aggregates are only useful for the next block they have signed. -/
def SLOTS_RETAINED : Nat := 8

/-- The maximum number of distinct `SyncAggregateFast` that will be stored in each slot. -/
def MAX_ITEMS_PER_SLOT : Nat := 512

def SYNC_COMMITTEE_SUBNET_COUNT : Nat := 4

structure SyncCommitteeContribution (V : Type) where
  slot : Nat
  beaconBlockRoot : Root
  subCommitteeIndex : Nat
  aggregationBits : List Bool
  signature : Signature V

structure SyncAggregateFast (V : Type) where
  syncCommitteeBits : List Bool
  syncCommitteeSignature : Signature V

structure SyncAggregate (V : Type) where
  syncCommitteeBits : List Bool
  syncCommitteeSignature : Signature V

/-- `ssz.altair.SyncAggregate.defaultValue()`.  Its signature is of nobody: without participants it is never verified. -/
def SyncAggregate.defaultValue (P : Preset) : SyncAggregate V where
  syncCommitteeBits := List.replicate P.SYNC_COMMITTEE_SIZE false
  syncCommitteeSignature := 0

structure SyncContributionAndProofPool (V : Type) where
  aggregateByRootBySlot : OrderedMap Nat (OrderedMap String (SyncAggregateFast V)) := .empty
  lowestPermissibleSlot : Nat := 0

def rootHex (root : Root) : String := Hex.ofBytes root.toList

/-! ## Aggregating -/

section

variable (P : Preset) (contribution : SyncCommitteeContribution V)

def indexOffset : Nat :=
  P.SYNC_COMMITTEE_SIZE / SYNC_COMMITTEE_SUBNET_COUNT * contribution.subCommitteeIndex

/-- The loop of `aggregateContributionInto` over the contribution's bits: the aggregate's bits, and whether it went
through.  It returns at the first known participant, with the bits before it set. -/
def markParticipants (offset : Nat) (bits : List Bool) : List (Bool × Nat) → List Bool × Bool
  | [] => (bits, true)
  | (participated, index) :: rest =>
    if participated then
      if bits[offset + index]? = some true then (bits, false)
      else markParticipants offset (Bits.set bits (offset + index)) rest
    else markParticipants offset bits rest

def aggregateContributionInto (P : Preset) (aggregate : SyncAggregateFast V) (contribution : SyncCommitteeContribution V) :
    SyncAggregateFast V × InsertOutcome :=
  match markParticipants (indexOffset P contribution) aggregate.syncCommitteeBits contribution.aggregationBits.zipIdx with
  | (bits, false) => ({ aggregate with syncCommitteeBits := bits }, .AlreadyKnown)
  | (bits, true) =>
    ({ syncCommitteeBits := bits
       syncCommitteeSignature := aggregate.syncCommitteeSignature + contribution.signature }, .Aggregated)

/-- Format `contribution` into an efficient `aggregate` to add more contributions in. -/
def contributionToAggregate : SyncAggregateFast V where
  syncCommitteeBits := contribution.aggregationBits.zipIdx.foldl
    (fun bits (participated, index) => if participated then Bits.set bits (indexOffset P contribution + index) else bits)
    (List.replicate P.SYNC_COMMITTEE_SIZE false)
  syncCommitteeSignature := contribution.signature

end

/-! ## The pool -/

namespace SyncContributionAndProofPool

section

variable (P : Preset) (pool : SyncContributionAndProofPool V)

def add (contribution : SyncCommitteeContribution V) : SyncContributionAndProofPool V × Except OpPoolError InsertOutcome :=
  let slot := contribution.slot
  -- Reject if too old.
  if slot < pool.lowestPermissibleSlot then (pool, .error (.SLOT_TOO_LOW slot pool.lowestPermissibleSlot))
  else
    let aggregateByRoot := (pool.aggregateByRootBySlot.get? slot).getD .empty
    let store (aggregateByRoot : OrderedMap String (SyncAggregateFast V)) : SyncContributionAndProofPool V :=
      { pool with aggregateByRootBySlot := pool.aggregateByRootBySlot.set slot aggregateByRoot }
    -- Limit object per slot
    if MAX_ITEMS_PER_SLOT ≤ aggregateByRoot.size then (store aggregateByRoot, .error .REACHED_MAX_PER_SLOT)
    else
      -- Pre-aggregate the contribution with existing items
      match aggregateByRoot.get? (rootHex contribution.beaconBlockRoot) with
      | some aggregate =>
        let (aggregate, outcome) := aggregateContributionInto P aggregate contribution
        (store (aggregateByRoot.set (rootHex contribution.beaconBlockRoot) aggregate), .ok outcome)
      | none =>
        (store (aggregateByRoot.set (rootHex contribution.beaconBlockRoot) (contributionToAggregate P contribution)),
          .ok .NewData)

def lookup (pool : SyncContributionAndProofPool V) (slot : Nat) (hex : String) : Option (SyncAggregateFast V) :=
  (pool.aggregateByRootBySlot.get? slot).bind fun aggregateByRoot => aggregateByRoot.get? hex

def getAggregate (slot : Nat) (prevBlockRoot : Root) : SyncAggregate V :=
  match pool.lookup slot (rootHex prevBlockRoot) with
  | none => SyncAggregate.defaultValue P
  | some aggregate =>
    { syncCommitteeBits := aggregate.syncCommitteeBits, syncCommitteeSignature := aggregate.syncCommitteeSignature }

def prune (pool : SyncContributionAndProofPool V) (headSlot : Nat) : SyncContributionAndProofPool V where
  aggregateByRootBySlot := (pruneBySlot pool.aggregateByRootBySlot headSlot SLOTS_RETAINED).1
  lowestPermissibleSlot := headSlot - SLOTS_RETAINED

inductive Call (V : Type)
  | add (contribution : SyncCommitteeContribution V)
  | prune (headSlot : Nat)

def step : Call V → SyncContributionAndProofPool V
  | .add contribution => (pool.add P contribution).1
  | .prune headSlot => pool.prune headSlot

end

def run (P : Preset) (calls : List (Call V)) : SyncContributionAndProofPool V := calls.foldl (step P) {}

end SyncContributionAndProofPool

end Lodestar.OpPools
