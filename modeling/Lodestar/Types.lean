import Mathlib.Algebra.Group.Nat.Defs
import Mathlib.Data.Vector.Defs
/-!
# Types — the consensus data every package shares

Slots, epochs and indices are `number` in the source, below 2^53 by the interfaces that fill them; here they are `Nat`.
A public key is 48 bytes and a root 32, compared byte by byte.
-/
namespace Lodestar

abbrev BLSPubkey := Vector UInt8 48
abbrev BLSSignature := Vector UInt8 96
abbrev Root := Vector UInt8 32

/-- `ZERO_HASH`, `ssz.Root.defaultValue()`. -/
def zeroRoot : Root := Vector.replicate 32 0

/-- The version of the first fork of the minimal network. -/
def minimalForkVersion : Vector UInt8 4 := #v[0, 0, 0, 1]

def MAX_SAFE_INTEGER : Nat := 2 ^ 53 - 1

structure Checkpoint where
  epoch : Nat
  root : Root
deriving DecidableEq, Repr

structure AttestationData where
  slot : Nat
  index : Nat
  beaconBlockRoot : Root
  source : Checkpoint
  target : Checkpoint
deriving DecidableEq, Repr

def isSlashableAttestationData (data1 data2 : AttestationData) : Bool :=
  -- double vote
  (decide (data1 ≠ data2) && data1.target.epoch == data2.target.epoch) ||
  -- surround vote
  (decide (data1.source.epoch < data2.source.epoch) && decide (data2.target.epoch < data1.target.epoch))

end Lodestar
