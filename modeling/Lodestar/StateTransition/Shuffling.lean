import Mathlib.Data.List.Sort
import Lodestar.StateTransition.Util
/-!
# Shuffling — seeds, the swap-or-not shuffle, committees and proposers

`unshuffleList` permutes a whole list in place, round by round, hashing once for every 256 positions; `computeShuffledIndex`
follows one index through the same rounds.  The hash is any function to 32 bytes.
-/
namespace Lodestar.StateTransition

open Lib

variable {P : Preset} (env : Env P)

/-! ## Seeds -/

theorem historicalVector_pos (P : Preset) : 0 < P.EPOCHS_PER_HISTORICAL_VECTOR :=
  Nat.lt_of_lt_of_le (by decide) P.historicalVector_ge

section

variable (state : BeaconState P)

def getRandaoMix (epoch : Nat) : Root :=
  state.randaoMixes.get ⟨epoch % P.EPOCHS_PER_HISTORICAL_VECTOR, Nat.mod_lt _ (historicalVector_pos P)⟩

def getSeed (epoch : Nat) (domainType : List UInt8) : Root :=
  let mix := getRandaoMix state (epoch + P.EPOCHS_PER_HISTORICAL_VECTOR - P.MIN_SEED_LOOKAHEAD - 1)
  env.hash (domainType ++ intToBytes epoch 8 ++ mix.toList)

def byteAt (source : Root) (position : Nat) : Nat := (source.get ⟨position % 256 / 8, by omega⟩).toNat

def computeShuffledIndex (index indexCount : Nat) (seed : Root) : Except String Nat := do
  check (index < indexCount) s!"indexCount must be less than index: {index} < {indexCount}"
  check (indexCount ≤ 2 ^ 40) s!"indexCount too big: {indexCount} <= 1099511627776"
  pure ((List.range P.SHUFFLE_ROUND_COUNT).foldl (fun permuted i =>
    let pivot := bytesToBigInt ((env.hash (seed.toList ++ intToBytes i 1)).toList.take 8) % indexCount
    let flip := (pivot + indexCount - permuted) % indexCount
    let position := max permuted flip
    let source := env.hash (seed.toList ++ intToBytes i 1 ++ intToBytes (position / 256) 4)
    let bit := (byteAt source position >>> (position % 8)) % 2
    if bit ≠ 0 then flip else permuted) index)

/-! ## The shuffle of a list -/

/-- `value >> 1`, on 32-bit signed integers. -/
def sar1 (value : Nat) : Int := (BitVec.ofNat 32 value).toInt / 2

def swapPair (input : List Nat) (i j : Nat) : List Nat := (input.set j (input.getD i 0)).set i (input.getD j 0)

structure ShuffleState where
  input : List Nat
  source : Root
  byteV : Nat

def shuffleSource (seed : Root) (r position : Nat) : Root :=
  env.hash (seed.toList ++ intToBytes r 1 ++ intToBytes position 4)

def shuffleStep (seed : Root) (r i j : Nat) (st : ShuffleState) : ShuffleState :=
  let source := if j % 256 = 255 then shuffleSource env seed r (j / 256) else st.source
  let byteV := if j % 8 = 7 then byteAt source j else st.byteV
  let bitV := (byteV >>> (j % 8)) % 2
  { input := if bitV = 1 then swapPair st.input i j else st.input, source := source, byteV := byteV }

def shuffleRound (seed : Root) (input : List Nat) (r : Nat) : List Nat :=
  let listSize := input.length
  let pivot := bytesToBigInt ((env.hash (seed.toList ++ intToBytes r 1)).toList.take 8) % listSize
  let source := shuffleSource env seed r (pivot / 256)
  let first := (List.range (sar1 (pivot + 1)).toNat).foldl (fun st i => shuffleStep env seed r i (pivot - i) st)
    { input := input, source := source, byteV := byteAt source pivot }
  let last := listSize - 1
  let source := shuffleSource env seed r (last / 256)
  let second := (List.range' (pivot + 1) (sar1 (pivot + listSize + 1) - (pivot + 1 : Nat)).toNat).foldl
    (fun st i => shuffleStep env seed r i (last - i + pivot + 1) st)
    { input := first.input, source := source, byteV := byteAt source last }
  second.input

def innerShuffleList (input : List Nat) (seed : Root) (dir : Bool) : Except String (List Nat) := do
  if input.length ≤ 1 then pure input
  else if P.SHUFFLE_ROUND_COUNT = 0 then pure input
  else
    check (input.length % 2 ^ 32 = input.length) "input length does not fit uint32"
    let rounds := List.range P.SHUFFLE_ROUND_COUNT
    pure ((if dir then rounds else rounds.reverse).foldl (shuffleRound env seed) input)

def shuffleList (input : List Nat) (seed : Root) : Except String (List Nat) := innerShuffleList env input seed true
def unshuffleList (input : List Nat) (seed : Root) : Except String (List Nat) := innerShuffleList env input seed false

/-! ## Committees -/

def computeCommitteeCount (P : Preset) (activeValidatorCount : Nat) : Nat :=
  let validatorsPerSlot := activeValidatorCount / P.SLOTS_PER_EPOCH
  let committeesPerSlot := validatorsPerSlot / P.TARGET_COMMITTEE_SIZE
  max 1 (min P.MAX_COMMITTEES_PER_SLOT committeesPerSlot)

def sliceCommittee (shuffling : List Nat) (activeValidatorCount committeeCount index : Nat) :
    Except String (List Nat) := do
  let startOffset := activeValidatorCount * index / committeeCount
  let endOffset := activeValidatorCount * (index + 1) / committeeCount
  check (startOffset ≤ endOffset)
    s!"Invalid offsets: start {startOffset} must be less than or equal end {endOffset}"
  pure ((shuffling.take endOffset).drop startOffset)

def computeEpochShuffling (indicesBounded : List (Nat × ℕ∞ × ℕ∞)) (epoch : Nat) : Except String EpochShuffling := do
  let seed := getSeed env state epoch DOMAIN_BEACON_ATTESTER
  let activeIndices := (indicesBounded.filter fun entry =>
    decide (entry.2.1 ≤ (epoch : ℕ∞)) && decide ((epoch : ℕ∞) < entry.2.2)).map (·.1)
  let shuffling ← unshuffleList env activeIndices seed
  let activeValidatorCount := activeIndices.length
  let committeesPerSlot := computeCommitteeCount P activeValidatorCount
  let committeeCount := committeesPerSlot * P.SLOTS_PER_EPOCH
  let committees ← (List.range P.SLOTS_PER_EPOCH).mapM fun slot =>
    (List.range committeesPerSlot).mapM fun committeeIndex =>
      sliceCommittee shuffling activeValidatorCount committeeCount (slot * committeesPerSlot + committeeIndex)
  pure { epoch, activeIndices, shuffling, committees, committeesPerSlot }

def indicesBounded (validators : List Validator) : List (Nat × ℕ∞ × ℕ∞) :=
  validators.zipIdx.map fun entry => (entry.2, entry.1.activationEpoch, entry.1.exitEpoch)

/-! ## Proposers -/

def MAX_RANDOM_BYTE : Nat := 2 ^ 8 - 1

def sampleCandidate (indices : List Nat) (seed : Root) (i : Nat) : Except String (Nat × Bool) := do
  let shuffledIndex ← computeShuffledIndex env (i % indices.length) indices.length seed
  let candidateIndex ← getAt typeError indices shuffledIndex
  let randByte := ((env.hash (seed.toList ++ intToBytes (i / 32) 8)).get ⟨i % 32, Nat.mod_lt _ (by decide)⟩).toNat
  let validator ← getAt typeError state.validators candidateIndex
  pure (candidateIndex, decide (P.MAX_EFFECTIVE_BALANCE * randByte ≤ validator.effectiveBalance * MAX_RANDOM_BYTE))

/-- The sampling of a proposer from candidate `i` on, with `remaining` candidates before it gives up with `-1`. -/
def computeProposerIndexFrom (state : BeaconState P) (indices : List Nat) (seed : Root) : Nat → Nat → Except String Int
  | 0, _ => pure (-1)
  | remaining + 1, i => do
    let candidate ← sampleCandidate env state indices seed i
    if candidate.2 then pure candidate.1 else computeProposerIndexFrom state indices seed remaining (i + 1)

/-- Return from `indices` a random index sampled by effective balance. -/
def computeProposerIndex (indices : List Nat) (seed : Root) : Except String Int := do
  check (0 < indices.length) s!"Validator indices must not be empty: {indices.length} > 0"
  computeProposerIndexFrom env state indices seed indices.length 0

def computeProposers (shuffling : EpochShuffling) : Except String (List Int) := do
  let epochSeed := getSeed env state shuffling.epoch DOMAIN_BEACON_PROPOSER
  let startSlot := computeStartSlotAtEpoch P shuffling.epoch
  (List.range' startSlot P.SLOTS_PER_EPOCH).mapM fun slot =>
    computeProposerIndex env state shuffling.activeIndices (env.hash (epochSeed.toList ++ intToBytes slot 8))

/-! ## Sync committees -/

def getNextSyncCommitteeIndicesFrom (state : BeaconState P) (indices : List Nat) (seed : Root) :
    Nat → Nat → List Nat → Except String (List Nat)
  | bound, i, syncCommitteeIndices =>
    if P.SYNC_COMMITTEE_SIZE ≤ syncCommitteeIndices.length then pure syncCommitteeIndices
    else match bound with
      | 0 => throw "still sampling"
      | bound + 1 => do
        let candidate ← sampleCandidate env state indices seed i
        getNextSyncCommitteeIndicesFrom state indices seed bound (i + 1)
          (if candidate.2 then syncCommitteeIndices ++ [candidate.1] else syncCommitteeIndices)

def getNextSyncCommitteeIndices : Except String (List Nat) :=
  let epoch := computeEpochAtSlot P state.slot + 1
  let activeValidatorIndices := getActiveValidatorIndices state epoch
  let seed := getSeed env state epoch DOMAIN_SYNC_COMMITTEE
  getNextSyncCommitteeIndicesFrom env state activeValidatorIndices seed env.samplingBound 0 []

def getNextSyncCommittee : Except String SyncCommittee := do
  let indices ← getNextSyncCommitteeIndices env state
  let pubkeys ← indices.mapM fun index => do
    let validator ← getAt typeError state.validators index
    pure validator.pubkey
  let aggregatePubkey ← env.aggregatePublicKeys pubkeys
  pure { pubkeys, aggregatePubkey }

end

end Lodestar.StateTransition
