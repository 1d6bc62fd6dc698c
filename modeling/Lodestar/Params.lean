import Mathlib.Data.Nat.Notation
/-!
# Params — the two presets and the epoch arithmetic over them

The active preset is chosen when the process starts and never changes, so every function that reads one of its constants
takes the preset as an argument.  The fields at the end state what the arithmetic relies on of any preset; `mainnet` and
`minimal` have them.
-/
namespace Lodestar

structure Preset where
  MAX_COMMITTEES_PER_SLOT : Nat
  TARGET_COMMITTEE_SIZE : Nat
  MAX_VALIDATORS_PER_COMMITTEE : Nat
  SHUFFLE_ROUND_COUNT : Nat
  HYSTERESIS_QUOTIENT : Nat
  HYSTERESIS_DOWNWARD_MULTIPLIER : Nat
  HYSTERESIS_UPWARD_MULTIPLIER : Nat
  SAFE_SLOTS_TO_UPDATE_JUSTIFIED : Nat
  MAX_EFFECTIVE_BALANCE : Nat
  EFFECTIVE_BALANCE_INCREMENT : Nat
  MIN_ATTESTATION_INCLUSION_DELAY : Nat
  SLOTS_PER_EPOCH : Nat
  MIN_SEED_LOOKAHEAD : Nat
  MAX_SEED_LOOKAHEAD : Nat
  EPOCHS_PER_ETH1_VOTING_PERIOD : Nat
  SLOTS_PER_HISTORICAL_ROOT : Nat
  MIN_EPOCHS_TO_INACTIVITY_PENALTY : Nat
  EPOCHS_PER_HISTORICAL_VECTOR : Nat
  EPOCHS_PER_SLASHINGS_VECTOR : Nat
  BASE_REWARD_FACTOR : Nat
  WHISTLEBLOWER_REWARD_QUOTIENT : Nat
  PROPOSER_REWARD_QUOTIENT : Nat
  INACTIVITY_PENALTY_QUOTIENT : Nat
  MIN_SLASHING_PENALTY_QUOTIENT : Nat
  PROPORTIONAL_SLASHING_MULTIPLIER : Nat
  MAX_PROPOSER_SLASHINGS : Nat
  MAX_ATTESTER_SLASHINGS : Nat
  MAX_ATTESTATIONS : Nat
  MAX_DEPOSITS : Nat
  MAX_VOLUNTARY_EXITS : Nat
  SYNC_COMMITTEE_SIZE : Nat
  EPOCHS_PER_SYNC_COMMITTEE_PERIOD : Nat
  INACTIVITY_PENALTY_QUOTIENT_ALTAIR : Nat
  MIN_SLASHING_PENALTY_QUOTIENT_ALTAIR : Nat
  PROPORTIONAL_SLASHING_MULTIPLIER_ALTAIR : Nat
  slotsPerEpoch_pos : 0 < SLOTS_PER_EPOCH
  minSeedLookahead_eq : MIN_SEED_LOOKAHEAD = 1
  maxSeedLookahead_pos : 0 < MAX_SEED_LOOKAHEAD
  historicalVector_ge : 4 ≤ EPOCHS_PER_HISTORICAL_VECTOR
  historicalRoot_pos : 0 < SLOTS_PER_HISTORICAL_ROOT
  slashingsVector_pos : 0 < EPOCHS_PER_SLASHINGS_VECTOR
  effectiveBalanceIncrement_pos : 0 < EFFECTIVE_BALANCE_INCREMENT

def mainnet : Preset where
  MAX_COMMITTEES_PER_SLOT := 64
  TARGET_COMMITTEE_SIZE := 128
  MAX_VALIDATORS_PER_COMMITTEE := 2048
  SHUFFLE_ROUND_COUNT := 90
  HYSTERESIS_QUOTIENT := 4
  HYSTERESIS_DOWNWARD_MULTIPLIER := 1
  HYSTERESIS_UPWARD_MULTIPLIER := 5
  SAFE_SLOTS_TO_UPDATE_JUSTIFIED := 8
  MAX_EFFECTIVE_BALANCE := 32000000000
  EFFECTIVE_BALANCE_INCREMENT := 1000000000
  MIN_ATTESTATION_INCLUSION_DELAY := 1
  SLOTS_PER_EPOCH := 32
  MIN_SEED_LOOKAHEAD := 1
  MAX_SEED_LOOKAHEAD := 4
  EPOCHS_PER_ETH1_VOTING_PERIOD := 64
  SLOTS_PER_HISTORICAL_ROOT := 8192
  MIN_EPOCHS_TO_INACTIVITY_PENALTY := 4
  EPOCHS_PER_HISTORICAL_VECTOR := 65536
  EPOCHS_PER_SLASHINGS_VECTOR := 8192
  BASE_REWARD_FACTOR := 64
  WHISTLEBLOWER_REWARD_QUOTIENT := 512
  PROPOSER_REWARD_QUOTIENT := 8
  INACTIVITY_PENALTY_QUOTIENT := 67108864
  MIN_SLASHING_PENALTY_QUOTIENT := 128
  PROPORTIONAL_SLASHING_MULTIPLIER := 1
  MAX_PROPOSER_SLASHINGS := 16
  MAX_ATTESTER_SLASHINGS := 2
  MAX_ATTESTATIONS := 128
  MAX_DEPOSITS := 16
  MAX_VOLUNTARY_EXITS := 16
  SYNC_COMMITTEE_SIZE := 512
  EPOCHS_PER_SYNC_COMMITTEE_PERIOD := 256
  INACTIVITY_PENALTY_QUOTIENT_ALTAIR := 50331648
  MIN_SLASHING_PENALTY_QUOTIENT_ALTAIR := 64
  PROPORTIONAL_SLASHING_MULTIPLIER_ALTAIR := 2
  slotsPerEpoch_pos := by decide
  minSeedLookahead_eq := rfl
  maxSeedLookahead_pos := Nat.succ_pos _
  historicalVector_ge := by decide
  historicalRoot_pos := by decide
  slashingsVector_pos := by decide
  effectiveBalanceIncrement_pos := by decide

def minimal : Preset where
  MAX_COMMITTEES_PER_SLOT := 4
  TARGET_COMMITTEE_SIZE := 4
  MAX_VALIDATORS_PER_COMMITTEE := 2048
  SHUFFLE_ROUND_COUNT := 10
  HYSTERESIS_QUOTIENT := 4
  HYSTERESIS_DOWNWARD_MULTIPLIER := 1
  HYSTERESIS_UPWARD_MULTIPLIER := 5
  SAFE_SLOTS_TO_UPDATE_JUSTIFIED := 2
  MAX_EFFECTIVE_BALANCE := 32000000000
  EFFECTIVE_BALANCE_INCREMENT := 1000000000
  MIN_ATTESTATION_INCLUSION_DELAY := 1
  SLOTS_PER_EPOCH := 8
  MIN_SEED_LOOKAHEAD := 1
  MAX_SEED_LOOKAHEAD := 4
  EPOCHS_PER_ETH1_VOTING_PERIOD := 4
  SLOTS_PER_HISTORICAL_ROOT := 64
  MIN_EPOCHS_TO_INACTIVITY_PENALTY := 4
  EPOCHS_PER_HISTORICAL_VECTOR := 64
  EPOCHS_PER_SLASHINGS_VECTOR := 64
  BASE_REWARD_FACTOR := 64
  WHISTLEBLOWER_REWARD_QUOTIENT := 512
  PROPOSER_REWARD_QUOTIENT := 8
  INACTIVITY_PENALTY_QUOTIENT := 33554432
  MIN_SLASHING_PENALTY_QUOTIENT := 64
  PROPORTIONAL_SLASHING_MULTIPLIER := 2
  MAX_PROPOSER_SLASHINGS := 16
  MAX_ATTESTER_SLASHINGS := 2
  MAX_ATTESTATIONS := 128
  MAX_DEPOSITS := 16
  MAX_VOLUNTARY_EXITS := 16
  SYNC_COMMITTEE_SIZE := 32
  EPOCHS_PER_SYNC_COMMITTEE_PERIOD := 8
  INACTIVITY_PENALTY_QUOTIENT_ALTAIR := 50331648
  MIN_SLASHING_PENALTY_QUOTIENT_ALTAIR := 64
  PROPORTIONAL_SLASHING_MULTIPLIER_ALTAIR := 2
  slotsPerEpoch_pos := by decide
  minSeedLookahead_eq := rfl
  maxSeedLookahead_pos := Nat.succ_pos _
  historicalVector_ge := by decide
  historicalRoot_pos := by decide
  slashingsVector_pos := by decide
  effectiveBalanceIncrement_pos := by decide

def GENESIS_EPOCH : Nat := 0

def computeEpochAtSlot (P : Preset) (slot : Nat) : Nat := slot / P.SLOTS_PER_EPOCH
def computeStartSlotAtEpoch (P : Preset) (epoch : Nat) : Nat := epoch * P.SLOTS_PER_EPOCH
def computeActivationExitEpoch (P : Preset) (epoch : Nat) : Nat := epoch + 1 + P.MAX_SEED_LOOKAHEAD

def computeSlotsSinceEpochStart (P : Preset) (slot : Nat) : Nat :=
  slot - computeStartSlotAtEpoch P (computeEpochAtSlot P slot)

end Lodestar
