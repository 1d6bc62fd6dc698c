import Lodestar.Lib.Numerals
import Lodestar.Lib.Utf8
import Lodestar.Types
/-!
# Schema — the buckets of the database and the keys of a bucket

One key-value store holds every repository.  A key is the byte of its bucket followed by the bytes of an id: a byte string
as it is, a number in eight big-endian bytes, a text in UTF-8.
-/
namespace Lodestar.Db

open Lib
open scoped Lib.BigEndian

abbrev Buffer := List UInt8

/-- `Bucket`, with its deprecated members left out as the source leaves them out. -/
inductive Bucket
  | allForks_stateArchive
  | allForks_block
  | allForks_blockArchive
  | index_blockArchiveParentRootIndex
  | index_blockArchiveRootIndex
  | index_mainChain
  | index_chainInfo
  | phase0_eth1Data
  | index_depositDataRoot
  | phase0_depositEvent
  | phase0_preGenesisState
  | phase0_preGenesisStateLastProcessedBlock
  | phase0_aggregateAndProof
  | phase0_depositData
  | phase0_exit
  | phase0_proposerSlashing
  | phase0_attesterSlashing
  | phase0_slashingProtectionBlockBySlot
  | phase0_slashingProtectionAttestationByTarget
  | phase0_slashingProtectionAttestationLowerBound
  | index_slashingProtectionMinSpanDistance
  | index_slashingProtectionMaxSpanDistance
  | allForks_pendingBlock
  | index_stateArchiveRootIndex
  | altair_bestUpdatePerCommitteePeriod
  | altair_latestFinalizedUpdate
  | altair_latestNonFinalizedUpdate
  | altair_lightclientFinalizedCheckpoint
  | altair_lightClientInitProof
  | altair_lightClientSyncCommitteeProof
deriving DecidableEq, Repr

def Bucket.value : Bucket → Nat
  | allForks_stateArchive => 0
  | allForks_block => 1
  | allForks_blockArchive => 2
  | index_blockArchiveParentRootIndex => 3
  | index_blockArchiveRootIndex => 4
  | index_mainChain => 6
  | index_chainInfo => 7
  | phase0_eth1Data => 8
  | index_depositDataRoot => 9
  | phase0_depositEvent => 19
  | phase0_preGenesisState => 30
  | phase0_preGenesisStateLastProcessedBlock => 31
  | phase0_aggregateAndProof => 11
  | phase0_depositData => 12
  | phase0_exit => 13
  | phase0_proposerSlashing => 14
  | phase0_attesterSlashing => 15
  | phase0_slashingProtectionBlockBySlot => 20
  | phase0_slashingProtectionAttestationByTarget => 21
  | phase0_slashingProtectionAttestationLowerBound => 22
  | index_slashingProtectionMinSpanDistance => 23
  | index_slashingProtectionMaxSpanDistance => 24
  | allForks_pendingBlock => 25
  | index_stateArchiveRootIndex => 26
  | altair_bestUpdatePerCommitteePeriod => 30
  | altair_latestFinalizedUpdate => 31
  | altair_latestNonFinalizedUpdate => 32
  | altair_lightclientFinalizedCheckpoint => 33
  | altair_lightClientInitProof => 34
  | altair_lightClientSyncCommitteeProof => 35

theorem Bucket.value_lt (bucket : Bucket) : bucket.value < 256 := by
  cases bucket <;> decide

def uintLen : Nat := 8

inductive Id
  | bytes (key : Buffer)
  | string (key : String)
  | number (key : Nat)
  | bigint (key : Nat)
deriving DecidableEq, Repr

/-- `key.length` of a text, in UTF-16 code units. -/
def utf16Length (text : List Char) : Nat := (text.map (fun c => if c.toNat < 0x10000 then 1 else 2)).sum

/-- `buf.write` with `room` bytes left: it stops before the first character that does not fit. -/
def writeText (room : Nat) : List Char → Buffer
  | [] => []
  | c :: text =>
    if (String.utf8EncodeChar c).length ≤ room then
      String.utf8EncodeChar c ++ writeText (room - (String.utf8EncodeChar c).length) text
    else []

/-- The bytes of a key behind the bucket.  The buffer of a text is as long as the text has code units, filled with zeros
past what was written. -/
def Id.toBytes : Id → Buffer
  | .bytes key => key
  | .string key =>
    let room := utf16Length key.toList
    let written := writeText room key.toList
    written ++ List.replicate (room - written.length) 0
  | .number key => BigEndian.encode uintLen key
  | .bigint key => BigEndian.encode uintLen key

def encodeKey (bucket : Nat) (key : Id) : Buffer := UInt8.ofNat bucket :: key.toBytes

theorem ofNat_inj {a b : Nat} (ha : a < 256) (hb : b < 256) (h : UInt8.ofNat a = UInt8.ofNat b) : a = b := by
  have h' := congrArg UInt8.toNat h
  rw [UInt8.toNat_ofNat', UInt8.toNat_ofNat'] at h'
  omega

theorem encodeKey_eq_iff (bucket bucket' : Bucket) (key key' : Id) :
    encodeKey bucket.value key = encodeKey bucket'.value key' ↔
      bucket.value = bucket'.value ∧ key.toBytes = key'.toBytes := by
  unfold encodeKey
  rw [List.cons.injEq]
  exact and_congr_left fun _ => ⟨ofNat_inj bucket.value_lt bucket'.value_lt, fun heq => by rw [heq]⟩

variable {bucket bucket' : Bucket}

theorem encodeKey_ne (h : bucket.value ≠ bucket'.value) (key key' : Id) :
    encodeKey bucket.value key ≠ encodeKey bucket'.value key' := fun heq => h ((encodeKey_eq_iff _ _ _ _).1 heq).1

def InBucket (bucket : Nat) (key : Buffer) : Prop := key.head? = some (UInt8.ofNat bucket)

theorem inBucket_encodeKey (bucket : Nat) (key : Id) : InBucket bucket (encodeKey bucket key) := rfl

variable {key : Buffer}

theorem InBucket.value_eq (h : InBucket bucket.value key) (h' : InBucket bucket'.value key) : bucket.value = bucket'.value := by
  exact ofNat_inj bucket.value_lt bucket'.value_lt (Option.some.inj (h.symm.trans h'))

/-! ## The range of a bucket -/

variable {a c : UInt8} {l m key : Buffer}

theorem head_le_head (h : a :: l ≤ c :: m) : a ≤ c := by
  rcases h.lt_or_eq with hlt | heq
  · exact List.head_le_of_lt hlt
  · rw [(List.cons.inj heq).1]

theorem cons_of_le (h : a :: l ≤ key) : ∃ c m, key = c :: m ∧ a ≤ c := by
  cases key with
  | nil => exact absurd h (not_le_of_gt (List.nil_lt_cons a l))
  | cons c m => exact ⟨c, m, rfl, head_le_head h⟩

theorem head_le_of_lt_next {bucket : Nat} (h : c :: m < [UInt8.ofNat (bucket + 1)]) : c ≤ UInt8.ofNat bucket := by
  have hlt : c < UInt8.ofNat (bucket + 1) := by
    rcases List.cons_lt_cons_iff.1 h with hlt | ⟨-, hnil⟩
    · exact hlt
    · exact absurd hnil (List.not_lt_nil m)
  rw [UInt8.lt_iff_toNat_lt, UInt8.toNat_ofNat'] at hlt
  rw [UInt8.le_iff_toNat_le, UInt8.toNat_ofNat']
  omega

theorem inBucket_of_bounds {bucket : Nat} (hlow : ∃ id, encodeKey bucket id ≤ key)
    (hhigh : key < encodeKey (bucket + 1) (.bytes []) ∨ ∃ id, key ≤ encodeKey bucket id) : InBucket bucket key := by
  obtain ⟨id, hlow⟩ := hlow
  obtain ⟨c, m, rfl, hge⟩ := cons_of_le hlow
  have hle : c ≤ UInt8.ofNat bucket := by
    rcases hhigh with hlt | ⟨id', hle⟩
    · exact head_le_of_lt_next hlt
    · exact head_le_head hle
  show some c = _
  rw [UInt8.le_antisymm hle hge]

end Lodestar.Db
