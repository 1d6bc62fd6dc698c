import Mathlib.Data.List.Induction
import Lodestar.Validator.BlockBySlotRepository
/-!
# ListPubkeys — the public keys that are read back from the keys of the store

The repositories of the slashing protection share one store.  A key is the byte of its bucket, the public key and mostly a number in
eight bytes, and both `decodeKey`s cut the public key out of it right.  The one of the blocks takes the slot from where the public
key starts, and both `listPubkeys` go through the keys of the whole store.
-/
namespace Lodestar.Validator

open Lib SortedMap
open scoped Lib.BigEndian
open Lodestar.Db (Buffer Store uintLen toNumber lt_of_safe toNumber_eq)

/-! ## Keys -/

def DB_PREFIX_LENGTH : Nat := Db.BUCKET_LENGTH

def blsPubkeyLen : Nat := 48

def slice (buffer : Buffer) (start stop : Nat) : Buffer := (buffer.drop start).take (stop - start)

def bytesToInt (value : Buffer) : Nat := toNumber (BigEndian.decode value)

/-- Each buffer where it comes first; their texts are equal where they are. -/
def uniqueVectorArr (buffers : List Buffer) : List Buffer :=
  buffers.foldl (fun unique buffer => if unique.contains buffer then unique else unique ++ [buffer]) []

namespace BlockBySlotRepository

structure DecodedKey where
  pubkey : Buffer
  slot : Nat
deriving DecidableEq, Repr

def decodeKey (key : Buffer) : DecodedKey where
  pubkey := slice key DB_PREFIX_LENGTH (DB_PREFIX_LENGTH + blsPubkeyLen)
  slot := bytesToInt (slice key DB_PREFIX_LENGTH (DB_PREFIX_LENGTH + uintLen))

def listPubkeys (db : Store) : List Buffer := uniqueVectorArr ((Db.LevelDbController.keys db {}).map fun key => (decodeKey key).pubkey)

end BlockBySlotRepository

namespace AttestationByTargetRepository

def bucket : Db.Bucket := .phase0_slashingProtectionAttestationByTarget

def encodeKey (pubkey : BLSPubkey) (targetEpoch : Nat) : Buffer :=
  Db.encodeKey bucket.value (.bytes (pubkey.toList ++ BigEndian.encode uintLen targetEpoch))

structure DecodedKey where
  pubkey : Buffer
  targetEpoch : Nat
deriving DecidableEq, Repr

def decodeKey (key : Buffer) : DecodedKey where
  pubkey := slice key DB_PREFIX_LENGTH (DB_PREFIX_LENGTH + blsPubkeyLen)
  targetEpoch := bytesToInt (slice key (DB_PREFIX_LENGTH + blsPubkeyLen) (DB_PREFIX_LENGTH + blsPubkeyLen + uintLen))

def listPubkeys (db : Store) : List Buffer := uniqueVectorArr ((Db.LevelDbController.keys db {}).map fun key => (decodeKey key).pubkey)

end AttestationByTargetRepository

def AttestationLowerBoundRepository.encodeKey (pubkey : BLSPubkey) : Buffer :=
  Db.encodeKey (Db.Bucket.value .phase0_slashingProtectionAttestationLowerBound) (.bytes pubkey.toList)

def SpanDistanceRepository.encodeKey (bucket : Db.Bucket) (pubkey : BLSPubkey) (epoch : Nat) : Buffer :=
  Db.encodeKey bucket.value (.bytes (pubkey.toList ++ BigEndian.encode 8 epoch))

/-! ## What the store holds -/

/-- What the five repositories write. -/
inductive ProtectionRecord
  | block (pubkey : BLSPubkey) (slot : Nat)
  | attestation (pubkey : BLSPubkey) (targetEpoch : Nat)
  | lowerBound (pubkey : BLSPubkey)
  | minSpan (pubkey : BLSPubkey) (epoch : Nat)
  | maxSpan (pubkey : BLSPubkey) (epoch : Nat)

namespace ProtectionRecord

def pubkey : ProtectionRecord → BLSPubkey
  | block pubkey _ | attestation pubkey _ | lowerBound pubkey | minSpan pubkey _ | maxSpan pubkey _ => pubkey

def key : ProtectionRecord → Buffer
  | block pubkey slot => BlockBySlotRepository.encodeKey pubkey slot
  | attestation pubkey targetEpoch => AttestationByTargetRepository.encodeKey pubkey targetEpoch
  | lowerBound pubkey => AttestationLowerBoundRepository.encodeKey pubkey
  | minSpan pubkey epoch => SpanDistanceRepository.encodeKey .index_slashingProtectionMinSpanDistance pubkey epoch
  | maxSpan pubkey epoch => SpanDistanceRepository.encodeKey .index_slashingProtectionMaxSpanDistance pubkey epoch

end ProtectionRecord

structure ProtectionStore where
  store : Store
  written : ∀ row ∈ store.entries, ∃ record : ProtectionRecord, record.key = row.1

namespace ProtectionStore

variable (db : ProtectionStore)

def Has (record : ProtectionRecord) : Prop := ∃ value, db.store.get? record.key = some value

def HasBlock (pubkey : BLSPubkey) : Prop := ∃ slot, db.Has (.block pubkey slot)

def HasAttestation (pubkey : BLSPubkey) : Prop := ∃ targetEpoch, db.Has (.attestation pubkey targetEpoch)

end ProtectionStore

/-- The list has exactly these public keys, each once. -/
def Lists (listed : List Buffer) (P : BLSPubkey → Prop) : Prop :=
  listed.Nodup ∧ ∀ bytes, bytes ∈ listed ↔ ∃ pubkey, P pubkey ∧ pubkey.toList = bytes

/-! ## Numbers -/

variable {m n : Nat}

theorem toNumber_eq_iff (hn : n < 2 ^ 53) : toNumber m = n ↔ m = n := by
  by_cases hm : m < 2 ^ 53
  · rw [toNumber_eq (show m ≤ MAX_SAFE_INTEGER from Nat.le_of_lt_succ hm)]
  · refine iff_of_false (fun h => ?_) (by omega)
    have hlog : 53 ≤ m.log2 := (Nat.le_log2 (by omega)).2 (Nat.not_lt.1 hm)
    have hunit : 2 ^ 52 * 2 ^ (m.log2 - 52) ≤ m := by
      rw [← Nat.pow_add, Nat.add_sub_cancel' (by omega)]
      exact Nat.log2_self_le (by omega)
    have hquotient : 2 ^ 52 ≤ m / 2 ^ (m.log2 - 52) := (Nat.le_div_iff_mul_le (Nat.two_pow_pos _)).2 hunit
    have hshift : 2 ≤ 2 ^ (m.log2 - 52) := Nat.le_self_pow (by omega) 2
    have hlarge : 2 ^ 52 * 2 ≤ toNumber m := Nat.mul_le_mul (le_add_right hquotient) hshift
    omega

theorem uniqueVectorArr_spec (buffers : List Buffer) :
    (uniqueVectorArr buffers).Nodup ∧ ∀ buffer, buffer ∈ uniqueVectorArr buffers ↔ buffer ∈ buffers := by
  induction buffers using List.reverseRecOn with
  | nil => simp [uniqueVectorArr]
  | append_singleton buffers last ih =>
    unfold uniqueVectorArr at ih ⊢
    rw [List.foldl_append, List.foldl_cons, List.foldl_nil]
    split
    · rename_i hseen
      refine ⟨ih.1, fun buffer => ?_⟩
      rw [ih.2, List.mem_append, List.mem_singleton, or_iff_left_of_imp]
      rintro rfl
      exact (ih.2 _).1 (List.contains_iff_mem.1 hseen)
    · rename_i hnew
      rw [List.contains_iff_mem] at hnew
      refine ⟨List.nodup_append.2 ⟨ih.1, List.nodup_singleton _, ?_⟩, fun buffer => ?_⟩
      · rintro a ha b hb rfl
        rw [List.mem_singleton.1 hb] at ha
        exact hnew ha
      · rw [List.mem_append, ih.2, List.mem_append]

/-! ## What is read back -/

theorem slice_pubkey (record : ProtectionRecord) :
    slice record.key DB_PREFIX_LENGTH (DB_PREFIX_LENGTH + blsPubkeyLen) = record.pubkey.toList := by
  have hcut : ∀ (bucket : UInt8) (pubkey : BLSPubkey) (rest : Buffer),
      slice (bucket :: (pubkey.toList ++ rest)) DB_PREFIX_LENGTH (DB_PREFIX_LENGTH + blsPubkeyLen) = pubkey.toList :=
    fun bucket pubkey rest => List.take_left' pubkey.length_toList
  cases record with
  | block pubkey slot => exact hcut _ pubkey _
  | attestation pubkey targetEpoch => exact hcut _ pubkey _
  | lowerBound pubkey =>
    have h := hcut (UInt8.ofNat (Db.Bucket.value .phase0_slashingProtectionAttestationLowerBound)) pubkey []
    rwa [List.append_nil] at h
  | minSpan pubkey epoch => exact hcut _ pubkey _
  | maxSpan pubkey epoch => exact hcut _ pubkey _

theorem listed (db : ProtectionStore) :
    Lists (uniqueVectorArr ((Db.LevelDbController.keys db.store {}).map fun key =>
        slice key DB_PREFIX_LENGTH (DB_PREFIX_LENGTH + blsPubkeyLen)))
      fun pubkey => ∃ record, db.Has record ∧ record.pubkey = pubkey := by
  have hkeys : ∀ key, key ∈ Db.LevelDbController.keys db.store {} ↔ ∃ value, db.store.get? key = some value := by
    intro key
    simp [Db.LevelDbController.keys, Db.LevelDbController.entries, Db.LevelDbController.inRange, get?_eq_some_iff]
  obtain ⟨hnodup, hmem⟩ := uniqueVectorArr_spec ((Db.LevelDbController.keys db.store {}).map fun key =>
    slice key DB_PREFIX_LENGTH (DB_PREFIX_LENGTH + blsPubkeyLen))
  refine ⟨hnodup, fun bytes => ?_⟩
  rw [hmem, List.mem_map]
  constructor
  · rintro ⟨key, hkey, rfl⟩
    obtain ⟨value, hvalue⟩ := (hkeys key).1 hkey
    obtain ⟨record, rfl⟩ := db.written _ (get?_eq_some_iff.1 hvalue)
    exact ⟨record.pubkey, ⟨record, ⟨value, hvalue⟩, rfl⟩, (slice_pubkey record).symm⟩
  · rintro ⟨-, ⟨record, hrecord, rfl⟩, rfl⟩
    exact ⟨record.key, (hkeys _).2 hrecord, slice_pubkey record⟩

/-- Where the records of one kind are asked for, the others must not bring more public keys. -/
theorem Lists.iff {listed : List Buffer} {P Q : BLSPubkey → Prop} (h : Lists listed P) (hQ : ∀ pubkey, Q pubkey → P pubkey) :
    Lists listed Q ↔ ∀ pubkey, P pubkey → Q pubkey := by
  constructor
  · rintro ⟨-, hmem⟩ pubkey hpubkey
    obtain ⟨pubkey', hQ', hbytes⟩ := (hmem _).1 ((h.2 _).2 ⟨pubkey, hpubkey, rfl⟩)
    rwa [← Vector.toList_inj.1 hbytes]
  · intro hP
    refine ⟨h.1, fun bytes => (h.2 bytes).trans ?_⟩
    exact exists_congr fun pubkey => and_congr_left fun _ => ⟨hP pubkey, hQ pubkey⟩

theorem decodeKey_encodeKey_iff (pubkey : BLSPubkey) (hn : n < 2 ^ 53) :
    BlockBySlotRepository.decodeKey (BlockBySlotRepository.encodeKey pubkey n) = { pubkey := pubkey.toList, slot := n } ↔
      BigEndian.decode (pubkey.toList.take uintLen) = n := by
  have hpubkey := slice_pubkey (.block pubkey n)
  have hslot : slice (BlockBySlotRepository.encodeKey pubkey n) DB_PREFIX_LENGTH (DB_PREFIX_LENGTH + uintLen) =
      pubkey.toList.take uintLen := List.take_append_of_le_length (by simp [pubkey.length_toList, uintLen])
  rw [← toNumber_eq_iff hn, ← hslot]
  unfold BlockBySlotRepository.decodeKey
  rw [BlockBySlotRepository.DecodedKey.mk.injEq]
  exact and_iff_right hpubkey

theorem attestation_decodeKey_encodeKey (pubkey : BLSPubkey) (hn : n < 2 ^ 53) :
    AttestationByTargetRepository.decodeKey (AttestationByTargetRepository.encodeKey pubkey n) =
      { pubkey := pubkey.toList, targetEpoch := n } := by
  have hpubkey := slice_pubkey (.attestation pubkey n)
  have hsafe : n ≤ MAX_SAFE_INTEGER := Nat.le_of_lt_succ hn
  have hepoch : slice (AttestationByTargetRepository.encodeKey pubkey n) (DB_PREFIX_LENGTH + blsPubkeyLen)
      (DB_PREFIX_LENGTH + blsPubkeyLen + uintLen) = BigEndian.encode uintLen n := by
    have hdrop : (AttestationByTargetRepository.encodeKey pubkey n).drop (DB_PREFIX_LENGTH + blsPubkeyLen) =
        BigEndian.encode uintLen n := List.drop_left' pubkey.length_toList
    unfold slice
    rw [hdrop]
    exact List.take_of_length_le (by simp [BigEndian.length_encode])
  unfold AttestationByTargetRepository.decodeKey
  rw [AttestationByTargetRepository.DecodedKey.mk.injEq]
  refine ⟨hpubkey, ?_⟩
  rw [hepoch, bytesToInt, BigEndian.decode_encode (lt_of_safe hsafe), toNumber_eq hsafe]

/-- **A block's key is read back exactly where the public key starts with the slot, an attestation's always; and the public keys that a
repository lists are its own** exactly where every record of the store is of one of them. -/
theorem slashingProtectionKeys_iff (db : ProtectionStore) :
    (∀ (pubkey : BLSPubkey) (n : Nat), n < 2 ^ 53 →
      (BlockBySlotRepository.decodeKey (BlockBySlotRepository.encodeKey pubkey n) = { pubkey := pubkey.toList, slot := n } ↔
        BigEndian.decode (pubkey.toList.take uintLen) = n) ∧
      AttestationByTargetRepository.decodeKey (AttestationByTargetRepository.encodeKey pubkey n) =
        { pubkey := pubkey.toList, targetEpoch := n }) ∧
    (Lists (BlockBySlotRepository.listPubkeys db.store) db.HasBlock ↔ ∀ record, db.Has record → db.HasBlock record.pubkey) ∧
    (Lists (AttestationByTargetRepository.listPubkeys db.store) db.HasAttestation ↔
      ∀ record, db.Has record → db.HasAttestation record.pubkey) := by
  refine ⟨fun pubkey n hn => ⟨decodeKey_encodeKey_iff pubkey hn, attestation_decodeKey_encodeKey pubkey hn⟩,
    ((listed db).iff ?_).trans ?_, ((listed db).iff ?_).trans ?_⟩
  · rintro pubkey ⟨slot, h⟩
    exact ⟨_, h, rfl⟩
  · simp
  · rintro pubkey ⟨targetEpoch, h⟩
    exact ⟨_, h, rfl⟩
  · simp

/-- A store with one attestation, for epoch 5: its public key is listed with those of the blocks.  The key of a block at slot 5 comes
back with another slot. -/
theorem slashingProtectionKeys_confused :
    let pubkey : BLSPubkey := Vector.replicate 48 1
    let store : Store := empty.insert (AttestationByTargetRepository.encodeKey pubkey 5) []
    BlockBySlotRepository.listPubkeys store = [pubkey.toList] ∧
    (∀ slot, store.get? (BlockBySlotRepository.encodeKey pubkey slot) = none) ∧
    BlockBySlotRepository.decodeKey (BlockBySlotRepository.encodeKey pubkey 5) =
      { pubkey := pubkey.toList, slot := 72340172838076672 } := by
  refine ⟨by decide +kernel, fun slot => ?_, by decide +kernel⟩
  rw [get?_insert, if_neg]
  · rfl
  · intro h
    exact absurd (List.cons.inj h).1 (by decide)

/-! ### A store with blocks and attestations -/

def storeOf (records : List ProtectionRecord) : Store := records.foldr (fun record store => store.insert record.key []) empty

theorem storeOf_get? {key : Buffer} : ∀ {records : List ProtectionRecord},
    (∃ value, (storeOf records).get? key = some value) ↔ ∃ record ∈ records, record.key = key
  | [] => by simp [storeOf, empty, get?]
  | first :: records => by
    have ih := @storeOf_get? key records
    rw [show storeOf (first :: records) = (storeOf records).insert first.key [] from rfl, get?_insert]
    split
    · rename_i hkey
      simp [hkey]
    · rename_i hkey
      have hne : ¬ first.key = key := fun h => hkey h.symm
      rw [ih]
      simp [hne]

def protectionStoreOf (records : List ProtectionRecord) : ProtectionStore where
  store := storeOf records
  written row hrow := by
    obtain ⟨record, -, hkey⟩ := storeOf_get?.1 ⟨row.2, get?_eq_some_iff.2 hrow⟩
    exact ⟨record, hkey⟩

theorem protectionStoreOf_has {records : List ProtectionRecord} {record : ProtectionRecord}
    (h : (protectionStoreOf records).Has record) : ∃ record' ∈ records, record'.pubkey = record.pubkey := by
  obtain ⟨record', hmem, hkey⟩ := storeOf_get?.1 h
  have hpubkey := (slice_pubkey record').symm.trans (hkey ▸ slice_pubkey record)
  exact ⟨record', hmem, Vector.toList_inj.1 hpubkey⟩

/-- It starts with the slot 5, in eight bytes. -/
def startsWithFive : BLSPubkey := Vector.ofFn fun i => if i.val = 7 then 5 else 0

def threeRecords : List ProtectionRecord :=
  [.block startsWithFive 5, .block (Vector.replicate 48 1) 9, .attestation (Vector.replicate 48 1) 7]

/-- Both public keys have a block, and only one has an attestation. -/
theorem slashingProtectionKeys_iff_five :
    BlockBySlotRepository.decodeKey (BlockBySlotRepository.encodeKey startsWithFive 5) =
      { pubkey := startsWithFive.toList, slot := 5 } ∧
    AttestationByTargetRepository.decodeKey (AttestationByTargetRepository.encodeKey (Vector.replicate 48 1) 7) =
      { pubkey := (Vector.replicate 48 1).toList, targetEpoch := 7 } ∧
    Lists (BlockBySlotRepository.listPubkeys (storeOf threeRecords)) (protectionStoreOf threeRecords).HasBlock ∧
    ¬ Lists (AttestationByTargetRepository.listPubkeys (storeOf threeRecords)) (protectionStoreOf threeRecords).HasAttestation := by
  obtain ⟨hkeys, hblocks, hattestations⟩ := slashingProtectionKeys_iff (protectionStoreOf threeRecords)
  have hfirst : (protectionStoreOf threeRecords).Has (.block startsWithFive 5) :=
    storeOf_get?.2 ⟨_, List.mem_cons_self, rfl⟩
  have hsecond : (protectionStoreOf threeRecords).Has (.block (Vector.replicate 48 1) 9) :=
    storeOf_get?.2 ⟨_, List.mem_cons_of_mem _ List.mem_cons_self, rfl⟩
  refine ⟨(hkeys startsWithFive 5 (by decide)).1.2 (by decide +kernel), (hkeys _ 7 (by decide)).2, hblocks.2 ?_,
    fun hlists => ?_⟩
  · intro record hrecord
    obtain ⟨record', hmem, hpubkey⟩ := protectionStoreOf_has hrecord
    rw [← hpubkey]
    simp only [threeRecords, List.mem_cons, List.not_mem_nil, or_false] at hmem
    rcases hmem with rfl | rfl | rfl
    · exact ⟨5, hfirst⟩
    · exact ⟨9, hsecond⟩
    · exact ⟨9, hsecond⟩
  · obtain ⟨targetEpoch, hhas⟩ := hattestations.1 hlists _ hfirst
    obtain ⟨record, hmem, hkey⟩ := storeOf_get?.1 hhas
    simp only [threeRecords, List.mem_cons, List.not_mem_nil, or_false] at hmem
    rcases hmem with rfl | rfl | rfl
    · exact absurd (List.cons.inj hkey).1 (by decide)
    · exact absurd (List.cons.inj hkey).1 (by decide)
    · have hpubkey : (Vector.replicate 48 1).toList = startsWithFive.toList :=
        (slice_pubkey (.attestation _ 7)).symm.trans (hkey ▸ slice_pubkey (.attestation startsWithFive targetEpoch))
      exact absurd hpubkey (by decide +kernel)

end Lodestar.Validator
