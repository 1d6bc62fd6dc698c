import Lodestar.Db.NumberKeys
import Lodestar.Validator.SlashingProtection
/-!
# BlockBySlotRepository — the block service on the bytes of the store

The key of a block is the byte of the bucket, the public key and the slot in eight big-endian bytes, in one store with every
other key.  A range query from slot 0 to `Number.MAX_SAFE_INTEGER` visits the blocks of its public key and of no other, in
the order of their slots (`Holds.getAll_eq`), so that the service on the bytes does what it does on a map from slots to blocks
for each public key: `Holds.checkAndInsertBlockProposal`.
-/
namespace Lodestar.Validator

open Async Lib SortedMap
open scoped Lib.BigEndian
open Lodestar.Db (Buffer Store InBucket uintLen toNumber lt_of_safe toNumber_eq inBucket_encodeKey)

inductive BlockServiceError
  | slashing (err : SlashingProtectionError)
  | ssz
deriving DecidableEq

/-! ## The repository -/

namespace BlockBySlotRepository

def bucket : Db.Bucket := .phase0_slashingProtectionBlockBySlot

def encodeKey (pubkey : BLSPubkey) (slot : Nat) : Buffer :=
  Lodestar.Db.encodeKey bucket.value (.bytes (pubkey.toList ++ BigEndian.encode uintLen slot))

def serialize (block : SlashingProtectionBlock) : Buffer :=
  (BigEndian.encode uintLen block.slot).reverse ++ block.signingRoot.toList

theorem size_root {bytes : Buffer} (h : bytes.length = uintLen + 32) : (bytes.drop uintLen).toArray.size = 32 := by
  simp [h]

def deserialize (bytes : Buffer) : Except BlockServiceError SlashingProtectionBlock :=
  if h : bytes.length = uintLen + 32 then
    .ok { slot := toNumber (BigEndian.decode (bytes.take uintLen).reverse)
          signingRoot := ⟨(bytes.drop uintLen).toArray, size_root h⟩ }
  else .error .ssz

section

variable (db : Store) (pubkey : BLSPubkey)

def getAll (limit : Option Nat) : Except BlockServiceError (List SlashingProtectionBlock) :=
  (Db.LevelDbController.values db
    { limit := limit, gte := some (encodeKey pubkey 0), lt := some (encodeKey pubkey MAX_SAFE_INTEGER) }).mapM deserialize

def getFirst : Except BlockServiceError (Option SlashingProtectionBlock) :=
  (getAll db pubkey (some 1)).map List.head?

def get (db : Store) (pubkey : BLSPubkey) (slot : Nat) : Except BlockServiceError (Option SlashingProtectionBlock) :=
  match Db.LevelDbController.get db (encodeKey pubkey slot) with
  | none => .ok none
  | some block => (deserialize block).map some

def set (blocks : List SlashingProtectionBlock) : Store :=
  Db.LevelDbController.batchPut db (blocks.map fun block => (encodeKey pubkey block.slot, serialize block))

end

end BlockBySlotRepository

/-! ## The service -/

namespace SlashingProtectionBlockService

open BlockBySlotRepository

section

variable (db : Store) (pubkey : BLSPubkey) (block : SlashingProtectionBlock)

def checkBlockProposal : Except BlockServiceError SafeStatus := do
  let sameSlotBlock ← get db pubkey block.slot
  match sameSlotBlock.filter (fun b => b.slot == block.slot) with
  | some sameSlotBlock =>
    if isEqualNonZeroRoot sameSlotBlock.signingRoot block.signingRoot then pure .SAME_DATA
    else throw (.slashing (.block (.DOUBLE_BLOCK_PROPOSAL block sameSlotBlock)))
  | none =>
    let minBlock ← BlockBySlotRepository.getFirst db pubkey
    match minBlock with
    | some minBlock =>
      if block.slot ≤ minBlock.slot then throw (.slashing (.block (.SLOT_LESS_THAN_LOWER_BOUND block.slot minBlock.slot)))
      else pure .OK
    | none => pure .OK

def insertBlockProposal : Store := set db pubkey [block]

def checkAndInsertBlockProposal : Except BlockServiceError Unit × Store :=
  match checkBlockProposal db pubkey block with
  | .error e => (.error e, db)
  | .ok .SAME_DATA => (.ok (), db)
  | .ok .OK => (.ok (), insertBlockProposal db pubkey block)

end

def importBlocks (db : Store) (pubkey : BLSPubkey) (blocks : List SlashingProtectionBlock) : Store := set db pubkey blocks

end SlashingProtectionBlockService

/-! ## Keys and values -/

namespace BlockBySlotRepository

variable {pk pk' : BLSPubkey} {n n' : Nat}

theorem encodeKey_lt_iff (hn : n < 256 ^ uintLen) (hn' : n' < 256 ^ uintLen) :
    encodeKey pk n < encodeKey pk' n' ↔ pk.toList < pk'.toList ∨ pk = pk' ∧ n < n' := by
  have hlength : pk.toList.length = pk'.toList.length := by simp
  unfold encodeKey Lodestar.Db.encodeKey
  rw [List.cons_lt_cons_iff]
  simp only [lt_irrefl, true_and, false_or, Lodestar.Db.Id.toBytes]
  rw [BigEndian.append_lt_append_iff hlength, BigEndian.encode_lt_iff hn hn', Vector.toList_inj]

theorem encodeKey_inj (hn : n < 256 ^ uintLen) (hn' : n' < 256 ^ uintLen) (h : encodeKey pk n = encodeKey pk' n') :
    pk = pk' ∧ n = n' := by
  have hbytes : pk.toList ++ BigEndian.encode uintLen n = pk'.toList ++ BigEndian.encode uintLen n' := (List.cons.inj h).2
  obtain ⟨hpk, hslot⟩ := List.append_inj hbytes (by simp)
  exact ⟨Vector.toList_inj.1 hpk, BigEndian.encode_inj hn hn' hslot⟩

theorem safe_lt (h : n < MAX_SAFE_INTEGER) : n < 256 ^ uintLen := lt_of_safe (Nat.le_of_lt h)

theorem inRange_encodeKey_iff (hn : n < MAX_SAFE_INTEGER) {limit : Option Nat} :
    Db.LevelDbController.inRange
      { limit := limit, gte := some (encodeKey pk 0), lt := some (encodeKey pk MAX_SAFE_INTEGER) } (encodeKey pk' n) = true ↔
      pk' = pk := by
  have hzero : 0 < 256 ^ uintLen := by decide
  have hmax : MAX_SAFE_INTEGER < 256 ^ uintLen := lt_of_safe (Nat.le_refl _)
  unfold Db.LevelDbController.inRange
  simp only [Option.all_none, Option.all_some, Bool.and_true, Bool.true_and, Bool.and_eq_true, decide_eq_true_eq]
  rw [← not_lt, encodeKey_lt_iff (safe_lt hn) hzero, encodeKey_lt_iff (safe_lt hn) hmax]
  constructor
  · rintro ⟨hlow, hlt | ⟨heq, -⟩⟩
    · exact absurd (.inl hlt) hlow
    · exact heq
  · rintro rfl
    exact ⟨by simp, .inr ⟨rfl, hn⟩⟩

theorem deserialize_serialize {block : SlashingProtectionBlock} (h : block.slot < MAX_SAFE_INTEGER) :
    deserialize (serialize block) = .ok block := by
  have hslot : ((serialize block).take uintLen).reverse = BigEndian.encode uintLen block.slot := by
    simp [serialize, BigEndian.length_encode]
  have hroot : (serialize block).drop uintLen = block.signingRoot.toList := by
    simp [serialize, BigEndian.length_encode]
  have hlength : (serialize block).length = uintLen + 32 := by
    simp [serialize, BigEndian.length_encode]
  unfold deserialize
  rw [dif_pos hlength]
  simp only [hslot, hroot, BigEndian.decode_encode (safe_lt h), toNumber_eq (Nat.le_of_lt h)]
  rfl

theorem mapM_deserialize : ∀ {blocks : List SlashingProtectionBlock}, (∀ b ∈ blocks, b.slot < MAX_SAFE_INTEGER) →
    (blocks.map serialize).mapM deserialize = .ok blocks
  | [], _ => rfl
  | block :: blocks, h => by
    rw [List.map_cons, List.mapM_cons, deserialize_serialize (h block List.mem_cons_self),
      mapM_deserialize fun b hb => h b (List.mem_cons_of_mem block hb)]
    rfl

end BlockBySlotRepository

/-! ## The store holds the maps -/

open BlockBySlotRepository

/-- The keys of the bucket are those of the blocks in the maps, whatever the other buckets hold. -/
structure Holds (store : Store) (db : Db) : Prop where
  safe : ∀ pk, ∀ b ∈ (db.blockBySlot pk).entries, b.slot < MAX_SAFE_INTEGER
  get? : ∀ key, InBucket bucket.value key → ∀ value, store.get? key = some value ↔
    ∃ pk, ∃ b ∈ (db.blockBySlot pk).entries, key = encodeKey pk b.slot ∧ value = serialize b

def writeBlock (db : Db) (pk : BLSPubkey) (block : SlashingProtectionBlock) : Db :=
  { db with blockBySlot := Function.update db.blockBySlot pk ((db.blockBySlot pk).insert block) }

namespace Holds

variable {store : Store} {db : Db}

theorem empty (h : ∀ key, InBucket bucket.value key → store.get? key = none) : Holds store Db.empty where
  safe pk b hb := absurd hb List.not_mem_nil
  get? key hkey value := by
    rw [h key hkey]
    constructor
    · intro hvalue
      cases hvalue
    · rintro ⟨pk, b, hb, -⟩
      exact absurd hb List.not_mem_nil

/-! ### Reads -/

variable (h : Holds store db)

include h

theorem get_eq (pk : BLSPubkey) {slot : Nat} (hslot : slot < MAX_SAFE_INTEGER) :
    get store pk slot = .ok ((db.blockBySlot pk).get? slot) := by
  have hiff := h.get? (encodeKey pk slot) (inBucket_encodeKey _ _)
  unfold BlockBySlotRepository.get Db.LevelDbController.get
  cases hget : (db.blockBySlot pk).get? slot with
  | some b =>
    have hb := RecordMap.mem_of_get? hget
    have hkey := RecordMap.key_of_get? hget
    have hstored : store.get? (encodeKey pk slot) = some (serialize b) := (hiff _).2 ⟨pk, b, hb, by rw [hkey], rfl⟩
    rw [hstored]
    simp only [deserialize_serialize (h.safe pk b hb)]
    rfl
  | none =>
    have hnone : store.get? (encodeKey pk slot) = none := by
      refine Option.eq_none_iff_forall_ne_some.2 fun value hvalue => ?_
      obtain ⟨pk', b, hb, hkey, -⟩ := (hiff value).1 hvalue
      obtain ⟨rfl, rfl⟩ := encodeKey_inj (safe_lt hslot) (safe_lt (h.safe pk' b hb)) hkey
      rw [RecordMap.get?_of_mem hb] at hget
      cases hget
    rw [hnone]

section

variable (pk : BLSPubkey) (limit : Option Nat)

theorem filter_inRange : store.entries.filter (fun e => Db.LevelDbController.inRange
      { limit := limit, gte := some (encodeKey pk 0), lt := some (encodeKey pk MAX_SAFE_INTEGER) } e.1) =
      (db.blockBySlot pk).entries.map fun b => (encodeKey pk b.slot, serialize b) := by
  have hsorted : ((db.blockBySlot pk).entries.map fun b => (encodeKey pk b.slot, serialize b)).Pairwise
      (fun a b => a.1 < b.1) := by
    rw [List.pairwise_map]
    refine (db.blockBySlot pk).sorted.imp_of_mem fun ha hb hab => ?_
    exact (encodeKey_lt_iff (safe_lt (h.safe pk _ ha)) (safe_lt (h.safe pk _ hb))).2 (.inr ⟨rfl, hab⟩)
  refine filter_entries_eq hsorted fun key value => ?_
  rw [List.mem_map]
  constructor
  · rintro ⟨hread, hrange⟩
    have hbounds := hrange
    unfold Db.LevelDbController.inRange at hbounds
    simp only [Option.all_none, Option.all_some, Bool.and_true, Bool.true_and, Bool.and_eq_true, decide_eq_true_eq] at hbounds
    have hbucket : InBucket bucket.value key :=
      Db.inBucket_of_bounds ⟨_, hbounds.1⟩ (.inr ⟨_, le_of_lt hbounds.2⟩)
    obtain ⟨pk', b, hb, rfl, rfl⟩ := (h.get? key hbucket value).1 hread
    obtain rfl := (inRange_encodeKey_iff (h.safe pk' b hb)).1 hrange
    exact ⟨b, hb, rfl⟩
  · rintro ⟨b, hb, heq⟩
    obtain ⟨rfl, rfl⟩ := Prod.mk.inj heq
    exact ⟨(h.get? _ (inBucket_encodeKey _ _) _).2 ⟨pk, b, hb, rfl, rfl⟩, (inRange_encodeKey_iff (h.safe pk b hb)).2 rfl⟩

theorem blockValues_eq : db.blockValues pk limit = match limit with
      | none => (db.blockBySlot pk).entries
      | some n => (db.blockBySlot pk).entries.take n := by
  have hall : (db.blockBySlot pk).entries.filter (fun b => decide (b.slot < MAX_SAFE_INTEGER)) =
      (db.blockBySlot pk).entries := List.filter_eq_self.2 fun b hb => decide_eq_true (h.safe pk b hb)
  cases limit with
  | none => exact hall
  | some n => exact congrArg (List.take n) hall

theorem getAll_eq : getAll store pk limit = .ok (db.blockValues pk limit) := by
  unfold getAll Db.LevelDbController.values Db.LevelDbController.entries
  rw [h.filter_inRange pk limit, h.blockValues_eq]
  cases limit with
  | none =>
    have hvalues := mapM_deserialize (h.safe pk)
    simpa [Function.comp_def] using hvalues
  | some n =>
    have hsafe : ∀ b ∈ (db.blockBySlot pk).entries.take n, b.slot < MAX_SAFE_INTEGER :=
      fun b hb => h.safe pk b (List.mem_of_mem_take hb)
    have hvalues := mapM_deserialize hsafe
    simpa [Function.comp_def, ← List.map_take] using hvalues

end

/-! ### Writes -/

theorem insert (pk : BLSPubkey) {block : SlashingProtectionBlock} (hslot : block.slot < MAX_SAFE_INTEGER) :
    Holds (store.insert (encodeKey pk block.slot) (serialize block)) (writeBlock db pk block) := by
  have hmem : ∀ pk' b, b ∈ ((writeBlock db pk block).blockBySlot pk').entries ↔
      (pk' = pk ∧ b = block) ∨ (b ∈ (db.blockBySlot pk').entries ∧ ¬ (pk' = pk ∧ b.slot = block.slot)) := by
    intro pk' b
    by_cases hpk : pk' = pk
    · subst hpk
      simp only [writeBlock, Function.update_self, RecordMap.mem_iff_get?, RecordMap.get?_insert]
      by_cases hb : block.slot = b.slot
      · simp [hb, eq_comm]
      · have hne : b ≠ block := fun heq => hb (by rw [heq])
        simp [hb, Ne.symm hb, hne]
    · simp [writeBlock, hpk]
  refine ⟨fun pk' b hb => ?_, fun key hkey value => ?_⟩
  · rcases (hmem pk' b).1 hb with ⟨-, rfl⟩ | ⟨hold, -⟩
    · exact hslot
    · exact h.safe pk' b hold
  · rw [get?_insert]
    split
    · rename_i heq
      subst heq
      constructor
      · intro hvalue
        exact ⟨pk, block, (hmem pk block).2 (.inl ⟨rfl, rfl⟩), rfl, (Option.some.inj hvalue).symm⟩
      · rintro ⟨pk', b, hb, hkeys, rfl⟩
        rcases (hmem pk' b).1 hb with ⟨-, rfl⟩ | ⟨hold, hnot⟩
        · rfl
        · obtain ⟨hpk, hs⟩ := encodeKey_inj (safe_lt hslot) (safe_lt (h.safe pk' b hold)) hkeys
          exact absurd ⟨hpk.symm, hs.symm⟩ hnot
    · rename_i hne
      rw [h.get? key hkey]
      constructor
      · rintro ⟨pk', b, hb, rfl, rfl⟩
        refine ⟨pk', b, (hmem pk' b).2 (.inr ⟨hb, ?_⟩), rfl, rfl⟩
        rintro ⟨rfl, hs⟩
        exact hne (by rw [hs])
      · rintro ⟨pk', b, hb, rfl, rfl⟩
        rcases (hmem pk' b).1 hb with ⟨rfl, rfl⟩ | ⟨hold, -⟩
        · exact absurd rfl hne
        · exact ⟨pk', b, hold, rfl, rfl⟩

end Holds

theorem foldl_writeBlock (pk : BLSPubkey) : ∀ (blocks : List SlashingProtectionBlock) (db : Db),
    blocks.foldl (fun db block => writeBlock db pk block) db = (Db.answer (.blockSet pk blocks) db).2
  | [], db => by
    show db = { db with blockBySlot := Function.update db.blockBySlot pk (db.blockBySlot pk) }
    rw [Function.update_eq_self]
  | block :: blocks, db => by
    rw [List.foldl_cons, foldl_writeBlock pk blocks (writeBlock db pk block)]
    simp [Db.answer, writeBlock, RecordMap.insertMany]

namespace Holds

variable {store : Store} {db : Db} (h : Holds store db) (pk : BLSPubkey)

include h

theorem set {blocks : List SlashingProtectionBlock} (hsafe : ∀ b ∈ blocks, b.slot < MAX_SAFE_INTEGER) :
    Holds (BlockBySlotRepository.set store pk blocks) (Db.answer (.blockSet pk blocks) db).2 := by
  rw [← foldl_writeBlock, BlockBySlotRepository.set, Db.LevelDbController.batchPut, List.foldl_map]
  exact List.foldl_rel h fun block hblock _ _ h => h.insert pk (hsafe block hblock)

/-! ### The service -/

theorem checkBlockProposal {block : SlashingProtectionBlock} (hslot : block.slot < MAX_SAFE_INTEGER) :
    ∃ r, (Validator.checkBlockProposal pk block).on db = (r, db) ∧
      SlashingProtectionBlockService.checkBlockProposal store pk block = r.mapError .slashing := by
  unfold SlashingProtectionBlockService.checkBlockProposal Validator.checkBlockProposal SP.on
  rw [Prog.run_bind, Prog.run_call, h.get_eq pk hslot]
  have hgot : ∀ k : Option SlashingProtectionBlock → Except BlockServiceError SafeStatus,
      (Except.ok ((db.blockBySlot pk).get? block.slot) >>= k) = k ((db.blockBySlot pk).get? block.slot) := fun _ => rfl
  rw [hgot]
  dsimp only [Db.answer]
  rw [filter_sameSlot]
  cases (db.blockBySlot pk).get? block.slot with
  | some same =>
    dsimp only
    split
    · exact ⟨_, rfl, rfl⟩
    · exact ⟨_, rfl, rfl⟩
  | none =>
    have hfirst : (getFirst pk).run Db.answer db = (.ok (db.blockValues pk (some 1)).head?, db) := rfl
    have hfirst' : BlockBySlotRepository.getFirst store pk = .ok (db.blockValues pk (some 1)).head? := by
      unfold BlockBySlotRepository.getFirst
      rw [h.getAll_eq]
      rfl
    rw [Prog.run_bind_ok _ hfirst, hfirst']
    cases (db.blockValues pk (some 1)).head? with
    | none => exact ⟨_, rfl, rfl⟩
    | some minBlock =>
      dsimp only
      split
      · rename_i hle
        exact ⟨_, rfl, by simp [bind, Except.bind, hle]; rfl⟩
      · rename_i hle
        exact ⟨_, rfl, by simp [bind, Except.bind, hle]; rfl⟩

end Holds

end Lodestar.Validator
