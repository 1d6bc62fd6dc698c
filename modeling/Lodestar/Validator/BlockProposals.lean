import Mathlib.Order.Bounds.Basic
import Lodestar.Validator.BlockBySlotRepository
/-!
# BlockProposals — what the block service accepts over a whole run

Calls for any public keys, one after the other, on the bytes of one store.  The store always holds what the calls recorded
(`runBlockCalls_holds`), so a proposal is accepted only where it repeats a record or is new and above the least slot on record.
What other public keys do changes nothing for a public key: `checkAndInsertBlockProposal_run_safe`.
-/
namespace Lodestar.Validator

open Async Lib BlockBySlotRepository
open scoped Lib.BigEndian
open Lodestar.Db (Store InBucket)

inductive BlockCall
  | checkAndInsert (pubkey : BLSPubkey) (block : SlashingProtectionBlock)
  | importAll (pubkey : BLSPubkey) (blocks : List SlashingProtectionBlock)
deriving DecidableEq

namespace BlockCall

def pubkey : BlockCall → BLSPubkey
  | checkAndInsert pubkey _ => pubkey
  | importAll pubkey _ => pubkey

def blocks : BlockCall → List SlashingProtectionBlock
  | checkAndInsert _ block => [block]
  | importAll _ blocks => blocks

def run (store : Store) : BlockCall → Except BlockServiceError Unit × Store
  | checkAndInsert pubkey block => SlashingProtectionBlockService.checkAndInsertBlockProposal store pubkey block
  | importAll pubkey blocks => (.ok (), SlashingProtectionBlockService.importBlocks store pubkey blocks)

end BlockCall

def runBlockCalls : Store → List BlockCall → List (BlockCall × Except BlockServiceError Unit) × Store
  | store, [] => ([], store)
  | store, call :: calls =>
    let rest := runBlockCalls (call.run store).2 calls
    ((call, (call.run store).1) :: rest.1, rest.2)

def record (pk : BLSPubkey) (blocks : RecordMap SlashingProtectionBlock.slot)
    (outcome : BlockCall × Except BlockServiceError Unit) : RecordMap SlashingProtectionBlock.slot :=
  if outcome.1.pubkey = pk ∧ outcome.2.isOk then blocks.insertMany outcome.1.blocks else blocks

def recordedFor (pk : BLSPubkey) (outcomes : List (BlockCall × Except BlockServiceError Unit)) :
    RecordMap SlashingProtectionBlock.slot :=
  outcomes.foldl (record pk) .empty

/-! ## One call -/

theorem insert_of_same {blocks : RecordMap SlashingProtectionBlock.slot} {same block : SlashingProtectionBlock}
    (hget : blocks.get? block.slot = some same) (hroot : isEqualNonZeroRoot same.signingRoot block.signingRoot = true) :
    blocks.insertMany [block] = blocks := by
  have hsame : same = block := by
    have hslot := RecordMap.key_of_get? hget
    simp only [isEqualNonZeroRoot, Bool.and_eq_true, decide_eq_true_eq] at hroot
    cases same
    cases block
    simp_all
  refine RecordMap.ext_get? fun slot => ?_
  show (blocks.insert block).get? slot = _
  rw [RecordMap.get?_insert]
  split
  · rename_i hslot
    rw [← hslot, hget, hsame]
  · rfl

variable {db : Db} {pk : BLSPubkey} {block : SlashingProtectionBlock}

theorem blockSafeStatus_same (h : db.blockSafeStatus pk block = some .SAME_DATA) :
    ∃ same, (db.blockBySlot pk).get? block.slot = some same ∧
      isEqualNonZeroRoot same.signingRoot block.signingRoot = true := by
  unfold Db.blockSafeStatus at h
  cases hget : (db.blockBySlot pk).get? block.slot with
  | some same =>
    rw [hget] at h
    dsimp only at h
    split at h
    · rename_i hroot
      exact ⟨same, rfl, hroot⟩
    · cases h
  | none =>
    rw [hget] at h
    dsimp only at h
    split at h
    · split at h <;> cases h
    · cases h

theorem blockSafeStatus_ok (h : db.blockSafeStatus pk block = some .OK) : (db.blockBySlot pk).get? block.slot = none ∧
      ∀ first, (db.blockValues pk (some 1)).head? = some first → first.slot < block.slot := by
  unfold Db.blockSafeStatus at h
  cases hget : (db.blockBySlot pk).get? block.slot with
  | some same =>
    rw [hget] at h
    dsimp only at h
    split at h <;> cases h
  | none =>
    rw [hget] at h
    refine ⟨rfl, fun first hfirst => ?_⟩
    rw [hfirst] at h
    dsimp only at h
    split at h
    · cases h
    · rename_i hle
      exact Nat.not_le.1 hle

theorem BlockCall.run_holds {store : Store} (h : Holds store db) {call : BlockCall}
    (hsafe : ∀ b ∈ call.blocks, b.slot < MAX_SAFE_INTEGER) :
    ∃ db', Holds (call.run store).2 db' ∧ ∀ pk, db'.blockBySlot pk = record pk (db.blockBySlot pk) (call, (call.run store).1) := by
  have hwritten : ∀ (pk pk' : BLSPubkey) (blocks : List SlashingProtectionBlock),
      (Db.answer (.blockSet pk' blocks) db).2.blockBySlot pk =
        if pk' = pk then (db.blockBySlot pk).insertMany blocks else db.blockBySlot pk := by
    intro pk pk' blocks
    by_cases hpk : pk' = pk
    · subst hpk
      simp [Db.answer]
    · simp [Db.answer, hpk, Ne.symm hpk]
  cases call with
  | importAll pubkey blocks =>
    refine ⟨_, h.set pubkey hsafe, fun pk => ?_⟩
    rw [hwritten]
    simp [record, BlockCall.run, BlockCall.pubkey, BlockCall.blocks, Except.isOk, Except.toBool]
  | checkAndInsert pubkey block =>
    have hslot : block.slot < MAX_SAFE_INTEGER := hsafe block List.mem_cons_self
    obtain ⟨r, hcheck, hcheck'⟩ := h.checkBlockProposal pubkey hslot
    obtain ⟨r', hrun, hstatus⟩ := checkBlockProposal_run pubkey block db
    obtain rfl : r' = r := congrArg Prod.fst (hrun.symm.trans hcheck)
    unfold BlockCall.run SlashingProtectionBlockService.checkAndInsertBlockProposal
    dsimp only
    rw [hcheck']
    cases r' with
    | error e => exact ⟨db, h, fun pk => by simp [record, Except.mapError, Except.isOk, Except.toBool]⟩
    | ok status =>
      cases status with
      | SAME_DATA =>
        obtain ⟨same, hget, hroot⟩ := blockSafeStatus_same hstatus.symm
        refine ⟨db, h, fun pk => ?_⟩
        by_cases hpk : pubkey = pk
        · subst hpk
          have hinsert := insert_of_same hget hroot
          simp [record, BlockCall.pubkey, BlockCall.blocks, Except.mapError, Except.isOk, Except.toBool, hinsert]
        · simp [record, BlockCall.pubkey, hpk]
      | OK =>
        refine ⟨_, h.set pubkey fun b hb => List.mem_singleton.1 hb ▸ hslot, fun pk => ?_⟩
        rw [hwritten]
        simp [record, BlockCall.pubkey, BlockCall.blocks, Except.mapError, Except.isOk, Except.toBool]

theorem accepted_of_holds {store store' : Store} (h : Holds store db) (hslot : block.slot < MAX_SAFE_INTEGER)
    (hrun : SlashingProtectionBlockService.checkAndInsertBlockProposal store pk block = (.ok (), store')) :
    (∃ same, (db.blockBySlot pk).get? block.slot = some same ∧
      isEqualNonZeroRoot same.signingRoot block.signingRoot = true) ∨
    ((db.blockBySlot pk).get? block.slot = none ∧
      ∀ least, IsLeast { slot | ((db.blockBySlot pk).get? slot).isSome } least → least < block.slot) := by
  obtain ⟨r, hcheck, hcheck'⟩ := h.checkBlockProposal pk hslot
  obtain ⟨r', hrun', hstatus⟩ := checkBlockProposal_run pk block db
  obtain rfl : r' = r := congrArg Prod.fst (hrun'.symm.trans hcheck)
  unfold SlashingProtectionBlockService.checkAndInsertBlockProposal at hrun
  rw [hcheck'] at hrun
  rcases r' with e | _ | _
  · cases hrun
  · exact .inl (blockSafeStatus_same hstatus.symm)
  · obtain ⟨hnone, hfirst⟩ := blockSafeStatus_ok hstatus.symm
    refine .inr ⟨hnone, fun least hleast => ?_⟩
    obtain ⟨b, hb⟩ := Option.isSome_iff_exists.1 hleast.1
    -- the first of the blocks in slot order has the least slot
    rw [h.blockValues_eq, List.head?_take] at hfirst
    cases hentries : (db.blockBySlot pk).entries with
    | nil =>
      have hmem := RecordMap.mem_of_get? hb
      rw [hentries] at hmem
      exact absurd hmem List.not_mem_nil
    | cons first rest =>
      have hlt := hfirst first (by rw [hentries]; rfl)
      have hmem : first ∈ (db.blockBySlot pk).entries := by
        rw [hentries]
        exact List.mem_cons_self
      have hle : least ≤ first.slot := hleast.2 (Option.isSome_iff_exists.2 ⟨first, RecordMap.get?_of_mem hmem⟩)
      omega

/-! ## A run -/

theorem runBlockCalls_holds : ∀ (calls : List BlockCall) {store : Store} {db : Db}, Holds store db →
    (∀ call ∈ calls, ∀ b ∈ call.blocks, b.slot < MAX_SAFE_INTEGER) → ∃ db', Holds (runBlockCalls store calls).2 db' ∧
      ∀ pk, db'.blockBySlot pk = (runBlockCalls store calls).1.foldl (record pk) (db.blockBySlot pk)
  | [], _, db, h, _ => ⟨db, h, fun _ => rfl⟩
  | call :: calls, store, db, h, hsafe => by
    obtain ⟨db₁, h₁, hrecord⟩ := BlockCall.run_holds h (hsafe call List.mem_cons_self)
    obtain ⟨db', h', hrest⟩ := runBlockCalls_holds calls h₁ fun c hc => hsafe c (List.mem_cons_of_mem call hc)
    refine ⟨db', h', fun pk => ?_⟩
    rw [hrest pk, hrecord pk]
    rfl

/-! ## Other public keys -/

section TwoStores

variable {store store' : Store} {db db' : Db} (h : Holds store db) (h' : Holds store' db')

include h h'

theorem getAll_congr {pk : BLSPubkey} (heq : db.blockBySlot pk = db'.blockBySlot pk) (limit : Option Nat) :
    getAll store pk limit = getAll store' pk limit := by
  rw [h.getAll_eq, h'.getAll_eq, h.blockValues_eq, h'.blockValues_eq, heq]

theorem BlockCall.run_congr {call : BlockCall} (hsafe : ∀ b ∈ call.blocks, b.slot < MAX_SAFE_INTEGER)
    (heq : db.blockBySlot call.pubkey = db'.blockBySlot call.pubkey) : (call.run store).1 = (call.run store').1 := by
  cases call with
  | importAll pubkey blocks => rfl
  | checkAndInsert pubkey block =>
    have hslot : block.slot < MAX_SAFE_INTEGER := hsafe block List.mem_cons_self
    have hcheck : SlashingProtectionBlockService.checkBlockProposal store pubkey block =
        SlashingProtectionBlockService.checkBlockProposal store' pubkey block := by
      have hblocks : db.blockBySlot pubkey = db'.blockBySlot pubkey := heq
      have hall := getAll_congr h h' hblocks (some 1)
      unfold SlashingProtectionBlockService.checkBlockProposal BlockBySlotRepository.getFirst
      rw [h.get_eq pubkey hslot, h'.get_eq pubkey hslot, hall, hblocks]
    unfold BlockCall.run SlashingProtectionBlockService.checkAndInsertBlockProposal
    dsimp only
    rw [hcheck]
    split <;> rfl

end TwoStores

theorem runBlockCalls_filter (pk : BLSPubkey) : ∀ (calls : List BlockCall) {store store' : Store} {db db' : Db},
    Holds store db → Holds store' db' → db.blockBySlot pk = db'.blockBySlot pk →
    (∀ call ∈ calls, ∀ b ∈ call.blocks, b.slot < MAX_SAFE_INTEGER) →
    (runBlockCalls store calls).1.filter (fun outcome => decide (outcome.1.pubkey = pk)) =
      (runBlockCalls store' (calls.filter fun call => decide (call.pubkey = pk))).1
  | [], _, _, _, _, _, _, _, _ => rfl
  | call :: calls, store, store', db, db', h, h', heq, hsafe => by
    have hcall := hsafe call List.mem_cons_self
    have hcalls : ∀ c ∈ calls, ∀ b ∈ c.blocks, b.slot < MAX_SAFE_INTEGER := fun c hc => hsafe c (List.mem_cons_of_mem call hc)
    obtain ⟨db₁, h₁, hrecord⟩ := BlockCall.run_holds h hcall
    by_cases hpk : call.pubkey = pk
    · subst hpk
      have hsame := BlockCall.run_congr h h' hcall heq
      obtain ⟨db₁', h₁', hrecord'⟩ := BlockCall.run_holds h' hcall
      have hafter : db₁.blockBySlot call.pubkey = db₁'.blockBySlot call.pubkey := by
        rw [hrecord, hrecord', heq, hsame]
      have hrest := runBlockCalls_filter call.pubkey calls h₁ h₁' hafter hcalls
      simp [runBlockCalls, hrest, hsame]
    · have hafter : db₁.blockBySlot pk = db'.blockBySlot pk := by
        rw [hrecord, ← heq]
        simp [record, hpk]
      have hrest := runBlockCalls_filter pk calls h₁ h' hafter hcalls
      simp [runBlockCalls, hrest, hpk]

theorem foldl_record_filter (pk : BLSPubkey) : ∀ (outcomes : List (BlockCall × Except BlockServiceError Unit))
    (blocks : RecordMap SlashingProtectionBlock.slot),
    (outcomes.filter fun outcome => decide (outcome.1.pubkey = pk)).foldl (record pk) blocks = outcomes.foldl (record pk) blocks
  | [], _ => rfl
  | outcome :: outcomes, blocks => by
    by_cases hpk : outcome.1.pubkey = pk
    · simp [hpk, foldl_record_filter pk outcomes]
    · simp [hpk, record, foldl_record_filter pk outcomes]

/-- **A whole run of the block service, for any public keys, on a store whose bucket was empty.**  The store reads as what the
calls recorded; a proposal that is accepted repeats a record, or has a slot that no record has and that is above the least one
on record; and the calls for a public key, and what is read of its blocks, are as if there were no other public key. -/
theorem checkAndInsertBlockProposal_run_safe (store : Store) (hempty : ∀ key, InBucket bucket.value key → store.get? key = none)
    (calls : List BlockCall) (hsafe : ∀ call ∈ calls, ∀ b ∈ call.blocks, b.slot < MAX_SAFE_INTEGER) (pk : BLSPubkey) :
    let outcomes := (runBlockCalls store calls).1
    let after := (runBlockCalls store calls).2
    let own := runBlockCalls store (calls.filter fun call => decide (call.pubkey = pk))
    (∀ slot, slot < MAX_SAFE_INTEGER → get after pk slot = .ok ((recordedFor pk outcomes).get? slot)) ∧
    (∀ block store', block.slot < MAX_SAFE_INTEGER →
      SlashingProtectionBlockService.checkAndInsertBlockProposal after pk block = (.ok (), store') →
      (∃ same, (recordedFor pk outcomes).get? block.slot = some same ∧
        isEqualNonZeroRoot same.signingRoot block.signingRoot = true) ∨
      ((recordedFor pk outcomes).get? block.slot = none ∧
        ∀ least, IsLeast { slot | ((recordedFor pk outcomes).get? slot).isSome } least → least < block.slot)) ∧
    outcomes.filter (fun outcome => decide (outcome.1.pubkey = pk)) = own.1 ∧
    ∀ limit, getAll after pk limit = getAll own.2 pk limit := by
  intro outcomes after own
  have hstart := Holds.empty hempty
  have hown : ∀ call ∈ calls.filter fun call => decide (call.pubkey = pk), ∀ b ∈ call.blocks, b.slot < MAX_SAFE_INTEGER :=
    fun call hcall => hsafe call (List.mem_of_mem_filter hcall)
  obtain ⟨db, h, hrecords⟩ := runBlockCalls_holds calls hstart hsafe
  obtain ⟨db', h', hrecords'⟩ := runBlockCalls_holds _ hstart hown
  have hrecorded : recordedFor pk outcomes = db.blockBySlot pk := (hrecords pk).symm
  have hfilter := runBlockCalls_filter pk calls hstart hstart rfl hsafe
  have hsame : db.blockBySlot pk = db'.blockBySlot pk := by
    rw [hrecords, hrecords', ← hfilter, foldl_record_filter]
  rw [hrecorded]
  exact ⟨fun slot hslot => h.get_eq pk hslot, fun block store' hslot hrun => accepted_of_holds h hslot hrun, hfilter,
    getAll_congr h h' hsame⟩

def twoProposers : List BlockCall :=
  [.checkAndInsert (Vector.replicate 48 1) ⟨5, Vector.replicate 32 7⟩,
   .importAll (Vector.replicate 48 2) [⟨9, zeroRoot⟩, ⟨300, zeroRoot⟩]]

theorem checkAndInsertBlockProposal_run_safe_two :
    let after := (runBlockCalls .empty twoProposers).2
    (SlashingProtectionBlockService.checkAndInsertBlockProposal after (Vector.replicate 48 1) ⟨6, zeroRoot⟩).1 = .ok () ∧
    ∀ least, IsLeast { slot | ((recordedFor (Vector.replicate 48 1) (runBlockCalls .empty twoProposers).1).get? slot).isSome }
      least → least < 6 := by
  intro after
  have hrun : (SlashingProtectionBlockService.checkAndInsertBlockProposal after (Vector.replicate 48 1) ⟨6, zeroRoot⟩).1 =
      .ok () := by decide +kernel
  have hslots : ∀ call ∈ twoProposers, ∀ b ∈ call.blocks, b.slot < MAX_SAFE_INTEGER := by
    simp [twoProposers, BlockCall.blocks, MAX_SAFE_INTEGER]
  have hok : ∀ outcome : Except BlockServiceError Unit × Store, outcome.1 = .ok () → outcome = (.ok (), outcome.2) :=
    fun outcome h => Prod.ext h rfl
  refine ⟨hrun, ?_⟩
  have hslot : (⟨6, zeroRoot⟩ : SlashingProtectionBlock).slot < MAX_SAFE_INTEGER := by simp [MAX_SAFE_INTEGER]
  have hsafe := (checkAndInsertBlockProposal_run_safe .empty (fun _ _ => rfl) twoProposers hslots
    (Vector.replicate 48 1)).2.1 ⟨6, zeroRoot⟩ _ hslot (hok _ hrun)
  rcases hsafe with ⟨same, -, hroot⟩ | ⟨-, hleast⟩
  · simp [isEqualNonZeroRoot] at hroot
  · exact hleast

end Lodestar.Validator
