import Lodestar.Db.NumberKeys
import Lodestar.Db.Isolation
import Lodestar.StateTransition.State
/-!
# BlockOperations — what the import of a block deletes

`processBlockOperations` removes the operations of a block and the old deposit events.  These are stored under numbers, but
`decodeKey` is not overridden, so the first key comes back as bytes.  A sum with it is a text that starts with a digit, and
the key of a safe integer starts with a zero byte: no stored event is deleted, whatever number the bytes convert to.
-/
namespace Lodestar.Db

open Lib SortedMap StateTransition
open scoped Lib.BigEndian

theorem head?_encode_safe {n : Nat} (h : n ≤ MAX_SAFE_INTEGER) : (BigEndian.encode uintLen n).head? = some 0 := by
  have hlength := BigEndian.length_encode uintLen n
  have hdecode := BigEndian.decode_encode (lt_of_safe h)
  cases hbytes : BigEndian.encode uintLen n with
  | nil =>
    rw [hbytes] at hlength
    cases hlength
  | cons byte bytes =>
    rw [hbytes] at hlength hdecode
    have hrest : bytes.length = 7 := by simpa [uintLen] using hlength
    rw [BigEndian.decode_cons, hrest] at hdecode
    have hsafe : MAX_SAFE_INTEGER < 256 ^ 7 := by decide
    have hzero : byte.toNat = 0 := by
      by_contra hne
      omega
    rw [List.head?_cons, show byte = 0 from UInt8.toNat_inj.1 hzero]

theorem head?_toBytes_string {c : Char} {rest : List Char} {text : String} (h : text.toList = c :: rest) (hc : c.toNat < 0x80) :
    (Id.string text).toBytes.head? = some (UInt8.ofNat c.toNat) := by
  have hchar := Utf8.encodeChar_ascii hc
  have hroom : 1 ≤ utf16Length (c :: rest) := by
    unfold utf16Length
    rw [List.map_cons, List.sum_cons]
    split <;> omega
  unfold Id.toBytes
  dsimp only
  rw [h]
  unfold writeText
  rw [hchar, List.length_singleton, if_pos hroom]
  rfl

theorem toList_digits (i : Nat) (text : String) :
    ∃ c rest, (toString i ++ text).toList = c :: rest ∧ 0x30 ≤ c.toNat ∧ c.toNat < 0x80 := by
  have hdigits : (toString i).toList = Nat.toDigits 10 i := Nat.toList_repr
  cases hlist : Nat.toDigits 10 i with
  | nil => exact absurd hlist Nat.toDigits_ne_nil
  | cons c rest =>
    have hdigit : c.isDigit = true := Nat.isDigit_of_mem_toDigits (by decide) (by decide) (hlist ▸ List.mem_cons_self)
    obtain ⟨hlow, hhigh⟩ : 0x30 ≤ c.toNat ∧ c.toNat ≤ 0x39 := Char.isDigit_iff_toNat.1 hdigit
    refine ⟨c, rest ++ text.toList, ?_, hlow, by omega⟩
    rw [String.toList_append, hdigits, hlist, List.cons_append]

namespace Rows

variable {V : Type} {repository : Repository V} {db : Store} {rows : SortedMap Nat Buffer}

theorem delete_other (h : Rows repository db rows) {id : Id}
    (hid : ∀ n ≤ MAX_SAFE_INTEGER, repository.encodeKey (.number n) ≠ repository.encodeKey id) :
    Rows repository (repository.delete db id) rows where
  safe := h.safe
  get? key hkey value := by
    unfold Repository.delete LevelDbController.delete
    rw [get?_erase]
    by_cases heq : key = repository.encodeKey id
    · rw [if_pos heq]
      constructor
      · intro hvalue
        cases hvalue
      · rintro ⟨n, hkey', hget⟩
        exact absurd (hkey'.symm.trans heq) (hid n (h.safe_of_get? hget))
    · rw [if_neg heq]
      exact h.get? key hkey value

theorem batchDelete_other (h : Rows repository db rows) {ids : List Id}
    (hids : ∀ id ∈ ids, ∀ n ≤ MAX_SAFE_INTEGER, repository.encodeKey (.number n) ≠ repository.encodeKey id) :
    Rows repository (repository.batchDelete db ids) rows := by
  unfold Repository.batchDelete LevelDbController.batchDelete
  rw [List.foldl_map]
  exact List.foldlRecOn (motive := (Rows repository · rows)) ids _ h fun _ h id hid => h.delete_other (hids id hid)

end Rows

namespace BeaconDb.DepositEventRepository

variable {values : Values} {db : Store} {rows : SortedMap Nat Buffer}

theorem encodeKey_ne_of_mem_oldIndices {depositCount n : Nat} {first : Buffer} {id : Id} (hn : n ≤ MAX_SAFE_INTEGER)
    (h : id ∈ oldIndices values depositCount (.bytes first)) :
    (depositEvent values).encodeKey (.number n) ≠ (depositEvent values).encodeKey id := by
  unfold oldIndices at h
  dsimp only at h
  split at h
  · exact absurd h List.not_mem_nil
  · obtain ⟨i, -, rfl⟩ := List.mem_map.1 h
    intro hkey
    obtain ⟨c, rest, hlist, hlow, hhigh⟩ := toList_digits i (String.ofList (Utf8.decode first))
    have hbytes : (Id.number n).toBytes = (Id.string (toString i ++ String.ofList (Utf8.decode first))).toBytes :=
      (List.cons.inj hkey).2
    have hhead := head?_toBytes_string hlist hhigh
    rw [← hbytes] at hhead
    have hzero : (Id.number n).toBytes.head? = some 0 := head?_encode_safe hn
    rw [hzero, Option.some.injEq] at hhead
    have hnat := congrArg UInt8.toNat hhead
    rw [UInt8.toNat_ofNat'] at hnat
    change 0 = _ at hnat
    omega

theorem deleteOld_rows (h : Rows (depositEvent values) db rows) (depositCount : Nat) :
    Rows (depositEvent values) (deleteOld values db depositCount) rows := by
  unfold deleteOld
  split
  · exact h
  · rename_i firstDepositIndex hfirst
    obtain ⟨key, -, rfl⟩ : ∃ key, key ∈ LevelDbController.keys db ((depositEvent values).dbFilterOptions { limit := some 1 }) ∧
        bytesKey key = firstDepositIndex := List.mem_map.1 (List.mem_of_head? hfirst)
    exact h.batchDelete_other fun id hid n hn => encodeKey_ne_of_mem_oldIndices hn hid

end BeaconDb.DepositEventRepository

/-! ## A block -/

structure OperationValues (values : Values) where
  ofVoluntaryExit : SignedVoluntaryExit → values.Value .voluntaryExit
  ofProposerSlashing : ProposerSlashing → values.Value .proposerSlashing
  ofAttesterSlashing : AttesterSlashing → values.Value .attesterSlashing
  ofAttestation : Attestation → values.Attestation

namespace BeaconDb

variable {values : Values} (operations : OperationValues values)

def blockOperationCalls (body : BeaconBlockBody) : List (Call values) :=
  [⟨_, .repository .voluntaryExit (.batchRemove (body.voluntaryExits.map operations.ofVoluntaryExit))⟩,
    ⟨_, .depositEventDeleteOld body.eth1Data.depositCount⟩,
    ⟨_, .repository .proposerSlashing (.batchRemove (body.proposerSlashings.map operations.ofProposerSlashing))⟩,
    ⟨_, .repository .attesterSlashing (.batchRemove (body.attesterSlashings.map operations.ofAttesterSlashing))⟩,
    ⟨_, .removeIncluded (body.attestations.map operations.ofAttestation)⟩]

def processBlockOperations (P : Preset) (db : Store) (signedBlock : StateTransition.SignedBeaconBlock) : Store :=
  run values P db (blockOperationCalls operations signedBlock.message.body)

theorem rows_step {P : Preset} {db : Store} {rows : SortedMap Nat Buffer} {name : RepositoryName}
    (h : Rows (repository values name) db rows) (hname : name ≠ .bestUpdatePerCommitteePeriod) {call : Call values}
    (hne : Member.repository name ≠ call.member) : Rows (repository values name) (step values P db call) rows := by
  refine h.frame (writesOnly_step values P call) fun key hkey howns => ?_
  rcases (owns_of_inBucket values name key hkey).mem_sharing_or_eq howns with hshared | heq
  · simp [sharing, hname] at hshared
  · exact hne heq

theorem processBlockOperations_rows {P : Preset} {db : Store} {events roots : SortedMap Nat Buffer}
    (hevents : Rows (depositEvent values) db events) (hroots : Rows (depositDataRoot values) db roots)
    (signedBlock : StateTransition.SignedBeaconBlock) :
    Rows (depositEvent values) (processBlockOperations operations P db signedBlock) events ∧
      Rows (depositDataRoot values) (processBlockOperations operations P db signedBlock) roots := by
  unfold processBlockOperations run
  refine List.foldlRecOn (blockOperationCalls operations signedBlock.message.body) _
    (motive := fun db => Rows (depositEvent values) db events ∧ Rows (depositDataRoot values) db roots)
    ⟨hevents, hroots⟩ fun db ⟨hevents, hroots⟩ call hcall => ?_
  have hroot : Member.repository .depositDataRoot ≠ call.member := by
    simp only [blockOperationCalls, List.mem_cons, List.not_mem_nil, or_false] at hcall
    rcases hcall with rfl | rfl | rfl | rfl | rfl <;> simp
  refine ⟨?_, @rows_step values P db roots .depositDataRoot hroots (by simp) call hroot⟩
  simp only [blockOperationCalls, List.mem_cons, List.not_mem_nil, or_false] at hcall
  rcases hcall with rfl | rfl | rfl | rfl | rfl
  · exact @rows_step values P db events .depositEvent hevents (by simp) _ (by simp)
  · exact DepositEventRepository.deleteOld_rows hevents signedBlock.message.body.eth1Data.depositCount
  · exact @rows_step values P db events .depositEvent hevents (by simp) _ (by simp)
  · exact @rows_step values P db events .depositEvent hevents (by simp) _ (by simp)
  · exact @rows_step values P db events .depositEvent hevents (by simp) _ (by simp)

end BeaconDb

end Lodestar.Db
