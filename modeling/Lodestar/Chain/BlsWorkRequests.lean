import Lodestar.Chain.BlsMultiThreadWorkerPool
import Mathlib.Data.Nat.Init
/-!
# BlsWorkRequests — what the work of a call comes to

The chunks of a call are its sets, in order.  A worker deserializes a chunk, and whether it verifies the sets one by one or as
a batch, its result is that of all of them.
-/
namespace Lodestar.Bls

open Lib

variable {bls : Library}

/-- What the pool relies on of the library: keys survive their bytes, and a batch is accepted exactly when all of it is valid. -/
structure Lawful (bls : Library) : Prop where
  fromBytes_toBytes : ∀ publicKey, bls.publicKeyFromBytes (bls.toBytes publicKey) = .ok publicKey
  verifyMultipleSignatures_eq : ∀ sets, bls.verifyMultipleSignatures sets = sets.all fun set => bls.verify set.2.2 set.1 set.2.1

/-- One set on its own: whether it verifies, or what makes it impossible to say. -/
def setResult (validateSignature : Bool) (set : SignatureSet bls) : Except String Bool := do
  let publicKey ← set.getAggregatedPubkey
  let signature ← bls.signatureFromBytes set.signature validateSignature
  pure (bls.verify signature publicKey set.signingRoot)

def Verifies (validateSignature : Bool) (set : SignatureSet bls) : Prop := setResult validateSignature set = .ok true

/-! ## Chunks -/

section

variable {α : Type}

theorem slices_flatten (arr : List α) (perChunk : Nat) : ∀ (start count : Nat),
    ((List.range' start count perChunk).map fun i => (arr.drop i).take perChunk).flatten =
      (arr.drop start).take (count * perChunk)
  | start, 0 => by simp
  | start, count + 1 => by
    rw [List.range'_succ, List.map_cons, List.flatten_cons, slices_flatten arr perChunk (start + perChunk) count,
      Nat.add_mul, Nat.one_mul, Nat.add_comm (count * perChunk), List.take_add, List.drop_drop]

theorem le_ceilDiv_mul {n k : Nat} (hk : 0 < k) : n ≤ (n + k - 1) / k * k := by
  have hdiv := Nat.div_add_mod (n + k - 1) k
  have hmod := Nat.mod_lt (n + k - 1) hk
  rw [Nat.mul_comm] at hdiv
  omega

theorem chunkify_flatten (arr : List α) (minPerChunk : Nat) : (chunkifyMaximizeChunkSize arr minPerChunk).flatten = arr := by
  unfold chunkifyMaximizeChunkSize
  dsimp only
  split
  · simp
  · rename_i hcount
    have hlen : arr.length / minPerChunk ≤ arr.length := Nat.div_le_self _ _
    have hper : 0 < (arr.length + arr.length / minPerChunk - 1) / (arr.length / minPerChunk) :=
      Nat.div_pos (by omega) (by omega)
    rw [slices_flatten, List.drop_zero, List.take_of_length_le (le_ceilDiv_mul hper)]

theorem chunkify_ne_nil {arr : List α} (harr : arr ≠ []) (minPerChunk : Nat) :
    ∀ chunk ∈ chunkifyMaximizeChunkSize arr minPerChunk, chunk ≠ [] := by
  intro chunk hchunk
  unfold chunkifyMaximizeChunkSize at hchunk
  dsimp only at hchunk
  split at hchunk
  · rw [List.mem_singleton.1 hchunk]
    exact harr
  · rename_i hcount
    obtain ⟨i, hi, rfl⟩ := List.mem_map.1 hchunk
    have hlen : arr.length / minPerChunk ≤ arr.length := Nat.div_le_self _ _
    have hper : 0 < (arr.length + arr.length / minPerChunk - 1) / (arr.length / minPerChunk) :=
      Nat.div_pos (by omega) (by omega)
    generalize (arr.length + arr.length / minPerChunk - 1) / (arr.length / minPerChunk) = perChunk at *
    obtain ⟨k, hk, rfl⟩ := List.mem_range'.1 hi
    have hlt : perChunk * k < arr.length := by
      have hle := Nat.mul_le_mul_left perChunk (Nat.succ_le_of_lt hk)
      have hdiv := Nat.mul_div_le (arr.length + perChunk - 1) perChunk
      rw [Nat.mul_succ] at hle
      omega
    rw [← List.length_pos_iff, List.length_take, List.length_drop]
    omega

end

/-! ## Requests -/

def Serialized (set : SignatureSet bls) (serialized : SerializedSet) : Prop :=
  ∃ publicKey, set.getAggregatedPubkey = .ok publicKey ∧ serialized = ⟨bls.toBytes publicKey, set.signingRoot, set.signature⟩

variable {set : SignatureSet bls}

theorem serializeSet_eq_ok {serialized : SerializedSet} :
    serializeSet set = .ok serialized ↔ Serialized set serialized := by
  unfold serializeSet Serialized
  rw [bind_eq_ok]
  refine exists_congr fun publicKey => and_congr_right fun _ => ?_
  rw [pure_eq_ok, eq_comm]

theorem serializeSet_eq_error {error : String} :
    serializeSet set = .error error ↔ set.getAggregatedPubkey = .error error := by
  unfold serializeSet
  cases set.getAggregatedPubkey with
  | error error' => simp [bind, Except.bind]
  | ok publicKey => simp [bind, Except.bind, pure, Except.pure]

variable {validateSignature : Bool} {sets : List (SignatureSet bls)} {workReq : BlsWorkReq}

theorem toWorkReq_eq_ok (h : toWorkReq validateSignature sets = .ok workReq) :
    workReq.validateSignature = validateSignature ∧ List.Forall₂ Serialized sets workReq.sets := by
  obtain ⟨serialized, hserialized, h⟩ := bind_eq_ok.1 h
  rw [pure_eq_ok] at h
  subst h
  exact ⟨rfl, (mapM_eq_ok_iff.1 hserialized).imp fun set serialized h => serializeSet_eq_ok.1 h⟩

theorem toWorkReq_error_iff :
    (∃ error, toWorkReq validateSignature sets = .error error) ↔ ∃ set ∈ sets, ∃ error, set.getAggregatedPubkey = .error error := by
  unfold toWorkReq
  constructor
  · rintro ⟨error, h⟩
    by_contra hnone
    have hall : ∀ set ∈ sets, ∃ serialized, serializeSet set = .ok serialized ∧ True := by
      intro set hset
      cases hser : serializeSet set with
      | error error => exact absurd ⟨set, hset, error, serializeSet_eq_error.1 hser⟩ hnone
      | ok serialized => exact ⟨serialized, rfl, trivial⟩
    obtain ⟨serialized, hserialized, -⟩ := mapM_returns (R := fun _ _ => True) hall
    rw [hserialized] at h
    cases h
  · rintro ⟨set, hset, error, hkey⟩
    obtain ⟨error', herror⟩ := mapM_eq_error ⟨set, hset, error, serializeSet_eq_error.2 hkey⟩
    rw [herror]
    exact ⟨error', rfl⟩

theorem workRequests_eq {chunks : List (List (SignatureSet bls))} :
    ((workRequests validateSignature chunks).2 = none ∧
      List.Forall₂ (fun chunk workReq => toWorkReq validateSignature chunk = .ok workReq) chunks
        (workRequests validateSignature chunks).1) ∨
    ((∃ error, (workRequests validateSignature chunks).2 = some error) ∧
      ∃ chunk ∈ chunks, ∃ error, toWorkReq validateSignature chunk = .error error) := by
  induction chunks with
  | nil => exact .inl ⟨rfl, .nil⟩
  | cons chunk chunks ih =>
    unfold workRequests
    cases hreq : toWorkReq validateSignature chunk with
    | error error => exact .inr ⟨⟨error, rfl⟩, chunk, List.mem_cons_self, error, hreq⟩
    | ok workReq =>
      rcases ih with ⟨hnone, hall⟩ | ⟨hthrown, chunk', hchunk', herror⟩
      · exact .inl ⟨hnone, .cons hreq hall⟩
      · exact .inr ⟨hthrown, chunk', List.mem_cons_of_mem _ hchunk', herror⟩

/-! ## Results -/

def Keyed (set : SignatureSet bls) (key : bls.PublicKey × List UInt8 × List UInt8) : Prop :=
  set.getAggregatedPubkey = .ok key.1 ∧ key.2.1 = set.signingRoot ∧ key.2.2 = set.signature

theorem deserializeSets (hbls : Lawful bls) {serialized : List SerializedSet} (h : List.Forall₂ Serialized sets serialized) :
    ∃ keyed, serialized.mapM (deserializeSet bls) = .ok keyed ∧ List.Forall₂ Keyed sets keyed := by
  induction h with
  | nil => exact ⟨[], rfl, .nil⟩
  | @cons set first sets serialized hfirst _ ih =>
    obtain ⟨publicKey, hkey, rfl⟩ := hfirst
    obtain ⟨keyed, hkeyed, hall⟩ := ih
    refine ⟨(publicKey, set.signingRoot, set.signature) :: keyed, ?_, .cons ⟨hkey, rfl, rfl⟩ hall⟩
    have hfirst : deserializeSet bls ⟨bls.toBytes publicKey, set.signingRoot, set.signature⟩ =
        .ok (publicKey, set.signingRoot, set.signature) := by
      unfold deserializeSet
      rw [hbls.fromBytes_toBytes]
      rfl
    rw [List.mapM_cons, hkeyed, hfirst]
    rfl

def verifies (set : bls.PublicKey × List UInt8 × bls.Signature) : Bool := bls.verify set.2.2 set.1 set.2.1

theorem setResult_eq {key : bls.PublicKey × List UInt8 × List UInt8} (h : Keyed set key) :
    setResult validateSignature set = (withSignature bls validateSignature key).map verifies := by
  obtain ⟨hkey, hroot, hsignature⟩ := h
  unfold setResult withSignature
  rw [hkey, hsignature, ← hroot]
  cases bls.signatureFromBytes set.signature validateSignature <;> rfl

theorem mapM_setResult {keyed : List (bls.PublicKey × List UInt8 × List UInt8)} (h : List.Forall₂ Keyed sets keyed) :
    sets.mapM (setResult validateSignature) = (keyed.mapM (withSignature bls validateSignature)).map (·.map verifies) := by
  induction h with
  | nil => rfl
  | @cons set key sets keyed hfirst _ ih =>
    rw [List.mapM_cons, List.mapM_cons, ih, setResult_eq hfirst]
    cases withSignature bls validateSignature key with
    | error error => rfl
    | ok parsed => cases keyed.mapM (withSignature bls validateSignature) <;> rfl

theorem doBlsWorkReq_eq (hbls : Lawful bls) (hsets : sets ≠ []) (h : toWorkReq validateSignature sets = .ok workReq) :
    doBlsWorkReq bls workReq = (sets.mapM (setResult validateSignature)).map fun valid => valid.all id := by
  obtain ⟨rfl, hserialized⟩ := toWorkReq_eq_ok h
  obtain ⟨keyed, hkeyed, hall⟩ := deserializeSets hbls hserialized
  unfold doBlsWorkReq
  rw [hkeyed, mapM_setResult hall]
  show verifySignatureSetsMaybeBatch bls keyed workReq.validateSignature = _
  unfold verifySignatureSetsMaybeBatch
  split
  · cases keyed.mapM (withSignature bls workReq.validateSignature) with
    | error error => rfl
    | ok parsed =>
      show Except.ok _ = Except.ok ((parsed.map verifies).all id)
      rw [hbls.verifyMultipleSignatures_eq, List.all_map]
      rfl
  · rename_i hfew
    have hlen := hall.length_eq
    have hpos := List.length_pos_iff.2 hsets
    obtain ⟨key, rfl⟩ : ∃ key, keyed = [key] := List.length_eq_one_iff.1 (by unfold MIN_SET_COUNT_TO_BATCH at hfew; omega)
    unfold every
    rw [List.mapM_cons, List.mapM_nil]
    cases withSignature bls workReq.validateSignature key with
    | error error => rfl
    | ok parsed =>
      show (if verifies parsed then _ else _) = Except.ok _
      cases hvalid : verifies parsed <;> simp [hvalid, every, pure, Except.pure]

theorem all_results {valid : List Bool}
    (h : List.Forall₂ (fun set isValid => setResult validateSignature set = .ok isValid) sets valid) :
    valid.all id = true ↔ ∀ set ∈ sets, Verifies validateSignature set := by
  induction h with
  | nil => simp
  | @cons set isValid sets valid hfirst _ ih =>
    rw [List.all_cons, Bool.and_eq_true, List.forall_mem_cons]
    refine and_congr ?_ ih
    unfold Verifies
    rw [hfirst]
    simp

theorem doBlsWorkReq_eq_ok (hbls : Lawful bls) (hsets : sets ≠ []) (h : toWorkReq validateSignature sets = .ok workReq)
    {isValid : Bool} (hresult : doBlsWorkReq bls workReq = .ok isValid) :
    isValid = true ↔ ∀ set ∈ sets, Verifies validateSignature set := by
  rw [doBlsWorkReq_eq hbls hsets h] at hresult
  cases hvalid : sets.mapM (setResult validateSignature) with
  | error error =>
    rw [hvalid] at hresult
    cases hresult
  | ok valid =>
    rw [hvalid] at hresult
    cases hresult
    exact all_results (mapM_eq_ok_iff.1 hvalid)

end Lodestar.Bls
