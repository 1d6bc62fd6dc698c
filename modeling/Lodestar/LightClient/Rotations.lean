import Lodestar.LightClient.Snapshots
/-!
# Rotations — what stands behind a new next committee, and the rotation that stops half way

A call replaces the next committee only by applying an update of the next period.  Such an update is the one the call was
given, for the best updates are filed under their own period, so it is valid against the snapshot it replaces: its committee is
proven and its header is signed by the next committee before (`TrustedRotation`).

The deserialisation stands between the assignments.  Where it throws the function has written the current committee and the
method the header as well (`HalfRotates`).
-/
namespace Lodestar.LightClient

open Lib StateTransition

variable {P : Preset} {crypto : Crypto}

/-! ## What a valid update proves -/

def LightClientUpdate.signedHeader (update : LightClientUpdate) : BeaconBlockHeader :=
  if !isEmptyHeader update.finalityHeader then update.finalityHeader else update.header

def ProvesNextSyncCommittee (crypto : Crypto) (update : LightClientUpdate) : Prop :=
  isValidMerkleBranch crypto (crypto.syncCommitteeRoot update.nextSyncCommittee) update.nextSyncCommitteeBranch
    (NEXT_SYNC_COMMITTEE_INDEX % 2 ^ NEXT_SYNC_COMMITTEE_INDEX_FLOORLOG2) update.header.stateRoot = true

def ProvesFinalized (crypto : Crypto) (update : LightClientUpdate) : Prop :=
  isValidMerkleBranch crypto (crypto.headerRoot update.header) update.finalityBranch
    (FINALIZED_ROOT_INDEX % 2 ^ FINALIZED_ROOT_INDEX_FLOORLOG2) update.finalityHeader.stateRoot = true

/-- At least `MIN_SYNC_COMMITTEE_PARTICIPANTS` members of the committee, each at its own place in it, signed the header. -/
def SignedBy (committee : SyncCommitteeFast crypto) (update : LightClientUpdate) (genesisValidatorsRoot : Root) : Prop :=
  ∃ participants, getParticipantPubkeys committee.pubkeys update.syncCommitteeBits = .ok participants ∧
    participants.Sublist committee.pubkeys ∧ MIN_SYNC_COMMITTEE_PARTICIPANTS ≤ participants.length ∧
    crypto.isValidBlsAggregate participants
      (crypto.signingRoot update.signedHeader update.forkVersion genesisValidatorsRoot) update.syncCommitteeSignature = .ok true

variable {T ε β : Type}

theorem mapM_getAt_zipIdx {error : Bool × Nat → String} {pubkeys : List T} :
    ∀ (bits : List Bool) (k : Nat) {participants : List T},
      ((bits.zipIdx k).filter (·.1)).mapM (fun bit => getAt (error bit) pubkeys bit.2) = .ok participants →
      participants.Sublist (pubkeys.drop k) ∧ participants.length = bits.count true
  | [], k, participants, h => by
    rw [List.zipIdx_nil, List.filter_nil, List.mapM_nil, pure_eq_ok] at h
    subst h
    exact ⟨List.nil_sublist _, rfl⟩
  | false :: bits, k, participants, h => by
    obtain ⟨hsub, hlength⟩ := mapM_getAt_zipIdx bits (k + 1) h
    refine ⟨hsub.trans ?_, by rw [hlength, List.count_cons_of_ne (by simp)]⟩
    rw [← List.drop_drop]
    exact List.drop_sublist 1 _
  | true :: bits, k, participants, h => by
    rw [List.zipIdx_cons, List.filter_cons_of_pos rfl, List.mapM_cons, bind_eq_ok] at h
    obtain ⟨pubkey, hpubkey, h⟩ := h
    rw [bind_eq_ok] at h
    obtain ⟨rest, hrest, h⟩ := h
    rw [pure_eq_ok] at h
    subst h
    obtain ⟨hsub, hlength⟩ := mapM_getAt_zipIdx bits (k + 1) hrest
    obtain ⟨hk, hget⟩ := List.getElem?_eq_some_iff.1 (getAt_eq_ok.1 hpubkey)
    constructor
    · rw [List.drop_eq_getElem_cons hk, hget]
      exact hsub.cons_cons pubkey
    · rw [List.length_cons, hlength, List.count_cons_self]

theorem join_eq_ok {condition : Prop} [Decidable condition] {first second other : Except ε Unit} {rest : Except ε β} {b : β}
    (h : (if condition then (do first; second; rest) else (do other; rest)) = .ok b) : rest = .ok b := by
  split at h
  · obtain ⟨_, -, h⟩ := bind_eq_ok.1 h
    obtain ⟨_, -, h⟩ := bind_eq_ok.1 h
    exact h
  · obtain ⟨_, -, h⟩ := bind_eq_ok.1 h
    exact h

structure Validated (P : Preset) (snapshot : LightClientSnapshotFast crypto) (update : LightClientUpdate)
    (genesisValidatorsRoot : Root) : Prop where
  committee : isEmptySyncCommitte P update.nextSyncCommittee = true ∨ ProvesNextSyncCommittee crypto update
  header : update.signedHeader = update.header ∨ update.signedHeader = update.finalityHeader ∧ ProvesFinalized crypto update
  signed : SignedBy (if update.period P > snapshot.period P then snapshot.nextSyncCommittee else snapshot.currentSyncCommittee)
    update genesisValidatorsRoot

variable {snapshot : LightClientSnapshotFast crypto} {update : LightClientUpdate} {root : Root}

theorem validateLightClientUpdate_ok (h : validateLightClientUpdate P snapshot update root = .ok ()) :
    Validated P snapshot update root := by
  obtain ⟨_, -, h⟩ := bind_eq_ok.1 h
  have hrest := join_eq_ok h
  obtain ⟨_, hcommittee, hrest⟩ := bind_eq_ok.1 hrest
  obtain ⟨_, hbits, hrest⟩ := bind_eq_ok.1 hrest
  obtain ⟨participants, hparticipants, hrest⟩ := bind_eq_ok.1 hrest
  obtain ⟨verified, hverified, hrest⟩ := bind_eq_ok.1 hrest
  rw [check_eq_ok] at hcommittee hbits hrest
  rw [Bool.or_eq_true] at hcommittee
  simp only [decide_eq_true_eq] at hbits hparticipants
  subst hrest
  obtain ⟨hsub, hlength⟩ := mapM_getAt_zipIdx _ 0 hparticipants
  refine ⟨hcommittee, ?_, participants, ?_, ?_, hlength ▸ hbits, hverified⟩
  · unfold LightClientUpdate.signedHeader
    by_cases hspecified : (!isEmptyHeader update.finalityHeader) = true
    · rw [if_pos hspecified] at h ⊢
      obtain ⟨_, hbranch, -⟩ := bind_eq_ok.1 h
      exact .inr ⟨rfl, check_eq_ok.1 hbranch⟩
    · rw [if_neg hspecified]
      exact .inl rfl
  · exact hparticipants
  · exact hsub

/-! ## Every call, returning or not -/

def Implementation.halfRotated (snapshot : LightClientSnapshotFast crypto) (update : LightClientUpdate) :
    Implementation → LightClientSnapshotFast crypto
  | function => { snapshot with currentSyncCommittee := snapshot.nextSyncCommittee }
  | method => { snapshot with currentSyncCommittee := snapshot.nextSyncCommittee, header := update.header }

theorem Implementation.apply_rollback (impl : Implementation) (h : update.period P < snapshot.period P) :
    impl.apply P snapshot update = (.error "Cannot rollback sync period", snapshot) := by
  cases impl with
  | function =>
    exact if_pos h
  | method =>
    exact if_pos h

theorem Implementation.apply_same (impl : Implementation) (hlt : ¬ update.period P < snapshot.period P)
    (hne : update.period P ≠ snapshot.period P + 1) :
    impl.apply P snapshot update = (.ok (), { snapshot with header := update.header }) := by
  unfold LightClientUpdate.period LightClientSnapshotFast.period at hlt hne
  cases impl with
  | function =>
    unfold apply applyLightClientUpdate
    dsimp only
    rw [if_neg hlt, if_neg hne]
  | method =>
    unfold apply Lightclient.applyLightClientUpdate
    dsimp only
    rw [if_neg hlt, if_neg hne]

theorem Implementation.apply_next (impl : Implementation) (h : update.period P = snapshot.period P + 1) :
    impl.apply P snapshot update = match deserializeSyncCommittee update.nextSyncCommittee with
      | .error e => (.error e, impl.halfRotated snapshot update)
      | .ok nextSyncCommittee => (.ok (),
          { header := update.header, currentSyncCommittee := snapshot.nextSyncCommittee,
            nextSyncCommittee := nextSyncCommittee }) := by
  have hlt : ¬ update.period P < snapshot.period P := by omega
  unfold LightClientUpdate.period LightClientSnapshotFast.period at h hlt
  cases impl with
  | function =>
    unfold apply applyLightClientUpdate
    dsimp only
    rw [if_neg hlt, if_pos h]
    rfl
  | method =>
    unfold apply Lightclient.applyLightClientUpdate
    dsimp only
    rw [if_neg hlt, if_pos h]
    rfl

theorem process_cases (store : LightClientStoreFast crypto) (update : LightClientUpdate) (currentSlot : Nat) (root : Root) :
    (∃ e, validateLightClientUpdate P store.snapshot update root = .error e ∧
        ∀ impl : Implementation, impl.process P store update currentSlot root = (.error e, store)) ∨
      validateLightClientUpdate P store.snapshot update root = .ok () ∧
        ((appliedUpdate P store update currentSlot = none ∧
            ∀ impl : Implementation, impl.process P store update currentSlot root = (.ok (), noteUpdate P store update)) ∨
          ∃ applied period, appliedUpdate P store update currentSlot = some applied ∧
            ∀ impl : Implementation, impl.process P store update currentSlot root =
              applyAndDelete (impl.apply P) (noteUpdate P store update) applied period) := by
  simp only [Implementation.process_eq]
  unfold processUpdateWith
  cases hvalid : validateLightClientUpdate P store.snapshot update root with
  | error e => exact .inl ⟨e, rfl, fun _ => rfl⟩
  | ok u =>
    refine .inr ⟨rfl, ?_⟩
    unfold appliedUpdate
    dsimp only
    rw [noteUpdate_snapshot]
    by_cases hquorum : isFinalizedByQuorum update = true
    · simp only [if_pos hquorum]
      exact .inr ⟨update, _, rfl, fun _ => rfl⟩
    · simp only [if_neg hquorum]
      by_cases htimeout : currentSlot > store.snapshot.header.slot + updateTimeout P
      · simp only [if_pos htimeout]
        unfold LightClientSnapshotFast.period
        cases hbest : (noteUpdate P store update).bestUpdates.get? (computeSyncPeriodAtSlot P store.snapshot.header.slot) with
        | none => exact .inl ⟨rfl, fun _ => rfl⟩
        | some best => exact .inr ⟨best, _, rfl, fun _ => rfl⟩
      · simp only [if_neg htimeout]
        exact .inl ⟨trivial, fun _ => trivial⟩

/-! ## The chain of trust -/

/-- The next committee is that of an update whose header the snapshot has now: proven by it, and the header signed by the next
committee before, or finalized under a header that was. -/
def TrustedRotation (genesisValidatorsRoot : Root) (snapshot snapshot' : LightClientSnapshotFast crypto) : Prop :=
  ∃ update : LightClientUpdate, snapshot'.header = update.header ∧
    deserializeSyncCommittee update.nextSyncCommittee = .ok snapshot'.nextSyncCommittee ∧
    ProvesNextSyncCommittee crypto update ∧
    (update.signedHeader = update.header ∨ update.signedHeader = update.finalityHeader ∧ ProvesFinalized crypto update) ∧
    SignedBy snapshot.nextSyncCommittee update genesisValidatorsRoot

theorem deserializeSyncCommittee_empty (hzero : ∃ e, crypto.publicKeyFromBytes (Vector.replicate 48 0) = .error e)
    {committee : SyncCommitteeFast crypto} : deserializeSyncCommittee (emptySyncCommittee P) ≠ .ok committee := by
  intro h
  obtain ⟨_, -, h⟩ := bind_eq_ok.1 h
  obtain ⟨_, haggregate, -⟩ := bind_eq_ok.1 h
  obtain ⟨e, he⟩ := hzero
  have hnone : crypto.publicKeyFromBytes (emptySyncCommittee P).aggregatePubkey = .error e := he
  rw [hnone] at haggregate
  cases haggregate

variable {store : LightClientStoreFast crypto} {currentSlot : Nat}

theorem appliedUpdate_next {update applied : LightClientUpdate} (hfiled : Filed P store.bestUpdates)
    (happlied : appliedUpdate P store update currentSlot = some applied) (hnext : applied.period P = store.snapshot.period P + 1) :
    applied = update := by
  unfold appliedUpdate at happlied
  split at happlied
  · cases happlied
    rfl
  · split at happlied
    · have hsame := hfiled.noteUpdate update _ applied happlied
      omega
    · cases happlied

variable {apply : LightClientSnapshotFast crypto → LightClientUpdate → Except String Unit × LightClientSnapshotFast crypto}
  {period : Nat}

theorem applyAndDelete_filed (hfiled : Filed P store.bestUpdates) :
    Filed P (applyAndDelete apply store update period).2.bestUpdates := by
  unfold applyAndDelete
  split
  · exact hfiled
  · exact hfiled.delete period

theorem applyAndDelete_snapshot :
    (applyAndDelete apply store update period).2.snapshot = (apply store.snapshot update).2 := by
  unfold applyAndDelete
  split
  · rename_i happly
    rw [happly]
  · rename_i happly
    rw [happly]

section

variable (impl : Implementation)

theorem process_trusted (hzero : ∃ e, crypto.publicKeyFromBytes (Vector.replicate 48 0) = .error e)
    (hfiled : Filed P store.bestUpdates) (update : LightClientUpdate) (currentSlot : Nat) (root : Root) :
    Filed P (impl.process P store update currentSlot root).2.bestUpdates ∧
      ((impl.process P store update currentSlot root).2.snapshot.nextSyncCommittee = store.snapshot.nextSyncCommittee ∨
        TrustedRotation root store.snapshot (impl.process P store update currentSlot root).2.snapshot) := by
  rcases process_cases (P := P) store update currentSlot root with
    ⟨e, -, hprocess⟩ | ⟨hvalid, ⟨-, hprocess⟩ | ⟨applied, period, happlied, hprocess⟩⟩
  · rw [hprocess]
    exact ⟨hfiled, .inl rfl⟩
  · rw [hprocess]
    rw [noteUpdate_snapshot]
    exact ⟨hfiled.noteUpdate update, .inl rfl⟩
  · rw [hprocess, applyAndDelete_snapshot, noteUpdate_snapshot]
    refine ⟨applyAndDelete_filed (hfiled.noteUpdate update), ?_⟩
    by_cases hnext : applied.period P = store.snapshot.period P + 1
    · obtain rfl := appliedUpdate_next hfiled happlied hnext
      rw [impl.apply_next hnext]
      cases hdeserialize : @deserializeSyncCommittee crypto applied.nextSyncCommittee with
      | error e => exact .inl (by cases impl <;> rfl)
      | ok committee =>
        have hvalidated := validateLightClientUpdate_ok hvalid
        have hsigned := hvalidated.signed
        rw [if_pos (by omega)] at hsigned
        refine .inr ⟨applied, rfl, hdeserialize, ?_, hvalidated.header, hsigned⟩
        rcases hvalidated.committee with hempty | hproves
        · rw [eq_of_beq hempty] at hdeserialize
          exact absurd hdeserialize (deserializeSyncCommittee_empty hzero)
        · exact hproves
    · by_cases hlt : applied.period P < store.snapshot.period P
      · rw [impl.apply_rollback hlt]
        exact .inl rfl
      · rw [impl.apply_same hlt hnext]
        exact .inl rfl

def runCalls (P : Preset) (impl : Implementation) (root : Root) (snapshot : LightClientSnapshotFast crypto)
    (calls : List Call) : LightClientStoreFast crypto :=
  calls.foldl (fun store call => (impl.process P store call.update call.currentSlot root).2)
    (initializeFromTrustedSnapshot snapshot)

theorem runCalls_filed (hzero : ∃ e, crypto.publicKeyFromBytes (Vector.replicate 48 0) = .error e) (root : Root)
    (snapshot : LightClientSnapshotFast crypto) (calls : List Call) :
    Filed P (runCalls P impl root snapshot calls).bestUpdates := by
  refine List.foldlRecOn (motive := fun (store : LightClientStoreFast crypto) => Filed P store.bestUpdates) calls _ ?_
    fun store hfiled call _ => ?_
  · intro period update hnone
    cases hnone
  · exact (process_trusted impl hzero hfiled call.update call.currentSlot root).1

end

/-- **The chain of trust over every run of updates**, in either implementation, from any snapshot and with calls that throw
among them.  Zero bytes are no compressed public key. -/
theorem processLightClientUpdate_trusted (P : Preset) (impl : Implementation)
    (hzero : ∃ e, crypto.publicKeyFromBytes (Vector.replicate 48 0) = .error e) (root : Root)
    (snapshot : LightClientSnapshotFast crypto) (calls : List Call) (call : Call) :
    (runCalls P impl root snapshot (calls ++ [call])).snapshot.nextSyncCommittee =
        (runCalls P impl root snapshot calls).snapshot.nextSyncCommittee ∨
      TrustedRotation root (runCalls P impl root snapshot calls).snapshot
        (runCalls P impl root snapshot (calls ++ [call])).snapshot := by
  rw [show runCalls P impl root snapshot (calls ++ [call]) = _ from List.foldl_append]
  exact (process_trusted impl hzero (runCalls_filed impl hzero root snapshot calls) call.update call.currentSlot root).2

def keyedCrypto : Crypto where
  PublicKey := BLSPubkey
  hash _ := zeroRoot
  headerRoot _ := zeroRoot
  syncCommitteeRoot _ := zeroRoot
  signingRoot _ _ _ := zeroRoot
  publicKeyFromBytes bytes := if bytes = Vector.replicate 48 0 then .error "zero public key" else .ok bytes
  isValidBlsAggregate _ _ _ := .ok true

instance : DecidableEq keyedCrypto.PublicKey := inferInstanceAs (DecidableEq BLSPubkey)

def keyedPubkey (byte : UInt8) : keyedCrypto.PublicKey := (Vector.replicate 48 byte : BLSPubkey)

def keyedCommittee (byte : UInt8) : SyncCommittee where
  pubkeys := List.replicate 32 (Vector.replicate 48 byte)
  aggregatePubkey := Vector.replicate 48 byte

def keyedSnapshot (slot : Nat) : LightClientSnapshotFast keyedCrypto where
  header := { emptyHeader with slot }
  currentSyncCommittee := { pubkeys := List.replicate 32 (keyedPubkey 1), aggregatePubkey := keyedPubkey 1 }
  nextSyncCommittee := { pubkeys := List.replicate 32 (keyedPubkey 2), aggregatePubkey := keyedPubkey 2 }

def keyedCall : Call where
  update := { plainUpdate 70 with nextSyncCommittee := keyedCommittee 3 }
  currentSlot := 80

/-- After a snapshot of slot 20 it rotates the committees. -/
theorem processLightClientUpdate_trusted_rotates :
    (runCalls minimal .method zeroRoot (keyedSnapshot 20) ([] ++ [keyedCall])).snapshot.nextSyncCommittee.aggregatePubkey =
      keyedPubkey 3 ∧
    ((runCalls minimal .method zeroRoot (keyedSnapshot 20) ([] ++ [keyedCall])).snapshot.nextSyncCommittee =
        (runCalls minimal .method zeroRoot (keyedSnapshot 20) []).snapshot.nextSyncCommittee ∨
      TrustedRotation zeroRoot (runCalls minimal .method zeroRoot (keyedSnapshot 20) []).snapshot
        (runCalls minimal .method zeroRoot (keyedSnapshot 20) ([] ++ [keyedCall])).snapshot) :=
  ⟨by decide +kernel,
    processLightClientUpdate_trusted minimal .method ⟨"zero public key", rfl⟩ zeroRoot (keyedSnapshot 20) [] keyedCall⟩

/-! ## The rotation that stops half way -/

section

variable (P : Preset) (store : LightClientStoreFast crypto) (update : LightClientUpdate) (currentSlot : Nat)
  (genesisValidatorsRoot : Root)

/-- A valid update makes the call apply an update of the next period whose next committee does not deserialise. -/
def HalfRotates : Prop :=
  validateLightClientUpdate P store.snapshot update genesisValidatorsRoot = .ok () ∧
    ∃ applied, appliedUpdate P store update currentSlot = some applied ∧ applied.period P = store.snapshot.period P + 1 ∧
      ∃ e, @deserializeSyncCommittee crypto applied.nextSyncCommittee = .error e

/-- A call that throws leaves the snapshot, in either implementation, and the two leave equal stores. -/
def FailsClean : Prop :=
  (∀ (impl : Implementation) (e : String) (store' : LightClientStoreFast crypto),
    impl.process P store update currentSlot genesisValidatorsRoot = (.error e, store') → store'.snapshot = store.snapshot) ∧
  (Lightclient.processLightClientUpdate P store update currentSlot genesisValidatorsRoot).2 =
    (processLightClientUpdate P store update currentSlot genesisValidatorsRoot).2

end

theorem Implementation.halfRotates_throws (impl : Implementation) (h : HalfRotates P store update currentSlot root) :
    ∃ applied e store', applied.period P = store.snapshot.period P + 1 ∧
      impl.process P store update currentSlot root = (.error e, store') ∧
      store'.snapshot = impl.halfRotated store.snapshot applied := by
  obtain ⟨hvalid, applied, happlied, hnext, e, hdeserialize⟩ := h
  rcases process_cases (P := P) store update currentSlot root with
    ⟨e, herror, -⟩ | ⟨-, ⟨hnone, -⟩ | ⟨applied', period, happlied', hprocess⟩⟩
  · rw [hvalid] at herror
    cases herror
  · rw [happlied] at hnone
    cases hnone
  · obtain rfl : applied = applied' := Option.some.inj (happlied.symm.trans happlied')
    have happly : impl.apply P (noteUpdate P store update).snapshot applied =
        (.error e, impl.halfRotated store.snapshot applied) := by
      rw [noteUpdate_snapshot, impl.apply_next hnext, hdeserialize]
    refine ⟨applied, e, { noteUpdate P store update with snapshot := impl.halfRotated store.snapshot applied }, hnext, ?_,
      rfl⟩
    rw [hprocess]
    unfold applyAndDelete
    rw [happly]

theorem apply_clean
    (h : ¬ (update.period P = snapshot.period P + 1 ∧
      ∃ e, @deserializeSyncCommittee crypto update.nextSyncCommittee = .error e)) :
    Lightclient.applyLightClientUpdate P snapshot update = applyLightClientUpdate P snapshot update ∧
      ∀ (impl : Implementation) e snapshot', impl.apply P snapshot update = (.error e, snapshot') → snapshot' = snapshot := by
  by_cases hlt : update.period P < snapshot.period P
  · refine ⟨(Implementation.method.apply_rollback hlt).trans (Implementation.function.apply_rollback hlt).symm, ?_⟩
    intro impl e snapshot' happly
    rw [impl.apply_rollback hlt] at happly
    cases happly
    rfl
  · by_cases hnext : update.period P = snapshot.period P + 1
    · cases hdeserialize : @deserializeSyncCommittee crypto update.nextSyncCommittee with
      | error e => exact absurd ⟨hnext, e, hdeserialize⟩ h
      | ok committee =>
        have hmethod := Implementation.method.apply_next hnext
        have hfunction := Implementation.function.apply_next hnext
        rw [hdeserialize] at hmethod hfunction
        refine ⟨hmethod.trans hfunction.symm, fun impl e snapshot' happly => ?_⟩
        rw [impl.apply_next hnext, hdeserialize] at happly
        cases happly
    · refine ⟨(Implementation.method.apply_same hlt hnext).trans (Implementation.function.apply_same hlt hnext).symm, ?_⟩
      intro impl e snapshot' happly
      rw [impl.apply_same hlt hnext] at happly
      cases happly

/-- **A call that throws leaves the snapshot, and both implementations leave equal stores, exactly where no rotation stops half
way.** -/
theorem processLightClientUpdate_failsClean_iff (P : Preset) (store : LightClientStoreFast crypto) (update : LightClientUpdate)
    (currentSlot : Nat) (root : Root) :
    FailsClean P store update currentSlot root ↔ ¬ HalfRotates P store update currentSlot root := by
  constructor
  · rintro ⟨hclean, -⟩ hhalf
    obtain ⟨applied, e, store', hnext, hprocess, hsnapshot⟩ := Implementation.method.halfRotates_throws hhalf
    rw [hclean .method e store' hprocess] at hsnapshot
    have hperiod : store.snapshot.period P = applied.period P := congrArg (·.period P) hsnapshot
    omega
  · intro hhalf
    rcases process_cases (P := P) store update currentSlot root with
      ⟨e, -, hprocess⟩ | ⟨hvalid, ⟨-, hprocess⟩ | ⟨applied, period, happlied, hprocess⟩⟩
    · refine ⟨fun impl e store' herror => ?_, ?_⟩
      · rw [hprocess] at herror
        cases herror
        rfl
      · exact congrArg (·.2) ((hprocess .method).trans (hprocess .function).symm)
    · refine ⟨fun impl e store' herror => ?_, ?_⟩
      · rw [hprocess] at herror
        cases herror
      · exact congrArg (·.2) ((hprocess .method).trans (hprocess .function).symm)
    · have hnot : ¬ (applied.period P = store.snapshot.period P + 1 ∧
          ∃ e, @deserializeSyncCommittee crypto applied.nextSyncCommittee = .error e) :=
        fun h => hhalf ⟨hvalid, applied, happlied, h⟩
      obtain ⟨hequal, hclean⟩ := apply_clean hnot
      refine ⟨fun impl e store' herror => ?_, ?_⟩
      · rw [hprocess] at herror
        unfold applyAndDelete at herror
        split at herror
        · rename_i e' snapshot' happly
          cases herror
          rw [noteUpdate_snapshot] at happly
          exact hclean impl e snapshot' happly
        · cases herror
      · have hsame : applyAndDelete (Implementation.method.apply P) (noteUpdate P store update) applied period =
            applyAndDelete (Implementation.function.apply P) (noteUpdate P store update) applied period := by
          unfold applyAndDelete
          rw [noteUpdate_snapshot]
          rw [show Implementation.method.apply P store.snapshot applied =
            Implementation.function.apply P store.snapshot applied from hequal]
        exact congrArg (·.2) (((hprocess .method).trans hsame).trans (hprocess .function).symm)

/-- The finalized update of slot 70 with the empty committee, after a snapshot of slot 20. -/
theorem processLightClientUpdate_half_rotates :
    ¬ FailsClean minimal (initializeFromTrustedSnapshot (keyedSnapshot 20)) (plainUpdate 70) 80 zeroRoot := by
  rintro ⟨hclean, -⟩
  have hthrows : ((processLightClientUpdate minimal (initializeFromTrustedSnapshot (keyedSnapshot 20)) (plainUpdate 70) 80
      zeroRoot).1) = .error "zero public key" := by decide +kernel
  have hsnapshot := hclean .function _ _ (Prod.ext hthrows rfl)
  have hkey : (keyedSnapshot 20).currentSyncCommittee.aggregatePubkey = keyedPubkey 2 :=
    (congrArg (·.currentSyncCommittee.aggregatePubkey) hsnapshot).symm
  revert hkey
  decide +kernel

end Lodestar.LightClient
