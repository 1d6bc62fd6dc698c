import Lodestar.LightClient.Update
/-!
# Snapshots — how the snapshot moves along a run of updates

A call applies at most one update: the one it is given, or the best of the snapshot's period (`appliedUpdate`).  Updates are
filed under their own period (`Filed`), so the period moves by at most one and the committees rotate with it.  The slot of the
header goes back exactly where the applied update is older than the snapshot (`RollsBack`); nothing in the process compares
the two.
-/
namespace Lodestar.LightClient

open Lib StateTransition

variable {P : Preset} {crypto : Crypto}

/-! ## One call -/

/-- The two places the process is written at. -/
inductive Implementation
  | function
  | method

def Implementation.apply (P : Preset) : Implementation → LightClientSnapshotFast crypto → LightClientUpdate →
    Except String Unit × LightClientSnapshotFast crypto
  | function => applyLightClientUpdate P
  | method => Lightclient.applyLightClientUpdate P

def Implementation.process (P : Preset) : Implementation → LightClientStoreFast crypto → LightClientUpdate → Nat → Root →
    Except String Unit × LightClientStoreFast crypto
  | function => processLightClientUpdate P
  | method => Lightclient.processLightClientUpdate P

theorem Implementation.process_eq (impl : Implementation) (store : LightClientStoreFast crypto) (update : LightClientUpdate)
    (currentSlot : Nat) (root : Root) :
    impl.process P store update currentSlot root = processUpdateWith P (impl.apply P) store update currentSlot root := by
  cases impl <;> rfl

def LightClientSnapshotFast.period (P : Preset) (snapshot : LightClientSnapshotFast crypto) : Nat :=
  computeSyncPeriodAtSlot P snapshot.header.slot

def LightClientUpdate.period (P : Preset) (update : LightClientUpdate) : Nat := computeSyncPeriodAtSlot P update.header.slot

structure Applied (P : Preset) (snapshot : LightClientSnapshotFast crypto) (update : LightClientUpdate)
    (snapshot' : LightClientSnapshotFast crypto) : Prop where
  header : snapshot'.header = update.header
  rotated : update.period P = snapshot.period P + 1 → snapshot'.currentSyncCommittee = snapshot.nextSyncCommittee ∧
    deserializeSyncCommittee update.nextSyncCommittee = .ok snapshot'.nextSyncCommittee
  kept : update.period P ≠ snapshot.period P + 1 → snapshot'.currentSyncCommittee = snapshot.currentSyncCommittee ∧
    snapshot'.nextSyncCommittee = snapshot.nextSyncCommittee

variable {snapshot snapshot' : LightClientSnapshotFast crypto} {update : LightClientUpdate}

theorem applyLightClientUpdate_applied (h : applyLightClientUpdate P snapshot update = (.ok (), snapshot')) :
    Applied P snapshot update snapshot' := by
  unfold applyLightClientUpdate at h
  dsimp only at h
  split at h
  · cases h
  · split at h
    · rename_i hnext
      cases hcommittee : @deserializeSyncCommittee crypto update.nextSyncCommittee with
      | error e =>
        rw [hcommittee] at h
        cases h
      | ok committee =>
        rw [hcommittee] at h
        cases h
        exact ⟨rfl, fun _ => ⟨rfl, hcommittee⟩, fun hne => absurd hnext hne⟩
    · rename_i hsame
      cases h
      exact ⟨rfl, fun heq => absurd heq hsame, fun _ => ⟨rfl, rfl⟩⟩

theorem Lightclient.applyLightClientUpdate_ok_iff :
    Lightclient.applyLightClientUpdate P snapshot update = (.ok (), snapshot') ↔
      LightClient.applyLightClientUpdate P snapshot update = (.ok (), snapshot') := by
  unfold Lightclient.applyLightClientUpdate LightClient.applyLightClientUpdate
  dsimp only
  split
  · simp
  · split
    · cases deserializeSyncCommittee update.nextSyncCommittee <;> simp
    · rfl

theorem Implementation.applied (impl : Implementation) (h : impl.apply P snapshot update = (.ok (), snapshot')) :
    Applied P snapshot update snapshot' := by
  cases impl with
  | function => exact applyLightClientUpdate_applied h
  | method => exact applyLightClientUpdate_applied (Lightclient.applyLightClientUpdate_ok_iff.1 h)

/-- The update a call applies: a finalized one at once, and past the timeout the best of the snapshot's period. -/
def appliedUpdate (P : Preset) (store : LightClientStoreFast crypto) (update : LightClientUpdate) (currentSlot : Nat) :
    Option LightClientUpdate :=
  if isFinalizedByQuorum update then some update
  else if currentSlot > store.snapshot.header.slot + updateTimeout P then
    (noteUpdate P store update).bestUpdates.get? (store.snapshot.period P)
  else none

@[simp] theorem noteUpdate_snapshot (store : LightClientStoreFast crypto) (update : LightClientUpdate) :
    (noteUpdate P store update).snapshot = store.snapshot := by
  unfold noteUpdate
  dsimp only
  split <;> rfl

variable {store store' : LightClientStoreFast crypto}

theorem applyAndDelete_ok
    {apply : LightClientSnapshotFast crypto → LightClientUpdate → Except String Unit × LightClientSnapshotFast crypto}
    {period : Nat} (h : applyAndDelete apply store update period = (.ok (), store')) :
    apply store.snapshot update = (.ok (), store'.snapshot) ∧ store'.bestUpdates = store.bestUpdates.delete period := by
  unfold applyAndDelete at h
  split at h
  · cases h
  · rename_i snapshot hok
    cases h
    exact ⟨hok, rfl⟩

variable {impl : Implementation} {currentSlot : Nat} {root : Root}

theorem processUpdateWith_ok (h : impl.process P store update currentSlot root = (.ok (), store')) :
    validateLightClientUpdate P store.snapshot update root = .ok () ∧
      ((appliedUpdate P store update currentSlot = none ∧ store' = noteUpdate P store update) ∨
        ∃ applied period, appliedUpdate P store update currentSlot = some applied ∧
          Applied P store.snapshot applied store'.snapshot ∧
          store'.bestUpdates = (noteUpdate P store update).bestUpdates.delete period) := by
  rw [impl.process_eq] at h
  unfold processUpdateWith at h
  split at h
  · cases h
  · rename_i hvalid
    refine ⟨hvalid, ?_⟩
    unfold appliedUpdate
    simp only [noteUpdate_snapshot] at h
    split at h
    · rename_i hquorum
      obtain ⟨happly, hbest⟩ := applyAndDelete_ok h
      rw [noteUpdate_snapshot] at happly
      exact .inr ⟨update, _, if_pos hquorum, impl.applied happly, hbest⟩
    · rename_i hquorum
      rw [if_neg hquorum]
      split at h
      · rename_i htimeout
        rw [if_pos htimeout]
        cases hbest : (noteUpdate P store update).bestUpdates.get? (computeSyncPeriodAtSlot P store.snapshot.header.slot) with
        | none =>
          rw [hbest] at h
          cases h
          exact .inl ⟨hbest, rfl⟩
        | some best =>
          rw [hbest] at h
          obtain ⟨happly, hdelete⟩ := applyAndDelete_ok h
          rw [noteUpdate_snapshot] at happly
          exact .inr ⟨best, _, hbest, impl.applied happly, hdelete⟩
      · rename_i htimeout
        cases h
        exact .inl ⟨if_neg htimeout, rfl⟩

variable {snapshot : LightClientSnapshotFast crypto}

theorem validateLightClientUpdate_period (h : validateLightClientUpdate P snapshot update root = .ok ()) :
    update.period P = snapshot.period P ∨ update.period P = snapshot.period P + 1 := by
  unfold validateLightClientUpdate at h
  rw [bind_eq_ok] at h
  obtain ⟨_, hperiod, -⟩ := h
  exact of_decide_eq_true (check_eq_ok.1 hperiod)

/-! ## The period -/

def Filed (P : Preset) (bestUpdates : OrderedMap Nat LightClientUpdate) : Prop :=
  ∀ period update, bestUpdates.get? period = some update → update.period P = period

variable {store : LightClientStoreFast crypto}

theorem Filed.noteUpdate (h : Filed P store.bestUpdates) (update : LightClientUpdate) :
    Filed P (noteUpdate P store update).bestUpdates := by
  unfold LightClient.noteUpdate
  dsimp only
  split
  · intro period found hfound
    rw [OrderedMap.get?_set] at hfound
    split at hfound
    · rename_i hperiod
      cases hfound
      exact hperiod.symm
    · exact h period found hfound
  · exact h

theorem Filed.delete {bestUpdates : OrderedMap Nat LightClientUpdate} (h : Filed P bestUpdates) (deleted : Nat) :
    Filed P (bestUpdates.delete deleted) := by
  intro period found hfound
  rw [OrderedMap.get?_delete] at hfound
  split at hfound
  · cases hfound
  · exact h period found hfound

/-- The period stays and so do the committees, or it advances by one and they rotate. -/
def RotatesWithPeriod (P : Preset) (snapshot snapshot' : LightClientSnapshotFast crypto) : Prop :=
  (snapshot'.period P = snapshot.period P ∧ snapshot'.currentSyncCommittee = snapshot.currentSyncCommittee ∧
    snapshot'.nextSyncCommittee = snapshot.nextSyncCommittee) ∨
  (snapshot'.period P = snapshot.period P + 1 ∧ snapshot'.currentSyncCommittee = snapshot.nextSyncCommittee ∧
    ∃ update : LightClientUpdate, snapshot'.header = update.header ∧
      deserializeSyncCommittee update.nextSyncCommittee = .ok snapshot'.nextSyncCommittee)

theorem appliedUpdate_period {update applied : LightClientUpdate} (hfiled : Filed P store.bestUpdates)
    (hvalid : validateLightClientUpdate P store.snapshot update root = .ok ())
    (h : appliedUpdate P store update currentSlot = some applied) :
    applied.period P = store.snapshot.period P ∨ applied.period P = store.snapshot.period P + 1 := by
  unfold appliedUpdate at h
  split at h
  · cases h
    exact validateLightClientUpdate_period hvalid
  · split at h
    · exact .inl (hfiled.noteUpdate update _ applied h)
    · cases h

theorem process_rotates (hfiled : Filed P store.bestUpdates) (h : impl.process P store update currentSlot root = (.ok (), store')) :
    Filed P store'.bestUpdates ∧ RotatesWithPeriod P store.snapshot store'.snapshot := by
  obtain ⟨hvalid, ⟨-, rfl⟩ | ⟨applied, period, hsome, happlied, hbest⟩⟩ := processUpdateWith_ok h
  · refine ⟨hfiled.noteUpdate update, .inl ?_⟩
    rw [noteUpdate_snapshot]
    exact ⟨rfl, rfl, rfl⟩
  · refine ⟨hbest ▸ (hfiled.noteUpdate update).delete period, ?_⟩
    have hperiod : store'.snapshot.period P = applied.period P := by
      unfold LightClientSnapshotFast.period LightClientUpdate.period
      rw [happlied.header]
    unfold RotatesWithPeriod
    rw [hperiod]
    rcases appliedUpdate_period hfiled hvalid hsome with hsame | hnext
    · exact .inl ⟨hsame, happlied.kept (by omega)⟩
    · obtain ⟨hcurrent, hcommittee⟩ := happlied.rotated hnext
      exact .inr ⟨hnext, hcurrent, applied, happlied.header, hcommittee⟩

/-! ## The slot of the header -/

/-- The call applies an update that is older than the snapshot: a finalized one it is given, or past the timeout the best
one of the snapshot's period. -/
def RollsBack (P : Preset) (store : LightClientStoreFast crypto) (update : LightClientUpdate) (currentSlot : Nat) : Prop :=
  (isFinalizedByQuorum update = true ∧ update.header.slot < store.snapshot.header.slot) ∨
  (isFinalizedByQuorum update = false ∧ store.snapshot.header.slot + updateTimeout P < currentSlot ∧
    ∃ best, (noteUpdate P store update).bestUpdates.get? (store.snapshot.period P) = some best ∧
      best.header.slot < store.snapshot.header.slot)

theorem rollsBack_iff :
    RollsBack P store update currentSlot ↔ ∃ applied, appliedUpdate P store update currentSlot = some applied ∧
      applied.header.slot < store.snapshot.header.slot := by
  unfold RollsBack appliedUpdate
  cases hquorum : isFinalizedByQuorum update with
  | true => simp
  | false =>
    by_cases htimeout : store.snapshot.header.slot + updateTimeout P < currentSlot
    · simp [htimeout]
    · simp [htimeout]

theorem process_slot_iff (h : impl.process P store update currentSlot root = (.ok (), store')) :
    store.snapshot.header.slot ≤ store'.snapshot.header.slot ↔ ¬ RollsBack P store update currentSlot := by
  rw [rollsBack_iff]
  obtain ⟨-, ⟨hnone, rfl⟩ | ⟨applied, period, hsome, happlied, -⟩⟩ := processUpdateWith_ok h
  · rw [hnone, noteUpdate_snapshot]
    simp
  · rw [hsome, happlied.header]
    simp

/-! ## Runs -/

structure Call where
  update : LightClientUpdate
  currentSlot : Nat

def runUpdate (P : Preset) (impl : Implementation) (root : Root) (store : LightClientStoreFast crypto) (call : Call) :
    Except String (LightClientStoreFast crypto) :=
  match impl.process P store call.update call.currentSlot root with
  | (.error e, _) => .error e
  | (.ok (), store) => .ok store

def runUpdates (P : Preset) (impl : Implementation) (root : Root) (snapshot : LightClientSnapshotFast crypto)
    (calls : List Call) : Except String (LightClientStoreFast crypto) :=
  calls.foldlM (runUpdate P impl root) (initializeFromTrustedSnapshot snapshot)

theorem runUpdate_ok {call : Call} (h : runUpdate P impl root store call = .ok store') :
    impl.process P store call.update call.currentSlot root = (.ok (), store') := by
  unfold runUpdate at h
  split at h
  · cases h
  · rename_i hok
    cases h
    exact hok

variable {calls : List Call}

theorem runUpdates_filed (h : runUpdates P impl root snapshot calls = .ok store) :
    Filed P store.bestUpdates := by
  refine foldlM_invariant (I := fun s => Filed P s.bestUpdates) (fun s call s' hstep hfiled => ?_) calls h ?_
  · exact (process_rotates hfiled (runUpdate_ok hstep)).1
  · intro period update hnone
    cases hnone

/-- `Q` of every call of the run: the store before it, the call, and the store after it. -/
def EachCall (P : Preset) (impl : Implementation) (root : Root) (snapshot : LightClientSnapshotFast crypto)
    (calls : List Call) (Q : LightClientStoreFast crypto → Call → LightClientStoreFast crypto → Prop) : Prop :=
  ∀ before call store store', before ++ [call] <+: calls → runUpdates P impl root snapshot before = .ok store →
    runUpdates P impl root snapshot (before ++ [call]) = .ok store' → Q store call store'

theorem EachCall.congr {Q Q' : LightClientStoreFast crypto → Call → LightClientStoreFast crypto → Prop}
    (h : ∀ store call store', Filed P store.bestUpdates → impl.process P store call.update call.currentSlot root = (.ok (), store') → (Q store call store' ↔ Q' store call store')) :
    EachCall P impl root snapshot calls Q ↔ EachCall P impl root snapshot calls Q' := by
  refine forall_congr' fun before => forall_congr' fun call => forall_congr' fun store => forall_congr' fun store' =>
    forall_congr' fun _ => forall_congr' fun hbefore => forall_congr' fun hafter => ?_
  unfold runUpdates at hafter
  rw [foldlM_concat, bind_eq_ok] at hafter
  obtain ⟨s, hs, hstep⟩ := hafter
  obtain rfl : store = s := Except.ok.inj (hbefore.symm.trans hs)
  exact h store call store' (runUpdates_filed hbefore) (runUpdate_ok hstep)

/-- **How the snapshot moves over every run of updates**, in either implementation and from any snapshot: the period advances
by at most one a call and the committees rotate exactly then; the slot never goes back exactly when no call applies an update
that is older than the snapshot. -/
theorem processLightClientUpdate_monotone_iff (P : Preset) (impl : Implementation) (root : Root)
    (snapshot : LightClientSnapshotFast crypto) (calls : List Call) :
    EachCall P impl root snapshot calls (fun store _ store' => RotatesWithPeriod P store.snapshot store'.snapshot) ∧
      (EachCall P impl root snapshot calls (fun store _ store' =>
          store.snapshot.header.slot ≤ store'.snapshot.header.slot) ↔
        EachCall P impl root snapshot calls (fun store call _ => ¬ RollsBack P store call.update call.currentSlot)) := by
  constructor
  · have htrue : EachCall P impl root snapshot calls (fun _ _ _ => True) := fun _ _ _ _ _ _ _ => trivial
    exact (EachCall.congr fun store call store' hfiled hstep => iff_true_intro (process_rotates hfiled hstep).2).2 htrue
  · exact EachCall.congr fun store call store' _ hstep => process_slot_iff hstep

/-! ## An older finalized update -/

def plainCrypto : Crypto where
  PublicKey := Unit
  hash _ := zeroRoot
  headerRoot _ := zeroRoot
  syncCommitteeRoot _ := zeroRoot
  signingRoot _ _ _ := zeroRoot
  publicKeyFromBytes _ := .ok ()
  isValidBlsAggregate _ _ _ := .ok true

def plainSnapshot (slot : Nat) : LightClientSnapshotFast plainCrypto where
  header := { emptyHeader with slot }
  currentSyncCommittee := { pubkeys := List.replicate 32 (), aggregatePubkey := () }
  nextSyncCommittee := { pubkeys := List.replicate 32 (), aggregatePubkey := () }

def plainUpdate (slot : Nat) : LightClientUpdate where
  header := { emptyHeader with slot }
  nextSyncCommittee := emptySyncCommittee minimal
  nextSyncCommitteeBranch := Vector.replicate _ zeroRoot
  finalityHeader := { emptyHeader with slot := slot + 2 }
  finalityBranch := Vector.replicate _ zeroRoot
  syncCommitteeBits := List.replicate 32 true
  syncCommitteeSignature := Vector.replicate 96 0
  forkVersion := minimalForkVersion

/-- From a snapshot of slot 20, an update of slot 10 is applied. -/
theorem processLightClientUpdate_goes_back : ¬ EachCall minimal .function zeroRoot (plainSnapshot 20) [⟨plainUpdate 10, 30⟩]
    (fun store _ store' => store.snapshot.header.slot ≤ store'.snapshot.header.slot) := by
  intro h
  have hrun : (runUpdates minimal .function zeroRoot (plainSnapshot 20) [⟨plainUpdate 10, 30⟩]).map
      (·.snapshot.header.slot) = .ok 10 := by decide +kernel
  cases hafter : runUpdates minimal .function zeroRoot (plainSnapshot 20) [⟨plainUpdate 10, 30⟩] with
  | error e =>
    rw [hafter] at hrun
    cases hrun
  | ok store' =>
    rw [hafter] at hrun
    have hslot : store'.snapshot.header.slot = 10 := Except.ok.inj hrun
    have hle : 20 ≤ store'.snapshot.header.slot := h [] _ _ store' List.prefix_rfl rfl hafter
    omega

end Lodestar.LightClient
