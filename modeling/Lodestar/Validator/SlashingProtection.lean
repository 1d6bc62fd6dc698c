import Lodestar.Validator.MinMaxSurround
/-!
# SlashingProtection — the attestation and block services

`checkAndInsertAttestation` and `checkAndInsertBlockProposal` check against the database and then record; the check and
the record are separate awaited steps.  `importAttestations` and `importBlocks` record without the check.
-/
namespace Lodestar.Validator

open Async Lib MinMaxSurround

def isEqualNonZeroRoot (root1 root2 : Root) : Bool :=
  decide (root1 ≠ zeroRoot) && decide (root2 ≠ zeroRoot) && decide (root1 = root2)

def minEpoch (epochs : List Nat) : Option Nat := epochs.min?

inductive SafeStatus
  | SAME_DATA
  | OK
deriving DecidableEq, Repr

/-! ## Attestations -/

def SlashingProtectionAttestation.att (a : SlashingProtectionAttestation) : Att := ⟨a.sourceEpoch, a.targetEpoch⟩

section

variable (pubKey : BLSPubkey) (att : SlashingProtectionAttestation)

/-- The `catch` of `checkAttestation`: a surround error is rethrown with the attestation on record, if there is one. -/
def rethrowSurround : SlashingProtectionError → SP Unit
  | .surround code _ att2Target => do
    let prev ← Prog.call (DbOp.attestationGet pubKey att2Target.toNat)
    match code with
    | .IS_SURROUNDING => Prog.fail (.attestation (.NEW_SURROUNDS_PREV att prev))
    | .IS_SURROUNDED => Prog.fail (.attestation (.PREV_SURROUNDS_NEW att prev))
  | e => Prog.fail e

def checkLowerBound (att : SlashingProtectionAttestation) :
    Option SlashingProtectionAttestationLowerBound → SP SafeStatus
  | none => pure .OK
  | some ⟨minSourceEpoch, minTargetEpoch⟩ =>
    if att.sourceEpoch < minSourceEpoch then
      Prog.fail (.attestation (.SOURCE_LESS_THAN_LOWER_BOUND att.sourceEpoch minSourceEpoch))
    else if att.targetEpoch ≤ minTargetEpoch then
      Prog.fail (.attestation (.TARGET_LESS_THAN_OR_EQ_LOWER_BOUND att.targetEpoch minTargetEpoch))
    else pure .OK

def checkAttestation : SP SafeStatus :=
  if att.sourceEpoch > att.targetEpoch then Prog.fail (.attestation .SOURCE_EXCEEDS_TARGET)
  else do
    let sameTargetAtt ← Prog.call (DbOp.attestationGet pubKey att.targetEpoch)
    match sameTargetAtt with
    | some sameTargetAtt =>
      if isEqualNonZeroRoot sameTargetAtt.signingRoot att.signingRoot then pure .SAME_DATA
      else Prog.fail (.attestation (.DOUBLE_VOTE att sameTargetAtt))
    | none =>
      (assertNoSurround pubKey att.att).tryCatch (rethrowSurround pubKey att)
      let attestationLowerBound ← Prog.call (DbOp.lowerBoundGet pubKey)
      checkLowerBound att attestationLowerBound

end

def insertAttestation (self : MinMaxSurround) (pubKey : BLSPubkey) (att : SlashingProtectionAttestation) : SP Unit := do
  Prog.call (DbOp.attestationSet pubKey [att])
  self.insertAttestation pubKey att.att

section

variable (self : MinMaxSurround) (pubKey : BLSPubkey) (att : SlashingProtectionAttestation)

/-- What a call does once its check has returned. -/
def insertUnlessSame : SafeStatus → SP Unit
  | .SAME_DATA => pure ()
  | .OK => insertAttestation self pubKey att

def checkAndInsertAttestation : SP Unit := do
  let safeStatus ← checkAttestation pubKey att
  insertUnlessSame self pubKey att safeStatus

end

def importSpans (self : MinMaxSurround) (pubkey : BLSPubkey) : List SlashingProtectionAttestation → SP Unit
  | [] => pure ()
  | att :: atts => do
    self.insertAttestation pubkey att.att
    importSpans self pubkey atts

def importAttestations (self : MinMaxSurround) (pubkey : BLSPubkey) (atts : List SlashingProtectionAttestation) :
    SP Unit := do
  Prog.call (DbOp.attestationSet pubkey atts)
  importSpans self pubkey atts
  match minEpoch (atts.map (·.sourceEpoch)), minEpoch (atts.map (·.targetEpoch)) with
  | some minSourceEpoch, some minTargetEpoch => Prog.call (DbOp.lowerBoundSet pubkey ⟨minSourceEpoch, minTargetEpoch⟩)
  | _, _ => pure ()

/-! ## Blocks -/

def getFirst (pubkey : BLSPubkey) : SP (Option SlashingProtectionBlock) := do
  let blocks ← Prog.call (DbOp.blockGetAll pubkey (some 1))
  pure blocks.head?

section

variable (pubkey : BLSPubkey) (block : SlashingProtectionBlock)

def checkBlockProposal : SP SafeStatus := do
  let sameSlotBlock ← Prog.call (DbOp.blockGet pubkey block.slot)
  match sameSlotBlock.filter (fun b => b.slot == block.slot) with
  | some sameSlotBlock =>
    if isEqualNonZeroRoot sameSlotBlock.signingRoot block.signingRoot then pure .SAME_DATA
    else Prog.fail (.block (.DOUBLE_BLOCK_PROPOSAL block sameSlotBlock))
  | none =>
    let minBlock ← getFirst pubkey
    match minBlock with
    | some minBlock =>
      if block.slot ≤ minBlock.slot then Prog.fail (.block (.SLOT_LESS_THAN_LOWER_BOUND block.slot minBlock.slot))
      else pure .OK
    | none => pure .OK

def insertBlockProposal : SP Unit :=
  Prog.call (DbOp.blockSet pubkey [block])

def insertBlockUnlessSame : SafeStatus → SP Unit
  | .SAME_DATA => pure ()
  | .OK => insertBlockProposal pubkey block

def checkAndInsertBlockProposal : SP Unit := do
  let safeStatus ← checkBlockProposal pubkey block
  insertBlockUnlessSame pubkey block safeStatus

end

def importBlocks (pubkey : BLSPubkey) (blocks : List SlashingProtectionBlock) : SP Unit :=
  Prog.call (DbOp.blockSet pubkey blocks)

/-! ## The checks alone -/

def boundAllows (att : SlashingProtectionAttestation) : Option SlashingProtectionAttestationLowerBound → Bool
  | none => true
  | some b => decide (b.minSourceEpoch ≤ att.sourceEpoch) && decide (b.minTargetEpoch < att.targetEpoch)

/-- The status `checkAttestation` returns on this database; `none` when it throws. -/
def Db.safeStatus (db : Db) (pk : BLSPubkey) (att : SlashingProtectionAttestation) : Option SafeStatus :=
  if att.sourceEpoch > att.targetEpoch then none
  else match (db.attestationByTarget pk).get? att.targetEpoch with
    | some same => if isEqualNonZeroRoot same.signingRoot att.signingRoot then some .SAME_DATA else none
    | none =>
      if minBlocks (db.minSpanAt pk att.sourceEpoch) (att.targetEpoch - att.sourceEpoch) ||
          maxBlocks (db.maxSpanAt pk att.sourceEpoch) (att.targetEpoch - att.sourceEpoch) then none
      else if boundAllows att (db.attestationLowerBound pk) then some .OK else none

/-- The status `checkBlockProposal` returns on this database; `none` when it throws. -/
def Db.blockSafeStatus (db : Db) (pk : BLSPubkey) (block : SlashingProtectionBlock) : Option SafeStatus :=
  match (db.blockBySlot pk).get? block.slot with
  | some same => if isEqualNonZeroRoot same.signingRoot block.signingRoot then some .SAME_DATA else none
  | none =>
    match (db.blockValues pk (some 1)).head? with
    | some minBlock => if block.slot ≤ minBlock.slot then none else some .OK
    | none => some .OK

section

variable (pk : BLSPubkey)

/-- **Both checks**: an attestation is told that it surrounds, and only then that it is surrounded. -/
theorem assertNoSurround_eq (att : Att) (db : Db) : (assertNoSurround pk att).on db =
      if minBlocks (db.minSpanAt pk att.source) (att.target - att.source) then
        (.error (.surround .IS_SURROUNDING att (att.source + (db.minSpanAt pk att.source).getD 0)), db)
      else if maxBlocks (db.maxSpanAt pk att.source) (att.target - att.source) then
        (.error (.surround .IS_SURROUNDED att (att.source + (db.maxSpanAt pk att.source).getD 0)), db)
      else (.ok (), db) := by
  have hmin := assertNotSurrounding_run pk att db
  have hmax := assertNotSurrounded_run pk att db
  unfold SP.on at hmin hmax ⊢
  unfold assertNoSurround
  by_cases hsurrounding : minBlocks (db.minSpanAt pk att.source) (att.target - att.source) = true
  · rw [if_pos hsurrounding] at hmin ⊢
    exact Prog.run_bind_error _ hmin
  · rw [if_neg hsurrounding] at hmin ⊢
    rw [Prog.run_bind_ok _ hmin, hmax]

theorem assertNoSurround_run (att : Att) (db : Db) : ∃ r, (assertNoSurround pk att).on db = (r, db) ∧
      (r.toOption.isSome ↔ minBlocks (db.minSpanAt pk att.source) (att.target - att.source) = false ∧
        maxBlocks (db.maxSpanAt pk att.source) (att.target - att.source) = false) := by
  rw [assertNoSurround_eq]
  split
  · rename_i hsurrounding
    exact ⟨_, rfl, by simp [Except.toOption, hsurrounding]⟩
  · rename_i hsurrounding
    split
    · rename_i hsurrounded
      exact ⟨_, rfl, by simp [Except.toOption, hsurrounded]⟩
    · rename_i hsurrounded
      exact ⟨_, rfl, by simp [Except.toOption, hsurrounding, hsurrounded]⟩

section

variable (att : SlashingProtectionAttestation)

theorem rethrowSurround_run (e : SlashingProtectionError) (db : Db) :
    ∃ e', (rethrowSurround pk att e).on db = (.error e', db) := by
  cases e with
  | surround code a t => cases code <;> exact ⟨_, rfl⟩
  | attestation err => exact ⟨_, rfl⟩
  | block err => exact ⟨_, rfl⟩

theorem checkLowerBound_run (o : Option SlashingProtectionAttestationLowerBound) (db : Db) :
    ∃ r, (checkLowerBound att o).on db = (r, db) ∧
      r.toOption = if boundAllows att o then some .OK else none := by
  cases o with
  | none => exact ⟨_, rfl, rfl⟩
  | some b =>
    simp only [checkLowerBound, boundAllows]
    split
    · rename_i h1
      exact ⟨_, rfl, by simp [Except.toOption, Nat.not_le.2 h1]⟩
    · rename_i h1
      split
      · rename_i h2
        exact ⟨_, rfl, by simp [Except.toOption, Nat.not_lt.2 h2]⟩
      · rename_i h2
        exact ⟨_, rfl, by simp [Except.toOption, Nat.not_lt.1 h1, Nat.not_le.1 h2]⟩

theorem checkAttestation_run (db : Db) : ∃ r, (checkAttestation pk att).on db = (r, db) ∧ r.toOption = db.safeStatus pk att := by
  unfold checkAttestation Db.safeStatus SP.on
  split
  · exact ⟨_, rfl, rfl⟩
  · rw [Prog.run_bind, Prog.run_call, Db.answer_attestationGet]
    cases (db.attestationByTarget pk).get? att.targetEpoch with
    | some same =>
      dsimp only
      split
      · exact ⟨_, rfl, rfl⟩
      · exact ⟨_, rfl, rfl⟩
    | none =>
      dsimp only
      obtain ⟨r, hr, hiff⟩ := assertNoSurround_run pk att.att db
      cases r with
      | error e =>
        obtain ⟨e', he'⟩ := rethrowSurround_run pk att e db
        have : ((assertNoSurround pk att.att).tryCatch (rethrowSurround pk att)).run Db.answer db = (.error e', db) := by
          rw [Prog.run_tryCatch, show Prog.run Db.answer (assertNoSurround pk att.att) db = _ from hr]
          exact he'
        refine ⟨_, Prog.run_bind_error _ this, ?_⟩
        rw [if_pos (by
          by_contra hc
          simp only [Bool.or_eq_true, not_or, Bool.not_eq_true] at hc
          simpa [Except.toOption] using hiff.2 hc)]
        rfl
      | ok u =>
        have : ((assertNoSurround pk att.att).tryCatch (rethrowSurround pk att)).run Db.answer db = (.ok u, db) := by
          rw [Prog.run_tryCatch, show Prog.run Db.answer (assertNoSurround pk att.att) db = _ from hr]
        rw [Prog.run_bind_ok _ this, if_neg (by
          have := hiff.1 (by simp [Except.toOption])
          simpa [SlashingProtectionAttestation.att] using this)]
        exact checkLowerBound_run att (db.attestationLowerBound pk) db

end

theorem filter_sameSlot {m : RecordMap SlashingProtectionBlock.slot} {slot : Nat} :
    (m.get? slot).filter (fun b => b.slot == slot) = m.get? slot := by
  cases h : m.get? slot with
  | none => rfl
  | some b => simp [Option.filter, RecordMap.key_of_get? h]

theorem checkBlockProposal_run (block : SlashingProtectionBlock) (db : Db) :
    ∃ r, (checkBlockProposal pk block).on db = (r, db) ∧ r.toOption = db.blockSafeStatus pk block := by
  unfold checkBlockProposal Db.blockSafeStatus SP.on
  show ∃ r, Prog.run Db.answer (match ((db.blockBySlot pk).get? block.slot).filter _ with
    | some _ => _
    | none => _) db = (r, db) ∧ _
  rw [filter_sameSlot]
  cases (db.blockBySlot pk).get? block.slot with
  | some same =>
    dsimp only
    split
    · exact ⟨_, rfl, rfl⟩
    · exact ⟨_, rfl, rfl⟩
  | none =>
    have hfirst : (getFirst pk).run Db.answer db = (.ok (db.blockValues pk (some 1)).head?, db) := rfl
    rw [Prog.run_bind_ok _ hfirst]
    cases (db.blockValues pk (some 1)).head? with
    | none => exact ⟨_, rfl, rfl⟩
    | some minBlock =>
      dsimp only
      split
      · exact ⟨_, rfl, rfl⟩
      · exact ⟨_, rfl, rfl⟩

end

end Lodestar.Validator
