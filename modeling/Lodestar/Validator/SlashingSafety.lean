import Lodestar.Validator.SlashingProtection
/-!
# SlashingSafety — what the attestation service refuses over a whole run

`Books db pk H` relates the three attestation buckets of one public key to the epochs `H` of everything recorded for it:
the span tables are exact for `H`, every target of `H` has a record, and every record has its epochs in `H`.  Each
successful call keeps it (`Call.books`), so it holds after every run (`runCalls_books`), and on it the check of the service
is exact.
-/
namespace Lodestar.Validator

open Async Lib MinMaxSurround

/-- The records the service keeps for `pk`, and what they are records of. -/
structure Books (db : Db) (pk : BLSPubkey) (H : List Att) : Prop where
  spans : SpansExact db pk H
  wf : ∀ a ∈ H, a.source ≤ a.target
  onRecord : ∀ a ∈ H, ((db.attestationByTarget pk).get? a.target).isSome
  recorded : ∀ t r, (db.attestationByTarget pk).get? t = some r → r.att ∈ H

theorem Books.empty (pk : BLSPubkey) : Books Db.empty pk [] where
  spans := SpansExact.empty pk
  wf _ h := (List.not_mem_nil h).elim
  onRecord _ h := (List.not_mem_nil h).elim
  recorded _ _ h := by cases h

/-- Two databases hold the same attestation records and spans for `pk`. -/
structure SameFor (pk : BLSPubkey) (db db' : Db) : Prop where
  attestationByTarget : db'.attestationByTarget pk = db.attestationByTarget pk
  minSpan : db'.minSpan pk = db.minSpan pk
  maxSpan : db'.maxSpan pk = db.maxSpan pk

variable {pk : BLSPubkey} {a b c db db' db₁ : Db}

theorem SameFor.trans (h : SameFor pk a b) (h' : SameFor pk b c) : SameFor pk a c :=
  ⟨h'.1.trans h.1, h'.2.trans h.2, h'.3.trans h.3⟩

variable {H : List Att}

theorem SpansExact.of_sameFor (h : SpansExact db pk H) (hs : SameFor pk db db') : SpansExact db' pk H :=
  ⟨fun e => by unfold Db.minSpanAt; rw [hs.minSpan]; exact h.minSpan e,
    fun e => by unfold Db.maxSpanAt; rw [hs.maxSpan]; exact h.maxSpan e⟩

theorem Books.of_sameFor (h : Books db pk H) (hs : SameFor pk db db') : Books db' pk H where
  spans := h.spans.of_sameFor hs
  wf := h.wf
  onRecord a ha := by rw [hs.attestationByTarget]; exact h.onRecord a ha
  recorded t r hr := by rw [hs.attestationByTarget] at hr; exact h.recorded t r hr

/-! ## One insertion -/

def writeAtt (db : Db) (pk : BLSPubkey) (atts : List SlashingProtectionAttestation) : Db :=
  { db with attestationByTarget :=
      Function.update db.attestationByTarget pk ((db.attestationByTarget pk).insertMany atts) }

variable {pk pk' : BLSPubkey}

theorem sameFor_writeAtt (h : pk' ≠ pk) (db : Db) (atts : List SlashingProtectionAttestation) :
    SameFor pk' db (writeAtt db pk atts) :=
  ⟨Function.update_of_ne h _ _, rfl, rfl⟩

theorem sameFor_writeSpans (h : pk' ≠ pk) (db : Db) (t : Nat) (ks ks' : List Nat) :
    SameFor pk' db (writeMax (writeMin db pk t ks) pk t ks') :=
  ⟨rfl, Function.update_of_ne h _ _, Function.update_of_ne h _ _⟩

theorem insertSpans_ok {att : Att} (h : (({} : MinMaxSurround).insertAttestation pk att).on db = (.ok (), db')) :
    db'.attestationByTarget = db.attestationByTarget ∧ (∀ pk', pk' ≠ pk → SameFor pk' db db') ∧
      ∀ H, SpansExact db pk H → (∀ b ∈ H, b.source ≤ b.target) → SpansExact db' pk (att :: H) := by
  obtain ⟨hmin, hmax⟩ := insertAttestation_not_blocked {} h
  obtain ⟨ks, ks', hrun, hex⟩ := insertAttestation_run pk att db hmin hmax
  obtain rfl : db' = _ := congrArg Prod.snd (h.symm.trans hrun)
  exact ⟨rfl, fun pk' hne => sameFor_writeSpans hne db _ ks ks', hex⟩

theorem importSpans_ok : ∀ {atts : List SlashingProtectionAttestation} {db db' : Db},
    (importSpans {} pk atts).on db = (.ok (), db') → (∀ a ∈ atts, a.sourceEpoch ≤ a.targetEpoch) →
    db'.attestationByTarget = db.attestationByTarget ∧ (∀ pk', pk' ≠ pk → SameFor pk' db db') ∧
      ∀ H, SpansExact db pk H → (∀ b ∈ H, b.source ≤ b.target) → SpansExact db' pk ((atts.map (·.att)).reverse ++ H)
  | [], db, db', h, _ => by
    obtain rfl : db' = db := (congrArg Prod.snd h).symm
    exact ⟨rfl, fun _ _ => ⟨rfl, rfl, rfl⟩, fun H hex _ => by simpa using hex⟩
  | att :: atts, db, db', h, hwf => by
    obtain ⟨_, db₁, h1, h2⟩ := Prog.run_bind_inv _ h
    obtain ⟨hby, hother, hex⟩ := insertSpans_ok h1
    obtain ⟨hby', hother', hex'⟩ := importSpans_ok h2 (fun a ha => hwf a (List.mem_cons_of_mem _ ha))
    refine ⟨hby'.trans hby, fun pk' hne => (hother pk' hne).trans (hother' pk' hne), fun H hH hHwf => ?_⟩
    have hatt : att.att.source ≤ att.att.target := hwf att List.mem_cons_self
    have := hex' (att.att :: H) (hex H hH hHwf) (fun b hb => by
      rcases List.mem_cons.1 hb with rfl | hb
      · exact hatt
      · exact hHwf b hb)
    simpa using this

variable {db : Db} {atts : List SlashingProtectionAttestation} {a r : SlashingProtectionAttestation}

theorem writeAtt_onRecord (h : a ∈ atts) :
    (((writeAtt db pk atts).attestationByTarget pk).get? a.targetEpoch).isSome := by
  obtain ⟨b, -, -, hb⟩ := RecordMap.get?_insertMany_of_mem (m := db.attestationByTarget pk) h
  unfold writeAtt
  simp [Function.update_self, hb]

theorem writeAtt_keeps {t : Nat} (h : ((db.attestationByTarget pk).get? t).isSome) :
    (((writeAtt db pk atts).attestationByTarget pk).get? t).isSome := by
  unfold writeAtt
  simp only [Function.update_self, RecordMap.get?_insertMany]
  cases (atts.reverse.find? (fun a => a.targetEpoch == t)) <;> simp [h]

theorem writeAtt_get {t : Nat} (h : ((writeAtt db pk atts).attestationByTarget pk).get? t = some r) :
    r ∈ atts ∨ (db.attestationByTarget pk).get? t = some r := by
  unfold writeAtt at h
  simp only [Function.update_self, RecordMap.get?_insertMany] at h
  cases hf : atts.reverse.find? (fun a => a.targetEpoch == t) with
  | none => rw [hf] at h; exact .inr h
  | some b =>
    rw [hf] at h
    obtain rfl : b = r := by simpa using h
    exact .inl (List.mem_reverse.1 (List.mem_of_find?_eq_some hf))

theorem Books.recordAll (hb : Books db pk H) (hwf : ∀ a ∈ atts, a.sourceEpoch ≤ a.targetEpoch) (h₁ : db₁ = writeAtt db pk atts)
    (hby : db'.attestationByTarget = db₁.attestationByTarget)
    (hex : ∀ H, SpansExact db₁ pk H → (∀ b ∈ H, b.source ≤ b.target) → SpansExact db' pk ((atts.map (·.att)).reverse ++ H)) :
    Books db' pk ((atts.map (·.att)).reverse ++ H) where
  spans := hex H (by subst h₁; exact ⟨hb.spans.minSpan, hb.spans.maxSpan⟩) hb.wf
  wf a ha := by
    rcases List.mem_append.1 ha with ha | ha
    · obtain ⟨x, hx, rfl⟩ := List.mem_map.1 (List.mem_reverse.1 ha)
      exact hwf x hx
    · exact hb.wf a ha
  onRecord a ha := by
    rw [hby, h₁]
    rcases List.mem_append.1 ha with ha | ha
    · obtain ⟨x, hx, rfl⟩ := List.mem_map.1 (List.mem_reverse.1 ha)
      exact writeAtt_onRecord hx
    · exact writeAtt_keeps (hb.onRecord a ha)
  recorded t r hr := by
    rw [hby, h₁] at hr
    rcases writeAtt_get hr with hmem | hold
    · exact List.mem_append_left _ (List.mem_reverse.2 (List.mem_map_of_mem hmem))
    · exact List.mem_append_right _ (hb.recorded t r hold)

/-! ## One call -/

inductive Call
  | checkAndInsert (pubkey : BLSPubkey) (att : SlashingProtectionAttestation)
  | importAll (pubkey : BLSPubkey) (atts : List SlashingProtectionAttestation)
deriving DecidableEq

def Call.prog : Call → SP Unit
  | checkAndInsert pubkey att => checkAndInsertAttestation {} pubkey att
  | importAll pubkey atts => importAttestations {} pubkey atts

def Call.wellFormed : Call → Prop
  | checkAndInsert _ _ => True
  | importAll _ atts => ∀ a ∈ atts, a.sourceEpoch ≤ a.targetEpoch

variable {att : SlashingProtectionAttestation}

theorem Db.safeStatus_same (h : db.safeStatus pk att = some .SAME_DATA) :
    ∃ r, (db.attestationByTarget pk).get? att.targetEpoch = some r ∧ r.signingRoot = att.signingRoot := by
  unfold Db.safeStatus at h
  split at h
  · cases h
  split at h
  · rename_i r hr
    split at h
    · rename_i heq
      simp only [isEqualNonZeroRoot, Bool.and_eq_true, decide_eq_true_eq] at heq
      exact ⟨r, hr, heq.2⟩
    · cases h
  · split at h
    · cases h
    split at h <;> cases h

theorem Db.safeStatus_ok_iff : db.safeStatus pk att = some .OK ↔
    att.sourceEpoch ≤ att.targetEpoch ∧ (db.attestationByTarget pk).get? att.targetEpoch = none ∧
      minBlocks (db.minSpanAt pk att.sourceEpoch) (att.targetEpoch - att.sourceEpoch) = false ∧
      maxBlocks (db.maxSpanAt pk att.sourceEpoch) (att.targetEpoch - att.sourceEpoch) = false ∧
      boundAllows att (db.attestationLowerBound pk) = true := by
  unfold Db.safeStatus
  split
  · rename_i hlt
    exact ⟨(nomatch ·), fun h => absurd h.1 (Nat.not_le_of_lt hlt)⟩
  · rename_i hle
    cases hsame : (db.attestationByTarget pk).get? att.targetEpoch with
    | some same =>
      dsimp only
      split
      · exact ⟨(nomatch ·), (nomatch ·.2.1)⟩
      · exact ⟨(nomatch ·), (nomatch ·.2.1)⟩
    | none =>
      dsimp only
      split
      · rename_i hblocks
        refine ⟨(nomatch ·), fun ⟨_, _, hmin, hmax, _⟩ => ?_⟩
        rw [hmin, hmax] at hblocks
        cases hblocks
      · rename_i hblocks
        obtain ⟨hmin, hmax⟩ := Bool.or_eq_false_iff.1 (Bool.not_eq_true _ ▸ hblocks)
        split
        · rename_i hbound
          exact ⟨fun _ => ⟨Nat.le_of_not_lt hle, rfl, hmin, hmax, hbound⟩, fun _ => rfl⟩
        · rename_i hbound
          exact ⟨(nomatch ·), fun h => absurd h.2.2.2.2 hbound⟩

section

variable (h : db.safeStatus pk att = some .OK)
include h

theorem Db.safeStatus_new : (db.attestationByTarget pk).get? att.targetEpoch = none :=
  (Db.safeStatus_ok_iff.1 h).2.1

theorem Db.safeStatus_blocks : minBlocks (db.minSpanAt pk att.sourceEpoch) (att.targetEpoch - att.sourceEpoch) = false ∧
      maxBlocks (db.maxSpanAt pk att.sourceEpoch) (att.targetEpoch - att.sourceEpoch) = false := by
  obtain ⟨-, -, hmin, hmax, -⟩ := Db.safeStatus_ok_iff.1 h
  exact ⟨hmin, hmax⟩

theorem insertAttestation_run_of_ok : ∃ db', (insertAttestation {} pk att).on db = (.ok (), db') := by
  have hb := Db.safeStatus_blocks h
  obtain ⟨ks, ks', hrun, -⟩ := insertAttestation_run pk att.att (writeAtt db pk [att]) hb.1 hb.2
  exact ⟨_, hrun⟩

end

/-- **`checkAndInsertAttestation` alone**: it throws when the check does, does nothing on a repeat, and otherwise records
the attestation and its spans. -/
theorem checkAndInsertAttestation_run (pk : BLSPubkey) (att : SlashingProtectionAttestation) (db : Db) :
    match db.safeStatus pk att with
    | none => ∃ e, (checkAndInsertAttestation {} pk att).on db = (.error e, db)
    | some .SAME_DATA => (checkAndInsertAttestation {} pk att).on db = (.ok (), db)
    | some .OK => ∃ db', (checkAndInsertAttestation {} pk att).on db = (.ok (), db') ∧
        (({} : MinMaxSurround).insertAttestation pk att.att).on (writeAtt db pk [att]) = (.ok (), db') := by
  obtain ⟨r, hr, hs⟩ := checkAttestation_run pk att db
  cases r with
  | error e =>
    rw [← hs]
    exact ⟨e, Prog.run_bind_error _ hr⟩
  | ok status =>
    rw [← hs]
    cases status with
    | SAME_DATA => exact Prog.run_bind_ok _ hr
    | OK =>
      obtain ⟨db', hdb'⟩ := insertAttestation_run_of_ok hs.symm
      exact ⟨db', (Prog.run_bind_ok _ hr).trans hdb', hdb'⟩

theorem checkAndInsertAttestation_get? (hs : db.safeStatus pk att = some .OK)
    (h : (checkAndInsertAttestation {} pk att).on db = (.ok (), db')) (t : Nat) :
    (db'.attestationByTarget pk).get? t = if att.targetEpoch = t then some att else (db.attestationByTarget pk).get? t := by
  have hrun := checkAndInsertAttestation_run pk att db
  rw [hs] at hrun
  obtain ⟨db₂, h1, h2⟩ := hrun
  obtain rfl : db' = db₂ := congrArg Prod.snd (h.symm.trans h1)
  rw [(insertSpans_ok h2).1]
  simp [writeAtt, RecordMap.insertMany, RecordMap.get?_insert]

section

variable (h : (checkAndInsertAttestation {} pk att).on db = (.ok (), db'))
include h

/-- **What a successful `checkAndInsertAttestation` leaves on record**: the target under the signing root it was asked for,
every earlier record, and the other public keys as they were. -/
theorem checkAndInsertAttestation_records :
    (∃ r, (db'.attestationByTarget pk).get? att.targetEpoch = some r ∧ r.signingRoot = att.signingRoot) ∧
    (∀ t r, (db.attestationByTarget pk).get? t = some r → (db'.attestationByTarget pk).get? t = some r) ∧
    ∀ pk', pk' ≠ pk → SameFor pk' db db' := by
  have hrun := checkAndInsertAttestation_run pk att db
  cases hs : db.safeStatus pk att with
  | none =>
    rw [hs] at hrun
    obtain ⟨e, he⟩ := hrun
    cases h.symm.trans he
  | some status =>
    rw [hs] at hrun
    cases status with
    | SAME_DATA =>
      obtain rfl : db' = db := congrArg Prod.snd (h.symm.trans hrun)
      refine ⟨Db.safeStatus_same hs, fun t r hr => hr, fun pk' _ => ⟨rfl, rfl, rfl⟩⟩
    | OK =>
      have hget := checkAndInsertAttestation_get? hs h
      obtain ⟨db₂, h1, h2⟩ := hrun
      obtain rfl : db' = db₂ := congrArg Prod.snd (h.symm.trans h1)
      refine ⟨⟨att, by rw [hget, if_pos rfl], rfl⟩, fun t r hr => ?_, fun pk' hne => ?_⟩
      · rw [hget, if_neg]
        · exact hr
        · rintro rfl
          rw [Db.safeStatus_new hs] at hr
          cases hr
      · exact (sameFor_writeAtt hne db [att]).trans ((insertSpans_ok h2).2.1 pk' hne)

theorem checkAndInsertAttestation_lowerBound : db'.attestationLowerBound = db.attestationLowerBound := by
  have hrun := checkAndInsertAttestation_run pk att db
  split at hrun
  · obtain ⟨e, he⟩ := hrun
    cases h.symm.trans he
  · obtain rfl : db' = db := congrArg Prod.snd (h.symm.trans hrun)
    rfl
  · obtain ⟨db₂, h1, h2⟩ := hrun
    obtain rfl : db' = db₂ := congrArg Prod.snd (h.symm.trans h1)
    obtain ⟨hmin, hmax⟩ := insertAttestation_not_blocked {} h2
    obtain ⟨ks, ks', h3, -⟩ := insertAttestation_run pk att.att (writeAtt db pk [att]) hmin hmax
    rw [show db' = _ from congrArg Prod.snd (h2.symm.trans h3)]
    rfl

end

def Call.adds (db : Db) (pk : BLSPubkey) : Call → List Att
  | checkAndInsert pubkey att =>
    if pubkey = pk ∧ db.safeStatus pubkey att = some .OK then [att.att] else []
  | importAll pubkey atts => if pubkey = pk then (atts.map (·.att)).reverse else []

theorem Call.books {c : Call} (hb : Books db pk H) (hc : c.wellFormed) (h : c.prog.on db = (.ok (), db')) :
    Books db' pk (c.adds db pk ++ H) := by
  cases c with
  | checkAndInsert pubkey att =>
    have hrun := checkAndInsertAttestation_run pubkey att db
    simp only [Call.adds]
    cases hs : db.safeStatus pubkey att with
    | none =>
      rw [hs] at hrun
      obtain ⟨e, he⟩ := hrun
      cases h.symm.trans he
    | some status =>
      rw [hs] at hrun
      cases status with
      | SAME_DATA =>
        obtain rfl : db' = db := congrArg Prod.snd (h.symm.trans hrun)
        simpa [hs] using hb
      | OK =>
        obtain ⟨db₂, h1, h2⟩ := hrun
        obtain rfl : db' = db₂ := congrArg Prod.snd (h.symm.trans h1)
        obtain ⟨hby, hother, hex⟩ := insertSpans_ok h2
        by_cases hpk : pubkey = pk
        · subst hpk
          have hatt : att.sourceEpoch ≤ att.targetEpoch := (Db.safeStatus_ok_iff.1 hs).1
          have hall : ∀ a ∈ [att], a.sourceEpoch ≤ a.targetEpoch := by simpa using hatt
          have := hb.recordAll hall rfl hby (by simpa using hex)
          simpa [hs] using this
        · simp only [hpk, false_and, if_false, List.nil_append]
          exact hb.of_sameFor ((sameFor_writeAtt (Ne.symm hpk) db [att]).trans (hother pk (Ne.symm hpk)))
  | importAll pubkey atts =>
    obtain ⟨_, db₁, h1, h⟩ := Prog.run_bind_inv _ h
    obtain ⟨_, db₂, h2, h3⟩ := Prog.run_bind_inv _ h
    obtain rfl : db₁ = writeAtt db pubkey atts := (congrArg Prod.snd h1).symm
    obtain ⟨hby, hother, hex⟩ := importSpans_ok h2 hc
    -- the lower bound is the only thing written after the spans
    have hbound : ∀ pk', SameFor pk' db₂ db' := by
      intro pk'
      split at h3
      · obtain rfl : db' = _ := (congrArg Prod.snd h3).symm
        exact ⟨rfl, rfl, rfl⟩
      · obtain rfl : db' = db₂ := (congrArg Prod.snd h3).symm
        exact ⟨rfl, rfl, rfl⟩
    simp only [Call.adds]
    by_cases hpk : pubkey = pk
    · subst hpk
      rw [if_pos rfl]
      exact (hb.recordAll hc rfl hby hex).of_sameFor (hbound pubkey)
    · rw [if_neg hpk]
      exact hb.of_sameFor (((sameFor_writeAtt (Ne.symm hpk) db atts).trans (hother pk (Ne.symm hpk))).trans (hbound pk))

/-! ## Runs -/

def runCalls : List Call → Db → Option Db
  | [], db => some db
  | c :: cs, db =>
    match c.prog.on db with
    | (.ok _, db') => runCalls cs db'
    | (.error _, _) => none

def Call.vouched (db : Db) (pk : BLSPubkey) : Call → List SlashingProtectionAttestation
  | checkAndInsert pubkey att =>
    if pubkey = pk then
      match (db.attestationByTarget pk).get? att.targetEpoch with
      | none => [att]
      | some r => if r.sourceEpoch = att.sourceEpoch then [att] else []
    else []
  | importAll pubkey atts => if pubkey = pk then atts else []

def vouched (pk : BLSPubkey) : List Call → Db → List SlashingProtectionAttestation
  | [], _ => []
  | c :: cs, db => c.vouched db pk ++
    match c.prog.on db with
    | (.ok _, db') => vouched pk cs db'
    | (.error _, _) => []

variable {status : SafeStatus}

theorem Db.safeStatus_of_fresh (hn : (db.attestationByTarget pk).get? att.targetEpoch = none)
    (h : db.safeStatus pk att = some status) : status = .OK := by
  unfold Db.safeStatus at h
  split at h
  · cases h
  rw [hn] at h
  dsimp only at h
  split at h
  · cases h
  split at h
  · cases h; rfl
  · cases h

theorem Call.vouched_mem {c : Call} (hb : Books db pk H) (h : c.prog.on db = (.ok (), db')) :
    ∀ v ∈ c.vouched db pk, v.att ∈ c.adds db pk ++ H := by
  intro v hv
  cases c with
  | checkAndInsert pubkey att =>
    simp only [Call.vouched] at hv
    split at hv
    · rename_i hpk
      subst hpk
      cases hg : (db.attestationByTarget pubkey).get? att.targetEpoch with
      | none =>
        rw [hg] at hv
        obtain rfl : v = att := by simpa using hv
        have hrun := checkAndInsertAttestation_run pubkey v db
        cases hs : db.safeStatus pubkey v with
        | none =>
          rw [hs] at hrun
          obtain ⟨e, he⟩ := hrun
          cases h.symm.trans he
        | some status =>
          rw [Db.safeStatus_of_fresh hg hs] at hs
          simp [Call.adds, hs]
      | some r =>
        rw [hg] at hv
        simp only [List.mem_ite_nil_right, List.mem_singleton] at hv
        obtain ⟨hsrc, rfl⟩ := hv
        have hkey : r.targetEpoch = v.targetEpoch := RecordMap.key_of_get? hg
        have hatt : r.att = v.att := by
          unfold SlashingProtectionAttestation.att
          rw [hsrc, hkey]
        rw [← hatt]
        exact List.mem_append_right _ (hb.recorded _ r hg)
    · cases hv
  | importAll pubkey atts =>
    simp only [Call.vouched] at hv
    split at hv
    · rename_i hpk
      simp only [Call.adds, if_pos hpk]
      exact List.mem_append_left _ (List.mem_reverse.2 (List.mem_map_of_mem hv))
    · cases hv

theorem runCalls_books (pk : BLSPubkey) : ∀ (cs : List Call) (db db' : Db) (H : List Att), Books db pk H →
    (∀ c ∈ cs, c.wellFormed) → runCalls cs db = some db' →
    ∃ H', Books db' pk H' ∧ (∀ a ∈ H, a ∈ H') ∧ ∀ v ∈ vouched pk cs db, v.att ∈ H'
  | [], db, db', H, hb, _, hrun => by
    obtain rfl : db = db' := by simpa [runCalls] using hrun
    exact ⟨H, hb, fun _ h => h, fun _ h => (List.not_mem_nil h).elim⟩
  | c :: cs, db, db', H, hb, hwf, hrun => by
    rcases hc : c.prog.on db with ⟨r, db₁⟩
    unfold runCalls at hrun
    rw [hc] at hrun
    cases r with
    | error e => cases hrun
    | ok u =>
      obtain ⟨H', hb', hsub, hv⟩ := runCalls_books pk cs db₁ db' (c.adds db pk ++ H)
        (Call.books hb (hwf c List.mem_cons_self) hc) (fun c' hc' => hwf c' (List.mem_cons_of_mem _ hc')) hrun
      refine ⟨H', hb', fun a ha => hsub a (List.mem_append_right _ ha), fun v hvm => ?_⟩
      unfold vouched at hvm
      rw [hc] at hvm
      rcases List.mem_append.1 hvm with hvm | hvm
      · exact hsub _ (Call.vouched_mem hb hc v hvm)
      · exact hv v hvm

/-- **On kept books the check is exact**: an attestation it lets through repeats the record of its target, or has a new
target and is in no surround with anything on the books. -/
theorem Books.check_exact (hb : Books db pk H) (hs : db.safeStatus pk att = some status) :
    (∃ r, (db.attestationByTarget pk).get? att.targetEpoch = some r ∧
      isEqualNonZeroRoot r.signingRoot att.signingRoot = true) ∨
    ∀ a ∈ H, att.targetEpoch ≠ a.target ∧ ¬ att.att.Surrounds a ∧ ¬ a.Surrounds att.att := by
  unfold Db.safeStatus at hs
  split at hs
  · cases hs
  rename_i hle
  split at hs
  · rename_i r hr
    split at hs
    · rename_i heq
      exact .inl ⟨r, hr, heq⟩
    · cases hs
  · rename_i hn
    split at hs
    · cases hs
    rename_i hblocks
    simp only [Bool.or_eq_true, not_or, Bool.not_eq_true] at hblocks
    refine .inr (fun a ha => ⟨fun heq => ?_, ?_, ?_⟩)
    · have := hb.onRecord a ha
      rw [← heq, hn] at this
      cases this
    · intro hsurrounds
      have hblocked := ((hb.spans.minSpan _).blocks_iff hb.wf).2 ⟨a, ha, hsurrounds⟩
      exact Bool.false_ne_true (hblocks.1.symm.trans hblocked)
    · intro hsurrounds
      have hblocked := ((hb.spans.maxSpan _).blocks_iff (Nat.le_of_not_lt hle)).2 ⟨a, ha, hsurrounds⟩
      exact Bool.false_ne_true (hblocks.2.symm.trans hblocked)

/-- **The attestation service over a whole run**: what `checkAndInsertAttestation` accepts repeats the record of its target,
or has a target of its own and is in no surround with anything imported or vouched for before. -/
theorem checkAndInsertAttestation_safe (pk : BLSPubkey) (cs : List Call) (hwf : ∀ c ∈ cs, c.wellFormed) (db db' : Db)
    (hrun : runCalls cs Db.empty = some db) (att : SlashingProtectionAttestation)
    (hok : (checkAndInsertAttestation {} pk att).on db = (.ok (), db')) :
    ∀ att' ∈ vouched pk cs Db.empty,
      (∃ r, (db.attestationByTarget pk).get? att.targetEpoch = some r ∧
        isEqualNonZeroRoot r.signingRoot att.signingRoot = true) ∨
      (att.targetEpoch ≠ att'.targetEpoch ∧ ¬ att.att.Surrounds att'.att ∧ ¬ att'.att.Surrounds att.att) := by
  intro att' hatt'
  obtain ⟨H, hb, -, hv⟩ := runCalls_books pk cs Db.empty db [] (Books.empty pk) hwf hrun
  have hchk := checkAndInsertAttestation_run pk att db
  cases hs : db.safeStatus pk att with
  | none =>
    rw [hs] at hchk
    obtain ⟨e, he⟩ := hchk
    cases hok.symm.trans he
  | some status =>
    rcases hb.check_exact hs with h | h
    · exact .inl h
    · exact .inr (h att'.att (hv att' hatt'))

theorem checkAndInsertAttestation_safe_imported :
    ∃ db db', runCalls [.importAll (Vector.replicate 48 0) [⟨2, 3, zeroRoot⟩],
        .checkAndInsert (Vector.replicate 48 0) ⟨3, 5, Vector.replicate 32 1⟩] Db.empty = some db ∧
      (checkAndInsertAttestation {} (Vector.replicate 48 0) ⟨5, 6, Vector.replicate 32 2⟩).on db = (.ok (), db') ∧
      ∀ att' ∈ vouched (Vector.replicate 48 0) [.importAll (Vector.replicate 48 0) [⟨2, 3, zeroRoot⟩],
          .checkAndInsert (Vector.replicate 48 0) ⟨3, 5, Vector.replicate 32 1⟩] Db.empty,
        (∃ r, (db.attestationByTarget (Vector.replicate 48 0)).get? 6 = some r ∧
          isEqualNonZeroRoot r.signingRoot (Vector.replicate 32 2) = true) ∨
        (6 ≠ att'.targetEpoch ∧ ¬ (Att.mk 5 6).Surrounds att'.att ∧ ¬ att'.att.Surrounds ⟨5, 6⟩) :=
  ⟨_, _, rfl, rfl, checkAndInsertAttestation_safe (Vector.replicate 48 0) _
    (by
      intro c hc
      simp only [List.mem_cons, List.not_mem_nil, or_false] at hc
      rcases hc with rfl | rfl
      · intro a ha
        obtain rfl : a = ⟨2, 3, zeroRoot⟩ := by simpa using ha
        decide
      · trivial) _ _ rfl ⟨5, 6, Vector.replicate 32 2⟩ rfl⟩

/-- A repeat is recognised by its signing root alone: one with another source epoch is accepted and leaves no trace in the
spans, and then an attestation it surrounds is accepted too. -/
theorem repeat_with_other_source_surrounds :
    ∃ db db', runCalls [.checkAndInsert (Vector.replicate 48 0) ⟨3, 5, Vector.replicate 32 1⟩,
        .checkAndInsert (Vector.replicate 48 0) ⟨1, 5, Vector.replicate 32 1⟩] Db.empty = some db ∧
      (checkAndInsertAttestation {} (Vector.replicate 48 0) ⟨2, 4, Vector.replicate 32 2⟩).on db = (.ok (), db') ∧
      ¬ ((∃ r, (db.attestationByTarget (Vector.replicate 48 0)).get? 4 = some r ∧
          isEqualNonZeroRoot r.signingRoot (Vector.replicate 32 2) = true) ∨
        (4 ≠ 5 ∧ ¬ (Att.mk 2 4).Surrounds ⟨1, 5⟩ ∧ ¬ (Att.mk 1 5).Surrounds ⟨2, 4⟩)) := by
  refine ⟨_, _, rfl, rfl, ?_⟩
  rintro (⟨r, hr, -⟩ | ⟨-, -, h⟩)
  · cases hr
  · exact h (by decide)

end Lodestar.Validator
