import Lodestar.Validator.Interchange
import Lodestar.Validator.ExportImport
import Lodestar.Validator.SlashingSafety
/-!
# ImportFailures — what an import that throws leaves behind

`importAttestations` records the whole list by target first, then inserts the spans one attestation at a time up to the first
that the tables refuse, and writes the list's lower bound last.  `SpanTables.importAll` is what the second step does to two
tables of any content; an import that throws leaves the records covered exactly when those tables and the bound stored
before it do (`KeepsCover`).
-/
namespace Lodestar.Validator

open Async Lib MinMaxSurround

/-! ## What is asked for -/

/-- The two tables refuse whatever surrounds the attestation or is surrounded by it. -/
structure SpansCover (db : Db) (pk : BLSPubkey) (r : Att) : Prop where
  surrounding : ∀ a : Att, a.source ≤ a.target → a.Surrounds r →
    minBlocks (db.minSpanAt pk a.source) (a.target - a.source) = true
  surrounded : ∀ a : Att, a.source ≤ a.target → r.Surrounds a →
    maxBlocks (db.maxSpanAt pk a.source) (a.target - a.source) = true

/-- The lower bound of a list, which its import writes last. -/
def listBound (atts : List SlashingProtectionAttestation) : Option SlashingProtectionAttestationLowerBound :=
  match minEpoch (atts.map (·.sourceEpoch)), minEpoch (atts.map (·.targetEpoch)) with
  | some minSourceEpoch, some minTargetEpoch => some ⟨minSourceEpoch, minTargetEpoch⟩
  | _, _ => none

/-- Every attestation on record is covered by the span tables, and nothing that surrounds one, is surrounded by one or lies
below the bound of the imported list is accepted as a new attestation. -/
structure StillCovered (db : Db) (pk : BLSPubkey) (atts : List SlashingProtectionAttestation) : Prop where
  spans : ∀ t r, (db.attestationByTarget pk).get? t = some r → SpansCover db pk r.att
  rejects : ∀ t r, (db.attestationByTarget pk).get? t = some r → ∀ att : SlashingProtectionAttestation,
    att.att.Surrounds r.att ∨ r.att.Surrounds att.att → db.safeStatus pk att ≠ some .OK
  rejectsBelow : ∀ att : SlashingProtectionAttestation,
    boundAllows att (listBound atts) = false → db.safeStatus pk att ≠ some .OK

variable {db : Db} {pk : BLSPubkey} {atts : List SlashingProtectionAttestation}

theorem SpansCover.rejects {r : Att} (h : SpansCover db pk r) {att : SlashingProtectionAttestation}
    (hconflict : att.att.Surrounds r ∨ r.Surrounds att.att) : db.safeStatus pk att ≠ some .OK := by
  intro hok
  have hle := (Db.safeStatus_ok_iff.1 hok).1
  obtain ⟨hmin, hmax⟩ := Db.safeStatus_blocks hok
  rcases hconflict with hsurrounds | hsurrounds
  · exact Bool.false_ne_true (hmin.symm.trans (h.surrounding att.att hle hsurrounds))
  · exact Bool.false_ne_true (hmax.symm.trans (h.surrounded att.att hle hsurrounds))

/-! ## The two tables -/

/-- The span tables of one public key, as the checks read them. -/
structure SpanTables where
  minSpan : Nat → Option Int
  maxSpan : Nat → Option Int

def Db.spanTables (db : Db) (pk : BLSPubkey) : SpanTables := ⟨db.minSpanAt pk, db.maxSpanAt pk⟩

namespace SpanTables

section

variable (T : SpanTables) (a : Att)

def surrounding : Bool := minBlocks (T.minSpan a.source) (a.target - a.source)
def surrounded (T : SpanTables) (a : Att) : Bool := maxBlocks (T.maxSpan a.source) (a.target - a.source)

/-- The min spans improve on a stretch of epochs that ends below the source. -/
def withMin : SpanTables :=
  { T with minSpan := fun e =>
      if e < a.source ∧ ∀ e' < a.source, e ≤ e' → minImproves (T.minSpan e') (a.target - e') = true then some (a.target - e)
      else T.minSpan e }

/-- The max spans improve on a stretch of epochs that starts above the source. -/
def withMax : SpanTables :=
  { T with maxSpan := fun e =>
      if e < a.target ∧ a.source < e ∧ ∀ e' ≤ e, a.source < e' → maxImproves (T.maxSpan e') (a.target - e') = true then
        some (a.target - e)
      else T.maxSpan e }

/-- Whether the spans of one attestation get in, and the tables then; refused by the max span it leaves its min spans. -/
def insert : Bool × SpanTables :=
  if T.surrounding a then (false, T)
  else if T.surrounded a then (false, T.withMin a)
  else (true, (T.withMin a).withMax a)

end

/-- The tables after a list up to the first attestation refused, and whether none is. -/
def importAll (T : SpanTables) : List Att → Bool × SpanTables
  | [] => (true, T)
  | a :: as =>
    match T.insert a with
    | (true, T') => T'.importAll as
    | (false, T') => (false, T')

/-- Each epoch below the source has a min span that ends within the attestation, and each inside it a max span that ends at its
target or later. -/
structure Covers (T : SpanTables) (r : Att) : Prop where
  wf : r.source ≤ r.target
  inside : ∀ e < r.source, (T.minSpan e).any (fun d : Int => decide (0 < d ∧ d ≤ r.target - e)) = true
  around : ∀ e < r.target, r.source < e → (T.maxSpan e).any (fun d : Int => decide (r.target - e ≤ d)) = true

instance (T : SpanTables) (r : Att) : Decidable (T.Covers r) :=
  decidable_of_iff (r.source ≤ r.target ∧
      (∀ e < r.source, (T.minSpan e).any (fun d : Int => decide (0 < d ∧ d ≤ r.target - e)) = true) ∧
      ∀ e < r.target, r.source < e → (T.maxSpan e).any (fun d : Int => decide (r.target - e ≤ d)) = true)
    ⟨fun ⟨hwf, hinside, haround⟩ => ⟨hwf, hinside, haround⟩, fun ⟨hwf, hinside, haround⟩ => ⟨hwf, hinside, haround⟩⟩

end SpanTables

theorem spansCover_iff {r : Att} : SpansCover db pk r ↔ (db.spanTables pk).Covers r := by
  constructor
  · intro h
    have hwider : ∀ e < r.source, e ≤ r.target + 1 →
        ∃ d : Int, db.minSpanAt pk e = some d ∧ 0 < d ∧ d < (r.target + 1 : Nat) - e := by
      intro e he hle
      obtain ⟨d, hget, hd⟩ := (Option.any_eq_true _ _).1 (h.surrounding ⟨e, r.target + 1⟩ hle ⟨he, Nat.lt_succ_self _⟩)
      exact ⟨d, hget, of_decide_eq_true hd⟩
    have hwf : r.source ≤ r.target := by
      by_contra hlt
      obtain ⟨d, -, hpos, hd⟩ := hwider r.target (Nat.lt_of_not_le hlt) (Nat.le_succ _)
      omega
    refine ⟨hwf, fun e he => ?_, fun e he hsource => ?_⟩
    · obtain ⟨d, hget, hpos, hd⟩ := hwider e he (by omega)
      exact (Option.any_eq_true _ _).2 ⟨d, hget, by simp only [decide_eq_true_eq]; omega⟩
    · obtain ⟨d, hget, hd⟩ := (Option.any_eq_true _ _).1 (h.surrounded ⟨e, r.target - 1⟩ (Nat.le_sub_one_of_lt he)
        ⟨hsource, by dsimp only; omega⟩)
      simp only [decide_eq_true_eq] at hd
      exact (Option.any_eq_true _ _).2 ⟨d, hget, by simp only [decide_eq_true_eq]; omega⟩
  · rintro ⟨hwf, hinside, haround⟩
    refine ⟨fun a _ ⟨hsource, htarget⟩ => ?_, fun a hle ⟨hsource, htarget⟩ => ?_⟩
    · obtain ⟨d, hget, hd⟩ := (Option.any_eq_true _ _).1 (hinside a.source hsource)
      simp only [decide_eq_true_eq] at hd
      exact (Option.any_eq_true _ _).2 ⟨d, hget, by simp only [decide_eq_true_eq]; omega⟩
    · obtain ⟨d, hget, hd⟩ := (Option.any_eq_true _ _).1 (haround a.source (by omega) hsource)
      simp only [decide_eq_true_eq] at hd
      exact (Option.any_eq_true _ _).2 ⟨d, hget, by simp only [decide_eq_true_eq]; omega⟩

/-! ## What the import writes -/

/-- Only the records and the span tables of one public key differ. -/
structure OnlyOf (pk : BLSPubkey) (db db' : Db) : Prop where
  attestationLowerBound : db'.attestationLowerBound = db.attestationLowerBound
  blockBySlot : db'.blockBySlot = db.blockBySlot
  others : ∀ pk', pk' ≠ pk → SameFor pk' db db'

theorem OnlyOf.trans {a b c : Db} (h : OnlyOf pk a b) (h' : OnlyOf pk b c) : OnlyOf pk a c :=
  ⟨h'.attestationLowerBound.trans h.attestationLowerBound, h'.blockBySlot.trans h.blockBySlot,
    fun pk' hne => (h.others pk' hne).trans (h'.others pk' hne)⟩

theorem spans_ext {m m' : RecordMap DistanceEntry.source}
    (h : ∀ e, (m.get? e).map (·.distance) = (m'.get? e).map (·.distance)) : m = m' := by
  apply RecordMap.ext_get?
  intro e
  have he := h e
  cases hm : m.get? e with
  | none =>
    rw [hm] at he
    cases hm' : m'.get? e with
    | none => rfl
    | some d' =>
      rw [hm'] at he
      cases he
  | some d =>
    rw [hm] at he
    cases hm' : m'.get? e with
    | none =>
      rw [hm'] at he
      cases he
    | some d' =>
      rw [hm'] at he
      have hkey := (RecordMap.key_of_get? hm).trans (RecordMap.key_of_get? hm').symm
      have hdistance : d.distance = d'.distance := Option.some.inj he
      cases d
      cases d'
      simp_all

theorem OnlyOf.eq_iff {db' : Db} (h : OnlyOf pk db db') :
    db' = db ↔ (∀ t, (db'.attestationByTarget pk).get? t = (db.attestationByTarget pk).get? t) ∧
      db'.spanTables pk = db.spanTables pk := by
  constructor
  · rintro rfl
    exact ⟨fun _ => rfl, rfl⟩
  · rintro ⟨hrecords, htables⟩
    obtain ⟨hmin, hmax⟩ := SpanTables.mk.inj htables
    have hall : ∀ pk', SameFor pk' db db' := by
      intro pk'
      by_cases hpk : pk' = pk
      · subst hpk
        exact ⟨RecordMap.ext_get? hrecords, spans_ext (congrFun hmin), spans_ext (congrFun hmax)⟩
      · exact h.others pk' hpk
    have hbound := h.attestationLowerBound
    have hblocks := h.blockBySlot
    have hatt : db'.attestationByTarget = db.attestationByTarget := funext fun pk' => (hall pk').attestationByTarget
    have hminSpan : db'.minSpan = db.minSpan := funext fun pk' => (hall pk').minSpan
    have hmaxSpan : db'.maxSpan = db.maxSpan := funext fun pk' => (hall pk').maxSpan
    cases db
    cases db'
    simp_all

theorem spanTables_writeMin (att : Att) {m : Nat} (hm : m ≤ att.source)
    (himp : ∀ e, m ≤ e → e < att.source → minImproves (db.minSpanAt pk e) (att.target - e) = true)
    (hstop : m = 0 ∨ minImproves (db.minSpanAt pk (m - 1)) (att.target - (m - 1 : Nat)) = false) :
    (writeMin db pk att.target (List.range' m (att.source - m)).reverse).spanTables pk = (db.spanTables pk).withMin att := by
  unfold Db.spanTables SpanTables.withMin
  congr 1
  funext e
  rw [minSpanAt_writeMin]
  simp only [true_and, List.mem_reverse, List.mem_range'_1]
  congr 1
  apply propext
  constructor
  · rintro ⟨hle, hlt⟩
    exact ⟨by omega, fun e' hlt' hle' => himp e' (by omega) hlt'⟩
  · rintro ⟨hlt, hall⟩
    refine ⟨?_, by omega⟩
    by_contra hlt'
    rcases hstop with rfl | hstop
    · omega
    · exact Bool.false_ne_true (hstop.symm.trans (hall (m - 1) (by omega) (by omega)))

theorem spanTables_writeMax (att : Att) {k : Nat} (hk : k ≤ att.target - (att.source + 1))
    (himp : ∀ e, att.source < e → e ≤ att.source + k → maxImproves (db.maxSpanAt pk e) (att.target - e) = true)
    (hstop : k = att.target - (att.source + 1) ∨
      maxImproves (db.maxSpanAt pk (att.source + 1 + k)) (att.target - (att.source + 1 + k : Nat)) = false) :
    (writeMax db pk att.target (List.range' (att.source + 1) k)).spanTables pk = (db.spanTables pk).withMax att := by
  unfold Db.spanTables SpanTables.withMax
  congr 1
  funext e
  rw [maxSpanAt_writeMax]
  simp only [true_and, List.mem_range'_1]
  congr 1
  apply propext
  constructor
  · rintro ⟨hle, hlt⟩
    exact ⟨by omega, by omega, fun e' hle' hlt' => himp e' hlt' (by omega)⟩
  · rintro ⟨hlt, hsource, hall⟩
    refine ⟨by omega, ?_⟩
    by_contra hlt'
    rcases hstop with rfl | hstop
    · omega
    · exact Bool.false_ne_true (hstop.symm.trans (hall (att.source + 1 + k) (by omega) (by omega)))

/-- **One insertion on tables of any content**. -/
theorem insertSpans_run (pk : BLSPubkey) (att : Att) (db : Db) :
    ∃ r db', (({} : MinMaxSurround).insertAttestation pk att).on db = (r, db') ∧ OnlyOf pk db db' ∧
      db'.attestationByTarget = db.attestationByTarget ∧ (db.spanTables pk).insert att = (r.isOk, db'.spanTables pk) := by
  unfold SpanTables.insert
  cases hmin : (db.spanTables pk).surrounding att with
  | true =>
    have hblocks : minBlocks (db.minSpanAt pk att.source) (att.target - att.source) = true := hmin
    have hrun := assertNotSurrounding_run pk att db
    rw [if_pos hblocks] at hrun
    exact ⟨_, _, Prog.run_bind_error _ (Prog.run_bind_error _ hrun), ⟨rfl, rfl, fun _ _ => ⟨rfl, rfl, rfl⟩⟩, rfl, rfl⟩
  | false =>
    obtain ⟨m, hm, hrun, himp, hstop⟩ := updateMinSpan_run {} pk att db hmin
    have htables := spanTables_writeMin att hm himp (hstop rfl)
    cases hmax : (db.spanTables pk).surrounded att with
    | true =>
      have hblocks : maxBlocks (db.maxSpanAt pk att.source) (att.target - att.source) = true := hmax
      have hrun' := assertNotSurrounded_run pk att (writeMin db pk att.target (List.range' m (att.source - m)).reverse)
      rw [maxSpanAt_writeMin, if_pos hblocks] at hrun'
      refine ⟨_, _, (Prog.run_bind_ok _ hrun).trans (Prog.run_bind_error _ hrun'),
        ⟨rfl, rfl, fun pk' hne => ⟨rfl, Function.update_of_ne hne _ _, rfl⟩⟩, rfl, ?_⟩
      rw [htables]
      rfl
    | false =>
      obtain ⟨k, hk, hrun', himp', hstop'⟩ :=
        updateMaxSpan_run pk att (writeMin db pk att.target (List.range' m (att.source - m)).reverse) hmax
      refine ⟨_, _, (Prog.run_bind_ok _ hrun).trans hrun', ⟨rfl, rfl, fun pk' hne => sameFor_writeSpans hne db _ _ _⟩, rfl, ?_⟩
      rw [spanTables_writeMax att hk himp' hstop', htables]
      rfl

theorem importSpans_run : ∀ (atts : List SlashingProtectionAttestation) (db : Db),
    ∃ r db', (importSpans {} pk atts).on db = (r, db') ∧ OnlyOf pk db db' ∧
      db'.attestationByTarget = db.attestationByTarget ∧
      (db.spanTables pk).importAll (atts.map (·.att)) = (r.isOk, db'.spanTables pk)
  | [], db => ⟨.ok (), db, rfl, ⟨rfl, rfl, fun _ _ => ⟨rfl, rfl, rfl⟩⟩, rfl, rfl⟩
  | att :: atts, db => by
    obtain ⟨r, db₁, hrun, honly, hrecords, hinsert⟩ := insertSpans_run pk att.att db
    rw [List.map_cons, SpanTables.importAll, hinsert]
    cases r with
    | error e => exact ⟨_, _, Prog.run_bind_error _ hrun, honly, hrecords, rfl⟩
    | ok u =>
      obtain ⟨r', db', hrun', honly', hrecords', hall⟩ := importSpans_run atts db₁
      exact ⟨r', db', (Prog.run_bind_ok _ hrun).trans hrun', honly.trans honly', hrecords'.trans hrecords, hall⟩

/-- **The whole import**: it throws when an attestation of the list is refused, with the records written, the tables as far as
the list came and the bound as it was. -/
theorem importAttestations_run (pk : BLSPubkey) (atts : List SlashingProtectionAttestation) (db : Db) :
    ∃ r db', (importAttestations {} pk atts).on db = (r, db') ∧
      ((db.spanTables pk).importAll (atts.map (·.att))).1 = r.isOk ∧
      (r.isOk = false → OnlyOf pk db db' ∧ ((db.spanTables pk).importAll (atts.map (·.att))).2 = db'.spanTables pk ∧
        db'.attestationByTarget pk = (db.attestationByTarget pk).insertMany atts) := by
  obtain ⟨r, db₁, hrun, honly, hrecords, hall⟩ := @importSpans_run pk atts (writeAtt db pk atts)
  have hset : SP.on (Prog.call (DbOp.attestationSet pk atts)) db = (.ok (), writeAtt db pk atts) := rfl
  have hwritten : OnlyOf pk db (writeAtt db pk atts) := ⟨rfl, rfl, fun pk' hne => sameFor_writeAtt hne db atts⟩
  have htables : (writeAtt db pk atts).spanTables pk = db.spanTables pk := rfl
  rw [htables] at hall
  unfold importAttestations SP.on
  rw [Prog.run_bind_ok _ hset, hall]
  cases r with
  | error e =>
    rw [Prog.run_bind_error _ hrun]
    refine ⟨_, _, rfl, rfl, fun _ => ⟨hwritten.trans honly, rfl, ?_⟩⟩
    rw [hrecords]
    exact Function.update_self _ _ _
  | ok u =>
    rw [Prog.run_bind_ok _ hrun]
    split
    · exact ⟨_, _, rfl, rfl, (nomatch ·)⟩
    · exact ⟨_, _, rfl, rfl, (nomatch ·)⟩

/-! ## The condition -/

/-- The tables cover every record, and what lies below the list's bound has its target on record or is refused by the tables or
by the bound there is. -/
structure Covered (records : RecordMap SlashingProtectionAttestation.targetEpoch)
    (bound : Option SlashingProtectionAttestationLowerBound) (tables : SpanTables) (atts : List SlashingProtectionAttestation) :
    Prop where
  spans : ∀ t r, records.get? t = some r → tables.Covers r.att
  below : ∀ att : SlashingProtectionAttestation, att.sourceEpoch ≤ att.targetEpoch → boundAllows att (listBound atts) = false →
    (records.get? att.targetEpoch).isSome ∨ tables.surrounding att.att ∨ tables.surrounded att.att ∨ boundAllows att bound = false

/-- When an attestation of the list is refused, what is written before that is there already, or the tables as far as the list
comes, with the bound there is, cover the records and the list's. -/
def KeepsCover (db : Db) (pk : BLSPubkey) (atts : List SlashingProtectionAttestation) : Prop :=
  let imported := (db.spanTables pk).importAll (atts.map (·.att))
  let records := (db.attestationByTarget pk).insertMany atts
  imported.1 = false →
    ((∀ t, records.get? t = (db.attestationByTarget pk).get? t) ∧ imported.2 = db.spanTables pk) ∨
    Covered records (db.attestationLowerBound pk) imported.2 atts

theorem stillCovered_iff : StillCovered db pk atts ↔
    Covered (db.attestationByTarget pk) (db.attestationLowerBound pk) (db.spanTables pk) atts := by
  constructor
  · rintro ⟨hspans, -, hbelow⟩
    refine ⟨fun t r hr => spansCover_iff.1 (hspans t r hr), fun att hle hlow => ?_⟩
    by_contra hnone
    simp only [not_or, Bool.not_eq_true, Bool.not_eq_false] at hnone
    obtain ⟨hnew, hmin, hmax, hallows⟩ := hnone
    have hnone := Option.isNone_iff_eq_none.1 (Option.isSome_eq_false_iff.1 hnew)
    exact hbelow att hlow (Db.safeStatus_ok_iff.2 ⟨hle, hnone, hmin, hmax, hallows⟩)
  · rintro ⟨hcovers, hbelow⟩
    have hspans : ∀ t r, (db.attestationByTarget pk).get? t = some r → SpansCover db pk r.att := fun t r hr =>
      spansCover_iff.2 (hcovers t r hr)
    refine ⟨hspans, fun t r hr att hconflict => (hspans t r hr).rejects hconflict, fun att hlow hok => ?_⟩
    obtain ⟨hle, hnew, hmin, hmax, hallows⟩ := Db.safeStatus_ok_iff.1 hok
    rcases hbelow att hle hlow with hsome | hblocks | hblocks | hlow'
    · rw [hnew] at hsome
      cases hsome
    · exact Bool.false_ne_true (hmin.symm.trans hblocks)
    · exact Bool.false_ne_true (hmax.symm.trans hblocks)
    · exact Bool.false_ne_true (hlow'.symm.trans hallows)

theorem importAttestations_covered_iff (db : Db) (pk : BLSPubkey) (atts : List SlashingProtectionAttestation) :
    (∀ e db', (importAttestations {} pk atts).on db = (.error e, db') → db' = db ∨ StillCovered db' pk atts) ↔
      KeepsCover db pk atts := by
  obtain ⟨r, db', hrun, hall, herr⟩ := importAttestations_run pk atts db
  unfold KeepsCover
  dsimp only
  rw [hrun, hall]
  cases r with
  | ok u => exact ⟨fun _ => (nomatch ·), fun _ _ _ => (nomatch ·)⟩
  | error e =>
    obtain ⟨honly, htables, hrecords⟩ := herr rfl
    rw [htables, ← hrecords, ← honly.eq_iff, ← honly.attestationLowerBound, ← stillCovered_iff]
    exact ⟨fun h _ => h e db' rfl, fun h e' db'' heq => by cases heq; exact h rfl⟩

/-! ## Through a file -/

theorem importData_throws : ∀ (data : List ValidatorRecords) {db : Db} {e : SlashingProtectionError} {db' : Db},
    (importData data).on db = (.error e, db') →
    ∃ before validator after db₁, data = before ++ validator :: after ∧ (importData before).on db = (.ok (), db₁) ∧
      (importAttestations {} validator.pubkey validator.signedAttestations).on
        (writeBlocks db₁ validator.pubkey validator.signedBlocks) = (.error e, db')
  | [], _, _, _, h => by cases h
  | validator :: data, db, e, db', h => by
    unfold importData SP.on at h
    rw [Prog.run_bind_ok _ (importBlocks_run validator.pubkey validator.signedBlocks db), Prog.run_bind] at h
    rcases hrun : Prog.run Db.answer (importAttestations {} validator.pubkey validator.signedAttestations)
      (writeBlocks db validator.pubkey validator.signedBlocks) with ⟨r, db₁⟩
    rw [hrun] at h
    cases r with
    | error e' =>
      cases h
      exact ⟨[], validator, data, db, rfl, rfl, hrun⟩
    | ok u =>
      obtain ⟨before, validator', after, db₂, hdata, hbefore, hthrows⟩ := importData_throws data h
      refine ⟨validator :: before, validator', after, db₂, by rw [hdata]; rfl, ?_, hthrows⟩
      unfold importData SP.on
      rw [Prog.run_bind_ok _ (importBlocks_run validator.pubkey validator.signedBlocks db), Prog.run_bind_ok _ hrun]
      exact hbefore

def somePubkey : BLSPubkey := Vector.replicate 48 1

def surroundingAtts : List SlashingProtectionAttestation := [⟨2, 3, Vector.replicate 32 1⟩, ⟨1, 5, Vector.replicate 32 2⟩]

def laterAtts : List SlashingProtectionAttestation := [⟨2, 3, zeroRoot⟩, ⟨2, 5, Vector.replicate 32 1⟩, ⟨3, 4, zeroRoot⟩]

def twoImports : IInterchangeLodestar where
  genesisValidatorsRoot := zeroRoot
  data := [⟨somePubkey, [⟨9, zeroRoot⟩], [⟨4, 5, zeroRoot⟩]⟩, ⟨somePubkey, [⟨7, zeroRoot⟩], laterAtts⟩]

def afterFirst : Db := ((importData [⟨somePubkey, [⟨9, zeroRoot⟩], [⟨4, 5, zeroRoot⟩]⟩]).on Db.empty).2

theorem afterFirst_keepsCover : KeepsCover (writeBlocks afterFirst somePubkey [⟨7, zeroRoot⟩]) somePubkey laterAtts := by
  intro _
  right
  constructor
  · intro t r hr
    have hcovers : ∀ r ∈ ((afterFirst.attestationByTarget somePubkey).insertMany laterAtts).entries,
        ((afterFirst.spanTables somePubkey).importAll (laterAtts.map (·.att))).2.Covers r.att := by decide +kernel
    exact hcovers r (RecordMap.mem_of_get? hr)
  · intro att _ hlow
    have hlist : listBound laterAtts = some ⟨2, 3⟩ := rfl
    have hstored : (writeBlocks afterFirst somePubkey [⟨7, zeroRoot⟩]).attestationLowerBound somePubkey = some ⟨4, 5⟩ := rfl
    rw [hlist] at hlow
    rw [hstored]
    right; right; right
    simp only [boundAllows, Bool.and_eq_false_iff, decide_eq_false_iff_not] at hlow ⊢
    omega

end Lodestar.Validator
