import Lodestar.Validator.SlashingSafety
/-!
# SlashingRaces — two calls of a service in flight at once

The check and the record of a call are separate awaited steps, and nothing keeps another call for the same public key from
running between them.  Seen from one call, what the other can do to the database only makes its own check stricter
(`Tighter`, `Interferes`), so two calls that both return were both allowed on the database they started on.  The other way
round, two calls that are allowed there can be scheduled so that both return (`race_of_allowed`).
-/
namespace Lodestar.Validator

open Async Lib MinMaxSurround

/-! ## What one attestation call can do to the other -/

/-- `db` refuses at least what `db₀` refuses for `pk`. -/
structure Tighter (db₀ : Db) (pk : BLSPubkey) (db : Db) : Prop where
  onRecord : ∀ t r, (db₀.attestationByTarget pk).get? t = some r → (db.attestationByTarget pk).get? t = some r
  minSpan : ∀ e m, db₀.minSpanAt pk e = some m → 0 < m → ∃ m', db.minSpanAt pk e = some m' ∧ 0 < m' ∧ m' ≤ m
  maxSpan : ∀ e m, db₀.maxSpanAt pk e = some m → 0 < m → ∃ m', db.maxSpanAt pk e = some m' ∧ m ≤ m'
  lowerBound : db.attestationLowerBound pk = db₀.attestationLowerBound pk

theorem Tighter.refl (db : Db) (pk : BLSPubkey) : Tighter db pk db :=
  ⟨fun _ _ h => h, fun _ m h hm => ⟨m, h, hm, Int.le_refl _⟩, fun _ m h _ => ⟨m, h, Int.le_refl _⟩, rfl⟩

section

variable (db₀ : Db) (pk : BLSPubkey) (x : SlashingProtectionAttestation)

def RecordsFrom (db : Db) : Prop :=
  ∀ t r, (db.attestationByTarget pk).get? t = some r → (db₀.attestationByTarget pk).get? t = some r ∨ r = x

/-- A step the call for `x` may take. -/
def Interferes (db db' : Db) : Prop :=
  (Tighter db₀ pk db → Tighter db₀ pk db') ∧ (RecordsFrom db₀ pk x db → RecordsFrom db₀ pk x db')

end

variable {db₀ : Db} {pk : BLSPubkey} {x : SlashingProtectionAttestation}

theorem Interferes.refl (db : Db) : Interferes db₀ pk x db db := ⟨id, id⟩

theorem Interferes.trans (a b c : Db) (h : Interferes db₀ pk x a b) (h' : Interferes db₀ pk x b c) : Interferes db₀ pk x a c :=
  ⟨fun t => h'.1 (h.1 t), fun t => h'.2 (h.2 t)⟩

variable {e : Nat} {db₀ db db' : Db}

theorem Tighter.minBlocks (h : Tighter db₀ pk db) {d : Int} (hb : minBlocks (db.minSpanAt pk e) d = false) :
    minBlocks (db₀.minSpanAt pk e) d = false := by
  cases ho : db₀.minSpanAt pk e with
  | none => rfl
  | some m =>
    by_cases hm : 0 < m
    · obtain ⟨m', hm', hpos, hle⟩ := h.minSpan e m ho hm
      simp only [hm', MinMaxSurround.minBlocks, Option.any_some, decide_eq_false_iff_not] at hb ⊢
      omega
    · simp [MinMaxSurround.minBlocks, hm]

theorem Tighter.maxBlocks (h : Tighter db₀ pk db) {d : Int} (hb : maxBlocks (db.maxSpanAt pk e) d = false) :
    maxBlocks (db₀.maxSpanAt pk e) d = false := by
  cases ho : db₀.maxSpanAt pk e with
  | none => rfl
  | some m =>
    by_cases hm : 0 < m
    · obtain ⟨m', hm', hle⟩ := h.maxSpan e m ho hm
      simp only [hm', MinMaxSurround.maxBlocks, Option.any_some, decide_eq_false_iff_not] at hb ⊢
      omega
    · simp [MinMaxSurround.maxBlocks, hm]

def MinTightens (db₀ : Db) (pk : BLSPubkey) (v : DistanceEntry) : Prop :=
  ∀ m, db₀.minSpanAt pk v.source = some m → 0 < m → 0 < v.distance ∧ v.distance ≤ m

def MaxTightens (db₀ : Db) (pk : BLSPubkey) (v : DistanceEntry) : Prop :=
  ∀ m, db₀.maxSpanAt pk v.source = some m → 0 < m → m ≤ v.distance

variable {values : List DistanceEntry}

theorem insertMany_distance {spans : RecordMap DistanceEntry.source} {R : Int → Prop}
    (hold : ∃ m, (spans.get? e).map (·.distance) = some m ∧ R m) (hv : ∀ v ∈ values, v.source = e → R v.distance) :
    ∃ m, ((spans.insertMany values).get? e).map (·.distance) = some m ∧ R m := by
  rw [RecordMap.get?_insertMany]
  cases hf : values.reverse.find? (fun v => v.source == e) with
  | none =>
    exact hold
  | some v =>
    have hsource : v.source = e := by simpa using List.find?_some hf
    exact ⟨v.distance, rfl, hv v (List.mem_reverse.1 (List.mem_of_find?_eq_some hf)) hsource⟩

theorem interferes_minSpanSetBatch (hv : ∀ v ∈ values, MinTightens db₀ pk v) (db : Db) :
    Interferes db₀ pk x db (Db.answer (.minSpanSetBatch pk values) db).2 := by
  refine ⟨fun ht => ⟨ht.onRecord, fun e m hm hpos => ?_, ht.maxSpan, ht.lowerBound⟩, id⟩
  unfold Db.minSpanAt Db.answer
  simp only [Function.update_self]
  refine insertMany_distance (ht.minSpan e m hm hpos) fun v hmem hsource => ?_
  exact hv v hmem m (hsource ▸ hm) hpos

theorem interferes_maxSpanSetBatch (hv : ∀ v ∈ values, MaxTightens db₀ pk v) (db : Db) :
    Interferes db₀ pk x db (Db.answer (.maxSpanSetBatch pk values) db).2 := by
  refine ⟨fun ht => ⟨ht.onRecord, ht.minSpan, fun e m hm hpos => ?_, ht.lowerBound⟩, id⟩
  unfold Db.maxSpanAt Db.answer
  simp only [Function.update_self]
  refine insertMany_distance (ht.maxSpan e m hm hpos) fun v hmem hsource => ?_
  exact hv v hmem m (hsource ▸ hm) hpos

theorem interferes_attestationSet (hnew : (db₀.attestationByTarget pk).get? x.targetEpoch = none) (db : Db) :
    Interferes db₀ pk x db (Db.answer (.attestationSet pk [x]) db).2 := by
  have hget : ∀ t, ((Db.answer (.attestationSet pk [x]) db).2.attestationByTarget pk).get? t =
      if x.targetEpoch = t then some x else (db.attestationByTarget pk).get? t := by
    simp [Db.answer, RecordMap.insertMany, RecordMap.get?_insert]
  constructor
  · refine fun ht => ⟨fun t r hr => ?_, ht.minSpan, ht.maxSpan, ht.lowerBound⟩
    rw [hget, if_neg]
    · exact ht.onRecord t r hr
    · rintro rfl
      rw [hnew] at hr
      cases hr
  · intro hf t r hr
    rw [hget] at hr
    split at hr
    · exact .inr (by simpa using hr.symm)
    · exact hf t r hr

/-! ## One attestation call beside the other -/

section Beside

variable {db₀ : Db} {pk : BLSPubkey} {a b : SlashingProtectionAttestation}

abbrev Beside (db₀ : Db) (pk : BLSPubkey) (a b : SlashingProtectionAttestation) {α : Type} (Q : α → Db → Prop) :
    SP α → Db → Prop :=
  Meets Db.answer (Interferes db₀ pk b) (Interferes db₀ pk a) Q

variable {db : Db}

section

variable (ht : Tighter db₀ pk db)
include ht

theorem pass_beside {C : Prop} (hC : C) : Beside db₀ pk a b (fun _ db' => Tighter db₀ pk db' ∧ C) (pure () : SP Unit) db :=
  fun _ hr => ⟨hr.1 ht, hC⟩

variable {att : Att}

theorem assertNotSurrounding_beside : Beside db₀ pk a b (fun _ db' => Tighter db₀ pk db' ∧
      minBlocks (db₀.minSpanAt pk att.source) (att.target - att.source) = false) (assertNotSurrounding pk att) db := by
  refine Meets.bind_call (fun db₁ hr => ⟨Interferes.refl _, ?_⟩)
  rw [Db.answer_minSpanGet]
  have ht₁ := hr.1 ht
  cases hm : db₁.minSpanAt pk att.source with
  | none => exact pass_beside ht₁ (ht₁.minBlocks (by rw [hm]; rfl))
  | some m =>
    dsimp only
    split
    · trivial
    · rename_i hblock
      exact pass_beside ht₁ (ht₁.minBlocks (by rw [hm]; simpa [minBlocks] using hblock))

theorem assertNotSurrounded_beside : Beside db₀ pk a b (fun _ db' => Tighter db₀ pk db' ∧
      maxBlocks (db₀.maxSpanAt pk att.source) (att.target - att.source) = false) (assertNotSurrounded pk att) db := by
  refine Meets.bind_call (fun db₁ hr => ⟨Interferes.refl _, ?_⟩)
  rw [Db.answer_maxSpanGet]
  have ht₁ := hr.1 ht
  cases hm : db₁.maxSpanAt pk att.source with
  | none => exact pass_beside ht₁ (ht₁.maxBlocks (by rw [hm]; rfl))
  | some m =>
    dsimp only
    split
    · trivial
    · rename_i hblock
      exact pass_beside ht₁ (ht₁.maxBlocks (by rw [hm]; simpa [maxBlocks] using hblock))

theorem assertNoSurround_beside : Beside db₀ pk a b (fun _ db' => Tighter db₀ pk db' ∧
      minBlocks (db₀.minSpanAt pk att.source) (att.target - att.source) = false ∧
      maxBlocks (db₀.maxSpanAt pk att.source) (att.target - att.source) = false) (assertNoSurround pk att) db := by
  refine Meets.bind Interferes.refl (Meets.mono (fun _ db₁ h₁ => ?_) (assertNotSurrounding_beside ht))
  exact Meets.mono (fun _ _ h₂ => ⟨h₂.1, h₁.2, h₂.2⟩) (assertNotSurrounded_beside h₁.1)

end

theorem checkLowerBound_beside {att : SlashingProtectionAttestation} (o : Option SlashingProtectionAttestationLowerBound)
    (ht : Tighter db₀ pk db) :
    Beside db₀ pk a b (fun _ db' => Tighter db₀ pk db' ∧ boundAllows att o = true) (checkLowerBound att o) db := by
  cases o with
  | none => exact fun db₁ hr => ⟨hr.1 ht, rfl⟩
  | some bound =>
    unfold checkLowerBound
    dsimp only
    split
    · trivial
    split
    · trivial
    rename_i h1 h2
    refine fun db₁ hr => ⟨hr.1 ht, ?_⟩
    simp only [boundAllows, Bool.and_eq_true, decide_eq_true_eq]
    omega

theorem minSpanLoop_beside (hatt : att.source ≤ att.target) (untilEpoch : Nat) :
    ∀ (n : Nat) (values : List DistanceEntry) (db : Db), n ≤ att.source → Tighter db₀ pk db →
      (∀ v ∈ values, MinTightens db₀ pk v) →
      Beside db₀ pk a b (fun values' db' => Tighter db₀ pk db' ∧ ∀ v ∈ values', MinTightens db₀ pk v)
        (minSpanLoop pk att untilEpoch n values) db
  | 0, values, db, _, ht, hv => fun db₁ hr => ⟨hr.1 ht, hv⟩
  | epoch + 1, values, db, hn, ht, hv => by
    unfold minSpanLoop
    split
    · exact fun db₁ hr => ⟨hr.1 ht, hv⟩
    refine Meets.bind_call (fun db₁ hr => ⟨Interferes.refl _, ?_⟩)
    rw [Db.answer_minSpanGet]
    dsimp only
    have ht₁ := hr.1 ht
    split
    · rename_i himp
      refine minSpanLoop_beside hatt untilEpoch epoch _ db₁ (by omega) ht₁ (fun v hmem => ?_)
      rcases List.mem_append.1 hmem with hmem | hmem
      · exact hv v hmem
      · obtain rfl := List.mem_singleton.1 hmem
        intro m hm hpos
        obtain ⟨m', hm', hpos', hle⟩ := ht₁.minSpan epoch m hm hpos
        rw [hm'] at himp
        simp only [Option.all_some, Bool.or_eq_true, beq_iff_eq, decide_eq_true_eq] at himp
        constructor
        · show 0 < (att.target : Int) - epoch
          omega
        · show (att.target : Int) - epoch ≤ m
          omega
    · exact fun db₂ hr₂ => ⟨hr₂.1 ht₁, hv⟩

theorem maxSpanLoop_beside : ∀ (n epoch : Nat) (values : List DistanceEntry) (db : Db),
    Tighter db₀ pk db → (∀ v ∈ values, MaxTightens db₀ pk v) →
      Beside db₀ pk a b (fun values' db' => Tighter db₀ pk db' ∧ ∀ v ∈ values', MaxTightens db₀ pk v)
        (maxSpanLoop pk att n epoch values) db
  | 0, epoch, values, db, ht, hv => fun db₁ hr => ⟨hr.1 ht, hv⟩
  | n + 1, epoch, values, db, ht, hv => by
    refine Meets.bind_call (fun db₁ hr => ⟨Interferes.refl _, ?_⟩)
    rw [Db.answer_maxSpanGet]
    dsimp only
    have ht₁ := hr.1 ht
    split
    · rename_i himp
      refine maxSpanLoop_beside n (epoch + 1) _ db₁ ht₁ (fun v hmem => ?_)
      rcases List.mem_append.1 hmem with hmem | hmem
      · exact hv v hmem
      · obtain rfl := List.mem_singleton.1 hmem
        intro m hm hpos
        obtain ⟨m', hm', hle⟩ := ht₁.maxSpan epoch m hm hpos
        rw [hm'] at himp
        simp only [Option.all_some, Bool.or_eq_true, beq_iff_eq, decide_eq_true_eq] at himp
        show m ≤ (att.target : Int) - epoch
        omega
    · exact fun db₂ hr₂ => ⟨hr₂.1 ht₁, hv⟩

theorem insertSpans_beside (self : MinMaxSurround) (hatt : att.source ≤ att.target) (ht : Tighter db₀ pk db) :
    Beside db₀ pk a b (fun _ db' => Tighter db₀ pk db') (self.insertAttestation pk att) db := by
  refine Meets.bind Interferes.refl (Meets.mono (Q := fun _ db' => Tighter db₀ pk db') (fun _ db₁ ht₁ => ?_) ?_)
  · refine Meets.bind Interferes.refl (Meets.mono (fun _ db₂ h₂ => ?_) (assertNotSurrounded_beside ht₁))
    refine Meets.bind Interferes.refl (Meets.mono (fun values db₃ h₃ => ?_)
      (maxSpanLoop_beside _ _ [] db₂ h₂.1 (fun _ h => (List.not_mem_nil h).elim)))
    exact fun db₄ hr => ⟨interferes_maxSpanSetBatch h₃.2 db₄,
      fun db₅ hr₅ => hr₅.1 ((interferes_maxSpanSetBatch (x := a) h₃.2 db₄).1 (hr.1 h₃.1))⟩
  · refine Meets.bind Interferes.refl (Meets.mono (fun _ db₂ h₂ => ?_) (assertNotSurrounding_beside ht))
    refine Meets.bind Interferes.refl (Meets.mono (fun values db₃ h₃ => ?_)
      (minSpanLoop_beside hatt _ _ [] db₂ (Nat.le_refl _) h₂.1 (fun _ h => (List.not_mem_nil h).elim)))
    exact fun db₄ hr => ⟨interferes_minSpanSetBatch h₃.2 db₄,
      fun db₅ hr₅ => hr₅.1 ((interferes_minSpanSetBatch (x := a) h₃.2 db₄).1 (hr.1 h₃.1))⟩

/-- `a` was allowed at the start, or it is what `b` asks for. -/
def AllowedBeside (db₀ : Db) (pk : BLSPubkey) (a b : SlashingProtectionAttestation) : Prop :=
  (db₀.safeStatus pk a).isSome ∨ (a.targetEpoch = b.targetEpoch ∧ a.signingRoot = b.signingRoot)

theorem checkAttestation_beside (ht : Tighter db₀ pk db) (hf : RecordsFrom db₀ pk b db) :
    Beside db₀ pk a b (fun status db' => Tighter db₀ pk db' ∧ AllowedBeside db₀ pk a b ∧
      (status = .OK → (db₀.attestationByTarget pk).get? a.targetEpoch = none ∧ a.sourceEpoch ≤ a.targetEpoch))
      (checkAttestation pk a) db := by
  unfold checkAttestation
  split
  · trivial
  rename_i hle
  refine Meets.bind_call (fun db₁ hr => ⟨Interferes.refl _, ?_⟩)
  rw [Db.answer_attestationGet]
  have ht₁ := hr.1 ht
  have hf₁ := hr.2 hf
  cases hg : (db₁.attestationByTarget pk).get? a.targetEpoch with
  | some same =>
    dsimp only
    split
    · rename_i heq
      refine fun db₂ hr₂ => ⟨hr₂.1 ht₁, ?_, fun h => by cases h⟩
      rcases hf₁ _ _ hg with hold | rfl
      · left
        unfold Db.safeStatus
        rw [if_neg hle, hold]
        simp [heq]
      · right
        simp only [isEqualNonZeroRoot, Bool.and_eq_true, decide_eq_true_eq] at heq
        exact ⟨(RecordMap.key_of_get? hg).symm, heq.2.symm⟩
    · trivial
  | none =>
    have hnew : (db₀.attestationByTarget pk).get? a.targetEpoch = none := by
      cases h₀ : (db₀.attestationByTarget pk).get? a.targetEpoch with
      | none => rfl
      | some r =>
        rw [ht₁.onRecord _ r h₀] at hg
        cases hg
    refine Meets.bind Interferes.refl (Meets.mono (fun _ db₂ h₂ => ?_)
      (Meets.tryCatch (fun e db₂ => ?_) (assertNoSurround_beside ht₁)))
    · obtain ⟨ht₂, hmin, hmax⟩ := h₂
      refine Meets.bind_call (fun db₃ hr₃ => ⟨Interferes.refl _, ?_⟩)
      have ht₃ := hr₃.1 ht₂
      rw [show (Db.answer (.lowerBoundGet pk) db₃).1 = db₀.attestationLowerBound pk from ht₃.lowerBound]
      refine Meets.mono (fun status db₄ h₄ => ?_) (checkLowerBound_beside _ ht₃)
      refine ⟨h₄.1, .inl ?_, fun _ => ⟨hnew, Nat.le_of_not_lt hle⟩⟩
      simp only [SlashingProtectionAttestation.att] at hmin hmax
      simp [Db.safeStatus, hle, hnew, hmin, hmax, h₄.2]
    · cases e with
      | surround code x t =>
        cases code with
        | IS_SURROUNDING => exact fun db₃ _ => ⟨Interferes.refl _, trivial⟩
        | IS_SURROUNDED => exact fun db₃ _ => ⟨Interferes.refl _, trivial⟩
      | attestation err => trivial
      | block err => trivial

theorem checkAndInsertAttestation_beside (self : MinMaxSurround) (ht : Tighter db₀ pk db) (hf : RecordsFrom db₀ pk b db) :
    Beside db₀ pk a b (fun _ _ => AllowedBeside db₀ pk a b) (checkAndInsertAttestation self pk a) db := by
  refine Meets.bind Interferes.refl (Meets.mono (fun status db₁ h₁ => ?_) (checkAttestation_beside ht hf))
  obtain ⟨ht₁, hallow, hok⟩ := h₁
  cases status with
  | SAME_DATA => exact fun _ _ => hallow
  | OK =>
    obtain ⟨hnew, hle⟩ := hok rfl
    refine Meets.bind_call (fun db₂ hr => ⟨interferes_attestationSet hnew db₂, ?_⟩)
    have ht₂ := (interferes_attestationSet hnew db₂).1 (hr.1 ht₁)
    exact Meets.mono (fun _ _ _ => hallow) (insertSpans_beside self hle ht₂)

end Beside

variable {db : Db} {a b : SlashingProtectionAttestation}

/-- **Two calls that both return were both allowed** on the database they started on, or ask for the same. -/
theorem allowed_of_race {self : MinMaxSurround}
    (h : Steps Db.answer ⟨checkAndInsertAttestation self pk a, checkAndInsertAttestation self pk b, db⟩ ⟨.ret (), .ret (), db'⟩) :
    AllowedBeside db pk a b ∧ AllowedBeside db pk b a := by
  have hfrom : ∀ x, RecordsFrom db pk x db := fun _ _ _ hr => .inl hr
  obtain ⟨hl, hr⟩ := Meets.par Interferes.trans Interferes.trans Interferes.refl Interferes.refl h
    (checkAndInsertAttestation_beside self (Tighter.refl db pk) (hfrom b))
    (checkAndInsertAttestation_beside self (Tighter.refl db pk) (hfrom a))
  exact ⟨hl db' (Interferes.refl db'), hr db' (Interferes.refl db')⟩

/-! ## Scheduling two allowed attestations -/

variable {att : SlashingProtectionAttestation}

theorem checkAttestation_returns {status : SafeStatus} (h : db.safeStatus pk att = some status) :
    (checkAttestation pk att).on db = (.ok status, db) := by
  obtain ⟨r, hr, hs⟩ := checkAttestation_run pk att db
  rw [h] at hs
  cases r with
  | error e => cases hs
  | ok status' =>
    cases hs
    exact hr

theorem race_of_new (ha : db.safeStatus pk a = some .OK) (hb : db.safeStatus pk b = some .OK) (hs : ¬ b.att.Surrounds a.att) :
    ∃ db', Steps Db.answer ⟨checkAndInsertAttestation {} pk a, checkAndInsertAttestation {} pk b, db⟩
      ⟨.ret (), .ret (), db'⟩ := by
  obtain ⟨hmina, hmaxa⟩ := Db.safeStatus_blocks ha
  obtain ⟨hminb, hmaxb⟩ := Db.safeStatus_blocks hb
  obtain ⟨m, hm, hrun₁, -⟩ := updateMinSpan_run {} pk a.att (writeAtt db pk [a]) hmina
  obtain ⟨db₁, hdb₁⟩ : ∃ db₁, db₁ = writeMin (writeAtt db pk [a]) pk a.targetEpoch
    (List.range' m (a.sourceEpoch - m)).reverse := ⟨_, rfl⟩
  rw [show a.att.target = a.targetEpoch from rfl, show a.att.source = a.sourceEpoch from rfl, ← hdb₁] at hrun₁
  -- the min spans of the first do not stop the second, which does not surround it
  have hminb₁ : minBlocks ((writeAtt db₁ pk [b]).minSpanAt pk b.sourceEpoch) (b.targetEpoch - b.sourceEpoch) = false := by
    rw [show (writeAtt db₁ pk [b]).minSpanAt pk b.sourceEpoch = db₁.minSpanAt pk b.sourceEpoch from rfl, hdb₁,
      minSpanAt_writeMin]
    split
    · rename_i hmem
      simp only [List.mem_reverse, List.mem_range'_1] at hmem
      simp only [Att.Surrounds, SlashingProtectionAttestation.att] at hs
      simp only [minBlocks, Option.any_some, decide_eq_false_iff_not]
      omega
    · exact hminb
  have hmaxb₁ : maxBlocks ((writeAtt db₁ pk [b]).maxSpanAt pk b.sourceEpoch) (b.targetEpoch - b.sourceEpoch) = false := by
    rw [hdb₁]
    exact hmaxb
  obtain ⟨m', hm', hrun₂, -⟩ := updateMinSpan_run {} pk b.att (writeAtt db₁ pk [b]) hminb₁
  obtain ⟨k, hk, hrun₃, -⟩ := updateMaxSpan_run pk b.att
    (writeMin (writeAtt db₁ pk [b]) pk b.targetEpoch (List.range' m' (b.sourceEpoch - m')).reverse) hmaxb₁
  obtain ⟨db₂, hdb₂⟩ : ∃ db₂, db₂ = writeMax (writeMin (writeAtt db₁ pk [b]) pk b.targetEpoch
    (List.range' m' (b.sourceEpoch - m')).reverse) pk b.targetEpoch (List.range' (b.sourceEpoch + 1) k) := ⟨_, rfl⟩
  rw [show b.att.target = b.targetEpoch from rfl, show b.att.source = b.sourceEpoch from rfl, ← hdb₂] at hrun₃
  have hmaxa₂ : maxBlocks (db₂.maxSpanAt pk a.sourceEpoch) (a.targetEpoch - a.sourceEpoch) = false := by
    rw [hdb₂, maxSpanAt_writeMax]
    split
    · rename_i hmem
      simp only [List.mem_range'_1] at hmem
      simp only [Att.Surrounds, SlashingProtectionAttestation.att] at hs
      simp only [maxBlocks, Option.any_some, decide_eq_false_iff_not]
      omega
    · rw [hdb₁]
      exact hmaxa
  obtain ⟨k', hk', hrun₄, -⟩ := updateMaxSpan_run pk a.att db₂ hmaxa₂
  have hcheck : Steps Db.answer ⟨checkAndInsertAttestation {} pk a, checkAndInsertAttestation {} pk b, db⟩
      ⟨insertAttestation {} pk a, insertAttestation {} pk b, db⟩ :=
    (Steps.left_run _ (insertUnlessSame {} pk a) _ .OK _ db db (checkAttestation_returns ha)).trans
      (Steps.right_run _ (insertUnlessSame {} pk b) _ .OK _ db db (checkAttestation_returns hb))
  have hfirst : Steps Db.answer (ε := SlashingProtectionError) ⟨insertAttestation {} pk a, insertAttestation {} pk b, db⟩
      ⟨updateMaxSpan pk a.att, insertAttestation {} pk b, db₁⟩ :=
    (Steps.left_run _ (fun _ => ({} : MinMaxSurround).insertAttestation pk a.att) _ () _ db _ rfl).trans
      (Steps.left_run _ (fun _ => updateMaxSpan pk a.att) _ () _ _ db₁ hrun₁)
  have hsecond : (insertAttestation {} pk b).on db₁ = (.ok (), db₂) := by
    rw [← hrun₃]
    exact Prog.run_bind_ok _ hrun₂
  exact ⟨_, hcheck.trans (hfirst.trans ((Steps.right_done _ _ () _ db₁ db₂ hsecond).trans
    (Steps.right_done _ (.ret ()) () _ db₂ _ hrun₄).swap))⟩

theorem checkAndInsertAttestation_same (h : db.safeStatus pk att = some .SAME_DATA) :
    (checkAndInsertAttestation {} pk att).on db = (.ok (), db) := by
  have hrun := checkAndInsertAttestation_run pk att db
  rw [h] at hrun
  exact hrun

theorem checkAndInsertAttestation_returns (h : (db.safeStatus pk att).isSome) :
    ∃ db', (checkAndInsertAttestation {} pk att).on db = (.ok (), db') := by
  obtain ⟨status, hs⟩ := Option.isSome_iff_exists.1 h
  have hrun := checkAndInsertAttestation_run pk att db
  rw [hs] at hrun
  cases status with
  | SAME_DATA => exact ⟨db, hrun⟩
  | OK =>
    obtain ⟨db', h', -⟩ := hrun
    exact ⟨db', h'⟩

theorem race_of_allowed (ha : (db.safeStatus pk a).isSome) (hb : (db.safeStatus pk b).isSome) :
    ∃ db', Steps Db.answer ⟨checkAndInsertAttestation {} pk a, checkAndInsertAttestation {} pk b, db⟩
      ⟨.ret (), .ret (), db'⟩ := by
  obtain ⟨sa, hsa⟩ := Option.isSome_iff_exists.1 ha
  obtain ⟨sb, hsb⟩ := Option.isSome_iff_exists.1 hb
  obtain ⟨dba, hruna⟩ := checkAndInsertAttestation_returns ha
  obtain ⟨dbb, hrunb⟩ := checkAndInsertAttestation_returns hb
  cases sa with
  | SAME_DATA =>
    exact ⟨dbb, (Steps.right_done _ _ () _ db db (checkAndInsertAttestation_same hsa)).swap.trans
      (Steps.right_done _ (.ret ()) () _ db dbb hrunb)⟩
  | OK =>
    cases sb with
    | SAME_DATA =>
      exact ⟨dba, (Steps.right_done _ _ () _ db db (checkAndInsertAttestation_same hsb)).trans
        (Steps.right_done _ (.ret ()) () _ db dba hruna).swap⟩
    | OK =>
      by_cases hs : b.att.Surrounds a.att
      · have hs' : ¬ a.att.Surrounds b.att := by
          simp only [Att.Surrounds] at hs ⊢
          omega
        obtain ⟨db', h⟩ := race_of_new hsb hsa hs'
        exact ⟨db', h.swap⟩
      · exact race_of_new hsa hsb hs

/-! ## Blocks -/

section

variable (db₀ : Db) (pk : BLSPubkey)

def BlocksKept (db : Db) : Prop :=
  ∀ slot r, (db₀.blockBySlot pk).get? slot = some r → (db.blockBySlot pk).get? slot = some r

def BlocksFrom (x : SlashingProtectionBlock) (db : Db) : Prop :=
  ∀ slot r, (db.blockBySlot pk).get? slot = some r → (db₀.blockBySlot pk).get? slot = some r ∨ r = x

/-- A step the proposal of `x` may take. -/
def BlockInterferes (x : SlashingProtectionBlock) (db db' : Db) : Prop :=
  (BlocksKept db₀ pk db → BlocksKept db₀ pk db') ∧ (BlocksFrom db₀ pk x db → BlocksFrom db₀ pk x db')

end

theorem BlockInterferes.refl {x : SlashingProtectionBlock} (db : Db) : BlockInterferes db₀ pk x db db := ⟨id, id⟩

theorem BlockInterferes.trans {x : SlashingProtectionBlock} (a b c : Db) (h : BlockInterferes db₀ pk x a b)
    (h' : BlockInterferes db₀ pk x b c) : BlockInterferes db₀ pk x a c :=
  ⟨fun t => h'.1 (h.1 t), fun t => h'.2 (h.2 t)⟩

theorem blockInterferes_blockSet {x : SlashingProtectionBlock} (hnew : (db₀.blockBySlot pk).get? x.slot = none) (db : Db) :
    BlockInterferes db₀ pk x db (Db.answer (.blockSet pk [x]) db).2 := by
  have hget : ∀ slot, ((Db.answer (.blockSet pk [x]) db).2.blockBySlot pk).get? slot =
      if x.slot = slot then some x else (db.blockBySlot pk).get? slot := by
    simp [Db.answer, RecordMap.insertMany, RecordMap.get?_insert]
  constructor
  · intro hk slot r hr
    rw [hget, if_neg]
    · exact hk slot r hr
    · rintro rfl
      rw [hnew] at hr
      cases hr
  · intro hf slot r hr
    rw [hget] at hr
    split at hr
    · exact .inr (by simpa using hr.symm)
    · exact hf slot r hr

theorem head?_blockValues (db : Db) (pk : BLSPubkey) : (db.blockValues pk (some 1)).head? =
    ((db.blockBySlot pk).entries.filter (fun b => decide (b.slot < MAX_SAFE_INTEGER))).head? := by
  simp [Db.blockValues, List.head?_take]

theorem first_before {b : SlashingProtectionBlock} {slot : Nat} (hslot : slot = b.slot) (hk : BlocksKept db₀ pk db)
    (hf : BlocksFrom db₀ pk b db) (h : ∀ m, (db.blockValues pk (some 1)).head? = some m → m.slot < slot) :
    ∀ m₀, (db₀.blockValues pk (some 1)).head? = some m₀ → m₀.slot < slot := by
  intro m₀ hm₀
  rw [head?_blockValues] at hm₀
  obtain ⟨hget₀, hin₀, hmin₀⟩ := RecordMap.head?_filter hm₀
  have hmem : m₀ ∈ (db.blockBySlot pk).entries.filter (fun b => decide (b.slot < MAX_SAFE_INTEGER)) :=
    List.mem_filter.2 ⟨RecordMap.mem_of_get? (hk _ _ hget₀), hin₀⟩
  cases hm : ((db.blockBySlot pk).entries.filter (fun b => decide (b.slot < MAX_SAFE_INTEGER))).head? with
  | none =>
    rw [List.head?_eq_none_iff] at hm
    rw [hm] at hmem
    cases hmem
  | some m =>
    obtain ⟨hget, hin, hmin⟩ := RecordMap.head?_filter hm
    have hlt : m.slot < slot := h m (by rw [head?_blockValues, hm])
    rcases hf _ _ hget with hold | rfl
    · have := hmin₀ m (RecordMap.mem_of_get? hold) hin
      omega
    · omega

theorem Db.blockSafeStatus_of_new {block : SlashingProtectionBlock} (hnew : (db.blockBySlot pk).get? block.slot = none)
    (h : ∀ m, (db.blockValues pk (some 1)).head? = some m → m.slot < block.slot) :
    db.blockSafeStatus pk block = some .OK := by
  unfold Db.blockSafeStatus
  rw [hnew]
  cases hm : (db.blockValues pk (some 1)).head? with
  | none => rfl
  | some m =>
    dsimp only
    rw [if_neg (Nat.not_le.2 (h m hm))]

section BlockBeside

variable {db₀ : Db} {pk : BLSPubkey} {a b : SlashingProtectionBlock}

theorem checkBlockProposal_beside (hslot : a.slot = b.slot) (hroot : a.signingRoot ≠ b.signingRoot) {db : Db}
    (hk : BlocksKept db₀ pk db) (hf : BlocksFrom db₀ pk b db) :
    Meets Db.answer (BlockInterferes db₀ pk b) (BlockInterferes db₀ pk a)
      (fun status _ => (db₀.blockSafeStatus pk a).isSome ∧
        (status = .OK → (db₀.blockBySlot pk).get? a.slot = none)) (checkBlockProposal pk a) db := by
  refine Meets.bind_call (fun db₁ hr => ⟨BlockInterferes.refl _, ?_⟩)
  have hk₁ := hr.1 hk
  have hf₁ := hr.2 hf
  dsimp only [Db.answer]
  rw [filter_sameSlot]
  cases hg : (db₁.blockBySlot pk).get? a.slot with
  | some same =>
    dsimp only
    split
    · rename_i heq
      refine fun db₂ _ => ⟨?_, fun h => by cases h⟩
      rcases hf₁ _ _ hg with hold | rfl
      · unfold Db.blockSafeStatus
        rw [hold]
        simp [heq]
      · simp only [isEqualNonZeroRoot, Bool.and_eq_true, decide_eq_true_eq] at heq
        exact absurd heq.2.symm hroot
    · trivial
  | none =>
    have hnew : (db₀.blockBySlot pk).get? a.slot = none := by
      cases h₀ : (db₀.blockBySlot pk).get? a.slot with
      | none => rfl
      | some r =>
        rw [hk₁ _ r h₀] at hg
        cases hg
    refine Meets.bind_call (fun db₂ hr₂ => ⟨BlockInterferes.refl _, ?_⟩)
    have hpass : (∀ m, (db₂.blockValues pk (some 1)).head? = some m → m.slot < a.slot) →
        (db₀.blockSafeStatus pk a).isSome ∧ (SafeStatus.OK = .OK → (db₀.blockBySlot pk).get? a.slot = none) := by
      intro h
      rw [Db.blockSafeStatus_of_new hnew (first_before hslot (hr₂.1 hk₁) (hr₂.2 hf₁) h)]
      exact ⟨rfl, fun _ => hnew⟩
    dsimp only [Db.answer]
    cases hm : (db₂.blockValues pk (some 1)).head? with
    | none => exact fun db₃ _ => hpass (fun m h => by rw [hm] at h; cases h)
    | some m =>
      dsimp only
      split
      · trivial
      · rename_i hlt
        exact fun db₃ _ => hpass (fun m' h => by rw [hm] at h; cases h; exact Nat.not_le.1 hlt)

theorem checkAndInsertBlockProposal_beside (hslot : a.slot = b.slot) (hroot : a.signingRoot ≠ b.signingRoot) {db : Db}
    (hk : BlocksKept db₀ pk db) (hf : BlocksFrom db₀ pk b db) :
    Meets Db.answer (BlockInterferes db₀ pk b) (BlockInterferes db₀ pk a)
      (fun _ _ => (db₀.blockSafeStatus pk a).isSome) (checkAndInsertBlockProposal pk a) db := by
  refine Meets.bind BlockInterferes.refl
    (Meets.mono (fun status db₁ h₁ => ?_) (checkBlockProposal_beside hslot hroot hk hf))
  cases status with
  | SAME_DATA => exact fun _ _ => h₁.1
  | OK => exact fun db₂ _ => ⟨blockInterferes_blockSet (h₁.2 rfl) db₂, fun _ _ => h₁.1⟩

end BlockBeside

theorem blocks_allowed_of_race {a b : SlashingProtectionBlock} (hslot : a.slot = b.slot) (hroot : a.signingRoot ≠ b.signingRoot)
    (h : Steps Db.answer ⟨checkAndInsertBlockProposal pk a, checkAndInsertBlockProposal pk b, db⟩ ⟨.ret (), .ret (), db'⟩) :
    (db.blockSafeStatus pk a).isSome ∧ (db.blockSafeStatus pk b).isSome := by
  have hfrom : ∀ x, BlocksFrom db pk x db := fun _ _ _ hr => .inl hr
  have hkept : BlocksKept db pk db := fun _ _ h => h
  obtain ⟨hl, hr⟩ := Meets.par BlockInterferes.trans BlockInterferes.trans BlockInterferes.refl BlockInterferes.refl h
    (checkAndInsertBlockProposal_beside hslot hroot hkept (hfrom b))
    (checkAndInsertBlockProposal_beside hslot.symm (Ne.symm hroot) hkept (hfrom a))
  exact ⟨hl db' (BlockInterferes.refl db'), hr db' (BlockInterferes.refl db')⟩

theorem blocks_race_of_allowed {a b : SlashingProtectionBlock} (ha : (db.blockSafeStatus pk a).isSome)
    (hb : (db.blockSafeStatus pk b).isSome) :
    ∃ db', Steps Db.answer ⟨checkAndInsertBlockProposal pk a, checkAndInsertBlockProposal pk b, db⟩
      ⟨.ret (), .ret (), db'⟩ := by
  have hreturns : ∀ x : SlashingProtectionBlock, (db.blockSafeStatus pk x).isSome →
      ∃ status, (checkBlockProposal pk x).on db = (.ok status, db) := by
    intro x hx
    obtain ⟨r, hr, hs⟩ := checkBlockProposal_run pk x db
    cases r with
    | error e => rw [← hs] at hx; cases hx
    | ok status => exact ⟨status, hr⟩
  have hinsert : ∀ (x : SlashingProtectionBlock) (status : SafeStatus) (db₁ : Db),
      ∃ db₂, (insertBlockUnlessSame pk x status).on db₁ = (.ok (), db₂) := by
    intro x status db₁
    cases status with
    | SAME_DATA => exact ⟨_, rfl⟩
    | OK => exact ⟨_, rfl⟩
  obtain ⟨sa, hsa⟩ := hreturns a ha
  obtain ⟨sb, hsb⟩ := hreturns b hb
  obtain ⟨db₁, h₁⟩ := hinsert a sa db
  obtain ⟨db₂, h₂⟩ := hinsert b sb db₁
  exact ⟨db₂, (Steps.left_run _ (insertBlockUnlessSame pk a) _ sa _ db db hsa).trans
    ((Steps.right_run _ (insertBlockUnlessSame pk b) _ sb _ db db hsb).trans
      ((Steps.right_done _ _ () _ db db₁ h₁).swap.trans (Steps.right_done _ (.ret ()) () _ db₁ db₂ h₂)))⟩

/-! ## Which pairs can race -/

/-- A double vote or a surround, either way round. -/
def SlashableAtts (a b : SlashingProtectionAttestation) : Prop :=
  (a.targetEpoch = b.targetEpoch ∧ a.signingRoot ≠ b.signingRoot) ∨ a.att.Surrounds b.att ∨ b.att.Surrounds a.att

def SlashableBlocks (a b : SlashingProtectionBlock) : Prop := a.slot = b.slot ∧ a.signingRoot ≠ b.signingRoot

/-- Some interleaving of the two calls, from `db`, ends with both having succeeded. -/
def BothSucceed (db : Db) (p q : SP Unit) : Prop := ∃ db', Steps Db.answer ⟨p, q, db⟩ ⟨.ret (), .ret (), db'⟩

theorem SlashableAtts.allowed (h : SlashableAtts a b) (hab : AllowedBeside db pk a b) : (db.safeStatus pk a).isSome := by
  rcases hab with hab | ⟨ht, hr⟩
  · exact hab
  · exfalso
    simp only [SlashableAtts, Att.Surrounds, SlashingProtectionAttestation.att] at h
    rcases h with h | h | h
    · exact h.2 hr
    · omega
    · omega

theorem SlashableAtts.symm (h : SlashableAtts a b) : SlashableAtts b a := by
  rcases h with ⟨ht, hr⟩ | h | h
  · exact .inl ⟨ht.symm, Ne.symm hr⟩
  · exact .inr (.inr h)
  · exact .inr (.inl h)

/-- **When two calls in flight cannot both succeed with slashable data**: exactly when the data is not slashable, or the
check refuses one of the two on the database they start on. -/
theorem checkAndInsert_race_iff (db : Db) (pk : BLSPubkey) :
    (∀ a b : SlashingProtectionAttestation,
      ¬ (SlashableAtts a b ∧
        BothSucceed db (checkAndInsertAttestation {} pk a) (checkAndInsertAttestation {} pk b)) ↔
      ¬ (SlashableAtts a b ∧ (db.safeStatus pk a).isSome ∧ (db.safeStatus pk b).isSome)) ∧
    ∀ a b : SlashingProtectionBlock,
      ¬ (SlashableBlocks a b ∧ BothSucceed db (checkAndInsertBlockProposal pk a) (checkAndInsertBlockProposal pk b)) ↔
      ¬ (SlashableBlocks a b ∧ (db.blockSafeStatus pk a).isSome ∧ (db.blockSafeStatus pk b).isSome) := by
  constructor
  · intro a b
    refine not_congr (and_congr_right (fun hs => ⟨?_, fun h => race_of_allowed h.1 h.2⟩))
    rintro ⟨db', h⟩
    obtain ⟨ha, hb⟩ := allowed_of_race h
    exact ⟨hs.allowed ha, hs.symm.allowed hb⟩
  · intro a b
    refine not_congr (and_congr_right (fun hs => ⟨?_, fun h => blocks_race_of_allowed h.1 h.2⟩))
    rintro ⟨db', h⟩
    exact blocks_allowed_of_race hs.1 hs.2 h

/-- From an empty database two attestations of one target, and two blocks of one slot, both get through. -/
theorem checkAndInsert_race_empty :
    (∃ a b, SlashableAtts a b ∧ BothSucceed Db.empty (checkAndInsertAttestation {} (Vector.replicate 48 0) a)
      (checkAndInsertAttestation {} (Vector.replicate 48 0) b)) ∧
    ∃ a b, SlashableBlocks a b ∧ BothSucceed Db.empty (checkAndInsertBlockProposal (Vector.replicate 48 0) a)
      (checkAndInsertBlockProposal (Vector.replicate 48 0) b) :=
  ⟨⟨⟨2, 3, Vector.replicate 32 1⟩, ⟨2, 3, Vector.replicate 32 2⟩, .inl (by decide), race_of_allowed rfl rfl⟩,
    ⟨⟨7, Vector.replicate 32 1⟩, ⟨7, Vector.replicate 32 2⟩, ⟨rfl, by decide⟩, blocks_race_of_allowed rfl rfl⟩⟩

end Lodestar.Validator
