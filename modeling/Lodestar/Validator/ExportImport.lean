import Lodestar.Validator.Interchange
import Lodestar.Validator.SlashingSafety
/-!
# ExportImport — a database exported and imported into an empty one

A database filled by checks alone holds attestations none of which surrounds another, one for each target (`Signed`).  So every
span of its export gets in, in whatever order, and the tables of the new database are exact for the same attestations
(`Mirrors`); the lower bound it has besides only rejects more.
-/
namespace Lodestar.Validator

open Async Lib MinMaxSurround

/-! ## A database filled by checks alone -/

inductive SigningCall
  | attestation (pubkey : BLSPubkey) (att : SlashingProtectionAttestation)
  | block (pubkey : BLSPubkey) (proposal : SlashingProtectionBlock)

def SigningCall.prog : SigningCall → SP Unit
  | attestation pubkey att => checkAndInsertAttestation {} pubkey att
  | block pubkey proposal => checkAndInsertBlockProposal pubkey proposal

def SigningCall.InRange : SigningCall → Prop
  | attestation _ att => att.sourceEpoch < MAX_SAFE_INTEGER ∧ att.targetEpoch < MAX_SAFE_INTEGER
  | block _ proposal => proposal.slot < MAX_SAFE_INTEGER

def runSigning (cs : List SigningCall) (db : Db) : Db := cs.foldl (fun db c => (c.prog.on db).2) db

/-- What two databases hold for `pk` is the same. -/
structure SameAll (pk : BLSPubkey) (db db' : Db) : Prop extends SameFor pk db db' where
  attestationLowerBound : db'.attestationLowerBound pk = db.attestationLowerBound pk
  blockBySlot : db'.blockBySlot pk = db.blockBySlot pk

theorem SameAll.refl (pk : BLSPubkey) (db : Db) : SameAll pk db db := ⟨⟨rfl, rfl, rfl⟩, rfl, rfl⟩

variable {pk : BLSPubkey} {a b c db db' db₁ db₂ : Db}

theorem SameAll.trans (h : SameAll pk a b) (h' : SameAll pk b c) : SameAll pk a c :=
  ⟨h.toSameFor.trans h'.toSameFor, h'.attestationLowerBound.trans h.attestationLowerBound,
    h'.blockBySlot.trans h.blockBySlot⟩

/-- What a database filled by checks alone holds for `pk`: a record for each of the attestations `H`, none of which surrounds
another, the spans of all of them, and no lower bound. -/
structure Signed (db : Db) (pk : BLSPubkey) (H : List Att) : Prop where
  books : Books db pk H
  own : ∀ a ∈ H, ∃ r, (db.attestationByTarget pk).get? a.target = some r ∧ r.att = a
  apart : ∀ a ∈ H, ∀ b ∈ H, ¬ a.Surrounds b
  inRange : ∀ r ∈ (db.attestationByTarget pk).entries, r.targetEpoch < MAX_SAFE_INTEGER
  blocksInRange : ∀ b ∈ (db.blockBySlot pk).entries, b.slot < MAX_SAFE_INTEGER
  unbounded : db.attestationLowerBound pk = none

theorem Signed.empty (pk : BLSPubkey) : Signed Db.empty pk [] where
  books := Books.empty pk
  own _ h := absurd h List.not_mem_nil
  apart _ h := absurd h List.not_mem_nil
  inRange _ h := absurd h List.not_mem_nil
  blocksInRange _ h := absurd h List.not_mem_nil
  unbounded := rfl

variable {H : List Att}

theorem Signed.of_same (h : Signed db pk H) (hs : SameAll pk db db') : Signed db' pk H where
  books := h.books.of_sameFor hs.toSameFor
  own a ha := by
    rw [hs.attestationByTarget]
    exact h.own a ha
  apart := h.apart
  inRange r hr := h.inRange r (by rw [← hs.attestationByTarget]; exact hr)
  blocksInRange b hb := h.blocksInRange b (by rw [← hs.blockBySlot]; exact hb)
  unbounded := hs.attestationLowerBound.trans h.unbounded

theorem sameAll_writeSpans {pk pk' : BLSPubkey} (h : pk' ≠ pk) (db : Db) (atts : List SlashingProtectionAttestation) (t : Nat)
    (ks ks' : List Nat) : SameAll pk' db (writeMax (writeMin (writeAtt db pk atts) pk t ks) pk t ks') :=
  ⟨(sameFor_writeAtt h db atts).trans (sameFor_writeSpans h (writeAtt db pk atts) t ks ks'), rfl, rfl⟩

theorem mem_insert {α : Type} {key : α → Nat} {m : RecordMap key} {a b : α} (h : b ∈ (m.insert a).entries) :
    b = a ∨ b ∈ m.entries := RecordMap.mem_insertEntry a m.entries b h

variable {db : Db} {att : SlashingProtectionAttestation}

theorem Signed.attestation (h : Signed db pk H) (hrange : att.targetEpoch < MAX_SAFE_INTEGER) :
    (∃ H', Signed ((checkAndInsertAttestation {} pk att).on db).2 pk H') ∧
    ∀ pk', pk' ≠ pk → SameAll pk' db ((checkAndInsertAttestation {} pk att).on db).2 := by
  have hrun := checkAndInsertAttestation_run pk att db
  cases hs : db.safeStatus pk att with
  | none =>
    rw [hs] at hrun
    obtain ⟨e, hrun⟩ := hrun
    rw [hrun]
    exact ⟨⟨H, h⟩, fun pk' _ => SameAll.refl pk' db⟩
  | some status =>
    rw [hs] at hrun
    cases status with
    | SAME_DATA =>
      rw [hrun]
      exact ⟨⟨H, h⟩, fun pk' _ => SameAll.refl pk' db⟩
    | OK =>
      obtain ⟨db', hrun, hinsert⟩ := hrun
      have hblocks := Db.safeStatus_blocks hs
      obtain ⟨ks, ks', hrun', -⟩ := insertAttestation_run pk att.att (writeAtt db pk [att]) hblocks.1 hblocks.2
      have heq : db' = writeMax (writeMin (writeAtt db pk [att]) pk att.att.target ks) pk att.att.target ks' :=
        congrArg Prod.snd (hinsert.symm.trans hrun')
      have hbooks : Books db' pk (att.att :: H) := by
        have hcall := Call.books (c := .checkAndInsert pk att) h.books trivial hrun
        simp only [Call.adds, hs, and_self, if_true, List.singleton_append] at hcall
        exact hcall
      have hfresh : ∀ a ∈ H, att.targetEpoch ≠ a.target ∧ ¬ att.att.Surrounds a ∧ ¬ a.Surrounds att.att := by
        rcases h.books.check_exact hs with ⟨r, hr, -⟩ | hfresh
        · rw [Db.safeStatus_new hs] at hr
          cases hr
        · exact hfresh
      have hrecords : db'.attestationByTarget pk = (db.attestationByTarget pk).insert att := by
        rw [heq]
        exact Function.update_self _ _ _
      rw [hrun]
      refine ⟨⟨att.att :: H, hbooks, fun a ha => ?_, fun a ha b hb => ?_, fun r hr => ?_, fun b hb => ?_, ?_⟩, fun pk' hne => ?_⟩
      · rw [hrecords, RecordMap.get?_insert]
        rcases List.mem_cons.1 ha with rfl | ha
        · exact ⟨att, if_pos rfl, rfl⟩
        · rw [if_neg (hfresh a ha).1]
          exact h.own a ha
      · rcases List.mem_cons.1 ha with rfl | ha
        · rcases List.mem_cons.1 hb with rfl | hb
          · exact fun hsurrounds => Nat.lt_irrefl _ hsurrounds.1
          · exact (hfresh b hb).2.1
        · rcases List.mem_cons.1 hb with rfl | hb
          · exact (hfresh a ha).2.2
          · exact h.apart a ha b hb
      · rw [hrecords] at hr
        rcases mem_insert hr with rfl | hr
        · exact hrange
        · exact h.inRange r hr
      · rw [heq] at hb
        exact h.blocksInRange b hb
      · rw [heq]
        exact h.unbounded
      · rw [heq]
        exact sameAll_writeSpans hne db [att] _ ks ks'

theorem checkAndInsertBlockProposal_run (pk : BLSPubkey) (block : SlashingProtectionBlock) (db : Db) :
    match db.blockSafeStatus pk block with
    | none => ∃ e, (checkAndInsertBlockProposal pk block).on db = (.error e, db)
    | some .SAME_DATA => (checkAndInsertBlockProposal pk block).on db = (.ok (), db)
    | some .OK => (checkAndInsertBlockProposal pk block).on db = (.ok (), writeBlocks db pk [block]) := by
  obtain ⟨r, hr, hs⟩ := checkBlockProposal_run pk block db
  cases r with
  | error e =>
    rw [← hs]
    exact ⟨e, Prog.run_bind_error _ hr⟩
  | ok status =>
    rw [← hs]
    cases status with
    | SAME_DATA => exact Prog.run_bind_ok _ hr
    | OK => exact Prog.run_bind_ok _ hr

theorem Signed.block (h : Signed db pk H) {block : SlashingProtectionBlock} (hrange : block.slot < MAX_SAFE_INTEGER) :
    (∃ H', Signed ((checkAndInsertBlockProposal pk block).on db).2 pk H') ∧
    ∀ pk', pk' ≠ pk → SameAll pk' db ((checkAndInsertBlockProposal pk block).on db).2 := by
  have hrun := checkAndInsertBlockProposal_run pk block db
  cases hs : db.blockSafeStatus pk block with
  | none =>
    rw [hs] at hrun
    obtain ⟨e, hrun⟩ := hrun
    rw [hrun]
    exact ⟨⟨H, h⟩, fun pk' _ => SameAll.refl pk' db⟩
  | some status =>
    rw [hs] at hrun
    cases status with
    | SAME_DATA =>
      rw [hrun]
      exact ⟨⟨H, h⟩, fun pk' _ => SameAll.refl pk' db⟩
    | OK =>
      rw [hrun]
      have hrecords : (writeBlocks db pk [block]).blockBySlot pk = (db.blockBySlot pk).insert block := Function.update_self _ _ _
      constructor
      · refine ⟨H, h.books.of_sameFor ⟨rfl, rfl, rfl⟩, h.own, h.apart, h.inRange, fun b hb => ?_, h.unbounded⟩
        rw [hrecords] at hb
        rcases mem_insert hb with rfl | hb
        · exact hrange
        · exact h.blocksInRange b hb
      · exact fun pk' hne => ⟨⟨rfl, rfl, rfl⟩, rfl, Function.update_of_ne hne _ _⟩

theorem runSigning_signed : ∀ (cs : List SigningCall) {db : Db}, (∀ pk, ∃ H, Signed db pk H) → (∀ c ∈ cs, c.InRange) →
    ∀ pk, ∃ H, Signed (runSigning cs db) pk H
  | [], _, h, _ => h
  | c :: cs, db, h, hrange => by
    have hone : ∀ pk, ∃ H, Signed (c.prog.on db).2 pk H := by
      have hc := hrange c List.mem_cons_self
      intro pk'
      obtain ⟨H', h'⟩ := h pk'
      cases c with
      | attestation pubkey att =>
        obtain ⟨H, hsigned⟩ := h pubkey
        obtain ⟨hown, hothers⟩ := hsigned.attestation hc.2
        by_cases heq : pk' = pubkey
        · rw [heq]
          exact hown
        · exact ⟨H', h'.of_same (hothers pk' heq)⟩
      | block pubkey proposal =>
        obtain ⟨H, hsigned⟩ := h pubkey
        obtain ⟨hown, hothers⟩ := hsigned.block hc
        by_cases heq : pk' = pubkey
        · rw [heq]
          exact hown
        · exact ⟨H', h'.of_same (hothers pk' heq)⟩
    exact runSigning_signed cs hone (fun c' hc' => hrange c' (List.mem_cons_of_mem c hc'))

/-! ## The export -/

/-- What the export takes of a public key. -/
def recordsOf (db : Db) (pk : BLSPubkey) : ValidatorRecords :=
  { pubkey := pk, signedBlocks := db.blockValues pk none, signedAttestations := db.attestationValues pk none }

theorem exportData_run (db : Db) : ∀ pubkeys : List BLSPubkey,
    (exportData pubkeys).on db = (.ok (pubkeys.map (recordsOf db)), db)
  | [] => rfl
  | pk :: pubkeys => by
    have hblocks : SP.on (exportBlocks pk) db = (.ok (db.blockValues pk none), db) := rfl
    have hatts : SP.on (exportAttestations pk) db = (.ok (db.attestationValues pk none), db) := rfl
    unfold exportData SP.on
    rw [Prog.run_bind_ok _ hblocks, Prog.run_bind_ok _ hatts, Prog.run_bind_ok _ (exportData_run db pubkeys)]
    rfl

theorem Signed.attestationValues (h : Signed db pk H) :
    db.attestationValues pk none = (db.attestationByTarget pk).entries := by
  exact List.filter_eq_self.2 fun r hr => decide_eq_true (h.inRange r hr)

theorem Signed.blockValues (h : Signed db pk H) :
    db.blockValues pk none = (db.blockBySlot pk).entries := by
  exact List.filter_eq_self.2 fun b hb => decide_eq_true (h.blocksInRange b hb)

theorem Signed.mem_entries (h : Signed db pk H) (a : Att) :
    a ∈ (db.attestationByTarget pk).entries.map (·.att) ↔ a ∈ H := by
  rw [List.mem_map]
  constructor
  · rintro ⟨r, hr, rfl⟩
    exact h.books.recorded _ r (RecordMap.get?_of_mem hr)
  · intro ha
    obtain ⟨r, hr, heq⟩ := h.own a ha
    exact ⟨r, RecordMap.mem_of_get? hr, heq⟩

/-! ## The import -/

theorem importSpans_apart : ∀ (atts : List SlashingProtectionAttestation) {db : Db} {H : List Att},
    SpansExact db pk H → (∀ b ∈ H, b.source ≤ b.target) → (∀ a ∈ atts, a.sourceEpoch ≤ a.targetEpoch) →
    (∀ a ∈ atts.map (·.att) ++ H, ∀ b ∈ atts.map (·.att) ++ H, ¬ a.Surrounds b) →
    ∃ db', (importSpans {} pk atts).on db = (.ok (), db') ∧ (∀ pk', pk' ≠ pk → SameAll pk' db db') ∧
      db'.attestationByTarget = db.attestationByTarget ∧ db'.blockBySlot = db.blockBySlot
  | [], db, _, _, _, _, _ => ⟨db, rfl, fun pk' _ => SameAll.refl pk' db, rfl, rfl⟩
  | att :: atts, db, H, h, hH, hwf, hapart => by
    have hatt : att.sourceEpoch ≤ att.targetEpoch := hwf att List.mem_cons_self
    have hmem : att.att ∈ (att :: atts).map (·.att) ++ H := List.mem_append_left _ List.mem_cons_self
    have hmin : minBlocks (db.minSpanAt pk att.att.source) (att.att.target - att.att.source) = false := by
      by_contra hblocked
      obtain ⟨b, hb, hsurrounds⟩ := ((h.minSpan _).blocks_iff hH).1 (Bool.not_eq_false _ ▸ hblocked)
      exact hapart att.att hmem b (List.mem_append_right _ hb) hsurrounds
    have hmax : maxBlocks (db.maxSpanAt pk att.att.source) (att.att.target - att.att.source) = false := by
      by_contra hblocked
      obtain ⟨b, hb, hsurrounds⟩ := ((h.maxSpan _).blocks_iff hatt).1 (Bool.not_eq_false _ ▸ hblocked)
      exact hapart b (List.mem_append_right _ hb) att.att hmem hsurrounds
    obtain ⟨ks, ks', hrun, hexact⟩ := insertAttestation_run pk att.att db hmin hmax
    have hH' : ∀ b ∈ att.att :: H, b.source ≤ b.target := by
      intro b hb
      rcases List.mem_cons.1 hb with rfl | hb
      · exact hatt
      · exact hH b hb
    have hsub : atts.map (·.att) ++ att.att :: H ⊆ (att :: atts).map (·.att) ++ H := by
      intro b hb
      simp only [List.map_cons, List.mem_append, List.mem_cons] at hb ⊢
      tauto
    obtain ⟨db', hrun', hothers, hatts, hblocks⟩ := importSpans_apart atts (hexact H h hH) hH'
      (fun a ha => hwf a (List.mem_cons_of_mem att ha)) (fun a ha b hb => hapart a (hsub ha) b (hsub hb))
    refine ⟨db', (Prog.run_bind_ok _ hrun).trans hrun', fun pk' hne => ?_, hatts, hblocks⟩
    exact SameAll.trans ⟨sameFor_writeSpans hne db _ ks ks', rfl, rfl⟩ (hothers pk' hne)

/-- What the new database holds for `pk` is what the old one does, but for a lower bound. -/
structure Mirrors (db db' : Db) (pk : BLSPubkey) (H : List Att) : Prop where
  attestationByTarget : db'.attestationByTarget pk = db.attestationByTarget pk
  blockBySlot : db'.blockBySlot pk = db.blockBySlot pk
  spans : ∃ H', SpansExact db' pk H' ∧ ∀ a, a ∈ H' ↔ a ∈ H

/-- Nothing was imported for `pk` yet. -/
structure Blank (db' : Db) (pk : BLSPubkey) : Prop where
  attestationByTarget : db'.attestationByTarget pk = .empty
  blockBySlot : db'.blockBySlot pk = .empty
  spans : SpansExact db' pk []

theorem Mirrors.of_same (h : Mirrors db db₁ pk H) (hs : SameAll pk db₁ db₂) :
    Mirrors db db₂ pk H := by
  obtain ⟨H', hspans, hmem⟩ := h.spans
  exact ⟨hs.attestationByTarget.trans h.attestationByTarget, hs.blockBySlot.trans h.blockBySlot,
    H', hspans.of_sameFor hs.toSameFor, hmem⟩

theorem Blank.of_same (h : Blank db₁ pk) (hs : SameAll pk db₁ db₂) : Blank db₂ pk :=
  ⟨hs.attestationByTarget.trans h.attestationByTarget, hs.blockBySlot.trans h.blockBySlot, h.spans.of_sameFor hs.toSameFor⟩

theorem importRecords_run (h : Signed db pk H) (h₁ : Blank db₁ pk ∨ Mirrors db db₁ pk H) :
    ∃ db₂, (importAttestations {} pk (recordsOf db pk).signedAttestations).on
        (writeBlocks db₁ pk (recordsOf db pk).signedBlocks) = (.ok (), db₂) ∧
      Mirrors db db₂ pk H ∧ ∀ pk', pk' ≠ pk → SameAll pk' db₁ db₂ := by
  have hatts : (recordsOf db pk).signedAttestations = (db.attestationByTarget pk).entries := h.attestationValues
  have hblocks : (recordsOf db pk).signedBlocks = (db.blockBySlot pk).entries := h.blockValues
  rw [hatts, hblocks]
  -- the spans there already: none, or all of them
  obtain ⟨H₀, hspans, hsub⟩ : ∃ H₀, SpansExact db₁ pk H₀ ∧ H₀ ⊆ H := by
    rcases h₁ with hblank | hmirrors
    · exact ⟨[], hblank.spans, List.nil_subset H⟩
    · obtain ⟨H', hspans, hmem⟩ := hmirrors.spans
      exact ⟨H', hspans, fun a ha => (hmem a).1 ha⟩
  have hrecords : (db₁.attestationByTarget pk).insertMany (db.attestationByTarget pk).entries = db.attestationByTarget pk :=
    RecordMap.insertMany_entries _ (h₁.imp Blank.attestationByTarget Mirrors.attestationByTarget)
  have hslots : (db₁.blockBySlot pk).insertMany (db.blockBySlot pk).entries = db.blockBySlot pk :=
    RecordMap.insertMany_entries _ (h₁.imp Blank.blockBySlot Mirrors.blockBySlot)
  have hwritten : SpansExact (writeAtt (writeBlocks db₁ pk (db.blockBySlot pk).entries) pk (db.attestationByTarget pk).entries)
      pk H₀ := ⟨hspans.minSpan, hspans.maxSpan⟩
  have hentries : ∀ a ∈ (db.attestationByTarget pk).entries.map (·.att) ++ H₀, a ∈ H := by
    intro a ha
    rcases List.mem_append.1 ha with ha | ha
    · exact (h.mem_entries a).1 ha
    · exact hsub ha
  have hwf : ∀ r ∈ (db.attestationByTarget pk).entries, r.sourceEpoch ≤ r.targetEpoch := fun r hr =>
    h.books.wf r.att ((h.mem_entries r.att).1 (List.mem_map_of_mem hr))
  obtain ⟨db₂, hrun, hothers, hby, hslot⟩ := importSpans_apart (db.attestationByTarget pk).entries hwritten
    (fun b hb => h.books.wf b (hsub hb)) hwf (fun a ha b hb => h.apart a (hentries a ha) b (hentries b hb))
  obtain ⟨-, -, hexact⟩ := importSpans_ok hrun hwf
  have hmirrors : Mirrors db db₂ pk H := by
    have hby' : db₂.attestationByTarget pk = (db₁.attestationByTarget pk).insertMany (db.attestationByTarget pk).entries := by
      rw [hby]
      exact Function.update_self _ _ _
    have hslot' : db₂.blockBySlot pk = (db₁.blockBySlot pk).insertMany (db.blockBySlot pk).entries := by
      rw [hslot]
      exact Function.update_self _ _ _
    refine ⟨hby'.trans hrecords, hslot'.trans hslots, _, hexact H₀ hwritten (fun b hb => h.books.wf b (hsub hb)), fun a => ?_⟩
    · rw [List.mem_append, List.mem_reverse, h.mem_entries]
      exact ⟨fun ha => ha.elim id (fun ha => hsub ha), .inl⟩
  have hothers' : ∀ pk', pk' ≠ pk → SameAll pk' db₁ db₂ := by
    intro pk' hne
    have hwrites : SameAll pk' db₁
        (writeAtt (writeBlocks db₁ pk (db.blockBySlot pk).entries) pk (db.attestationByTarget pk).entries) :=
      ⟨⟨Function.update_of_ne hne _ _, rfl, rfl⟩, rfl, Function.update_of_ne hne _ _⟩
    exact hwrites.trans (hothers pk' hne)
  have hset : SP.on (Prog.call (DbOp.attestationSet pk (db.attestationByTarget pk).entries))
      (writeBlocks db₁ pk (db.blockBySlot pk).entries) =
      (.ok (), writeAtt (writeBlocks db₁ pk (db.blockBySlot pk).entries) pk (db.attestationByTarget pk).entries) := rfl
  unfold importAttestations SP.on
  rw [Prog.run_bind_ok _ hset, Prog.run_bind_ok _ hrun]
  split
  · refine ⟨_, rfl, ⟨hmirrors.attestationByTarget, hmirrors.blockBySlot, ?_⟩, fun pk' hne => ?_⟩
    · obtain ⟨H', hspans', hmem⟩ := hmirrors.spans
      exact ⟨H', ⟨hspans'.minSpan, hspans'.maxSpan⟩, hmem⟩
    · have hsame := hothers' pk' hne
      exact ⟨⟨hsame.attestationByTarget, hsame.minSpan, hsame.maxSpan⟩,
        (Function.update_of_ne hne _ _).trans hsame.attestationLowerBound, hsame.blockBySlot⟩
  · exact ⟨_, rfl, hmirrors, hothers'⟩

/-- **The whole file imported**: nothing throws, and the new database mirrors the old one for every public key in the file. -/
theorem importData_run (h : ∀ pk, ∃ H, Signed db pk H) : ∀ (pubkeys : List BLSPubkey) {db₁ : Db},
    (∀ pk H, Signed db pk H → Blank db₁ pk ∨ Mirrors db db₁ pk H) →
    ∃ db₂, (importData (pubkeys.map (recordsOf db))).on db₁ = (.ok (), db₂) ∧
      ∀ pk H, Signed db pk H → (Mirrors db db₁ pk H ∨ pk ∈ pubkeys → Mirrors db db₂ pk H)
  | [], db₁, _ => ⟨db₁, rfl, fun _ _ _ hor => hor.resolve_right List.not_mem_nil⟩
  | pk :: pubkeys, db₁, h₁ => by
    obtain ⟨H, hsigned⟩ := h pk
    obtain ⟨db₂, hrun, hmirrors, hothers⟩ := importRecords_run hsigned (h₁ pk H hsigned)
    have hone : ∀ H', Signed db pk H' → Mirrors db db₂ pk H' := by
      intro H' h'
      obtain ⟨H'', hspans, hmem⟩ := hmirrors.spans
      refine ⟨hmirrors.attestationByTarget, hmirrors.blockBySlot, H'', hspans, fun a => ?_⟩
      rw [hmem, ← hsigned.mem_entries, h'.mem_entries]
    have h₂ : ∀ pk' H', Signed db pk' H' → Blank db₂ pk' ∨ Mirrors db db₂ pk' H' := by
      intro pk' H' h'
      by_cases heq : pk' = pk
      · subst heq
        exact .inr (hone H' h')
      · rcases h₁ pk' H' h' with hblank | hmirrors'
        · exact .inl (hblank.of_same (hothers pk' heq))
        · exact .inr (hmirrors'.of_same (hothers pk' heq))
    obtain ⟨db₃, hrun', hall⟩ := importData_run h pubkeys h₂
    refine ⟨db₃, ?_, fun pk' H' h' hor => hall pk' H' h' ?_⟩
    · unfold SP.on at hrun ⊢
      exact (Prog.run_bind_ok _ hrun).trans hrun'
    · by_cases heq : pk' = pk
      · subst heq
        exact .inl (hone H' h')
      · rcases hor with hmirrors' | hmem
        · exact .inl (hmirrors'.of_same (hothers pk' heq))
        · exact .inr ((List.mem_cons.1 hmem).resolve_left heq)

/-! ## What the new database rejects -/

def Rejects (db : Db) (pk : BLSPubkey) (att : SlashingProtectionAttestation) : Prop :=
  ∃ e, ((checkAndInsertAttestation {} pk att).on db).1 = .error e

def RejectsBlock (db : Db) (pk : BLSPubkey) (block : SlashingProtectionBlock) : Prop :=
  ∃ e, ((checkAndInsertBlockProposal pk block).on db).1 = .error e

theorem rejects_iff :
    Rejects db pk att ↔ db.safeStatus pk att = none := by
  have hrun := checkAndInsertAttestation_run pk att db
  unfold Rejects
  rcases hs : db.safeStatus pk att with _ | _ | _
  · rw [hs] at hrun
    obtain ⟨e, hrun⟩ := hrun
    simp [hrun]
  · rw [hs] at hrun
    simp [hrun]
  · rw [hs] at hrun
    obtain ⟨db', hrun, -⟩ := hrun
    simp [hrun]

theorem rejectsBlock_iff {block : SlashingProtectionBlock} :
    RejectsBlock db pk block ↔ db.blockSafeStatus pk block = none := by
  have hrun := checkAndInsertBlockProposal_run pk block db
  unfold RejectsBlock
  rcases hs : db.blockSafeStatus pk block with _ | _ | _
  · rw [hs] at hrun
    obtain ⟨e, hrun⟩ := hrun
    simp [hrun]
  · rw [hs] at hrun
    simp [hrun]
  · rw [hs] at hrun
    simp [hrun]

theorem Mirrors.rejects (h : Mirrors db db' pk H) (hsigned : Signed db pk H) (hrejects : Rejects db pk att) :
    Rejects db' pk att := by
  obtain ⟨H', hspans, hmem⟩ := h.spans
  rw [rejects_iff] at hrejects ⊢
  unfold Db.safeStatus at hrejects ⊢
  by_cases hle : att.sourceEpoch > att.targetEpoch
  · rw [if_pos hle]
  · rw [if_neg hle] at hrejects ⊢
    rw [h.attestationByTarget]
    cases hr : (db.attestationByTarget pk).get? att.targetEpoch with
    | some r =>
      rw [hr] at hrejects
      exact hrejects
    | none =>
      rw [hr] at hrejects
      dsimp only at hrejects ⊢
      have hwf' : ∀ b ∈ H', b.source ≤ b.target := fun b hb => hsigned.books.wf b ((hmem b).1 hb)
      have hmin : minBlocks (db'.minSpanAt pk att.sourceEpoch) (att.targetEpoch - att.sourceEpoch) =
          minBlocks (db.minSpanAt pk att.sourceEpoch) (att.targetEpoch - att.sourceEpoch) := by
        rw [Bool.eq_iff_iff, (hspans.minSpan _).blocks_iff hwf',
          (hsigned.books.spans.minSpan _).blocks_iff hsigned.books.wf]
        simp only [hmem]
      have hmax : maxBlocks (db'.maxSpanAt pk att.sourceEpoch) (att.targetEpoch - att.sourceEpoch) =
          maxBlocks (db.maxSpanAt pk att.sourceEpoch) (att.targetEpoch - att.sourceEpoch) := by
        rw [Bool.eq_iff_iff, (hspans.maxSpan _).blocks_iff (Nat.le_of_not_lt hle),
          (hsigned.books.spans.maxSpan _).blocks_iff (Nat.le_of_not_lt hle)]
        simp only [hmem]
      rw [hmin, hmax]
      split
      · rfl
      · rename_i hblocks
        rw [if_neg hblocks, hsigned.unbounded] at hrejects
        cases hrejects

theorem Mirrors.rejectsBlock (h : Mirrors db db' pk H) {block : SlashingProtectionBlock} (hrejects : RejectsBlock db pk block)
    : RejectsBlock db' pk block := by
  rw [rejectsBlock_iff] at hrejects ⊢
  rw [← hrejects]
  unfold Db.blockSafeStatus Db.blockValues
  rw [h.blockBySlot]

theorem blank_empty (pk : BLSPubkey) : Blank Db.empty pk := ⟨rfl, rfl, SpansExact.empty pk⟩

def NothingFor (db : Db) (pk : BLSPubkey) : Prop :=
  (db.attestationByTarget pk).entries = [] ∧ (db.blockBySlot pk).entries = []

theorem Signed.mirrors_empty (h : Signed db pk H) (hnothing : NothingFor db pk) :
    Mirrors db Db.empty pk H := by
  have hempty : ∀ {α : Type} {key : α → Nat} {m : RecordMap key}, m.entries = [] → RecordMap.empty = m := by
    rintro α key ⟨entries, sorted⟩ rfl
    rfl
  refine ⟨hempty hnothing.1, hempty hnothing.2, [], SpansExact.empty pk, fun a => ?_⟩
  rw [← h.mem_entries, hnothing.1]
  rfl

/-- **Export and import**, in either format: the text gives back what was put in, and a database filled by checks alone is
imported into an empty one without a throw, which then rejects whatever the old one rejects for the public keys exported, and
for those it has nothing of. -/
theorem exportInterchange_importInterchange (codec : HexCodec) {formatVersion : InterchangeFormatVersion}
    (hformat : formatVersion = completeV4 ∨ formatVersion = v5) :
    (∀ x, ∃ interchange, serializeInterchange codec x formatVersion = .ok interchange ∧
      parseInterchange codec interchange x.genesisValidatorsRoot = .ok x) ∧
    ∀ (cs : List SigningCall) (root : Root) (pubkeys : List BLSPubkey), (∀ c ∈ cs, c.InRange) →
      let db := runSigning cs Db.empty
      ∃ interchange call db', (exportInterchange codec root pubkeys formatVersion).on db = (.ok (.ok interchange), db) ∧
        importInterchange codec interchange root = .ok call ∧ call.on Db.empty = (.ok (), db') ∧
        ∀ pk, pk ∈ pubkeys ∨ NothingFor db pk → (∀ att, Rejects db pk att → Rejects db' pk att) ∧
          ∀ block, RejectsBlock db pk block → RejectsBlock db' pk block := by
  refine ⟨parseInterchange_serializeInterchange hformat, fun cs root pubkeys hrange => ?_⟩
  intro db
  have hsigned : ∀ pk, ∃ H, Signed db pk H := runSigning_signed cs (fun pk => ⟨[], Signed.empty pk⟩) hrange
  obtain ⟨interchange, hserialize, hparse⟩ := @parseInterchange_serializeInterchange codec _ hformat
    { genesisValidatorsRoot := root, data := pubkeys.map (recordsOf db) }
  obtain ⟨db', hrun, hmirrors⟩ := importData_run hsigned pubkeys (fun pk H _ => .inl (blank_empty pk))
  refine ⟨interchange, importData (pubkeys.map (recordsOf db)), db', ?_, ?_, hrun, fun pk hpk => ?_⟩
  · unfold exportInterchange SP.on
    rw [Prog.run_bind_ok _ (exportData_run db pubkeys), hserialize]
    rfl
  · unfold importInterchange
    rw [hparse]
    rfl
  · obtain ⟨H, hpk'⟩ := hsigned pk
    have hmirror : Mirrors db db' pk H := hmirrors pk H hpk' (hpk.symm.imp_left hpk'.mirrors_empty)
    exact ⟨fun att => hmirror.rejects hpk', fun block => hmirror.rejectsBlock⟩

theorem exportInterchange_importInterchange_signed :
    let pk : BLSPubkey := Vector.replicate 48 7
    let cs : List SigningCall := [.attestation pk ⟨2, 3, Vector.replicate 32 1⟩, .block pk ⟨5, zeroRoot⟩,
      .attestation pk ⟨1, 4, zeroRoot⟩, .attestation pk ⟨3, 5, zeroRoot⟩]
    ∃ interchange call db', (exportInterchange hexCodec zeroRoot [pk] v5).on (runSigning cs Db.empty) =
        (.ok (.ok interchange), runSigning cs Db.empty) ∧
      importInterchange hexCodec interchange zeroRoot = .ok call ∧ call.on Db.empty = (.ok (), db') ∧
      Rejects db' pk ⟨1, 4, zeroRoot⟩ := by
  intro pk cs
  have hrange : ∀ c ∈ cs, c.InRange := by
    intro c hc
    simp only [cs, List.mem_cons, List.not_mem_nil, or_false] at hc
    rcases hc with rfl | rfl | rfl | rfl
    · exact ⟨by decide, by decide⟩
    · exact (by decide : 5 < MAX_SAFE_INTEGER)
    · exact ⟨by decide, by decide⟩
    · exact ⟨by decide, by decide⟩
  obtain ⟨interchange, call, db', hexport, himport, hrun, hrejects⟩ :=
    (exportInterchange_importInterchange hexCodec (.inr rfl)).2 cs zeroRoot [pk] hrange
  exact ⟨interchange, call, db', hexport, himport, hrun,
    (hrejects pk (.inl List.mem_cons_self)).1 _ (rejects_iff.2 (by decide))⟩

end Lodestar.Validator
