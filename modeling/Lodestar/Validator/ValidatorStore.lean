import Mathlib.Data.List.Induction
import Lodestar.Params
import Lodestar.Validator.SlashingSafety
/-!
# ValidatorStore — signing attestations under slashing protection

`signAttestation` refuses a target after the current epoch and data that does not match the duty, hands the attestation to
slashing protection, and signs only if that succeeds.  The hand-over names the target epoch as the source epoch too, so
the span tables never see a source: what protects a run is the record by target alone (`signAttestation_slashable_iff`).
-/
namespace Lodestar.Validator

open Async Lib MinMaxSurround

abbrev Domain := Vector UInt8 32
abbrev BLSSignature := Vector UInt8 96

structure AttesterDuty where
  pubkey : BLSPubkey
  validatorIndex : Nat
  committeeIndex : Nat
  committeeLength : Nat
  committeesAtSlot : Nat
  validatorCommitteeIndex : Nat
  slot : Nat
deriving DecidableEq

structure Attestation where
  aggregationBits : List Bool
  data : AttestationData
  signature : BLSSignature
deriving DecidableEq

/-- The keys, the configured domains and the two library functions signing rests on: the hash tree root of the signing data
and the BLS signature. -/
structure ValidatorStore (SecretKey : Type) where
  preset : Preset
  validators : BLSPubkey → Option SecretKey
  getDomain : Nat → Domain
  computeSigningRoot : AttestationData → Domain → Root
  sign : SecretKey → Root → BLSSignature

inductive SignError
  | targetEpochInFuture (targetEpoch currentEpoch : Nat)
  | inconsistentSlot (dutySlot attSlot : Nat)
  | inconsistentCommitteeIndex (dutyIndex attIndex : Nat)
  | unknownValidator (pubkey : BLSPubkey)
  | slashingProtection (err : SlashingProtectionError)
deriving DecidableEq

def getAggregationBits (committeeLength validatorIndexInCommittee : Nat) : List Bool :=
  (List.range committeeLength).map (fun i => i == validatorIndexInCommittee)

namespace ValidatorStore

variable {SecretKey : Type} (self : ValidatorStore SecretKey)

def validateAttestationDuty (duty : AttesterDuty) (data : AttestationData) : Except SignError Unit :=
  if duty.slot ≠ data.slot then .error (.inconsistentSlot duty.slot data.slot)
  else if duty.committeeIndex ≠ data.index then .error (.inconsistentCommitteeIndex duty.committeeIndex data.index)
  else .ok ()

def getSecretKey (pubkey : BLSPubkey) : Except SignError SecretKey :=
  match self.validators pubkey with
  | none => .error (.unknownValidator pubkey)
  | some secretKey => .ok secretKey

def attestationSigningRoot (data : AttestationData) : Root :=
  self.computeSigningRoot data (self.getDomain (computeStartSlotAtEpoch self.preset data.target.epoch))

def signAttestation (duty : AttesterDuty) (attestationData : AttestationData) (currentEpoch : Nat) (db : Db) :
    Except SignError Attestation × Db :=
  if attestationData.target.epoch > currentEpoch then
    (.error (.targetEpochInFuture attestationData.target.epoch currentEpoch), db)
  else match validateAttestationDuty duty attestationData with
    | .error e => (.error e, db)
    | .ok () =>
      let signingRoot := self.attestationSigningRoot attestationData
      match self.getSecretKey duty.pubkey with
      | .error e => (.error e, db)
      | .ok secretKey =>
        match (checkAndInsertAttestation {} duty.pubkey
            { sourceEpoch := attestationData.target.epoch, targetEpoch := attestationData.target.epoch,
              signingRoot := signingRoot }).on db with
        | (.error e, db') => (.error (.slashingProtection e), db')
        | (.ok (), db') =>
          (.ok { aggregationBits := getAggregationBits duty.committeeLength duty.validatorCommitteeIndex
                 data := attestationData
                 signature := self.sign secretKey signingRoot }, db')

/-! ## Runs -/

structure SignCall where
  duty : AttesterDuty
  attestationData : AttestationData
  currentEpoch : Nat
deriving DecidableEq

structure Signer where
  db : Db
  signed : List (BLSPubkey × AttestationData)

def Signer.empty : Signer := ⟨Db.empty, []⟩

def signStep (s : Signer) (c : SignCall) : Signer :=
  match self.signAttestation c.duty c.attestationData c.currentEpoch s.db with
  | (.ok attestation, db') => ⟨db', (c.duty.pubkey, attestation.data) :: s.signed⟩
  | (.error _, db') => ⟨db', s.signed⟩

def signAll (s : Signer) (cs : List SignCall) : Signer := cs.foldl self.signStep s

/-- Among `signed` for `pk` no two are slashable. -/
def NotSlashable (pk : BLSPubkey) (signed : List (BLSPubkey × AttestationData)) : Prop :=
  ∀ a b, (pk, a) ∈ signed → (pk, b) ∈ signed →
    isSlashableAttestationData a b = false ∧ isSlashableAttestationData b a = false

/-- What a request is checked for before slashing protection: the target, the duty and the key. -/
def Admitted (c : SignCall) : Prop :=
  c.attestationData.target.epoch ≤ c.currentEpoch ∧
    c.duty.slot = c.attestationData.slot ∧ c.duty.committeeIndex = c.attestationData.index ∧
    (self.validators c.duty.pubkey).isSome

instance (c : SignCall) : Decidable (self.Admitted c) := inferInstanceAs (Decidable (_ ∧ _))

/-- The data asked for `pk` in the requests `cs` that are admitted, in order. -/
def asked (pk : BLSPubkey) (cs : List SignCall) : List AttestationData :=
  (cs.filter (fun c => decide (c.duty.pubkey = pk ∧ self.Admitted c))).map (·.attestationData)

/-- The first data asked for a target epoch. -/
def firstAsked (as : List AttestationData) (target : Nat) : Option AttestationData :=
  as.find? (fun a => a.target.epoch == target)

/-- Of two target epochs the later is not first asked for with an earlier source. -/
def SourcesInOrder (pk : BLSPubkey) (cs : List SignCall) : Prop :=
  ∀ t u a b, t < u → firstAsked (self.asked pk cs) t = some a → firstAsked (self.asked pk cs) u = some b →
    a.source.epoch ≤ b.source.epoch

/-- After the requests `cs`: `pk` has signed what was first asked for each target, and that is on record under its root with
the target for its source, in tables that hold only such attestations; there is no lower bound. -/
structure Recorded (store : ValidatorStore SecretKey) (pk : BLSPubkey) (cs : List SignCall) (s : Signer) : Prop where
  signed : ∀ a, (pk, a) ∈ s.signed ↔ firstAsked (store.asked pk cs) a.target.epoch = some a
  onRecord : ∀ t, (s.db.attestationByTarget pk).get? t =
    (firstAsked (store.asked pk cs) t).map (fun a => ⟨t, t, store.attestationSigningRoot a⟩)
  books : ∃ H, Books s.db pk H ∧ ∀ a ∈ H, a.source = a.target
  unbounded : s.db.attestationLowerBound pk = none

variable {self} {c : SignCall}

theorem signAttestation_admitted (h : self.Admitted c) (db : Db) :
    match (checkAndInsertAttestation {} c.duty.pubkey ⟨c.attestationData.target.epoch, c.attestationData.target.epoch,
        self.attestationSigningRoot c.attestationData⟩).on db with
    | (.error e, db') => self.signAttestation c.duty c.attestationData c.currentEpoch db = (.error (.slashingProtection e), db')
    | (.ok (), db') => ∃ attestation, attestation.data = c.attestationData ∧
        self.signAttestation c.duty c.attestationData c.currentEpoch db = (.ok attestation, db') := by
  obtain ⟨hfuture, hslot, hindex, hkey⟩ := h
  obtain ⟨secretKey, hsecret⟩ := Option.isSome_iff_exists.1 hkey
  unfold signAttestation validateAttestationDuty getSecretKey
  rw [if_neg (Nat.not_lt.2 hfuture), if_neg (fun hne => hne hslot), if_neg (fun hne => hne hindex), hsecret]
  dsimp only
  split
  · rfl
  · exact ⟨_, rfl, rfl⟩

theorem signAttestation_refused (h : ¬ self.Admitted c) (db : Db) :
    ∃ e, self.signAttestation c.duty c.attestationData c.currentEpoch db = (.error e, db) := by
  unfold signAttestation validateAttestationDuty getSecretKey
  by_cases hfuture : c.attestationData.target.epoch > c.currentEpoch
  · rw [if_pos hfuture]
    exact ⟨_, rfl⟩
  rw [if_neg hfuture]
  by_cases hslot : c.duty.slot ≠ c.attestationData.slot
  · rw [if_pos hslot]
    exact ⟨_, rfl⟩
  rw [if_neg hslot]
  by_cases hindex : c.duty.committeeIndex ≠ c.attestationData.index
  · rw [if_pos hindex]
    exact ⟨_, rfl⟩
  rw [if_neg hindex]
  cases hkey : self.validators c.duty.pubkey with
  | none => exact ⟨_, rfl⟩
  | some secretKey =>
    exact absurd ⟨Nat.le_of_not_lt hfuture, not_not.1 hslot, not_not.1 hindex, by rw [hkey]; rfl⟩ h

theorem signStep_refused (h : ¬ self.Admitted c) (s : Signer) : self.signStep s c = s := by
  obtain ⟨e, he⟩ := signAttestation_refused h s.db
  unfold signStep
  rw [he]

/-- **One admitted request**: what the check of slashing protection answers decides it. -/
theorem signStep_admitted (h : self.Admitted c) (s : Signer) :
    match s.db.safeStatus c.duty.pubkey ⟨c.attestationData.target.epoch, c.attestationData.target.epoch,
      self.attestationSigningRoot c.attestationData⟩ with
    | none => self.signStep s c = s
    | some .SAME_DATA => self.signStep s c = ⟨s.db, (c.duty.pubkey, c.attestationData) :: s.signed⟩
    | some .OK => ∃ db', self.signStep s c = ⟨db', (c.duty.pubkey, c.attestationData) :: s.signed⟩ ∧
        (checkAndInsertAttestation {} c.duty.pubkey ⟨c.attestationData.target.epoch, c.attestationData.target.epoch,
          self.attestationSigningRoot c.attestationData⟩).on s.db = (.ok (), db') := by
  have hsign := signAttestation_admitted h s.db
  have hrun := checkAndInsertAttestation_run c.duty.pubkey ⟨c.attestationData.target.epoch, c.attestationData.target.epoch,
    self.attestationSigningRoot c.attestationData⟩ s.db
  unfold signStep
  cases hs : s.db.safeStatus c.duty.pubkey ⟨c.attestationData.target.epoch, c.attestationData.target.epoch,
    self.attestationSigningRoot c.attestationData⟩ with
  | none =>
    rw [hs] at hrun
    obtain ⟨e, he⟩ := hrun
    rw [he] at hsign
    dsimp only at hsign ⊢
    rw [hsign]
  | some status =>
    rw [hs] at hrun
    cases status with
    | SAME_DATA =>
      rw [hrun] at hsign
      obtain ⟨attestation, hdata, hsign⟩ := hsign
      dsimp only
      rw [hsign, ← hdata]
    | OK =>
      obtain ⟨db', hok, -⟩ := hrun
      rw [hok] at hsign
      obtain ⟨attestation, hdata, hsign⟩ := hsign
      dsimp only
      rw [hsign, ← hdata]
      exact ⟨db', rfl, by rw [hdata]; exact hok⟩

variable {pk : BLSPubkey} {cs : List SignCall} {s : Signer} {t : Nat}

/-- With a target for every source nothing surrounds, so that a target without a record is free. -/
theorem Recorded.safeStatus_new (h : Recorded self pk cs s) {root : Root} (hnone : firstAsked (self.asked pk cs) t = none)
    : s.db.safeStatus pk ⟨t, t, root⟩ = some .OK := by
  obtain ⟨H, hbooks, hsame⟩ := h.books
  have hmin : minBlocks (s.db.minSpanAt pk t) (t - t) = false := by
    rw [← Bool.not_eq_true, (hbooks.spans.minSpan t).blocks_iff hbooks.wf]
    rintro ⟨a, ha, h1, h2⟩
    have := hsame a ha
    omega
  have hmax : maxBlocks (s.db.maxSpanAt pk t) (t - t) = false := by
    rw [← Bool.not_eq_true, (hbooks.spans.maxSpan t).blocks_iff (Nat.le_refl t)]
    rintro ⟨a, ha, h1, h2⟩
    have := hsame a ha
    omega
  unfold Db.safeStatus
  rw [if_neg (Nat.lt_irrefl t), h.onRecord, hnone]
  dsimp only [Option.map_none]
  rw [hmin, hmax, h.unbounded]
  rfl

theorem asked_append (cs cs' : List SignCall) : self.asked pk (cs ++ cs') = self.asked pk cs ++ self.asked pk cs' := by
  unfold asked
  rw [List.filter_append, List.map_append]

theorem mem_asked_of_firstAsked {a : AttestationData} (h : firstAsked (self.asked pk cs) t = some a) :
    (∃ c ∈ cs, c.attestationData = a) ∧ a.target.epoch = t := by
  obtain ⟨c, hc, rfl⟩ := List.mem_map.1 (List.mem_of_find?_eq_some h)
  exact ⟨⟨c, (List.mem_filter.1 hc).1, rfl⟩, by simpa using List.find?_some h⟩

theorem Recorded.of_asked {cs' : List SignCall} {s' : Signer} (h : Recorded self pk cs s)
    (hasked : ∀ t, firstAsked (self.asked pk cs') t = firstAsked (self.asked pk cs) t)
    (hsigned : ∀ a, (pk, a) ∈ s'.signed ↔ (pk, a) ∈ s.signed)
    (hby : s'.db.attestationByTarget pk = s.db.attestationByTarget pk)
    (hbooks : ∃ H, Books s'.db pk H ∧ ∀ a ∈ H, a.source = a.target)
    (hbound : s'.db.attestationLowerBound pk = s.db.attestationLowerBound pk) : Recorded self pk cs' s' where
  signed a := by rw [hsigned, hasked]; exact h.signed a
  onRecord t := by rw [hby, hasked]; exact h.onRecord t
  books := hbooks
  unbounded := hbound.trans h.unbounded

theorem Recorded.books_insert (h : Recorded self pk cs s) {pubkey : BLSPubkey} {root : Root} {db' : Db}
    (hok : (checkAndInsertAttestation {} pubkey ⟨t, t, root⟩).on s.db = (.ok (), db')) :
    ∃ H, Books db' pk H ∧ ∀ a ∈ H, a.source = a.target := by
  obtain ⟨H, hbooks, hsame⟩ := h.books
  refine ⟨_, Call.books (c := .checkAndInsert pubkey ⟨t, t, root⟩) hbooks trivial hok, fun a ha => ?_⟩
  rcases List.mem_append.1 ha with ha | ha
  · simp only [Call.adds, List.mem_ite_nil_right, List.mem_singleton] at ha
    rw [ha.2]
    rfl
  · exact hsame a ha

theorem firstAsked_concat (h : self.Admitted c) (t : Nat) : firstAsked (self.asked c.duty.pubkey (cs ++ [c])) t =
    (firstAsked (self.asked c.duty.pubkey cs) t).or
      (if c.attestationData.target.epoch = t then some c.attestationData else none) := by
  have hone : self.asked c.duty.pubkey [c] = [c.attestationData] := by simp [asked, h]
  rw [asked_append, hone, show firstAsked (_ ++ _) t = _ from List.find?_append]
  by_cases ht : c.attestationData.target.epoch = t <;> simp [firstAsked, ht]

theorem Recorded.step_otherKey (h : Recorded self pk cs s) (hadm : self.Admitted c) (hpk : c.duty.pubkey ≠ pk) :
    Recorded self pk (cs ++ [c]) (self.signStep s c) := by
  have hstep := signStep_admitted hadm s
  have hnone : self.asked pk [c] = [] := by simp [asked, hpk]
  have hasked : ∀ t, firstAsked (self.asked pk (cs ++ [c])) t = firstAsked (self.asked pk cs) t := fun t => by
    rw [asked_append, hnone, List.append_nil]
  have hcons : ∀ a, (pk, a) ∈ (c.duty.pubkey, c.attestationData) :: s.signed ↔ (pk, a) ∈ s.signed := fun a => by
    simp [Ne.symm hpk]
  split at hstep
  · rw [hstep]
    exact h.of_asked hasked (fun _ => Iff.rfl) rfl h.books rfl
  · rw [hstep]
    exact h.of_asked hasked hcons rfl h.books rfl
  · obtain ⟨db', hstep, hok⟩ := hstep
    rw [hstep]
    obtain ⟨-, -, hother⟩ := checkAndInsertAttestation_records hok
    exact h.of_asked hasked hcons (hother pk (Ne.symm hpk)).attestationByTarget (h.books_insert hok)
      (congrFun (checkAndInsertAttestation_lowerBound hok) pk)

/-- The target is on record: the request is refused, or repeats the data on record. -/
theorem Recorded.step_known (h : Recorded self c.duty.pubkey cs s) (hadm : self.Admitted c) {a : AttestationData}
    (hfirst : firstAsked (self.asked c.duty.pubkey cs) c.attestationData.target.epoch = some a)
    (hcf : self.attestationSigningRoot a = self.attestationSigningRoot c.attestationData → a = c.attestationData) :
    Recorded self c.duty.pubkey (cs ++ [c]) (self.signStep s c) := by
  have hstep := signStep_admitted hadm s
  have hsame : ∀ t, firstAsked (self.asked c.duty.pubkey (cs ++ [c])) t = firstAsked (self.asked c.duty.pubkey cs) t :=
    fun t => by
      rw [firstAsked_concat hadm]
      by_cases ht : c.attestationData.target.epoch = t
      · rw [← ht, hfirst]
        rfl
      · rw [if_neg ht, Option.or_none]
  have hrec := h.onRecord c.attestationData.target.epoch
  rw [hfirst] at hrec
  split at hstep
  · rw [hstep]
    exact h.of_asked hsame (fun _ => Iff.rfl) rfl h.books rfl
  · rename_i hstatus
    obtain ⟨r, hr, hroot⟩ := Db.safeStatus_same hstatus
    obtain rfl : _ = r := Option.some.inj (hrec.symm.trans hr)
    obtain rfl := hcf hroot
    rw [hstep]
    refine h.of_asked hsame (fun b => ?_) rfl h.books rfl
    rw [List.mem_cons]
    refine or_iff_right_of_imp (fun heq => ?_)
    cases heq
    exact (h.signed _).2 hfirst
  · rename_i hstatus
    rw [Db.safeStatus_new hstatus] at hrec
    cases hrec

theorem Recorded.step_first (h : Recorded self c.duty.pubkey cs s) (hadm : self.Admitted c)
    (hfirst : firstAsked (self.asked c.duty.pubkey cs) c.attestationData.target.epoch = none) :
    Recorded self c.duty.pubkey (cs ++ [c]) (self.signStep s c) := by
  have hstep := signStep_admitted hadm s
  rw [h.safeStatus_new hfirst] at hstep
  obtain ⟨db', hstep, hok⟩ := hstep
  have hnew : ∀ t, firstAsked (self.asked c.duty.pubkey (cs ++ [c])) t =
      if c.attestationData.target.epoch = t then some c.attestationData else firstAsked (self.asked c.duty.pubkey cs) t :=
    fun t => by
      rw [firstAsked_concat hadm]
      by_cases ht : c.attestationData.target.epoch = t
      · rw [← ht, hfirst, if_pos rfl]
        rfl
      · rw [if_neg ht, if_neg ht, Option.or_none]
  rw [hstep]
  refine ⟨fun a => ?_, fun t => ?_, h.books_insert hok, ?_⟩
  · rw [List.mem_cons, hnew, h.signed]
    by_cases ht : c.attestationData.target.epoch = a.target.epoch
    · rw [if_pos ht, ← ht, hfirst]
      simp [eq_comm]
    · have hne : a ≠ c.attestationData := fun heq => ht (by rw [heq])
      simp [ht, hne]
  · rw [checkAndInsertAttestation_get? (h.safeStatus_new hfirst) hok, hnew, h.onRecord]
    by_cases ht : c.attestationData.target.epoch = t <;> simp [ht]
  · rw [checkAndInsertAttestation_lowerBound hok]
    exact h.unbounded

theorem Recorded.step (h : Recorded self pk cs s) (c : SignCall)
    (hcf : ∀ a, firstAsked (self.asked pk cs) c.attestationData.target.epoch = some a →
      self.attestationSigningRoot a = self.attestationSigningRoot c.attestationData → a = c.attestationData) :
    Recorded self pk (cs ++ [c]) (self.signStep s c) := by
  by_cases hadm : self.Admitted c
  · by_cases hpk : c.duty.pubkey = pk
    · subst hpk
      cases hfirst : firstAsked (self.asked c.duty.pubkey cs) c.attestationData.target.epoch with
      | none => exact h.step_first hadm hfirst
      | some a => exact h.step_known hadm hfirst (hcf a hfirst)
    · exact h.step_otherKey hadm hpk
  · rw [signStep_refused hadm]
    have hnone : self.asked pk [c] = [] := by simp [asked, hadm]
    exact h.of_asked (fun t => by rw [asked_append, hnone, List.append_nil]) (fun _ => Iff.rfl) rfl h.books rfl

theorem Recorded.run (cs : List SignCall) (hcf : ∀ c ∈ cs, ∀ c' ∈ cs, self.attestationSigningRoot c.attestationData =
    self.attestationSigningRoot c'.attestationData → c.attestationData = c'.attestationData) :
    Recorded self pk cs (self.signAll Signer.empty cs) := by
  induction cs using List.reverseRecOn with
  | nil =>
    refine ⟨fun a => ?_, fun t => rfl, ⟨[], Books.empty pk, fun _ ha => absurd ha List.not_mem_nil⟩, rfl⟩
    exact ⟨fun h => absurd h List.not_mem_nil, fun h => by cases h⟩
  | append_singleton cs c ih =>
    have hpre := ih (fun c hc c' hc' => hcf c (List.mem_append_left _ hc) c' (List.mem_append_left _ hc'))
    rw [signAll, List.foldl_append]
    refine hpre.step c (fun a ha hroot => ?_)
    obtain ⟨⟨c', hc', rfl⟩, -⟩ := mem_asked_of_firstAsked ha
    exact hcf c' (List.mem_append_left _ hc') c (List.mem_append_right _ List.mem_cons_self) hroot

/-- **When a run signs nothing slashable**: exactly when, among the requests that are first of their target epoch, a later
target never comes with an earlier source. -/
theorem signAttestation_slashable_iff (self : ValidatorStore SecretKey) (pk : BLSPubkey) (cs : List SignCall)
    (hcf : ∀ c ∈ cs, ∀ c' ∈ cs, self.attestationSigningRoot c.attestationData =
      self.attestationSigningRoot c'.attestationData → c.attestationData = c'.attestationData) :
    NotSlashable pk (self.signAll Signer.empty cs).signed ↔ self.SourcesInOrder pk cs := by
  have hrec : Recorded self pk cs (self.signAll Signer.empty cs) := Recorded.run cs hcf
  constructor
  · intro h t u a b htu ha hb
    obtain ⟨-, rfl⟩ := mem_asked_of_firstAsked ha
    obtain ⟨-, rfl⟩ := mem_asked_of_firstAsked hb
    have := (h a b ((hrec.signed a).2 ha) ((hrec.signed b).2 hb)).2
    simp only [isSlashableAttestationData, Bool.or_eq_false_iff, Bool.and_eq_false_iff, decide_eq_false_iff_not] at this
    omega
  · intro h
    have hone : ∀ a b, (pk, a) ∈ (self.signAll Signer.empty cs).signed →
        (pk, b) ∈ (self.signAll Signer.empty cs).signed → isSlashableAttestationData a b = false := by
      intro a b ha hb
      have hfirst := (hrec.signed a).1 ha
      have hfirst' := (hrec.signed b).1 hb
      simp only [isSlashableAttestationData, Bool.or_eq_false_iff, Bool.and_eq_false_iff, decide_eq_false_iff_not,
        beq_eq_false_iff_ne]
      by_cases heq : a.target.epoch = b.target.epoch
      · rw [← heq, hfirst] at hfirst'
        exact ⟨.inl (fun hne => hne (Option.some.inj hfirst')), .inr (by omega)⟩
      · refine ⟨.inr heq, ?_⟩
        by_cases hlt : b.target.epoch < a.target.epoch
        · exact .inl (Nat.not_lt.2 (h _ _ b a hlt hfirst' hfirst))
        · exact .inr hlt
    exact fun a b ha hb => ⟨hone a b ha hb, hone b a hb ha⟩

def oneKey : ValidatorStore Unit where
  preset := mainnet
  validators _ := some ()
  getDomain _ := Vector.replicate 32 1
  computeSigningRoot data _ := Vector.replicate 32 (UInt8.ofNat (16 * data.source.epoch + data.target.epoch))
  sign _ _ := Vector.replicate 96 1

def oneCall (source target : Nat) : SignCall where
  duty := ⟨Vector.replicate 48 0, 0, 0, 1, 1, 0, 32 * target⟩
  attestationData := ⟨32 * target, 0, zeroRoot, ⟨source, zeroRoot⟩, ⟨target, zeroRoot⟩⟩
  currentEpoch := target

theorem signAttestation_slashable_iff_consecutive :
    NotSlashable (Vector.replicate 48 0) (oneKey.signAll Signer.empty [oneCall 2 3, oneCall 1 3, oneCall 3 4]).signed :=
  (signAttestation_slashable_iff oneKey (Vector.replicate 48 0) [oneCall 2 3, oneCall 1 3, oneCall 3 4] (by decide)).2 (by
    intro t u a b htu ha hb
    obtain ⟨⟨c, hc, rfl⟩, rfl⟩ := mem_asked_of_firstAsked ha
    obtain ⟨⟨c', hc', rfl⟩, rfl⟩ := mem_asked_of_firstAsked hb
    simp only [List.mem_cons, List.not_mem_nil, or_false] at hc hc'
    rcases hc with rfl | rfl | rfl <;> rcases hc' with rfl | rfl | rfl <;> revert htu ha hb <;> decide)

/-- The second attestation surrounds the first, and both are signed. -/
theorem signAttestation_signs_surround :
    (oneKey.signAll Signer.empty [oneCall 2 3, oneCall 1 4]).signed =
      [(Vector.replicate 48 0, (oneCall 1 4).attestationData), (Vector.replicate 48 0, (oneCall 2 3).attestationData)] ∧
    ¬ NotSlashable (Vector.replicate 48 0) (oneKey.signAll Signer.empty [oneCall 2 3, oneCall 1 4]).signed := by
  refine ⟨rfl, fun h => ?_⟩
  have := (h (oneCall 1 4).attestationData (oneCall 2 3).attestationData (.head _) (.tail _ (.head _))).1
  revert this
  decide

end ValidatorStore

end Lodestar.Validator
