import Lodestar.Validator.Database
/-!
# MinMaxSurround — surround votes found from two span tables

For each epoch `e` the min span is the least `target - e` over the inserted attestations with a source after `e`, and the
max span the greatest `target - e` over those that straddle `e`.  An attestation surrounds an inserted one exactly when
the min span at its source is below its own distance, and is surrounded exactly when the max span there is above it.

An insertion walks the table away from its source and stops at the first epoch it does not improve, which loses nothing:
`IsMinSpan.cons_of_le` and `IsMaxSpan.cons_of_ge`.
-/
namespace Lodestar.Validator

open Async Lib

/-- `maxEpochLookback`, where `none` is `Infinity`, the default and the only value the package constructs. -/
structure MinMaxSurround where
  maxEpochLookback : Option Nat := none
deriving DecidableEq

namespace MinMaxSurround

section

variable (pubKey : BLSPubkey) (att : Att)

def assertNotSurrounding : SP Unit := do
  let minSpan ← Prog.call (.minSpanGet pubKey att.source)
  let distance : Int := att.target - att.source
  match minSpan with
  | some minSpan =>
    if 0 < minSpan ∧ minSpan < distance then
      Prog.fail (.surround .IS_SURROUNDING att (att.source + minSpan))
    else pure ()
  | none => pure ()

def assertNotSurrounded : SP Unit := do
  let maxSpan ← Prog.call (.maxSpanGet pubKey att.source)
  let distance : Int := att.target - att.source
  match maxSpan with
  | some maxSpan =>
    if 0 < maxSpan ∧ distance < maxSpan then
      Prog.fail (.surround .IS_SURROUNDED att (att.source + maxSpan))
    else pure ()
  | none => pure ()

def assertNoSurround : SP Unit := do
  assertNotSurrounding pubKey att
  assertNotSurrounded pubKey att

/-- The loop of `updateMinSpan`, from the epoch below `n` down to `untilEpoch`. -/
def minSpanLoop (pubKey : BLSPubkey) (att : Att) (untilEpoch : Nat) : Nat → List DistanceEntry → SP (List DistanceEntry)
  | 0, values => pure values
  | epoch + 1, values =>
    if epoch < untilEpoch then pure values
    else do
      let minSpan ← Prog.call (.minSpanGet pubKey epoch)
      let distance : Int := att.target - epoch
      if minSpan.all (fun m => m == 0 || decide (distance < m)) then
        minSpanLoop pubKey att untilEpoch epoch (values ++ [⟨epoch, distance⟩])
      else pure values

def updateMinSpan (self : MinMaxSurround) (pubKey : BLSPubkey) (att : Att) : SP Unit := do
  assertNotSurrounding pubKey att
  let untilEpoch := match self.maxEpochLookback with
    | none => 0
    | some lookback => att.source - 1 - lookback
  let values ← minSpanLoop pubKey att untilEpoch att.source []
  Prog.call (DbOp.minSpanSetBatch pubKey values)

/-- The loop of `updateMaxSpan`, over the `n` epochs from `epoch` to the target. -/
def maxSpanLoop (pubKey : BLSPubkey) (att : Att) : Nat → Nat → List DistanceEntry → SP (List DistanceEntry)
  | 0, _, values => pure values
  | n + 1, epoch, values => do
    let maxSpan ← Prog.call (.maxSpanGet pubKey epoch)
    let distance : Int := att.target - epoch
    if maxSpan.all (fun m => m == 0 || decide (m < distance)) then
      maxSpanLoop pubKey att n (epoch + 1) (values ++ [⟨epoch, distance⟩])
    else pure values

def updateMaxSpan : SP Unit := do
  assertNotSurrounded pubKey att
  let values ← maxSpanLoop pubKey att (att.target - (att.source + 1)) (att.source + 1) []
  Prog.call (DbOp.maxSpanSetBatch pubKey values)

end

def insertAttestation (self : MinMaxSurround) (pubKey : BLSPubkey) (att : Att) : SP Unit := do
  self.updateMinSpan pubKey att
  updateMaxSpan pubKey att

end MinMaxSurround

/-! ## What the tables hold -/

def Att.Surrounds (a b : Att) : Prop := a.source < b.source ∧ b.target < a.target

instance (a b : Att) : Decidable (a.Surrounds b) := inferInstanceAs (Decidable (_ ∧ _))

def IsMinSpan (H : List Att) (e : Nat) : Option Int → Prop
  | none => ∀ h ∈ H, h.source ≤ e
  | some d => (∃ h ∈ H, e < h.source ∧ d = h.target - e) ∧ ∀ h ∈ H, e < h.source → d ≤ h.target - e

def IsMaxSpan (H : List Att) (e : Nat) : Option Int → Prop
  | none => ∀ h ∈ H, e ≤ h.source ∨ h.target ≤ e
  | some d => (∃ h ∈ H, h.source < e ∧ e < h.target ∧ d = h.target - e) ∧
      ∀ h ∈ H, h.source < e → e < h.target → (h.target : Int) - e ≤ d

variable {H : List Att} {e : Nat} {o : Option Int} {a : Att}

theorem IsMinSpan.cons_of_source_le (h : IsMinSpan H e o) (ha : a.source ≤ e) : IsMinSpan (a :: H) e o := by
  cases o with
  | none =>
    intro b hb
    rcases List.mem_cons.1 hb with rfl | hb
    · exact ha
    · exact h b hb
  | some d =>
    obtain ⟨⟨b, hb, h1, h2⟩, hall⟩ := h
    refine ⟨⟨b, List.mem_cons_of_mem _ hb, h1, h2⟩, fun c hc hec => ?_⟩
    rcases List.mem_cons.1 hc with rfl | hc
    · omega
    · exact hall c hc hec

theorem IsMinSpan.cons_of_le {e e' : Nat} {d : Int} (h : IsMinSpan H e' o) (hd : IsMinSpan H e (some d)) (hle : d ≤ a.target - e)
    (he : e' ≤ e) :
    IsMinSpan (a :: H) e' o := by
  obtain ⟨⟨b, hb, heb, rfl⟩, -⟩ := hd
  cases o with
  | none => exact absurd (h b hb) (by omega)
  | some d' =>
    obtain ⟨⟨c, hc, h1, h2⟩, hall⟩ := h
    refine ⟨⟨c, List.mem_cons_of_mem _ hc, h1, h2⟩, fun x hx hex => ?_⟩
    rcases List.mem_cons.1 hx with rfl | hx
    · have := hall b hb (by omega)
      omega
    · exact hall x hx hex

theorem IsMinSpan.cons_new (h : IsMinSpan H e o) (hHt : ∀ b ∈ H, b.source ≤ b.target) (ha : e < a.source)
    (ho : o.all (fun m => m == 0 || decide ((a.target : Int) - e < m)) = true) :
    IsMinSpan (a :: H) e (some (a.target - e)) := by
  refine ⟨⟨a, List.mem_cons_self, ha, rfl⟩, fun x hx hex => ?_⟩
  rcases List.mem_cons.1 hx with rfl | hx
  · exact Int.le_refl _
  · cases o with
    | none => exact absurd (h x hx) (by omega)
    | some d =>
      obtain ⟨⟨c, hc, h1, h2⟩, hall⟩ := h
      have := hall x hx hex
      have := hHt c hc
      simp only [Option.all_some, Bool.or_eq_true, beq_iff_eq, decide_eq_true_eq] at ho
      omega

theorem IsMaxSpan.cons_of_outside (h : IsMaxSpan H e o) (ha : e ≤ a.source ∨ a.target ≤ e) : IsMaxSpan (a :: H) e o := by
  cases o with
  | none =>
    intro b hb
    rcases List.mem_cons.1 hb with rfl | hb
    · exact ha
    · exact h b hb
  | some d =>
    obtain ⟨⟨b, hb, h1, h2, h3⟩, hall⟩ := h
    refine ⟨⟨b, List.mem_cons_of_mem _ hb, h1, h2, h3⟩, fun c hc h4 h5 => ?_⟩
    rcases List.mem_cons.1 hc with rfl | hc
    · omega
    · exact hall c hc h4 h5

theorem IsMaxSpan.cons_of_ge {e e' : Nat} {d : Int} (h : IsMaxSpan H e' o) (hd : IsMaxSpan H e (some d))
    (hle : (a.target : Int) - e ≤ d) (he : e ≤ e') :
    IsMaxSpan (a :: H) e' o := by
  obtain ⟨⟨b, hb, h1, h2, rfl⟩, -⟩ := hd
  by_cases hin : a.source < e' ∧ e' < a.target
  · cases o with
    | none => exact absurd (h b hb) (by omega)
    | some d' =>
      obtain ⟨⟨c, hc, h3, h4, h5⟩, hall⟩ := h
      refine ⟨⟨c, List.mem_cons_of_mem _ hc, h3, h4, h5⟩, fun x hx h6 h7 => ?_⟩
      rcases List.mem_cons.1 hx with rfl | hx
      · have := hall b hb (by omega) (by omega)
        omega
      · exact hall x hx h6 h7
  · exact h.cons_of_outside (by omega)

theorem IsMaxSpan.cons_new (h : IsMaxSpan H e o) (ha : a.source < e) (ht : e < a.target)
    (ho : o.all (fun m => m == 0 || decide (m < (a.target : Int) - e)) = true) :
    IsMaxSpan (a :: H) e (some (a.target - e)) := by
  refine ⟨⟨a, List.mem_cons_self, ha, ht, rfl⟩, fun x hx h1 h2 => ?_⟩
  rcases List.mem_cons.1 hx with rfl | hx
  · exact Int.le_refl _
  · cases o with
    | none => exact absurd (h x hx) (by omega)
    | some d =>
      obtain ⟨⟨c, hc, h3, h4, h5⟩, hall⟩ := h
      have := hall x hx h1 h2
      simp only [Option.all_some, Bool.or_eq_true, beq_iff_eq, decide_eq_true_eq] at ho
      omega

/-- Both tables of one public key are exact for the attestations `H`. -/
structure SpansExact (db : Db) (pubkey : BLSPubkey) (H : List Att) : Prop where
  minSpan : ∀ e, IsMinSpan H e (db.minSpanAt pubkey e)
  maxSpan : ∀ e, IsMaxSpan H e (db.maxSpanAt pubkey e)

/-! ## The calls alone -/

namespace MinMaxSurround

section

variable (o : Option Int) (distance : Int)

def minBlocks : Bool := o.any (fun m => decide (0 < m ∧ m < distance))

/-- The max span `o` makes an attestation of this distance surrounded by an inserted one. -/
def maxBlocks : Bool := o.any (fun m => decide (0 < m ∧ distance < m))

theorem assertNotSurrounding_run (pk : BLSPubkey) (att : Att) (db : Db) :
    (assertNotSurrounding pk att).on db =
      if minBlocks (db.minSpanAt pk att.source) (att.target - att.source) then
        (.error (.surround .IS_SURROUNDING att (att.source + (db.minSpanAt pk att.source).getD 0)), db)
      else (.ok (), db) := by
  unfold assertNotSurrounding SP.on
  rw [Prog.run_bind, Prog.run_call, Db.answer_minSpanGet]
  cases db.minSpanAt pk att.source with
  | none => rfl
  | some m =>
    by_cases hm : 0 < m ∧ m < (att.target : Int) - att.source
    · simp [minBlocks, hm]
    · rw [show minBlocks (some m) ((att.target : Int) - att.source) = false by simpa [minBlocks] using hm]
      simp [hm]

theorem assertNotSurrounded_run (pk : BLSPubkey) (att : Att) (db : Db) :
    (assertNotSurrounded pk att).on db =
      if maxBlocks (db.maxSpanAt pk att.source) (att.target - att.source) then
        (.error (.surround .IS_SURROUNDED att (att.source + (db.maxSpanAt pk att.source).getD 0)), db)
      else (.ok (), db) := by
  unfold assertNotSurrounded SP.on
  rw [Prog.run_bind, Prog.run_call, Db.answer_maxSpanGet]
  cases db.maxSpanAt pk att.source with
  | none => rfl
  | some m =>
    by_cases hm : 0 < m ∧ (att.target : Int) - att.source < m
    · simp [maxBlocks, hm]
    · rw [show maxBlocks (some m) ((att.target : Int) - att.source) = false by simpa [maxBlocks] using hm]
      simp [hm]

def spanEntry (t e : Nat) : DistanceEntry := ⟨e, t - e⟩

/-- A table entry an insertion overwrites: absent, zero, or farther than the new distance. -/
def minImproves : Bool := o.all (fun m => m == 0 || decide (distance < m))
def maxImproves (o : Option Int) (distance : Int) : Bool := o.all (fun m => m == 0 || decide (m < distance))

end

theorem minSpanLoop_run (pk : BLSPubkey) (att : Att) (untilEpoch : Nat) (db : Db) :
    ∀ (n : Nat) (values : List DistanceEntry), ∃ m ≤ n, (minSpanLoop pk att untilEpoch n values).on db =
        (.ok (values ++ ((List.range' m (n - m)).reverse.map (spanEntry att.target))), db) ∧
      (∀ e, m ≤ e → e < n → minImproves (db.minSpanAt pk e) (att.target - e) = true) ∧
      (m ≤ untilEpoch ∨ minImproves (db.minSpanAt pk (m - 1)) (att.target - (m - 1 : Nat)) = false)
  | 0, values => ⟨0, Nat.le_refl _, by simp [minSpanLoop, SP.on], fun e _ h => absurd h (by omega), .inl (by omega)⟩
  | epoch + 1, values => by
    unfold minSpanLoop
    by_cases hu : epoch < untilEpoch
    · refine ⟨epoch + 1, Nat.le_refl _, ?_, fun e _ h => absurd h (by omega), .inl (by omega)⟩
      rw [if_pos hu]
      simp [SP.on]
    · rw [if_neg hu]
      unfold SP.on
      rw [Prog.run_bind, Prog.run_call, Db.answer_minSpanGet]
      by_cases hi : minImproves (db.minSpanAt pk epoch) ((att.target : Int) - epoch) = true
      · obtain ⟨m, hm, hrun, himp, hstop⟩ := minSpanLoop_run pk att untilEpoch db epoch (values ++ [spanEntry att.target epoch])
        refine ⟨m, by omega, ?_, fun e h1 h2 => ?_, hstop⟩
        · simp only [minImproves] at hi
          simp only [hi, if_true]
          have hr : List.range' m (epoch + 1 - m) = List.range' m (epoch - m) ++ [epoch] := by
            rw [show epoch + 1 - m = (epoch - m) + 1 by omega, List.range'_concat]
            simp [show m + (epoch - m) = epoch by omega]
          rw [hr, List.reverse_append, List.reverse_singleton, List.singleton_append, List.map_cons]
          rw [List.append_assoc, List.singleton_append] at hrun
          exact hrun
        · rcases Nat.lt_or_ge e epoch with h | h
          · exact himp e h1 h
          · rw [show e = epoch by omega]
            exact hi
      · refine ⟨epoch + 1, Nat.le_refl _, ?_, fun e _ h => absurd h (by omega), .inr ?_⟩
        · simp only [minImproves, Bool.not_eq_true] at hi
          simp [hi]
        · simpa using hi

theorem maxSpanLoop_run (pk : BLSPubkey) (att : Att) (db : Db) :
    ∀ (n epoch : Nat) (values : List DistanceEntry), ∃ k ≤ n, (maxSpanLoop pk att n epoch values).on db =
        (.ok (values ++ ((List.range' epoch k).map (spanEntry att.target))), db) ∧
      (∀ e, epoch ≤ e → e < epoch + k → maxImproves (db.maxSpanAt pk e) (att.target - e) = true) ∧
      (k = n ∨ maxImproves (db.maxSpanAt pk (epoch + k)) (att.target - (epoch + k : Nat)) = false)
  | 0, epoch, values => ⟨0, Nat.le_refl _, by simp [maxSpanLoop, SP.on], fun e _ h => absurd h (by omega), .inl rfl⟩
  | n + 1, epoch, values => by
    unfold maxSpanLoop SP.on
    rw [Prog.run_bind, Prog.run_call, Db.answer_maxSpanGet]
    by_cases hi : maxImproves (db.maxSpanAt pk epoch) ((att.target : Int) - epoch) = true
    · obtain ⟨k, hk, hrun, himp, hstop⟩ := maxSpanLoop_run pk att db n (epoch + 1) (values ++ [spanEntry att.target epoch])
      refine ⟨k + 1, by omega, ?_, fun e h1 h2 => ?_, ?_⟩
      · simp only [maxImproves] at hi
        simp only [hi, if_true]
        rw [List.append_assoc, List.singleton_append] at hrun
        exact hrun
      · rcases Nat.lt_or_ge epoch e with h | h
        · exact himp e (by omega) (by omega)
        · rw [show e = epoch by omega]
          exact hi
      · rw [show epoch + (k + 1) = epoch + 1 + k by omega]
        exact hstop.imp_left (by omega)
    · refine ⟨0, Nat.zero_le _, ?_, fun e _ h => absurd h (by omega), .inr ?_⟩
      · simp only [maxImproves, Bool.not_eq_true] at hi
        simp [hi]
      · simpa using hi

def writeMin (db : Db) (pk : BLSPubkey) (t : Nat) (ks : List Nat) : Db :=
  { db with minSpan := Function.update db.minSpan pk ((db.minSpan pk).insertMany (ks.map (spanEntry t))) }

def writeMax (db : Db) (pk : BLSPubkey) (t : Nat) (ks : List Nat) : Db :=
  { db with maxSpan := Function.update db.maxSpan pk ((db.maxSpan pk).insertMany (ks.map (spanEntry t))) }

section

variable (db : Db) (pk pk' : BLSPubkey) (t : Nat) (ks : List Nat) (e : Nat)

theorem minSpanAt_writeMin : (writeMin db pk t ks).minSpanAt pk' e =
      if pk' = pk ∧ e ∈ ks then some ((t : Int) - e) else db.minSpanAt pk' e := by
  unfold Db.minSpanAt writeMin
  dsimp only
  by_cases hpk : pk' = pk
  · subst hpk
    rw [Function.update_self, RecordMap.get?_insertMany_map _ (fun _ => rfl)]
    by_cases he : e ∈ ks <;> simp [he, spanEntry]
  · rw [Function.update_of_ne hpk]
    simp [hpk]

theorem maxSpanAt_writeMax : (writeMax db pk t ks).maxSpanAt pk' e =
      if pk' = pk ∧ e ∈ ks then some ((t : Int) - e) else db.maxSpanAt pk' e := by
  unfold Db.maxSpanAt writeMax
  dsimp only
  by_cases hpk : pk' = pk
  · subst hpk
    rw [Function.update_self, RecordMap.get?_insertMany_map _ (fun _ => rfl)]
    by_cases he : e ∈ ks <;> simp [he, spanEntry]
  · rw [Function.update_of_ne hpk]
    simp [hpk]

@[simp] theorem maxSpanAt_writeMin : (writeMin db pk t ks).maxSpanAt pk' e = db.maxSpanAt pk' e := rfl

end

/-- **What `updateMinSpan` does alone**: it refuses a surrounding attestation, and otherwise writes the epochs of its
walk. -/
theorem updateMinSpan_run (self : MinMaxSurround) (pk : BLSPubkey) (att : Att) (db : Db)
    (hb : minBlocks (db.minSpanAt pk att.source) (att.target - att.source) = false) :
    ∃ m ≤ att.source,
      (self.updateMinSpan pk att).on db =
        (.ok (), writeMin db pk att.target (List.range' m (att.source - m)).reverse) ∧
      (∀ e, m ≤ e → e < att.source → minImproves (db.minSpanAt pk e) (att.target - e) = true) ∧
      (self.maxEpochLookback = none →
        m = 0 ∨ minImproves (db.minSpanAt pk (m - 1)) (att.target - (m - 1 : Nat)) = false) := by
  have ha := assertNotSurrounding_run pk att db
  rw [hb] at ha
  obtain ⟨m, hm, hrun, himp, hstop⟩ := minSpanLoop_run pk att (match self.maxEpochLookback with
    | none => 0
    | some lookback => att.source - 1 - lookback) db att.source []
  refine ⟨m, hm, ?_, himp, fun hnone => ?_⟩
  · unfold updateMinSpan
    unfold SP.on at ha hrun ⊢
    rw [Prog.run_bind_ok _ ha, Prog.run_bind_ok _ hrun]
    rfl
  · rw [hnone] at hstop
    exact hstop.imp_left Nat.le_zero.1

theorem updateMaxSpan_run (pk : BLSPubkey) (att : Att) (db : Db)
    (hb : maxBlocks (db.maxSpanAt pk att.source) (att.target - att.source) = false) :
    ∃ k ≤ att.target - (att.source + 1),
      (updateMaxSpan pk att).on db = (.ok (), writeMax db pk att.target (List.range' (att.source + 1) k)) ∧
      (∀ e, att.source < e → e ≤ att.source + k → maxImproves (db.maxSpanAt pk e) (att.target - e) = true) ∧
      (k = att.target - (att.source + 1) ∨
        maxImproves (db.maxSpanAt pk (att.source + 1 + k)) (att.target - (att.source + 1 + k : Nat)) = false) := by
  have ha := assertNotSurrounded_run pk att db
  rw [hb] at ha
  obtain ⟨k, hk, hrun, himp, hstop⟩ := maxSpanLoop_run pk att db (att.target - (att.source + 1)) (att.source + 1) []
  refine ⟨k, hk, ?_, fun e h1 h2 => himp e (by omega) (by omega), hstop⟩
  unfold updateMaxSpan
  unfold SP.on at ha hrun ⊢
  rw [Prog.run_bind_ok _ ha, Prog.run_bind_ok _ hrun]
  rfl

theorem insertAttestation_not_blocked (self : MinMaxSurround) {pk : BLSPubkey} {att : Att} {db db' : Db}
    (h : (self.insertAttestation pk att).on db = (.ok (), db')) :
    minBlocks (db.minSpanAt pk att.source) (att.target - att.source) = false ∧
      maxBlocks (db.maxSpanAt pk att.source) (att.target - att.source) = false := by
  obtain ⟨_, db₁, h1, h2⟩ := Prog.run_bind_inv _ h
  have hmin : minBlocks (db.minSpanAt pk att.source) (att.target - att.source) = false := by
    obtain ⟨_, db₀, h3, -⟩ := Prog.run_bind_inv _ h1
    have h3 := (assertNotSurrounding_run pk att db).symm.trans h3
    split at h3
    · cases h3
    · rename_i hn
      simpa using hn
  refine ⟨hmin, ?_⟩
  obtain ⟨m, -, hrun, -⟩ := updateMinSpan_run self pk att db hmin
  obtain rfl : db₁ = _ := congrArg Prod.snd (h1.symm.trans hrun)
  obtain ⟨_, db₂, h3, -⟩ := Prog.run_bind_inv _ h2
  have h3 := (assertNotSurrounded_run pk att _).symm.trans h3
  split at h3
  · cases h3
  · rename_i hn
    simpa using hn

end MinMaxSurround

variable {pk : BLSPubkey}

open MinMaxSurround in
theorem IsMinSpan.updated {db : Db} {att : Att} {m : Nat} (hexact : ∀ e, IsMinSpan H e (db.minSpanAt pk e))
    (hH : ∀ b ∈ H, b.source ≤ b.target) (hm : m ≤ att.source)
    (himp : ∀ e, m ≤ e → e < att.source → minImproves (db.minSpanAt pk e) (att.target - e) = true)
    (hstop : m = 0 ∨ minImproves (db.minSpanAt pk (m - 1)) (att.target - (m - 1 : Nat)) = false) (e : Nat) :
    IsMinSpan (att :: H) e ((writeMin db pk att.target (List.range' m (att.source - m)).reverse).minSpanAt pk e) := by
  rw [minSpanAt_writeMin]
  simp only [true_and, List.mem_reverse, List.mem_range'_1]
  split
  · rename_i he
    exact (hexact e).cons_new hH (by omega) (himp e he.1 (by omega))
  · rename_i he
    rcases Nat.lt_or_ge e att.source with hs | hs
    · have hem : e < m := by omega
      have hstop := hstop.resolve_left (by omega)
      have hd := hexact (m - 1)
      cases hv : db.minSpanAt pk (m - 1) with
      | none =>
        rw [hv] at hstop
        simp [minImproves] at hstop
      | some d =>
        rw [hv] at hstop hd
        simp only [minImproves, Option.all_some, Bool.or_eq_false_iff, beq_eq_false_iff_ne, ne_eq,
          decide_eq_false_iff_not, Int.not_lt] at hstop
        exact (hexact e).cons_of_le hd hstop.2 (by omega)
    · exact (hexact e).cons_of_source_le hs

open MinMaxSurround in
theorem IsMaxSpan.updated {db : Db} {att : Att} {k : Nat} (hexact : ∀ e, IsMaxSpan H e (db.maxSpanAt pk e))
    (hk : k ≤ att.target - (att.source + 1))
    (himp : ∀ e, att.source < e → e ≤ att.source + k → maxImproves (db.maxSpanAt pk e) (att.target - e) = true)
    (hstop : k = att.target - (att.source + 1) ∨
      maxImproves (db.maxSpanAt pk (att.source + 1 + k)) (att.target - (att.source + 1 + k : Nat)) = false)
    (e : Nat) :
    IsMaxSpan (att :: H) e ((writeMax db pk att.target (List.range' (att.source + 1) k)).maxSpanAt pk e) := by
  rw [maxSpanAt_writeMax]
  simp only [true_and, List.mem_range'_1]
  split
  · rename_i he
    exact (hexact e).cons_new (by omega) (by omega) (himp e (by omega) (by omega))
  · rename_i he
    by_cases hs : att.source < e ∧ e < att.target
    · have hstop := hstop.resolve_left (by omega)
      have hd := hexact (att.source + 1 + k)
      cases hv : db.maxSpanAt pk (att.source + 1 + k) with
      | none =>
        rw [hv] at hstop
        simp [maxImproves] at hstop
      | some d =>
        rw [hv] at hstop hd
        simp only [maxImproves, Option.all_some, Bool.or_eq_false_iff, beq_eq_false_iff_ne, ne_eq,
          decide_eq_false_iff_not, Int.not_lt] at hstop
        exact (hexact e).cons_of_ge hd hstop.2 (by omega)
    · exact (hexact e).cons_of_outside (by omega)

open MinMaxSurround in
/-- **The min span check is exact**: it refuses what surrounds something inserted, and nothing else. -/
theorem IsMinSpan.blocks_iff {e t : Nat} (h : IsMinSpan H e o) (hH : ∀ b ∈ H, b.source ≤ b.target) :
    minBlocks o (t - e) = true ↔ ∃ b ∈ H, e < b.source ∧ b.target < t := by
  cases o with
  | none =>
    constructor
    · intro hb
      cases hb
    · rintro ⟨b, hb, hsource, -⟩
      exact absurd (h b hb) (by omega)
  | some d =>
    obtain ⟨⟨c, hc, hsource, rfl⟩, hall⟩ := h
    have hwf := hH c hc
    simp only [minBlocks, Option.any_some, decide_eq_true_eq]
    constructor
    · rintro ⟨-, hlt⟩
      exact ⟨c, hc, hsource, by omega⟩
    · rintro ⟨b, hb, hsource', htarget⟩
      have hle := hall b hb hsource'
      omega

open MinMaxSurround in
/-- **The max span check is exact**: it refuses what something inserted surrounds, and nothing else. -/
theorem IsMaxSpan.blocks_iff {e t : Nat} (h : IsMaxSpan H e o) (he : e ≤ t) :
    maxBlocks o (t - e) = true ↔ ∃ b ∈ H, b.source < e ∧ t < b.target := by
  cases o with
  | none =>
    constructor
    · intro hb
      cases hb
    · rintro ⟨b, hb, hsource, htarget⟩
      exact absurd (h b hb) (by omega)
  | some d =>
    obtain ⟨⟨c, hc, hsource, htarget, rfl⟩, hall⟩ := h
    simp only [maxBlocks, Option.any_some, decide_eq_true_eq]
    constructor
    · rintro ⟨-, hlt⟩
      exact ⟨c, hc, hsource, by omega⟩
    · rintro ⟨b, hb, hsource', htarget'⟩
      have hle := hall b hb hsource' (by omega)
      omega

open MinMaxSurround in
/-- **An insertion neither table blocks succeeds, writes the two tables of its public key, and keeps them exact.** -/
theorem insertAttestation_run (pk : BLSPubkey) (att : Att) (db : Db)
    (hmin : minBlocks (db.minSpanAt pk att.source) (att.target - att.source) = false)
    (hmax : maxBlocks (db.maxSpanAt pk att.source) (att.target - att.source) = false) :
    ∃ ks ks', (({} : MinMaxSurround).insertAttestation pk att).on db =
        (.ok (), writeMax (writeMin db pk att.target ks) pk att.target ks') ∧
      ∀ H, SpansExact db pk H → (∀ b ∈ H, b.source ≤ b.target) →
        SpansExact (writeMax (writeMin db pk att.target ks) pk att.target ks') pk (att :: H) := by
  obtain ⟨m, hm, hrun, himp, hstop⟩ := updateMinSpan_run {} pk att db hmin
  obtain ⟨k, hk, hrun', himp', hstop'⟩ :=
    updateMaxSpan_run pk att (writeMin db pk att.target (List.range' m (att.source - m)).reverse) hmax
  refine ⟨_, _, (Prog.run_bind_ok _ hrun).trans hrun', fun H hex hH => ⟨fun e => ?_, fun e => ?_⟩⟩
  · exact IsMinSpan.updated hex.minSpan hH hm himp (hstop rfl) e
  · exact IsMaxSpan.updated (fun e => hex.maxSpan e) hk himp' hstop' e

theorem SpansExact.empty (pubkey : BLSPubkey) : SpansExact Db.empty pubkey [] :=
  ⟨fun _ _ h => (List.not_mem_nil h).elim, fun _ _ h => (List.not_mem_nil h).elim⟩

end Lodestar.Validator
