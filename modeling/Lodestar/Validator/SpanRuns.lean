import Mathlib.Order.Bounds.Basic
import Lodestar.Validator.SlashingSafety
/-!
# SpanRuns — the span tables after any insertions

Insertions for any public keys, one after the other, from empty tables.  Each one that succeeds keeps the tables of its public
key exact and those of the others as they are (`Spanned.insert`), and surrounds nothing inserted before it nor is surrounded by
it.  So `assertNoSurround` is exact on what any number of them leave: `insertAll_spans`.
-/
namespace Lodestar.Validator

open Async Lib MinMaxSurround

def MinMaxSurround.insertAll (self : MinMaxSurround) : List (BLSPubkey × Att) → SP Unit
  | [] => pure ()
  | (pubKey, att) :: calls => do
    self.insertAttestation pubKey att
    self.insertAll calls

def insertedFor (pk : BLSPubkey) (calls : List (BLSPubkey × Att)) : List Att :=
  (calls.filter fun call => decide (call.1 = pk)).map (·.2)

def minSpansOf (H : List Att) (e : Nat) : Set Int := { d | ∃ h ∈ H, e < h.source ∧ d = h.target - e }

/-- The distances from `e` to the targets of the attestations that straddle `e`. -/
def maxSpansOf (H : List Att) (e : Nat) : Set Int := { d | ∃ h ∈ H, h.source < e ∧ e < h.target ∧ d = h.target - e }

/-! ## What the tables hold -/

def HoldsExtreme (S : Set Int) (Extreme : Int → Prop) : Option Int → Prop
  | none => S = ∅
  | some m => Extreme m

section HoldsExtreme

variable {S : Set Int} {Extreme : Int → Prop} {o : Option Int} (h : HoldsExtreme S Extreme o)

include h

theorem HoldsExtreme.eq_none_iff (hmem : ∀ d, Extreme d → d ∈ S) : o = none ↔ S = ∅ := by
  cases o with
  | none => exact ⟨fun _ => h, fun _ => rfl⟩
  | some m =>
    constructor
    · intro hnone
      cases hnone
    · intro hempty
      exact absurd (hmem m h) (by simp [hempty])

theorem HoldsExtreme.eq_some_iff (hmem : ∀ d, Extreme d → d ∈ S) (hunique : ∀ d d', Extreme d → Extreme d' → d = d') (d : Int) :
    o = some d ↔ Extreme d := by
  cases o with
  | none =>
    have hempty : S = ∅ := h
    constructor
    · intro hd
      cases hd
    · intro hd
      exact absurd (hmem d hd) (by simp [hempty])
  | some m =>
    constructor
    · rintro ⟨⟩
      exact h
    · intro hd
      rw [hunique m d h hd]

end HoldsExtreme

variable {H : List Att} {e : Nat} {o : Option Int}

theorem IsMinSpan.holdsLeast (h : IsMinSpan H e o) :
    HoldsExtreme (minSpansOf H e) (IsLeast (minSpansOf H e)) o := by
  cases o with
  | none =>
    refine Set.eq_empty_iff_forall_notMem.2 ?_
    rintro d ⟨b, hb, hsource, -⟩
    exact absurd (h b hb) (Nat.not_le.2 hsource)
  | some m =>
    refine ⟨h.1, ?_⟩
    rintro d ⟨b, hb, hsource, rfl⟩
    exact h.2 b hb hsource

theorem IsMinSpan.eq_some_iff (h : IsMinSpan H e o) (d : Int) : o = some d ↔ IsLeast (minSpansOf H e) d :=
  h.holdsLeast.eq_some_iff (fun _ hd => hd.1) (fun _ _ hd => hd.unique) d

theorem IsMinSpan.eq_none_iff (h : IsMinSpan H e o) : o = none ↔ minSpansOf H e = ∅ :=
  h.holdsLeast.eq_none_iff fun _ hd => hd.1

theorem IsMaxSpan.holdsGreatest (h : IsMaxSpan H e o) :
    HoldsExtreme (maxSpansOf H e) (IsGreatest (maxSpansOf H e)) o := by
  cases o with
  | none =>
    refine Set.eq_empty_iff_forall_notMem.2 ?_
    rintro d ⟨b, hb, hsource, htarget, -⟩
    have hout := h b hb
    omega
  | some m =>
    refine ⟨h.1, ?_⟩
    rintro d ⟨b, hb, hsource, htarget, rfl⟩
    exact h.2 b hb hsource htarget

theorem IsMaxSpan.eq_some_iff (h : IsMaxSpan H e o) (d : Int) : o = some d ↔ IsGreatest (maxSpansOf H e) d :=
  h.holdsGreatest.eq_some_iff (fun _ hd => hd.1) (fun _ _ hd => hd.unique) d

theorem IsMaxSpan.eq_none_iff (h : IsMaxSpan H e o) : o = none ↔ maxSpansOf H e = ∅ :=
  h.holdsGreatest.eq_none_iff fun _ hd => hd.1

/-! ## The checks -/

/-- The tables of one public key are exact for attestations none of which surrounds another. -/
structure Spanned (db : Db) (pk : BLSPubkey) (H : List Att) : Prop where
  exact : SpansExact db pk H
  wf : ∀ a ∈ H, a.source ≤ a.target
  apart : ∀ a ∈ H, ∀ b ∈ H, ¬ a.Surrounds b

theorem assertNoSurround_surrounding_iff (pk : BLSPubkey) (att : Att) (db : Db) :
    (∃ att2Target, ((assertNoSurround pk att).on db).1 = .error (.surround .IS_SURROUNDING att att2Target)) ↔
      minBlocks (db.minSpanAt pk att.source) (att.target - att.source) = true := by
  rw [assertNoSurround_eq]
  by_cases hb : minBlocks (db.minSpanAt pk att.source) (att.target - att.source) = true
  · simp [hb]
  · rw [if_neg hb]
    split <;> simp [hb]

theorem assertNoSurround_surrounded_iff (pk : BLSPubkey) (att : Att) (db : Db) :
    (∃ att2Target, ((assertNoSurround pk att).on db).1 = .error (.surround .IS_SURROUNDED att att2Target)) ↔
      minBlocks (db.minSpanAt pk att.source) (att.target - att.source) = false ∧
        maxBlocks (db.maxSpanAt pk att.source) (att.target - att.source) = true := by
  rw [assertNoSurround_eq]
  by_cases hb : minBlocks (db.minSpanAt pk att.source) (att.target - att.source) = true
  · simp [hb]
  · rw [if_neg hb]
    split <;> simp_all

namespace Spanned

variable {db : Db} {pk : BLSPubkey} {H : List Att} (h : Spanned db pk H)

include h

theorem surrounding_iff (att : Att) :
    (∃ att2Target, ((assertNoSurround pk att).on db).1 = .error (.surround .IS_SURROUNDING att att2Target)) ↔
      ∃ b ∈ H, att.Surrounds b := by
  rw [assertNoSurround_surrounding_iff]
  exact (h.exact.minSpan att.source).blocks_iff h.wf

/-- **`IS_SURROUNDED` is thrown exactly where an inserted attestation surrounds it**: the attestation cannot surround another
inserted one as well. -/
theorem surrounded_iff {att : Att} (hatt : att.source ≤ att.target) :
    (∃ att2Target, ((assertNoSurround pk att).on db).1 = .error (.surround .IS_SURROUNDED att att2Target)) ↔
      ∃ b ∈ H, b.Surrounds att := by
  have hmin := (h.exact.minSpan att.source).blocks_iff (t := att.target) h.wf
  have hmax := (h.exact.maxSpan att.source).blocks_iff hatt
  rw [assertNoSurround_surrounded_iff, hmax]
  constructor
  · rintro ⟨-, hsurrounded⟩
    exact hsurrounded
  · rintro ⟨b, hb, hsource, htarget⟩
    refine ⟨?_, b, hb, hsource, htarget⟩
    rw [← Bool.not_eq_true, hmin]
    rintro ⟨c, hc, hsource', htarget'⟩
    exact h.apart b hb c hc ⟨Nat.lt_trans hsource hsource', Nat.lt_trans htarget' htarget⟩

theorem insert {pk' : BLSPubkey} {att : Att} {db' : Db} (hatt : att.source ≤ att.target)
    (hrun : (({} : MinMaxSurround).insertAttestation pk' att).on db = (.ok (), db')) :
    Spanned db' pk (insertedFor pk [(pk', att)] ++ H) := by
  obtain ⟨-, hother, hextends⟩ := insertSpans_ok hrun
  by_cases hpk : pk' = pk
  · subst hpk
    obtain ⟨hmin, hmax⟩ := insertAttestation_not_blocked {} hrun
    have hsurrounds : ∀ b ∈ H, ¬ att.Surrounds b := by
      intro b hb hs
      have hblocks := ((h.exact.minSpan att.source).blocks_iff h.wf).2 ⟨b, hb, hs⟩
      rw [hmin] at hblocks
      cases hblocks
    have hsurrounded : ∀ b ∈ H, ¬ b.Surrounds att := by
      intro b hb hs
      have hblocks := ((h.exact.maxSpan att.source).blocks_iff hatt).2 ⟨b, hb, hs⟩
      rw [hmax] at hblocks
      cases hblocks
    have hself : ¬ att.Surrounds att := fun hs => Nat.lt_irrefl _ hs.1
    have hinserted : insertedFor pk' [(pk', att)] ++ H = att :: H := by simp [insertedFor]
    rw [hinserted]
    refine ⟨hextends H h.exact h.wf, List.forall_mem_cons.2 ⟨hatt, h.wf⟩, fun a ha b hb => ?_⟩
    rcases List.mem_cons.1 ha with rfl | ha' <;> rcases List.mem_cons.1 hb with rfl | hb'
    · exact hself
    · exact hsurrounds b hb'
    · exact hsurrounded a ha'
    · exact h.apart a ha' b hb'
  · have hinserted : insertedFor pk [(pk', att)] ++ H = H := by simp [insertedFor, hpk]
    rw [hinserted]
    exact ⟨h.exact.of_sameFor (hother pk (Ne.symm hpk)), h.wf, h.apart⟩

end Spanned

theorem insertedFor_cons (pk : BLSPubkey) (call : BLSPubkey × Att) (calls : List (BLSPubkey × Att)) :
    insertedFor pk (call :: calls) = insertedFor pk [call] ++ insertedFor pk calls := by
  by_cases hpk : call.1 = pk <;> simp [insertedFor, hpk]

theorem insertAll_spanned {pk : BLSPubkey} : ∀ (calls : List (BLSPubkey × Att)) {db db' : Db} {H : List Att},
    Spanned db pk H → (∀ call ∈ calls, call.2.source ≤ call.2.target) →
    (({} : MinMaxSurround).insertAll calls).on db = (.ok (), db') →
    ∃ H', Spanned db' pk H' ∧ ∀ a, a ∈ H' ↔ a ∈ insertedFor pk calls ∨ a ∈ H
  | [], db, db', H, h, _, hrun => by
    obtain rfl : db = db' := congrArg Prod.snd hrun
    exact ⟨H, h, fun a => by simp [insertedFor]⟩
  | (pk', att) :: calls, db, db', H, h, hwf, hrun => by
    obtain ⟨_, db₁, hfirst, hrest⟩ := Prog.run_bind_inv _ hrun
    have h₁ := h.insert (hwf (pk', att) List.mem_cons_self) hfirst
    obtain ⟨H', h', hmem⟩ := insertAll_spanned calls h₁ (fun call hc => hwf call (List.mem_cons_of_mem _ hc)) hrest
    refine ⟨H', h', fun a => ?_⟩
    rw [hmem, insertedFor_cons pk (pk', att) calls, List.mem_append, List.mem_append, or_left_comm, or_assoc]

/-- **The span tables hold the extremes of everything inserted**, for any public key, after any insertions that all succeeded,
and so `assertNoSurround` is exact.  (`checkAttestation` has refused an attestation whose source is after its target.) -/
theorem insertAll_spans (calls : List (BLSPubkey × Att)) (hwf : ∀ call ∈ calls, call.2.source ≤ call.2.target) (db : Db)
    (hrun : (({} : MinMaxSurround).insertAll calls).on Db.empty = (.ok (), db)) (pk : BLSPubkey) :
    (∀ e, (db.minSpanAt pk e = none ↔ minSpansOf (insertedFor pk calls) e = ∅) ∧
      (∀ d, db.minSpanAt pk e = some d ↔ IsLeast (minSpansOf (insertedFor pk calls) e) d) ∧
      (db.maxSpanAt pk e = none ↔ maxSpansOf (insertedFor pk calls) e = ∅) ∧
      ∀ d, db.maxSpanAt pk e = some d ↔ IsGreatest (maxSpansOf (insertedFor pk calls) e) d) ∧
    ∀ att : Att,
      ((∃ att2Target, ((assertNoSurround pk att).on db).1 = .error (.surround .IS_SURROUNDING att att2Target)) ↔
        ∃ b ∈ insertedFor pk calls, att.Surrounds b) ∧
      (att.source ≤ att.target →
        ((∃ att2Target, ((assertNoSurround pk att).on db).1 = .error (.surround .IS_SURROUNDED att att2Target)) ↔
          ∃ b ∈ insertedFor pk calls, b.Surrounds att)) := by
  have hempty : Spanned Db.empty pk [] :=
    ⟨SpansExact.empty pk, fun a ha => absurd ha List.not_mem_nil, fun a ha => absurd ha List.not_mem_nil⟩
  obtain ⟨H, h, hmem⟩ := insertAll_spanned calls hempty hwf hrun
  have hH : ∀ a, a ∈ H ↔ a ∈ insertedFor pk calls := by
    simp [hmem]
  have hmin : minSpansOf (insertedFor pk calls) = minSpansOf H := by
    funext e
    simp [minSpansOf, hH]
  have hmax : maxSpansOf (insertedFor pk calls) = maxSpansOf H := by
    funext e
    simp [maxSpansOf, hH]
  rw [hmin, hmax]
  simp only [← hH]
  refine ⟨fun e => ⟨?_, ?_, ?_, ?_⟩, fun att => ⟨h.surrounding_iff att, h.surrounded_iff⟩⟩
  · exact (h.exact.minSpan e).eq_none_iff
  · exact (h.exact.minSpan e).eq_some_iff
  · exact (h.exact.maxSpan e).eq_none_iff
  · exact (h.exact.maxSpan e).eq_some_iff

def threeInsertions : List (BLSPubkey × Att) :=
  [(Vector.replicate 48 0, ⟨4, 6⟩), (Vector.replicate 48 0, ⟨2, 5⟩), (Vector.replicate 48 0, ⟨3, 6⟩)]

theorem insertAll_spans_three :
    let db := ((({} : MinMaxSurround).insertAll threeInsertions).on Db.empty).2
    db.minSpanAt (Vector.replicate 48 0) 1 = some 4 ∧
      IsLeast (minSpansOf (insertedFor (Vector.replicate 48 0) threeInsertions) 1) 4 := by
  intro db
  have hspan : db.minSpanAt (Vector.replicate 48 0) 1 = some 4 := rfl
  have hspans := (insertAll_spans threeInsertions (by decide) db rfl (Vector.replicate 48 0)).1 1
  exact ⟨hspan, (hspans.2.1 4).1 hspan⟩

end Lodestar.Validator
