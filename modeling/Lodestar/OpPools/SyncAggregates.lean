import Mathlib.Data.Finset.Card
import Mathlib.Data.Finset.Disjoint
import Mathlib.Data.List.TakeWhile
import Lodestar.Lib.Updates
import Lodestar.OpPools.SyncContributionAndProofPool
/-!
# SyncAggregates — whose signatures a sync aggregate carries

An aggregate is exact when its signature is of the validators at its set positions, each once.  Adding an honest
contribution keeps an aggregate exact, but for one kind: the loop over its bits returns at a participant that is known,
with the bits before it set and the signature left out (`aggregateContributionInto_exact_iff`).
-/
namespace Lodestar.OpPools

open Lib

variable {V : Type}

def participants (P : Preset) (contribution : SyncCommitteeContribution V) : List Nat :=
  contribution.aggregationBits.zipIdx.filterMap fun (participated, index) =>
    if participated then some (indexOffset P contribution + index) else none

section

variable (committee : Nat → Nat → V)

def sign (slot : Nat) (root : Root) (position : Nat) : V × Nat × Root :=
  (committee slot position, slot, root)

/-- The signature of an honest sender: the aggregate over the participants it names. -/
def Honest (P : Preset) (contribution : SyncCommitteeContribution V) : Prop :=
  contribution.signature =
    ((participants P contribution : List Nat) : Multiset Nat).map
      (sign committee contribution.slot contribution.beaconBlockRoot)

def Exact (slot : Nat) (root : Root) (bits : List Bool) (signature : Signature V) : Prop :=
  signature = (Bits.ones bits).val.map (sign committee slot root)

end

/-! ## The loops over the bits -/

theorem nodup_participants (P : Preset) (contribution : SyncCommitteeContribution V) : (participants P contribution).Nodup := by
  have hindices := nodup_map_snd_zipIdx contribution.aggregationBits 0
  rw [List.Nodup, List.pairwise_map] at hindices
  unfold participants
  rw [List.Nodup, List.pairwise_filterMap]
  refine hindices.imp fun {a b} hne x hx y hy hxy => hne ?_
  obtain ⟨pa, ia⟩ := a
  obtain ⟨pb, ib⟩ := b
  cases pa <;> cases pb <;> simp at hx hy
  omega

theorem markParticipants_eq (offset : Nat) : ∀ (entries : List (Bool × Nat)) (bits : List Bool),
    markParticipants offset bits entries = Bits.mark bits (entries.filterMap fun (participated, index) =>
      if participated then some (offset + index) else none)
  | [], _ => rfl
  | (false, index) :: entries, bits => by
    exact markParticipants_eq offset entries bits
  | (true, index) :: entries, bits => by
    show (if bits[offset + index]? = some true then (bits, false)
      else markParticipants offset (Bits.set bits (offset + index)) entries) = _
    rw [markParticipants_eq offset entries]
    rfl

theorem foldl_participants (offset : Nat) : ∀ (entries : List (Bool × Nat)) (bits : List Bool),
    entries.foldl (fun bits (participated, index) => if participated then Bits.set bits (offset + index) else bits) bits =
      (entries.filterMap fun (participated, index) => if participated then some (offset + index) else none).foldl
        Bits.set bits
  | [], _ => rfl
  | (false, _) :: entries, bits => foldl_participants offset entries bits
  | (true, index) :: entries, bits => foldl_participants offset entries (Bits.set bits (offset + index))

variable {committee : Nat → Nat → V} {P : Preset} {contribution : SyncCommitteeContribution V}

theorem contributionToAggregate_exact (h : Honest committee P contribution) :
    Exact committee contribution.slot contribution.beaconBlockRoot
      (contributionToAggregate P contribution).syncCommitteeBits
      (contributionToAggregate P contribution).syncCommitteeSignature := by
  have hones : Bits.ones (contributionToAggregate P contribution).syncCommitteeBits =
      (participants P contribution).toFinset := by
    unfold contributionToAggregate participants
    rw [foldl_participants, Bits.ones_foldl_set, Bits.ones_replicate, Finset.empty_union]
  unfold Exact
  rw [hones, List.toFinset_val, (nodup_participants P contribution).dedup]
  exact h

/-! ## One contribution -/

/-- The first participant of the contribution is new to the aggregate and a later one is known. -/
def KnownAfterNew (P : Preset) (bits : List Bool) (contribution : SyncCommitteeContribution V) : Prop :=
  (∃ first, (participants P contribution).head? = some first ∧ first ∉ Bits.ones bits) ∧
    ∃ known ∈ participants P contribution, known ∈ Bits.ones bits

variable {aggregate : SyncAggregateFast V}

theorem aggregateContributionInto_eq (P : Preset) (aggregate : SyncAggregateFast V)
    (contribution : SyncCommitteeContribution V) : (aggregateContributionInto P aggregate contribution).1 =
      { syncCommitteeBits := (Bits.mark aggregate.syncCommitteeBits (participants P contribution)).1
        syncCommitteeSignature :=
          if (Bits.mark aggregate.syncCommitteeBits (participants P contribution)).2 then
            aggregate.syncCommitteeSignature + contribution.signature
          else aggregate.syncCommitteeSignature } := by
  have hmark : markParticipants (indexOffset P contribution) aggregate.syncCommitteeBits contribution.aggregationBits.zipIdx =
      Bits.mark aggregate.syncCommitteeBits (participants P contribution) := markParticipants_eq _ _ _
  unfold aggregateContributionInto
  rw [hmark]
  rcases Bits.mark aggregate.syncCommitteeBits (participants P contribution) with ⟨bits, done⟩
  cases done <;> rfl

theorem map_sign_union_iff {slot : Nat} {root : Root} {s t : Finset Nat} :
    s.val.map (sign committee slot root) = (s ∪ t).val.map (sign committee slot root) ↔ s ∪ t = s := by
  constructor
  · intro h
    have hcard := congrArg Multiset.card h
    rw [Multiset.card_map, Multiset.card_map] at hcard
    exact (Finset.eq_of_subset_of_card_le Finset.subset_union_left hcard.ge).symm
  · intro h
    rw [h]

theorem aggregateContributionInto_exact_iff (hhonest : Honest committee P contribution)
    (hexact : Exact committee contribution.slot contribution.beaconBlockRoot aggregate.syncCommitteeBits
      aggregate.syncCommitteeSignature) :
    Exact committee contribution.slot contribution.beaconBlockRoot
        (aggregateContributionInto P aggregate contribution).1.syncCommitteeBits
        (aggregateContributionInto P aggregate contribution).1.syncCommitteeSignature ↔
      ¬ KnownAfterNew P aggregate.syncCommitteeBits contribution := by
  have hnd := nodup_participants P contribution
  have hones := Bits.ones_mark _ aggregate.syncCommitteeBits hnd
  have hdone := Bits.mark_snd _ aggregate.syncCommitteeBits hnd
  rw [aggregateContributionInto_eq]
  unfold Exact at hexact ⊢
  rw [hones, hexact]
  by_cases hnew : ∀ p ∈ participants P contribution, p ∉ Bits.ones aggregate.syncCommitteeBits
  · have hdisjoint : Disjoint (Bits.ones aggregate.syncCommitteeBits) (participants P contribution).toFinset :=
      Finset.disjoint_right.2 fun p hp => hnew p (List.mem_toFinset.1 hp)
    rw [if_pos (hdone.2 hnew), List.takeWhile_eq_self_iff.2 fun p hp => decide_eq_true (hnew p hp),
      ← Finset.disjUnion_eq_union _ _ hdisjoint, Finset.disjUnion_val, Multiset.map_add, List.toFinset_val, hnd.dedup]
    refine iff_of_true (congrArg _ hhonest) ?_
    rintro ⟨-, known, hmem, hknown⟩
    exact hnew known hmem hknown
  · have hstop : ¬ (Bits.mark aggregate.syncCommitteeBits (participants P contribution)).2 = true :=
      fun h => hnew (hdone.1 h)
    rw [if_neg hstop, map_sign_union_iff, Bits.union_takeWhile_eq_iff]
    push Not at hnew
    constructor
    · rintro hfirst ⟨⟨first, hhead, hnot⟩, -⟩
      exact hnot (hfirst first hhead)
    · intro h first hhead
      by_contra hnot
      exact h ⟨⟨first, hhead, hnot⟩, hnew⟩

/-! ## The pool -/

theorem rootHex_inj {root root' : Root} (h : rootHex root = rootHex root') : root = root' := by
  have hread := Hex.toVector_ofBytes root
  rw [show Hex.ofBytes root.toList = Hex.ofBytes root'.toList from h, Hex.toVector_ofBytes] at hread
  exact (Option.some.inj hread).symm

namespace SyncContributionAndProofPool

def accepts (pool : SyncContributionAndProofPool V) (contribution : SyncCommitteeContribution V) : Bool :=
  decide (pool.lowestPermissibleSlot ≤ contribution.slot) &&
    decide (((pool.aggregateByRootBySlot.get? contribution.slot).getD .empty).size < MAX_ITEMS_PER_SLOT)

section

variable (pool : SyncContributionAndProofPool V)

theorem lookup_set (slot slot' : Nat) (hex : String) (byRoot : OrderedMap String (SyncAggregateFast V)) :
    ({ pool with aggregateByRootBySlot := pool.aggregateByRootBySlot.set slot byRoot } :
        SyncContributionAndProofPool V).lookup slot' hex =
      if slot' = slot then byRoot.get? hex else pool.lookup slot' hex := by
  unfold lookup
  rw [OrderedMap.get?_set]
  split <;> rfl

theorem get?_getD (slot : Nat) (hex : String) :
    ((pool.aggregateByRootBySlot.get? slot).getD .empty).get? hex = pool.lookup slot hex := by
  unfold lookup
  cases pool.aggregateByRootBySlot.get? slot with
  | none => rfl
  | some byRoot => rfl

theorem lookup_store (slot slot' : Nat) (hex hex' : String) (aggregate : SyncAggregateFast V) : ({ pool with
        aggregateByRootBySlot :=
          pool.aggregateByRootBySlot.set slot
            (((pool.aggregateByRootBySlot.get? slot).getD .empty).set hex aggregate) } :
        SyncContributionAndProofPool V).lookup slot' hex' =
      if slot' = slot ∧ hex' = hex then some aggregate else pool.lookup slot' hex' := by
  rw [lookup_set, OrderedMap.get?_set, get?_getD]
  by_cases hslot : slot' = slot
  · subst hslot
    simp
  · simp [hslot]

end

theorem lookup_add (P : Preset) (pool : SyncContributionAndProofPool V) (contribution : SyncCommitteeContribution V)
    (slot : Nat) (hex : String) :
    (pool.add P contribution).1.lookup slot hex =
      if pool.accepts contribution = true ∧ slot = contribution.slot ∧ hex = rootHex contribution.beaconBlockRoot then
        match pool.lookup slot hex with
        | some aggregate => some (aggregateContributionInto P aggregate contribution).1
        | none => some (contributionToAggregate P contribution)
      else pool.lookup slot hex := by
  unfold add
  dsimp only
  split
  · rename_i hlow
    have hrefused : pool.accepts contribution = false := by
      unfold accepts
      rw [decide_eq_false (Nat.not_le_of_lt hlow), Bool.false_and]
    simp [hrefused]
  · rename_i hlow
    split
    · rename_i hfull
      have hrefused : pool.accepts contribution = false := by
        unfold accepts
        rw [decide_eq_false (Nat.not_lt_of_le hfull), Bool.and_false]
      rw [lookup_set, get?_getD]
      split
      · rename_i hslot
        simp [hrefused, hslot]
      · simp [hrefused]
    · rename_i hfull
      have haccepted : pool.accepts contribution = true := by
        unfold accepts
        rw [decide_eq_true (Nat.le_of_not_lt hlow), decide_eq_true (Nat.lt_of_not_le hfull), Bool.and_true]
      simp only [haccepted, true_and]
      rw [get?_getD]
      cases hfound : pool.lookup contribution.slot (rootHex contribution.beaconBlockRoot) with
      | some aggregate =>
        rw [lookup_store]
        split
        · rename_i hhere
          rw [hhere.1, hhere.2, hfound]
        · rfl
      | none =>
        rw [lookup_store]
        split
        · rename_i hhere
          rw [hhere.1, hhere.2, hfound]
        · rfl

variable {pool : SyncContributionAndProofPool V}

theorem lookup_prune {headSlot slot : Nat} {hex : String} {aggregate : SyncAggregateFast V}
    (h : (pool.prune headSlot).lookup slot hex = some aggregate) :
    pool.lookup slot hex = some aggregate := by
  obtain ⟨byRoot, hslot, hhex⟩ := Option.bind_eq_some_iff.1 h
  unfold lookup
  rw [get?_pruneBySlot hslot]
  exact hhex

/-! ## Runs -/

def AllExact (committee : Nat → Nat → V) (P : Preset) (pool : SyncContributionAndProofPool V) : Prop :=
  ∀ (slot : Nat) (root : Root), Exact committee slot root (pool.getAggregate P slot root).syncCommitteeBits
    (pool.getAggregate P slot root).syncCommitteeSignature

theorem allExact_iff :
    AllExact committee P pool ↔ ∀ (slot : Nat) (root : Root) (aggregate : SyncAggregateFast V),
      pool.lookup slot (rootHex root) = some aggregate →
        Exact committee slot root aggregate.syncCommitteeBits aggregate.syncCommitteeSignature := by
  unfold AllExact getAggregate
  refine forall_congr' fun slot => forall_congr' fun root => ?_
  cases pool.lookup slot (rootHex root) with
  | none =>
    refine iff_of_true ?_ (fun aggregate h => by cases h)
    show (0 : Signature V) = (Bits.ones (List.replicate P.SYNC_COMMITTEE_SIZE false)).val.map _
    rw [Bits.ones_replicate]
    rfl
  | some found => exact ⟨fun h aggregate heq => Option.some.inj heq ▸ h, fun h => h found rfl⟩

/-- An accepted contribution meets an aggregate in which a later participant of it is known and its first is not. -/
def Spoils (P : Preset) (pool : SyncContributionAndProofPool V) (contribution : SyncCommitteeContribution V) : Prop :=
  pool.accepts contribution = true ∧
    ∃ aggregate, pool.lookup contribution.slot (rootHex contribution.beaconBlockRoot) = some aggregate ∧
      KnownAfterNew P aggregate.syncCommitteeBits contribution

theorem allExact_add_iff (hexact : AllExact committee P pool) (hhonest : Honest committee P contribution) :
    AllExact committee P (pool.add P contribution).1 ↔ ¬ Spoils P pool contribution := by
  rw [allExact_iff] at hexact ⊢
  constructor
  · rintro h ⟨haccepted, aggregate, hfound, hknown⟩
    have hafter := lookup_add P pool contribution contribution.slot (rootHex contribution.beaconBlockRoot)
    rw [if_pos ⟨haccepted, rfl, rfl⟩, hfound] at hafter
    have hbefore := hexact _ _ _ hfound
    exact (aggregateContributionInto_exact_iff hhonest hbefore).1 (h _ _ _ hafter) hknown
  · intro hspoils slot root aggregate hlookup
    rw [lookup_add] at hlookup
    split at hlookup
    · rename_i hhere
      obtain ⟨haccepted, rfl, hhex⟩ := hhere
      obtain rfl := rootHex_inj hhex
      cases hfound : pool.lookup contribution.slot (rootHex contribution.beaconBlockRoot) with
      | none =>
        rw [hfound] at hlookup
        cases hlookup
        exact contributionToAggregate_exact hhonest
      | some before =>
        rw [hfound] at hlookup
        cases hlookup
        refine (aggregateContributionInto_exact_iff hhonest (hexact _ _ _ hfound)).2 fun hknown => ?_
        exact hspoils ⟨haccepted, before, hfound, hknown⟩
    · exact hexact _ _ _ hlookup

theorem allExact_prune (hexact : AllExact committee P pool) (headSlot : Nat) :
    AllExact committee P (pool.prune headSlot) := by
  rw [allExact_iff] at hexact ⊢
  intro slot root aggregate hlookup
  exact hexact slot root aggregate (lookup_prune hlookup)

theorem allExact_empty : AllExact committee P ({} : SyncContributionAndProofPool V) := by
  rw [allExact_iff]
  intro slot root aggregate hlookup
  cases hlookup

theorem run_concat (calls : List (Call V)) (call : Call V) : run P (calls ++ [call]) = (run P calls).step P call := by
  unfold run
  rw [List.foldl_append]
  rfl

/-- **Every aggregate returned along a run of honest contributions is exact exactly when no contribution spoils the
aggregate it meets.** -/
theorem getAggregate_exact_iff (committee : Nat → Nat → V) (P : Preset) (calls : List (Call V))
    (hhonest : ∀ contribution, Call.add contribution ∈ calls → Honest committee P contribution) :
    (∀ before, before <+: calls → AllExact committee P (run P before)) ↔
      ∀ before contribution, before ++ [.add contribution] <+: calls → ¬ Spoils P (run P before) contribution := by
  constructor
  · intro hall before contribution hinit
    have hbefore := hall before ((List.prefix_append before _).trans hinit)
    have hafter := hall _ hinit
    rw [run_concat] at hafter
    have hmem : Call.add contribution ∈ calls := hinit.subset (by simp)
    exact (allExact_add_iff hbefore (hhonest contribution hmem)).1 hafter
  · intro hclean before
    induction before using List.reverseRecOn with
    | nil => exact fun _ => allExact_empty
    | append_singleton before call ih =>
      intro hinit
      have hbefore := ih ((List.prefix_append before _).trans hinit)
      rw [run_concat]
      cases call with
      | prune headSlot => exact allExact_prune hbefore headSlot
      | add contribution =>
        have hmem : Call.add contribution ∈ calls := hinit.subset (by simp)
        exact (allExact_add_iff hbefore (hhonest contribution hmem)).2 (hclean before contribution hinit)

/-! ## Two contributions -/

def plainContribution (subCommitteeIndex : Nat) (aggregationBits : List Bool) (positions : List Nat) :
    SyncCommitteeContribution Nat where
  slot := 1
  beaconBlockRoot := zeroRoot
  subCommitteeIndex := subCommitteeIndex
  aggregationBits := aggregationBits
  signature := (positions : Multiset Nat).map (sign (fun _ position => position) 1 zeroRoot)

/-- Contributions of two subcommittees: the aggregate has a bit and a signature of each. -/
theorem getAggregate_exact_twoSubcommittees :
    let first := plainContribution 0 [false, true, false, false, false, false, false, false] [1]
    let second := plainContribution 1 [true, false, false, false, false, false, false, false] [8]
    AllExact (fun _ position => position) minimal (run minimal [.add first, .add second]) := by
  intro first second
  refine (getAggregate_exact_iff _ _ [.add first, .add second] ?_).2 ?_ _ List.prefix_rfl
  · intro contribution hmem
    simp only [List.mem_cons, Call.add.injEq, List.not_mem_nil, or_false] at hmem
    rcases hmem with rfl | rfl
    · unfold Honest; decide
    · unfold Honest; decide
  · rintro before contribution ⟨rest, heq⟩ ⟨-, aggregate, hfound, -, known, hmem, hones⟩
    rcases before with _ | ⟨call, _ | ⟨call', before⟩⟩
    · cases hfound
    · simp only [List.cons_append, List.nil_append, List.cons.injEq, Call.add.injEq] at heq
      obtain ⟨rfl, rfl, -⟩ := heq
      have hnew : ∀ aggregate ∈ (run minimal [.add first]).lookup 1 (rootHex zeroRoot),
          ∀ known ∈ participants minimal second, known ∉ Bits.ones aggregate.syncCommitteeBits := by decide +kernel
      exact hnew aggregate hfound known hmem hones
    · have hlength := congrArg List.length heq
      simp at hlength

/-- The contribution of position 1, then one of the positions 0 and 1: the aggregate has both bits and one signature. -/
theorem getAggregate_bit_without_signature :
    let first := plainContribution 0 [false, true, false, false, false, false, false, false] [1]
    let second := plainContribution 0 [true, true, false, false, false, false, false, false] [0, 1]
    Honest (fun _ position => position) minimal first ∧ Honest (fun _ position => position) minimal second ∧
      ¬ AllExact (fun _ position => position) minimal (run minimal [.add first, .add second]) := by
  refine ⟨by unfold Honest; decide, by unfold Honest; decide, fun h => ?_⟩
  have hexact := h 1 zeroRoot
  revert hexact
  unfold Exact
  decide +kernel

end SyncContributionAndProofPool

end Lodestar.OpPools
