import Lodestar.Lib.Tiles
import Lodestar.StateTransition.Committees
import Lodestar.StateTransition.EpochCache
/-!
# CommitteeAssignments — every active validator has one place in the committees of an epoch

The bounds of the committees are divisions of the number of active validators, and the end of one is the start of the next.  So the
committees in order are the shuffled list (`computeEpochShuffling_tiles`), also where there are fewer validators than committees.
The duties of an epoch are read off the same grid: `getCommitteeAssignments_spec`.
-/
namespace Lodestar.StateTransition

open Lib

variable {P : Preset} {env : Env P} {st : BeaconState P} {epoch : Nat} {shuffling : EpochShuffling} {ctx : EpochContext}

structure AttesterDuty where
  validatorIndex : Nat
  committeeIndex : Nat
  committeeLength : Nat
  committeesAtSlot : Nat
  validatorCommitteeIndex : Nat
  slot : Nat
deriving DecidableEq

def dutiesOfCommittee (requested : List Nat) (slot committeesAtSlot : Nat) (entry : List Nat × Nat) : List AttesterDuty :=
  (entry.1.zipIdx.filter fun member => requested.contains member.1).map fun member => {
    validatorIndex := member.1
    committeeIndex := entry.2
    committeeLength := entry.1.length
    committeesAtSlot := committeesAtSlot
    validatorCommitteeIndex := member.2
    slot := slot }

def EpochContext.getCommitteeAssignments (P : Preset) (epochCtx : EpochContext) (epoch : Nat) (requestedValidatorIndices : List Nat) :
    Except String (List AttesterDuty) := do
  let shuffling ← epochCtx.getShufflingAtEpoch epoch
  let duties ← (List.range P.SLOTS_PER_EPOCH).mapM fun epochSlot => do
    let slotCommittees ← getAt typeError shuffling.committees epochSlot
    pure (slotCommittees.zipIdx.flatMap
      (dutiesOfCommittee requestedValidatorIndices (epoch * P.SLOTS_PER_EPOCH + epochSlot) slotCommittees.length))
  pure duties.flatten

/-! ## The committees tile the shuffled list -/

theorem committeeBound_monotone (activeValidatorCount committeeCount : Nat) :
    Monotone fun index => activeValidatorCount * index / committeeCount :=
  fun _ _ h => Nat.div_le_div_right (Nat.mul_le_mul_left _ h)

section

variable (shuffled : List Nat) (activeValidatorCount committeeCount index : Nat)

def stretch : List Nat :=
  (shuffled.take (activeValidatorCount * (index + 1) / committeeCount)).drop (activeValidatorCount * index / committeeCount)

theorem sliceCommittee_eq : sliceCommittee shuffled activeValidatorCount committeeCount index =
      .ok (stretch shuffled activeValidatorCount committeeCount index) := by
  have hbounds := committeeBound_monotone activeValidatorCount committeeCount (Nat.le_succ index)
  exact bind_eq_ok.2 ⟨(), check_eq_ok.2 (decide_eq_true hbounds), rfl⟩

end

theorem mapM_sliceCommittee (shuffled : List Nat) (activeValidatorCount committeeCount committeesPerSlot slots : Nat) :
    ((List.range slots).mapM fun slot => (List.range committeesPerSlot).mapM fun committeeIndex =>
      sliceCommittee shuffled activeValidatorCount committeeCount (slot * committeesPerSlot + committeeIndex)) =
      .ok ((List.range slots).map fun slot => (List.range committeesPerSlot).map fun committeeIndex =>
        stretch shuffled activeValidatorCount committeeCount (slot * committeesPerSlot + committeeIndex)) :=
  mapM_eq_map _ fun _ _ => mapM_eq_map _ fun _ _ => sliceCommittee_eq _ _ _ _

/-- What `computeEpochShuffling` makes of a shuffled list. -/
structure Tiles (P : Preset) (shuffling : EpochShuffling) : Prop where
  permuted : shuffling.shuffling.Perm shuffling.activeIndices
  slots : shuffling.committees.length = P.SLOTS_PER_EPOCH
  perSlot : ∀ slotCommittees ∈ shuffling.committees, slotCommittees.length = shuffling.committeesPerSlot
  tiles : shuffling.committees.flatten.flatten = shuffling.shuffling

theorem computeEpochShuffling_tiles {bounded : List (Nat × ℕ∞ × ℕ∞)}
    (h : computeEpochShuffling env st bounded epoch = .ok shuffling) :
    Tiles P shuffling := by
  unfold computeEpochShuffling at h
  simp only [bind_eq_ok, pure_eq_ok] at h
  obtain ⟨shuffled, hshuffled, committees, hcommittees, rfl⟩ := h
  generalize (bounded.filter fun entry =>
    decide (entry.2.1 ≤ (epoch : ℕ∞)) && decide ((epoch : ℕ∞) < entry.2.2)).map (·.1) = activeIndices at hshuffled hcommittees ⊢
  have hperm := unshuffleList_perm hshuffled
  have hpos : 0 < computeCommitteeCount P activeIndices.length := Nat.lt_of_lt_of_le Nat.zero_lt_one (Nat.le_max_left _ _)
  generalize computeCommitteeCount P activeIndices.length = committeesPerSlot at hcommittees hpos ⊢
  obtain rfl : _ = committees := Except.ok.inj ((mapM_sliceCommittee shuffled _ _ committeesPerSlot _).symm.trans hcommittees)
  refine ⟨hperm, by simp, ?_, ?_⟩
  · intro slotCommittees hslot
    obtain ⟨slot, -, rfl⟩ := List.mem_map.1 hslot
    simp
  · have hrows : ∀ f : Nat → List Nat, ((List.range P.SLOTS_PER_EPOCH).map fun slot =>
        (List.range committeesPerSlot).map fun committeeIndex => f (slot * committeesPerSlot + committeeIndex)).flatten.flatten =
        (List.range (P.SLOTS_PER_EPOCH * committeesPerSlot)).flatMap f := by
      intro f
      rw [← flatMap_grid f, List.flatten_flatten, List.map_map]
      rfl
    have htiles := flatMap_stretches shuffled (committeeBound_monotone activeIndices.length (committeesPerSlot * P.SLOTS_PER_EPOCH))
      (by simp) (P.SLOTS_PER_EPOCH * committeesPerSlot)
    rw [hrows]
    refine htiles.trans ?_
    have hcount : 0 < committeesPerSlot * P.SLOTS_PER_EPOCH := Nat.mul_pos hpos P.slotsPerEpoch_pos
    rw [Nat.mul_comm P.SLOTS_PER_EPOCH, Nat.mul_div_cancel _ hcount, ← hperm.length_eq, List.take_length]

theorem computeEpochShuffling_returns (env : Env P) (st : BeaconState P) (epoch : Nat)
    (hfits : (getActiveValidatorIndices st epoch).length < 2 ^ 32) :
    ∃ shuffling, computeEpochShuffling env st (indicesBounded st.validators) epoch = .ok shuffling := by
  obtain ⟨shuffled, hshuffled⟩ : ∃ shuffled, unshuffleList env (getActiveValidatorIndices st epoch)
      (getSeed env st epoch DOMAIN_BEACON_ATTESTER) = .ok shuffled := by
    unfold unshuffleList innerShuffleList
    by_cases hlong : (getActiveValidatorIndices st epoch).length ≤ 1
    · rw [if_pos hlong]
      exact ⟨_, rfl⟩
    · rw [if_neg hlong]
      by_cases hrounds : P.SHUFFLE_ROUND_COUNT = 0
      · rw [if_pos hrounds]
        exact ⟨_, rfl⟩
      · rw [if_neg hrounds]
        exact ⟨_, bind_eq_ok.2 ⟨(), check_eq_ok.2 (decide_eq_true (Nat.mod_eq_of_lt hfits)), rfl⟩⟩
  unfold getActiveValidatorIndices at hshuffled
  rw [← activeIndices_eq] at hshuffled
  unfold computeEpochShuffling
  simp only [bind_eq_ok, pure_eq_ok]
  exact ⟨_, shuffled, hshuffled, _, mapM_sliceCommittee _ _ _ _ _, rfl⟩

/-! ## One place for every validator -/

def committeeAt (shuffling : EpochShuffling) (place : Nat × Nat) : Option (List Nat) :=
  (shuffling.committees[place.1]?).bind fun slotCommittees => slotCommittees[place.2]?

theorem Tiles.mem_iff (htiles : Tiles P shuffling) {i : Nat} : i ∈ shuffling.activeIndices ↔
    ∃ place committee, committeeAt shuffling place = some committee ∧ i ∈ committee := by
  rw [← htiles.permuted.mem_iff, ← htiles.tiles]
  constructor
  · intro hi
    obtain ⟨committee, hcommittee, hi⟩ := List.mem_flatten.1 hi
    obtain ⟨slotCommittees, hslot, hcommittee⟩ := List.mem_flatten.1 hcommittee
    obtain ⟨slot, hslot⟩ := List.getElem?_of_mem hslot
    obtain ⟨index, hindex⟩ := List.getElem?_of_mem hcommittee
    exact ⟨(slot, index), committee, by simp [committeeAt, hslot, hindex], hi⟩
  · rintro ⟨⟨slot, index⟩, committee, hplace, hi⟩
    obtain ⟨slotCommittees, hslot, hindex⟩ := Option.bind_eq_some_iff.1 hplace
    exact List.mem_flatten.2 ⟨committee,
      List.mem_flatten.2 ⟨slotCommittees, List.mem_of_getElem? hslot, List.mem_of_getElem? hindex⟩, hi⟩

theorem Tiles.existsUnique_place (htiles : Tiles P shuffling) (hnodup : shuffling.activeIndices.Nodup) {i : Nat}
    (hi : i ∈ shuffling.activeIndices) : ∃! place, ∃ committee, committeeAt shuffling place = some committee ∧ i ∈ committee := by
  obtain ⟨place, committee, hplace, hmem⟩ := htiles.mem_iff.1 hi
  have hflat : shuffling.committees.flatten.flatten.Nodup := htiles.tiles ▸ (htiles.permuted.nodup_iff.2 hnodup)
  have hrows : (shuffling.committees.map List.flatten).flatten.Nodup := by
    rw [← List.flatten_flatten]
    exact hflat
  refine ⟨place, ⟨committee, hplace, hmem⟩, ?_⟩
  rintro ⟨slot', index'⟩ ⟨committee', hplace', hmem'⟩
  obtain ⟨slot, index⟩ := place
  obtain ⟨slotCommittees, hslot, hindex⟩ := Option.bind_eq_some_iff.1 hplace
  obtain ⟨slotCommittees', hslot', hindex'⟩ := Option.bind_eq_some_iff.1 hplace'
  dsimp only at hslot hindex hslot' hindex'
  have hsame : slot = slot' := index_unique_of_nodup_flatten hrows (by rw [List.getElem?_map, hslot]; rfl)
    (by rw [List.getElem?_map, hslot']; rfl) (List.mem_flatten.2 ⟨committee, List.mem_of_getElem? hindex, hmem⟩)
    (List.mem_flatten.2 ⟨committee', List.mem_of_getElem? hindex', hmem'⟩)
  subst hsame
  rw [hslot, Option.some.injEq] at hslot'
  subst hslot'
  have hrow : slotCommittees.flatten.Nodup := (List.nodup_flatten.1 hrows).1 _
    (List.mem_map.2 ⟨slotCommittees, List.mem_of_getElem? hslot, rfl⟩)
  rw [index_unique_of_nodup_flatten hrow hindex hindex' hmem hmem']

/-! ## The duties -/

theorem map_zipIdx_filter (p : Nat → Bool) (l : List Nat) :
    ((l.zipIdx.filter fun member => p member.1).map (·.1)) = l.filter p := by
  have hfst : l.zipIdx.map (·.1) = l := List.zipIdx_map_fst 0 l
  have hmap : ((l.zipIdx.filter (p ∘ (·.1))).map (·.1)) = (l.zipIdx.map (·.1)).filter p := List.filter_map.symm
  rw [hfst] at hmap
  exact hmap

theorem flatMap_zipIdx {α β : Type} (f : α → List β) (l : List α) : l.zipIdx.flatMap (fun entry => f entry.1) = l.flatMap f := by
  have hfst : l.zipIdx.map (·.1) = l := List.zipIdx_map_fst 0 l
  calc l.zipIdx.flatMap (fun entry => f entry.1) = (l.zipIdx.map (·.1)).flatMap f := (List.flatMap_map ..).symm
    _ = l.flatMap f := by rw [hfst]

theorem Tiles.getCommitteeAssignments_eq (htiles : Tiles P shuffling) (hctx : ctx.getShufflingAtEpoch epoch = .ok shuffling)
    (requested : List Nat) : ctx.getCommitteeAssignments P epoch requested =
      .ok (shuffling.committees.zipIdx.flatMap fun entry => entry.1.zipIdx.flatMap
        (dutiesOfCommittee requested (epoch * P.SLOTS_PER_EPOCH + entry.2) entry.1.length)) := by
  have hslots : (List.range P.SLOTS_PER_EPOCH).mapM (fun epochSlot => do
      let slotCommittees ← getAt typeError shuffling.committees epochSlot
      pure (slotCommittees.zipIdx.flatMap
        (dutiesOfCommittee requested (epoch * P.SLOTS_PER_EPOCH + epochSlot) slotCommittees.length))) =
      .ok ((List.range P.SLOTS_PER_EPOCH).map fun epochSlot => (shuffling.committees.getD epochSlot []).zipIdx.flatMap
        (dutiesOfCommittee requested (epoch * P.SLOTS_PER_EPOCH + epochSlot) (shuffling.committees.getD epochSlot []).length)) := by
    apply mapM_eq_map
    intro epochSlot hslot
    have hlt : epochSlot < shuffling.committees.length := htiles.slots ▸ List.mem_range.1 hslot
    have hread : getAt typeError shuffling.committees epochSlot = .ok shuffling.committees[epochSlot] :=
      getAt_eq_ok.2 (List.getElem?_eq_getElem hlt)
    rw [hread, List.getD_eq_getElem _ _ hlt]
    rfl
  unfold EpochContext.getCommitteeAssignments
  rw [hctx]
  refine (congrArg (fun x : Except String (List (List AttesterDuty)) => x.bind fun duties => pure duties.flatten) hslots).trans ?_
  refine congrArg Except.ok ?_
  rw [← htiles.slots, ← List.flatMap_def]
  have hindexed : shuffling.committees.zipIdx = (List.range shuffling.committees.length).map fun epochSlot =>
      (shuffling.committees.getD epochSlot [], epochSlot) := by
    apply List.ext_getElem?
    intro i
    rw [List.getElem?_zipIdx, List.getElem?_map]
    by_cases hi : i < shuffling.committees.length
    · simp [hi]
    · have hle := Nat.le_of_not_lt hi
      rw [List.getElem?_eq_none hle, List.getElem?_eq_none (by simpa using hle)]
      rfl
  rw [hindexed, List.flatMap_map]

theorem dutiesOfCommittee_indices (requested : List Nat) (slot committeesAtSlot : Nat) (entry : List Nat × Nat) :
    (dutiesOfCommittee requested slot committeesAtSlot entry).map (·.validatorIndex) = entry.1.filter (requested.contains ·) := by
  unfold dutiesOfCommittee
  rw [List.map_map]
  exact map_zipIdx_filter (requested.contains ·) entry.1

theorem duties_indices (requested : List Nat) (slotOf : Nat → Nat) (committees : List (List (List Nat))) :
    (committees.zipIdx.flatMap fun entry => entry.1.zipIdx.flatMap
      (dutiesOfCommittee requested (slotOf entry.2) entry.1.length)).map (·.validatorIndex) =
      committees.flatten.flatten.filter (requested.contains ·) := by
  have hslot : ∀ entry : List (List Nat) × Nat, (entry.1.zipIdx.flatMap
      (dutiesOfCommittee requested (slotOf entry.2) entry.1.length)).map (·.validatorIndex) =
      entry.1.flatten.filter (requested.contains ·) := by
    intro entry
    rw [List.map_flatMap, List.filter_flatten, ← List.flatMap_def,
      ← flatMap_zipIdx (fun committee => committee.filter (requested.contains ·)) entry.1]
    congr 1
    funext committee
    exact dutiesOfCommittee_indices ..
  rw [List.map_flatMap, List.flatten_flatten, List.filter_flatten, List.map_map, ← List.flatMap_def,
    ← flatMap_zipIdx (List.filter (requested.contains ·) ∘ List.flatten) committees]
  congr 1
  funext entry
  exact hslot entry

theorem duty_place {requested : List Nat} {slotOf : Nat → Nat} {duty : AttesterDuty} (h : duty ∈ shuffling.committees.zipIdx.flatMap
    fun entry => entry.1.zipIdx.flatMap (dutiesOfCommittee requested (slotOf entry.2) entry.1.length)) :
    ∃ slot slotCommittees committee, shuffling.committees[slot]? = some slotCommittees ∧
      slotCommittees[duty.committeeIndex]? = some committee ∧ committee[duty.validatorCommitteeIndex]? = some duty.validatorIndex ∧
      duty.slot = slotOf slot ∧ duty.committeeLength = committee.length ∧ duty.committeesAtSlot = slotCommittees.length ∧
      duty.validatorIndex ∈ requested := by
  obtain ⟨⟨slotCommittees, slot⟩, hslot, h⟩ := List.mem_flatMap.1 h
  obtain ⟨⟨committee, index⟩, hindex, h⟩ := List.mem_flatMap.1 h
  unfold dutiesOfCommittee at h
  simp only [List.mem_map, List.mem_filter, List.contains_iff_mem] at h
  obtain ⟨⟨i, place⟩, ⟨hmember, hrequested⟩, rfl⟩ := h
  exact ⟨slot, slotCommittees, committee, List.mem_zipIdx_iff_getElem?.1 hslot, List.mem_zipIdx_iff_getElem?.1 hindex,
    List.mem_zipIdx_iff_getElem?.1 hmember, rfl, rfl, rfl, hrequested⟩

theorem epoch_of_slot (epoch : Nat) {slot : Nat} (hslot : slot < P.SLOTS_PER_EPOCH) :
    computeEpochAtSlot P (epoch * P.SLOTS_PER_EPOCH + slot) = epoch ∧
      (epoch * P.SLOTS_PER_EPOCH + slot) % P.SLOTS_PER_EPOCH = slot := by
  unfold computeEpochAtSlot
  constructor
  · rw [Nat.mul_comm, Nat.mul_add_div P.slotsPerEpoch_pos, Nat.div_eq_of_lt hslot, Nat.add_zero]
  · rw [Nat.mul_comm, Nat.mul_add_mod, Nat.mod_eq_of_lt hslot]

theorem Tiles.getCommitteeAssignments_spec (htiles : Tiles P shuffling) (hnodup : shuffling.activeIndices.Nodup)
    (hctx : ctx.getShufflingAtEpoch epoch = .ok shuffling) (requested : List Nat) :
    ∃ duties, ctx.getCommitteeAssignments P epoch requested = .ok duties ∧
      (∀ i ∈ requested, i ∈ shuffling.activeIndices → ∃ duty committee, duties.filter (fun duty => duty.validatorIndex = i) = [duty] ∧
        computeEpochAtSlot P duty.slot = epoch ∧ ctx.getBeaconCommittee P duty.slot duty.committeeIndex = .ok committee ∧
        committee.length = duty.committeeLength ∧ committee[duty.validatorCommitteeIndex]? = some i ∧
        ctx.getCommitteeCountPerSlot epoch = .ok duty.committeesAtSlot) ∧
      ∀ duty ∈ duties, duty.validatorIndex ∈ requested ∧ duty.validatorIndex ∈ shuffling.activeIndices := by
  refine ⟨_, htiles.getCommitteeAssignments_eq hctx requested, ?_, ?_⟩
  · intro i hrequested hactive
    have hindices := duties_indices requested (epoch * P.SLOTS_PER_EPOCH + ·) shuffling.committees
    have hshuffled : shuffling.shuffling.Nodup := htiles.permuted.nodup_iff.2 hnodup
    rw [htiles.tiles] at hindices
    obtain ⟨duty, hduty, hi, hone⟩ := filter_key_eq_singleton (b := i) (hindices ▸ hshuffled.filter _) (by
      rw [hindices, List.mem_filter]
      exact ⟨htiles.permuted.mem_iff.2 hactive, by simpa using hrequested⟩)
    obtain ⟨slot, slotCommittees, committee, hslot, hindex, hmember, hdutySlot, hlength, hcount, -⟩ := duty_place hduty
    have hslot_lt : slot < P.SLOTS_PER_EPOCH := htiles.slots ▸ (List.getElem?_eq_some_iff.1 hslot).1
    obtain ⟨hepoch, hplace⟩ := epoch_of_slot epoch hslot_lt
    refine ⟨duty, committee, hone, hdutySlot ▸ hepoch, ?_, hlength.symm, hi ▸ hmember, ?_⟩
    · unfold EpochContext.getBeaconCommittee
      simp only [bind_eq_ok, getAt_eq_ok]
      rw [hdutySlot, hepoch]
      exact ⟨shuffling, hctx, slotCommittees, by rw [hplace, hslot], hindex⟩
    · unfold EpochContext.getCommitteeCountPerSlot
      rw [hctx, hcount, htiles.perSlot slotCommittees (List.mem_of_getElem? hslot)]
      rfl
  · intro duty hduty
    obtain ⟨slot, slotCommittees, committee, hslot, hindex, hmember, -, -, -, hrequested⟩ := duty_place hduty
    refine ⟨hrequested, htiles.mem_iff.2 ⟨(slot, duty.committeeIndex), committee, ?_, List.mem_of_getElem? hmember⟩⟩
    simp [committeeAt, hslot, hindex]

/-- **The committees of an epoch** in order are the shuffled active validators, each active validator is in exactly one of them, and
the duties that are handed out are the places of the requested ones. -/
theorem computeEpochShuffling_covers (env : Env P) (st : BeaconState P) (epoch : Nat) :
    ((getActiveValidatorIndices st epoch).length < 2 ^ 32 →
      ∃ shuffling, computeEpochShuffling env st (indicesBounded st.validators) epoch = .ok shuffling) ∧
    ∀ shuffling, computeEpochShuffling env st (indicesBounded st.validators) epoch = .ok shuffling →
      unshuffleList env (getActiveValidatorIndices st epoch) (getSeed env st epoch DOMAIN_BEACON_ATTESTER) = .ok shuffling.shuffling ∧
      shuffling.committees.flatten.flatten = shuffling.shuffling ∧
      (∀ i ∈ getActiveValidatorIndices st epoch,
        ∃! place, ∃ committee, committeeAt shuffling place = some committee ∧ i ∈ committee) ∧
      ∀ (ctx : EpochContext), ctx.getShufflingAtEpoch epoch = .ok shuffling → ∀ requested : List Nat,
        ∃ duties, ctx.getCommitteeAssignments P epoch requested = .ok duties ∧
          (∀ i ∈ requested, i ∈ getActiveValidatorIndices st epoch → ∃ duty committee,
            duties.filter (fun duty => duty.validatorIndex = i) = [duty] ∧ computeEpochAtSlot P duty.slot = epoch ∧
            ctx.getBeaconCommittee P duty.slot duty.committeeIndex = .ok committee ∧ committee.length = duty.committeeLength ∧
            committee[duty.validatorCommitteeIndex]? = some i ∧ ctx.getCommitteeCountPerSlot epoch = .ok duty.committeesAtSlot) ∧
          ∀ duty ∈ duties, duty.validatorIndex ∈ requested ∧ duty.validatorIndex ∈ getActiveValidatorIndices st epoch := by
  refine ⟨computeEpochShuffling_returns env st epoch, fun shuffling h => ?_⟩
  have htiles := computeEpochShuffling_tiles h
  have hactive : shuffling.activeIndices = getActiveValidatorIndices st epoch ∧
      unshuffleList env (getActiveValidatorIndices st epoch) (getSeed env st epoch DOMAIN_BEACON_ATTESTER) = .ok shuffling.shuffling := by
    unfold computeEpochShuffling at h
    simp only [bind_eq_ok, pure_eq_ok] at h
    obtain ⟨shuffled, hshuffled, committees, -, rfl⟩ := h
    rw [activeIndices_eq] at hshuffled
    exact ⟨activeIndices_eq _ _, hshuffled⟩
  have hnodup : shuffling.activeIndices.Nodup := hactive.1 ▸ indicesWhere_nodup _ _
  refine ⟨hactive.2, htiles.tiles, fun i hi => ?_, fun ctx hctx requested => ?_⟩
  · exact htiles.existsUnique_place hnodup (hactive.1 ▸ hi)
  · exact hactive.1 ▸ htiles.getCommitteeAssignments_spec hnodup hctx requested

/-- Two active validators in an epoch of eight committees. -/
theorem computeEpochShuffling_covers_two : ∃ shuffling,
    computeEpochShuffling (plainEnv minimal) awaitingDeposit (indicesBounded awaitingDeposit.validators) 1 = .ok shuffling ∧
    shuffling.committees.flatten.flatten = shuffling.shuffling := by
  obtain ⟨hreturns, hcovers⟩ := computeEpochShuffling_covers (plainEnv minimal) awaitingDeposit 1
  obtain ⟨shuffling, h⟩ := hreturns (by decide +kernel)
  exact ⟨shuffling, h, (hcovers shuffling h).2.1⟩

end Lodestar.StateTransition
