import Mathlib.Data.List.Chain
import Lodestar.Lib.OrderedMap
import Lodestar.Validator.Clock
/-!
# BlockDuties — whom the validator lets propose, and how often

In each slot the service names the proposers it has stored for the slot, downloads the duties of the epoch, and names those that are
new.  The clock awaits a task before it starts the next one; where its rounds are punctual, no proposer is named twice for a slot and
none is missed: `createAndPublishBlock_once`.
-/
namespace Lodestar.Validator

open Lib

/-- Only retain `HISTORICAL_DUTIES_EPOCHS` duties prior to the current epoch -/
def HISTORICAL_DUTIES_EPOCHS : Int := 2

/-- `computeEpochAtSlot`, before genesis too. -/
def epochAt (P : Preset) (slot : Int) : Int := slot / P.SLOTS_PER_EPOCH

structure ProposerDuty where
  slot : Nat
  validatorIndex : Nat
  pubkey : BLSPubkey

structure BlockDutyAtEpoch where
  dependentRoot : Root
  data : List ProposerDuty

def differenceHex (prev next : List BLSPubkey) : List BLSPubkey := next.filter fun item => item ∉ prev

structure BlockDutiesService where
  proposers : OrderedMap Int BlockDutyAtEpoch := .empty

/-- The calls of `createAndPublishBlock` it makes. -/
def notifyBlockProductionFn (slot : Int) (proposers : List BLSPubkey) : List (BLSPubkey × Int) :=
  if slot ≤ StateTransition.GENESIS_SLOT then [] else proposers.map fun pubkey => (pubkey, slot)

namespace BlockDutiesService

def GENESIS_EPOCH : Int := 0

variable {ε : Type} (P : Preset) (votingPubkeys : List BLSPubkey) (service : BlockDutiesService)

/-- A pseudo-HashSet. -/
def addPublicKeys (publicKeys : OrderedMap BLSPubkey BLSPubkey) (pubkeys : List BLSPubkey) : OrderedMap BLSPubkey BLSPubkey :=
  pubkeys.foldl (fun publicKeys pubkey => publicKeys.set pubkey pubkey) publicKeys

def getblockProposersAtSlot (slot : Int) : List BLSPubkey :=
  match service.proposers.get? (epochAt P slot) with
  | some dutyAtEpoch =>
    let proposers := dutyAtEpoch.data.filter fun proposer => proposer.slot = slot
    (addPublicKeys .empty (proposers.map ProposerDuty.pubkey)).entries.map (·.2)
  | none => []

/-- `response` is what `getProposerDuties` of the beacon node brings or throws. -/
def pollBeaconProposers (epoch : Int) (response : Except ε BlockDutyAtEpoch) : Except ε BlockDutiesService :=
  -- Only download duties and push out additional block production events if we have some validators.
  if votingPubkeys = [] then .ok service
  else response.map fun proposerDuties =>
    let relevantDuties := proposerDuties.data.filter fun duty => duty.pubkey ∈ votingPubkeys
    { proposers := service.proposers.set epoch { proposerDuties with data := relevantDuties } }

def notify (slot : Int) (proposers : List BLSPubkey) : List (BLSPubkey × Int) :=
  if 0 < proposers.length then notifyBlockProductionFn slot proposers else []

def pollBeaconProposersAndNotify (currentSlot : Int) (response : Except ε BlockDutyAtEpoch) :
    List (BLSPubkey × Int) × Except ε BlockDutiesService :=
  let initialBlockProposers := service.getblockProposersAtSlot P currentSlot
  match service.pollBeaconProposers votingPubkeys (epochAt P currentSlot) response with
  | .error e => (notify currentSlot initialBlockProposers, .error e)
  | .ok polled =>
    let newBlockProducers := polled.getblockProposersAtSlot P currentSlot
    let additionalBlockProducers := differenceHex initialBlockProposers newBlockProducers
    (notify currentSlot initialBlockProposers ++ notify currentSlot additionalBlockProducers, .ok polled)

def pruneOldDuties (currentEpoch : Int) : BlockDutiesService :=
  let old := (service.proposers.entries.map (·.1)).filter fun epoch => epoch + HISTORICAL_DUTIES_EPOCHS < currentEpoch
  { proposers := old.foldl OrderedMap.delete service.proposers }

def runBlockDutiesTask (slot : Int) (response : Except ε BlockDutyAtEpoch) : List (BLSPubkey × Int) × BlockDutiesService :=
  let task :=
    if slot < 0 then
      -- Before genesis, fetch the genesis duties but don't notify block production
      ([], if service.proposers.has GENESIS_EPOCH then .ok service
        else service.pollBeaconProposers votingPubkeys GENESIS_EPOCH response)
    else service.pollBeaconProposersAndNotify P votingPubkeys slot response
  (task.1, (task.2.toOption.getD service).pruneOldDuties (epochAt P slot))

/-- The blocks that are asked for when a task runs for each slot, one after the other. -/
def blockCalls : BlockDutiesService → List (Int × Except ε BlockDutyAtEpoch) → List (BLSPubkey × Int)
  | _, [] => []
  | service, (slot, response) :: tasks =>
    (service.runBlockDutiesTask P votingPubkeys slot response).1 ++
      blockCalls (service.runBlockDutiesTask P votingPubkeys slot response).2 tasks

variable {P votingPubkeys service} {slot : Int} {response : Except ε BlockDutyAtEpoch}

/-! ## One task -/

theorem addPublicKeys_spec : ∀ (pubkeys : List BLSPubkey) (publicKeys : OrderedMap BLSPubkey BLSPubkey),
    (∀ e ∈ publicKeys.entries, e.1 = e.2) → (∀ e ∈ (addPublicKeys publicKeys pubkeys).entries, e.1 = e.2) ∧
      ∀ pubkey, pubkey ∈ (addPublicKeys publicKeys pubkeys).entries.map (·.1) ↔
        pubkey ∈ publicKeys.entries.map (·.1) ∨ pubkey ∈ pubkeys
  | [], _, h => ⟨h, fun _ => by simp [addPublicKeys]⟩
  | pubkey :: pubkeys, publicKeys, h => by
    obtain ⟨hsame, hmem⟩ := addPublicKeys_spec pubkeys (publicKeys.set pubkey pubkey) fun e he => by
      rcases OrderedMap.mem_set he with rfl | he
      · rfl
      · exact h e he
    refine ⟨hsame, fun pubkey' => (hmem pubkey').trans ?_⟩
    rw [← OrderedMap.has_iff, ← OrderedMap.has_iff, List.mem_cons, or_left_comm, ← or_assoc]
    refine or_congr_left ?_
    unfold OrderedMap.has
    rw [OrderedMap.get?_set]
    split_ifs with heq <;> simp [heq]

theorem nodup_getblockProposersAtSlot : (service.getblockProposersAtSlot P slot).Nodup := by
  unfold getblockProposersAtSlot
  cases service.proposers.get? (epochAt P slot) with
  | none => exact List.nodup_nil
  | some dutyAtEpoch =>
    dsimp only
    rw [← List.map_congr_left (addPublicKeys_spec _ .empty (List.forall_mem_nil _)).1]
    exact (addPublicKeys ..).nodup

variable {dutyAtEpoch duties : BlockDutyAtEpoch} {duty : ProposerDuty}

theorem mem_getblockProposersAtSlot (hstored : service.proposers.get? (epochAt P slot) = some dutyAtEpoch)
    (hduty : duty ∈ dutyAtEpoch.data) (hslot : duty.slot = slot) :
    duty.pubkey ∈ service.getblockProposersAtSlot P slot := by
  obtain ⟨hsame, hmem⟩ := addPublicKeys_spec ((dutyAtEpoch.data.filter fun proposer => proposer.slot = slot).map ProposerDuty.pubkey) .empty
    (List.forall_mem_nil _)
  unfold getblockProposersAtSlot
  rw [hstored]
  dsimp only
  rw [← List.map_congr_left hsame, hmem]
  exact .inr (List.mem_map_of_mem (List.mem_filter.2 ⟨hduty, decide_eq_true hslot⟩))

theorem notify_eq (slot : Int) (proposers : List BLSPubkey) :
    notify slot proposers = if 0 < slot then proposers.map fun pubkey => (pubkey, slot) else [] := by
  unfold notify notifyBlockProductionFn StateTransition.GENESIS_SLOT
  cases proposers with
  | nil => simp
  | cons pubkey proposers =>
    by_cases hslot : 0 < slot
    · simp [hslot]
    · simp [not_lt.1 hslot]

/-- Everything a task names: the stored proposers, and what is new after the poll. -/
def namedIn (P : Preset) (votingPubkeys : List BLSPubkey) (service : BlockDutiesService) (slot : Int) (response : Except ε BlockDutyAtEpoch) :
    List BLSPubkey :=
  service.getblockProposersAtSlot P slot ++ match service.pollBeaconProposers votingPubkeys (epochAt P slot) response with
    | .error _ => []
    | .ok polled => differenceHex (service.getblockProposersAtSlot P slot) (polled.getblockProposersAtSlot P slot)

theorem nodup_namedIn : (namedIn P votingPubkeys service slot response).Nodup := by
  have hinitial : (service.getblockProposersAtSlot P slot).Nodup := nodup_getblockProposersAtSlot
  unfold namedIn differenceHex
  cases service.pollBeaconProposers votingPubkeys (epochAt P slot) response with
  | error e => rwa [List.append_nil]
  | ok polled =>
    refine hinitial.append (nodup_getblockProposersAtSlot.filter _) fun pubkey h h' => ?_
    exact of_decide_eq_true (List.mem_filter.1 h').2 h

theorem runBlockDutiesTask_calls : (service.runBlockDutiesTask P votingPubkeys slot response).1 =
    if 0 < slot then (namedIn P votingPubkeys service slot response).map fun pubkey => (pubkey, slot) else [] := by
  unfold runBlockDutiesTask pollBeaconProposersAndNotify namedIn
  rcases lt_or_ge slot 0 with hbefore | hslot
  · rw [if_pos hbefore, if_neg hbefore.not_gt]
  · rw [if_neg (not_lt.2 hslot)]
    cases service.pollBeaconProposers votingPubkeys (epochAt P slot) response with
    | error e =>
      dsimp only
      rw [notify_eq, List.append_nil]
    | ok polled =>
      dsimp only
      rw [notify_eq, notify_eq]
      split_ifs
      · exact List.map_append.symm
      · rfl

theorem mem_namedIn (hresponse : response = .ok duties) (hduty : duty ∈ duties.data) (hslot : duty.slot = slot)
    (hlocal : duty.pubkey ∈ votingPubkeys) : duty.pubkey ∈ namedIn P votingPubkeys service slot response := by
  unfold namedIn pollBeaconProposers differenceHex
  rw [if_neg (List.ne_nil_of_mem hlocal), hresponse, List.mem_append]
  by_cases hinitial : duty.pubkey ∈ service.getblockProposersAtSlot P slot
  · exact .inl hinitial
  · refine .inr (List.mem_filter.2 ⟨?_, decide_eq_true hinitial⟩)
    exact mem_getblockProposersAtSlot ((OrderedMap.get?_set ..).trans (if_pos rfl))
      (List.mem_filter.2 ⟨hduty, decide_eq_true hlocal⟩) hslot

/-! ## A run -/

variable {tasks : List (Int × Except ε BlockDutyAtEpoch)}

theorem slot_of_mem_blockCalls {call : BLSPubkey × Int} (h : call ∈ blockCalls P votingPubkeys service tasks) :
    call.2 ∈ tasks.map Prod.fst := by
  induction tasks generalizing service with
  | nil => cases h
  | cons task tasks ih =>
    unfold blockCalls at h
    rw [runBlockDutiesTask_calls] at h
    rcases List.mem_append.1 h with h | h
    · split at h
      · obtain ⟨_, -, rfl⟩ := List.mem_map.1 h
        exact List.mem_cons_self
      · cases h
    · exact List.mem_cons_of_mem _ (ih h)

theorem nodup_blockCalls (hslots : (tasks.map Prod.fst).Pairwise (· < ·)) : (blockCalls P votingPubkeys service tasks).Nodup := by
  induction tasks generalizing service with
  | nil => exact List.nodup_nil
  | cons task tasks ih =>
    obtain ⟨hlater, hrest⟩ := List.pairwise_cons.1 hslots
    unfold blockCalls
    rw [runBlockDutiesTask_calls]
    split_ifs
    · refine (nodup_namedIn.map fun _ _ h => congrArg Prod.fst h).append (ih hrest) fun call h h' => ?_
      obtain ⟨_, -, rfl⟩ := List.mem_map.1 h
      exact (hlater _ (slot_of_mem_blockCalls h')).false
    · exact ih hrest

theorem mem_blockCalls (htask : (slot, .ok duties) ∈ tasks) (hpos : 0 < slot) (hduty : duty ∈ duties.data)
    (hslot : duty.slot = slot) (hlocal : duty.pubkey ∈ votingPubkeys) :
    (duty.pubkey, slot) ∈ blockCalls P votingPubkeys service tasks := by
  induction tasks generalizing service with
  | nil => cases htask
  | cons task tasks ih =>
    unfold blockCalls
    rcases List.mem_cons.1 htask with rfl | htask
    · rw [runBlockDutiesTask_calls, if_pos hpos]
      exact List.mem_append_left _ (List.mem_map_of_mem (mem_namedIn rfl hduty hslot hlocal))
    · exact List.mem_append_right _ (ih htask)

/-- **Under a punctual clock no validator is asked twice for a block of a slot**, and each of ours is asked for which the duties that
are downloaded in the slot name it, whatever was stored before and whichever other downloads fail. -/
theorem createAndPublishBlock_once (P : Preset) (clock : Clock) (now : Int) (rounds : List Clock.Round) (votingPubkeys : List BLSPubkey)
    (service : BlockDutiesService) (tasks : List (Int × Except ε BlockDutyAtEpoch))
    (hpunctual : clock.EachPunctual P .Slot (clock.firstCall P .Slot now) rounds)
    (htasks : tasks.map Prod.fst = (clock.runAtMostEvery P .Slot now rounds).map Clock.TaskCall.slotOrEpoch) :
    (blockCalls P votingPubkeys service tasks).Nodup ∧
      ∀ slot duties, (slot, .ok duties) ∈ tasks → 0 < slot → ∀ duty ∈ duties.data, duty.slot = slot → duty.pubkey ∈ votingPubkeys →
        (duty.pubkey, slot) ∈ blockCalls P votingPubkeys service tasks := by
  refine ⟨nodup_blockCalls ?_, fun slot duties htask hpos duty hduty hslot hlocal => mem_blockCalls htask hpos hduty hslot hlocal⟩
  have hstep : Clock.InStep P clock .Slot (clock.firstCall P .Slot now) := @Clock.floored_eq P clock .Slot now
  have hchain := ((Clock.callsFrom_iff rounds hstep).2 hpunctual).1
  rw [htasks, ← List.isChain_iff_pairwise]
  exact List.isChain_map_of_isChain Clock.TaskCall.slotOrEpoch (fun _ _ h => h) hchain

def blockDuty : BlockDutyAtEpoch := ⟨Vector.replicate 32 0, [⟨1, 0, Vector.replicate 48 1⟩]⟩

theorem createAndPublishBlock_once_two :
    (blockCalls minimal [Vector.replicate 48 1] {} [(0, .ok blockDuty), (1, .ok blockDuty), (2, .error ())]).Nodup :=
  (createAndPublishBlock_once minimal Clock.twelveSeconds 0 [⟨1000, 0⟩, ⟨1000, 20⟩] [Vector.replicate 48 1] {}
    [(0, .ok blockDuty), (1, .ok blockDuty), (2, .error ())]
    ⟨⟨by decide, fun _ => .inl (by decide)⟩, ⟨by decide, fun _ => .inl (by decide)⟩, trivial⟩ (by decide +kernel)).1

end BlockDutiesService

end Lodestar.Validator
