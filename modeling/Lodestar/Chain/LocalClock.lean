import Mathlib.Data.Rat.Floor
import Lodestar.Chain.GossipAttestation
import Lodestar.Lib.Runs
import Lodestar.StateTransition.Genesis
/-!
# LocalClock — slots by the local time, and the events of each slot

A tolerance is added to the genesis time, so the clock goes back where it is meant to be advanced.  An attestation is accepted as
it should be exactly away from the starts of two slots: `verifyPropagationSlotRange_iff`.

The timer and every read of `currentSlot` catch up with the time, and tell each listener of each slot on the way.  Where the clock
has not moved on meanwhile, the events come in order with one timer set: `ClockState.right_of_quiet`.
-/
namespace Lodestar

open Lib Runs StateTransition Gossip

/-! ## Slots -/

structure ClockConfig where
  SECONDS_PER_SLOT : Nat
  pos : 0 < SECONDS_PER_SLOT

/-- `now` is `Date.now() / 1000`. -/
def getSlotsSinceGenesis (config : ClockConfig) (genesisTime now : ℚ) : Int :=
  let diffInSeconds := now - genesisTime
  ⌊diffInSeconds / config.SECONDS_PER_SLOT⌋

def getCurrentSlot (config : ClockConfig) (genesisTime now : ℚ) : Int :=
  GENESIS_SLOT + getSlotsSinceGenesis config genesisTime now

structure LocalClock where
  config : ClockConfig
  genesisTime : ℚ

namespace LocalClock

section

variable (clock : LocalClock)

/-- Returns the slot if the internal clock were advanced by `toleranceSec`. -/
def slotWithTolerance (now toleranceSec : ℚ) : Int :=
  getCurrentSlot clock.config (clock.genesisTime + toleranceSec) now

def computeTimeAtSlot (slot : Int) : ℚ := clock.genesisTime + slot * clock.config.SECONDS_PER_SLOT

def slotAt (time : ℚ) : Int := ⌊(time - clock.genesisTime) / clock.config.SECONDS_PER_SLOT⌋

/-- The clock as a validation finds it; its tolerances are in milliseconds. -/
def view (now : ℚ) (getBlock : Root → Option HeadBlock) : ChainView where
  slotWithTolerance tolerance := clock.slotWithTolerance now (tolerance / 1000)
  getBlock

end

def MAXIMUM_GOSSIP_CLOCK_DISPARITY_SEC : ℚ := MAXIMUM_GOSSIP_CLOCK_DISPARITY / 1000

variable {clock : LocalClock} {now : ℚ} {getBlock : Root → Option HeadBlock}

theorem slotWithTolerance_eq (clock : LocalClock) (now toleranceSec : ℚ) :
    clock.slotWithTolerance now toleranceSec = clock.slotAt (now - toleranceSec) := by
  unfold slotWithTolerance getCurrentSlot getSlotsSinceGenesis slotAt
  rw [show now - (clock.genesisTime + toleranceSec) = now - toleranceSec - clock.genesisTime by ring]
  exact Int.zero_add _

variable {slot : Int} {time time' : ℚ}

theorem le_slotAt_iff : slot ≤ clock.slotAt time ↔ clock.computeTimeAtSlot slot ≤ time := by
  have hpos : (0 : ℚ) < clock.config.SECONDS_PER_SLOT := Nat.cast_pos.2 clock.config.pos
  unfold slotAt computeTimeAtSlot
  rw [Int.le_floor, le_div_iff₀ hpos, le_sub_iff_add_le']

theorem slotAt_lt_iff : clock.slotAt time < slot ↔ time < clock.computeTimeAtSlot slot := by
  rw [← not_le, le_slotAt_iff, not_le]

theorem slotAt_mono (h : time ≤ time') : clock.slotAt time ≤ clock.slotAt time' :=
  le_slotAt_iff.2 (le_trans (le_slotAt_iff.1 (Int.le_refl _)) h)

/-! ## The propagation range -/

/-- The slot is in the range that gossip has for attestations, with the tolerance at both its ends. -/
def InPropagationRange (P : Preset) (clock : LocalClock) (now : ℚ) (attestationSlot : Nat) : Prop :=
  max (clock.slotAt (now - MAXIMUM_GOSSIP_CLOCK_DISPARITY_SEC) - P.SLOTS_PER_EPOCH) 0 ≤ attestationSlot ∧
    (attestationSlot : Int) ≤ clock.slotAt (now + MAXIMUM_GOSSIP_CLOCK_DISPARITY_SEC)

def NearStart (clock : LocalClock) (now : ℚ) (slot : Int) : Prop :=
  clock.computeTimeAtSlot slot - MAXIMUM_GOSSIP_CLOCK_DISPARITY_SEC ≤ now ∧
    now < clock.computeTimeAtSlot slot + MAXIMUM_GOSSIP_CLOCK_DISPARITY_SEC

theorem nearStart_iff : clock.NearStart now slot ↔
    clock.slotAt (now - MAXIMUM_GOSSIP_CLOCK_DISPARITY_SEC) < slot ∧ slot ≤ clock.slotAt (now + MAXIMUM_GOSSIP_CLOCK_DISPARITY_SEC) := by
  unfold NearStart
  rw [slotAt_lt_iff, le_slotAt_iff, sub_lt_iff_lt_add, sub_le_iff_le_add, and_comm]

theorem verifyPropagationSlotRange_ok_iff (P : Preset) (attestationSlot : Nat) :
    verifyPropagationSlotRange P (clock.view now getBlock) attestationSlot = .ok () ↔
      max (clock.slotAt (now + MAXIMUM_GOSSIP_CLOCK_DISPARITY_SEC) - P.SLOTS_PER_EPOCH) 0 ≤ attestationSlot ∧
        (attestationSlot : Int) ≤ clock.slotAt (now - MAXIMUM_GOSSIP_CLOCK_DISPARITY_SEC) := by
  have hplus : (clock.view now getBlock).slotWithTolerance MAXIMUM_GOSSIP_CLOCK_DISPARITY =
      clock.slotAt (now - MAXIMUM_GOSSIP_CLOCK_DISPARITY_SEC) := clock.slotWithTolerance_eq now _
  have hminus : (clock.view now getBlock).slotWithTolerance (-MAXIMUM_GOSSIP_CLOCK_DISPARITY) =
      clock.slotAt (now + MAXIMUM_GOSSIP_CLOCK_DISPARITY_SEC) := by
    refine (clock.slotWithTolerance_eq now _).trans (congrArg clock.slotAt ?_)
    unfold MAXIMUM_GOSSIP_CLOCK_DISPARITY_SEC
    push_cast
    ring
  unfold verifyPropagationSlotRange
  rw [hplus, hminus]
  constructor
  · intro h
    obtain ⟨_, hpast, hfuture⟩ := bind_eq_ok.1 h
    exact ⟨of_decide_eq_true (check_eq_ok.1 hpast), of_decide_eq_true (check_eq_ok.1 hfuture)⟩
  · rintro ⟨hpast, hfuture⟩
    exact bind_eq_ok.2 ⟨(), check_eq_ok.2 (decide_eq_true hpast), check_eq_ok.2 (decide_eq_true hfuture)⟩

/-- **The range is the one of gossip exactly while the time is not about the start of the slot of the attestation, nor about the
end of the slot an epoch after it.** -/
theorem verifyPropagationSlotRange_iff (P : Preset) (clock : LocalClock) (now : ℚ) (getBlock : Root → Option HeadBlock)
    (attestationSlot : Nat) :
    (verifyPropagationSlotRange P (clock.view now getBlock) attestationSlot = .ok () ↔ InPropagationRange P clock now attestationSlot) ↔
      ¬ clock.NearStart now attestationSlot ∧ ¬ clock.NearStart now (attestationSlot + P.SLOTS_PER_EPOCH + 1) := by
  have hdisparity : (0 : ℚ) ≤ MAXIMUM_GOSSIP_CLOCK_DISPARITY_SEC := by
    unfold MAXIMUM_GOSSIP_CLOCK_DISPARITY_SEC MAXIMUM_GOSSIP_CLOCK_DISPARITY
    norm_num
  have hmono : clock.slotAt (now - MAXIMUM_GOSSIP_CLOCK_DISPARITY_SEC) ≤ clock.slotAt (now + MAXIMUM_GOSSIP_CLOCK_DISPARITY_SEC) :=
    slotAt_mono (by linarith)
  rw [verifyPropagationSlotRange_ok_iff, nearStart_iff, nearStart_iff]
  unfold InPropagationRange
  generalize clock.slotAt (now - MAXIMUM_GOSSIP_CLOCK_DISPARITY_SEC) = earlier at hmono ⊢
  generalize clock.slotAt (now + MAXIMUM_GOSSIP_CLOCK_DISPARITY_SEC) = later at hmono ⊢
  constructor
  · intro hsame
    by_contra hnear
    omega
  · intro haway
    omega

def twelveSeconds : LocalClock := ⟨⟨12, by decide⟩, 0⟩

/-- At the start of slot 1 an attestation of slot 1 is refused. -/
theorem propagationRange_differs : ¬ ∀ (P : Preset) (clock : LocalClock) (now : ℚ) (getBlock : Root → Option HeadBlock)
    (attestationSlot : Nat), verifyPropagationSlotRange P (clock.view now getBlock) attestationSlot = .ok () ↔
      InPropagationRange P clock now attestationSlot := by
  intro h
  have hslot : ∀ {slot : Int} {time : ℚ}, 12 * slot ≤ time → time < 12 * slot + 12 → twelveSeconds.slotAt time = slot := by
    intro slot time hle hlt
    unfold slotAt twelveSeconds
    rw [Int.floor_eq_iff]
    constructor
    · rw [le_div_iff₀ (by norm_num)]
      push_cast
      linarith
    · rw [div_lt_iff₀ (by norm_num)]
      push_cast
      linarith
  have hdisparity : MAXIMUM_GOSSIP_CLOCK_DISPARITY_SEC = 1 / 2 := by
    unfold MAXIMUM_GOSSIP_CLOCK_DISPARITY_SEC MAXIMUM_GOSSIP_CLOCK_DISPARITY
    norm_num
  have hearlier : twelveSeconds.slotAt (12 - MAXIMUM_GOSSIP_CLOCK_DISPARITY_SEC) = 0 := by
    rw [hdisparity]
    exact hslot (by norm_num) (by norm_num)
  have hlater : twelveSeconds.slotAt (12 + MAXIMUM_GOSSIP_CLOCK_DISPARITY_SEC) = 1 := by
    rw [hdisparity]
    exact hslot (by norm_num) (by norm_num)
  have hiff := h minimal twelveSeconds 12 (fun _ => none) 1
  rw [verifyPropagationSlotRange_ok_iff, InPropagationRange, hearlier, hlater] at hiff
  exact absurd (hiff.2 ⟨by decide, by decide⟩).2 (by decide)

end LocalClock

/-! ## The events of a slot -/

/-- Where a call of `onNextSlot` is: at its loop, or telling listeners, of which `called` have been told; the last of these is
running. -/
inductive Point
  | loop
  | clockSlot (previousSlot slot : Int) (called : Nat)
  | clockEpoch (epoch : Int) (called : Nat)
deriving DecidableEq

/-- A call of `onNextSlot` that has not returned. -/
structure Frame where
  clockSlot : Int
  point : Point
deriving DecidableEq

structure Listeners where
  clockSlot : Nat
  clockEpoch : Nat

/-- The clock with its timers and its calls, the innermost first, and what was emitted: which listener was told of which slot, and
the epochs. -/
structure ClockState where
  now : ℚ
  currentSlot : Int
  timeoutId : Nat
  pending : List Nat
  nextTimer : Nat
  stack : List Frame
  received : List (Nat × Int)
  epochs : List Int

inductive ClockLabel
  /-- Time goes on. -/
  | tick (now : ℚ)
  /-- A timer fires, which it does between calls only. -/
  | fire (timeoutId : Nat)
  /-- `currentSlot` is read, by a listener that is running or from elsewhere. -/
  | read
  /-- The innermost call goes on, after its listener has returned. -/
  | goOn
deriving DecidableEq

namespace ClockState

variable (P : Preset) (clock : LocalClock) (listeners : Listeners)

def computeEpochAtSlot (slot : Int) : Int := slot / P.SLOTS_PER_EPOCH

def new (now : ℚ) : ClockState where
  now
  timeoutId := 0
  pending := [0]
  nextTimer := 1
  currentSlot := clock.slotAt now
  stack := []
  received := []
  epochs := []

section

variable (s : ClockState)

def setTimeout : ClockState :=
  { s with timeoutId := s.nextTimer, pending := s.pending ++ [s.nextTimer], nextTimer := s.nextTimer + 1 }

def clearTimeout (timeoutId : Nat) : ClockState :=
  { s with pending := s.pending.filter fun id => decide (id ≠ timeoutId) }

/-- Between calls anything reads, during a call its running listener. -/
def canRead : Bool :=
  match s.stack with
  | [] => true
  | ⟨_, .loop⟩ :: _ => false
  | ⟨_, .clockSlot _ _ called⟩ :: _ => decide (0 < called)
  | ⟨_, .clockEpoch _ called⟩ :: _ => decide (0 < called)

/-- The getter `currentSlot`, up to its call of `onNextSlot`. -/
def readCurrentSlot : ClockState :=
  let slot := clock.slotAt s.now
  if slot > s.currentSlot then { s.clearTimeout s.timeoutId with stack := ⟨slot, .loop⟩ :: s.stack }
  else s

/-- `onNextSlot` from one of its points to the next. -/
def goOn (frame : Frame) (outer : List Frame) : ClockState :=
  match frame.point with
  | .loop =>
    if s.currentSlot < frame.clockSlot then
      { s with
        currentSlot := s.currentSlot + 1
        stack := { frame with point := .clockSlot s.currentSlot (s.currentSlot + 1) 0 } :: outer }
    else { s.setTimeout with stack := outer }
  | .clockSlot previousSlot slot called =>
    if called < listeners.clockSlot then
      { s with
        received := s.received ++ [(called, slot)]
        stack := { frame with point := .clockSlot previousSlot slot (called + 1) } :: outer }
    else
      let previousEpoch := computeEpochAtSlot P previousSlot
      let currentEpoch := computeEpochAtSlot P s.currentSlot
      if previousEpoch < currentEpoch then
        { s with epochs := s.epochs ++ [currentEpoch], stack := { frame with point := .clockEpoch currentEpoch 0 } :: outer }
      else { s with stack := { frame with point := .loop } :: outer }
  | .clockEpoch epoch called =>
    if called < listeners.clockEpoch then { s with stack := { frame with point := .clockEpoch epoch (called + 1) } :: outer }
    else { s with stack := { frame with point := .loop } :: outer }

end

def next : ClockLabel → ClockState → Option ClockState
  | .tick now, s => if s.now ≤ now then some { s with now } else none
  | .fire timeoutId, s =>
    if s.stack = [] ∧ timeoutId ∈ s.pending then
      some { s.clearTimeout timeoutId with stack := [⟨clock.slotAt s.now, .loop⟩] }
    else none
  | .read, s => if s.canRead then some (s.readCurrentSlot clock) else none
  | .goOn, s =>
    match s.stack with
    | [] => none
    | frame :: outer => some (s.goOn P listeners frame outer)

def goOnTimes : Nat → ClockState → ClockState
  | 0, s => s
  | n + 1, s =>
    match s.stack with
    | [] => s
    | frame :: outer => goOnTimes n (s.goOn P listeners frame outer)

def receivedBy (s : ClockState) (listener : Nat) : List Int := (s.received.filter fun e => decide (e.1 = listener)).map (·.2)

def between (start last : Int) : List Int := (List.range (last - start).toNat).map fun i : Nat => start + 1 + (i : Int)

/-- Each listener was told of the slots in their order, none left out and none told twice, and so were the epochs emitted; between
calls, of all up to the current one.  No slot is told before its time, a call for a slot gets there, and at most one timer is set. -/
structure Right (start : Int) (s : ClockState) : Prop where
  inOrder : ∀ listener < listeners.clockSlot, ∃ last, s.receivedBy listener = between start last
  complete : s.stack = [] → ∀ listener < listeners.clockSlot, s.receivedBy listener = between start s.currentSlot
  epochsInOrder : ∃ last, s.epochs = between (computeEpochAtSlot P start) last
  epochsComplete : s.stack = [] → s.epochs = between (computeEpochAtSlot P start) (computeEpochAtSlot P s.currentSlot)
  inTime : s.currentSlot ≤ clock.slotAt s.now
  returns : ∃ n, (goOnTimes P listeners n s).stack = [] ∧
    ∀ frame ∈ s.stack, frame.clockSlot ≤ (goOnTimes P listeners n s).currentSlot
  oneTimer : s.pending.length ≤ 1

/-- No listener reads `currentSlot` when the time is already past the slot that the clock is at. -/
def QuietRead (s : ClockState) (label : ClockLabel) : Prop := label = .read → s.stack ≠ [] → clock.slotAt s.now ≤ s.currentSlot

/-! ## What holds at each point of a call -/

/-- What was emitted: to each listener up to a slot, and epochs up to that of a slot. -/
structure Told (start : Int) (s : ClockState) (upTo : Nat → Int) (epochsUpTo : Int) : Prop where
  slots : ∀ listener < listeners.clockSlot, s.receivedBy listener = between start (upTo listener)
  epochs : s.epochs = between (computeEpochAtSlot P start) (computeEpochAtSlot P epochsUpTo)

def AtPoint (start : Int) (s : ClockState) : Point → Prop
  | .loop => Told P listeners start s (fun _ => s.currentSlot) s.currentSlot
  | .clockSlot previousSlot slot called => slot = s.currentSlot ∧ previousSlot + 1 = s.currentSlot ∧ start ≤ previousSlot ∧
      Told P listeners start s (fun listener => if listener < called then s.currentSlot else previousSlot) previousSlot
  | .clockEpoch _ _ => Told P listeners start s (fun _ => s.currentSlot) s.currentSlot

/-- At most one call has not returned; during it no timer is set, and between calls the last one is. -/
inductive Sound (start : Int) : ClockState → Prop
  | idle {s : ClockState} (hstart : start ≤ s.currentSlot) (htime : s.currentSlot ≤ clock.slotAt s.now) (hstack : s.stack = [])
      (hpending : s.pending = [s.timeoutId]) (htold : Told P listeners start s (fun _ => s.currentSlot) s.currentSlot) : Sound start s
  | call {s : ClockState} {frame : Frame} (hstart : start ≤ s.currentSlot) (htime : s.currentSlot ≤ clock.slotAt s.now)
      (hstack : s.stack = [frame]) (htarget : frame.clockSlot ≤ clock.slotAt s.now) (hpending : s.pending = [])
      (hpoint : AtPoint P listeners start s frame.point) : Sound start s

variable {P clock listeners} {start : Int} {s s' : ClockState}

theorem between_self (start : Int) : between start start = [] := by
  unfold between
  rw [Int.sub_self]
  rfl

variable {start last slot slot' epochsUpTo : Int}

theorem between_succ (h : start ≤ last) : between start (last + 1) = between start last ++ [last + 1] := by
  have hn : (last + 1 - start).toNat = (last - start).toNat + 1 := by omega
  unfold between
  rw [hn, List.range_succ, List.map_append, List.map_singleton]
  congr 2
  omega

theorem computeEpochAtSlot_mono (h : slot ≤ slot') : computeEpochAtSlot P slot ≤ computeEpochAtSlot P slot' := by
  unfold computeEpochAtSlot
  rcases Nat.eq_zero_or_pos P.SLOTS_PER_EPOCH with hzero | hpos
  · rw [hzero]
    simp
  · exact Int.ediv_le_ediv (by omega) h

theorem computeEpochAtSlot_succ_le (slot : Int) : computeEpochAtSlot P (slot + 1) ≤ computeEpochAtSlot P slot + 1 := by
  unfold computeEpochAtSlot
  rcases Nat.eq_zero_or_pos P.SLOTS_PER_EPOCH with hzero | hpos
  · rw [hzero]
    simp
  · have hne : (P.SLOTS_PER_EPOCH : Int) ≠ 0 := by omega
    rw [← Int.add_mul_ediv_right slot 1 hne]
    exact Int.ediv_le_ediv (by omega) (by omega)

/-! ## One step -/

variable {s s' : ClockState}

theorem Told.congr {upTo : Nat → Int} (h : Told P listeners start s upTo epochsUpTo) (hreceived : s'.received = s.received)
    (hepochs : s'.epochs = s.epochs) : Told P listeners start s' upTo epochsUpTo where
  slots listener hlistener := by
    unfold receivedBy
    rw [hreceived]
    exact h.slots listener hlistener
  epochs := hepochs.trans h.epochs

variable {called : Nat}

theorem receivedBy_tell (hreceived : s'.received = s.received ++ [(called, slot)]) (listener : Nat) :
    s'.receivedBy listener = if listener = called then s.receivedBy listener ++ [slot] else s.receivedBy listener := by
  unfold receivedBy
  rw [hreceived, List.filter_append, List.map_append]
  by_cases hlistener : listener = called
  · simp [hlistener]
  · simp [hlistener, Ne.symm hlistener]

variable {previousSlot slot : Int}

theorem Told.tell (hslot : slot = previousSlot + 1) (hstart : start ≤ previousSlot)
    (h : Told P listeners start s (fun listener => if listener < called then slot else previousSlot) previousSlot)
    (hreceived : s'.received = s.received ++ [(called, slot)]) (hepochs : s'.epochs = s.epochs) :
    Told P listeners start s' (fun listener => if listener < called + 1 then slot else previousSlot) previousSlot where
  slots listener hlistener := by
    rw [receivedBy_tell hreceived, h.slots listener hlistener]
    rcases Nat.lt_trichotomy listener called with hlt | rfl | hgt
    · rw [if_neg (by omega), if_pos hlt, if_pos (by omega)]
    · rw [if_pos rfl, if_neg (Nat.lt_irrefl _), if_pos (Nat.lt_succ_self _), hslot, between_succ hstart]
    · rw [if_neg (by omega), if_neg (by omega), if_neg (by omega)]
  epochs := hepochs.trans h.epochs

theorem Told.epoch (hslot : slot = previousSlot + 1) (hstart : start ≤ previousSlot)
    (h : Told P listeners start s (fun _ => slot) previousSlot) (hreceived : s'.received = s.received)
    (hepochs : s'.epochs = if computeEpochAtSlot P previousSlot < computeEpochAtSlot P slot
      then s.epochs ++ [computeEpochAtSlot P slot] else s.epochs) : Told P listeners start s' (fun _ => slot) slot where
  slots listener hlistener := by
    unfold receivedBy
    rw [hreceived]
    exact h.slots listener hlistener
  epochs := by
    have hbefore : computeEpochAtSlot P start ≤ computeEpochAtSlot P previousSlot := computeEpochAtSlot_mono hstart
    have hle : computeEpochAtSlot P previousSlot ≤ computeEpochAtSlot P slot := computeEpochAtSlot_mono (by omega)
    have hsucc : computeEpochAtSlot P slot ≤ computeEpochAtSlot P previousSlot + 1 := hslot ▸ computeEpochAtSlot_succ_le previousSlot
    rw [hepochs, h.epochs]
    split
    · rw [show computeEpochAtSlot P slot = computeEpochAtSlot P previousSlot + 1 by omega, between_succ hbefore]
    · rw [show computeEpochAtSlot P slot = computeEpochAtSlot P previousSlot by omega]

theorem AtPoint.congr {point : Point} (h : AtPoint P listeners start s point) (hslot : s'.currentSlot = s.currentSlot)
    (hreceived : s'.received = s.received) (hepochs : s'.epochs = s.epochs) :
    AtPoint P listeners start s' point := by
  cases point with
  | loop =>
    show Told P listeners start s' (fun _ => s'.currentSlot) s'.currentSlot
    rw [hslot]
    exact Told.congr h hreceived hepochs
  | clockSlot previousSlot slot called =>
    obtain ⟨h₁, h₂, h₃, h₄⟩ := h
    refine ⟨h₁.trans hslot.symm, h₂.trans hslot.symm, h₃, ?_⟩
    rw [hslot]
    exact h₄.congr hreceived hepochs
  | clockEpoch epoch called =>
    show Told P listeners start s' (fun _ => s'.currentSlot) s'.currentSlot
    rw [hslot]
    exact Told.congr h hreceived hepochs

theorem Sound.tick (h : Sound P clock listeners start s) {now : ℚ} (hnow : s.now ≤ now) :
    Sound P clock listeners start { s with now } := by
  have hlater : clock.slotAt s.now ≤ clock.slotAt now := LocalClock.slotAt_mono hnow
  cases h with
  | idle hstart htime hstack hpending htold =>
    exact .idle hstart (Int.le_trans htime hlater) hstack hpending (htold.congr rfl rfl)
  | call hstart htime hstack htarget hpending hpoint =>
    exact .call hstart (Int.le_trans htime hlater) hstack (Int.le_trans htarget hlater) hpending (hpoint.congr rfl rfl rfl)

theorem filter_ne_self (id : Nat) : [id].filter (fun id' => decide (id' ≠ id)) = [] := by
  simp

theorem Sound.fire (h : Sound P clock listeners start s) {timeoutId : Nat} (hstack : s.stack = []) (hset : timeoutId ∈ s.pending) :
    Sound P clock listeners start { s.clearTimeout timeoutId with stack := [⟨clock.slotAt s.now, .loop⟩] } := by
  cases h with
  | idle hstart htime _ hpending htold =>
    rw [hpending, List.mem_singleton] at hset
    refine .call hstart htime rfl (Int.le_refl _) ?_ (htold.congr rfl rfl)
    unfold clearTimeout
    rw [hpending, hset]
    exact filter_ne_self _
  | call _ _ hcall =>
    rw [hcall] at hstack
    cases hstack

theorem Sound.read (h : Sound P clock listeners start s) (hquiet : s.stack ≠ [] → clock.slotAt s.now ≤ s.currentSlot) :
    Sound P clock listeners start (s.readCurrentSlot clock) := by
  unfold readCurrentSlot
  dsimp only
  split
  · rename_i hlater
    cases h with
    | idle hstart htime hstack hpending htold =>
      refine .call hstart htime (congrArg (_ :: ·) hstack) (Int.le_refl _) ?_ (htold.congr rfl rfl)
      unfold clearTimeout
      rw [hpending]
      exact filter_ne_self _
    | call _ _ hstack =>
      have := hquiet (by rw [hstack]; exact List.cons_ne_nil _ _)
      omega
  · exact h

theorem Sound.goOn (h : Sound P clock listeners start s) {frame : Frame} {outer : List Frame} (hstack : s.stack = frame :: outer) :
    Sound P clock listeners start (s.goOn P listeners frame outer) := by
  cases h with
  | idle _ _ hidle =>
    rw [hidle] at hstack
    cases hstack
  | call hstart htime hcall htarget hpending hpoint =>
    rw [hcall] at hstack
    cases hstack
    unfold ClockState.goOn
    split
    · rename_i hloop
      rw [hloop] at hpoint
      split
      · rename_i hlt
        refine .call (by dsimp only; omega) (by dsimp only; omega) rfl htarget hpending ⟨rfl, rfl, hstart, ?_⟩
        exact ⟨fun listener hlistener => (hpoint.slots listener hlistener).trans (by rw [if_neg (Nat.not_lt_zero _)]), hpoint.epochs⟩
      · refine .idle hstart htime rfl ?_ (Told.congr hpoint rfl rfl)
        unfold setTimeout
        rw [hpending]
        rfl
    · rename_i previousSlot slot called hslot
      rw [hslot] at hpoint
      obtain ⟨rfl, hprevious, hbefore, htold⟩ := hpoint
      split
      · exact .call hstart htime rfl htarget hpending ⟨rfl, hprevious, hbefore, htold.tell hprevious.symm hbefore rfl rfl⟩
      · rename_i hall
        have htold' : Told P listeners start s (fun _ => s.currentSlot) previousSlot :=
          ⟨fun listener hlistener => (htold.slots listener hlistener).trans (by rw [if_pos (by omega)]), htold.epochs⟩
        dsimp only
        split
        · rename_i hnew
          refine .call hstart htime rfl htarget hpending (htold'.epoch hprevious.symm hbefore rfl ?_)
          rw [if_pos hnew]
        · rename_i hsame
          refine .call hstart htime rfl htarget hpending (htold'.epoch hprevious.symm hbefore rfl ?_)
          rw [if_neg hsame]
    · rename_i epoch called hepoch
      rw [hepoch] at hpoint
      split
      · exact .call hstart htime rfl htarget hpending (Told.congr hpoint rfl rfl)
      · exact .call hstart htime rfl htarget hpending (Told.congr hpoint rfl rfl)

theorem Sound.step (h : Sound P clock listeners start s) {label : ClockLabel} (hnext : next P clock listeners label s = some s')
    (hquiet : QuietRead clock s label) : Sound P clock listeners start s' := by
  cases label with
  | tick now =>
    obtain ⟨hnow, hs'⟩ := Option.ite_none_right_eq_some.1 hnext
    cases hs'
    exact h.tick hnow
  | fire timeoutId =>
    obtain ⟨⟨hstack, hset⟩, hs'⟩ := Option.ite_none_right_eq_some.1 hnext
    cases hs'
    exact h.fire hstack hset
  | read =>
    obtain ⟨-, hs'⟩ := Option.ite_none_right_eq_some.1 hnext
    cases hs'
    exact h.read (hquiet rfl)
  | goOn =>
    unfold next at hnext
    dsimp only at hnext
    split at hnext
    · cases hnext
    · rename_i frame outer hstack
      cases hnext
      exact h.goOn hstack

/-! ## Calls return -/

variable (listeners) in
def Point.work : Point → Nat
  | .loop => 1
  | .clockSlot _ _ called => listeners.clockSlot - called + listeners.clockEpoch + 3
  | .clockEpoch _ called => listeners.clockEpoch - called + 2

variable (listeners) in
def Frame.work (frame : Frame) (currentSlot : Int) : Nat :=
  (frame.clockSlot - currentSlot).toNat * (listeners.clockSlot + listeners.clockEpoch + 4) + Point.work listeners frame.point

theorem goOn_work (s : ClockState) (frame : Frame) :
    ((s.goOn P listeners frame []).stack = [] ∧ frame.clockSlot ≤ (s.goOn P listeners frame []).currentSlot) ∨
      ∃ frame', (s.goOn P listeners frame []).stack = [frame'] ∧ frame'.clockSlot = frame.clockSlot ∧
        Frame.work listeners frame' (s.goOn P listeners frame []).currentSlot < Frame.work listeners frame s.currentSlot := by
  unfold goOn Frame.work
  cases hpoint : frame.point with
  | loop =>
    dsimp only
    split
    · rename_i hlt
      refine .inr ⟨_, rfl, rfl, ?_⟩
      have hleft : (frame.clockSlot - s.currentSlot).toNat = (frame.clockSlot - (s.currentSlot + 1)).toNat + 1 := by omega
      simp only [hleft, Nat.succ_mul, Point.work]
      omega
    · exact .inl ⟨rfl, by dsimp only [setTimeout]; omega⟩
  | clockSlot previousSlot slot called =>
    dsimp only
    split
    · exact .inr ⟨_, rfl, rfl, Nat.add_lt_add_left (by simp only [Point.work]; omega) _⟩
    · split
      · exact .inr ⟨_, rfl, rfl, Nat.add_lt_add_left (by simp only [Point.work]; omega) _⟩
      · exact .inr ⟨_, rfl, rfl, Nat.add_lt_add_left (by simp only [Point.work]; omega) _⟩
  | clockEpoch epoch called =>
    dsimp only
    split
    · exact .inr ⟨_, rfl, rfl, Nat.add_lt_add_left (by simp only [Point.work]; omega) _⟩
    · exact .inr ⟨_, rfl, rfl, Nat.add_lt_add_left (by simp only [Point.work]; omega) _⟩

theorem goOnTimes_returns : ∀ (work : Nat) {s : ClockState} {frame : Frame}, s.stack = [frame] →
    Frame.work listeners frame s.currentSlot ≤ work →
    ∃ n, (goOnTimes P listeners n s).stack = [] ∧ frame.clockSlot ≤ (goOnTimes P listeners n s).currentSlot
  | 0, s, frame, _, hwork => by
    have hpos : 0 < Point.work listeners frame.point := by
      cases frame.point <;> simp only [Point.work] <;> omega
    unfold Frame.work at hwork
    omega
  | work + 1, s, frame, hstack, hwork => by
    have hgo : ∀ n, goOnTimes P listeners (n + 1) s = goOnTimes P listeners n (s.goOn P listeners frame []) := by
      intro n
      rw [goOnTimes, hstack]
    rcases @goOn_work P listeners s frame with ⟨hidle, hslot⟩ | ⟨frame', hstack', htarget, hless⟩
    · refine ⟨1, ?_⟩
      rw [hgo]
      exact ⟨hidle, hslot⟩
    · obtain ⟨n, hidle, hslot⟩ := goOnTimes_returns work hstack' (by omega)
      refine ⟨n + 1, ?_⟩
      rw [hgo]
      exact ⟨hidle, htarget ▸ hslot⟩

theorem Sound.returns (h : Sound P clock listeners start s) : ∃ n, (goOnTimes P listeners n s).stack = [] ∧
    ∀ frame ∈ s.stack, frame.clockSlot ≤ (goOnTimes P listeners n s).currentSlot := by
  cases h with
  | idle _ _ hstack =>
    refine ⟨0, hstack, fun frame hframe => ?_⟩
    rw [hstack] at hframe
    exact absurd hframe List.not_mem_nil
  | call _ _ hstack =>
    obtain ⟨n, hidle, hslot⟩ := @goOnTimes_returns P listeners _ _ _ hstack (Nat.le_refl _)
    refine ⟨n, hidle, fun frame hframe => ?_⟩
    rw [hstack, List.mem_singleton] at hframe
    exact hframe ▸ hslot

/-! ## Runs -/

theorem Sound.right (h : Sound P clock listeners start s) : Right P clock listeners start s := by
  have hreturns := h.returns
  cases h with
  | idle hstart htime hstack hpending htold =>
    refine ⟨fun listener hlistener => ⟨_, htold.slots listener hlistener⟩, fun _ => htold.slots, ⟨_, htold.epochs⟩,
      fun _ => htold.epochs, htime, hreturns, ?_⟩
    rw [hpending]
    exact Nat.le_refl 1
  | @call frame hstart htime hstack htarget hpending hpoint =>
    have htold : ∃ upTo epochsUpTo, Told P listeners start s upTo epochsUpTo := by
      cases hframe : frame.point with
      | loop =>
        rw [hframe] at hpoint
        exact ⟨_, _, hpoint⟩
      | clockSlot previousSlot slot called =>
        rw [hframe] at hpoint
        exact ⟨_, _, hpoint.2.2.2⟩
      | clockEpoch epoch called =>
        rw [hframe] at hpoint
        exact ⟨_, _, hpoint⟩
    obtain ⟨upTo, epochsUpTo, htold⟩ := htold
    have hbusy : s.stack ≠ [] := by
      rw [hstack]
      exact List.cons_ne_nil _ _
    refine ⟨fun listener hlistener => ⟨_, htold.slots listener hlistener⟩, fun hidle => absurd hidle hbusy, ⟨_, htold.epochs⟩,
      fun hidle => absurd hidle hbusy, htime, hreturns, ?_⟩
    rw [hpending]
    exact Nat.zero_le 1

theorem sound_new (now : ℚ) : Sound P clock listeners (clock.slotAt now) (new clock now) :=
  .idle (Int.le_refl _) (Int.le_refl _) rfl rfl
    ⟨fun _ _ => (between_self _).symm, (between_self _).symm⟩

/-- **In a run without such reads everything is told in order, and one timer is set.** -/
theorem right_of_quiet (P : Preset) (clock : LocalClock) (listeners : Listeners) (now : ℚ) (labels : List ClockLabel)
    (hquiet : ∀ step ∈ (exec (next P clock listeners) labels (new clock now)).1, QuietRead clock step.1 step.2) :
    ∀ x ∈ visited (exec (next P clock listeners) labels (new clock now)).1 (exec (next P clock listeners) labels (new clock now)).2,
      Right P clock listeners (clock.slotAt now) x := by
  have hsound := (exec_run (next P clock listeners) labels (new clock now)).always (I := Sound P clock listeners (clock.slotAt now))
    (sound_new now) (fun s label s' hnext hq hs => hs.step hnext hq) hquiet
  exact fun x hx => (hsound x hx).right

instance (s : ClockState) (label : ClockLabel) : Decidable (QuietRead clock s label) :=
  inferInstanceAs (Decidable (label = .read → s.stack ≠ [] → clock.slotAt s.now ≤ s.currentSlot))

/-- A timer fires in time, the first listener reads the slot that it is told of, and the call returns. -/
def promptRead : List ClockLabel :=
  [.tick 12, .fire 0, .goOn, .goOn, .read] ++ List.replicate 4 .goOn

theorem promptRead_right : Right minimal LocalClock.twelveSeconds ⟨2, 0⟩ (LocalClock.twelveSeconds.slotAt 0)
    (exec (next minimal LocalClock.twelveSeconds ⟨2, 0⟩) promptRead (new LocalClock.twelveSeconds 0)).2 :=
  right_of_quiet minimal LocalClock.twelveSeconds ⟨2, 0⟩ 0 promptRead (by decide +kernel) _
    (List.mem_append_right _ List.mem_cons_self)

/-- Two slots late, a timer fires and the first listener reads the slot. -/
def nestedRead : List ClockLabel :=
  [.tick 24, .fire 0, .goOn, .goOn, .read] ++ List.replicate 8 .goOn

/-- Slot 2 is told before slot 1, and two timers are set. -/
theorem nestedRead_wrong : ¬ ∀ (P : Preset) (clock : LocalClock) (listeners : Listeners) (now : ℚ) (labels : List ClockLabel),
    ∀ x ∈ visited (exec (next P clock listeners) labels (new clock now)).1 (exec (next P clock listeners) labels (new clock now)).2,
      Right P clock listeners (clock.slotAt now) x := by
  intro h
  have hlast := h minimal LocalClock.twelveSeconds ⟨2, 0⟩ 0 nestedRead _ (List.mem_append_right _ (List.mem_singleton.2 rfl))
  exact absurd hlast.oneTimer (by decide +kernel)

end ClockState

end Lodestar
