import Mathlib.Algebra.Order.Round
import Lodestar.Chain.LocalClock
/-!
# Clock — the loop of the validator that runs a task at most every slot

After a sleep the loop rounds the time to the nearest slot.  A wake-up in the last half of a slot passes the next slot on before it has
begun, and that slot once more at its start.  Before genesis a task that ends at the very start of a slot is followed by no sleep.
Away from both the slots increase and have begun: `runAtMostEvery_iff`.
-/
namespace Lodestar.Validator

open StateTransition

inductive TimeItem
  | Slot
  | Epoch
deriving DecidableEq, Repr

structure Clock where
  config : ClockConfig
  genesisTime : Nat

/-- Same to the spec but we use Math.round instead of Math.floor; `now` is `Date.now() / 1000`. -/
def getCurrentSlotAround (config : ClockConfig) (genesisTime now : ℚ) : Int :=
  let diffInSeconds := now - genesisTime
  GENESIS_SLOT + round (diffInSeconds / config.SECONDS_PER_SLOT)

namespace Clock

variable (P : Preset) (clock : Clock) (timeItem : TimeItem)

def slotOrEpoch (slot : Int) : Int :=
  match timeItem with
  | .Slot => slot
  | .Epoch => slot / P.SLOTS_PER_EPOCH

def miliSecondsPer : Int :=
  let miliSecondsPerSlot : Int := clock.config.SECONDS_PER_SLOT * 1000
  match timeItem with
  | .Slot => miliSecondsPerSlot
  | .Epoch => P.SLOTS_PER_EPOCH * miliSecondsPerSlot

def msFromGenesis (now : Int) : Int := now - clock.genesisTime * 1000

def timeUntilNext (now : Int) : Int :=
  let msFromGenesis := clock.msFromGenesis now
  let miliSeconds := clock.miliSecondsPer P timeItem
  if 0 ≤ msFromGenesis then miliSeconds - msFromGenesis.tmod miliSeconds else |msFromGenesis.tmod miliSeconds|

structure TaskCall where
  now : Int
  slotOrEpoch : Int
deriving DecidableEq

/-- How long the task takes, and how much longer than asked for the sleep after it lasts. -/
structure Round where
  taskMs : Nat
  delayMs : Nat

def wakeUp (call : TaskCall) (round : Round) : Int :=
  call.now + round.taskMs + clock.timeUntilNext P timeItem (call.now + round.taskMs) + round.delayMs

def firstCall (now : Int) : TaskCall where
  now
  slotOrEpoch := slotOrEpoch P timeItem (getCurrentSlot clock.config clock.genesisTime (now / 1000))

def nextCall (call : TaskCall) (round : Round) : TaskCall where
  now := clock.wakeUp P timeItem call round
  slotOrEpoch := slotOrEpoch P timeItem (getCurrentSlotAround clock.config clock.genesisTime (clock.wakeUp P timeItem call round / 1000))

def callsFrom (call : TaskCall) : List Round → List TaskCall
  | [] => [call]
  | round :: rounds => call :: callsFrom (clock.nextCall P timeItem call round) rounds

def runAtMostEvery (now : Int) (rounds : List Round) : List TaskCall := clock.callsFrom P timeItem (clock.firstCall P timeItem now) rounds

/-! ## Slots that increase and have begun -/

def Begun (call : TaskCall) : Prop := clock.genesisTime * 1000 + call.slotOrEpoch * clock.miliSecondsPer P timeItem ≤ call.now

/-- More than half a slot is left when the loop wakes up; and a task that takes no time is not followed by no sleep. -/
structure Punctual (call : TaskCall) (round : Round) : Prop where
  early : 2 * (clock.msFromGenesis (clock.wakeUp P timeItem call round) % clock.miliSecondsPer P timeItem) +
    clock.config.SECONDS_PER_SLOT * 1000 < 2 * clock.miliSecondsPer P timeItem
  sleeps : clock.timeUntilNext P timeItem (call.now + round.taskMs) = 0 →
    0 < round.taskMs ∨ clock.miliSecondsPer P timeItem ≤ round.delayMs

def EachPunctual (call : TaskCall) : List Round → Prop
  | [] => True
  | round :: rounds => clock.Punctual P timeItem call round ∧ EachPunctual (clock.nextCall P timeItem call round) rounds

/-! ### The slot by floor and by rounding -/

section

variable {P clock timeItem}

def slotsPer (P : Preset) : TimeItem → Nat
  | .Slot => 1
  | .Epoch => P.SLOTS_PER_EPOCH

theorem slotsPer_pos (P : Preset) (timeItem : TimeItem) : 0 < slotsPer P timeItem := by
  cases timeItem with
  | Slot => exact Nat.one_pos
  | Epoch => exact P.slotsPerEpoch_pos

theorem slotOrEpoch_eq (P : Preset) (timeItem : TimeItem) (slot : Int) : slotOrEpoch P timeItem slot = slot / slotsPer P timeItem := by
  cases timeItem with
  | Slot => exact (Int.ediv_one slot).symm
  | Epoch => rfl

theorem miliSecondsPer_eq (P : Preset) (clock : Clock) (timeItem : TimeItem) :
    clock.miliSecondsPer P timeItem = clock.config.SECONDS_PER_SLOT * 1000 * slotsPer P timeItem := by
  cases timeItem with
  | Slot => exact (Int.mul_one _).symm
  | Epoch => exact Int.mul_comm _ _

theorem miliSecondsPer_pos (P : Preset) (clock : Clock) (timeItem : TimeItem) : 0 < clock.miliSecondsPer P timeItem := by
  have hslots := slotsPer_pos P timeItem
  have hseconds := clock.config.pos
  rw [miliSecondsPer_eq]
  positivity

theorem seconds_eq (clock : Clock) (now : Int) : ((now : ℚ) / 1000 - clock.genesisTime) / clock.config.SECONDS_PER_SLOT =
    clock.msFromGenesis now / (clock.config.SECONDS_PER_SLOT * 1000 : Nat) := by
  have hseconds : (clock.config.SECONDS_PER_SLOT : ℚ) ≠ 0 := Nat.cast_ne_zero.2 clock.config.pos.ne'
  unfold msFromGenesis
  push_cast
  field_simp

theorem floored_eq (now : Int) : slotOrEpoch P timeItem (getCurrentSlot clock.config clock.genesisTime (now / 1000)) =
    clock.msFromGenesis now / clock.miliSecondsPer P timeItem := by
  have hfloor : getCurrentSlot clock.config clock.genesisTime (now / 1000) =
      clock.msFromGenesis now / (clock.config.SECONDS_PER_SLOT * 1000 : Nat) := by
    unfold getCurrentSlot getSlotsSinceGenesis
    dsimp only
    rw [seconds_eq, Rat.floor_intCast_div_natCast]
    exact Int.zero_add _
  rw [slotOrEpoch_eq, hfloor, Int.ediv_ediv_of_nonneg (Int.natCast_nonneg _), miliSecondsPer_eq]
  push_cast
  rfl

theorem rounded_eq (now : Int) : slotOrEpoch P timeItem (getCurrentSlotAround clock.config clock.genesisTime (now / 1000)) =
    (2 * clock.msFromGenesis now + clock.config.SECONDS_PER_SLOT * 1000) / (2 * clock.miliSecondsPer P timeItem) := by
  have hseconds : (clock.config.SECONDS_PER_SLOT : ℚ) ≠ 0 := Nat.cast_ne_zero.2 clock.config.pos.ne'
  have hround : getCurrentSlotAround clock.config clock.genesisTime (now / 1000) =
      (2 * clock.msFromGenesis now + clock.config.SECONDS_PER_SLOT * 1000) / (2 * (clock.config.SECONDS_PER_SLOT * 1000) : Nat) := by
    unfold getCurrentSlotAround
    dsimp only
    rw [seconds_eq, round_eq, ← Rat.floor_intCast_div_natCast]
    refine (Int.zero_add _).trans (congrArg Int.floor ?_)
    push_cast
    field_simp
  rw [slotOrEpoch_eq, hround, Int.ediv_ediv_of_nonneg (Int.natCast_nonneg _), miliSecondsPer_eq]
  push_cast
  rw [Int.mul_assoc]

/-! ### One round -/

theorem rounded_cases {m p l : Int} (hl : 0 < l) (hle : l ≤ p) :
    (2 * m + l) / (2 * p) = if 2 * (m % p) + l < 2 * p then m / p else m / p + 1 := by
  have hpos : 0 < 2 * p := by omega
  have hnonneg := Int.emod_nonneg m (show p ≠ 0 by omega)
  have hlt := Int.emod_lt_of_pos m (show 0 < p by omega)
  have hm : 2 * m = 2 * p * (m / p) + 2 * (m % p) := by
    rw [Int.mul_assoc, ← Int.mul_add, Int.mul_ediv_add_emod]
  split
  · exact ((Int.ediv_emod_unique hpos).2 ⟨(show 2 * (m % p) + l + 2 * p * (m / p) = 2 * m + l by omega), by omega, by omega⟩).1
  · have hnext : 2 * p * (m / p + 1) = 2 * p * (m / p) + 2 * p := by ring
    exact ((Int.ediv_emod_unique hpos).2 ⟨(show 2 * (m % p) + l - 2 * p + 2 * p * (m / p + 1) = 2 * m + l by omega), by omega, by omega⟩).1

theorem timeUntilNext_cases (P : Preset) (clock : Clock) (timeItem : TimeItem) (now : Int) :
    (0 < clock.timeUntilNext P timeItem now ∧ clock.msFromGenesis now + clock.timeUntilNext P timeItem now =
      (clock.msFromGenesis now / clock.miliSecondsPer P timeItem + 1) * clock.miliSecondsPer P timeItem) ∨
    (clock.timeUntilNext P timeItem now = 0 ∧ clock.msFromGenesis now % clock.miliSecondsPer P timeItem = 0) := by
  have hpos := miliSecondsPer_pos P clock timeItem
  unfold timeUntilNext
  dsimp only
  generalize clock.miliSecondsPer P timeItem = p at *
  generalize clock.msFromGenesis now = m
  have hmod := Int.emod_lt_of_pos m hpos
  have hdiv := Int.mul_ediv_add_emod m p
  by_cases hm : 0 ≤ m
  · rw [if_pos hm, Int.tmod_eq_emod_of_nonneg hm]
    refine .inl ⟨by omega, ?_⟩
    rw [add_mul, one_mul, mul_comm (m / p)]
    omega
  · rw [if_neg hm]
    obtain ⟨n, rfl⟩ : ∃ n, m = -n := ⟨-m, (neg_neg m).symm⟩
    rw [Int.neg_tmod, abs_neg, Int.tmod_eq_emod_of_nonneg (show 0 ≤ n by omega), abs_of_nonneg (Int.emod_nonneg n hpos.ne')]
    have hn := Int.mul_ediv_add_emod n p
    have hnlt := Int.emod_lt_of_pos n hpos
    rcases (Int.emod_nonneg n hpos.ne').lt_or_eq with hrest | hzero
    · have hbefore : p * (-(n / p) - 1) = -(p * (n / p)) - p := by ring
      have hquotient : -n / p = -(n / p) - 1 :=
        ((Int.ediv_emod_unique hpos).2 ⟨(show p - n % p + p * (-(n / p) - 1) = -n by omega), by omega, by omega⟩).1
      refine .inl ⟨hrest, ?_⟩
      rw [hquotient, show (-(n / p) - 1 + 1) * p = -(p * (n / p)) by ring]
      omega
    · exact .inr ⟨hzero.symm, Int.emod_eq_zero_of_dvd (Int.dvd_neg.2 (Int.dvd_of_emod_eq_zero hzero.symm))⟩

def InStep (P : Preset) (clock : Clock) (timeItem : TimeItem) (call : TaskCall) : Prop :=
  call.slotOrEpoch = clock.msFromGenesis call.now / clock.miliSecondsPer P timeItem

theorem begun_iff {call : TaskCall} :
    clock.Begun P timeItem call ↔ call.slotOrEpoch ≤ clock.msFromGenesis call.now / clock.miliSecondsPer P timeItem := by
  rw [Int.le_ediv_iff_mul_le (miliSecondsPer_pos P clock timeItem)]
  unfold Begun msFromGenesis
  omega

variable {call : TaskCall} {round : Round}

theorem nextCall_slotOrEpoch (P : Preset) (clock : Clock) (timeItem : TimeItem) (call : TaskCall) (round : Round) :
    (clock.nextCall P timeItem call round).slotOrEpoch =
      if 2 * (clock.msFromGenesis (clock.wakeUp P timeItem call round) % clock.miliSecondsPer P timeItem) +
          clock.config.SECONDS_PER_SLOT * 1000 < 2 * clock.miliSecondsPer P timeItem then
        clock.msFromGenesis (clock.wakeUp P timeItem call round) / clock.miliSecondsPer P timeItem
      else clock.msFromGenesis (clock.wakeUp P timeItem call round) / clock.miliSecondsPer P timeItem + 1 := by
  have hslots := slotsPer_pos P timeItem
  have hseconds := clock.config.pos
  have hpos : (0 : Int) < clock.config.SECONDS_PER_SLOT * 1000 := by positivity
  refine (rounded_eq _).trans (rounded_cases hpos ?_)
  rw [miliSecondsPer_eq]
  exact le_mul_of_one_le_right hpos.le (by exact_mod_cast hslots)

theorem begun_nextCall_iff : clock.Begun P timeItem (clock.nextCall P timeItem call round) ↔
    2 * (clock.msFromGenesis (clock.wakeUp P timeItem call round) % clock.miliSecondsPer P timeItem) +
      clock.config.SECONDS_PER_SLOT * 1000 < 2 * clock.miliSecondsPer P timeItem := by
  rw [begun_iff, nextCall_slotOrEpoch]
  dsimp only [nextCall]
  split
  · rename_i hearly
    exact iff_of_true le_rfl hearly
  · rename_i hlate
    exact iff_of_false (Int.not_le.2 (Int.lt_succ _)) hlate

theorem inStep_nextCall (hbegun : clock.Begun P timeItem (clock.nextCall P timeItem call round)) :
    InStep P clock timeItem (clock.nextCall P timeItem call round) := by
  unfold InStep
  rw [nextCall_slotOrEpoch, if_pos (begun_nextCall_iff.1 hbegun)]
  rfl

/-- **The next slot is a later one unless the loop did not sleep**, both slots being those of their times. -/
theorem lt_nextCall_iff (hcall : InStep P clock timeItem call) (hnext : InStep P clock timeItem (clock.nextCall P timeItem call round)) :
    call.slotOrEpoch < (clock.nextCall P timeItem call round).slotOrEpoch ↔
      (clock.timeUntilNext P timeItem (call.now + round.taskMs) = 0 →
        0 < round.taskMs ∨ clock.miliSecondsPer P timeItem ≤ round.delayMs) := by
  have hpos := miliSecondsPer_pos P clock timeItem
  have hcases := timeUntilNext_cases P clock timeItem (call.now + round.taskMs)
  have hended : clock.msFromGenesis (call.now + round.taskMs) = clock.msFromGenesis call.now + round.taskMs := by
    unfold msFromGenesis
    omega
  have hwoken : clock.msFromGenesis (clock.wakeUp P timeItem call round) = clock.msFromGenesis call.now + round.taskMs +
      clock.timeUntilNext P timeItem (call.now + round.taskMs) + round.delayMs := by
    unfold msFromGenesis wakeUp
    omega
  rw [hcall, hnext]
  dsimp only [nextCall]
  rw [hwoken]
  rw [hended] at hcases
  generalize clock.timeUntilNext P timeItem (call.now + round.taskMs) = t at *
  generalize clock.miliSecondsPer P timeItem = p at *
  generalize clock.msFromGenesis call.now = m at *
  have hmono : m / p ≤ (m + round.taskMs) / p := Int.ediv_le_ediv hpos (by omega)
  rcases hcases with ⟨hsleep, hstart⟩ | ⟨rfl, hstart⟩
  · refine iff_of_true ?_ fun h => absurd h hsleep.ne'
    rw [hstart]
    refine Int.lt_of_le_of_lt hmono (Int.lt_of_lt_of_le (Int.lt_succ _) ?_)
    rw [Int.le_ediv_iff_mul_le hpos]
    omega
  · obtain ⟨k, hk⟩ := Int.dvd_of_emod_eq_zero hstart
    rw [hk, add_zero, Int.add_ediv_of_dvd_left (Dvd.intro k rfl), Int.mul_ediv_cancel_left k hpos.ne']
    have hdelay : 0 ≤ (round.delayMs : Int) / p := Int.ediv_nonneg (Int.natCast_nonneg _) hpos.le
    have hwhole : p ≤ round.delayMs ↔ 1 ≤ (round.delayMs : Int) / p := by
      rw [Int.le_ediv_iff_mul_le hpos, one_mul]
    have htask : m / p < k ↔ 0 < round.taskMs := by
      rw [Int.ediv_lt_iff_lt_mul hpos, mul_comm, ← hk]
      omega
    rw [hwhole, ← htask]
    have hle : m / p ≤ k := by rwa [hk, Int.mul_ediv_cancel_left k hpos.ne'] at hmono
    omega

theorem exists_callsFrom_eq (P : Preset) (clock : Clock) (timeItem : TimeItem) (call : TaskCall) (rounds : List Round) :
    ∃ later, clock.callsFrom P timeItem call rounds = call :: later := by
  cases rounds with
  | nil => exact ⟨[], rfl⟩
  | cons round rounds => exact ⟨_, rfl⟩

theorem callsFrom_iff : ∀ (rounds : List Round) {call : TaskCall}, InStep P clock timeItem call →
    ((((clock.callsFrom P timeItem call rounds).IsChain fun call next => call.slotOrEpoch < next.slotOrEpoch) ∧
      ∀ made ∈ clock.callsFrom P timeItem call rounds, clock.Begun P timeItem made) ↔ clock.EachPunctual P timeItem call rounds)
  | [], call, hcall => iff_of_true ⟨.singleton call, List.forall_mem_singleton.2 (begun_iff.2 hcall.le)⟩ trivial
  | round :: rounds, call, hcall => by
    obtain ⟨later, hlater⟩ := exists_callsFrom_eq P clock timeItem (clock.nextCall P timeItem call round) rounds
    unfold callsFrom EachPunctual
    by_cases hbegun : clock.Begun P timeItem (clock.nextCall P timeItem call round)
    · have hnext := inStep_nextCall hbegun
      have hpunctual : clock.Punctual P timeItem call round ↔
          call.slotOrEpoch < (clock.nextCall P timeItem call round).slotOrEpoch := by
        rw [lt_nextCall_iff hcall hnext]
        exact ⟨fun h => h.sleeps, fun h => ⟨begun_nextCall_iff.1 hbegun, h⟩⟩
      have hrest := callsFrom_iff rounds hnext
      rw [hlater] at hrest ⊢
      rw [hpunctual, ← hrest, List.isChain_cons_cons, List.forall_mem_cons, and_iff_right (begun_iff.2 hcall.le), and_assoc]
    · refine iff_of_false (fun h => hbegun (h.2 _ ?_)) fun h => hbegun (begun_nextCall_iff.2 h.1.early)
      rw [hlater]
      exact List.mem_cons_of_mem _ List.mem_cons_self

end

/-- **The slots or epochs passed to the task strictly increase and have begun exactly where each round is punctual.** -/
theorem runAtMostEvery_iff (P : Preset) (clock : Clock) (timeItem : TimeItem) (now : Int) (rounds : List Round) :
    (((clock.runAtMostEvery P timeItem now rounds).Pairwise fun call later => call.slotOrEpoch < later.slotOrEpoch) ∧
      ∀ call ∈ clock.runAtMostEvery P timeItem now rounds, clock.Begun P timeItem call) ↔
      clock.EachPunctual P timeItem (clock.firstCall P timeItem now) rounds := by
  have htrans : IsTrans TaskCall fun call later => call.slotOrEpoch < later.slotOrEpoch := ⟨fun _ _ _ => Int.lt_trans⟩
  unfold runAtMostEvery
  rw [← List.isChain_iff_pairwise]
  exact callsFrom_iff rounds (floored_eq now)

def twelveSeconds : Clock where
  config := LocalClock.twelveSeconds.config
  genesisTime := 0

/-- A sleep that lasts seven seconds too long, and a task of one second after it. -/
def lateRounds : List Round := [⟨0, 7000⟩, ⟨1000, 0⟩]

/-- Slot 2 is passed on five seconds before it begins, and then again. -/
theorem slot_passed_twice : ¬ ∀ (P : Preset) (clock : Clock) (timeItem : TimeItem) (now : Int) (rounds : List Round),
    ((clock.runAtMostEvery P timeItem now rounds).Pairwise fun call later => call.slotOrEpoch < later.slotOrEpoch) ∧
      ∀ call ∈ clock.runAtMostEvery P timeItem now rounds, clock.Begun P timeItem call := by
  intro h
  have hruns := (h minimal twelveSeconds .Slot 0 lateRounds).1
  have hcalls : twelveSeconds.runAtMostEvery minimal .Slot 0 lateRounds = [⟨0, 0⟩, ⟨19000, 2⟩, ⟨24000, 2⟩] := by decide +kernel
  rw [hcalls] at hruns
  exact absurd hruns (by decide)

end Clock

end Lodestar.Validator
