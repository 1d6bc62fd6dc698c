import Mathlib.Algebra.Order.BigOperators.Group.List
import Mathlib.Algebra.Order.Field.Basic
import Mathlib.Data.List.Induction
import Mathlib.Logic.Function.Basic
import Mathlib.Tactic.Linarith
/-!
# PeerRpcScore — a score that decays to zero over time

The time of the last update is stored only when a time is stored already, or when the peer is banned.  Before its first ban a peer has
none, and its score does not decay (`run_fresh`).  A ban stores a time to come, and the score stands until then: `ban_holds`.
-/
namespace Lodestar.Network

structure Decay (α : Type) [Field α] [LinearOrder α] where
  factor : Int → α
  zero : factor 0 = 1
  pos : ∀ t, 0 < t → 0 < factor t
  lt_one : ∀ t, 0 < t → factor t < 1
  add : ∀ s t, 0 ≤ s → 0 ≤ t → factor (s + t) = factor s * factor t

inductive PeerAction
  | Fatal
  | LowToleranceError
  | MidToleranceError
  | HighToleranceError
deriving DecidableEq, Repr

inductive ScoreState
  | Healthy
  | Disconnected
  | Banned
deriving DecidableEq, Repr

/-- The number of miliseconds we ban a peer for before their score begins to decay. -/
def BANNED_BEFORE_DECAY_MS : Int := 1800 * 1000

/-- The buckets of the scores. -/
structure PeerMetadataStore (Peer α : Type) where
  rpcScore : Peer → Option α := fun _ => none
  rpcScoreLastUpdate : Peer → Option Int := fun _ => none

section

variable {Peer α : Type} [DecidableEq Peer] [Field α] [LinearOrder α]

def DEFAULT_SCORE : α := 0
def MIN_SCORE_BEFORE_DISCONNECT : α := -20
def MIN_SCORE_BEFORE_BAN : α := -50
def MAX_SCORE : α := 100
def MIN_SCORE : α := -100

def peerActionScore : PeerAction → α
  | .Fatal => -(MAX_SCORE - MIN_SCORE)
  | .LowToleranceError => -(10 : Nat)
  | .MidToleranceError => -(5 : Nat)
  | .HighToleranceError => -1

def scoreToState (score : α) : ScoreState :=
  if score ≤ MIN_SCORE_BEFORE_BAN then .Banned
  else if score ≤ MIN_SCORE_BEFORE_DISCONNECT then .Disconnected
  else .Healthy

namespace PeerMetadataStore

variable (decay : Decay α) (nowMs : Int) (peer : Peer)

section

variable (store : PeerMetadataStore Peer α)

def getScore : α := (store.rpcScore peer).getD DEFAULT_SCORE

def getScoreState : ScoreState := scoreToState (store.getScore peer)

def decayScore (prevScore : α) (store : PeerMetadataStore Peer α) : α × PeerMetadataStore Peer α :=
  let lastUpdate := (store.rpcScoreLastUpdate peer).getD nowMs
  -- Decay the current score
  let sinceLastUpdateMs := nowMs - lastUpdate
  -- If peer was banned, lastUpdate will be in the future
  if 0 < sinceLastUpdateMs ∧ prevScore ≠ 0 then
    (prevScore * decay.factor sinceLastUpdateMs,
      { store with rpcScoreLastUpdate := Function.update store.rpcScoreLastUpdate peer (some nowMs) })
  else (prevScore, store)

def add (scoreDelta : α) (store : PeerMetadataStore Peer α) : PeerMetadataStore Peer α :=
  let prevScore := store.getScore peer
  let (decayed, store) := store.decayScore decay nowMs peer prevScore
  let newScore := decayed + scoreDelta
  let newScore := if MAX_SCORE < newScore then MAX_SCORE else newScore
  let newScore := if newScore < MIN_SCORE then MIN_SCORE else newScore
  let store :=
    if scoreToState prevScore ≠ .Banned ∧ scoreToState newScore = .Banned then
      -- ban this peer for at least BANNED_BEFORE_DECAY_MS seconds
      { store with
        rpcScoreLastUpdate := Function.update store.rpcScoreLastUpdate peer (some (nowMs + BANNED_BEFORE_DECAY_MS)) }
    else store
  { store with rpcScore := Function.update store.rpcScore peer (some newScore) }

def applyAction (action : PeerAction) (store : PeerMetadataStore Peer α) : PeerMetadataStore Peer α :=
  store.add decay nowMs peer (peerActionScore action)

def update : PeerMetadataStore Peer α := store.add decay nowMs peer 0

end

end PeerMetadataStore

/-! ## Runs -/

/-- A call about the peer at a time; without an action it is an `update`. -/
structure ScoreCall where
  time : Int
  action : Option PeerAction

def ScoreCall.delta (call : ScoreCall) : α := (call.action.map peerActionScore).getD 0

namespace PeerMetadataStore

variable (decay : Decay α) (peer : Peer)

def call (store : PeerMetadataStore Peer α) (call : ScoreCall) : PeerMetadataStore Peer α :=
  match call.action with
  | some action => store.applyAction decay call.time peer action
  | none => store.update decay call.time peer

section

variable (store : PeerMetadataStore Peer α) (calls : List ScoreCall)

def run : PeerMetadataStore Peer α := calls.foldl (call decay peer) store

def NeverBans : Prop :=
  ∀ before, before <+: calls → (store.run decay peer before).getScoreState peer ≠ .Banned

end

/-- Nothing is stored of the peer. -/
structure Fresh (store : PeerMetadataStore Peer α) : Prop where
  rpcScore : store.rpcScore peer = none
  rpcScoreLastUpdate : store.rpcScoreLastUpdate peer = none

end PeerMetadataStore

def decayedSum (decay : Decay α) (now : Int) (calls : List ScoreCall) : α :=
  (calls.map fun call => call.delta * decay.factor (now - call.time)).sum

def lastTime (calls : List ScoreCall) : Int := (calls.getLast?.map ScoreCall.time).getD 0

/-! ## Without a time of the last update -/

variable {decay : Decay α} {peer : Peer} {store : PeerMetadataStore Peer α} {calls : List ScoreCall}

namespace PeerMetadataStore

theorem call_eq (store : PeerMetadataStore Peer α) (call : ScoreCall) :
    store.call decay peer call = store.add decay call.time peer call.delta := by
  unfold PeerMetadataStore.call ScoreCall.delta
  cases call.action with
  | none => rfl
  | some action => rfl

omit [LinearOrder α] in
theorem getScore_rpcScore (store : PeerMetadataStore Peer α) (peer : Peer) (score : α) :
    ({ store with rpcScore := Function.update store.rpcScore peer (some score) } : PeerMetadataStore Peer α).getScore peer = score := by
  unfold getScore
  dsimp only
  rw [Function.update_self, Option.getD_some]

theorem run_concat (store : PeerMetadataStore Peer α) (calls : List ScoreCall) (call : ScoreCall) :
    store.run decay peer (calls ++ [call]) = (store.run decay peer calls).add decay call.time peer call.delta := by
  unfold run
  rw [List.foldl_append]
  exact call_eq _ call

end PeerMetadataStore

variable [IsStrictOrderedRing α]

theorem ScoreCall.delta_nonpos (call : ScoreCall) : (call.delta : α) ≤ 0 := by
  unfold ScoreCall.delta
  cases call.action with
  | none => exact le_refl 0
  | some action =>
    cases action <;> simp only [Option.map_some, Option.getD_some, peerActionScore, MAX_SCORE, MIN_SCORE] <;> norm_num

namespace PeerMetadataStore

theorem add_undecayed {nowMs : Int} {scoreDelta : α} (hnone : store.rpcScoreLastUpdate peer = none) (hscore : store.getScore peer ≤ 0)
    (hdelta : scoreDelta ≤ 0) (hstate : (store.add decay nowMs peer scoreDelta).getScoreState peer ≠ .Banned) :
    (store.add decay nowMs peer scoreDelta).getScore peer = store.getScore peer + scoreDelta ∧
      (store.add decay nowMs peer scoreDelta).rpcScoreLastUpdate peer = none := by
  have hdecay : store.decayScore decay nowMs peer (store.getScore peer) = (store.getScore peer, store) := by
    unfold decayScore
    dsimp only
    rw [hnone, Option.getD_none, sub_self]
    exact if_neg fun h => lt_irrefl _ h.1
  have hmax : ¬ MAX_SCORE < store.getScore peer + scoreDelta := by
    unfold MAX_SCORE
    linarith
  unfold add getScoreState at hstate
  unfold add
  dsimp only at hstate ⊢
  rw [hdecay, if_neg hmax, getScore_rpcScore] at hstate ⊢
  by_cases hmin : store.getScore peer + scoreDelta < MIN_SCORE
  · refine absurd ?_ hstate
    rw [if_pos hmin]
    refine if_pos ?_
    unfold MIN_SCORE MIN_SCORE_BEFORE_BAN
    norm_num
  · rw [if_neg hmin] at hstate ⊢
    rw [if_neg fun h => hstate h.2]
    exact ⟨rfl, hnone⟩

/-- **A peer that was never banned has the sum of what its calls added**, and no time of a last update. -/
theorem run_fresh (hfresh : store.Fresh peer) (hnever : store.NeverBans decay peer calls) :
    (store.run decay peer calls).getScore peer = (calls.map ScoreCall.delta).sum ∧
      (store.run decay peer calls).rpcScoreLastUpdate peer = none := by
  induction calls using List.reverseRecOn with
  | nil =>
    refine ⟨?_, hfresh.rpcScoreLastUpdate⟩
    show (store.rpcScore peer).getD DEFAULT_SCORE = 0
    rw [hfresh.rpcScore]
    rfl
  | append_singleton calls call ih =>
    obtain ⟨hscore, hnone⟩ := ih fun before hbefore => hnever before (hbefore.trans (List.prefix_append _ _))
    have hnonpos : (store.run decay peer calls).getScore peer ≤ 0 := by
      rw [hscore]
      refine (List.sum_le_card_nsmul _ 0 fun delta hdelta => ?_).trans (nsmul_zero _).le
      obtain ⟨call, -, rfl⟩ := List.mem_map.1 hdelta
      exact call.delta_nonpos
    have hstate := hnever _ List.prefix_rfl
    rw [run_concat] at hstate ⊢
    obtain ⟨hadd, hlast⟩ := add_undecayed hnone hnonpos call.delta_nonpos hstate
    rw [hadd, hscore, List.map_append, List.sum_append, List.map_singleton, List.sum_singleton]
    exact ⟨rfl, hlast⟩

end PeerMetadataStore

/-! ## The decayed sum -/

theorem sum_eq_sum_iff {l : List ScoreCall} {f g : ScoreCall → α} (h : ∀ call ∈ l, f call ≤ g call) :
    (l.map f).sum = (l.map g).sum ↔ ∀ call ∈ l, f call = g call := by
  induction l with
  | nil => exact iff_of_true rfl (List.forall_mem_nil _)
  | cons call l ih =>
    obtain ⟨hcall, hrest⟩ := List.forall_mem_cons.1 h
    rw [List.map_cons, List.map_cons, List.sum_cons, List.sum_cons, List.forall_mem_cons, ← ih hrest]
    exact add_eq_add_iff_eq_and_eq hcall (List.sum_le_sum hrest)

omit [IsStrictOrderedRing α] in
theorem delta_eq_decayed_iff {now : Int} {call : ScoreCall} (h : call.time < now) :
    (call.delta : α) = call.delta * decay.factor (now - call.time) ↔ (call.delta : α) = 0 := by
  have hlt := decay.lt_one (now - call.time) (by omega)
  constructor
  · intro heq
    by_contra hne
    exact hlt.ne (mul_left_cancel₀ hne (heq.symm.trans (mul_one _).symm))
  · intro hzero
    rw [hzero, zero_mul]

theorem sum_eq_decayedSum_iff (htimes : calls.Pairwise fun call later => call.time < later.time) :
    (calls.map ScoreCall.delta).sum = decayedSum decay (lastTime calls) calls ↔ ∀ call ∈ calls.dropLast, (call.delta : α) = 0 := by
  rcases List.eq_nil_or_concat' calls with rfl | ⟨before, last, rfl⟩
  · exact iff_of_true rfl (List.forall_mem_nil _)
  · have hbefore : ∀ call ∈ before, call.time < last.time := by
      have happend := List.pairwise_append.1 htimes
      exact fun call hcall => happend.2.2 call hcall last List.mem_cons_self
    have hlast : lastTime (before ++ [last]) = last.time := by
      unfold lastTime
      rw [List.getLast?_concat]
      rfl
    have hle : ∀ call ∈ before ++ [last], (call.delta : α) ≤ call.delta * decay.factor (last.time - call.time) := by
      intro call hcall
      rcases List.mem_append.1 hcall with hmem | hmem
      · have hone := decay.lt_one (last.time - call.time) (by have := hbefore call hmem; omega)
        have hnonpos : (call.delta : α) ≤ 0 := call.delta_nonpos
        nlinarith
      · rw [List.mem_singleton.1 hmem, sub_self, decay.zero, mul_one]
    unfold decayedSum
    rw [hlast, sum_eq_sum_iff hle, List.dropLast_concat, List.forall_mem_append, List.forall_mem_singleton, sub_self, decay.zero, mul_one]
    refine (and_iff_left rfl).trans (forall₂_congr fun call hcall => ?_)
    exact delta_eq_decayed_iff (hbefore call hcall)

/-- **The stored score is the decayed sum exactly where only the last call brings a penalty**, in a run without a ban. -/
theorem score_eq_decayedSum_iff {store : PeerMetadataStore Peer α} (hfresh : store.Fresh peer)
    (htimes : calls.Pairwise fun call later => call.time < later.time) (hnever : store.NeverBans decay peer calls) :
    (store.run decay peer calls).getScore peer = decayedSum decay (lastTime calls) calls ↔
      ∀ call ∈ calls.dropLast, call.action.isNone := by
  rw [(PeerMetadataStore.run_fresh hfresh hnever).1, sum_eq_decayedSum_iff htimes]
  refine forall₂_congr fun call _ => ?_
  unfold ScoreCall.delta
  cases call.action with
  | none => exact iff_of_true rfl rfl
  | some action =>
    refine iff_of_false (fun hzero => ?_) nofun
    cases action <;> simp only [Option.map_some, Option.getD_some, peerActionScore, MAX_SCORE, MIN_SCORE] at hzero <;> norm_num at hzero

/-! ## Bans -/

variable {nowMs : Int} {scoreDelta : α}

omit [IsStrictOrderedRing α] in
theorem scoreToState_banned {score : α} : scoreToState score = .Banned ↔ score ≤ MIN_SCORE_BEFORE_BAN := by
  unfold scoreToState
  split_ifs with hban hdisconnect
  · exact iff_of_true rfl hban
  · exact iff_of_false nofun hban
  · exact iff_of_false nofun hban

namespace PeerMetadataStore

theorem getScore_add (hscore : (store.decayScore decay nowMs peer (store.getScore peer)).1 ≤ 0) (hdelta : scoreDelta ≤ 0) :
    (store.add decay nowMs peer scoreDelta).getScore peer =
      max MIN_SCORE ((store.decayScore decay nowMs peer (store.getScore peer)).1 + scoreDelta) := by
  have hmax : ¬ MAX_SCORE < (store.decayScore decay nowMs peer (store.getScore peer)).1 + scoreDelta := by
    unfold MAX_SCORE
    linarith
  unfold add
  dsimp only
  rw [getScore_rpcScore, if_neg hmax]
  split_ifs with hmin
  · exact (max_eq_left hmin.le).symm
  · exact (max_eq_right (not_lt.1 hmin)).symm

omit [IsStrictOrderedRing α] in
/-- Only a call that bans the peer moves the time of its last update past that call. -/
theorem rpcScoreLastUpdate_add : (store.add decay nowMs peer scoreDelta).rpcScoreLastUpdate peer =
    if store.getScoreState peer ≠ .Banned ∧ (store.add decay nowMs peer scoreDelta).getScoreState peer = .Banned then
      some (nowMs + BANNED_BEFORE_DECAY_MS)
    else (store.decayScore decay nowMs peer (store.getScore peer)).2.rpcScoreLastUpdate peer := by
  unfold add getScoreState
  dsimp only
  rw [getScore_rpcScore]
  split_ifs <;> simp only [Function.update_self]

/-- What a ban leaves: a score low enough, and a time from which on it decays. -/
structure BannedUntil (store : PeerMetadataStore Peer α) (peer : Peer) (decaysFrom : Int) : Prop where
  banned : store.getScoreState peer = .Banned
  lastUpdate : store.rpcScoreLastUpdate peer = some decaysFrom

variable {decaysFrom : Int}

omit [DecidableEq Peer] [IsStrictOrderedRing α] in
theorem BannedUntil.score_le (h : store.BannedUntil peer decaysFrom) : store.getScore peer ≤ MIN_SCORE_BEFORE_BAN :=
  scoreToState_banned.1 h.banned

theorem BannedUntil.add (h : store.BannedUntil peer decaysFrom) (hnow : nowMs ≤ decaysFrom) (hdelta : scoreDelta ≤ 0) :
    (store.add decay nowMs peer scoreDelta).BannedUntil peer decaysFrom := by
  have hdecay : store.decayScore decay nowMs peer (store.getScore peer) = (store.getScore peer, store) := by
    unfold decayScore
    dsimp only
    rw [h.lastUpdate, Option.getD_some]
    exact if_neg fun hpos => by omega
  have hban : (MIN_SCORE_BEFORE_BAN : α) ≤ 0 := by norm_num [MIN_SCORE_BEFORE_BAN]
  have hmin : (MIN_SCORE : α) ≤ MIN_SCORE_BEFORE_BAN := by norm_num [MIN_SCORE, MIN_SCORE_BEFORE_BAN]
  refine ⟨?_, ?_⟩
  · unfold getScoreState
    rw [scoreToState_banned, getScore_add (by rw [hdecay]; exact h.score_le.trans hban) hdelta, hdecay]
    exact max_le hmin (by linarith [h.score_le])
  · rw [rpcScoreLastUpdate_add, if_neg fun hnew => hnew.1 h.banned, hdecay]
    exact h.lastUpdate

theorem BannedUntil.run (h : store.BannedUntil peer decaysFrom) (hcalls : ∀ call ∈ calls, call.time ≤ decaysFrom) :
    (store.run decay peer calls).BannedUntil peer decaysFrom := by
  induction calls using List.reverseRecOn with
  | nil => exact h
  | append_singleton calls call ih =>
    obtain ⟨hbefore, hcall⟩ := List.forall_mem_append.1 hcalls
    rw [run_concat]
    exact (ih hbefore).add (hcall call (List.mem_singleton_self call)) call.delta_nonpos

theorem BannedUntil.add_later (h : store.BannedUntil peer decaysFrom) (hnow : decaysFrom < nowMs) (hdelta : scoreDelta ≤ 0) :
    (store.add decay nowMs peer scoreDelta).getScore peer =
      max MIN_SCORE (store.getScore peer * decay.factor (nowMs - decaysFrom) + scoreDelta) := by
  have hneg : store.getScore peer < 0 := h.score_le.trans_lt (by norm_num [MIN_SCORE_BEFORE_BAN])
  have hdecay : (store.decayScore decay nowMs peer (store.getScore peer)).1 = store.getScore peer * decay.factor (nowMs - decaysFrom) := by
    unfold decayScore
    dsimp only
    rw [h.lastUpdate, Option.getD_some, if_pos ⟨by omega, hneg.ne⟩]
  have hpos := decay.pos (nowMs - decaysFrom) (by omega)
  rw [getScore_add (by rw [hdecay]; exact mul_nonpos_of_nonpos_of_nonneg hneg.le hpos.le) hdelta, hdecay]

end PeerMetadataStore

end

def halving : Decay ℚ where
  factor t := (1 / 2) ^ t.toNat
  zero := pow_zero _
  pos t _ := by positivity
  lt_one t ht := pow_lt_one₀ (by norm_num) (by norm_num) (by omega)
  add s t hs ht := by rw [Int.toNat_add hs ht, pow_add]

def twoErrors : List ScoreCall := [⟨0, some .HighToleranceError⟩, ⟨1, some .HighToleranceError⟩]

theorem fresh_empty : (({} : PeerMetadataStore Unit ℚ)).Fresh () := ⟨rfl, rfl⟩

theorem twoErrors_neverBans : (({} : PeerMetadataStore Unit ℚ)).NeverBans halving () twoErrors := by
  intro before hbefore
  simp only [twoErrors, List.prefix_cons_iff, List.prefix_nil] at hbefore
  rcases hbefore with rfl | ⟨before, rfl, rfl | ⟨before, rfl, rfl⟩⟩ <;>
    norm_num [PeerMetadataStore.run, PeerMetadataStore.call, PeerMetadataStore.applyAction, PeerMetadataStore.add,
      PeerMetadataStore.decayScore, peerActionScore, MAX_SCORE, MIN_SCORE, PeerMetadataStore.getScoreState, PeerMetadataStore.getScore,
      scoreToState, DEFAULT_SCORE, MIN_SCORE_BEFORE_BAN, MIN_SCORE_BEFORE_DISCONNECT] <;>
    exact nofun

theorem score_keeps_first : ¬ ∀ (decay : Decay ℚ) (store : PeerMetadataStore Unit ℚ) (calls : List ScoreCall), store.Fresh () →
    calls.Pairwise (fun call later => call.time < later.time) → store.NeverBans decay () calls →
    (store.run decay () calls).getScore () = decayedSum decay (lastTime calls) calls := by
  intro h
  have hscore := h halving {} twoErrors fresh_empty (by decide) twoErrors_neverBans
  rw [(PeerMetadataStore.run_fresh fresh_empty twoErrors_neverBans).1, sum_eq_decayedSum_iff (by decide)] at hscore
  have hfirst := hscore _ List.mem_cons_self
  simp [ScoreCall.delta, peerActionScore] at hfirst

theorem score_eq_decayedSum_iff_twoErrors : ¬ (({} : PeerMetadataStore Unit ℚ).run halving () twoErrors).getScore () =
    decayedSum halving (lastTime twoErrors) twoErrors := by
  rw [score_eq_decayedSum_iff fresh_empty (by decide) twoErrors_neverBans]
  decide

end Lodestar.Network
