import Lodestar.StateTransition.AttesterStatuses
import Lodestar.StateTransition.Genesis
import Lodestar.StateTransition.LatestHeader
/-!
# Histories — the slots and blocks that lead to a state

A `Path` goes from one state to another by single slots and by blocks, and keeps the headers whose roots the slots write and
the blocks it applied.  Where those roots are free of collisions, the root that two paths from genesis write at a slot
decides the whole state at that slot: `Path.eq_of_root`.  What is justified and finalized along a path: `Path.finality_run`.
-/
namespace Lodestar.StateTransition

open Lib

variable {P : Preset} {env : Env P} {cfg : ChainConfig} {s₀ s s' r r' : CachedBeaconState P}

inductive Turn
  | slot (closed : BeaconBlockHeader)
  | block (block : BeaconBlock)

def Turn.header? : Turn → Option BeaconBlockHeader
  | .slot closed => some closed
  | .block _ => none

/-- The header whose root `processSlot` writes. -/
def closingHeader (env : Env P) (cfg : ChainConfig) (s : CachedBeaconState P) : BeaconBlockHeader :=
  (processSlot env cfg s).latestBlockHeader

inductive Path (env : Env P) (cfg : ChainConfig) (s₀ : CachedBeaconState P) : List Turn → CachedBeaconState P → Prop
  | refl : Path env cfg s₀ [] s₀
  | slot {turns : List Turn} {s s' : CachedBeaconState P} (hpath : Path env cfg s₀ turns s)
      (hslot : advanceSlot env cfg s = .ok s') : Path env cfg s₀ (turns ++ [.slot (closingHeader env cfg s)]) s'
  | block {turns : List Turn} {s s' : CachedBeaconState P} {block : BeaconBlock} (hpath : Path env cfg s₀ turns s)
      (hblock : processBlock env cfg s block true = .ok s') : Path env cfg s₀ (turns ++ [.block block]) s'

namespace Path

variable {turns turns' : List Turn}

theorem trans (h : Path env cfg s₀ turns s) (h' : Path env cfg s turns' s') : Path env cfg s₀ (turns ++ turns') s' := by
  induction h' with
  | refl =>
    rw [List.append_nil]
    exact h
  | slot _ hslot ih =>
    rw [← List.append_assoc]
    exact ih.slot hslot
  | block _ hblock ih =>
    rw [← List.append_assoc]
    exact ih.block hblock

/-! ## The transitions of the source are paths -/

theorem processSlots_path {slot : Nat} (h : processSlots env cfg s slot = .ok s') : ∃ turns, Path env cfg s turns s' :=
  processSlots_keeps (I := fun t => ∃ turns, Path env cfg s turns t) (fun hslot ⟨_, hpath⟩ => ⟨_, hpath.slot hslot⟩) h
    ⟨[], .refl⟩

/-- **Empty slots, then a block**: a transition that verifies the signatures is a path. -/
theorem stateTransition_path {signedBlock : SignedBeaconBlock} {options : TransitionOptions}
    (h : stateTransition env cfg s signedBlock options = .ok s') (hverify : options.verifySignatures = true) :
    ∃ turns, Path env cfg s turns s' := by
  unfold stateTransition at h
  simp only [bind_eq_ok, pure_eq_ok] at h
  obtain ⟨s₁, h₁, _, -, _, -, s₂, h₂, _, -, rfl⟩ := h
  rw [hverify] at h₂
  obtain ⟨turns, hpath⟩ := processSlots_path h₁
  exact ⟨_, hpath.block h₂⟩

/-! ## Slots along a path -/

theorem processBlock_slot {block : BeaconBlock} {verify : Bool} (h : processBlock env cfg s block verify = .ok s') :
    s'.slot = s.slot := (processBlockByFork_keeps h rfl).1.slot

section

variable (h : Path env cfg s₀ turns s)
include h

theorem slot_le : s₀.slot ≤ s.slot := by
  induction h with
  | refl => exact Nat.le_refl _
  | slot _ hslot ih =>
    rw [advanceSlot_slot hslot]
    omega
  | block _ hblock ih =>
    rw [processBlock_slot hblock]
    exact ih

theorem fresh (hfresh : Fresh env cfg s₀) : Fresh env cfg s := by
  induction h with
  | refl => exact hfresh
  | slot _ hslot ih => exact advanceSlot_fresh hslot ih
  | block _ hblock ih => exact processBlock_fresh hblock ih

/-- **Along a path every validator keeps a balance and its participation.** -/
theorem aligned (haligned : Aligned s₀.toBeaconState) : Aligned s.toBeaconState := by
  induction h with
  | refl => exact haligned
  | slot _ hslot ih => exact advanceSlot_aligned hslot ih
  | block _ hblock ih => exact processBlockByFork_aligned hblock ih

variable {k : Nat}

theorem split_slot (hfrom : s₀.slot ≤ k) (hto : k < s.slot) :
    ∃ turns₁ turns₂ r r', Path env cfg s₀ turns₁ r ∧ r.slot = k ∧ advanceSlot env cfg r = .ok r' ∧
      Path env cfg r' turns₂ s ∧ turns = turns₁ ++ .slot (closingHeader env cfg r) :: turns₂ := by
  induction h with
  | refl => omega
  | @slot turns s s' hpath hslot ih =>
    rw [advanceSlot_slot hslot] at hto
    by_cases hk : k = s.slot
    · exact ⟨turns, [], s, s', hpath, hk.symm, hslot, .refl, rfl⟩
    · obtain ⟨turns₁, turns₂, r, r', h₁, hr, hr', h₂, rfl⟩ := ih (by omega)
      exact ⟨turns₁, _, r, r', h₁, hr, hr', h₂.slot hslot, by rw [List.append_assoc, List.cons_append]⟩
  | @block turns s s' block hpath hblock ih =>
    rw [processBlock_slot hblock] at hto
    obtain ⟨turns₁, turns₂, r, r', h₁, hr, hr', h₂, rfl⟩ := ih hto
    exact ⟨turns₁, _, r, r', h₁, hr, hr', h₂.block hblock, by rw [List.append_assoc, List.cons_append]⟩

end

/-! ## Block roots along a path -/

theorem advanceSlot_blockRoots (h : advanceSlot env cfg s = .ok s') : s'.blockRoots =
    s.blockRoots.set (s.slot % P.SLOTS_PER_HISTORICAL_ROOT) (env.headerRoot (closingHeader env cfg s))
      (Nat.mod_lt _ P.historicalRoot_pos) := (advanceSlot_keepsShape h).blockRoots

theorem blockRoots_get (h : Path env cfg s₀ turns s) (hk : k < s₀.slot) (hto : s.slot ≤ k + P.SLOTS_PER_HISTORICAL_ROOT)
    (hlt : k % P.SLOTS_PER_HISTORICAL_ROOT < P.SLOTS_PER_HISTORICAL_ROOT) :
    s.blockRoots[k % P.SLOTS_PER_HISTORICAL_ROOT] = s₀.blockRoots[k % P.SLOTS_PER_HISTORICAL_ROOT] := by
  induction h with
  | refl => rfl
  | @slot turns s s' hpath hslot ih =>
    rw [advanceSlot_slot hslot] at hto
    have hle := hpath.slot_le
    have hne : s.slot % P.SLOTS_PER_HISTORICAL_ROOT ≠ k % P.SLOTS_PER_HISTORICAL_ROOT := by
      intro heq
      have hzero := Nat.sub_mod_eq_zero_of_mod_eq heq
      rw [Nat.mod_eq_of_lt (by omega)] at hzero
      omega
    rw [← ih (by omega)]
    simp only [advanceSlot_blockRoots hslot]
    exact Vector.getElem_set_ne _ _ hne
  | @block turns s s' block hpath hblock ih =>
    rw [processBlock_slot hblock] at hto
    rw [← ih hto]
    simp only [(processBlockByFork_applies hblock).blockRoots]

theorem getBlockRootAtSlot_path (h : Path env cfg s₀ turns s) {root : Root} (hfrom : s₀.slot ≤ k)
    (hroot : getBlockRootAtSlot s.toBeaconState k = .ok root) :
    ∃ turns₁ turns₂ r r', Path env cfg s₀ turns₁ r ∧ r.slot = k ∧ advanceSlot env cfg r = .ok r' ∧
      Path env cfg r' turns₂ s ∧ turns = turns₁ ++ .slot (closingHeader env cfg r) :: turns₂ ∧
      root = env.headerRoot (closingHeader env cfg r) := by
  unfold getBlockRootAtSlot at hroot
  simp only [bind_eq_ok, check_eq_ok, decide_eq_true_eq, pure_eq_ok] at hroot
  obtain ⟨_, hlt, _, hle, rfl⟩ := hroot
  obtain ⟨turns₁, turns₂, r, r', h₁, hr, hr', h₂, hturns⟩ := h.split_slot hfrom hlt
  refine ⟨turns₁, turns₂, r, r', h₁, hr, hr', h₂, hturns, ?_⟩
  have hplace : k % P.SLOTS_PER_HISTORICAL_ROOT < P.SLOTS_PER_HISTORICAL_ROOT := Nat.mod_lt _ P.historicalRoot_pos
  have hkept := h₂.blockRoots_get (k := k) (by rw [advanceSlot_slot hr', hr]; exact Nat.lt_succ_self k) hle hplace
  have hwritten := advanceSlot_blockRoots hr'
  subst hr
  refine Eq.trans hkept ?_
  simp only [hwritten]
  exact Vector.getElem_set_self _

/-! ## Where roots have no collisions -/

theorem header_le (hgenesis : s₀.latestBlockHeader.slot ≤ s₀.slot) (h : Path env cfg s₀ turns s) :
    s.latestBlockHeader.slot ≤ s.slot := by
  induction h with
  | refl => exact hgenesis
  | slot _ hslot ih =>
    rw [advanceSlot_header hslot, advanceSlot_slot hslot]
    omega
  | block _ hblock ih =>
    rw [processBlockByFork_header hblock, processBlock_slot hblock, (processBlockByFork_applies hblock).slot]

theorem header_mem (hgenesis : s₀.latestBlockHeader.slot = s₀.slot) (h : Path env cfg s₀ turns s)
    (hlt : s.latestBlockHeader.slot < s.slot) : .slot s.latestBlockHeader ∈ turns := by
  cases h with
  | refl => omega
  | slot hpath hslot =>
    rw [(advanceSlot_keepsShape hslot).latestBlockHeader]
    exact List.mem_append_right _ (List.mem_singleton.2 rfl)
  | block hpath hblock =>
    rw [processBlockByFork_header hblock, processBlock_slot hblock, (processBlockByFork_applies hblock).slot] at hlt
    omega

end Path

def walk (env : Env P) (cfg : ChainConfig) : List (Option BeaconBlock) → CachedBeaconState P →
    Except String (List Turn × CachedBeaconState P)
  | [], s => pure ([], s)
  | none :: steps, s => do
    let s₁ ← advanceSlot env cfg s
    let (turns, s') ← walk env cfg steps s₁
    pure (.slot (closingHeader env cfg s) :: turns, s')
  | some block :: steps, s => do
    let s₁ ← processBlock env cfg s block true
    let (turns, s') ← walk env cfg steps s₁
    pure (.block block :: turns, s')

theorem walk_path : ∀ (steps : List (Option BeaconBlock)) (s s' : CachedBeaconState P) (turns : List Turn),
    walk env cfg steps s = .ok (turns, s') → Path env cfg s turns s' ∧ ∀ block, .block block ∈ turns → some block ∈ steps
  | [], s, s', turns, h => by
    cases h
    exact ⟨.refl, fun _ hmem => absurd hmem List.not_mem_nil⟩
  | none :: steps, s, s', turns, h => by
    unfold walk at h
    simp only [bind_eq_ok, pure_eq_ok, Prod.mk.injEq] at h
    obtain ⟨s₁, h₁, ⟨turns', _⟩, h₂, rfl, rfl⟩ := h
    obtain ⟨hpath, hblocks⟩ := walk_path steps s₁ _ turns' h₂
    refine ⟨(Path.refl.slot h₁).trans hpath, fun block hmem => ?_⟩
    rcases List.mem_cons.1 hmem with heq | hmem
    · cases heq
    · exact List.mem_cons_of_mem _ (hblocks block hmem)
  | some block :: steps, s, s', turns, h => by
    unfold walk at h
    simp only [bind_eq_ok, pure_eq_ok, Prod.mk.injEq] at h
    obtain ⟨s₁, h₁, ⟨turns', _⟩, h₂, rfl, rfl⟩ := h
    obtain ⟨hpath, hblocks⟩ := walk_path steps s₁ _ turns' h₂
    refine ⟨(Path.refl.block h₁).trans hpath, fun block' hmem => ?_⟩
    rcases List.mem_cons.1 hmem with heq | hmem
    · cases heq
      exact List.mem_cons_self
    · exact List.mem_cons_of_mem _ (hblocks block' hmem)

/-- No two of the headers whose roots were written have one root, and no two bodies of the blocks of a slot do. -/
structure CollisionFree (env : Env P) (cfg : ChainConfig) (turns : List Turn) : Prop where
  headers : ∀ header header', .slot header ∈ turns → .slot header' ∈ turns →
    env.headerRoot header = env.headerRoot header' → header = header'
  bodies : ∀ block block', .block block ∈ turns → .block block' ∈ turns → block.slot = block'.slot →
    env.bodyRoot (getForkName P cfg block.slot) block.body = env.bodyRoot (getForkName P cfg block'.slot) block'.body →
    block.body = block'.body

theorem CollisionFree.mono {turns turns' : List Turn} (h : CollisionFree env cfg turns') (hsub : turns ⊆ turns') :
    CollisionFree env cfg turns where
  headers header header' hmem hmem' := h.headers header header' (hsub hmem) (hsub hmem')
  bodies block block' hmem hmem' := h.bodies block block' (hsub hmem) (hsub hmem')

/-- The same but for the state root, which is filled in later. -/
structure SameBlock (header header' : BeaconBlockHeader) : Prop where
  slot : header.slot = header'.slot
  proposerIndex : header.proposerIndex = header'.proposerIndex
  parentRoot : header.parentRoot = header'.parentRoot
  bodyRoot : header.bodyRoot = header'.bodyRoot

theorem SameBlock.of_closingHeader (h : SameBlock (closingHeader env cfg r) (closingHeader env cfg r')) :
    SameBlock r.latestBlockHeader r'.latestBlockHeader := by
  have hfields : ∀ s : CachedBeaconState P, SameBlock (closingHeader env cfg s) s.latestBlockHeader := by
    intro s
    unfold closingHeader processSlot
    dsimp only
    split <;> exact ⟨rfl, rfl, rfl, rfl⟩
  obtain ⟨hslot, hproposer, hparent, hbody⟩ := h
  obtain ⟨hslot₁, hproposer₁, hparent₁, hbody₁⟩ := hfields r
  obtain ⟨hslot₂, hproposer₂, hparent₂, hbody₂⟩ := hfields r'
  exact ⟨hslot₁.symm.trans (hslot.trans hslot₂), hproposer₁.symm.trans (hproposer.trans hproposer₂),
    hparent₁.symm.trans (hparent.trans hparent₂), hbody₁.symm.trans (hbody.trans hbody₂)⟩

variable {block block' : BeaconBlock}

theorem processBlock_unique {s₁ s₂ : CachedBeaconState P} (h : processBlock env cfg s block true = .ok s₁)
    (h' : processBlock env cfg s block' true = .ok s₂) (hslot : block.slot = block'.slot)
    (hproposer : block.proposerIndex = block'.proposerIndex) (hparent : block.parentRoot = block'.parentRoot)
    (hbody : block.body = block'.body) : s₁ = s₂ := by
  obtain ⟨slot, proposerIndex, parentRoot, stateRoot, body⟩ := block
  obtain ⟨slot', proposerIndex', parentRoot', stateRoot', body'⟩ := block'
  obtain rfl : slot = slot' := hslot
  obtain rfl : proposerIndex = proposerIndex' := hproposer
  obtain rfl : parentRoot = parentRoot' := hparent
  obtain rfl : body = body' := hbody
  unfold processBlock at h h'
  generalize getForkName P cfg slot = fork at h h'
  unfold processBlockByFork at h h'
  simp only [bind_eq_ok] at h h'
  obtain ⟨t₁, h₁, t₂, h₂, t₃, h₃, h₄⟩ := h
  obtain ⟨t₁', h₁', t₂', h₂', t₃', h₃', h₄'⟩ := h'
  have hheader : t₁' = t₁ := Except.ok.inj (h₁'.symm.trans h₁)
  subst hheader
  have hrandao : t₂' = t₂ := by
    unfold processRandao at h₂ h₂'
    simp only [bind_eq_ok, pure_eq_ok] at h₂ h₂'
    obtain ⟨_, -, _, -, rfl⟩ := h₂
    obtain ⟨_, -, _, -, rfl⟩ := h₂'
    rfl
  subst hrandao
  have hops : t₃' = t₃ := Except.ok.inj (h₃'.symm.trans h₃)
  subst hops
  cases fork with
  | phase0 => exact Except.ok.inj (h₄.symm.trans h₄')
  | altair =>
    -- behind the signature, what the aggregate pays is a function of the body
    obtain ⟨_, -, h₄⟩ := bind_eq_ok.1 h₄
    obtain ⟨_, -, h₄⟩ := bind_eq_ok.1 h₄
    obtain ⟨_, -, h₄'⟩ := bind_eq_ok.1 h₄'
    obtain ⟨_, -, h₄'⟩ := bind_eq_ok.1 h₄'
    exact Except.ok.inj (h₄.symm.trans h₄')

namespace Path

variable {turns₁ turns₂ : List Turn} {r₁ r₂ : CachedBeaconState P}

theorem slot_pos {block : BeaconBlock} (h : processBlock env cfg s block true = .ok s') : 0 < s'.slot := by
  have happlies := processBlockByFork_applies h
  have := happlies.newer
  rw [processBlock_slot h, ← happlies.slot]
  omega

section

variable (hslot₀ : s₀.slot = 0) (hheader₀ : s₀.latestBlockHeader.slot = 0) (h₁ : Path env cfg s₀ turns₁ r₁)
include hslot₀ hheader₀ h₁

theorem eq_of_header : ∀ {turns₂ r₂}, Path env cfg s₀ turns₂ r₂ → CollisionFree env cfg (turns₁ ++ turns₂) → r₁.slot = r₂.slot →
      SameBlock r₁.latestBlockHeader r₂.latestBlockHeader → r₁ = r₂ := by
  have hheader_le : s₀.latestBlockHeader.slot ≤ s₀.slot := by omega
  have hheader_eq : s₀.latestBlockHeader.slot = s₀.slot := by omega
  induction h₁ with
  | refl =>
    intro turns₂ r₂ h₂ _ hslot _
    cases h₂ with
    | refl => rfl
    | slot _ hnext =>
      rw [advanceSlot_slot hnext] at hslot
      omega
    | block _ hblock =>
      have := slot_pos hblock
      omega
  | @slot turns₁ q₁ r₁ hpath₁ hnext₁ ih =>
    intro turns₂ r₂ h₂ hfree hslot hsame
    have hslot₁ := advanceSlot_slot hnext₁
    have hheader₁ := hpath₁.header_le hheader_le
    cases h₂ with
    | refl => omega
    | @slot turns₂ q₂ r₂ hpath₂ hnext₂ =>
      have hslot₂ := advanceSlot_slot hnext₂
      rw [(advanceSlot_keepsShape hnext₁).latestBlockHeader, (advanceSlot_keepsShape hnext₂).latestBlockHeader] at hsame
      have hq : q₁ = q₂ := ih hpath₂ (hfree.mono (by grind)) (by omega) hsame.of_closingHeader
      subst hq
      exact Except.ok.inj (hnext₁.symm.trans hnext₂)
    | @block turns₂ q₂ r₂ block hpath₂ hblock =>
      -- a block of this slot is newer than every earlier one
      have hnewest := hsame.slot
      rw [advanceSlot_header hnext₁, processBlockByFork_header hblock, (processBlockByFork_applies hblock).slot,
        ← processBlock_slot hblock] at hnewest
      omega
  | @block turns₁ q₁ r₁ block₁ hpath₁ hblock₁ ih =>
    intro turns₂ r₂ h₂ hfree hslot hsame
    have happlies₁ := processBlockByFork_applies hblock₁
    have hslot₁ := processBlock_slot hblock₁
    cases h₂ with
    | refl =>
      have := slot_pos hblock₁
      omega
    | @slot turns₂ q₂ r₂ hpath₂ hnext₂ =>
      have hslot₂ := advanceSlot_slot hnext₂
      have hheader₂ := hpath₂.header_le hheader_le
      have hnewest := hsame.slot
      rw [advanceSlot_header hnext₂, processBlockByFork_header hblock₁, happlies₁.slot, ← hslot₁] at hnewest
      omega
    | @block turns₂ q₂ r₂ block₂ hpath₂ hblock₂ =>
      have happlies₂ := processBlockByFork_applies hblock₂
      have hslot₂ := processBlock_slot hblock₂
      obtain ⟨-, hproposer, hparent, hbodyRoot⟩ := hsame
      rw [happlies₁.latestBlockHeader, happlies₂.latestBlockHeader] at hproposer hparent hbodyRoot
      dsimp only at hproposer hparent hbodyRoot
      have hslots : block₁.slot = block₂.slot := by rw [happlies₁.slot, happlies₂.slot]; omega
      -- the parents: headers whose roots were written before
      have hmem₁ := hpath₁.header_mem hheader_eq (by have := happlies₁.newer; rw [happlies₁.slot] at this; exact this)
      have hmem₂ := hpath₂.header_mem hheader_eq (by have := happlies₂.newer; rw [happlies₂.slot] at this; exact this)
      have hparents : q₁.latestBlockHeader = q₂.latestBlockHeader :=
        hfree.headers _ _ (by grind) (by grind) (by rw [← happlies₁.parentRoot, hparent, happlies₂.parentRoot])
      have hq : q₁ = q₂ := ih hpath₂ (hfree.mono (by grind)) (by omega) (hparents ▸ ⟨rfl, rfl, rfl, rfl⟩)
      subst hq
      have hbody : block₁.body = block₂.body :=
        hfree.bodies _ _ (by grind) (by grind) hslots (by rw [happlies₁.slot, happlies₂.slot]; exact hbodyRoot)
      exact processBlock_unique hblock₁ hblock₂ hslots hproposer hparent hbody

theorem eq_of_root (h₂ : Path env cfg s₀ turns₂ r₂) {rest₁ rest₂ : List Turn}
    (hfree : CollisionFree env cfg ((turns₁ ++ .slot (closingHeader env cfg r₁) :: rest₁) ++ (turns₂ ++ .slot (closingHeader env cfg r₂) :: rest₂)))
    (hslot : r₁.slot = r₂.slot) (hroot : env.headerRoot (closingHeader env cfg r₁) = env.headerRoot (closingHeader env cfg r₂)) :
    r₁ = r₂ := by
  have hclosing : closingHeader env cfg r₁ = closingHeader env cfg r₂ := hfree.headers _ _ (by simp) (by simp) hroot
  have hsame : SameBlock (closingHeader env cfg r₁) (closingHeader env cfg r₂) := hclosing ▸ ⟨rfl, rfl, rfl, rfl⟩
  exact h₁.eq_of_header hslot₀ hheader₀ h₂ (hfree.mono (by grind)) hslot hsame.of_closingHeader

end

end Path

/-! ## Finality along a path -/

/-- The inputs are the states at the ends of the epochs passed since `s₀`, and the finality fields are what their transitions make. -/
structure Finalizes (env : Env P) (cfg : ChainConfig) (s₀ : CachedBeaconState P) (inputs : List (EpochInput P))
    (s : CachedBeaconState P) : Prop where
  passed : ∀ input ∈ inputs, prepareEpochProcessState cfg input.state = .ok input.process ∧
    ∃ turns last, Path env cfg s₀ turns last ∧ input.state = processSlot env cfg last
  consecutive : Consecutive inputs
  length : inputs.length = getCurrentEpoch s.toBeaconState
  run : runTransitions inputs = .ok s.finality

variable {inputs : List (EpochInput P)} {turns turns' : List Turn}

theorem upgradeState_finality (h : upgradeState env cfg s = .ok s') : s'.finality = s.finality := by
  unfold upgradeState translateParticipation upgradeTreeBackedState at h
  simp only [bind_eq_ok, pure_eq_ok] at h
  obtain ⟨_, ⟨committee, -, rfl⟩, postState, hpost, _, -, rfl⟩ := h
  obtain ⟨-, _, _, _, hst⟩ := createCachedBeaconState_ok hpost
  unfold CachedBeaconState.finality
  simp only [hst]

theorem processBlock_finality {verify : Bool} (h : processBlock env cfg s block verify = .ok s') :
    s'.finality = s.finality := by
  obtain ⟨t, t', -, hbefore, hattested, hafter⟩ := processBlockByFork_votes h
  have hkept : t'.finality = t.finality := by
    refine foldlM_keeps (R := fun s s' : CachedBeaconState P => s'.finality = s.finality) (fun _ => rfl)
      (fun _ _ _ h h' => h'.trans h) _ (fun attestation _ t t' hstep => ?_) _ _ hattested
    obtain ⟨_, _, _, _, _, -, -, -, rfl⟩ := processAttestation_writes hstep
    rfl
  exact hafter.finality.trans (hkept.trans hbefore.finality)

/-- **What a slot does to finality**: nothing within its epoch, and at the end of one what the transition makes of the state there. -/
theorem advanceSlot_finality (h : advanceSlot env cfg s = .ok s') :
    (getCurrentEpoch s'.toBeaconState = getCurrentEpoch s.toBeaconState ∧ s'.finality = s.finality) ∨
    (getCurrentEpoch s'.toBeaconState = getCurrentEpoch s.toBeaconState + 1 ∧ ∃ process,
      prepareEpochProcessState cfg (processSlot env cfg s) = .ok process ∧
        runTransition s.finality ⟨processSlot env cfg s, process⟩ = .ok s'.finality) := by
  rcases advanceSlot_split h with ⟨hepoch, rfl⟩ | ⟨t, ctx, hepoch, htransition, -, -, hnext⟩
  · exact .inl ⟨hepoch, rfl⟩
  · obtain ⟨process, s₁, u, hprepared, hjustified, hkept, hvotes⟩ := processEpochByFork_votes htransition
    have hrotated : t.finality = s₁.finality := by
      rw [hvotes.finality, ← hkept.finality]
      cases getForkName P cfg s.slot <;> rfl
    have hfinality : s'.finality = s₁.finality := by
      split at hnext
      · exact (upgradeState_finality hnext).trans hrotated
      · exact hnext ▸ hrotated
    refine .inr ⟨(congrArg (computeEpochAtSlot P) (advanceSlot_slot h)).trans hepoch, process, hprepared, ?_⟩
    exact hfinality ▸ map_eq_ok.2 ⟨s₁, hjustified, rfl⟩

theorem Finalizes.slot (h : Finalizes env cfg s₀ inputs s) (hpath : Path env cfg s₀ turns s) (hfresh : Fresh env cfg s)
    (hslot : advanceSlot env cfg s = .ok s') :
    ∃ more, Finalizes env cfg s₀ (inputs ++ more) s' ∧ s.finalizedCheckpoint.epoch ≤ s'.finalizedCheckpoint.epoch := by
  show ∃ more, _ ∧ s.finality.finalizedCheckpoint.epoch ≤ s'.finality.finalizedCheckpoint.epoch
  rcases advanceSlot_finality hslot with ⟨hepoch, hkept⟩ | ⟨hepoch, process, hprepared, hstep⟩
  · refine ⟨[], ?_, (congrArg (·.finalizedCheckpoint.epoch) hkept).ge⟩
    rw [List.append_nil]
    exact ⟨h.passed, h.consecutive, h.length.trans hepoch.symm, hkept ▸ h.run⟩
  · have hcurrent : process.currentEpoch = inputs.length :=
      ((prepareEpochProcessState_ok hprepared).1.currentEpoch.trans hfresh.currentEpoch).trans h.length.symm
    have hprevious : process.prevEpoch = inputs.length - 1 := by
      rw [(prepareEpochProcessState_statuses hprepared).2.1, h.length]
      refine hfresh.duties.previousEpoch.trans ?_
      unfold previousEpochOf GENESIS_EPOCH
      split <;> omega
    have hconsecutive : Consecutive (inputs ++ [⟨processSlot env cfg s, process⟩]) := by
      intro n found hfound
      rw [List.getElem?_append] at hfound
      split at hfound
      · exact h.consecutive n found hfound
      · rw [List.getElem?_singleton] at hfound
        split at hfound <;> cases hfound
        exact ⟨by rw [hcurrent, GENESIS_EPOCH]; omega, by rw [hprevious, hcurrent]⟩
    have hsound := runTransitions_sound _ h.consecutive h.run
    refine ⟨_, ⟨List.forall_mem_append.2 ⟨h.passed, List.forall_mem_singleton.2 ⟨hprepared, _, _, hpath, rfl⟩⟩, hconsecutive, ?_, ?_⟩, ?_⟩
    · rw [List.length_append, h.length, hepoch]
      rfl
    · rw [runTransitions_concat, h.run]
      exact hstep
    · rcases runTransition_cases hconsecutive hstep with ⟨-, heq⟩ | ⟨-, hadvance⟩
      · rw [heq]
      · rcases hadvance.finalized with heq | heq | heq <;> rw [heq]
        · exact hsound.finalized_le
        · exact hsound.finalized_le.trans hsound.previous_le

theorem Path.finalizes (hfresh : Fresh env cfg s₀) (hr : Path env cfg s₀ turns r) (h : Path env cfg r turns' s)
    (hfinalizes : Finalizes env cfg s₀ inputs r) :
    ∃ more, Finalizes env cfg s₀ (inputs ++ more) s ∧ r.finalizedCheckpoint.epoch ≤ s.finalizedCheckpoint.epoch := by
  induction h with
  | refl => exact ⟨[], (List.append_nil inputs).symm ▸ hfinalizes, le_rfl⟩
  | slot hpath hslot ih =>
    obtain ⟨more, hmore, hle⟩ := ih
    obtain ⟨last, hlast, hle'⟩ := hmore.slot (hr.trans hpath) ((hr.trans hpath).fresh hfresh) hslot
    exact ⟨more ++ last, List.append_assoc .. ▸ hlast, hle.trans hle'⟩
  | block hpath hblock ih =>
    obtain ⟨more, hmore, hle⟩ := ih
    have hfinality := processBlock_finality hblock
    have hepoch := congrArg (computeEpochAtSlot P) (processBlock_slot hblock)
    exact ⟨more, ⟨hmore.passed, hmore.consecutive, hmore.length.trans hepoch.symm, hfinality ▸ hmore.run⟩,
      hle.trans (congrArg (·.finalizedCheckpoint.epoch) hfinality).ge⟩

def genesisHeader : BeaconBlockHeader := { awaitingDeposit.latestBlockHeader with slot := GENESIS_SLOT }

def awaitingDepositAtGenesis : BeaconState minimal :=
  { awaitingDeposit with slot := GENESIS_SLOT, latestBlockHeader := genesisHeader }

def genesisOfThree : BeaconState minimal :=
  { awaitingDepositAtGenesis with
    eth1DepositIndex := 3
    validators := (awaitingDeposit.validators ++ awaitingDeposit.validators.take 1).mapIdx fun index validator =>
      { validator with pubkey := pubkeyOf (UInt8.ofNat (index + 1)) }
    balances := List.replicate 3 32000000000 }

def rootAt (slot : Nat) : Root := Vector.replicate 32 (UInt8.ofNat (slot + 1))

def votingEnv : Env minimal := { plainEnv minimal with headerRoot := fun header => rootAt header.slot }

/-- The votes of two of the three validators: one attests in the third slot of an epoch, one in its sixth. -/
def epochVotes (epoch head : Nat) (source target : Checkpoint) : List Attestation :=
  [2, 5].map fun index =>
    { aggregationBits := [true]
      data := {
        slot := epoch * minimal.SLOTS_PER_EPOCH + index, index := 0, beaconBlockRoot := rootAt head
        source := source, target := target }
      signature := Vector.replicate 96 0 }

def blockOn (parent slot : Nat) (attestations : List Attestation) : BeaconBlock :=
  let block := depositBlock.message
  { block with
    slot := slot, parentRoot := rootAt parent, body := { block.body with deposits := [], attestations := attestations } }

/-- The blocks of slots 16 and 22, and two branches from there: 30 and 32, and 38 and 40. -/
def votedBlock : Nat → BeaconBlock
  | 16 => blockOn 0 16 []
  | 22 => blockOn 16 22 (epochVotes 2 16 ⟨0, zeroRoot⟩ ⟨2, rootAt 16⟩)
  | 30 => blockOn 22 30 (epochVotes 3 22 ⟨2, rootAt 16⟩ ⟨3, rootAt 22⟩)
  | 32 => blockOn 30 32 []
  | 38 => blockOn 22 38 (epochVotes 4 22 ⟨2, rootAt 16⟩ ⟨4, rootAt 22⟩)
  | slot => blockOn 38 slot []

/-- Empty slots up to each of the blocks, which are in the order of their slots. -/
def turnsTo (slots : List Nat) : List (Option BeaconBlock) :=
  (List.range ((slots.getLastD 0) + 1)).flatMap fun slot =>
    if slot = 0 then [] else none :: if slot ∈ slots then [some (votedBlock slot)] else []

end Lodestar.StateTransition
