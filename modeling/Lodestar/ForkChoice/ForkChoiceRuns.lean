import Lodestar.ForkChoice.ForkChoice
import Lodestar.ForkChoice.ProtoArrayRuns
/-!
# ForkChoiceRuns — what each method can touch

Attestations only note votes (`OnlyVotes`), the checkpoints change apart from the block tree and the votes (`OnlyStore`), and
everything else a call does is one operation on the block tree.  The invariants of whole runs are read off these parts.
-/
namespace Lodestar

open Lib Forest

def ProtoArray.NoZeroHash (s : ProtoArray) : Prop := ∀ i, i < s.nodes.length → s.rootOf i ≠ HEX_ZERO_HASH

theorem ProtoArray.NoZeroHash.isRoot {s : ProtoArray} (h : s.NoZeroHash) : s.ZeroHashIsRoot := by
  intro i hi
  by_contra hne
  obtain ⟨p, hp⟩ := Option.ne_none_iff_exists'.1 hne
  exact h i (lt_of_parentOf hp) hi

namespace ForkChoice

/-! ## Votes -/

/-- Votes were noted: the block tree, the checkpoints and the applied votes are as they were. -/
structure OnlyVotes (fc fc' : ForkChoice) : Prop where
  protoArray : fc'.protoArray = fc.protoArray
  fcStore : fc'.fcStore = fc.fcStore
  justifiedBalances : fc'.justifiedBalances = fc.justifiedBalances
  currentRoots : currentRootOf fc'.votes = currentRootOf fc.votes
  synced : fc'.synced = true → fc.synced = true

theorem OnlyVotes.refl (fc : ForkChoice) : OnlyVotes fc fc := ⟨rfl, rfl, rfl, rfl, id⟩

variable {fc₁ fc₂ fc₃ : ForkChoice}

theorem OnlyVotes.trans (h : OnlyVotes fc₁ fc₂) (h' : OnlyVotes fc₂ fc₃) : OnlyVotes fc₁ fc₃ :=
  ⟨h'.protoArray.trans h.protoArray, h'.fcStore.trans h.fcStore, h'.justifiedBalances.trans h.justifiedBalances,
    h'.currentRoots.trans h.currentRoots, fun hs => h.synced (h'.synced hs)⟩

theorem setVote_getElem? (votes : List (Option VoteTracker)) (i : Nat) (vote : VoteTracker) (v : Nat) :
    ((setVote votes i vote)[v]?).join = if v = i then some vote else (votes[v]?).join := by
  unfold setVote
  by_cases hi : i < votes.length
  · rw [if_pos hi, List.getElem?_set]
    by_cases hv : i = v
    · rw [if_pos hv, if_pos (hv ▸ hi), if_pos hv.symm]
      rfl
    · rw [if_neg hv, if_neg (Ne.symm hv)]
  · rw [if_neg hi, List.append_assoc, List.getElem?_append]
    by_cases hlt : v < votes.length
    · rw [if_pos hlt, if_neg (by omega)]
    have hnone : votes[v]? = none := List.getElem?_eq_none (Nat.le_of_not_lt hlt)
    rw [if_neg hlt, hnone, List.getElem?_append, List.length_replicate, List.getElem?_replicate]
    rcases Nat.lt_trichotomy v i with hvi | hvi | hvi
    · rw [if_pos (by omega), if_pos (by omega), if_neg (by omega)]
      rfl
    · rw [if_neg (by omega), if_pos hvi, hvi, Nat.sub_self]
      rfl
    · rw [if_neg (by omega), if_neg (by omega), List.getElem?_eq_none (by simp; omega)]

theorem currentRootOf_setVote {votes : List (Option VoteTracker)} {i : Nat} {vote : VoteTracker}
    (h : vote.currentRoot = currentRootOf votes i) : currentRootOf (setVote votes i vote) = currentRootOf votes := by
  funext v
  by_cases hv : v = i
  · rw [hv, ← h]
    unfold currentRootOf
    rw [setVote_getElem?, if_pos rfl]
    rfl
  · unfold currentRootOf
    rw [setVote_getElem?, if_neg hv]

theorem addLatestMessage_onlyVotes (fc : ForkChoice) (i epoch : Nat) (root : HexRoot) :
    OnlyVotes fc (fc.addLatestMessage i epoch root) := by
  unfold addLatestMessage
  dsimp only
  cases hvote : (fc.votes[i]?).join with
  | none =>
    refine ⟨rfl, rfl, rfl, currentRootOf_setVote ?_, fun h => by cases h⟩
    unfold currentRootOf
    rw [hvote]
    rfl
  | some vote =>
    dsimp only
    split
    · refine ⟨rfl, rfl, rfl, currentRootOf_setVote ?_, fun h => by cases h⟩
      unfold currentRootOf
      rw [hvote]
      rfl
    · exact ⟨rfl, rfl, rfl, rfl, fun h => by cases h⟩

theorem addLatestMessages_onlyVotes (epoch : Nat) (root : HexRoot) : ∀ (is : List Nat) (fc : ForkChoice),
    OnlyVotes fc (fc.addLatestMessages is epoch root)
  | [], fc => OnlyVotes.refl fc
  | i :: is, fc => (addLatestMessage_onlyVotes fc i epoch root).trans (addLatestMessages_onlyVotes epoch root is _)

theorem noteQueue_onlyVotes : ∀ (queue : List QueuedAttestation) (fc : ForkChoice),
    OnlyVotes fc (queue.foldl (fun fc a => fc.addLatestMessages a.attestingIndices a.targetEpoch a.blockRoot) fc)
  | [], fc => OnlyVotes.refl fc
  | a :: queue, fc => (addLatestMessages_onlyVotes a.targetEpoch a.blockRoot a.attestingIndices fc).trans
      (noteQueue_onlyVotes queue _)

theorem processAttestationQueue_onlyVotes (fc : ForkChoice) : OnlyVotes fc fc.processAttestationQueue := by
  have hqueue : OnlyVotes fc { fc with
      queuedAttestations := fc.queuedAttestations.filter (fun a => !decide (a.slot ≤ fc.fcStore.currentSlot)) } :=
    ⟨rfl, rfl, rfl, rfl, id⟩
  exact hqueue.trans (noteQueue_onlyVotes _ _)

theorem onAttestation_onlyVotes (P : Preset) (fc : ForkChoice) (attestation : IndexedAttestation) :
    OnlyVotes fc (fc.onAttestation P attestation).2 := by
  unfold onAttestation
  split
  · exact OnlyVotes.refl fc
  · split
    · exact OnlyVotes.refl fc
    · split
      · exact addLatestMessages_onlyVotes _ _ _ fc
      · exact ⟨rfl, rfl, rfl, rfl, id⟩

theorem addLatestMessage_frame (fc : ForkChoice) (i epoch : Nat) (root : HexRoot) :
    ∃ votes synced, fc.addLatestMessage i epoch root = { fc with votes := votes, synced := synced } := by
  unfold addLatestMessage
  dsimp only
  split
  · exact ⟨_, _, rfl⟩
  · split
    · exact ⟨_, _, rfl⟩
    · exact ⟨_, _, rfl⟩

theorem addLatestMessages_frame (epoch : Nat) (root : HexRoot) : ∀ (is : List Nat) (fc : ForkChoice),
    ∃ votes synced, fc.addLatestMessages is epoch root = { fc with votes := votes, synced := synced }
  | [], fc => ⟨fc.votes, fc.synced, rfl⟩
  | i :: is, fc => by
    obtain ⟨votes, synced, hfirst⟩ := addLatestMessage_frame fc i epoch root
    obtain ⟨votes', synced', hrest⟩ := addLatestMessages_frame epoch root is { fc with votes := votes, synced := synced }
    exact ⟨votes', synced', (congrArg (fun fc' => addLatestMessages fc' is epoch root) hfirst).trans hrest⟩

theorem noteQueue_frame : ∀ (queue : List QueuedAttestation) (fc : ForkChoice), ∃ votes synced,
    queue.foldl (fun fc a => fc.addLatestMessages a.attestingIndices a.targetEpoch a.blockRoot) fc =
      { fc with votes := votes, synced := synced }
  | [], fc => ⟨fc.votes, fc.synced, rfl⟩
  | a :: queue, fc => by
    obtain ⟨votes, synced, hfirst⟩ := addLatestMessages_frame a.targetEpoch a.blockRoot a.attestingIndices fc
    obtain ⟨votes', synced', hrest⟩ := noteQueue_frame queue { fc with votes := votes, synced := synced }
    refine ⟨votes', synced', ?_⟩
    rw [List.foldl_cons, hfirst]
    exact hrest

/-! ## Checkpoints -/

/-- The checkpoints may have changed; when the justified one or its balances did, the weights are to be brought up to date. -/
structure OnlyStore (fc fc' : ForkChoice) : Prop where
  protoArray : fc'.protoArray = fc.protoArray
  votes : fc'.votes = fc.votes
  justified : (fc'.fcStore.justifiedCheckpoint = fc.fcStore.justifiedCheckpoint ∧
    fc'.justifiedBalances = fc.justifiedBalances ∧ fc'.synced = fc.synced) ∨ fc'.synced = false

theorem OnlyStore.refl (fc : ForkChoice) : OnlyStore fc fc := ⟨rfl, rfl, .inl ⟨rfl, rfl, rfl⟩⟩

theorem OnlyStore.trans (h : OnlyStore fc₁ fc₂) (h' : OnlyStore fc₂ fc₃) : OnlyStore fc₁ fc₃ := by
  refine ⟨h'.protoArray.trans h.protoArray, h'.votes.trans h.votes, ?_⟩
  rcases h'.justified with ⟨hj', hb', hs'⟩ | hs'
  · rcases h.justified with ⟨hj, hb, hs⟩ | hs
    · exact .inl ⟨hj'.trans hj, hb'.trans hb, hs'.trans hs⟩
    · exact .inr (hs'.trans hs)
  · exact .inr hs'

variable {P : Preset}

theorem onTick_onlyStore (fc : ForkChoice) (time : Nat) : OnlyStore fc (fc.onTick P time).2 := by
  unfold onTick
  split
  · exact OnlyStore.refl fc
  · dsimp only
    split
    · exact ⟨rfl, rfl, .inl ⟨rfl, rfl, rfl⟩⟩
    · split
      · exact ⟨rfl, rfl, .inr rfl⟩
      · exact ⟨rfl, rfl, .inl ⟨rfl, rfl, rfl⟩⟩

variable {Q : ForkChoice → Prop}

theorem tickTo_keeps (htick : ∀ fc slot, Q fc → Q (fc.onTick P slot).2) (slot : Nat) :
    ∀ (n : Nat) (fc : ForkChoice), Q fc → Q (tickTo P slot n fc).2
  | 0, _, h => h
  | n + 1, fc, h => by
    unfold tickTo
    split
    · have hstep := htick fc (fc.fcStore.currentSlot + 1) h
      rcases hr : fc.onTick P (fc.fcStore.currentSlot + 1) with ⟨r, fc'⟩
      rw [hr] at hstep
      cases r with
      | error e => exact hstep
      | ok u => exact tickTo_keeps htick slot n fc' hstep
    · exact h

theorem updateTime_keeps (htick : ∀ fc slot, Q fc → Q (fc.onTick P slot).2) (hqueue : ∀ fc, Q fc → Q fc.processAttestationQueue)
    {fc : ForkChoice} (h : Q fc) (slot : Nat) : Q (fc.updateTime P slot).2 := by
  have hticked := tickTo_keeps htick slot (slot - fc.fcStore.currentSlot) fc h
  unfold updateTime
  rcases hr : tickTo P slot (slot - fc.fcStore.currentSlot) fc with ⟨r, fc'⟩
  rw [hr] at hticked
  cases r with
  | error e => exact hticked
  | ok u => exact hqueue fc' hticked

theorem tickTo_onlyStore (slot n : Nat) (fc : ForkChoice) : OnlyStore fc (tickTo P slot n fc).2 :=
  tickTo_keeps (fun fc' slot h => h.trans (onTick_onlyStore fc' slot)) slot n fc (.refl fc)

section

variable (fc : ForkChoice)

theorem updateTime_parts (slot : Nat) : ∃ fc₁, OnlyStore fc fc₁ ∧ OnlyVotes fc₁ (fc.updateTime P slot).2 := by
  have htick := tickTo_onlyStore (P := P) slot (slot - fc.fcStore.currentSlot) fc
  unfold updateTime
  rcases hr : tickTo P slot (slot - fc.fcStore.currentSlot) fc with ⟨r, fc'⟩
  rw [hr] at htick
  cases r with
  | error e => exact ⟨fc', htick, OnlyVotes.refl fc'⟩
  | ok u => exact ⟨fc', htick, processAttestationQueue_onlyVotes fc'⟩

theorem noteJustified_onlyStore (state : ForkState) (balances : Option (List Nat)) :
    OnlyStore fc (fc.noteJustified P state balances).2 := by
  unfold noteJustified
  split
  · split
    · exact OnlyStore.refl fc
    · dsimp only
      split
      · exact ⟨rfl, rfl, .inl ⟨rfl, rfl, rfl⟩⟩
      · exact OnlyStore.refl fc
  · exact OnlyStore.refl fc

theorem noteFinalized_onlyStore (state : ForkState) (slot : Nat) (flag : Bool) :
    OnlyStore fc (fc.noteFinalized state slot flag).2 := by
  unfold noteFinalized
  split
  · dsimp only
    split
    · exact ⟨rfl, rfl, .inl ⟨rfl, rfl, rfl⟩⟩
    · split <;> exact ⟨rfl, rfl, .inl ⟨rfl, rfl, rfl⟩⟩
  · exact OnlyStore.refl fc

theorem onBlock_parts (block : ForkBlock) (state : ForkState) (balances : Option (List Nat)) :
    ∃ fc₁, OnlyStore fc fc₁ ∧ ((∃ e, fc.onBlock P block state balances = (.error e, fc₁)) ∨
      fc.onBlock P block state balances = fc₁.registerBlock P block state) := by
  have hj := noteJustified_onlyStore (P := P) fc state balances
  unfold onBlock
  cases fc.checkBlock P block with
  | error e => exact ⟨fc, OnlyStore.refl fc, .inl ⟨e, rfl⟩⟩
  | ok u =>
    rcases hr : fc.noteJustified P state balances with ⟨r, fc₁⟩
    rw [hr] at hj
    cases r with
    | error e => exact ⟨fc₁, hj, .inl ⟨e, rfl⟩⟩
    | ok flag =>
      dsimp only
      have hf := noteFinalized_onlyStore fc₁ state (computeStartSlotAtEpoch P fc.fcStore.finalizedCheckpoint.epoch) flag
      rcases hr' : fc₁.noteFinalized state (computeStartSlotAtEpoch P fc.fcStore.finalizedCheckpoint.epoch) flag with
        ⟨r, fc₂⟩
      rw [hr'] at hf
      have hboth := hj.trans hf
      rcases r with e | _ | _
      · exact ⟨fc₂, hboth, .inl ⟨e, rfl⟩⟩
      · exact ⟨fc₂, hboth, .inr rfl⟩
      · cases balances with
        | none => exact ⟨fc₂, hboth, .inl ⟨noBalances, rfl⟩⟩
        | some bs =>
          exact ⟨fc₂.updateJustified state.currentJustifiedCheckpoint bs, hboth.trans ⟨rfl, rfl, .inr rfl⟩, .inr rfl⟩

/-! ## The block tree -/

theorem registerBlock_eq (block : ForkBlock) (state : ForkState) : (fc.registerBlock P block state).2 =
      { fc with protoArray := (fc.protoArray.onBlock (toProtoBlock P block state)).2 } := by
  unfold registerBlock
  split <;> rename_i heq <;> rw [heq]

end

variable {fc : ForkChoice}

theorem registerBlock_ok (h : fc.protoArray.WellFormed) (block : ForkBlock) (state : ForkState) :
    (fc.registerBlock P block state).1 = .ok () := by
  obtain ⟨s', hrun, -⟩ := ProtoArray.onBlock_run h (toProtoBlock P block state)
  unfold registerBlock
  rw [hrun]

theorem prune_eq (fc : ForkChoice) (root : HexRoot) :
    (fc.prune root).2 = { fc with protoArray := (fc.protoArray.maybePrune root).2 } := by
  unfold prune
  split <;> rename_i heq <;> rw [heq]

theorem places {s : ProtoArray} (h : s.WellFormed) : Places s.indices s.indices.size where
  lt root i hi := by
    obtain ⟨node, hnode, -⟩ := h.get?_iff.1 hi
    rw [h.size]
    exact (List.getElem?_eq_some_iff.1 hnode).1
  inj root root' i hi hi' := by
    obtain ⟨node, hnode, hroot⟩ := h.get?_iff.1 hi
    obtain ⟨node', hnode', hroot'⟩ := h.get?_iff.1 hi'
    rw [hnode] at hnode'
    cases hnode'
    exact hroot.symm.trans hroot'

/-- **Bringing the weights up to date**: it never throws on a well-formed block tree; every weight is raised by what the
support of its subtree gains through the new votes, both counted with the current balances. -/
theorem sync_run (h : fc.protoArray.WellFormed) (hs : fc.synced = false) :
    ∃ votes s', fc.sync = (.ok (), { fc with votes := votes, protoArray := s', synced := true }) ∧ s'.WellFormed ∧
      ProtoArray.SameTree fc.protoArray s' ∧
      s'.justifiedEpoch = (fc.protoArray.withEpochs fc.fcStore.justifiedCheckpoint.epoch
        fc.fcStore.finalizedCheckpoint.epoch).justifiedEpoch ∧
      s'.finalizedEpoch = (fc.protoArray.withEpochs fc.fcStore.justifiedCheckpoint.epoch
        fc.fcStore.finalizedCheckpoint.epoch).finalizedEpoch ∧
      (fc.protoArray.NoZeroHash → ∀ i, i < fc.protoArray.nodes.length →
        s'.weightOf i = fc.protoArray.weightOf i + subtreeSum fc.protoArray.parentOf fc.protoArray.nodes.length
          (fun j => support fc.justifiedBalances (currentRootOf votes) (fc.protoArray.rootOf j) -
            support fc.justifiedBalances (currentRootOf fc.votes) (fc.protoArray.rootOf j)) i) := by
  obtain ⟨deltas, votes, hdeltas, hlen, hsupport⟩ := computeDeltas_run (places h) fc.votes fc.justifiedBalances
    fc.justifiedBalances
  rw [h.size] at hlen
  rcases ProtoArray.applyScoreChanges_run h deltas fc.fcStore.justifiedCheckpoint.epoch
    fc.fcStore.finalizedCheckpoint.epoch with ⟨hne, -⟩ | ⟨-, s', hrun, hwf, ht, hj, hf, hw⟩
  · exact absurd hlen hne
  refine ⟨votes, s', ?_, hwf, ht, hj, hf, fun hz i hi => ?_⟩
  · unfold sync
    rw [hs, hdeltas]
    dsimp only
    rw [hrun]
    rfl
  · rw [hw hz.isRoot i hi (hz i hi)]
    congr 1
    exact subtreeSum_congr (fun j hj => hsupport _ j (h.get?_rootOf hj) (hz j hj)) i

theorem sync_frame (fc : ForkChoice) :
    fc.sync.2.fcStore = fc.fcStore ∧ fc.sync.2.justifiedBalances = fc.justifiedBalances := by
  unfold sync
  split
  · exact ⟨rfl, rfl⟩
  · split
    · exact ⟨rfl, rfl⟩
    · split <;> exact ⟨rfl, rfl⟩

theorem updateHead_eq (fc : ForkChoice) : ∃ head, fc.updateHead.2 = { fc.sync.2 with head := head } := by
  unfold updateHead
  rcases fc.sync with ⟨r, fc₁⟩
  cases r with
  | error e => exact ⟨fc₁.head, rfl⟩
  | ok u =>
    dsimp only
    split
    · exact ⟨fc₁.head, rfl⟩
    · split
      · exact ⟨fc₁.head, rfl⟩
      · split
        · exact ⟨fc₁.head, rfl⟩
        · exact ⟨_, rfl⟩

theorem updateHead_frame (fc : ForkChoice) :
    fc.updateHead.2.fcStore = fc.fcStore ∧ fc.updateHead.2.justifiedBalances = fc.justifiedBalances := by
  obtain ⟨head, heq⟩ := updateHead_eq fc
  rw [heq]
  exact sync_frame fc

/-! ## The roots of the block tree -/

theorem prune_tree (h : fc.protoArray.WellFormed) (root : HexRoot) :
    (fc.prune root).2.protoArray.WellFormed ∧
      ∀ r, (fc.prune root).2.protoArray.hasBlock r = true → fc.protoArray.hasBlock r = true := by
  rw [prune_eq]
  rcases ProtoArray.maybePrune_cuts h root with heq | ⟨f, -, hcut⟩
  · rw [heq]
    exact ⟨h, fun _ => id⟩
  · have hwf := hcut.wellFormed h
    refine ⟨hwf, fun r hr => ?_⟩
    obtain ⟨node, hnode, hroot⟩ := hwf.has_iff.1 hr
    rw [hcut.nodes, List.mem_map] at hnode
    obtain ⟨node', hmem, rfl⟩ := hnode
    exact h.has_iff.2 ⟨node', List.mem_of_mem_drop hmem, hroot⟩

theorem updateHead_sameTree (h : fc.protoArray.WellFormed) :
    ProtoArray.SameTree fc.protoArray fc.updateHead.2.protoArray ∧ fc.updateHead.2.protoArray.WellFormed := by
  obtain ⟨head, heq⟩ := updateHead_eq fc
  rw [heq]
  cases hs : fc.synced with
  | true =>
    unfold sync
    rw [hs]
    exact ⟨.refl _, h⟩
  | false =>
    obtain ⟨votes, s', hrun, hwf, ht, -⟩ := sync_run h hs
    rw [hrun]
    exact ⟨ht, hwf⟩

theorem onBlock_tree {fc fc' : ForkChoice} (h : fc.protoArray.WellFormed) {block : ForkBlock}
    {state : ForkState} {balances : Option (List Nat)} {r : Except ForkChoiceError Unit}
    (hrun : fc.onBlock P block state balances = (r, fc')) :
    fc'.protoArray.WellFormed ∧ ∀ root, fc'.protoArray.hasBlock root = true →
      fc.protoArray.hasBlock root = true ∨ (r = .ok () ∧ root = block.root) := by
  obtain ⟨fc₁, hst, ⟨e, heq⟩ | heq⟩ := onBlock_parts (P := P) fc block state balances
  · rw [hrun] at heq
    cases heq
    rw [hst.protoArray]
    exact ⟨h, fun _ => .inl⟩
  · have h₁ : fc₁.protoArray.WellFormed := by rw [hst.protoArray]; exact h
    have hr : r = .ok () := (congrArg Prod.fst (hrun.symm.trans heq)).trans (registerBlock_ok h₁ block state)
    have hfc : fc' = (fc₁.registerBlock P block state).2 := congrArg Prod.snd (hrun.symm.trans heq)
    obtain ⟨s', hon, hwf, -⟩ := ProtoArray.onBlock_run h₁ (toProtoBlock P block state)
    rw [hfc, registerBlock_eq]
    refine ⟨by rw [hon]; exact hwf, fun root hroot => ?_⟩
    rcases (ProtoArray.onBlock_has h₁ (toProtoBlock P block state) root).1 hroot with rfl | hold
    · exact .inr ⟨hr, rfl⟩
    · rw [hst.protoArray] at hold
      exact .inl hold

/-! ## The fork choice of the examples -/

def atGenesis : ForkChoice :=
  construct ⟨0, ⟨0, "a"⟩, ⟨0, "a"⟩, ⟨0, "a"⟩⟩ (ProtoArray.initializeWith ⟨0, "a", "z", "a", "a", 0, 0⟩) [] [1]

/-- A state as a block leaves it, its history of block roots left blank. -/
def stateAt (slot : Nat) (justified finalized : CheckpointHex) : ForkState := ⟨slot, justified, finalized, fun _ => "r"⟩

end ForkChoice

end Lodestar
