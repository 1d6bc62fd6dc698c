import Lodestar.Lib.Greatest
import Lodestar.ForkChoice.AttestationQueue
import Lodestar.ForkChoice.Weights
/-!
# LatestVotes — the vote that is tracked, and the order of delivery

A validator's tracked vote is overwritten in place, and `updateHead` moves the applied roots after it.  What is tracked is the
first accepted attestation of the greatest target epoch, wherever `updateHead` was called in between (`trackedVote_run`), and
the weights follow the applied votes (`Follows`).  So two runs that accept the same attestations end with the same votes and
weights: `votes_and_weights_order_free`.
-/
namespace Lodestar

open Lib Forest

namespace ForkChoice

/-! ## What is accepted, and what is tracked -/

/-- The calls that leave the block tree and what it is scored with as they are; the clock moves no justified checkpoint, and no
attestation waits for it. -/
def Op.OverTree (P : Preset) (fc : ForkChoice) : Op → Prop
  | .onAttestation _ => True
  | .updateHead => True
  | .updateTime slot => fc.queuedAttestations = [] ∧
      (fc.updateTime P slot).2.fcStore.justifiedCheckpoint = fc.fcStore.justifiedCheckpoint ∧
      (fc.updateTime P slot).2.justifiedBalances = fc.justifiedBalances
  | .onBlock _ _ _ => False
  | .prune _ => False

def Op.accepted (P : Preset) (fc : ForkChoice) : Op → List IndexedAttestation
  | .onAttestation attestation =>
    if attestation.beaconBlockRoot ≠ HEX_ZERO_HASH ∧ (fc.onAttestation P attestation).1.isOk then [attestation] else []
  | _ => []

def acceptedIn (P : Preset) : ForkChoice → List Op → List IndexedAttestation
  | _, [] => []
  | fc, op :: ops => op.accepted P fc ++ acceptedIn P (op.run P fc) ops

def latestMessagesOf (v : Nat) (attestations : List IndexedAttestation) : List (Nat × HexRoot) :=
  (attestations.filter fun attestation => decide (v ∈ attestation.attestingIndices)).map fun attestation =>
    (attestation.target.epoch, attestation.beaconBlockRoot)

def trackedVote (fc : ForkChoice) (v : Nat) : Option (Nat × HexRoot) :=
  (fc.votes[v]?).join.map fun vote => (vote.nextEpoch, vote.nextRoot)

/-- No validator attests to two blocks in one target epoch, as where the target epochs of its attestations differ. -/
def DistinctTargets (attestations : List IndexedAttestation) : Prop :=
  ∀ a ∈ attestations, ∀ b ∈ attestations, ∀ v ∈ a.attestingIndices, v ∈ b.attestingIndices →
    a.target.epoch = b.target.epoch → a.beaconBlockRoot = b.beaconBlockRoot

instance (attestations : List IndexedAttestation) : Decidable (DistinctTargets attestations) :=
  inferInstanceAs (Decidable (∀ a ∈ attestations, ∀ b ∈ attestations, ∀ v ∈ a.attestingIndices, _ → _ → _))

theorem latestMessagesOf_append (v : Nat) (l l' : List IndexedAttestation) :
    latestMessagesOf v (l ++ l') = latestMessagesOf v l ++ latestMessagesOf v l' := by
  simp [latestMessagesOf]

/-! ## One attestation -/

theorem trackedVote_addLatestMessage (fc : ForkChoice) (i epoch : Nat) (root : HexRoot) (v : Nat) :
    (fc.addLatestMessage i epoch root).trackedVote v =
      if v = i then keepGreater Prod.fst (fc.trackedVote v) (epoch, root) else fc.trackedVote v := by
  unfold addLatestMessage trackedVote
  dsimp only
  by_cases hv : v = i
  · subst hv
    cases hvote : (fc.votes[v]?).join with
    | none => simp [setVote_getElem?, keepGreater]
    | some vote =>
      by_cases hlt : vote.nextEpoch < epoch
      · simp [hlt, setVote_getElem?, keepGreater]
      · simp [hlt, hvote, keepGreater]
  · rw [if_neg hv]
    split
    · simp [setVote_getElem?, hv]
    · split <;> simp [setVote_getElem?, hv]

theorem trackedVote_addLatestMessages (epoch : Nat) (root : HexRoot) (v : Nat) : ∀ (is : List Nat) (fc : ForkChoice),
    (fc.addLatestMessages is epoch root).trackedVote v =
      if v ∈ is then keepGreater Prod.fst (fc.trackedVote v) (epoch, root) else fc.trackedVote v
  | [], fc => by simp [addLatestMessages]
  | i :: is, fc => by
    have hrest := trackedVote_addLatestMessages epoch root v is (fc.addLatestMessage i epoch root)
    rw [show fc.addLatestMessages (i :: is) epoch root = (fc.addLatestMessage i epoch root).addLatestMessages is epoch root
      from rfl, hrest, trackedVote_addLatestMessage]
    by_cases hv : v = i <;> by_cases hmem : v ∈ is <;> simp [hv, hmem, keepGreater_self]

variable {P : Preset}

theorem onAttestation_eq (fc : ForkChoice) (attestation : IndexedAttestation) :
    (fc.onAttestation P attestation).2 = ((Op.onAttestation attestation).accepted P fc).foldl
      (fun fc a => fc.addLatestMessages a.attestingIndices a.target.epoch a.beaconBlockRoot) fc := by
  unfold Op.accepted onAttestation
  by_cases hzero : attestation.beaconBlockRoot = HEX_ZERO_HASH
  · simp [hzero]
  · cases hvalid : fc.validateOnAttestation P attestation with
    | error e => simp [hzero, hvalid, Except.isOk, Except.toBool]
    | ok u => simp [hzero, hvalid, validateOnAttestation_slot hvalid, Except.isOk, Except.toBool]

theorem trackedVote_foldl (v : Nat) : ∀ (attestations : List IndexedAttestation) (fc : ForkChoice),
    (attestations.foldl (fun fc a => fc.addLatestMessages a.attestingIndices a.target.epoch a.beaconBlockRoot) fc).trackedVote v =
      (latestMessagesOf v attestations).foldl (keepGreater Prod.fst) (fc.trackedVote v)
  | [], fc => rfl
  | a :: attestations, fc => by
    rw [List.foldl_cons, trackedVote_foldl v attestations, trackedVote_addLatestMessages]
    by_cases hv : v ∈ a.attestingIndices <;> simp [latestMessagesOf, hv]

/-! ## `updateHead` and the clock -/

theorem computeDeltasLoop_tracks (indices : OrderedMap HexRoot Nat) (oldBalances newBalances : List Nat) :
    ∀ (votes : List (Option VoteTracker)) (k : Nat) (deltas : List Int),
      (computeDeltasLoop indices oldBalances newBalances k votes deltas).2.map
          (Option.map fun vote => (vote.nextEpoch, vote.nextRoot)) =
        votes.map (Option.map fun vote => (vote.nextEpoch, vote.nextRoot))
  | [], k, deltas => rfl
  | none :: votes, k, deltas => by
    have hrest := computeDeltasLoop_tracks indices oldBalances newBalances votes (k + 1) deltas
    simp [computeDeltasLoop, hrest]
  | some vote :: votes, k, deltas => by
    rw [computeDeltasLoop]
    split
    · have hrest := computeDeltasLoop_tracks indices oldBalances newBalances votes (k + 1) deltas
      simp [hrest]
    · split
      · rfl
      · rename_i deltas' _
        have hrest := computeDeltasLoop_tracks indices oldBalances newBalances votes (k + 1) deltas'
        simp [hrest]

section

variable (fc : ForkChoice)

theorem sync_votes : fc.sync.2.votes = fc.votes ∨
    fc.sync.2.votes = (computeDeltas fc.protoArray.indices fc.votes fc.justifiedBalances fc.justifiedBalances).2 := by
  unfold sync
  split
  · exact .inl rfl
  · rcases computeDeltas fc.protoArray.indices fc.votes fc.justifiedBalances fc.justifiedBalances with ⟨r, votes⟩
    refine .inr ?_
    cases r with
    | error e => rfl
    | ok deltas =>
      dsimp only
      split <;> rfl

theorem updateHead_tracks : fc.updateHead.2.votes.map (Option.map fun vote => (vote.nextEpoch, vote.nextRoot)) =
    fc.votes.map (Option.map fun vote => (vote.nextEpoch, vote.nextRoot)) := by
  obtain ⟨head, heq⟩ := updateHead_eq fc
  have hvotes : fc.updateHead.2.votes = fc.sync.2.votes := by rw [heq]
  rw [hvotes]
  rcases sync_votes fc with h | h
  · rw [h]
  · rw [h]
    exact computeDeltasLoop_tracks fc.protoArray.indices fc.justifiedBalances fc.justifiedBalances fc.votes 0
      (List.replicate fc.protoArray.indices.size 0)

theorem trackedVote_updateHead (v : Nat) : fc.updateHead.2.trackedVote v = fc.trackedVote v := by
  have htracks := congrArg (fun l => (l[v]?).join) (updateHead_tracks fc)
  unfold trackedVote
  simpa [Option.join_map_eq_map_join] using htracks

theorem onTick_queue (slot : Nat) : (fc.onTick P slot).2.queuedAttestations = fc.queuedAttestations := by
  unfold onTick
  dsimp only
  split
  · rfl
  · split
    · rfl
    · split <;> rfl

end

theorem tickTo_queue (slot n : Nat) (fc : ForkChoice) :
    (tickTo P slot n fc).2.queuedAttestations = fc.queuedAttestations :=
  tickTo_keeps (Q := fun fc' => fc'.queuedAttestations = fc.queuedAttestations)
    (fun fc' slot h => (onTick_queue fc' slot).trans h) slot n fc rfl

variable {fc : ForkChoice}

theorem updateTime_votes (hqueue : fc.queuedAttestations = []) (slot : Nat) :
    (fc.updateTime P slot).2.votes = fc.votes := by
  have hstore := tickTo_onlyStore (P := P) slot (slot - fc.fcStore.currentSlot) fc
  have hnone := tickTo_queue (P := P) slot (slot - fc.fcStore.currentSlot) fc
  unfold updateTime
  rcases hr : tickTo P slot (slot - fc.fcStore.currentSlot) fc with ⟨r, fc'⟩
  rw [hr] at hstore hnone
  cases r with
  | error e => exact hstore.votes
  | ok u =>
    have hempty : fc'.queuedAttestations = [] := hnone.trans hqueue
    simp only [processAttestationQueue, hempty]
    exact hstore.votes

/-! ## A run -/

theorem trackedVote_op {op : Op} (hop : op.OverTree P fc) (v : Nat) :
    (op.run P fc).trackedVote v = (latestMessagesOf v (op.accepted P fc)).foldl (keepGreater Prod.fst) (fc.trackedVote v) := by
  cases op with
  | onAttestation attestation =>
    simp only [Op.run]
    rw [onAttestation_eq, trackedVote_foldl]
  | updateHead => exact trackedVote_updateHead fc v
  | updateTime slot =>
    simp only [Op.run, trackedVote, updateTime_votes hop.1 slot]
    rfl
  | onBlock block state balances => exact hop.elim
  | prune root => exact hop.elim

theorem trackedVote_run (v : Nat) : ∀ (ops : List Op) {fc : ForkChoice}, Along P (Op.OverTree P) fc ops →
    (runOps P fc ops).trackedVote v =
      (latestMessagesOf v (acceptedIn P fc ops)).foldl (keepGreater Prod.fst) (fc.trackedVote v)
  | [], _, _ => rfl
  | op :: ops, fc, ⟨hop, hrest⟩ => by
    have hrun := trackedVote_run v ops hrest
    rw [trackedVote_op hop] at hrun
    rw [acceptedIn, latestMessagesOf_append, List.foldl_append]
    exact hrun

/-! ## How many votes there are -/

def votersOf (attestations : List IndexedAttestation) : List Nat :=
  attestations.flatMap fun attestation => attestation.attestingIndices.map (· + 1)

theorem length_addLatestMessage (fc : ForkChoice) (i epoch : Nat) (root : HexRoot) :
    (fc.addLatestMessage i epoch root).votes.length = max fc.votes.length (i + 1) := by
  have hset : ∀ vote, (setVote fc.votes i vote).length = max fc.votes.length (i + 1) := by
    intro vote
    unfold setVote
    split
    · rw [List.length_set]
      omega
    · simp
      omega
  unfold addLatestMessage
  dsimp only
  cases hvote : (fc.votes[i]?).join with
  | none => exact hset _
  | some vote =>
    have hi : i < fc.votes.length := by
      by_contra hge
      rw [List.getElem?_eq_none (Nat.le_of_not_lt hge)] at hvote
      cases hvote
    dsimp only
    split
    · exact hset _
    · dsimp only
      omega

theorem length_addLatestMessages (epoch : Nat) (root : HexRoot) : ∀ (is : List Nat) (fc : ForkChoice),
    (fc.addLatestMessages is epoch root).votes.length = latest fc.votes.length (is.map (· + 1))
  | [], _ => rfl
  | i :: is, fc => by
    rw [List.map_cons, latest_cons, ← length_addLatestMessage fc i epoch root]
    exact length_addLatestMessages epoch root is _

theorem length_foldl : ∀ (attestations : List IndexedAttestation) (fc : ForkChoice),
    (attestations.foldl (fun fc a => fc.addLatestMessages a.attestingIndices a.target.epoch a.beaconBlockRoot) fc).votes.length =
      latest fc.votes.length (votersOf attestations)
  | [], _ => rfl
  | a :: attestations, fc => by
    rw [List.foldl_cons, length_foldl attestations, length_addLatestMessages]
    simp [votersOf, latest_append]

theorem length_updateHead (fc : ForkChoice) : fc.updateHead.2.votes.length = fc.votes.length := by
  simpa using congrArg List.length (updateHead_tracks fc)

theorem length_votes_run : ∀ (ops : List Op) {fc : ForkChoice}, Along P (Op.OverTree P) fc ops →
    (runOps P fc ops).votes.length = latest fc.votes.length (votersOf (acceptedIn P fc ops))
  | [], _, _ => rfl
  | op :: ops, fc, ⟨hop, hrest⟩ => by
    have hstep : (op.run P fc).votes.length = latest fc.votes.length (votersOf (op.accepted P fc)) := by
      cases op with
      | onAttestation attestation =>
        simp only [Op.run]
        rw [onAttestation_eq, length_foldl]
      | updateHead => exact length_updateHead fc
      | updateTime slot =>
        simp only [Op.run, updateTime_votes hop.1 slot]
        rfl
      | onBlock block state balances => exact hop.elim
      | prune root => exact hop.elim
    have hrun := length_votes_run ops hrest
    rw [hstep, ← latest_append] at hrun
    rw [acceptedIn, votersOf, List.flatMap_append]
    exact hrun

/-! ## The applied votes -/

/-- If the weights are said to be up to date, they were, and no vote has changed since. -/
def KeepsVotes (fc fc' : ForkChoice) : Prop := fc'.synced = true → fc.synced = true ∧ fc'.votes = fc.votes

theorem KeepsVotes.refl (fc : ForkChoice) : KeepsVotes fc fc := fun h => ⟨h, rfl⟩

theorem KeepsVotes.trans {fc₁ fc₂ fc₃ : ForkChoice} (h : KeepsVotes fc₁ fc₂) (h' : KeepsVotes fc₂ fc₃) :
    KeepsVotes fc₁ fc₃ := by
  intro hs
  obtain ⟨hs₂, hv₂⟩ := h' hs
  obtain ⟨hs₁, hv₁⟩ := h hs₂
  exact ⟨hs₁, hv₂.trans hv₁⟩

theorem OnlyStore.keepsVotes {fc fc' : ForkChoice} (h : OnlyStore fc fc') : KeepsVotes fc fc' := by
  intro hs
  rcases h.justified with ⟨-, -, hsynced⟩ | hunsynced
  · exact ⟨hsynced.symm.trans hs, h.votes⟩
  · rw [hunsynced] at hs
    cases hs

theorem addLatestMessage_synced (fc : ForkChoice) (i epoch : Nat) (root : HexRoot) :
    (fc.addLatestMessage i epoch root).synced = false := by
  unfold addLatestMessage
  dsimp only
  split
  · rfl
  · split <;> rfl

theorem addLatestMessages_keepsVotes (epoch : Nat) (root : HexRoot) : ∀ (is : List Nat) (fc : ForkChoice),
    KeepsVotes fc (fc.addLatestMessages is epoch root)
  | [], fc => KeepsVotes.refl fc
  | i :: is, fc => by
    intro hs
    obtain ⟨hs', -⟩ := addLatestMessages_keepsVotes epoch root is (fc.addLatestMessage i epoch root) hs
    rw [addLatestMessage_synced] at hs'
    cases hs'

theorem foldl_keepsVotes {α : Type} {f : ForkChoice → α → ForkChoice} (hf : ∀ fc a, KeepsVotes fc (f fc a)) :
    ∀ (l : List α) (fc : ForkChoice), KeepsVotes fc (l.foldl f fc)
  | [], fc => KeepsVotes.refl fc
  | a :: l, fc => (hf fc a).trans (foldl_keepsVotes hf l (f fc a))

theorem updateTime_keepsVotes (fc : ForkChoice) (slot : Nat) : KeepsVotes fc (fc.updateTime P slot).2 := by
  have htick := (tickTo_onlyStore (P := P) slot (slot - fc.fcStore.currentSlot) fc).keepsVotes
  unfold updateTime
  rcases hr : tickTo P slot (slot - fc.fcStore.currentSlot) fc with ⟨r, fc'⟩
  rw [hr] at htick
  cases r with
  | error e => exact htick
  | ok u =>
    refine htick.trans (KeepsVotes.trans (fun hs => ⟨hs, rfl⟩) (foldl_keepsVotes (fun fc a => ?_) _ _))
    exact addLatestMessages_keepsVotes a.targetEpoch a.blockRoot a.attestingIndices fc

theorem op_keepsVotes {op : Op} (hop : op ≠ .updateHead) (fc : ForkChoice) : KeepsVotes fc (op.run P fc) := by
  cases op with
  | onBlock block state balances =>
    obtain ⟨fc₁, hstore, ⟨e, heq⟩ | heq⟩ := onBlock_parts (P := P) fc block state balances
    · simp only [Op.run, heq]
      exact hstore.keepsVotes
    · simp only [Op.run, heq]
      rw [registerBlock_eq]
      exact hstore.keepsVotes
  | onAttestation attestation =>
    simp only [Op.run]
    rw [onAttestation_eq]
    exact foldl_keepsVotes (fun fc (a : IndexedAttestation) =>
      addLatestMessages_keepsVotes a.target.epoch a.beaconBlockRoot a.attestingIndices fc) _ fc
  | updateTime slot => exact updateTime_keepsVotes fc slot
  | prune root =>
    simp only [Op.run]
    rw [prune_eq]
    exact fun hs => ⟨hs, rfl⟩
  | updateHead => exact absurd rfl hop

theorem appliedVotes_idem (votes : List (Option VoteTracker)) : appliedVotes (appliedVotes votes) = appliedVotes votes := by
  unfold appliedVotes
  rw [List.map_map]
  refine List.map_congr_left fun vote _ => ?_
  cases vote <;> rfl

/-- The weights are some scores summed over the subtrees, and every vote is applied while they are up to date. -/
structure Tallied (fc : ForkChoice) : Prop where
  scored : ∃ score, Scored score fc
  applied : fc.synced = true → appliedVotes fc.votes = fc.votes

/-- A block that joins the tree has not the zero hash for its root. -/
def Op.AddsNoZeroHash (P : Preset) (fc : ForkChoice) (op : Op) : Prop :=
  ∀ root, fc.protoArray.indices.has root = false → (op.run P fc).protoArray.indices.has root = true → root ≠ HEX_ZERO_HASH

instance (P : Preset) (fc : ForkChoice) (op : Op) : Decidable (op.AddsNoZeroHash P fc) :=
  decidable_of_iff (∀ root ∈ (op.run P fc).protoArray.indices.entries.map Prod.fst, fc.protoArray.indices.has root = false →
      root ≠ HEX_ZERO_HASH)
    ⟨fun h root hno hyes => h root (OrderedMap.has_iff.1 hyes) hno, fun h root hmem hno => h root hno (OrderedMap.has_iff.2 hmem)⟩

theorem Tallied.updateHead_votes (h : Tallied fc) : fc.updateHead.2.votes = appliedVotes fc.votes := by
  obtain ⟨head, heq⟩ := updateHead_eq fc
  have hvotes : fc.updateHead.2.votes = fc.sync.2.votes := by rw [heq]
  rw [hvotes]
  cases hs : fc.synced with
  | true =>
    unfold sync
    rw [hs]
    exact (h.applied hs).symm
  | false =>
    obtain ⟨score, hscored⟩ := h.scored
    obtain ⟨deltas, votes, hdeltas, -, -⟩ := computeDeltas_run (places hscored.wellFormed) fc.votes fc.justifiedBalances
      fc.justifiedBalances
    have happlied := computeDeltasLoop_votes fc.protoArray.indices _ _ fc.votes 0 _ hdeltas
    unfold sync
    rw [hs, if_neg Bool.false_ne_true, hdeltas]
    dsimp only
    split <;> exact happlied

theorem Tallied.op {op : Op} (h : Tallied fc) (hadds : op.AddsNoZeroHash P fc) :
    Tallied (op.run P fc) := by
  obtain ⟨score, hscored⟩ := h.scored
  by_cases hop : op = .updateHead
  · subst hop
    refine ⟨?_, fun _ => ?_⟩
    · obtain ⟨head, heq⟩ := updateHead_eq fc
      simp only [Op.run]
      cases hs : fc.synced with
      | true =>
        refine ⟨score, hscored.sameTree ?_⟩
        rw [heq]
        unfold sync
        rw [hs]
        rfl
      | false =>
        obtain ⟨fc', hrun, -, hafter, -⟩ := hscored.sync hs
        refine ⟨_, hafter.sameTree ?_⟩
        rw [heq, hrun]
    · simp only [Op.run]
      rw [h.updateHead_votes, appliedVotes_idem]
  · -- the scores of the blocks that are in the tree, with 0 for those that are not
    have hknown : Scored (fun root => if fc.protoArray.indices.has root then score root else 0) fc := by
      refine hscored.congr fun i hi => if_pos ?_
      unfold OrderedMap.has
      rw [hscored.wellFormed.get?_rootOf hi]
      rfl
    have hafter := (hknown.op (P := P) hop (fun root hno hyes => ⟨hadds root hno hyes, by rw [hno]; rfl⟩)).1
    refine ⟨⟨_, hafter⟩, fun hs => ?_⟩
    obtain ⟨hs₀, hvotes⟩ := op_keepsVotes hop fc hs
    rw [hvotes]
    exact h.applied hs₀

/-! ## The weights -/

/-- Since `fc₀` the block tree and the balances have stayed, and the weights have followed the applied votes. -/
structure Follows (score : HexRoot → Int) (fc₀ fc : ForkChoice) : Prop where
  tree : ProtoArray.SameTree fc₀.protoArray fc.protoArray
  balances : fc.justifiedBalances = fc₀.justifiedBalances
  scored : Scored (fun root => score root + (fc.supportOf root - fc₀.supportOf root)) fc

namespace Follows

variable {score : HexRoot → Int} {fc₀ fc : ForkChoice}

theorem refl (h : Scored score fc₀) : Follows score fc₀ fc₀ where
  tree := ProtoArray.SameTree.refl _
  balances := rfl
  scored := h.congr fun i _ => by ring

variable {fc' : ForkChoice}

theorem same (h : Follows score fc₀ fc) (htree : fc'.protoArray = fc.protoArray)
    (hbalances : fc'.justifiedBalances = fc.justifiedBalances) (hroots : currentRootOf fc'.votes = currentRootOf fc.votes) :
    Follows score fc₀ fc' := by
  refine ⟨by rw [htree]; exact h.tree, hbalances.trans h.balances, ?_⟩
  have hsupport : fc'.supportOf = fc.supportOf := by
    funext root
    unfold supportOf
    rw [hbalances, hroots]
  rw [hsupport]
  exact h.scored.sameTree htree

theorem updateHead (h : Follows score fc₀ fc) : Follows score fc₀ fc.updateHead.2 := by
  obtain ⟨head, heq⟩ := updateHead_eq fc
  cases hs : fc.synced with
  | true =>
    have hsync : fc.sync.2 = fc := by
      unfold sync
      rw [hs]
      rfl
    rw [heq, hsync]
    exact h.same rfl rfl rfl
  | false =>
    obtain ⟨votes, s', hrun, -, htree, -⟩ := sync_run h.scored.wellFormed hs
    obtain ⟨fc', hrun', hbalances, hscored, -⟩ := h.scored.sync hs
    obtain rfl : fc' = { fc with votes := votes, protoArray := s', synced := true } := by
      rw [hrun] at hrun'
      exact (congrArg Prod.snd hrun').symm
    have hfollows : Follows score fc₀ { fc with votes := votes, protoArray := s', synced := true } := by
      refine ⟨h.tree.trans htree, h.balances, hscored.congr fun i _ => ?_⟩
      ring
    rw [heq, hrun]
    exact hfollows.same rfl rfl rfl

theorem op {P : Preset} (h : Follows score fc₀ fc) {op : Op} (hop : op.OverTree P fc) : Follows score fc₀ (op.run P fc) := by
  cases op with
  | onAttestation attestation =>
    have honly := onAttestation_onlyVotes P fc attestation
    exact h.same honly.protoArray honly.justifiedBalances honly.currentRoots
  | updateHead => exact h.updateHead
  | updateTime slot =>
    obtain ⟨fc₁, hstore, honly⟩ := updateTime_parts (P := P) fc slot
    refine h.same (honly.protoArray.trans hstore.protoArray) hop.2.2 ?_
    exact congrArg currentRootOf (updateTime_votes hop.1 slot)
  | onBlock block state balances => exact hop.elim
  | prune root => exact hop.elim

theorem weightOf_eq (h : Follows score fc₀ fc) (h' : Follows score fc₀ fc') (hvotes : fc.votes = fc'.votes) (i : Nat) :
    fc.protoArray.weightOf i = fc'.protoArray.weightOf i := by
  have hsupport : fc.supportOf = fc'.supportOf := by
    funext root
    unfold supportOf
    rw [h.balances, h'.balances, hvotes]
  have hlength : fc.protoArray.nodes.length = fc'.protoArray.nodes.length := h.tree.length.trans h'.tree.length.symm
  by_cases hi : i < fc.protoArray.nodes.length
  · rw [h.scored.weights i hi, h'.scored.weights i (hlength ▸ hi), hlength, h.tree.parentOf, h'.tree.parentOf, h.tree.rootOf,
      h'.tree.rootOf, hsupport]
  · unfold ProtoArray.weightOf
    rw [List.getElem?_eq_none (Nat.le_of_not_lt hi), List.getElem?_eq_none (hlength ▸ Nat.le_of_not_lt hi)]

end Follows

theorem Tallied.overTree {ops : List Op} {fc : ForkChoice} (h : Tallied fc) (hops : Along P (Op.OverTree P) fc ops) :
    Tallied (runOps P fc ops) := by
  refine hops.keeps (fun h hop => ?_) h
  obtain ⟨score, hscored⟩ := h.scored
  refine h.op fun root hno hyes => ?_
  rw [((Follows.refl hscored).op hop).tree.indices, hno] at hyes
  cases hyes

/-! ## Two runs -/

variable {P : Preset}

theorem mem_latestMessagesOf {v : Nat} {attestations : List IndexedAttestation} {m : Nat × HexRoot} :
    m ∈ latestMessagesOf v attestations ↔
      ∃ a ∈ attestations, v ∈ a.attestingIndices ∧ (a.target.epoch, a.beaconBlockRoot) = m := by
  simp [latestMessagesOf, and_assoc]

theorem trackedVote_isFirstGreatest {ops : List Op} (hops : Along P (Op.OverTree P) fc ops) (v : Nat) :
    IsFirstGreatest Prod.fst ((fc.trackedVote v).toList ++ latestMessagesOf v (acceptedIn P fc ops))
      ((runOps P fc ops).trackedVote v) := by
  rw [trackedVote_run v ops hops]
  exact IsFirstGreatest.foldl _ (IsFirstGreatest.toList _)

section TwoRuns

variable {fc : ForkChoice} {ops ops' : List Op} (hops : Along P (Op.OverTree P) fc ops)
  (hops' : Along P (Op.OverTree P) fc ops') (hsame : ∀ a, a ∈ acceptedIn P fc ops ↔ a ∈ acceptedIn P fc ops')
  (hdistinct : DistinctTargets (acceptedIn P fc ops))

include hops hops' hsame

include hdistinct in
theorem trackedVote_order_free (v : Nat) :
    (runOps P fc ops).trackedVote v = (runOps P fc ops').trackedVote v := by
  refine (trackedVote_isFirstGreatest hops v).eq_of_mem_iff (trackedVote_isFirstGreatest hops' v) (fun m => ?_) ?_
  · rw [mem_latestMessagesOf, mem_latestMessagesOf]
    simp only [hsame]
  · intro m hm m' hm' hepoch
    obtain ⟨a, ha, hva, rfl⟩ := mem_latestMessagesOf.1 hm
    obtain ⟨b, hb, hvb, rfl⟩ := mem_latestMessagesOf.1 hm'
    exact Prod.ext hepoch (hdistinct a ha b hb v hva hvb hepoch)

theorem length_votes_order_free : (runOps P fc ops).votes.length = (runOps P fc ops').votes.length := by
  rw [length_votes_run ops hops, length_votes_run ops' hops']
  refine latest_congr fun n => ?_
  simp [votersOf, hsame]

include hdistinct in
theorem appliedVotes_order_free : appliedVotes (runOps P fc ops).votes = appliedVotes (runOps P fc ops').votes := by
  have hlength := length_votes_order_free hops hops' hsame
  refine List.ext_getElem? fun v => ?_
  unfold appliedVotes
  rw [List.getElem?_map, List.getElem?_map]
  by_cases hv : v < (runOps P fc ops).votes.length
  · have htracked := trackedVote_order_free hops hops' hsame hdistinct v
    unfold trackedVote at htracked
    obtain ⟨vote, hvote⟩ : ∃ vote, (runOps P fc ops).votes[v]? = some vote := ⟨_, List.getElem?_eq_getElem hv⟩
    obtain ⟨vote', hvote'⟩ : ∃ vote, (runOps P fc ops').votes[v]? = some vote := ⟨_, List.getElem?_eq_getElem (hlength ▸ hv)⟩
    rw [hvote, hvote'] at htracked ⊢
    rcases vote with _ | ⟨current, next, epoch⟩ <;> rcases vote' with _ | ⟨current', next', epoch'⟩ <;> simp_all
  · rw [List.getElem?_eq_none (Nat.le_of_not_lt hv), List.getElem?_eq_none (hlength ▸ Nat.le_of_not_lt hv)]

end TwoRuns

/-- **Votes and weights do not depend on the order of delivery.**  Over a fixed block tree and justified checkpoint, every
tracked vote is the first accepted one with the greatest target epoch.  Two runs that accept the same attestations, no
validator attesting to two blocks in one target epoch, have the same votes and the same weights after a last `updateHead`, in
whatever order they came and wherever else `updateHead` was called. -/
theorem votes_and_weights_order_free (P : Preset) (fcStore : ForkChoiceStore) (anchor : ProtoBlock)
    (hanchor : anchor.blockRoot ≠ HEX_ZERO_HASH) (queue : List QueuedAttestation) (balances : List Nat) (before : List Op)
    (hbefore : Along P (Op.AddsNoZeroHash P) (construct fcStore (ProtoArray.initializeWith anchor) queue balances) before) :
    let fc := runOps P (construct fcStore (ProtoArray.initializeWith anchor) queue balances) before
    (∀ ops, Along P (Op.OverTree P) fc ops → ∀ v,
      IsFirstGreatest Prod.fst ((fc.trackedVote v).toList ++ latestMessagesOf v (acceptedIn P fc ops))
        ((runOps P fc ops).trackedVote v)) ∧
    ∀ ops ops', Along P (Op.OverTree P) fc ops → Along P (Op.OverTree P) fc ops' →
      (∀ a, a ∈ acceptedIn P fc ops ↔ a ∈ acceptedIn P fc ops') → DistinctTargets (acceptedIn P fc ops) →
      (runOps P fc ops).updateHead.2.votes = (runOps P fc ops').updateHead.2.votes ∧
      ∀ i, (runOps P fc ops).updateHead.2.protoArray.weightOf i = (runOps P fc ops').updateHead.2.protoArray.weightOf i := by
  intro fc
  have htallied : Tallied fc := hbefore.keeps (fun h hop => h.op hop) ⟨⟨_, Weighed.construct fcStore hanchor queue balances⟩, fun _ => rfl⟩
  refine ⟨fun ops hops v => trackedVote_isFirstGreatest hops v, fun ops ops' hops hops' hsame hdistinct => ?_⟩
  obtain ⟨score, hscored⟩ := htallied.scored
  have hfollows := (hops.keeps (fun h hop => h.op hop) (Follows.refl hscored)).updateHead
  have hfollows' := (hops'.keeps (fun h hop => h.op hop) (Follows.refl hscored)).updateHead
  have hvotes : (runOps P fc ops).updateHead.2.votes = (runOps P fc ops').updateHead.2.votes := by
    rw [(htallied.overTree hops).updateHead_votes, (htallied.overTree hops').updateHead_votes]
    exact appliedVotes_order_free hops hops' hsame hdistinct
  exact ⟨hvotes, hfollows.weightOf_eq hfollows' hvotes⟩

def forB : IndexedAttestation := ⟨[0, 1], 8, "b", ⟨1, "b"⟩⟩
def forA : IndexedAttestation := ⟨[0], 7, "a", ⟨0, "a"⟩⟩

/-- The earlier vote comes last, or first and is applied before the other comes. -/
theorem votes_and_weights_order_free_late :
    acceptedIn minimal inSlot9 [.onAttestation forB, .onAttestation forA] = [forB, forA] ∧
    acceptedIn minimal inSlot9 [.onAttestation forA, .updateHead, .onAttestation forB] = [forA, forB] ∧
    ∀ i, (runOps minimal inSlot9 [.onAttestation forB, .onAttestation forA]).updateHead.2.protoArray.weightOf i =
      (runOps minimal inSlot9 [.onAttestation forA, .updateHead, .onAttestation forB]).updateHead.2.protoArray.weightOf i := by
  have hlate : acceptedIn minimal inSlot9 [.onAttestation forB, .onAttestation forA] = [forB, forA] := by decide
  have hearly : acceptedIn minimal inSlot9 [.onAttestation forA, .updateHead, .onAttestation forB] = [forA, forB] := by decide
  have hmem : ∀ a, a ∈ acceptedIn minimal inSlot9 [.onAttestation forB, .onAttestation forA] ↔
      a ∈ acceptedIn minimal inSlot9 [.onAttestation forA, .updateHead, .onAttestation forB] := by
    rw [hlate, hearly]
    simp [or_comm]
  have hdistinct : DistinctTargets (acceptedIn minimal inSlot9 [.onAttestation forB, .onAttestation forA]) := by
    decide
  have hfree := (votes_and_weights_order_free minimal ⟨0, ⟨0, "a"⟩, ⟨0, "a"⟩, ⟨0, "a"⟩⟩ ⟨0, "a", "z", "a", "a", 0, 0⟩
    (by decide) [] [1] [.updateTime 9, .onBlock ⟨8, "a", "b", "b"⟩ (stateAt 8 ⟨0, "a"⟩ ⟨0, "a"⟩) none]
    ⟨by decide, by decide, trivial⟩).2 [.onAttestation forB, .onAttestation forA]
    [.onAttestation forA, .updateHead, .onAttestation forB] ⟨trivial, trivial, trivial⟩ ⟨trivial, trivial, trivial, trivial⟩
    hmem hdistinct
  exact ⟨hlate, hearly, hfree.2⟩

end ForkChoice

end Lodestar
