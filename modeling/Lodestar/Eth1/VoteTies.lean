import Lodestar.Lib.Greatest
import Lodestar.Eth1.Eth1Vote
import Lodestar.StateTransition.EpochCache
/-!
# VoteTies — the picked vote and the one the network agrees on

Of the votes to consider the network takes one that the state holds most often, and among several the one that came first.
`pickEth1Vote` finds the same candidates, but among several it takes the one whose first occurrence is the last: it agrees
exactly where there is one candidate only (`pickEth1Vote_eq_iff`).
-/
namespace Lodestar.Eth1

open Lib StateTransition

/-! ## What the pass counts -/

section MostFrequent

variable {T : Type} [DecidableEq T] {hashTreeRoot : T → Root}

def RootsDiffer (hashTreeRoot : T → Root) (array : List T) : Prop :=
  ∀ x ∈ array, ∀ y ∈ array, hashTreeRoot x = hashTreeRoot y → x = y

def hashOf (hashTreeRoot : T → Root) (x : T) : String := Hex.ofBytes (hashTreeRoot x).toList

variable {array : List T}

omit [DecidableEq T] in
theorem RootsDiffer.hashOf_inj (h : RootsDiffer hashTreeRoot array) {x y : T} (hx : x ∈ array) (hy : y ∈ array)
    (heq : hashOf hashTreeRoot x = hashOf hashTreeRoot y) : x = y :=
  h x hx y hy (Vector.toList_inj.1 (Hex.ofBytes_inj heq))

/-- The map describes each of the elements that came by, under its hash, with the place and the number of it. -/
structure Counts (hashTreeRoot : T → Root) (array passed : List T) (hashMap : OrderedMap String ElementDescription) : Prop where
  described : ∀ hash desc, hashMap.get? hash = some desc →
    ∃ x ∈ passed, array[desc.index]? = some x ∧ hash = hashOf hashTreeRoot x ∧ desc.count = passed.count x
  found : ∀ x ∈ passed, ∃ desc, hashMap.get? (hashOf hashTreeRoot x) = some desc

variable {hashMap : OrderedMap String ElementDescription} {array passed : List T}

theorem Counts.set {x : T} {desc : ElementDescription} (hindex : array[desc.index]? = some x)
    (hcount : desc.count = passed.count x + 1) (h : Counts hashTreeRoot array passed hashMap) :
    Counts hashTreeRoot array (passed ++ [x]) (hashMap.set (hashOf hashTreeRoot x) desc) where
  described hash desc' hdesc' := by
    rw [OrderedMap.get?_set] at hdesc'
    split at hdesc'
    · rename_i hsame
      cases hdesc'
      exact ⟨x, by simp, hindex, hsame, by rw [List.count_append, List.count_singleton_self, hcount]⟩
    · rename_i hne
      obtain ⟨y, hy, hindex', hhash, hcount'⟩ := h.described _ _ hdesc'
      refine ⟨y, by simp [hy], hindex', hhash, ?_⟩
      rw [List.count_append, List.count_singleton, if_neg, Nat.add_zero, hcount']
      rw [beq_iff_eq]
      rintro rfl
      exact hne hhash
  found y hy := by
    rw [OrderedMap.get?_set]
    split
    · exact ⟨_, rfl⟩
    · rename_i hne
      rcases List.mem_append.1 hy with hy | hy
      · exact h.found y hy
      · exact absurd (congrArg _ (List.mem_singleton.1 hy)) hne

theorem Counts.countElement {x : T} {index : Nat} (hdiffer : RootsDiffer hashTreeRoot array) (hsub : passed ⊆ array)
    (hx : array[index]? = some x) (h : Counts hashTreeRoot array passed hashMap) :
    Counts hashTreeRoot array (passed ++ [x]) (Eth1.countElement hashTreeRoot hashMap (x, index)) := by
  unfold Eth1.countElement
  dsimp only
  rw [show Hex.ofBytes (hashTreeRoot x).toList = hashOf hashTreeRoot x from rfl]
  cases hget : hashMap.get? (hashOf hashTreeRoot x) with
  | some desc =>
    obtain ⟨y, hy, hindex, hhash, hcount⟩ := h.described _ _ hget
    obtain rfl : x = y := hdiffer.hashOf_inj (List.mem_of_getElem? hx) (hsub hy) hhash
    exact h.set hindex (congrArg Nat.succ hcount)
  | none =>
    have hnew : x ∉ passed := by
      intro hmem
      obtain ⟨desc, hdesc⟩ := h.found x hmem
      rw [hget] at hdesc
      cases hdesc
    exact h.set hx (by rw [List.count_eq_zero.2 hnew])

theorem Counts.foldl (hdiffer : RootsDiffer hashTreeRoot array) : ∀ (rest passed : List T)
    {hashMap : OrderedMap String ElementDescription}, array = passed ++ rest → Counts hashTreeRoot array passed hashMap →
    Counts hashTreeRoot array array ((rest.zipIdx passed.length).foldl (Eth1.countElement hashTreeRoot) hashMap)
  | [], passed, hashMap, harray, h => by
    rw [List.append_nil] at harray
    rw [harray] at h ⊢
    exact h
  | x :: rest, passed, hashMap, harray, h => by
    have hx : array[passed.length]? = some x := by
      rw [harray, List.getElem?_append_right (Nat.le_refl _), Nat.sub_self]
      rfl
    have hsub : passed ⊆ array := harray ▸ List.subset_append_left passed (x :: rest)
    have hnext := Counts.foldl hdiffer rest (passed ++ [x]) (by simpa using harray) (h.countElement hdiffer hsub hx)
    rw [List.length_append, List.length_singleton] at hnext
    exact hnext

/-! ## The most frequent ones -/

def mostOf (array : List T) (elems : List ElementDescription) : Nat × List T :=
  (latest 0 (elems.map (·.count)),
    (elems.filter fun elem => decide (elem.count = latest 0 (elems.map (·.count)))).flatMap fun elem => array[elem.index]?.toList)

omit [DecidableEq T] in
theorem keepMost_mostOf (array : List T) (elems : List ElementDescription) (elem : ElementDescription) :
    keepMost array (mostOf array elems) elem = mostOf array (elems ++ [elem]) := by
  have hlatest : latest 0 ((elems ++ [elem]).map (·.count)) = max (latest 0 (elems.map (·.count))) elem.count := by
    rw [List.map_append, latest_append]
    rfl
  have hle : ∀ e ∈ elems, e.count ≤ latest 0 (elems.map (·.count)) := fun e he => le_latest _ 0 (List.mem_map_of_mem he)
  unfold keepMost mostOf
  dsimp only
  rw [hlatest, List.filter_append, List.flatMap_append]
  generalize latest 0 (elems.map (·.count)) = m at hle ⊢
  rcases Nat.lt_trichotomy m elem.count with hlt | heq | hgt
  · have hnone : elems.filter (fun e => decide (e.count = elem.count)) = [] := by
      rw [List.filter_eq_nil_iff]
      intro e he
      have := hle e he
      simp
      omega
    rw [if_pos hlt, Nat.max_eq_right (Nat.le_of_lt hlt), hnone]
    simp
  · rw [if_neg (by omega), if_pos heq.symm, ← heq, Nat.max_self]
    simp [heq]
  · rw [if_neg (by omega), if_neg (by omega), Nat.max_eq_left (Nat.le_of_lt hgt)]
    have hnot : elem.count ≠ m := by omega
    simp [hnot]

omit [DecidableEq T] in
theorem foldl_keepMost_eq (array : List T) : ∀ (rest elems : List ElementDescription),
    rest.foldl (keepMost array) (mostOf array elems) = mostOf array (elems ++ rest)
  | [], elems => by simp
  | elem :: rest, elems => by
    rw [List.foldl_cons, keepMost_mostOf, foldl_keepMost_eq array rest, List.append_assoc, List.singleton_append]

def MostFrequent (array : List T) (x : T) : Prop := x ∈ array ∧ ∀ y ∈ array, array.count y ≤ array.count x

omit [DecidableEq T] in
theorem hashes_flatMap : ∀ {entries : List (String × ElementDescription)},
    (∀ entry ∈ entries, ∃ x, array[entry.2.index]? = some x ∧ entry.1 = hashOf hashTreeRoot x) →
    ((entries.map (·.2)).flatMap fun elem => array[elem.index]?.toList).map (hashOf hashTreeRoot) = entries.map (·.1)
  | [], _ => rfl
  | entry :: entries, h => by
    obtain ⟨x, hindex, hhash⟩ := h entry List.mem_cons_self
    have hrest := hashes_flatMap fun e he => h e (List.mem_cons_of_mem _ he)
    rw [List.map_cons, List.flatMap_cons, List.map_append, hrest, hindex, List.map_cons, hhash]
    rfl

theorem mem_mostFrequent_iff (hdiffer : RootsDiffer hashTreeRoot array) :
    (mostFrequent hashTreeRoot array).Nodup ∧ ∀ x, x ∈ mostFrequent hashTreeRoot array ↔ MostFrequent array x := by
  have hstart : Counts hashTreeRoot array [] OrderedMap.empty :=
    ⟨fun hash desc h => absurd h (by simp [OrderedMap.get?, OrderedMap.empty]), fun x hx => absurd hx List.not_mem_nil⟩
  have hcounts := Counts.foldl hdiffer array [] rfl hstart
  have hmost : mostFrequent hashTreeRoot array =
      (mostOf array ((array.zipIdx.foldl (countElement hashTreeRoot) OrderedMap.empty).entries.map (·.2))).2 :=
    congrArg Prod.snd (foldl_keepMost_eq array _ [])
  rw [hmost]
  generalize array.zipIdx.foldl (countElement hashTreeRoot) OrderedMap.empty = hashMap at hcounts
  have hentry : ∀ entry ∈ hashMap.entries, ∃ x ∈ array, array[entry.2.index]? = some x ∧ entry.1 = hashOf hashTreeRoot x ∧
      entry.2.count = array.count x := fun entry hentry =>
    hcounts.described entry.1 entry.2 (OrderedMap.get?_eq_some_iff.2 hentry)
  have hfound : ∀ x ∈ array, ∃ elem ∈ hashMap.entries.map (·.2), array[elem.index]? = some x ∧ elem.count = array.count x := by
    intro x hx
    obtain ⟨desc, hdesc⟩ := hcounts.found x hx
    obtain ⟨y, hy, hindex, hhash, hcount⟩ := hcounts.described _ _ hdesc
    obtain rfl : x = y := hdiffer.hashOf_inj hx hy hhash
    exact ⟨desc, List.mem_map_of_mem (OrderedMap.get?_eq_some_iff.1 hdesc), hindex, hcount⟩
  have hgreatest : ∀ x ∈ array, array.count x ≤ latest 0 ((hashMap.entries.map (·.2)).map (·.count)) := by
    intro x hx
    obtain ⟨elem, helem, -, hcount⟩ := hfound x hx
    rw [← hcount]
    exact le_latest _ 0 (List.mem_map_of_mem helem)
  unfold mostOf
  constructor
  · refine List.Nodup.of_map (hashOf hashTreeRoot) ?_
    rw [List.filter_map, hashes_flatMap]
    · exact hashMap.nodup.sublist (List.filter_sublist.map _)
    · intro entry hmem
      obtain ⟨x, -, hindex, hhash, -⟩ := hentry entry (List.mem_of_mem_filter hmem)
      exact ⟨x, hindex, hhash⟩
  · intro x
    rw [List.mem_flatMap]
    constructor
    · rintro ⟨elem, helem, hx⟩
      obtain ⟨hmem, hcount⟩ := List.mem_filter.1 helem
      obtain ⟨entry, hentry', rfl⟩ := List.mem_map.1 hmem
      obtain ⟨y, hy, hindex, -, hcount'⟩ := hentry entry hentry'
      obtain rfl : x = y := by simpa [hindex] using hx
      rw [decide_eq_true_eq, hcount'] at hcount
      exact ⟨hy, fun z hz => hcount ▸ hgreatest z hz⟩
    · rintro ⟨hx, hmost⟩
      obtain ⟨elem, helem, hindex, hcount⟩ := hfound x hx
      refine ⟨elem, List.mem_filter.2 ⟨helem, ?_⟩, by simp [hindex]⟩
      rw [decide_eq_true_eq, hcount]
      refine Nat.le_antisymm (hgreatest x hx) ?_
      rcases latest_mem ((hashMap.entries.map (·.2)).map (·.count)) 0 with hzero | hmem
      · rw [hzero]
        exact Nat.zero_le _
      · obtain ⟨elem', helem', hcount'⟩ := List.mem_map.1 hmem
        obtain ⟨entry, hentry', rfl⟩ := List.mem_map.1 helem'
        obtain ⟨y, hy, -, -, hcountY⟩ := hentry entry hentry'
        rw [← hcount', hcountY]
        exact hmost y hy

end MostFrequent

/-! ## The vote of the network -/

variable {P : Preset}

section

variable (state : BeaconState P) (votesToConsider : List Eth1Data)

def validVotes : List Eth1Data :=
  state.eth1DataVotes.filter fun eth1Data => decide (eth1Data ∈ votesToConsider)

/-- `get_eth1_vote` of the specification: the vote with the highest count, the first of several, else the default. -/
def getEth1Vote : Eth1Data :=
  let validVotes := validVotes state votesToConsider
  let defaultVote := votesToConsider.getLast?.getD state.eth1Data
  (validVotes.foldl (keepGreater validVotes.count) none).getD defaultVote

theorem filter_serialized (state : BeaconState P) (votesToConsider : List Eth1Data) :
    (state.eth1DataVotes.filter fun eth1Data => decide (serializeEth1Data eth1Data ∈ votesToConsider.map serializeEth1Data)) =
      validVotes state votesToConsider := by
  refine List.filter_congr fun eth1Data _ => ?_
  rw [decide_eq_decide]
  exact List.mem_map_of_injective fun _ _ => serializeEth1Data_inj

def OneCandidate : Prop :=
  ∀ vote vote', MostFrequent (validVotes state votesToConsider) vote → MostFrequent (validVotes state votesToConsider) vote' →
    vote = vote'

end

variable {votesToConsider votes candidates valid : List Eth1Data}

theorem getEth1Vote_first {state : BeaconState P} (h : validVotes state votesToConsider ≠ []) :
    MostFrequent (validVotes state votesToConsider) (getEth1Vote state votesToConsider) ∧
      ∀ vote, MostFrequent (validVotes state votesToConsider) vote → vote ≠ getEth1Vote state votesToConsider →
        (validVotes state votesToConsider).idxOf (getEth1Vote state votesToConsider) <
          (validVotes state votesToConsider).idxOf vote := by
  unfold getEth1Vote
  dsimp only
  generalize validVotes state votesToConsider = valid at h ⊢
  have hfirst : IsFirstGreatest valid.count valid (valid.foldl (keepGreater valid.count) none) :=
    IsFirstGreatest.foldl valid (l := []) rfl
  cases hkept : valid.foldl (keepGreater valid.count) none with
  | none =>
    rw [hkept] at hfirst
    exact absurd hfirst h
  | some winner =>
    rw [hkept] at hfirst
    refine ⟨⟨hfirst.mem, fun y hy => hfirst.le hy⟩, fun vote hvote hne => ?_⟩
    have hcount := hvote.2 winner hfirst.mem
    obtain ⟨before, after, hsplit, hbefore, -⟩ := hfirst
    have hwinner : winner ∉ before := fun hmem => Nat.lt_irrefl _ (hbefore winner hmem)
    have hvoteBefore : vote ∉ before := fun hmem => Nat.not_lt.2 hcount (hbefore vote hmem)
    have hdiff : winner ≠ vote := Ne.symm hne
    show valid.idxOf winner < valid.idxOf vote
    rw [hsplit, List.idxOf_append_of_notMem hwinner, List.idxOf_append_of_notMem hvoteBefore, List.idxOf_cons_self,
      List.idxOf_cons_ne _ hdiff]
    omega

theorem findIdx?_eq_idxOf {vote : Eth1Data} (h : vote ∈ votes) :
    (votes.findIdx? fun eth1Data => decide (vote = eth1Data)) = some (votes.idxOf vote) := by
  have hsame : (fun eth1Data => decide (vote = eth1Data)) = fun eth1Data => eth1Data == vote := by
    funext eth1Data
    rw [Bool.eq_iff_iff, decide_eq_true_eq, beq_iff_eq, eq_comm]
  rw [hsame]
  exact List.findIdx?_eq_some_iff_findIdx_eq.2 ⟨List.idxOf_lt_length_of_mem h, rfl⟩

theorem foldl_max_some : ∀ (indices : List Nat) (greatest : Nat),
    (indices.map some).foldl max (some greatest) = some (latest greatest indices)
  | [], _ => rfl
  | index :: indices, greatest => foldl_max_some indices (max greatest index)

theorem picked_last (hsub : ∀ vote ∈ candidates, vote ∈ valid) (hne : candidates ≠ []) :
    ∃ picked ∈ candidates, (((candidates.map fun vote => valid.findIdx? fun eth1Data => decide (vote = eth1Data)).foldl
      max none).bind fun index => valid[index]?) = some picked ∧ ∀ vote ∈ candidates, valid.idxOf vote ≤ valid.idxOf picked := by
  have hindices : candidates.map (fun vote => valid.findIdx? fun eth1Data => decide (vote = eth1Data)) =
      (candidates.map valid.idxOf).map some := by
    rw [List.map_map]
    exact List.map_congr_left fun vote hvote => findIdx?_eq_idxOf (hsub vote hvote)
  obtain ⟨first, rest, rfl⟩ := List.exists_cons_of_ne_nil hne
  have hlast : latest (valid.idxOf first) (rest.map valid.idxOf) ∈ (first :: rest).map valid.idxOf := by
    rcases latest_mem (rest.map valid.idxOf) (valid.idxOf first) with hfirst | hmem
    · rw [hfirst]
      exact List.mem_cons_self
    · exact List.mem_cons_of_mem _ hmem
  obtain ⟨picked, hpicked, hindex⟩ := List.mem_map.1 hlast
  refine ⟨picked, hpicked, ?_, fun vote hvote => ?_⟩
  · rw [hindices, List.map_cons, List.map_cons, List.foldl_cons]
    show (((rest.map valid.idxOf).map some).foldl max (some (valid.idxOf first))).bind (fun index => valid[index]?) = _
    rw [foldl_max_some, ← hindex, Option.bind_some]
    exact List.getElem?_idxOf (hsub picked hpicked)
  · rw [hindex]
    rcases List.mem_cons.1 hvote with rfl | hvote
    · exact start_le_latest _ _
    · exact le_latest _ _ (List.mem_map_of_mem hvote)

/-- **What is picked is the vote of the network exactly where there is one candidate only.** -/
theorem pickEth1Vote_eq_iff (hashTreeRoot : Eth1Data → Root) (state : BeaconState P) (votesToConsider : List Eth1Data)
    (hdiffer : RootsDiffer hashTreeRoot state.eth1DataVotes) :
    pickEth1Vote hashTreeRoot state votesToConsider = some (getEth1Vote state votesToConsider) ↔
      OneCandidate state votesToConsider := by
  by_cases hvalid : validVotes state votesToConsider = []
  · -- nobody voted for any of these: the default
    unfold pickEth1Vote getEth1Vote OneCandidate
    dsimp only
    rw [filter_serialized, hvalid]
    exact ⟨fun _ vote _ hvote => absurd hvote.1 List.not_mem_nil, fun _ => rfl⟩
  · have hsub : validVotes state votesToConsider ⊆ state.eth1DataVotes := List.filter_subset_self _
    have hdiffer' : RootsDiffer hashTreeRoot (validVotes state votesToConsider) :=
      fun x hx y hy => hdiffer x (hsub hx) y (hsub hy)
    obtain ⟨hnodup, hmem⟩ := mem_mostFrequent_iff hdiffer'
    obtain ⟨hwinner, hfirst⟩ := getEth1Vote_first hvalid
    have hcandidate := (hmem _).2 hwinner
    unfold pickEth1Vote
    dsimp only
    rw [filter_serialized, if_pos (List.length_pos_iff.2 hvalid)]
    generalize mostFrequent hashTreeRoot (validVotes state votesToConsider) = candidates at hnodup hmem hcandidate ⊢
    by_cases hone : candidates.length = 1
    · obtain ⟨vote, rfl⟩ := List.length_eq_one_iff.1 hone
      refine ⟨fun _ a b ha hb => ?_, fun _ => congrArg some (List.mem_singleton.1 hcandidate).symm⟩
      rw [List.mem_singleton.1 ((hmem a).2 ha), List.mem_singleton.1 ((hmem b).2 hb)]
    · rw [if_neg hone]
      -- beside the vote of the network there is another candidate, found after it
      obtain ⟨other, hother, hne⟩ : ∃ other ∈ candidates, other ≠ getEth1Vote state votesToConsider := by
        by_contra hnone
        have hall : candidates = List.replicate candidates.length (getEth1Vote state votesToConsider) :=
          List.eq_replicate_iff.2 ⟨rfl, fun vote hvote => not_not.1 fun hne => hnone ⟨vote, hvote, hne⟩⟩
        have hle : candidates.length ≤ 1 := List.nodup_replicate.1 (hall ▸ hnodup)
        have hpos := List.length_pos_of_mem hcandidate
        omega
      obtain ⟨picked, hpicked, hpick, hlast⟩ := picked_last (fun vote hvote => ((hmem vote).1 hvote).1)
        (List.ne_nil_of_mem hcandidate)
      rw [hpick]
      refine ⟨fun heq => ?_, fun hsole => absurd (hsole _ _ ((hmem other).1 hother) hwinner) hne⟩
      have hle := hlast other hother
      have hlt := hfirst other ((hmem other).1 hother) hne
      rw [Option.some.inj heq] at hle
      omega

def voteFor (n : Nat) : Eth1Data := ⟨Vector.replicate 32 (UInt8.ofNat n), n, zeroRoot⟩

def votedFor (votes : List Nat) : BeaconState minimal := { awaitingDeposit with eth1DataVotes := votes.map voteFor }

theorem rootsDiffer_votedFor : RootsDiffer (·.depositRoot) (votedFor [1, 2, 2, 1]).eth1DataVotes ∧
    RootsDiffer (·.depositRoot) (votedFor [1, 2, 2]).eth1DataVotes := by
  unfold RootsDiffer
  decide +kernel

theorem pickEth1Vote_eq_iff_majority : OneCandidate (votedFor [1, 2, 2]) [voteFor 1, voteFor 2] :=
  (pickEth1Vote_eq_iff (·.depositRoot) (votedFor [1, 2, 2]) [voteFor 1, voteFor 2] rootsDiffer_votedFor.2).1 (by decide +kernel)

/-- Two votes each for two candidates: the second is picked. -/
theorem pickEth1Vote_takes_later : ¬ ∀ (hashTreeRoot : Eth1Data → Root) (state : BeaconState minimal) (votes : List Eth1Data),
    RootsDiffer hashTreeRoot state.eth1DataVotes → pickEth1Vote hashTreeRoot state votes = some (getEth1Vote state votes) := by
  intro h
  have hpick := h (·.depositRoot) (votedFor [1, 2, 2, 1]) [voteFor 1, voteFor 2] rootsDiffer_votedFor.1
  exact absurd hpick (by decide +kernel)

end Lodestar.Eth1
