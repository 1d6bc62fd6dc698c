import Lodestar.Lib.SwapOrNot
import Lodestar.StateTransition.Committees
/-!
# ShuffleList — the shuffle of a list against the shuffle of one index

A round of the list walks two stretches from both ends to their middle, and reads a new hash or a new byte only where the larger
place of a pair enters one.  What it has read is the byte of the pair all along (`Read`), so every pair is exchanged by its own
bit, and the round reindexes the list by one swap-or-not round.
-/
namespace Lodestar.StateTransition

open Lib

variable {P : Preset} {env : Env P} {seed : Root} {r : Nat}

/-! ## The bit of a pair -/

section

variable (env : Env P) (seed : Root)

/-- The bit that decides on the pair whose larger place is `position`. -/
def positionBit (r position : Nat) : Bool :=
  decide (byteAt (shuffleSource env seed r (position / 256)) position >>> (position % 8) % 2 = 1)

def roundPivot (indexCount r : Nat) : Nat :=
  bytesToBigInt ((env.hash (seed.toList ++ intToBytes r 1)).toList.take 8) % indexCount

def shuffleIndex (indexCount r : Nat) : Nat → Nat :=
  swapOrNot indexCount (roundPivot env seed indexCount r) (positionBit env seed r)

end

variable {n index indexCount j k i value : Nat}

theorem roundPivot_lt (hn : 0 < n) : roundPivot env seed n r < n := Nat.mod_lt _ hn

theorem computeShuffledIndex_eq (hindex : index < indexCount) (hcount : indexCount ≤ 2 ^ 40) :
    computeShuffledIndex env index indexCount seed =
      .ok (through (shuffleIndex env seed indexCount) (List.range P.SHUFFLE_ROUND_COUNT) index) := by
  have hround : ∀ permuted i, (if byteAt (env.hash (seed.toList ++ intToBytes i 1 ++
      intToBytes (max permuted (mirrored indexCount (roundPivot env seed indexCount i) permuted) / 256) 4))
        (max permuted (mirrored indexCount (roundPivot env seed indexCount i) permuted)) >>>
          (max permuted (mirrored indexCount (roundPivot env seed indexCount i) permuted) % 8) % 2 ≠ 0
      then mirrored indexCount (roundPivot env seed indexCount i) permuted else permuted) =
      shuffleIndex env seed indexCount i permuted := by
    intro permuted i
    unfold shuffleIndex swapOrNot positionBit shuffleSource
    generalize byteAt _ _ >>> _ = bits
    rcases Nat.mod_two_eq_zero_or_one bits with hbit | hbit <;> simp [hbit]
  unfold computeShuffledIndex check
  rw [decide_eq_true hindex, decide_eq_true hcount]
  refine congrArg Except.ok ?_
  congr 1
  funext permuted i
  exact hround permuted i

/-! ## A pair of the list -/

/-- What has been read is right for the pair whose larger place is `j`, unless it is read anew for it. -/
structure Read (env : Env P) (seed : Root) (r j : Nat) (st : ShuffleState) : Prop where
  source : j % 256 ≠ 255 → st.source = shuffleSource env seed r (j / 256)
  byteV : j % 8 ≠ 7 → st.byteV = byteAt (shuffleSource env seed r (j / 256)) j

theorem byteAt_congr (source : Root) (h : j % 256 / 8 = k % 256 / 8) : byteAt source j = byteAt source k := by
  unfold byteAt
  congr 2
  exact Fin.ext h

theorem shuffleStep_eq {st : ShuffleState} (h : Read env seed r j st) : shuffleStep env seed r i j st =
    { input := if positionBit env seed r j then swapPair st.input i j else st.input
      source := shuffleSource env seed r (j / 256)
      byteV := byteAt (shuffleSource env seed r (j / 256)) j } := by
  have hsource : (if j % 256 = 255 then shuffleSource env seed r (j / 256) else st.source) =
      shuffleSource env seed r (j / 256) := by
    split
    · rfl
    · rename_i hold
      exact h.source hold
  have hbyte : (if j % 8 = 7 then byteAt (shuffleSource env seed r (j / 256)) j else st.byteV) =
      byteAt (shuffleSource env seed r (j / 256)) j := by
    split
    · rfl
    · rename_i hold
      exact h.byteV hold
  unfold shuffleStep positionBit
  dsimp only
  rw [hsource, hbyte]
  simp only [decide_eq_true_eq]

variable {input : List Nat}

theorem read_pred (hj : 0 < j) : Read env seed r (j - 1)
    { input := input, source := shuffleSource env seed r (j / 256), byteV := byteAt (shuffleSource env seed r (j / 256)) j } := by
  constructor
  · intro hwindow
    have hsame : (j - 1) / 256 = j / 256 := by omega
    rw [hsame]
  · intro hplace
    have hsame : (j - 1) / 256 = j / 256 := by omega
    rw [hsame]
    apply byteAt_congr
    omega

theorem getElem?_swapPair (hi : i < input.length) (hj : j < input.length) (x : Nat) :
    (swapPair input i j)[x]? = if x = i then input[j]? else if x = j then input[i]? else input[x]? := by
  unfold swapPair
  by_cases hxi : i = x
  · subst hxi
    simp [hi, hj]
  · have hix : ¬ x = i := fun h => hxi h.symm
    by_cases hxj : j = x
    · subst hxj
      simp [hi, hj, hxi, hix]
    · have hjx : ¬ x = j := fun h => hxj h.symm
      simp [hxi, hix, hxj, hjx]

/-! ## A stretch of the list -/

theorem shuffleSteps_eq (c : Nat) : ∀ (k a : Nat) (st : ShuffleState), Read env seed r (c - a) st → 2 * (a + k) ≤ c + 1 →
    c - a < st.input.length →
    ((List.range' a k).foldl (fun st i => shuffleStep env seed r i (c - i) st) st).input.length = st.input.length ∧
    ∀ x, ((List.range' a k).foldl (fun st i => shuffleStep env seed r i (c - i) st) st).input[x]? =
      if ((a ≤ x ∧ x < a + k) ∨ (c < x + (a + k) ∧ x + a ≤ c)) ∧ positionBit env seed r (max x (c - x)) = true
      then st.input[c - x]? else st.input[x]?
  | 0, a, st, _, hmiddle, _ => by
    refine ⟨rfl, fun x => ?_⟩
    have hnone : ¬ ((a ≤ x ∧ x < a + 0) ∨ (c < x + (a + 0) ∧ x + a ≤ c)) := by omega
    rw [if_neg fun h => hnone h.1]
    rfl
  | k + 1, a, st, hread, hmiddle, hlength => by
    have hstep := shuffleStep_eq (i := a) hread
    have hnext : Read env seed r (c - (a + 1)) (shuffleStep env seed r a (c - a) st) := by
      rw [hstep]
      exact Nat.sub_sub c a 1 ▸ read_pred (by omega)
    have hentries : ∀ x, (shuffleStep env seed r a (c - a) st).input[x]? =
        if (x = a ∨ x = c - a) ∧ positionBit env seed r (c - a) = true then st.input[c - x]? else st.input[x]? := by
      intro x
      rw [hstep]
      by_cases hbit : positionBit env seed r (c - a) = true
      · simp only [hbit, if_true, and_true]
        rw [getElem?_swapPair (by omega) hlength]
        by_cases hxa : x = a
        · subst hxa
          simp
        · by_cases hxc : x = c - a
          · have hback : c - x = a := by omega
            rw [if_neg hxa, if_pos hxc, if_pos (.inr hxc), hback]
          · simp [hxa, hxc]
      · simp [hbit]
    have hkeeps : (shuffleStep env seed r a (c - a) st).input.length = st.input.length := by
      rw [hstep]
      split
      · simp [swapPair]
      · rfl
    obtain ⟨hlength', hrest⟩ := shuffleSteps_eq c k (a + 1) (shuffleStep env seed r a (c - a) st) hnext (by omega)
      (by rw [hkeeps]; omega)
    rw [List.range'_succ, List.foldl_cons]
    refine ⟨hlength'.trans hkeeps, fun x => ?_⟩
    rw [hrest, hentries, hentries]
    by_cases hends : x = a ∨ x = c - a
    · -- the outermost pair, which the rest leaves alone
      have hmax : max x (c - x) = c - a := by omega
      have houter : ¬ ((a + 1 ≤ x ∧ x < a + 1 + k) ∨ (c < x + (a + 1 + k) ∧ x + (a + 1) ≤ c)) := by omega
      have hinside : (a ≤ x ∧ x < a + (k + 1)) ∨ (c < x + (a + (k + 1)) ∧ x + a ≤ c) := by omega
      rw [if_neg fun h => houter h.1, hmax]
      simp only [hends, hinside, true_and]
    · have hmirror : ¬ (c - x = a ∨ c - x = c - a) ∨ ¬ x + a ≤ c := by omega
      have hsame : ((a + 1 ≤ x ∧ x < a + 1 + k) ∨ (c < x + (a + 1 + k) ∧ x + (a + 1) ≤ c)) ↔
          ((a ≤ x ∧ x < a + (k + 1)) ∨ (c < x + (a + (k + 1)) ∧ x + a ≤ c)) := by omega
      simp only [hsame, hends, false_and, if_false]
      split
      · rename_i hinside
        have hinner : ¬ (c - x = a ∨ c - x = c - a) := by omega
        simp only [hinner, false_and, if_false]
      · rfl

/-! ## A round of the list -/

theorem sar1_eq (h : value < 2 ^ 31) : sar1 value = (value / 2 : Nat) := by
  have hsmall : (BitVec.ofNat 32 value).toInt = value := by
    rw [BitVec.toInt_eq_toNat_cond, BitVec.toNat_ofNat]
    split <;> omega
  unfold sar1
  rw [hsmall]
  rfl

theorem read_fresh (input : List Nat) (j : Nat) : Read env seed r j
    { input := input, source := shuffleSource env seed r (j / 256), byteV := byteAt (shuffleSource env seed r (j / 256)) j } :=
  ⟨fun _ => rfl, fun _ => rfl⟩

theorem shuffleRound_reindexed (hpos : 0 < input.length) (hsmall : input.length < 2 ^ 30) :
    Reindexed (shuffleIndex env seed input.length r) input (shuffleRound env seed input r) := by
  have hlt : roundPivot env seed input.length r < input.length := roundPivot_lt hpos
  generalize hpivot : roundPivot env seed input.length r = pivot at hlt
  -- the stretch up to the pivot, and the one behind it
  obtain ⟨hlength₁, hfirst⟩ := shuffleSteps_eq pivot ((pivot + 1) / 2) 0 _ (read_fresh input pivot) (by omega) (by simpa using hlt)
  generalize hst₁ : (List.range' 0 ((pivot + 1) / 2)).foldl (fun st i => shuffleStep env seed r i (pivot - i) st)
    { input := input, source := shuffleSource env seed r (pivot / 256),
      byteV := byteAt (shuffleSource env seed r (pivot / 256)) pivot } = st₁ at hlength₁ hfirst
  dsimp only at hlength₁ hfirst
  have hend : pivot + input.length - (pivot + 1) = input.length - 1 := by omega
  obtain ⟨hlength₂, hsecond⟩ := shuffleSteps_eq (pivot + input.length) ((pivot + input.length + 1) / 2 - (pivot + 1)) (pivot + 1) _
    (read_fresh st₁.input _) (by omega) (by dsimp only; omega)
  rw [hend] at hlength₂ hsecond
  have hround : shuffleRound env seed input r =
      ((List.range' (pivot + 1) ((pivot + input.length + 1) / 2 - (pivot + 1))).foldl
        (fun st i => shuffleStep env seed r i (pivot + input.length - i) st)
        { input := st₁.input, source := shuffleSource env seed r ((input.length - 1) / 256),
          byteV := byteAt (shuffleSource env seed r ((input.length - 1) / 256)) (input.length - 1) }).input := by
    have hcount : (sar1 (pivot + 1)).toNat = (pivot + 1) / 2 := by
      rw [sar1_eq (by omega)]
      rfl
    have hcount' : (sar1 (pivot + input.length + 1) - (pivot + 1 : Nat)).toNat = (pivot + input.length + 1) / 2 - (pivot + 1) := by
      rw [sar1_eq (by omega)]
      omega
    unfold roundPivot at hpivot
    unfold shuffleRound
    dsimp only
    rw [hpivot, hcount, hcount', List.range_eq_range', hst₁]
    congr 1
    apply List.foldl_ext
    intro st i hi
    have hi := List.mem_range'_1.1 hi
    have hplace : input.length - 1 - i + pivot + 1 = pivot + input.length - i := by omega
    rw [hplace]
  have hkept : ∀ y, pivot < y → st₁.input[y]? = input[y]? := by
    intro y hy
    have hnone : ¬ ((0 ≤ y ∧ y < 0 + (pivot + 1) / 2) ∨ (pivot < y + (0 + (pivot + 1) / 2) ∧ y + 0 ≤ pivot)) := by omega
    rw [hfirst, if_neg fun h => hnone h.1]
  rw [hround]
  refine ⟨hlength₂.trans hlength₁, fun x hx => ?_⟩
  unfold shuffleIndex swapOrNot
  rw [hpivot, hsecond]
  by_cases hside : x ≤ pivot
  · have houter : ¬ ((pivot + 1 ≤ x ∧ x < pivot + 1 + ((pivot + input.length + 1) / 2 - (pivot + 1))) ∨
        (pivot + input.length < x + (pivot + 1 + ((pivot + input.length + 1) / 2 - (pivot + 1))) ∧
          x + (pivot + 1) ≤ pivot + input.length)) := by omega
    rw [mirrored_of_le hlt hside, if_neg fun h => houter h.1, hfirst]
    by_cases hmiddle : x = pivot - x
    · simp [← hmiddle]
    · have hinside : (0 ≤ x ∧ x < 0 + (pivot + 1) / 2) ∨ (pivot < x + (0 + (pivot + 1) / 2) ∧ x + 0 ≤ pivot) := by omega
      simp only [hinside, true_and]
      split <;> rfl
  · have hgt : pivot < x := Nat.lt_of_not_le hside
    rw [mirrored_of_lt hgt hx]
    rw [hkept x hgt, hkept _ (by omega)]
    by_cases hmiddle : x = pivot + input.length - x
    · simp [← hmiddle]
    · have hinside : (pivot + 1 ≤ x ∧ x < pivot + 1 + ((pivot + input.length + 1) / 2 - (pivot + 1))) ∨
          (pivot + input.length < x + (pivot + 1 + ((pivot + input.length + 1) / 2 - (pivot + 1))) ∧
            x + (pivot + 1) ≤ pivot + input.length) := by omega
      simp only [hinside, true_and]
      split <;> rfl

/-! ## All rounds -/

section Rounds

variable {n : Nat}

theorem shuffleIndex_lt (env : Env P) (seed : Root) : ∀ r, ∀ i < n, shuffleIndex env seed n r i < n := fun _ _ hi => swapOrNot_lt hi

theorem shuffleIndex_shuffleIndex : ∀ r, ∀ i < n, shuffleIndex env seed n r (shuffleIndex env seed n r i) = i :=
  fun _ _ hi => swapOrNot_swapOrNot (roundPivot_lt (by omega)) hi

theorem shuffleRounds_reindexed (env : Env P) (seed : Root) (hpos : 0 < n) (hsmall : n < 2 ^ 30) (rounds : List Nat)
    (input : List Nat) (hn : input.length = n) :
    Reindexed (through (shuffleIndex env seed n) rounds.reverse) input (rounds.foldl (shuffleRound env seed) input) := by
  refine Reindexed.foldl (shuffleIndex_lt env seed) (fun l r hl => ?_) rounds input hn
  subst hl
  exact shuffleRound_reindexed hpos hsmall

end Rounds

theorem innerShuffleList_eq (env : Env P) (seed : Root) (hsmall : input.length < 2 ^ 30) (dir : Bool) : ∃ output,
    innerShuffleList env input seed dir = .ok output ∧
    Reindexed (through (shuffleIndex env seed input.length)
      (if dir then (List.range P.SHUFFLE_ROUND_COUNT).reverse else List.range P.SHUFFLE_ROUND_COUNT)) input output := by
  unfold innerShuffleList
  by_cases hlong : input.length ≤ 1
  · rw [if_pos hlong]
    refine ⟨input, rfl, rfl, fun i hi => ?_⟩
    have hplace := through_lt (shuffleIndex_lt env seed)
      (if dir then (List.range P.SHUFFLE_ROUND_COUNT).reverse else List.range P.SHUFFLE_ROUND_COUNT) hi
    congr 1
    omega
  · rw [if_neg hlong]
    by_cases hrounds : P.SHUFFLE_ROUND_COUNT = 0
    · rw [if_pos hrounds, hrounds]
      refine ⟨input, rfl, ?_⟩
      cases dir <;> exact .refl input
    · rw [if_neg hrounds]
      have hfits : check (input.length % 2 ^ 32 = input.length) "input length does not fit uint32" = .ok () :=
        check_eq_ok.2 (decide_eq_true (Nat.mod_eq_of_lt (by omega)))
      rw [hfits]
      refine ⟨_, rfl, ?_⟩
      cases dir with
      | true => exact shuffleRounds_reindexed env seed (by omega) hsmall _ input rfl
      | false =>
        have hreindexed := shuffleRounds_reindexed env seed (by omega) hsmall
          (List.range P.SHUFFLE_ROUND_COUNT).reverse input rfl
        rw [List.reverse_reverse] at hreindexed
        exact hreindexed

/-- **The unshuffled list has at every place the entry at the shuffled index**, shuffling it gives the list back, and both
directions permute the list. -/
theorem unshuffleList_computeShuffledIndex (env : Env P) (seed : Root) (input : List Nat) (hsmall : input.length < 2 ^ 30) :
    ∃ output shuffled, unshuffleList env input seed = .ok output ∧ shuffleList env input seed = .ok shuffled ∧
      (∀ i < input.length, ∃ k < input.length, computeShuffledIndex env i input.length seed = .ok k ∧ output[i]? = input[k]?) ∧
      shuffleList env output seed = .ok input ∧ output.Perm input ∧ shuffled.Perm input := by
  obtain ⟨output, houtput, hback⟩ := innerShuffleList_eq env seed hsmall false
  obtain ⟨shuffled, hshuffled, -⟩ := innerShuffleList_eq env seed hsmall true
  have hlength : output.length = input.length := hback.1
  obtain ⟨again, hagain, hforth⟩ := innerShuffleList_eq env seed (hlength.symm ▸ hsmall) true
  rw [if_pos rfl, hlength] at hforth
  have hplaces := fun i hi => through_lt (shuffleIndex_lt (n := input.length) env seed)
    (List.range P.SHUFFLE_ROUND_COUNT).reverse (i := i) hi
  have hsame : again = input := by
    refine (hback.trans hforth hplaces).eq_of_id fun i hi => ?_
    have hundone := through_reverse (shuffleIndex_lt env seed) shuffleIndex_shuffleIndex
      (List.range P.SHUFFLE_ROUND_COUNT).reverse hi
    rw [List.reverse_reverse] at hundone
    exact hundone
  refine ⟨output, shuffled, houtput, hshuffled, fun i hi => ?_, hsame ▸ hagain, innerShuffleList_perm houtput,
    innerShuffleList_perm hshuffled⟩
  exact ⟨_, through_lt (shuffleIndex_lt env seed) _ hi, computeShuffledIndex_eq hi (by omega), hback.2 i hi⟩

/-- Three validators. -/
theorem unshuffleList_computeShuffledIndex_three : ∃ output, unshuffleList (plainEnv minimal) [7, 8, 9] zeroRoot = .ok output ∧
    shuffleList (plainEnv minimal) output zeroRoot = .ok [7, 8, 9] := by
  obtain ⟨output, -, houtput, -, -, hback, -⟩ :=
    unshuffleList_computeShuffledIndex (plainEnv minimal) zeroRoot [7, 8, 9] (by decide)
  exact ⟨output, houtput, hback⟩

end Lodestar.StateTransition
