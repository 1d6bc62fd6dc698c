import Mathlib.Data.List.Basic
/-!
# Chunks — a reader of a stream that arrives in chunks

A reader puts all it has gathered to a verdict after every chunk: wait, fail, or be done with some of it; what it is done
with goes, the rest is the front of the next reader's stream.  What a reader returns is the verdict on one prefix of the
stream, and which prefix is the choice of the transport.
-/
namespace Lib

variable {α ε β γ : Type}

/-- What a reader makes of what it has gathered; `done` says how much of that it has used. -/
inductive Verdict (ε β : Type)
  | wait
  | fail (error : ε)
  | done (value : β) (used : Nat)

namespace Verdict

def andThen (v : Verdict ε β) (f : β → Except ε γ) : Verdict ε γ :=
  match v with
  | .wait => .wait
  | .fail error => .fail error
  | .done value used =>
    match f value with
    | .error error => .fail error
    | .ok value => .done value used

end Verdict

/-- A stream cut into chunks, none of them empty. -/
structure Chunked (chunks : List (List α)) (stream : List α) : Prop where
  flatten : chunks.flatten = stream
  nonempty : ∀ chunk ∈ chunks, chunk ≠ []

def requeue (rest : List α) (chunks : List (List α)) : List (List α) := if rest = [] then chunks else rest :: chunks

def scan (verdict : List α → Verdict ε β) (ended : Except ε β) :
    List α → List (List α) → Except ε (β × List (List α))
  | _, [] => ended.map fun value => (value, [])
  | gathered, chunk :: chunks =>
    match verdict (gathered ++ chunk) with
    | .wait => scan verdict ended (gathered ++ chunk) chunks
    | .fail error => .error error
    | .done value used => .ok (value, requeue ((gathered ++ chunk).drop used) chunks)

/-! ## Cuts -/

namespace Chunked

variable {chunks : List (List α)}

theorem nil_iff : Chunked chunks [] ↔ chunks = [] := by
  constructor
  · intro h
    cases chunks with
    | nil => rfl
    | cons chunk chunks =>
      have hf := h.flatten
      rw [List.flatten_cons, List.append_eq_nil_iff] at hf
      exact absurd hf.1 (h.nonempty chunk (List.mem_cons_self ..))
  · rintro rfl
    exact ⟨rfl, fun _ hc => nomatch hc⟩

theorem nil : Chunked ([] : List (List α)) [] := nil_iff.2 rfl

variable {chunk : List α} {stream : List α}

theorem cons (hne : chunk ≠ []) (h : Chunked chunks stream) :
    Chunked (chunk :: chunks) (chunk ++ stream) := by
  refine ⟨by rw [List.flatten_cons, h.flatten], ?_⟩
  intro c hc
  rcases List.mem_cons.1 hc with rfl | hc
  · exact hne
  · exact h.nonempty c hc

theorem tail (h : Chunked (chunk :: chunks) stream) : Chunked chunks chunks.flatten :=
  ⟨rfl, fun c hc => h.nonempty c (List.mem_cons_of_mem _ hc)⟩

theorem single (hne : stream ≠ []) : Chunked [stream] stream := by
  have h := cons hne (nil (α := α))
  rwa [List.append_nil] at h

theorem two {k : Nat} (hpos : 0 < k) (hlt : k < stream.length) :
    Chunked [stream.take k, stream.drop k] stream := by
  have htake : stream.take k ≠ [] := by
    intro h
    have := congrArg List.length h
    rw [List.length_take, List.length_nil] at this
    omega
  have hdrop : stream.drop k ≠ [] := by
    intro h
    have := congrArg List.length h
    rw [List.length_drop, List.length_nil] at this
    omega
  have h := cons htake (single hdrop)
  rwa [List.take_append_drop] at h

theorem requeue (h : Chunked chunks stream) (rest : List α) :
    Chunked (requeue rest chunks) (rest ++ stream) := by
  unfold Lib.requeue
  split
  · rename_i hrest
    rw [hrest, List.nil_append]
    exact h
  · rename_i hrest
    exact cons hrest h

theorem head_eq_take (h : Chunked (chunk :: chunks) stream) :
    0 < chunk.length ∧ chunk.length ≤ stream.length ∧ chunk = stream.take chunk.length ∧
      chunks.flatten = stream.drop chunk.length := by
  have hf := h.flatten
  rw [List.flatten_cons] at hf
  have hne := h.nonempty chunk (List.mem_cons_self ..)
  refine ⟨List.length_pos_iff.2 hne, ?_, ?_, ?_⟩
  · rw [← hf, List.length_append]
    omega
  · rw [← hf, List.take_left]
  · rw [← hf, List.drop_left]

end Chunked

/-- What a function makes of a stream does not depend on how the stream is cut. -/
def Agrees (f : List (List α) → γ) (stream : List α) : Prop :=
  ∀ P Q : List (List α), Chunked P stream → Chunked Q stream → f P = f Q

theorem agrees_nil (f : List (List α) → γ) : Agrees f [] := by
  intro P Q hP hQ
  rw [Chunked.nil_iff.1 hP, Chunked.nil_iff.1 hQ]

theorem agrees_iff {f g : List (List α) → γ} {stream rest : List α}
    (hto : ∀ P, Chunked P stream → ∃ P', Chunked P' rest ∧ f P = g P')
    (hfrom : ∀ P', Chunked P' rest → ∃ P, Chunked P stream ∧ f P = g P') : Agrees f stream ↔ Agrees g rest := by
  constructor
  · intro h P' Q' hP' hQ'
    obtain ⟨P, hP, hfP⟩ := hfrom P' hP'
    obtain ⟨Q, hQ, hfQ⟩ := hfrom Q' hQ'
    rw [← hfP, ← hfQ]
    exact h P Q hP hQ
  · intro h P Q hP hQ
    obtain ⟨P', hP', hfP⟩ := hto P hP
    obtain ⟨Q', hQ', hfQ⟩ := hto Q hQ
    rw [hfP, hfQ]
    exact h P' Q' hP' hQ'

/-! ## Readers -/

section Scan
variable {verdict : List α → Verdict ε β} {ended : Except ε β}

theorem scan_andThen (verdict : List α → Verdict ε β) (ended : Except ε β) (f : β → Except ε γ) :
    ∀ (gathered : List α) (chunks : List (List α)),
    scan (fun bytes => (verdict bytes).andThen f) (ended >>= f) gathered chunks =
      scan verdict ended gathered chunks >>= fun r => (f r.1).map fun value => (value, r.2)
  | _, [] => by
    cases ended with
    | error error => rfl
    | ok value => rfl
  | gathered, chunk :: chunks => by
    simp only [scan]
    cases hv : verdict (gathered ++ chunk) with
    | wait => exact scan_andThen verdict ended f (gathered ++ chunk) chunks
    | fail error => rfl
    | done value used =>
      simp only [Verdict.andThen]
      cases hf : f value with
      | error error => simp [hf, bind, Except.bind, Except.map]
      | ok value' => simp [hf, bind, Except.bind, Except.map]

/-- What becomes of the stream when the verdict on its first `m` elements decides. -/
def Decided (verdict : List α → Verdict ε β) (stream : List α) (m : Nat) (r : Except ε (β × List (List α))) : Prop :=
  (∃ error, verdict (stream.take m) = .fail error ∧ r = .error error) ∨
  ∃ value used chunks, verdict (stream.take m) = .done value used ∧
    Chunked chunks ((stream.take m).drop used ++ stream.drop m) ∧ r = .ok (value, chunks)

/-- **A reader returns the verdict on some prefix of its stream**, or waits to the end of it. -/
theorem scan_decided (verdict : List α → Verdict ε β) (ended : Except ε β) :
    ∀ {chunks : List (List α)} (gathered : List α) {rest : List α}, Chunked chunks rest →
    (∃ m, gathered.length < m ∧ m ≤ (gathered ++ rest).length ∧
      Decided verdict (gathered ++ rest) m (scan verdict ended gathered chunks)) ∨
    ((rest = [] ∨ verdict (gathered ++ rest) = .wait) ∧
      scan verdict ended gathered chunks = ended.map fun value => (value, []))
  | [], _, rest, h => by
    right
    have hf := h.flatten
    exact ⟨.inl hf.symm, rfl⟩
  | chunk :: chunks, gathered, rest, h => by
    obtain ⟨hpos, hle, htake, hdrop⟩ := h.head_eq_take
    have hrest : rest = chunk ++ chunks.flatten := h.flatten.symm
    have htail := h.tail
    have hinit : (gathered ++ rest).take (gathered ++ chunk).length = gathered ++ chunk := by
      rw [hrest, ← List.append_assoc, List.take_left]
    have hafter : (gathered ++ rest).drop (gathered ++ chunk).length = chunks.flatten := by
      rw [hrest, ← List.append_assoc, List.drop_left]
    have hlen : gathered.length < (gathered ++ chunk).length ∧
        (gathered ++ chunk).length ≤ (gathered ++ rest).length := by
      simp only [List.length_append]
      omega
    simp only [scan]
    cases hv : verdict (gathered ++ chunk) with
    | wait =>
      have ih := scan_decided verdict ended (gathered ++ chunk) htail
      rw [List.append_assoc, ← hrest] at ih
      rcases ih with ⟨m, hlt, hm, hd⟩ | ⟨hw, he⟩
      · left
        exact ⟨m, by omega, hm, hd⟩
      · right
        refine ⟨.inr ?_, he⟩
        rcases hw with hnil | hw
        · rw [hrest, hnil, List.append_nil]
          exact hv
        · exact hw
    | fail error =>
      left
      refine ⟨_, hlen.1, hlen.2, .inl ⟨error, ?_, rfl⟩⟩
      rw [hinit]
      exact hv
    | done value used =>
      left
      refine ⟨_, hlen.1, hlen.2, .inr ⟨value, used, _, ?_, ?_, rfl⟩⟩
      · rw [hinit]
        exact hv
      · rw [hinit, hafter]
        exact htail.requeue _

def fixedWidth (k : Nat) (gathered : List α) : Verdict ε (List α) :=
  if k ≤ gathered.length then .done (gathered.take k) k else .wait

/-- **A fixed number of elements is taken alike from any cut.** -/
theorem scan_fixedWidth (k : Nat) (ended : Except ε (List α)) :
    ∀ {chunks : List (List α)} {gathered rest : List α}, Chunked chunks rest → gathered.length < k →
    if (gathered ++ rest).length < k then scan (fixedWidth k) ended gathered chunks = ended.map fun value => (value, [])
    else ∃ chunks', Chunked chunks' ((gathered ++ rest).drop k) ∧
        scan (fixedWidth k) ended gathered chunks = .ok ((gathered ++ rest).take k, chunks')
  | [], gathered, rest, h, hlt => by
    have hrest : rest = [] := h.flatten.symm
    rw [hrest, List.append_nil, if_pos hlt]
    rfl
  | chunk :: chunks, gathered, rest, h, hlt => by
    have hrest : gathered ++ rest = (gathered ++ chunk) ++ chunks.flatten := by
      rw [List.append_assoc, ← List.flatten_cons, h.flatten]
    rw [hrest]
    by_cases hk : k ≤ (gathered ++ chunk).length
    · have hv : fixedWidth (ε := ε) k (gathered ++ chunk) = .done ((gathered ++ chunk).take k) k := if_pos hk
      rw [if_neg (by rw [List.length_append]; omega), List.take_append_of_le_length hk, List.drop_append_of_le_length hk]
      refine ⟨_, h.tail.requeue _, ?_⟩
      simp only [scan, hv]
    · have hv : fixedWidth (ε := ε) k (gathered ++ chunk) = .wait := if_neg hk
      have hmore : (gathered ++ chunk).length < k := by omega
      have ih := scan_fixedWidth k ended h.tail hmore
      simp only [scan, hv]
      exact ih

theorem scan_eq_error {error : ε} : ∀ {gathered : List α} {chunks : List (List α)},
    scan verdict ended gathered chunks = .error error → ended = .error error ∨ ∃ bytes, verdict bytes = .fail error
  | _, [], h => by
    left
    cases he : ended with
    | error error' =>
      rw [he] at h
      cases h
      rfl
    | ok value =>
      rw [he] at h
      cases h
  | gathered, chunk :: chunks, h => by
    simp only [scan] at h
    split at h
    · exact scan_eq_error h
    · rename_i error' hv
      cases h
      exact .inr ⟨_, hv⟩
    · cases h

theorem scan_append (verdict : List α → Verdict ε β) (ended : Except ε β) (more : List (List α)) :
    ∀ {chunks : List (List α)} (gathered : List α) {rest : List α}, Chunked chunks rest → rest ≠ [] →
    (∀ m, gathered.length < m → m < (gathered ++ rest).length → verdict ((gathered ++ rest).take m) = .wait) →
    scan verdict ended gathered (chunks ++ more) =
      match verdict (gathered ++ rest) with
      | .wait => scan verdict ended (gathered ++ rest) more
      | .fail error => .error error
      | .done value used => .ok (value, requeue ((gathered ++ rest).drop used) more)
  | [], _, _, h, hne, _ => absurd h.flatten.symm hne
  | chunk :: chunks, gathered, rest, h, _, hwait => by
    obtain ⟨hpos, -, -, -⟩ := h.head_eq_take
    have hrest : gathered ++ rest = (gathered ++ chunk) ++ chunks.flatten := by
      rw [List.append_assoc, ← List.flatten_cons, h.flatten]
    rw [List.cons_append]
    by_cases hlast : chunks.flatten = []
    · have hnil : chunks = [] := Chunked.nil_iff.1 (hlast ▸ h.tail)
      rw [hrest, hlast, List.append_nil, hnil, List.nil_append]
      rfl
    · have hlen : 0 < chunks.flatten.length := List.length_pos_iff.2 hlast
      have hv := hwait (gathered ++ chunk).length (by rw [List.length_append]; omega)
        (by rw [hrest]; simp only [List.length_append]; omega)
      rw [hrest, List.take_left] at hv
      have ih := scan_append verdict ended more (gathered ++ chunk) h.tail hlast fun m hlt hm =>
        hrest ▸ hwait m (by rw [List.length_append] at hlt; omega) (hrest ▸ hm)
      rw [hrest]
      simp only [scan, hv]
      exact ih

variable {chunk : List α} {chunks : List (List α)}

theorem scan_cons_fail {error : ε} (h : verdict chunk = .fail error) :
    scan verdict ended [] (chunk :: chunks) = .error error := by
  simp [scan, h]

theorem scan_cons_done {value : β} {used : Nat} (h : verdict chunk = .done value used) :
    scan verdict ended [] (chunk :: chunks) = .ok (value, requeue (chunk.drop used) chunks) := by
  simp [scan, h]

end Scan

end Lib
