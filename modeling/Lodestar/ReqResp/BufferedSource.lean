import Lodestar.Lib.Chunks
import Lodestar.ReqResp.Types
/-!
# BufferedSource — a stream of chunks that several readers share

Every reader is a `for await (const buffer of bufferedSource)` over the same source: its iterator yields what is pending once,
then fetches chunk after chunk, and each time yields all that is in the buffer.

On non-empty chunks such a loop is a scan of what is pending and the chunks to come (`forAwait_scan`).
-/
namespace Lodestar.ReqResp

open Lib

structure BufferedSource where
  isDone : Bool
  buffer : Buffer
  source : List Buffer

namespace BufferedSource

def new (source : List Buffer) : BufferedSource := ⟨false, [], source⟩

def pending (s : BufferedSource) : Buffer := s.buffer ++ s.source.flatten

/-- The chunks in which the pending bytes reach the next reader. -/
def pieces (s : BufferedSource) : List Buffer := requeue s.buffer s.source

/-- The iterator's `next()`: what it yields, `firstNext` after it, and the source after it. -/
def next (s : BufferedSource) (firstNext : Bool) : Option Buffer × Bool × BufferedSource :=
  -- what a previous consumer left pending comes before a new chunk
  if firstNext && decide (0 < s.buffer.length) then (some s.buffer, false, s)
  else
    match s.source with
    | [] => (none, firstNext, { s with isDone := true })
    | chunk :: source => (some (s.buffer ++ chunk), firstNext, { s with buffer := s.buffer ++ chunk, source := source })

end BufferedSource

inductive Turn (σ α : Type)
  | continue_ (state : σ) (buffer : Buffer)
  | return_ (value : α) (buffer : Buffer)
  | throw_ (failure : Failure)

section Loop
variable {σ α : Type}

/-- How many times the iterator can still yield. -/
def turnsLeft (s : BufferedSource) (firstNext : Bool) : Nat := 2 * s.source.length + firstNext.toNat

variable {s s' : BufferedSource} {firstNext firstNext' : Bool} {buffer chunk gathered : Buffer}

theorem turnsLeft_next (h : s.next firstNext = (some buffer, firstNext', s')) (rest : Buffer) :
    turnsLeft { s' with buffer := rest } firstNext' < turnsLeft s firstNext := by
  unfold BufferedSource.next at h
  split at h
  · rename_i hfirst
    cases h
    rw [Bool.and_eq_true] at hfirst
    simp [turnsLeft, hfirst.1]
  · split at h
    · cases h
    · rename_i chunk source hsource
      cases h
      simp only [turnsLeft, hsource, List.length_cons]
      omega

/-- `for await (const buffer of bufferedSource) body`, and after the loop `ended`. -/
def forAwaitFrom (body : σ → Buffer → Turn σ α) (ended : Except Failure α) (state : σ) (s : BufferedSource)
    (firstNext : Bool) : Except Failure (α × BufferedSource) :=
  match _h : s.next firstNext with
  | (none, _, s') => ended.map fun value => (value, s')
  | (some buffer, firstNext', s') =>
    match body state buffer with
    | .continue_ state' rest => forAwaitFrom body ended state' { s' with buffer := rest } firstNext'
    | .return_ value rest => .ok (value, { s' with buffer := rest })
    | .throw_ failure => .error failure
termination_by turnsLeft s firstNext
decreasing_by exact turnsLeft_next _h _

def forAwait (body : σ → Buffer → Turn σ α) (ended : Except Failure α) (init : σ) (s : BufferedSource) :
    Except Failure (α × BufferedSource) := forAwaitFrom body ended init s true

/-! ## Loops as scans -/

/-- Every chunk to come has bytes, and a source is done only with nothing pending. -/
structure BufferedSource.Sound (s : BufferedSource) : Prop where
  nonempty : ∀ chunk ∈ s.source, chunk ≠ []
  isDone : s.isDone = true → s.pieces = []

/-- **What a loop's body does of a verdict on all that was gathered**: `R gathered state buffer` when the body has seen
`gathered` and left `buffer` of it. -/
structure Reads (body : σ → Buffer → Turn σ α) (verdict : Buffer → Verdict Failure α) (R : Buffer → σ → Buffer → Prop) :
    Prop where
  turn : ∀ {gathered buffer chunk : Buffer} {state : σ}, R gathered state buffer → chunk ≠ [] →
    match verdict (gathered ++ chunk) with
    | .wait => ∃ state' rest, body state (buffer ++ chunk) = .continue_ state' rest ∧ R (gathered ++ chunk) state' rest
    | .fail failure => body state (buffer ++ chunk) = .throw_ failure
    | .done value used => body state (buffer ++ chunk) = .return_ value ((gathered ++ chunk).drop used)
  /-- The iterator may yield what is pending a second time. -/
  again : ∀ {gathered buffer : Buffer} {state : σ}, R gathered state buffer → buffer ≠ [] →
    ∃ state', body state buffer = .continue_ state' buffer ∧ R gathered state' buffer

/-- A loop's result is that of a scan. -/
def Matches (r : Except Failure (α × BufferedSource)) (scanned : Except Failure (α × List Buffer)) : Prop :=
  match scanned with
  | .error failure => r = .error failure
  | .ok (value, pieces) => ∃ s', r = .ok (value, s') ∧ s'.pieces = pieces ∧ s'.Sound

variable {body : σ → Buffer → Turn σ α} {verdict : Buffer → Verdict Failure α} {R : Buffer → σ → Buffer → Prop}
  {ended : Except Failure α}

variable {state : σ} {s : BufferedSource} {firstNext : Bool}

theorem forAwaitFrom_fetch {source : List Buffer} (hsource : s.source = chunk :: source)
    (hfetch : firstNext = false ∨ s.buffer = []) :
    forAwaitFrom body ended state s firstNext =
      match body state (s.buffer ++ chunk) with
      | .continue_ state' rest => forAwaitFrom body ended state' ⟨s.isDone, rest, source⟩ firstNext
      | .return_ value rest => .ok (value, ⟨s.isDone, rest, source⟩)
      | .throw_ failure => .error failure := by
  have hnext : s.next firstNext = (some (s.buffer ++ chunk), firstNext, ⟨s.isDone, s.buffer ++ chunk, source⟩) := by
    unfold BufferedSource.next
    rw [hsource, if_neg]
    rcases hfetch with h | h <;> simp [h]
  rw [forAwaitFrom]
  split
  · rename_i h
    rw [hnext] at h
    cases h
  · rename_i h
    rw [hnext] at h
    cases h
    rfl

theorem forAwaitFrom_done (hsource : s.source = []) (hfetch : firstNext = false ∨ s.buffer = []) :
    forAwaitFrom body ended state s firstNext = ended.map fun value => (value, { s with isDone := true }) := by
  have hnext : s.next firstNext = (none, firstNext, { s with isDone := true }) := by
    unfold BufferedSource.next
    rw [hsource, if_neg]
    rcases hfetch with h | h <;> simp [h]
  rw [forAwaitFrom]
  split
  · rename_i h
    rw [hnext] at h
    cases h
    rfl
  · rename_i h
    rw [hnext] at h
    cases h

theorem forAwaitFrom_pending (hbuffer : s.buffer ≠ []) :
    forAwaitFrom body ended state s true =
      match body state s.buffer with
      | .continue_ state' rest => forAwaitFrom body ended state' { s with buffer := rest } false
      | .return_ value rest => .ok (value, { s with buffer := rest })
      | .throw_ failure => .error failure := by
  have hnext : s.next true = (some s.buffer, false, s) := by
    unfold BufferedSource.next
    rw [if_pos]
    rw [Bool.true_and, decide_eq_true_eq]
    exact List.length_pos_iff.2 hbuffer
  rw [forAwaitFrom]
  split
  · rename_i h
    rw [hnext] at h
    cases h
  · rename_i h
    rw [hnext] at h
    cases h
    rfl

theorem matches_ended (hended : ∀ value, ended = .ok value → ∀ {gathered state buffer}, R gathered state buffer → buffer = [])
    (hR : R gathered state s.buffer) (hsource : s.source = []) :
    Matches (ended.map fun value => (value, { s with isDone := true })) (ended.map fun value => (value, [])) := by
  cases he : ended with
  | error failure => rfl
  | ok value =>
    have hbuffer := hended value he hR
    have hpieces : ({ s with isDone := true } : BufferedSource).pieces = [] := by
      simp [BufferedSource.pieces, requeue, hbuffer, hsource]
    exact ⟨_, rfl, hpieces, ⟨by simp [hsource], fun _ => hpieces⟩⟩

section

variable (hreads : Reads body verdict R)
  (hended : ∀ value, ended = .ok value → ∀ {gathered state buffer}, R gathered state buffer → buffer = [])
include hreads hended

theorem forAwaitFrom_scan :
    ∀ (source : List Buffer) {s : BufferedSource} {gathered : Buffer} {state : σ} (firstNext : Bool), s.source = source →
      R gathered state s.buffer → (∀ chunk ∈ source, chunk ≠ []) → s.isDone = false →
      Matches (forAwaitFrom body ended state s firstNext) (scan verdict ended gathered source) := by
  intro source
  induction source with
  | nil =>
    intro s gathered state firstNext hsource hR _ _
    by_cases hfetch : firstNext = false ∨ s.buffer = []
    · rw [forAwaitFrom_done hsource hfetch]
      exact matches_ended hended hR hsource
    · rw [not_or, Bool.not_eq_false] at hfetch
      obtain ⟨state', hbody, hR'⟩ := hreads.again hR hfetch.2
      rw [hfetch.1, forAwaitFrom_pending hfetch.2, hbody]
      dsimp only
      rw [forAwaitFrom_done hsource (.inl rfl)]
      exact matches_ended hended hR' hsource
  | cons chunk source ih =>
    -- a fetched chunk, from any state the loop may be in
    have hfetched : ∀ {s : BufferedSource} {gathered : Buffer} {state : σ} (firstNext : Bool), s.source = chunk :: source →
        R gathered state s.buffer → (∀ c ∈ chunk :: source, c ≠ []) → s.isDone = false →
        firstNext = false ∨ s.buffer = [] →
        Matches (forAwaitFrom body ended state s firstNext) (scan verdict ended gathered (chunk :: source)) := by
      intro s gathered state firstNext hsource hR hne hdone hfetch
      have hturn := hreads.turn hR (hne chunk (List.mem_cons_self ..))
      have htail := fun c hc => hne c (List.mem_cons_of_mem _ hc)
      rw [forAwaitFrom_fetch hsource hfetch]
      unfold scan
      split at hturn
      · rename_i hv
        obtain ⟨state', rest, hbody, hR'⟩ := hturn
        rw [hv, hbody]
        exact ih firstNext rfl hR' htail hdone
      · rename_i failure hv
        rw [hv, hturn]
        rfl
      · rename_i value used hv
        rw [hv, hturn]
        exact ⟨_, rfl, rfl, ⟨htail, fun h => by rw [hdone] at h; cases h⟩⟩
    intro s gathered state firstNext hsource hR hne hdone
    by_cases hfetch : firstNext = false ∨ s.buffer = []
    · exact hfetched firstNext hsource hR hne hdone hfetch
    · rw [not_or, Bool.not_eq_false] at hfetch
      obtain ⟨state', hbody, hR'⟩ := hreads.again hR hfetch.2
      rw [hfetch.1, forAwaitFrom_pending hfetch.2, hbody]
      exact hfetched false hsource hR' hne hdone (.inl rfl)

theorem forAwait_scan {init : σ} (hinit : R [] init []) (hs : s.Sound) :
    Matches (forAwait body ended init s) (scan verdict ended [] s.pieces) := by
  unfold forAwait
  by_cases hbuffer : s.buffer = []
  · have hpieces : s.pieces = s.source := by simp [BufferedSource.pieces, requeue, hbuffer]
    by_cases hdone : s.isDone = true
    · have hsource : s.source = [] := by rw [← hpieces]; exact hs.isDone hdone
      have hR : R [] init s.buffer := by rw [hbuffer]; exact hinit
      have hscan : scan verdict ended [] s.source = ended.map fun value => (value, []) := by rw [hsource]; rfl
      rw [forAwaitFrom_done hsource (.inr hbuffer), hpieces, hscan]
      exact matches_ended hended hR hsource
    · rw [hpieces]
      have hR : R [] init s.buffer := by rw [hbuffer]; exact hinit
      exact forAwaitFrom_scan hreads hended s.source true rfl hR hs.nonempty (by simpa using hdone)
  · have hpieces : s.pieces = s.buffer :: s.source := by simp [BufferedSource.pieces, requeue, hbuffer]
    have hdone : s.isDone = false := by
      cases h : s.isDone with
      | false => rfl
      | true =>
        have hnil := hs.isDone h
        rw [hpieces] at hnil
        cases hnil
    have hturn := hreads.turn hinit hbuffer
    rw [List.nil_append] at hturn
    rw [hpieces, forAwaitFrom_pending hbuffer]
    unfold scan
    rw [List.nil_append]
    split at hturn
    · rename_i hv
      obtain ⟨state', rest, hbody, hR'⟩ := hturn
      rw [hv, hbody]
      exact forAwaitFrom_scan hreads hended s.source false rfl hR' hs.nonempty hdone
    · rename_i failure hv
      rw [hv, hturn]
      rfl
    · rename_i value used hv
      rw [hv, hturn]
      exact ⟨_, rfl, rfl, ⟨hs.nonempty, fun h => by rw [hdone] at h; cases h⟩⟩

end

/-! ## What a loop consumes -/

/-- A body that only ever takes bytes off the front of the buffer. -/
def Consumes (body : σ → Buffer → Turn σ α) : Prop :=
  ∀ state buffer, match body state buffer with
    | .continue_ _ rest => rest.length ≤ buffer.length
    | .return_ _ rest => rest.length ≤ buffer.length
    | .throw_ _ => True

theorem pending_next {yielded : Option Buffer} (h : s.next firstNext = (yielded, firstNext', s')) :
    s'.pending = s.pending ∧ ∀ buffer, yielded = some buffer → s'.buffer = buffer := by
  unfold BufferedSource.next at h
  split at h
  · cases h
    exact ⟨rfl, fun _ hb => Option.some.inj hb⟩
  · split at h
    · cases h
      exact ⟨rfl, fun _ hb => nomatch hb⟩
    · rename_i chunk source hsource
      cases h
      exact ⟨by simp [BufferedSource.pending, hsource], fun _ hb => Option.some.inj hb⟩

theorem forAwaitFrom_pending_le (hbody : Consumes body) {value : α}
    (h : forAwaitFrom body ended state s firstNext = .ok (value, s')) : s'.pending.length ≤ s.pending.length := by
  fun_induction forAwaitFrom body ended state s firstNext with
  | case1 state s firstNext _ s₁ hnext =>
    cases he : ended with
    | error failure => rw [he] at h; cases h
    | ok value₁ =>
      rw [he] at h
      cases h
      rw [(pending_next hnext).1]
  | case2 state s firstNext buffer firstNext₁ s₁ hnext state₁ rest hturn ih =>
    have hle := hbody state buffer
    rw [hturn] at hle
    obtain ⟨hpending, hbuffer⟩ := pending_next hnext
    have hs := hbuffer buffer rfl
    refine le_trans (ih h) ?_
    rw [← hpending]
    simp only [BufferedSource.pending, List.length_append, hs]
    omega
  | case3 state s firstNext buffer firstNext₁ s₁ hnext value₁ rest hturn =>
    cases h
    have hle := hbody state buffer
    rw [hturn] at hle
    obtain ⟨hpending, hbuffer⟩ := pending_next hnext
    have hs := hbuffer buffer rfl
    rw [← hpending]
    simp only [BufferedSource.pending, List.length_append, hs]
    omega
  | case4 state s firstNext buffer firstNext₁ s₁ hnext failure hturn => cases h

theorem forAwait_pending_le (hbody : Consumes body) {init : σ} {value : α} (h : forAwait body ended init s = .ok (value, s'))
    : s'.pending.length ≤ s.pending.length :=
  forAwaitFrom_pending_le hbody h

end Loop

end Lodestar.ReqResp
