import Mathlib.Logic.Relation
/-!
# Overlap — any number of calls that overlap at their awaits

Between two awaits a call runs undisturbed on a state it shares with the others: a stretch.  A stretch ends with the result of
the call, or asks a question and goes on from the answer, on the state as it then is.  A system starts calls, answers them in
any order and with any answers, and lets things outside happen to the state.

`Reaches.guarded` is the rule for a guard that is checked and taken in one stretch, and `acceptedOnce_iff` says what is left of
it where the guard is taken without a check.
-/
namespace Overlap

variable {ι Q κ σ ω ε α : Type} {Ans : Q → Type}

/-- Where a stretch of a call ends. -/
inductive Stop (Q : Type) (Ans : Q → Type) (σ ε α : Type) : Type
  | done (result : Except ε α)
  | await (question : Q) (resume : Ans question → σ → Stop Q Ans σ ε α × σ)

inductive Stop.Finishes : Stop Q Ans σ ε α → List ((question : Q) × Ans question) → α → Prop
  | done (a : α) : Stop.Finishes (.done (.ok a)) [] a
  | await (question : Q) (resume : Ans question → σ → Stop Q Ans σ ε α × σ) (answer : Ans question) (store : σ)
      {answers : List ((question : Q) × Ans question)} {a : α} (h : Stop.Finishes (resume answer store).1 answers a) :
      Stop.Finishes (.await question resume) (⟨question, answer⟩ :: answers) a

structure System (ι Q : Type) (Ans : Q → Type) (σ ε α : Type) where
  store : σ
  calls : List (ι × Stop Q Ans σ ε α)

structure Rules (ι Q : Type) (Ans : Q → Type) (σ ω ε α : Type) where
  start : ι → σ → Stop Q Ans σ ε α × σ
  outside : ω → σ → σ
  allowed : ω → σ → Prop

inductive Label (ι Q : Type) (Ans : Q → Type) (ω : Type)
  | start (argument : ι)
  | resume (n : Nat) (question : Q) (answer : Ans question)
  | outside (w : ω)

variable (rules : Rules ι Q Ans σ ω ε α)

inductive Step : System ι Q Ans σ ε α → Label ι Q Ans ω → System ι Q Ans σ ε α → Prop
  | start (s : System ι Q Ans σ ε α) (i : ι) :
      Step s (.start i) ⟨(rules.start i s.store).2, s.calls ++ [(i, (rules.start i s.store).1)]⟩
  | resume (s : System ι Q Ans σ ε α) (n : Nat) (i : ι) (q : Q) (k : Ans q → σ → Stop Q Ans σ ε α × σ) (answer : Ans q)
      (h : s.calls[n]? = some (i, .await q k)) :
      Step s (.resume n q answer) ⟨(k answer s.store).2, s.calls.set n (i, (k answer s.store).1)⟩
  | outside (s : System ι Q Ans σ ε α) (w : ω) (h : rules.allowed w s.store) :
      Step s (.outside w) { s with store := rules.outside w s.store }

inductive Run (condition : System ι Q Ans σ ε α → Label ι Q Ans ω → Prop) (s₀ : System ι Q Ans σ ε α) :
    System ι Q Ans σ ε α → Prop
  | refl : Run condition s₀ s₀
  | step {s s' : System ι Q Ans σ ε α} {label : Label ι Q Ans ω} (hrun : Run condition s₀ s) (hcondition : condition s label)
      (hstep : Step rules s label s') : Run condition s₀ s'

abbrev Reaches : System ι Q Ans σ ε α → System ι Q Ans σ ε α → Prop := Run rules fun _ _ => True

variable {rules}

variable {I : System ι Q Ans σ ε α → Prop} {s₀ s : System ι Q Ans σ ε α}

variable {condition condition' : System ι Q Ans σ ε α → Label ι Q Ans ω → Prop}

theorem Run.invariant (hrun : Run rules condition s₀ s) (hinit : I s₀)
    (hstep : ∀ s label s', condition s label → Step rules s label s' → I s → I s') : I s := by
  induction hrun with
  | refl => exact hinit
  | step _ hcondition hs ih => exact hstep _ _ _ hcondition hs ih

theorem Run.congr (hinit : I s₀) (hkeeps : ∀ s label s', Step rules s label s' → I s → I s')
    (h : ∀ s label s', I s → Step rules s label s' → (condition s label ↔ condition' s label)) :
    Run rules condition s₀ s ↔ Run rules condition' s₀ s := by
  have hinvariant : ∀ (c : System ι Q Ans σ ε α → Label ι Q Ans ω → Prop) s, Run rules c s₀ s → I s :=
    fun c s hrun => hrun.invariant hinit fun s label s' _ hstep hs => hkeeps s label s' hstep hs
  constructor
  · intro hrun
    induction hrun with
    | refl => exact .refl
    | step hrun hcondition hstep ih => exact .step ih ((h _ _ _ (hinvariant _ _ hrun) hstep).1 hcondition) hstep
  · intro hrun
    induction hrun with
    | refl => exact .refl
    | step hrun hcondition hstep ih => exact .step ih ((h _ _ _ (hinvariant _ _ hrun) hstep).2 hcondition) hstep

/-! ## Schedules that can be executed -/

inductive Move (ι Q : Type) (Ans : Q → Type)
  | start (argument : ι)
  | resume (n : Nat) (answer : (q : Q) → Ans q)

def play (rules : Rules ι Q Ans σ ω ε α) (s : System ι Q Ans σ ε α) : Move ι Q Ans → System ι Q Ans σ ε α
  | .start i => ⟨(rules.start i s.store).2, s.calls ++ [(i, (rules.start i s.store).1)]⟩
  | .resume n answer =>
    match s.calls[n]? with
    | some (i, .await q k) => ⟨(k (answer q) s.store).2, s.calls.set n (i, (k (answer q) s.store).1)⟩
    | _ => s

theorem Reaches.play (h : Reaches rules s₀ s) (move : Move ι Q Ans) :
    Reaches rules s₀ (play rules s move) := by
  cases move with
  | start i => exact h.step trivial (.start s i)
  | resume n answer =>
    unfold Overlap.play
    dsimp only
    split
    · rename_i i q k hcall
      exact h.step trivial (.resume s n i q k (answer q) hcall)
    · exact h

theorem Reaches.plays (h : Reaches rules s₀ s) (moves : List (Move ι Q Ans)) :
    Reaches rules s₀ (moves.foldl (Overlap.play rules) s) := by
  induction moves generalizing s with
  | nil => exact h
  | cons move moves ih => exact ih (h.play move)

/-! ## The calls that were accepted -/

variable (key : ι → α → κ)

def Accepted (s : System ι Q Ans σ ε α) (n : Nat) (k : κ) : Prop :=
  ∃ i a, s.calls[n]? = some (i, .done (.ok a)) ∧ key i a = k

def AcceptedOnce (s : System ι Q Ans σ ε α) : Prop :=
  ∀ n m k, Accepted key s n k → Accepted key s m k → n = m

variable {store : σ} {i : ι} {stop : Stop Q Ans σ ε α} {n : Nat} {k : κ} {s s' : System ι Q Ans σ ε α} {m n : Nat}

theorem accepted_put {calls : List (ι × Stop Q Ans σ ε α)}
    (hget : ∀ n, calls[n]? = if n = m then some (i, stop) else s.calls[n]?)
    (hopen : ∀ j a, s.calls[m]? ≠ some (j, .done (.ok a))) :
    Accepted key ⟨store, calls⟩ n k ↔ Accepted key s n k ∨ (n = m ∧ ∃ a, stop = .done (.ok a) ∧ key i a = k) := by
  unfold Accepted
  rw [hget]
  by_cases hn : n = m
  · subst hn
    rw [if_pos rfl]
    constructor
    · rintro ⟨j, a, hcall, hk⟩
      cases hcall
      exact .inr ⟨rfl, a, rfl, hk⟩
    · rintro (⟨j, a, hcall, -⟩ | ⟨-, a, rfl, hk⟩)
      · exact absurd hcall (hopen j a)
      · exact ⟨i, a, rfl, hk⟩
  · rw [if_neg hn]
    exact ⟨.inl, fun h => h.resolve_right fun h => hn h.1⟩

theorem accepted_append :
    Accepted key ⟨store, s.calls ++ [(i, stop)]⟩ n k ↔
      Accepted key s n k ∨ (n = s.calls.length ∧ ∃ a, stop = .done (.ok a) ∧ key i a = k) := by
  refine accepted_put key (fun n => ?_) fun j a hcall => ?_
  · rw [List.getElem?_append, List.getElem?_singleton]
    grind
  · rw [List.getElem?_eq_none (Nat.le_refl _)] at hcall
    cases hcall

theorem accepted_set {q : Q} {next : Ans q → σ → Stop Q Ans σ ε α × σ} (hm : s.calls[m]? = some (i, .await q next)) :
    Accepted key ⟨store, s.calls.set m (i, stop)⟩ n k ↔
      Accepted key s n k ∨ (n = m ∧ ∃ a, stop = .done (.ok a) ∧ key i a = k) := by
  refine accepted_put key (fun n => ?_) fun j a hcall => ?_
  · rw [List.getElem?_set, if_pos (List.getElem?_eq_some_iff.1 hm).1]
    by_cases hn : m = n
    · rw [if_pos hn, if_pos hn.symm]
    · rw [if_neg hn, if_neg fun heq => hn heq.symm]
  · rw [hm] at hcall
    cases hcall

/-! ## What one step does -/

/-- Every stretch a call has still to run has the property `W`. -/
inductive Safe (W : ι → σ → Stop Q Ans σ ε α × σ → Prop) (i : ι) : Stop Q Ans σ ε α → Prop
  | done (result : Except ε α) : Safe W i (.done result)
  | await (q : Q) (k : Ans q → σ → Stop Q Ans σ ε α × σ) (hstretch : ∀ answer store, W i store (k answer store))
      (hsafe : ∀ answer store, Safe W i (k answer store).1) : Safe W i (.await q k)

variable {W : ι → σ → Stop Q Ans σ ε α × σ → Prop} {key}

inductive Stretch (rules : Rules ι Q Ans σ ω ε α) (s : System ι Q Ans σ ε α) :
    Label ι Q Ans ω → ι → Stop Q Ans σ ε α × σ → Prop
  | start (i : ι) : Stretch rules s (.start i) i (rules.start i s.store)
  | resume (n : Nat) (i : ι) (q : Q) (k : Ans q → σ → Stop Q Ans σ ε α × σ) (answer : Ans q)
      (h : s.calls[n]? = some (i, .await q k)) : Stretch rules s (.resume n q answer) i (k answer s.store)

/-- A step that runs the stretch of one call, at a place nothing was accepted at. -/
structure Turn (rules : Rules ι Q Ans σ ω ε α) (key : ι → α → κ) (s : System ι Q Ans σ ε α) (label : Label ι Q Ans ω)
    (s' : System ι Q Ans σ ε α) (m : Nat) (i : ι) (r : Stop Q Ans σ ε α × σ) : Prop where
  stretch : Stretch rules s label i r
  store : s'.store = r.2
  place : ∀ k, ¬ Accepted key s m k
  accepted : ∀ n k, Accepted key s' n k ↔ Accepted key s n k ∨ (n = m ∧ ∃ a, r.1 = .done (.ok a) ∧ key i a = k)

variable {label : Label ι Q Ans ω}

theorem Step.cases (key : ι → α → κ) (hsafe : ∀ call ∈ s.calls, Safe W call.1 call.2)
    (hstart : ∀ i store, W i store (rules.start i store) ∧ Safe W i (rules.start i store).1) (hstep : Step rules s label s') :
    (∀ call ∈ s'.calls, Safe W call.1 call.2) ∧
      ((∃ w, rules.allowed w s.store ∧ s' = { s with store := rules.outside w s.store }) ∨
        ∃ m i r, W i s.store r ∧ Turn rules key s label s' m i r) := by
  cases hstep with
  | start i =>
    refine ⟨fun call hcall => ?_, .inr ⟨s.calls.length, i, _, (hstart i s.store).1, .start i, rfl, fun k h => ?_,
      fun n k => accepted_append key⟩⟩
    · rcases List.mem_append.1 hcall with hcall | hcall
      · exact hsafe call hcall
      · rw [List.mem_singleton.1 hcall]
        exact (hstart i s.store).2
    · obtain ⟨j, a, hcall, -⟩ := h
      rw [List.getElem?_eq_none (Nat.le_refl _)] at hcall
      cases hcall
  | resume n i q k answer hcall =>
    cases hsafe _ (List.mem_of_getElem? hcall) with
    | await _ _ hstretch hnext =>
      refine ⟨fun call hmem => ?_, .inr ⟨n, i, _, hstretch answer s.store, .resume n i q k answer hcall, rfl, fun k h => ?_,
        fun n k => accepted_set key hcall⟩⟩
      · rcases List.mem_or_eq_of_mem_set hmem with hmem | rfl
        · exact hsafe call hmem
        · exact hnext answer s.store
      · obtain ⟨j, a, hcall', -⟩ := h
        rw [hcall] at hcall'
        cases hcall'
  | outside w hallowed => exact ⟨hsafe, .inl ⟨w, hallowed, rfl⟩⟩

theorem Turn.once {r : Stop Q Ans σ ε α × σ} (hturn : Turn rules key s label s' m i r) (hs : AcceptedOnce key s)
    (hfresh : ∀ a, r.1 = .done (.ok a) → ∀ n, ¬ Accepted key s n (key i a)) : AcceptedOnce key s' := by
  intro n n' k h h'
  rcases (hturn.accepted n k).1 h with hold | ⟨rfl, a, ha, rfl⟩
  · rcases (hturn.accepted n' k).1 h' with hold' | ⟨-, a, ha, rfl⟩
    · exact hs n n' k hold hold'
    · exact absurd hold (hfresh a ha n)
  · rcases (hturn.accepted n' _).1 h' with hold' | ⟨rfl, -⟩
    · exact absurd hold' (hfresh a ha n')
    · rfl

theorem not_accepted_nil :
    ¬ Accepted key (⟨store, []⟩ : System ι Q Ans σ ε α) n k := by
  rintro ⟨i, a, hcall, -⟩
  cases hcall

/-! ## A guard that is checked and taken in one stretch -/

section

variable (key) (Sound : σ → Prop) (Taken : σ → κ → Prop)

/-- A stretch keeps the state sound and what is taken, and where it returns it takes a key that was not. -/
structure Takes (i : ι) (store : σ) (r : Stop Q Ans σ ε α × σ) : Prop where
  sound : Sound store → Sound r.2
  keeps : ∀ k, Taken store k → Taken r.2 k
  fresh : ∀ a, r.1 = .done (.ok a) → ¬ Taken store (key i a)
  takes : ∀ a, r.1 = .done (.ok a) → Taken r.2 (key i a)

/-- What is known of a system whose stretches take their keys. -/
structure Guarded (s : System ι Q Ans σ ε α) : Prop where
  safe : ∀ call ∈ s.calls, Safe (Takes key Sound Taken) call.1 call.2
  sound : Sound s.store
  taken : ∀ n k, Accepted key s n k → Taken s.store k
  once : AcceptedOnce key s

variable {key Sound Taken}

theorem Takes.of_same {i : ι} {store : σ} {stop : Stop Q Ans σ ε α} (h : ∀ a, stop ≠ .done (.ok a)) :
    Takes key Sound Taken i store (stop, store) :=
  ⟨id, fun _ hk => hk, fun a ha => absurd ha (h a), fun a ha => absurd ha (h a)⟩

/-- **No key is accepted twice** along any run, where each stretch that returns takes a key that was not taken, and nothing
outside frees a key. -/
theorem Reaches.guarded {store : σ} (hsound : Sound store)
    (hstart : ∀ i store, Takes key Sound Taken i store (rules.start i store) ∧
      Safe (Takes key Sound Taken) i (rules.start i store).1)
    (houtside : ∀ w store, rules.allowed w store → Sound store →
      Sound (rules.outside w store) ∧ ∀ k, Taken store k → Taken (rules.outside w store) k)
    {s : System ι Q Ans σ ε α} (hrun : Reaches rules ⟨store, []⟩ s) : Guarded key Sound Taken s := by
  refine hrun.invariant ?_ fun s label s' _ hstep hs => ?_
  · exact ⟨fun call hcall => absurd hcall List.not_mem_nil, hsound, fun n k h => absurd h not_accepted_nil,
      fun n m k h => absurd h not_accepted_nil⟩
  · obtain ⟨hsafe, ⟨w, hallowed, rfl⟩ | ⟨m, i, r, htakes, hturn⟩⟩ := hstep.cases key hs.safe hstart
    · obtain ⟨hsound, hkeeps⟩ := houtside w s.store hallowed hs.sound
      exact ⟨hsafe, hsound, fun n k h => hkeeps k (hs.taken n k h), hs.once⟩
    · refine ⟨hsafe, hturn.store ▸ htakes.sound hs.sound, fun n k h => ?_,
        hturn.once hs.once fun a ha n h => htakes.fresh a ha (hs.taken n _ h)⟩
      rw [hturn.store]
      rcases (hturn.accepted n k).1 h with hold | ⟨-, a, ha, rfl⟩
      · exact htakes.keeps k (hs.taken n k hold)
      · exact htakes.takes a ha

end

/-! ## A guard that is taken and not checked -/

section

variable (key) (Known : σ → κ → Prop)

/-- A stretch knows what was known before, and its own key where it returns. -/
def Learns (i : ι) (store : σ) (r : Stop Q Ans σ ε α × σ) : Prop :=
  ∀ k, Known r.2 k ↔ Known store k ∨ ∃ a, r.1 = .done (.ok a) ∧ key i a = k

/-- The stretch of the label, where it returns, does so for a key that is not known. -/
def Fresh (rules : Rules ι Q Ans σ ω ε α) (s : System ι Q Ans σ ε α) (label : Label ι Q Ans ω) : Prop :=
  ∀ i r, Stretch rules s label i r → ∀ a, r.1 = .done (.ok a) → ¬ Known s.store (key i a)

variable {key Known}

variable {store : σ}

theorem Learns.of_same {i : ι} {stop : Stop Q Ans σ ε α} (h : ∀ a, stop ≠ .done (.ok a)) :
    Learns key Known i store (stop, store) :=
  fun _ => ⟨.inl, fun hk => hk.resolve_right fun ⟨a, ha, _⟩ => h a ha⟩

variable {s : System ι Q Ans σ ε α}

theorem Run.known {condition : System ι Q Ans σ ε α → Label ι Q Ans ω → Prop} (hnone : ∀ k, ¬ Known store k)
    (hstart : ∀ i store, Learns key Known i store (rules.start i store) ∧ Safe (Learns key Known) i (rules.start i store).1)
    (houtside : ∀ w store, ¬ rules.allowed w store) (hrun : Run rules condition ⟨store, []⟩ s) :
    (∀ call ∈ s.calls, Safe (Learns key Known) call.1 call.2) ∧ ∀ k, Known s.store k ↔ ∃ n, Accepted key s n k := by
  refine hrun.invariant (I := fun s => (∀ call ∈ s.calls, Safe (Learns key Known) call.1 call.2) ∧
    ∀ k, Known s.store k ↔ ∃ n, Accepted key s n k) ?_ fun s label s' _ hstep hs => ?_
  · refine ⟨fun call hcall => absurd hcall List.not_mem_nil, fun k => ⟨fun h => absurd h (hnone k), fun h => ?_⟩⟩
    obtain ⟨n, h⟩ := h
    exact absurd h not_accepted_nil
  · obtain ⟨hsafe, ⟨w, hallowed, -⟩ | ⟨m, i, r, hlearns, hturn⟩⟩ := hstep.cases key hs.1 hstart
    · exact absurd hallowed (houtside w s.store)
    · refine ⟨hsafe, fun k => ?_⟩
      rw [hturn.store, hlearns k, hs.2 k]
      constructor
      · rintro (⟨n, hold⟩ | hnew)
        · exact ⟨n, (hturn.accepted n k).2 (.inl hold)⟩
        · exact ⟨m, (hturn.accepted m k).2 (.inr ⟨rfl, hnew⟩)⟩
      · rintro ⟨n, h⟩
        rcases (hturn.accepted n k).1 h with hold | ⟨-, hnew⟩
        · exact .inl ⟨n, hold⟩
        · exact .inr hnew

variable (key Known) in
/-- **No key is accepted twice exactly where every stretch that returned found its key not known.** -/
theorem acceptedOnce_iff (hnone : ∀ k, ¬ Known store k)
    (hstart : ∀ i store, Learns key Known i store (rules.start i store) ∧ Safe (Learns key Known) i (rules.start i store).1)
    (houtside : ∀ w store, ¬ rules.allowed w store) (hrun : Reaches rules ⟨store, []⟩ s) :
    AcceptedOnce key s ↔ Run rules (Fresh key Known rules) ⟨store, []⟩ s := by
  constructor
  · intro honce
    induction hrun with
    | refl => exact .refl
    | @step s s' label hrun _ hstep ih =>
      obtain ⟨hsafe, hknown⟩ := hrun.known hnone hstart houtside
      obtain ⟨-, ⟨w, hallowed, -⟩ | ⟨m, i, r, -, hturn⟩⟩ := hstep.cases key hsafe hstart
      · exact absurd hallowed (houtside w s.store)
      · have hbefore : AcceptedOnce key s := fun n n' k h h' =>
          honce n n' k ((hturn.accepted n k).2 (.inl h)) ((hturn.accepted n' k).2 (.inl h'))
        refine .step (ih hbefore) (fun j r' hstretch a ha hk => ?_) hstep
        obtain ⟨rfl, rfl⟩ : j = i ∧ r' = r := by
          cases hstretch with
          | start i =>
            cases hturn.stretch
            exact ⟨rfl, rfl⟩
          | resume n i q k answer hcall =>
            cases hturn.stretch with
            | resume _ _ _ k' _ hcall' =>
              cases hcall.symm.trans hcall'
              exact ⟨rfl, rfl⟩
        -- the key was accepted before, by another call than the one that returns now
        obtain ⟨n, hold⟩ := (hknown _).1 hk
        obtain rfl : n = m :=
          honce n m _ ((hturn.accepted n _).2 (.inl hold)) ((hturn.accepted m _).2 (.inr ⟨rfl, a, ha, rfl⟩))
        exact hturn.place _ hold
  · intro hruns
    clear hrun
    induction hruns with
    | refl => exact fun n m k h => absurd h not_accepted_nil
    | @step s s' label hrun hfresh hstep ih =>
      obtain ⟨hsafe, hknown⟩ := hrun.known hnone hstart houtside
      obtain ⟨-, ⟨w, hallowed, -⟩ | ⟨m, i, r, -, hturn⟩⟩ := hstep.cases key hsafe hstart
      · exact absurd hallowed (houtside w s.store)
      · refine hturn.once ih fun a ha n hold => ?_
        exact hfresh i r hturn.stretch a ha ((hknown _).2 ⟨n, hold⟩)

end

end Overlap
