import Mathlib.Order.WellFounded
import Mathlib.Data.List.Basic
/-!
# Runs — the runs of a machine that takes labelled steps

`next` says whether a label can be taken in a state, and the state after it.  A `Run` keeps every step it took.

`Run.invariant` is the induction over a run, and `Run.always_iff` turns what one step does to a property into the condition on
the steps of a run along which the property always holds.  For a machine that takes every label, `exists_labels_of_measure` is
progress by a measure.
-/
namespace Runs

variable {σ ℓ : Type}

inductive Run (next : ℓ → σ → Option σ) (s₀ : σ) : List (σ × ℓ) → σ → Prop
  | refl : Run next s₀ [] s₀
  | step {steps : List (σ × ℓ)} {s s' : σ} {label : ℓ} (hrun : Run next s₀ steps s) (hnext : next label s = some s') :
      Run next s₀ (steps ++ [(s, label)]) s'

def visited (steps : List (σ × ℓ)) (s : σ) : List σ := steps.map Prod.fst ++ [s]

variable {next : ℓ → σ → Option σ} {s₀ s : σ} {steps : List (σ × ℓ)}

variable {I : σ → Prop}

theorem Run.invariant (hrun : Run next s₀ steps s) (hinit : I s₀) (hkeeps : ∀ s label s', next label s = some s' → I s → I s') :
    I s := by
  induction hrun with
  | refl => exact hinit
  | step _ hnext ih => exact hkeeps _ _ _ hnext ih

theorem Run.taken (hrun : Run next s₀ steps s) : ∀ step ∈ steps, ∃ s', next step.2 step.1 = some s' := by
  induction hrun with
  | refl => exact fun step hstep => absurd hstep List.not_mem_nil
  | step _ hnext ih => exact List.forall_mem_append.2 ⟨ih, List.forall_mem_singleton.2 ⟨_, hnext⟩⟩

variable {label : ℓ} {Q I G : σ → Prop}

theorem forall_visited_append {s' : σ} :
    (∀ x ∈ visited (steps ++ [(s, label)]) s', Q x) ↔ (∀ x ∈ visited steps s, Q x) ∧ Q s' := by
  simp only [visited, List.map_append, List.map_cons, List.map_nil, List.forall_mem_append, List.forall_mem_singleton]

variable {C : σ → ℓ → Prop}

/-- **A property holds at every state of a run exactly where each step met the condition**, for a condition under which one
step keeps the property and without which it does not. -/
theorem Run.always_iff (hrun : Run next s₀ steps s) (hinit : I s₀) (hfirst : Q s₀)
    (hkeeps : ∀ s label s', next label s = some s' → I s → I s')
    (hstep : ∀ s label s', next label s = some s' → I s → Q s → (Q s' ↔ C s label)) :
    (∀ x ∈ visited steps s, Q x) ↔ ∀ step ∈ steps, C step.1 step.2 := by
  induction hrun with
  | refl => simp [visited, hfirst]
  | @step steps s s' label hrun hnext ih =>
    rw [forall_visited_append, List.forall_mem_append, List.forall_mem_singleton, ih]
    refine and_congr_right fun hbefore => ?_
    have hQ : Q s := ih.2 hbefore s (List.mem_append_right _ (List.mem_singleton.2 rfl))
    exact hstep s label s' hnext (hrun.invariant hinit hkeeps) hQ

/-- **What holds at first and is kept by every step that meets a condition holds at every state of a run of such steps.** -/
theorem Run.always (hrun : Run next s₀ steps s) (hinit : I s₀)
    (hkeeps : ∀ s label s', next label s = some s' → C s label → I s → I s') (hsteps : ∀ step ∈ steps, C step.1 step.2) :
    ∀ x ∈ visited steps s, I x := by
  induction hrun with
  | refl => exact List.forall_mem_singleton.2 hinit
  | @step steps s s' label _ hnext ih =>
    rw [List.forall_mem_append, List.forall_mem_singleton] at hsteps
    have hbefore := ih hsteps.1
    refine forall_visited_append.2 ⟨hbefore, hkeeps s label s' hnext hsteps.2 (hbefore s ?_)⟩
    exact List.mem_append_right _ (List.mem_singleton.2 rfl)

theorem Run.head {s₁ : σ} (hnext : next label s₀ = some s₁) (hrun : Run next s₁ steps s) :
    Run next s₀ ((s₀, label) :: steps) s := by
  induction hrun with
  | refl => exact Run.step .refl hnext
  | step _ hnext' ih => exact ih.step hnext'

def exec (next : ℓ → σ → Option σ) : List ℓ → σ → List (σ × ℓ) × σ
  | [], s => ([], s)
  | label :: labels, s =>
    match next label s with
    | none => ([], s)
    | some s' => ((s, label) :: (exec next labels s').1, (exec next labels s').2)

theorem exec_run (next : ℓ → σ → Option σ) : ∀ (labels : List ℓ) (s : σ),
    Run next s (exec next labels s).1 (exec next labels s).2
  | [], _ => .refl
  | label :: labels, s => by
    unfold exec
    split
    · exact .refl
    · rename_i s' hnext
      exact Run.head hnext (exec_run next labels s')

theorem exec_labels {next : ℓ → σ → Option σ} : ∀ {labels : List ℓ} {s : σ} {step : σ × ℓ},
    step ∈ (exec next labels s).1 → step.2 ∈ labels
  | [], _, _, hstep => absurd hstep List.not_mem_nil
  | label :: labels, s, step, hstep => by
    unfold exec at hstep
    split at hstep
    · exact absurd hstep List.not_mem_nil
    · rcases List.mem_cons.1 hstep with rfl | hstep
      · exact List.mem_cons_self
      · exact List.mem_cons_of_mem _ (exec_labels hstep)

/-- **A goal that labels of a kind bring nearer by a measure** is reached by labels of that kind. -/
theorem exists_labels_of_measure {β : Type} [Preorder β] [WellFoundedLT β] (step : σ → ℓ → σ) {L : ℓ → Prop} (measure : σ → β)
    (h : ∀ s, I s → ∃ labels : List ℓ, (∀ label ∈ labels, L label) ∧ (G (labels.foldl step s) ∨ I (labels.foldl step s) ∧ measure (labels.foldl step s) < measure s))
    (s : σ) (hs : I s) :
    ∃ labels : List ℓ, (∀ label ∈ labels, L label) ∧ G (labels.foldl step s) := by
  induction s using (InvImage.wf measure (wellFounded_lt (α := β))).induction with
  | h s ih =>
    obtain ⟨labels, hlabels, hgoal | ⟨hkept, hless⟩⟩ := h s hs
    · exact ⟨labels, hlabels, hgoal⟩
    · obtain ⟨labels', hlabels', hgoal⟩ := ih _ hless hkept
      exact ⟨labels ++ labels', List.forall_mem_append.2 ⟨hlabels, hlabels'⟩, by rw [List.foldl_append]; exact hgoal⟩

end Runs
