import Mathlib.Logic.Relation
/-!
# Async — calls that await a store, alone and two at a time

A call is written once, as a `Prog`: it has returned, it has thrown, or it awaits the answer to one store operation.
`Prog.run` executes it alone.  `Step` lets two calls take turns, one awaited operation at a time, so a path of `Step`
is an interleaving at the await points.

`Meets.par` is rely-guarantee: what each side does under the other's guarantee holds along every path.
-/
namespace Async

/-- A call in flight over the operations `Op`, the operation `o` being answered in `Res o`. -/
inductive Prog (Op : Type) (Res : Op → Type) (ε α : Type) : Type
  | ret (a : α)
  | fail (e : ε)
  | await (o : Op) (k : Res o → Prog Op Res ε α)

variable {Op : Type} {Res : Op → Type} {ε α β γ σ : Type}

namespace Prog

def bind : Prog Op Res ε α → (α → Prog Op Res ε β) → Prog Op Res ε β
  | ret a, f => f a
  | fail e, _ => fail e
  | await o k, f => await o (fun r => (k r).bind f)

instance : Monad (Prog Op Res ε) where
  pure := ret
  bind := bind

def call (o : Op) : Prog Op Res ε (Res o) := await o ret

/-- `try p catch`: a thrown error continues with the handler. -/
def tryCatch : Prog Op Res ε α → (ε → Prog Op Res ε α) → Prog Op Res ε α
  | ret a, _ => ret a
  | fail e, f => f e
  | await o k, f => await o (fun r => (k r).tryCatch f)

abbrev Handler (Op : Type) (Res : Op → Type) (σ : Type) := (o : Op) → σ → Res o × σ

/-- The call alone on the store. -/
def run (h : Handler Op Res σ) : Prog Op Res ε α → σ → Except ε α × σ
  | ret a, s => (.ok a, s)
  | fail e, s => (.error e, s)
  | await o k, s => (k (h o s).1).run h (h o s).2

@[simp] theorem run_pure (h : Handler Op Res σ) (a : α) (s : σ) : (pure a : Prog Op Res ε α).run h s = (.ok a, s) := rfl

@[simp] theorem run_fail (h : Handler Op Res σ) (e : ε) (s : σ) :
    (fail e : Prog Op Res ε α).run h s = (.error e, s) := rfl

@[simp] theorem run_call (h : Handler Op Res σ) (o : Op) (s : σ) :
    (call o : Prog Op Res ε (Res o)).run h s = (.ok (h o s).1, (h o s).2) := rfl

theorem bind_ret : ∀ p : Prog Op Res ε α, p >>= ret = p
  | ret _ => rfl
  | fail _ => rfl
  | await o k => congrArg (await o) (funext fun r => bind_ret (k r))

/-- **A sequence runs its first part, then the rest on what is left.** -/
theorem run_bind (h : Handler Op Res σ) (f : α → Prog Op Res ε β) : ∀ (p : Prog Op Res ε α) (s : σ),
    (p >>= f).run h s = match p.run h s with
      | (.ok a, s') => (f a).run h s'
      | (.error e, s') => (.error e, s')
  | ret _, _ => rfl
  | fail _, _ => rfl
  | await o k, s => run_bind h f (k (h o s).1) (h o s).2

variable {p : Prog Op Res ε α} {f : α → Prog Op Res ε β} {s s' : σ}

theorem run_bind_ok (h : Handler Op Res σ) {a : α} (hp : p.run h s = (.ok a, s')) : (p >>= f).run h s = (f a).run h s' := by
  rw [run_bind, hp]

theorem run_bind_error (h : Handler Op Res σ) {e : ε} (hp : p.run h s = (.error e, s')) : (p >>= f).run h s = (.error e, s') := by
  rw [run_bind, hp]

/-- **A sequence that succeeded ran both parts.** -/
theorem run_bind_inv (h : Handler Op Res σ) {b : β} (hp : (p >>= f).run h s = (.ok b, s')) :
    ∃ a s₁, p.run h s = (.ok a, s₁) ∧ (f a).run h s₁ = (.ok b, s') := by
  rw [run_bind] at hp
  rcases hr : p.run h s with ⟨r, s₁⟩
  rw [hr] at hp
  cases r with
  | ok a => exact ⟨a, s₁, rfl, hp⟩
  | error e => cases hp

@[simp] theorem run_tryCatch (h : Handler Op Res σ) (f : ε → Prog Op Res ε α) : ∀ (p : Prog Op Res ε α) (s : σ),
    (p.tryCatch f).run h s = match p.run h s with
      | (.ok a, s') => (.ok a, s')
      | (.error e, s') => (f e).run h s'
  | ret _, _ => rfl
  | fail _, _ => rfl
  | await o k, s => run_tryCatch h f (k (h o s).1) (h o s).2

end Prog

open Prog

/-! ## Two calls on one store -/

structure Pair (Op : Type) (Res : Op → Type) (ε α β σ : Type) where
  left : Prog Op Res ε α
  right : Prog Op Res ε β
  store : σ

inductive Step (h : Handler Op Res σ) : Pair Op Res ε α β σ → Pair Op Res ε α β σ → Prop
  | left (o : Op) (k : Res o → Prog Op Res ε α) (q : Prog Op Res ε β) (s : σ) :
      Step h ⟨.await o k, q, s⟩ ⟨k (h o s).1, q, (h o s).2⟩
  | right (p : Prog Op Res ε α) (o : Op) (k : Res o → Prog Op Res ε β) (s : σ) :
      Step h ⟨p, .await o k, s⟩ ⟨p, k (h o s).1, (h o s).2⟩

/-- An interleaving, from one configuration to another. -/
abbrev Steps (h : Handler Op Res σ) : Pair Op Res ε α β σ → Pair Op Res ε α β σ → Prop :=
  Relation.ReflTransGen (Step h)

theorem Steps.left_run (h : Handler Op Res σ) (f : γ → Prog Op Res ε α) (q : Prog Op Res ε β) (c : γ) :
    ∀ (p : Prog Op Res ε γ) (s s' : σ), p.run h s = (.ok c, s') → Steps h ⟨p >>= f, q, s⟩ ⟨f c, q, s'⟩
  | ret a, s, s', hr => by
    obtain ⟨rfl, rfl⟩ : a = c ∧ s = s' := by simpa [Prog.run] using hr
    exact .refl
  | fail _, _, _, hr => by simp [Prog.run] at hr
  | await o k, s, s', hr => by
    refine .head (Step.left o _ q s) ?_
    exact left_run h f q c (k (h o s).1) (h o s).2 s' hr

def Pair.swap (c : Pair Op Res ε α β σ) : Pair Op Res ε β α σ := ⟨c.right, c.left, c.store⟩

variable {h : Handler Op Res σ} {c c' : Pair Op Res ε α β σ}

theorem Steps.swap (hs : Steps h c c') : Steps h c.swap c'.swap := by
  induction hs with
  | refl => exact .refl
  | tail _ hstep ih =>
    refine ih.tail ?_
    cases hstep with
    | left o k q s => exact Step.right q o k s
    | right p o k s => exact Step.left o k p s

theorem Steps.right_run (h : Handler Op Res σ) (f : γ → Prog Op Res ε β) (p : Prog Op Res ε α) (c : γ) (q : Prog Op Res ε γ)
    (s s' : σ) (hr : q.run h s = (.ok c, s')) : Steps h ⟨p, q >>= f, s⟩ ⟨p, f c, s'⟩ :=
  (left_run h f p c q s s' hr).swap

theorem Steps.right_done (h : Handler Op Res σ) (p : Prog Op Res ε α) (c : β) (q : Prog Op Res ε β) (s s' : σ)
    (hr : q.run h s = (.ok c, s')) : Steps h ⟨p, q, s⟩ ⟨p, ret c, s'⟩ := by
  have hsteps := right_run h ret p c q s s' hr
  rw [bind_ret] at hsteps
  exact hsteps

/-! ## Rely and guarantee -/

/-- **The call meets its guarantee**: from `s`, when the other side only takes steps of `R`, every operation of the call
is a step of `G`, and a value it returns satisfies `Q` in the store then and later. -/
def Meets (h : Handler Op Res σ) (R G : σ → σ → Prop) (Q : α → σ → Prop) : Prog Op Res ε α → σ → Prop
  | ret a, s => ∀ s', R s s' → Q a s'
  | fail _, _ => True
  | await o k, s => ∀ s', R s s' → G s' (h o s').2 ∧ Meets h R G Q (k (h o s').1) (h o s').2

variable {R G : σ → σ → Prop} {Q : α → σ → Prop}

theorem Meets.rely (htr : ∀ a b c, R a b → R b c → R a c) : ∀ {p : Prog Op Res ε α} {s s' : σ},
    Meets h R G Q p s → R s s' → Meets h R G Q p s'
  | ret _, _, _, hm, hr => fun s'' hr' => hm s'' (htr _ _ _ hr hr')
  | fail _, _, _, _, _ => trivial
  | await _ _, _, _, hm, hr => fun s'' hr' => hm s'' (htr _ _ _ hr hr')

/-- **Sequencing**: the first part may promise that the rest meets the guarantee. -/
theorem Meets.bind {Q : β → σ → Prop} (hrfl : ∀ s, R s s) {f : α → Prog Op Res ε β} : ∀ {p : Prog Op Res ε α} {s : σ},
    Meets h R G (fun a s' => Meets h R G Q (f a) s') p s → Meets h R G Q (p >>= f) s
  | ret _, s, hm => hm s (hrfl s)
  | fail _, _, _ => trivial
  | await _ _, _, hm => fun s' hr => ⟨(hm s' hr).1, Meets.bind hrfl (hm s' hr).2⟩

theorem Meets.bind_call {Q : β → σ → Prop} {o : Op} {f : Res o → Prog Op Res ε β} {s : σ}
    (hm : ∀ s', R s s' → G s' (h o s').2 ∧ Meets h R G Q (f (h o s').1) (h o s').2) :
    Meets h R G Q (call o >>= f) s := hm

theorem Meets.mono {Q Q' : α → σ → Prop} (hQ : ∀ a s, Q a s → Q' a s) :
    ∀ {p : Prog Op Res ε α} {s : σ}, Meets h R G Q p s → Meets h R G Q' p s
  | ret a, _, hm => fun s' hr => hQ a s' (hm s' hr)
  | fail _, _, _ => trivial
  | await _ _, _, hm => fun s' hr => ⟨(hm s' hr).1, Meets.mono hQ (hm s' hr).2⟩

/-- **A handler that may only rethrow**: catching keeps what the guarded part promises. -/
theorem Meets.tryCatch {f : ε → Prog Op Res ε α} (hf : ∀ e s, Meets h R G Q (f e) s) : ∀ {p : Prog Op Res ε α} {s : σ},
    Meets h R G Q p s → Meets h R G Q (p.tryCatch f) s
  | ret _, _, hm => hm
  | fail e, s, _ => hf e s
  | await _ _, _, hm => fun s' hr => ⟨(hm s' hr).1, Meets.tryCatch hf (hm s' hr).2⟩

/-- **Parallel composition**: each side's rely is the other's guarantee, and both keep along every interleaving. -/
theorem Meets.par {Q' : β → σ → Prop} (hR : ∀ a b c, R a b → R b c → R a c) (hG : ∀ a b c, G a b → G b c → G a c) (hRr : ∀ s, R s s)
    (hGr : ∀ s, G s s) (hs : Steps h c c') (hl : Meets h R G Q c.left c.store) (hr : Meets h G R Q' c.right c.store) :
    Meets h R G Q c'.left c'.store ∧ Meets h G R Q' c'.right c'.store := by
  induction hs with
  | refl => exact ⟨hl, hr⟩
  | tail _ hstep ih =>
    obtain ⟨il, ir⟩ := ih
    cases hstep with
    | left o k q s => exact ⟨(il s (hRr s)).2, ir.rely hG (il s (hRr s)).1⟩
    | right p o k s => exact ⟨il.rely hR (ir s (hGr s)).1, (ir s (hGr s)).2⟩

end Async
