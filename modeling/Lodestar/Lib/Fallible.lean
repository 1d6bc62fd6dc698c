import Mathlib.Data.List.Forall2
/-!
# Fallible — computations that return a value or throw

`check` throws unless its condition holds and `getAt` reads a list or throws.  The rest are inversions: what a returning
computation has passed through on its way, and what a loop of returning steps keeps.
-/
namespace Lib

variable {ε α β σ : Type}

def check (condition : Bool) (error : ε) : Except ε Unit := if condition then .ok () else .error error

def getAt (error : ε) (l : List α) (i : Nat) : Except ε α := (l[i]?).elim (.error error) .ok

def modifyAt (error : ε) (l : List α) (i : Nat) (f : α → α) : Except ε (List α) :=
  if i < l.length then .ok (l.modify i f) else .error error

variable {condition : Bool} {error : ε}

theorem check_eq_ok {u : Unit} : check condition error = .ok u ↔ condition = true := by
  unfold check
  split <;> simp_all

variable {l : List α} {i : Nat} {a : α}

theorem getAt_eq_ok : getAt error l i = .ok a ↔ l[i]? = some a := by
  unfold getAt
  cases l[i]? <;> simp

theorem modifyAt_eq_ok {l l' : List α} {f : α → α} :
    modifyAt error l i f = .ok l' ↔ i < l.length ∧ l' = l.modify i f := by
  unfold modifyAt
  split
  · rename_i h
    simp [h, eq_comm]
  · rename_i h
    simp [h]

variable {x : Except ε α} {f : α → Except ε β} {b : β}

/-- **A sequence returns when both of its parts do.** -/
theorem bind_eq_ok :
    (x >>= f) = .ok b ↔ ∃ a, x = .ok a ∧ f a = .ok b := by
  cases x with
  | error e =>
    constructor
    · intro h
      cases h
    · rintro ⟨a, h, -⟩
      cases h
  | ok a =>
    constructor
    · intro h
      exact ⟨a, rfl, h⟩
    · rintro ⟨a', h, h'⟩
      cases h
      exact h'

theorem bind_returns_iff {p q : Prop} (hx : (∃ a, x = .ok a) ↔ p) (hf : ∀ a, x = .ok a → ((∃ b, f a = .ok b) ↔ q)) :
    (∃ b, (x >>= f) = .ok b) ↔ p ∧ q := by
  constructor
  · rintro ⟨b, h⟩
    obtain ⟨a, ha, hb⟩ := bind_eq_ok.1 h
    exact ⟨hx.1 ⟨a, ha⟩, (hf a ha).1 ⟨b, hb⟩⟩
  · rintro ⟨hp, hq⟩
    obtain ⟨a, ha⟩ := hx.2 hp
    obtain ⟨b, hb⟩ := (hf a ha).2 hq
    exact ⟨b, bind_eq_ok.2 ⟨a, ha, hb⟩⟩

theorem check_returns_iff : (∃ u, check condition error = .ok u) ↔ condition = true := by
  simp only [check_eq_ok, exists_const]

theorem map_eq_ok {f : α → β} : x.map f = .ok b ↔ ∃ a, x = .ok a ∧ f a = b := by
  cases x with
  | error e => simp [Except.map]
  | ok a => simp [Except.map]

variable {ε' γ δ : Type}

theorem mapError_eq_ok {f : ε → ε'} : x.mapError f = .ok a ↔ x = .ok a := by
  cases x with
  | error e => simp [Except.mapError]
  | ok b => simp [Except.mapError]

theorem pure_eq_ok {a b : α} : (pure a : Except ε α) = .ok b ↔ a = b := by
  constructor
  · intro h
    cases h
    rfl
  · intro h
    rw [h]
    rfl

theorem ok_eq_ok_comm {a b : α} : (.ok a : Except ε α) = .ok b ↔ b = a :=
  ⟨fun h => (Except.ok.inj h).symm, fun h => h ▸ rfl⟩

variable {g : α → β}

theorem mapM_eq_map : ∀ (l : List α), (∀ a ∈ l, f a = .ok (g a)) → l.mapM f = .ok (l.map g)
  | [], _ => rfl
  | a :: l, h => by
    rw [List.mapM_cons, h a List.mem_cons_self, mapM_eq_map l fun b hb => h b (List.mem_cons_of_mem a hb)]
    rfl

/-- **A pass returns what its steps return, one by one.** -/
theorem mapM_eq_ok_iff : ∀ {l : List α} {bs : List β}, l.mapM f = .ok bs ↔ List.Forall₂ (fun a b => f a = .ok b) l bs
  | [], bs => by
    rw [List.mapM_nil, pure_eq_ok, List.forall₂_nil_left_iff, eq_comm]
  | a :: l, bs => by
    rw [List.mapM_cons, bind_eq_ok, List.forall₂_cons_left_iff]
    constructor
    · rintro ⟨b, hb, h⟩
      obtain ⟨bs', hbs', h⟩ := bind_eq_ok.1 h
      rw [pure_eq_ok] at h
      exact ⟨b, bs', hb, mapM_eq_ok_iff.1 hbs', h.symm⟩
    · rintro ⟨b, bs', hb, hbs', rfl⟩
      exact ⟨b, hb, bind_eq_ok.2 ⟨bs', mapM_eq_ok_iff.2 hbs', pure_eq_ok.2 rfl⟩⟩

theorem mem_iff_of_mapM_eq_ok : ∀ {l : List α} {bs : List β}, l.mapM f = .ok bs → (b ∈ bs ↔ ∃ a ∈ l, f a = .ok b)
  | [], bs, h => by
    rw [List.mapM_nil, pure_eq_ok] at h
    simp [← h]
  | a :: l, bs, h => by
    simp only [List.mapM_cons, bind_eq_ok, pure_eq_ok] at h
    obtain ⟨b', hb', bs', hbs', rfl⟩ := h
    rw [List.mem_cons, mem_iff_of_mapM_eq_ok hbs', List.exists_mem_cons_iff, hb', Except.ok.injEq, eq_comm]

/-- **A pass that combines what two passes return** returns where both do. -/
theorem mapM_zipWith_eq_ok {g : α → Except ε γ} {op : β → γ → δ} : ∀ {l : List α} {ds : List δ},
    l.mapM (fun a => f a >>= fun b => g a >>= fun c => pure (op b c)) = .ok ds ↔
      ∃ bs cs, l.mapM f = .ok bs ∧ l.mapM g = .ok cs ∧ ds = List.zipWith op bs cs
  | [], ds => by
    simp only [List.mapM_nil, pure_eq_ok]
    constructor
    · rintro rfl
      exact ⟨[], [], rfl, rfl, rfl⟩
    · rintro ⟨_, _, rfl, rfl, rfl⟩
      rfl
  | a :: l, ds => by
    simp only [List.mapM_cons, bind_eq_ok, pure_eq_ok]
    constructor
    · rintro ⟨d, ⟨b, hb, c, hc, rfl⟩, ds', hds', rfl⟩
      obtain ⟨bs, cs, hbs, hcs, rfl⟩ := mapM_zipWith_eq_ok.1 hds'
      exact ⟨b :: bs, c :: cs, ⟨b, hb, bs, hbs, rfl⟩, ⟨c, hc, cs, hcs, rfl⟩, rfl⟩
    · rintro ⟨_, _, ⟨b, hb, bs, hbs, rfl⟩, ⟨c, hc, cs, hcs, rfl⟩, rfl⟩
      exact ⟨op b c, ⟨b, hb, c, hc, rfl⟩, _, mapM_zipWith_eq_ok.2 ⟨bs, cs, hbs, hcs, rfl⟩, rfl⟩

theorem filterM_eq_filter {test : α → Except ε Bool} {p : α → Bool} (h : ∀ a ∈ l, test a = .ok (p a)) :
    l.filterM test = .ok (l.filter p) := by
  have key : ∀ (l acc : List α), (∀ a ∈ l, test a = .ok (p a)) →
      l.filterAuxM test acc = .ok ((l.filter p).reverse ++ acc) := by
    intro l
    induction l with
    | nil => intro acc _; rfl
    | cons a l ih =>
      intro acc h
      rw [List.filterAuxM, h a List.mem_cons_self]
      have hrest := ih (bif p a then a :: acc else acc) fun b hb => h b (List.mem_cons_of_mem a hb)
      refine Eq.trans hrest ?_
      cases hp : p a <;> simp [hp]
  unfold List.filterM
  rw [key l [] h]
  simp [bind, Except.bind, pure, Except.pure]

theorem mapM_eq_some_iff {f : α → Option β} : ∀ {l : List α} {bs : List β},
    l.mapM f = some bs ↔ List.Forall₂ (fun a b => f a = some b) l bs
  | [], bs => by
    rw [List.mapM_nil, List.forall₂_nil_left_iff, eq_comm]
    exact Option.some_inj
  | a :: l, bs => by
    rw [List.mapM_cons, List.forall₂_cons_left_iff]
    constructor
    · intro h
      obtain ⟨b, hb, h⟩ := Option.bind_eq_some_iff.1 h
      obtain ⟨bs', hbs', h⟩ := Option.bind_eq_some_iff.1 h
      exact ⟨b, bs', hb, mapM_eq_some_iff.1 hbs', (Option.some_inj.1 h).symm⟩
    · rintro ⟨b, bs', hb, hbs', rfl⟩
      exact Option.bind_eq_some_iff.2 ⟨b, hb, Option.bind_eq_some_iff.2 ⟨bs', mapM_eq_some_iff.2 hbs', rfl⟩⟩

theorem mapM_eq_error : ∀ {l : List α}, (∃ a ∈ l, ∃ error, f a = .error error) → ∃ error, l.mapM f = .error error
  | [], h => by
    obtain ⟨a, ha, -⟩ := h
    exact absurd ha List.not_mem_nil
  | a :: l, h => by
    rw [List.mapM_cons]
    cases hfa : f a with
    | error error => exact ⟨error, rfl⟩
    | ok b =>
      obtain ⟨x, hx, error, hfx⟩ := h
      rcases List.mem_cons.1 hx with rfl | hx
      · rw [hfa] at hfx
        cases hfx
      · obtain ⟨error', hrest⟩ := mapM_eq_error ⟨x, hx, error, hfx⟩
        rw [hrest]
        exact ⟨error', rfl⟩

theorem mapM_returns {R : α → β → Prop} : ∀ {l : List α},
    (∀ a ∈ l, ∃ b, f a = .ok b ∧ R a b) → ∃ bs, l.mapM f = .ok bs ∧ List.Forall₂ R l bs
  | [], _ => ⟨[], rfl, .nil⟩
  | a :: l, h => by
    obtain ⟨b, hb, hab⟩ := h a List.mem_cons_self
    obtain ⟨bs, hbs, hall⟩ := mapM_returns fun a' ha' => h a' (List.mem_cons_of_mem a ha')
    refine ⟨b :: bs, ?_, .cons hab hall⟩
    rw [List.mapM_cons, hb, hbs]
    rfl

theorem mapM_returns_from {g : β → α} {Q : β → Prop} (h : ∀ a ∈ l, ∃ b, f a = .ok b ∧ g b = a ∧ Q b) :
    ∃ bs, l.mapM f = .ok bs ∧ bs.map g = l ∧ ∀ b ∈ bs, Q b := by
  obtain ⟨bs, hrun, hall⟩ := mapM_returns (R := fun a b => g b = a ∧ Q b) h
  refine ⟨bs, hrun, ?_⟩
  clear hrun h
  induction hall with
  | nil => exact ⟨rfl, fun b hb => absurd hb List.not_mem_nil⟩
  | cons hfirst _ ih =>
    obtain ⟨hmap, hQ⟩ := ih
    refine ⟨by rw [List.map_cons, hfirst.1, hmap], fun b hb => ?_⟩
    rcases List.mem_cons.1 hb with rfl | hb
    · exact hfirst.2
    · exact hQ b hb

theorem mapM_map {f : β → Except ε α} : ∀ (l : List α), (∀ a ∈ l, f (g a) = .ok a) → (l.map g).mapM f = .ok l
  | [], _ => rfl
  | a :: l, h => by
    rw [List.map_cons, List.mapM_cons, h a List.mem_cons_self]
    have hrest := mapM_map l fun b hb => h b (List.mem_cons_of_mem a hb)
    exact congrArg (fun r : Except ε (List α) => r >>= fun as => pure (a :: as)) hrest

theorem getAt_bind_congr {l l' : List α} (g : α → γ) (k : γ → Except ε β) (h : (l'[i]?).map g = (l[i]?).map g) :
    (getAt error l' i >>= fun a => k (g a)) = getAt error l i >>= fun a => k (g a) := by
  unfold getAt
  cases ha : l[i]? with
  | none =>
    rw [ha, Option.map_none, Option.map_eq_none_iff] at h
    rw [h]
  | some a =>
    rw [ha, Option.map_some, Option.map_eq_some_iff] at h
    obtain ⟨a', ha', hg⟩ := h
    rw [ha']
    exact congrArg k hg

theorem foldlM_concat (step : σ → α → Except ε σ) (l : List α) (a : α) (s : σ) :
    (l ++ [a]).foldlM step s = l.foldlM step s >>= fun s' => step s' a := by
  simp

variable {I : σ → Prop} {step : σ → α → Except ε σ}

/-- **A loop whose steps return** is a loop without errors; what the steps need of the state is an invariant. -/
theorem foldlM_eq_foldl (next : σ → α → σ) : ∀ (l : List α),
    (∀ a ∈ l, ∀ s, I s → step s a = .ok (next s a) ∧ I (next s a)) → ∀ s, I s → l.foldlM step s = .ok (l.foldl next s)
  | [], _, _, _ => rfl
  | a :: l, hstep, s, hs => by
    obtain ⟨hfirst, hnext⟩ := hstep a List.mem_cons_self s hs
    rw [List.foldlM_cons, hfirst, List.foldl_cons]
    exact foldlM_eq_foldl next l (fun b hb => hstep b (List.mem_cons_of_mem a hb)) _ hnext

theorem foldlM_keeps {R : σ → σ → Prop} (refl : ∀ s, R s s) (trans : ∀ a b c, R a b → R b c → R a c) :
    ∀ (l : List α), (∀ a ∈ l, ∀ s s', step s a = .ok s' → R s s') → ∀ s s', l.foldlM step s = .ok s' → R s s'
  | [], _, s, s', h => by
    rw [List.foldlM_nil, pure_eq_ok] at h
    exact h ▸ refl s
  | a :: l, hstep, s, s', h => by
    rw [List.foldlM_cons, bind_eq_ok] at h
    obtain ⟨t, ht, h⟩ := h
    have hrest : R t s' := foldlM_keeps refl trans l (fun b hb => hstep b (List.mem_cons_of_mem a hb)) t s' h
    exact trans _ _ _ (hstep a List.mem_cons_self s t ht) hrest

theorem foldlM_invariant (hstep : ∀ s a s', step s a = .ok s' → I s → I s') (l : List α) {s s' : σ} (h : l.foldlM step s = .ok s')
    (hs : I s) : I s' :=
  foldlM_keeps (R := fun s s' => I s → I s') (fun _ => id) (fun _ _ _ hab hbc ha => hbc (hab ha)) l
    (fun a _ s s' => hstep s a s') s s' h hs

/-! ## Total correctness -/

/-- The computation returns, with a value of which `Q` holds. -/
def Returns (x : Except ε α) (Q : α → Prop) : Prop := ∃ a, x = .ok a ∧ Q a

variable {Q : α → Prop}

theorem Returns.pure (h : Q a) : Returns (Pure.pure a : Except ε α) Q := ⟨a, rfl, h⟩

theorem Returns.bind {R : β → Prop} (h : Returns x Q) (hf : ∀ a, Q a → Returns (f a) R) : Returns (x >>= f) R := by
  obtain ⟨a, rfl, hQ⟩ := h
  exact hf a hQ

theorem Returns.mono {Q R : α → Prop} (h : Returns x Q) (himp : ∀ a, Q a → R a) : Returns x R := by
  obtain ⟨a, hx, hQ⟩ := h
  exact ⟨a, hx, himp a hQ⟩

theorem Returns.of_eq (h : x = .ok a) : Returns x (· = a) := ⟨a, h, rfl⟩

theorem Returns.check (h : condition = true) : Returns (Lib.check condition error) fun _ => True :=
  ⟨(), check_eq_ok.2 h, trivial⟩

theorem Returns.foldlM : ∀ (l : List α) {s : σ},
    (∀ a ∈ l, ∀ s, I s → Returns (step s a) I) → I s → Returns (l.foldlM step s) I
  | [], _, _, hI => .pure hI
  | a :: l, s, hstep, hI => by
    exact (hstep a List.mem_cons_self s hI).bind fun s' hI' =>
      Returns.foldlM l (fun a' ha' => hstep a' (List.mem_cons_of_mem a ha')) hI'

/-! ## Loops that follow a loop -/

/-- Each element is allowed where an abstract loop stands when it comes. -/
def Along (allowed : β → α → Prop) (denote : β → α → β) : β → List α → Prop
  | _, [] => True
  | b, a :: l => allowed b a ∧ Along allowed denote (denote b a) l

variable {R : β → σ → Prop} {allowed : β → α → Prop} {denote : β → α → β}

/-- **A loop returns, related to an abstract loop**, where each of its steps does on what the abstract loop allows. -/
theorem foldlM_refines (hstep : ∀ b s a, R b s → allowed b a → ∃ s', step s a = .ok s' ∧ R (denote b a) s') :
    ∀ (l : List α) (b : β) (s : σ), R b s → Along allowed denote b l → ∃ s', l.foldlM step s = .ok s' ∧ R (l.foldl denote b) s'
  | [], _, s, h, _ => ⟨s, rfl, h⟩
  | a :: l, b, s, h, hallowed => by
    obtain ⟨hfirst, hrest⟩ := hallowed
    obtain ⟨s', hs', hR⟩ := hstep b s a h hfirst
    obtain ⟨s'', hs'', hR'⟩ := foldlM_refines hstep l (denote b a) s' hR hrest
    exact ⟨s'', by rw [List.foldlM_cons, bind_eq_ok]; exact ⟨s', hs', hs''⟩, hR'⟩

theorem along_iff_split : ∀ {l : List α} {b : β}, Along allowed denote b l ↔
    ∀ before a after, l = before ++ a :: after → allowed (before.foldl denote b) a
  | [], b => by
    refine ⟨fun _ before a after h => ?_, fun _ => trivial⟩
    simp at h
  | a :: l, b => by
    unfold Along
    rw [along_iff_split (l := l)]
    constructor
    · rintro ⟨hfirst, hrest⟩ before a' after h
      cases before with
      | nil =>
        cases h
        exact hfirst
      | cons x before =>
        cases h
        exact hrest before a' after rfl
    · intro h
      exact ⟨h [] a l rfl, fun before a' after hl => h (a :: before) a' after (hl ▸ rfl)⟩

structure Guarded (R : β → σ → Prop) (allowed : β → α → Prop) (denote : β → α → β) (step : σ → α → Except ε σ) (a : α) :
    Prop where
  returns_iff : ∀ b s, R b s → ((∃ s', step s a = .ok s') ↔ allowed b a)
  related : ∀ b s s', R b s → step s a = .ok s' → R (denote b a) s'

theorem Guarded.of_returns (hreturns : ∀ b s, R b s → allowed b a → Returns (step s a) (R (denote b a)))
    (hallowed : ∀ b s s', R b s → step s a = .ok s' → allowed b a) : Guarded R allowed denote step a where
  returns_iff b s hR := by
    constructor
    · rintro ⟨s', h⟩
      exact hallowed b s s' hR h
    · intro h
      obtain ⟨s', hs', -⟩ := hreturns b s hR h
      exact ⟨s', hs'⟩
  related b s s' hR h := by
    obtain ⟨s'', hs'', hR'⟩ := hreturns b s hR (hallowed b s s' hR h)
    rw [h] at hs''
    cases hs''
    exact hR'

theorem foldlM_guarded : ∀ (l : List α) (b : β) (s : σ), (∀ a ∈ l, Guarded R allowed denote step a) → R b s →
      ((∃ s', l.foldlM step s = .ok s') ↔ Along allowed denote b l) ∧ ∀ s', l.foldlM step s = .ok s' → R (l.foldl denote b) s'
  | [], b, s, _, hR => by
    refine ⟨⟨fun _ => trivial, fun _ => ⟨s, rfl⟩⟩, fun s' h => ?_⟩
    rw [List.foldlM_nil, pure_eq_ok] at h
    exact h ▸ hR
  | a :: l, b, s, hstep, hR => by
    obtain ⟨hreturns, hrelated⟩ := hstep a List.mem_cons_self
    have hrest := fun s₁ h₁ => foldlM_guarded l (denote b a) s₁ (fun a' ha' => hstep a' (List.mem_cons_of_mem a ha'))
      (hrelated b s s₁ hR h₁)
    simp only [List.foldlM_cons, bind_eq_ok]
    constructor
    · constructor
      · rintro ⟨s', s₁, h₁, h⟩
        exact ⟨(hreturns b s hR).1 ⟨s₁, h₁⟩, (hrest s₁ h₁).1.1 ⟨s', h⟩⟩
      · rintro ⟨hallowed, halong⟩
        obtain ⟨s₁, h₁⟩ := (hreturns b s hR).2 hallowed
        obtain ⟨s', h⟩ := (hrest s₁ h₁).1.2 halong
        exact ⟨s', s₁, h₁, h⟩
    · rintro s' ⟨s₁, h₁, h⟩
      exact (hrest s₁ h₁).2 s' h

end Lib
