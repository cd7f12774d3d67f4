-- SUMMARY: Fallible loops over an index range: inversion of bind, the invariant rule, and congruence.
import Mathlib.Data.List.Basic

/-!
# Loops

A loop `for k in 0..n` with early exits is a monadic fold over `List.range n`
in `Except`. A run of it is reasoned about by an invariant indexed with the
number of rounds done.
-/

namespace Loop

variable {ε α β σ : Type}

/-- Inversion of a successful bind. -/
theorem bind_eq_ok {x : Except ε α} {f : α → Except ε β} {r : β} :
    (x >>= f) = .ok r ↔ ∃ a, x = .ok a ∧ f a = .ok r := by
  cases x with
  | error e => simp [bind, Except.bind]
  | ok a => simp [bind, Except.bind]

@[simp] theorem ok_bind (a : α) (f : α → Except ε β) : (Except.ok a >>= f) = f a := rfl

@[simp] theorem error_bind (e : ε) (f : α → Except ε β) :
    ((Except.error e : Except ε α) >>= f) = .error e := rfl

/-- A computation that ends well with a value that passes a test. -/
def okAnd (x : Except ε α) (p : α → Bool) : Bool :=
  match x with
  | .ok a => p a
  | .error _ => false

theorem exists_of_okAnd {x : Except ε α} {p : α → Bool} (h : okAnd x p = true) :
    ∃ a, x = .ok a ∧ p a = true := by
  cases x with
  | error e => cases h
  | ok a => exact ⟨a, rfl, h⟩

/-- A traversal every step of which succeeds. -/
theorem mapM_eq_ok_map {f : α → Except ε β} {g : α → β} {l : List α}
    (h : ∀ x ∈ l, f x = .ok (g x)) : l.mapM f = .ok (l.map g) := by
  induction l with
  | nil => rfl
  | cons x l ih =>
    rw [List.mapM_cons, h x List.mem_cons_self, ok_bind,
      ih fun y hy => h y (List.mem_cons_of_mem _ hy)]
    rfl

/-- A fold that ended well did every step with success. -/
theorem forall_of_foldlM {step : σ → α → Except ε σ} {Q : α → Prop}
    (hstep : ∀ s x s', step s x = .ok s' → Q x) :
    ∀ {l : List α} {init s : σ}, l.foldlM step init = .ok s → ∀ x ∈ l, Q x := by
  intro l
  induction l with
  | nil => simp
  | cons y l ih =>
    intro init s h x hx
    rw [List.foldlM_cons, bind_eq_ok] at h
    obtain ⟨t, ht, hrest⟩ := h
    rcases List.mem_cons.mp hx with rfl | hmem
    · exact hstep init x t ht
    · exact ih hrest x hmem

/-- What every step that succeeds keeps holds after the fold. -/
theorem foldlM_invariant {step : σ → α → Except ε σ} (P : σ → Prop) {l : List α}
    (hstep : ∀ s, ∀ x ∈ l, ∀ s', P s → step s x = .ok s' → P s') {init s : σ} (hinit : P init)
    (h : l.foldlM step init = .ok s) : P s := by
  induction l generalizing init with
  | nil =>
    cases h
    exact hinit
  | cons x l ih =>
    rw [List.foldlM_cons, bind_eq_ok] at h
    obtain ⟨t, ht, hrest⟩ := h
    exact ih (fun s y hy => hstep s y (List.mem_cons_of_mem _ hy))
      (hstep init x List.mem_cons_self t hinit ht) hrest

/-- A fold that ends well takes another one along when its steps do. -/
theorem foldlM_simulate {σ' ε' : Type} {step : σ → α → Except ε σ}
    (step' : σ' → α → Except ε' σ') (R : σ → σ' → Prop) {l : List α}
    (hstep : ∀ s t x s', x ∈ l → R s t → step s x = .ok s' → ∃ t', step' t x = .ok t' ∧ R s' t')
    {init s : σ} {init' : σ'} (hinit : R init init') (h : l.foldlM step init = .ok s) :
    ∃ t, l.foldlM step' init' = .ok t ∧ R s t := by
  induction l generalizing init init' with
  | nil =>
    cases h
    exact ⟨init', rfl, hinit⟩
  | cons x l ih =>
    rw [List.foldlM_cons, bind_eq_ok] at h
    obtain ⟨s₁, hs₁, hrest⟩ := h
    obtain ⟨t₁, ht₁, hR⟩ := hstep init init' x s₁ List.mem_cons_self hinit hs₁
    obtain ⟨t, ht, hR'⟩ :=
      ih (fun s t y s' hy => hstep s t y s' (List.mem_cons_of_mem _ hy)) hR hrest
    exact ⟨t, by rw [List.foldlM_cons, ht₁, ok_bind, ht], hR'⟩

/-- `for k in 0..n`, with a step that may fail. -/
def forRange (n : Nat) (init : σ) (step : σ → Nat → Except ε σ) : Except ε σ :=
  (List.range n).foldlM step init

theorem forRange_zero (init : σ) (step : σ → Nat → Except ε σ) :
    forRange 0 init step = .ok init := rfl

theorem forRange_succ (n : Nat) (init : σ) (step : σ → Nat → Except ε σ) :
    forRange (n + 1) init step = (forRange n init step >>= fun s => step s n) := by
  simp only [forRange, List.range_succ, List.foldlM_append, List.foldlM_cons, List.foldlM_nil]
  cases List.foldlM step init (List.range n) with
  | error e => rfl
  | ok s => simp

/-- The invariant rule: what holds before the loop and is kept by every round
that succeeds holds after it. -/
theorem forRange_invariant {n : Nat} {init s : σ} {step : σ → Nat → Except ε σ}
    (P : Nat → σ → Prop) (hinit : P 0 init)
    (hstep : ∀ k t t', k < n → P k t → step t k = .ok t' → P (k + 1) t')
    (h : forRange n init step = .ok s) : P n s := by
  induction n generalizing s with
  | zero =>
    rw [forRange_zero] at h
    cases h
    exact hinit
  | succ n ih =>
    rw [forRange_succ, bind_eq_ok] at h
    obtain ⟨t, ht, hs⟩ := h
    have hP : P n t := ih (fun k t t' hk => hstep k t t' (by omega)) ht
    exact hstep n t s (by omega) hP hs

/-- A loop every round of which succeeds where the invariant holds. -/
theorem forRange_total {n : Nat} {init : σ} {step : σ → Nat → Except ε σ}
    (P : Nat → σ → Prop) (hinit : P 0 init)
    (hstep : ∀ k t, k < n → P k t → ∃ t', step t k = .ok t' ∧ P (k + 1) t') :
    ∃ s, forRange n init step = .ok s ∧ P n s := by
  induction n with
  | zero => exact ⟨init, rfl, hinit⟩
  | succ n ih =>
    obtain ⟨t, ht, hP⟩ := ih (fun k t hk => hstep k t (by omega))
    obtain ⟨s, hs, hPs⟩ := hstep n t (by omega) hP
    refine ⟨s, ?_, hPs⟩
    rw [forRange_succ, ht, ok_bind, hs]

/-- Two loops whose rounds agree agree. -/
theorem forRange_congr {n : Nat} {init : σ} {f g : σ → Nat → Except ε σ}
    (h : ∀ t k, k < n → f t k = g t k) : forRange n init f = forRange n init g := by
  induction n with
  | zero => rfl
  | succ n ih =>
    rw [forRange_succ, forRange_succ, ih (fun t k hk => h t k (by omega))]
    congr 1
    funext t
    exact h t n (by omega)

end Loop
