-- SUMMARY: Step functions that give events, their paths, and machines that take several steps for one of another.
import Mathlib.Order.Basic

/-!
# Steps with events

A machine is a function that gives the events of one step and where it goes on, if it does. When
every step of one machine is a path of another, they have the same events.
-/

namespace Steps

variable {C D E : Type}

/-- The events of at most `n` steps. -/
def events (step : C → List E × Option C) : Nat → C → List E
  | 0, _ => []
  | n + 1, c =>
    (step c).1 ++ match (step c).2 with
      | none => []
      | some c' => events step n c'

/-- `n` steps that go on, and their events. -/
inductive Path (step : C → List E × Option C) : Nat → C → List E → C → Prop
  | refl (c) : Path step 0 c [] c
  | head {n c c' c'' es es'} : step c = (es, some c') → Path step n c' es' c'' →
      Path step (n + 1) c (es ++ es') c''

variable {step : C → List E × Option C}

theorem events_end {c : C} {es : List E} (h : step c = (es, none)) (n : Nat) :
    events step (n + 1) c = es := by
  rw [events, h, List.append_nil]

theorem events_next {c c' : C} {es : List E} (h : step c = (es, some c')) (n : Nat) :
    events step (n + 1) c = es ++ events step n c' := by
  rw [events, h]

theorem Path.tail {n : Nat} {c c' c'' : C} {es es' : List E} (h : Path step n c es c')
    (hstep : step c' = (es', some c'')) : Path step (n + 1) c (es ++ es') c'' := by
  induction h with
  | refl c =>
    have hone := Path.head hstep (Path.refl c'')
    rwa [List.append_nil] at hone
  | head hfirst _ ih =>
    rw [List.append_assoc]
    exact .head hfirst (ih hstep)

/-- The events of a path come first. -/
theorem Path.events {n : Nat} {c c' : C} {es : List E} (h : Path step n c es c') (k : Nat) :
    events step (n + k) c = es ++ Steps.events step k c' := by
  induction h with
  | refl c => rw [Nat.zero_add, List.nil_append]
  | @head n c c₁ c' es es' hstep _ ih =>
    rw [Nat.add_right_comm, events_next hstep, ih, List.append_assoc]

/-! ## Simulation -/

/-- A step that ends is a path to a last step, a step that goes on a path of at least one step. -/
structure Simulates (stepD : D → List E × Option D) (step : C → List E × Option C)
    (R : D → C → Prop) : Prop where
  ends : ∀ d c es, R d c → stepD d = (es, none) → ∃ n c' es₁ es₂,
    Path step n c es₁ c' ∧ step c' = (es₂, none) ∧ es = es₁ ++ es₂
  next : ∀ d c es d', R d c → stepD d = (es, some d') → ∃ n c', Path step (n + 1) c es c' ∧ R d' c'

/-- The events are the same, in at least as many steps. -/
theorem Simulates.events {stepD : D → List E × Option D} {R : D → C → Prop}
    (h : Simulates stepD step R) (n : Nat) {d : D} {c : C} (hR : R d c) :
    ∃ k ≥ n, Steps.events step k c = Steps.events stepD n d := by
  induction n generalizing d c with
  | zero => exact ⟨0, Nat.le_refl 0, rfl⟩
  | succ n ih =>
    cases hstep : stepD d with
    | mk es next =>
      cases next with
      | none =>
        obtain ⟨j, c', es₁, es₂, hpath, hend, rfl⟩ := h.ends d c es hR hstep
        refine ⟨j + (n + 1), Nat.le_add_left _ _, ?_⟩
        rw [hpath.events, events_end hend, events_end hstep]
      | some d' =>
        obtain ⟨j, c', hpath, hR'⟩ := h.next d c es d' hR hstep
        obtain ⟨k, hk, heq⟩ := ih hR'
        refine ⟨j + 1 + k, by omega, ?_⟩
        rw [hpath.events, heq, events_next hstep]

end Steps
