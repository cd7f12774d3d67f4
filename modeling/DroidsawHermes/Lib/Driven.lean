-- SUMMARY: Machines driven by inputs, and when two of them have the same runs.
import Mathlib.Logic.Relation

/-!
# Driven machines

Every step reads an input and goes to the next state or ends. Two machines have the same
runs from a state exactly if they take the same steps in every state that can be reached.
-/

namespace Driven

variable {I S E : Type}

/-- The states visited while the inputs last, and how the run ended. -/
def run (step : I → S → S ⊕ E) : List I → S → List S × Option E
  | [], _ => ([], none)
  | i :: inputs, s =>
    match step i s with
    | .inl t => (s :: (run step inputs t).1, (run step inputs t).2)
    | .inr e => ([s], some e)

def Step (step : I → S → S ⊕ E) (s t : S) : Prop := ∃ i, step i s = .inl t

abbrev Reaches (step : I → S → S ⊕ E) : S → S → Prop := Relation.ReflTransGen (Step step)

variable {step step' : I → S → S ⊕ E} {s t : S}

@[simp] theorem run_nil : run step [] s = ([], none) := rfl

theorem run_cons_next {i : I} (h : step i s = .inl t) (inputs : List I) :
    run step (i :: inputs) s = (s :: (run step inputs t).1, (run step inputs t).2) := by
  rw [run, h]

theorem run_cons_end {i : I} {e : E} (h : step i s = .inr e) (inputs : List I) :
    run step (i :: inputs) s = ([s], some e) := by
  rw [run, h]

/-- A run visits the state that it starts in. -/
theorem head?_run_cons (step : I → S → S ⊕ E) (i : I) (inputs : List I) (s : S) :
    (run step (i :: inputs) s).1.head? = some s := by
  rw [run]
  split <;> rfl

/-- The first step shows in the runs of length two. -/
theorem step_eq_of_run_eq (h : ∀ inputs, run step' inputs s = run step inputs s) (i : I) :
    step' i s = step i s := by
  have hrun := h [i, i]
  cases hstep : step i s with
  | inl t =>
    cases hstep' : step' i s with
    | inl t' =>
      rw [run_cons_next hstep, run_cons_next hstep'] at hrun
      obtain ⟨htail, -⟩ := Prod.mk.inj hrun
      have hhead := congrArg List.head? (List.cons.inj htail).2
      rw [head?_run_cons, head?_run_cons] at hhead
      rw [Option.some.inj hhead]
    | inr e =>
      rw [run_cons_next hstep, run_cons_end hstep'] at hrun
      have hlength := congrArg (fun r => r.1.length) hrun
      have hhead := head?_run_cons step i [] t
      cases hvisits : (run step [i] t).1 with
      | nil => simp [hvisits] at hhead
      | cons => simp [hvisits] at hlength
  | inr e =>
    cases hstep' : step' i s with
    | inl t =>
      rw [run_cons_end hstep, run_cons_next hstep'] at hrun
      have hlength := congrArg (fun r => r.1.length) hrun
      have hhead := head?_run_cons step' i [] t
      cases hvisits : (run step' [i] t).1 with
      | nil => simp [hvisits] at hhead
      | cons => simp [hvisits] at hlength
    | inr e' =>
      rw [run_cons_end hstep, run_cons_end hstep'] at hrun
      rw [Option.some.inj (Prod.mk.inj hrun).2]

/-- What holds of the runs from a state holds of the runs from the next one. -/
theorem run_eq_of_step (h : ∀ inputs, run step' inputs s = run step inputs s)
    (hstep : Step step s t) (inputs : List I) : run step' inputs t = run step inputs t := by
  obtain ⟨i, hi⟩ := hstep
  have hi' : step' i s = .inl t := (step_eq_of_run_eq h i).trans hi
  have hrun := h (i :: inputs)
  rw [run_cons_next hi, run_cons_next hi'] at hrun
  obtain ⟨hvisits, hend⟩ := Prod.mk.inj hrun
  exact Prod.ext (List.cons.inj hvisits).2 hend

theorem run_eq_iff : (∀ inputs, run step' inputs s = run step inputs s) ↔
    ∀ t, Reaches step s t → ∀ i, step' i t = step i t := by
  constructor
  · intro h t ht
    have hruns : ∀ inputs, run step' inputs t = run step inputs t := by
      induction ht with
      | refl => exact h
      | tail _ hstep ih => exact run_eq_of_step ih hstep
    exact step_eq_of_run_eq hruns
  · intro h inputs
    induction inputs generalizing s with
    | nil => rfl
    | cons i inputs ih =>
      have hi := h s .refl i
      cases hstep : step i s with
      | inl t =>
        rw [run_cons_next hstep, run_cons_next (hi.trans hstep),
          ih fun u hu => h u (hu.head ⟨i, hstep⟩)]
      | inr e => rw [run_cons_end hstep, run_cons_end (hi.trans hstep)]

end Driven
