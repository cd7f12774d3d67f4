-- SUMMARY: Runs of structured programs: sequencing, loops, handlers and labels over how a statement ends.
import Mathlib.Data.List.Basic

/-!
# Structured control

A run records the events, the last state and how it ended. Only a normal end goes
on to what follows. Loops run a bounded number of iterations, and a run that needs
more is out of fuel.
-/

namespace Control

-- ---------------------------------------------------------------------------
-- Runs
-- ---------------------------------------------------------------------------

/-- How a statement ends. -/
inductive Outcome (Value Label : Type) where
  | normal
  | returned (value : Option Value)
  | thrown (value : Value)
  | broke (label : Option Label)
  | continued (label : Option Label)
  | outOfFuel
  deriving DecidableEq, Repr

structure Run (Event Value Label σ : Type) where
  trace : List Event
  state : σ
  outcome : Outcome Value Label
  deriving DecidableEq, Repr

namespace Run

variable {Event Value Label σ : Type}

/-- Nothing happens, and the statement ends so. -/
def stop (outcome : Outcome Value Label) (s : σ) : Run Event Value Label σ := ⟨[], s, outcome⟩

/-- What happens after the end of a run, whatever that was. -/
def andThen (r : Run Event Value Label σ) (k : σ → Run Event Value Label σ) :
    Run Event Value Label σ :=
  ⟨r.trace ++ (k r.state).trace, (k r.state).state, (k r.state).outcome⟩

/-- A sequence: what follows runs after a normal end only. -/
def seq (r : Run Event Value Label σ) (k : σ → Run Event Value Label σ) :
    Run Event Value Label σ :=
  match r.outcome with
  | .normal => r.andThen k
  | _ => r

@[simp] theorem stop_normal_seq (s : σ) (k : σ → Run Event Value Label σ) :
    (stop .normal s).seq k = k s := by
  simp [stop, seq, andThen]

theorem seq_of_ne {r : Run Event Value Label σ} (h : r.outcome ≠ .normal)
    (k : σ → Run Event Value Label σ) : r.seq k = r := by
  unfold seq
  split
  · contradiction
  · rfl

theorem seq_of_eq {r : Run Event Value Label σ} (h : r.outcome = .normal)
    (k : σ → Run Event Value Label σ) : r.seq k = r.andThen k := by
  simp [seq, h]

@[simp] theorem seq_stop_normal (r : Run Event Value Label σ) : r.seq (stop .normal) = r := by
  by_cases h : r.outcome = .normal
  · rw [seq_of_eq h, andThen]
    obtain ⟨trace, state, outcome⟩ := r
    simp_all [stop]
  · exact seq_of_ne h _

theorem seq_assoc (r : Run Event Value Label σ) (k l : σ → Run Event Value Label σ) :
    (r.seq k).seq l = r.seq fun s => (k s).seq l := by
  by_cases h : r.outcome = .normal
  · rw [seq_of_eq h, seq_of_eq h]
    by_cases hk : (k r.state).outcome = .normal
    · rw [seq_of_eq (by exact hk)]
      simp [andThen, seq_of_eq hk, List.append_assoc]
    · rw [seq_of_ne (by exact hk)]
      simp [andThen, seq_of_ne hk]
  · rw [seq_of_ne h, seq_of_ne h, seq_of_ne h]

-- ---------------------------------------------------------------------------
-- Handlers
-- ---------------------------------------------------------------------------

/-- `try`: the handler runs after a throw, with the value. -/
def handle (r : Run Event Value Label σ) (handler : Value → σ → Run Event Value Label σ) :
    Run Event Value Label σ :=
  match r.outcome with
  | .thrown v => r.andThen (handler v)
  | _ => r

/-- A `break` without a label ends here. -/
def leave (r : Run Event Value Label σ) : Run Event Value Label σ :=
  match r.outcome with
  | .broke none => { r with outcome := .normal }
  | _ => r

/-- A `break` with the label ends here. -/
def leaveLabel [DecidableEq Label] (label : Label) (r : Run Event Value Label σ) :
    Run Event Value Label σ :=
  match r.outcome with
  | .broke (some l) => if l = label then { r with outcome := .normal } else r
  | _ => r

@[simp] theorem trace_leaveLabel [DecidableEq Label] (label : Label)
    (r : Run Event Value Label σ) : (r.leaveLabel label).trace = r.trace := by
  unfold leaveLabel
  split
  · split <;> rfl
  · rfl

theorem outcome_leaveLabel_congr [DecidableEq Label] {r r' : Run Event Value Label σ}
    (h : r.outcome = r'.outcome) (label : Label) :
    (r.leaveLabel label).outcome = (r'.leaveLabel label).outcome := by
  simp only [leaveLabel, h]
  split
  · split <;> simp [h]
  · exact h

theorem leave_of_ne {r : Run Event Value Label σ} (h : r.outcome ≠ .broke none) : r.leave = r := by
  unfold leave
  split
  · contradiction
  · rfl

theorem outcome_leave_ne (r : Run Event Value Label σ) : r.leave.outcome ≠ .broke none := by
  unfold leave
  split
  · simp
  · assumption

theorem outcome_seq_ne {r : Run Event Value Label σ} {k : σ → Run Event Value Label σ}
    (hr : r.outcome ≠ .broke none) (hk : ∀ s, (k s).outcome ≠ .broke none) :
    (r.seq k).outcome ≠ .broke none := by
  unfold seq
  split
  · exact hk _
  · exact hr

theorem outcome_handle_ne {r : Run Event Value Label σ} {k : Value → σ → Run Event Value Label σ}
    (hr : r.outcome ≠ .broke none) (hk : ∀ v s, (k v s).outcome ≠ .broke none) :
    (r.handle k).outcome ≠ .broke none := by
  unfold handle
  split
  · exact hk _ _
  · exact hr

-- ---------------------------------------------------------------------------
-- Loops
-- ---------------------------------------------------------------------------

/-- Whether the loop goes on after its body ended so. -/
def continues [DecidableEq Label] (label : Option Label) : Outcome Value Label → Bool
  | .normal => true
  | .continued none => true
  | .continued (some l) => label = some l
  | _ => false

/-- The next iteration, or the end of the loop. -/
def iterate [DecidableEq Label] (label : Option Label) (r : Run Event Value Label σ)
    (k : σ → Run Event Value Label σ) : Run Event Value Label σ :=
  if continues label r.outcome then r.andThen k else r.leave

def whileLoop [DecidableEq Label] (label : Option Label) (test : σ → Bool)
    (body : σ → Run Event Value Label σ) : Nat → σ → Run Event Value Label σ
  | 0, s => stop .outOfFuel s
  | n + 1, s =>
    if test s then (body s).iterate label (whileLoop label test body n) else stop .normal s

/-- A loop over the values, each bound before its iteration. -/
def forLoop [DecidableEq Label] (label : Option Label) (bind : Value → σ → σ)
    (body : σ → Run Event Value Label σ) : List Value → σ → Run Event Value Label σ
  | [], s => stop .normal s
  | v :: vs, s => (body (bind v s)).iterate label (forLoop label bind body vs)

variable [DecidableEq Label] {label : Option Label}

theorem outcome_iterate_ne {r : Run Event Value Label σ} {k : σ → Run Event Value Label σ}
    (hk : ∀ s, (k s).outcome ≠ .broke none) : (r.iterate label k).outcome ≠ .broke none := by
  unfold iterate
  split
  · exact hk _
  · exact outcome_leave_ne r

/-- A loop takes every `break` without a label. -/
theorem outcome_whileLoop_ne (test : σ → Bool) (body : σ → Run Event Value Label σ) (n : Nat)
    (s : σ) : (whileLoop label test body n s).outcome ≠ .broke none := by
  induction n generalizing s with
  | zero => simp [whileLoop, stop]
  | succ n ih =>
    rw [whileLoop]
    split
    · exact outcome_iterate_ne ih
    · simp [stop]

theorem outcome_forLoop_ne (bind : Value → σ → σ) (body : σ → Run Event Value Label σ)
    (vs : List Value) (s : σ) : (forLoop label bind body vs s).outcome ≠ .broke none := by
  induction vs generalizing s with
  | nil => simp [forLoop, stop]
  | cons v vs ih =>
    rw [forLoop]
    exact outcome_iterate_ne ih

theorem outcome_leaveLabel_ne {r : Run Event Value Label σ} (hr : r.outcome ≠ .broke none)
    (l : Label) : (r.leaveLabel l).outcome ≠ .broke none := by
  unfold leaveLabel
  split
  · split
    · simp
    · exact hr
  · exact hr

end Run

end Control
