-- SUMMARY: Variables of a flow graph that share names: where a name still has the value of its variable.
import DroidsawHermes.Lib.FlowGraph

/-!
# Shared names

Values are stored under names, which variables may share. The value of a variable is lost where
another variable of its name has been defined since.
-/

namespace FlowGraph

variable {Point Var Name Value : Type} {F : FlowGraph Point Var} {name : Var → Name}

/-- On some path another variable of the name is defined, and `v` is not defined behind it. -/
inductive Clobbered (F : FlowGraph Point Var) (name : Var → Name) (v : Var) : Point → Prop
  | other {p q w} : F.Reachable p → F.step p q → F.defs q w → w ≠ v → name w = name v →
      Clobbered F name v q
  | step {p q} : Clobbered F name v p → F.step p q → ¬ F.defs q v → Clobbered F name v q

/-- A name has the value of a variable, or that is lost. -/
def NamesHold (F : FlowGraph Point Var) (name : Var → Name) (p : Point) (val : Var → Value)
    (store : Name → Value) : Prop :=
  ∀ v, store (name v) = val v ∨ F.Clobbered name v p

/-- What a step does to the store: the names of what it defines get the values, where they are
the names of one variable only. -/
structure Stored (F : FlowGraph Point Var) (name : Var → Name) (q : Point) (val' : Var → Value)
    (store store' : Name → Value) : Prop where
  frame : ∀ v, (∀ w, F.defs q w → name w ≠ name v) → store' (name v) = store (name v)
  own : ∀ v, F.defs q v → (∀ w, F.defs q w → name w = name v → w = v) →
    store' (name v) = val' v

/-- Every step keeps what the names have. -/
theorem namesHold_step {p q : Point} {val val' : Var → Value} {store store' : Name → Value}
    (h : F.NamesHold name p val store) (hp : F.Reachable p) (hstep : F.step p q)
    (hframe : F.Frame q val val') (hstored : F.Stored name q val' store store') :
    F.NamesHold name q val' store' := by
  intro v
  by_cases hother : ∃ w, F.defs q w ∧ w ≠ v ∧ name w = name v
  · obtain ⟨w, hw, hne, hname⟩ := hother
    exact Or.inr (.other hp hstep hw hne hname)
  have halone : ∀ w, F.defs q w → name w = name v → w = v := fun w hw hname =>
    Classical.byContradiction fun hne => hother ⟨w, hw, hne, hname⟩
  by_cases hv : F.defs q v
  · exact Or.inl (hstored.own v hv halone)
  · rw [hframe v hv, hstored.frame v fun w hw hname => hv (halone w hw hname ▸ hw)]
    exact (h v).imp_right fun hclobbered => hclobbered.step hstep hv

/-- What is live is not clobbered, where no definition takes the name of another live variable. -/
theorem not_clobbered {live : Point → Var → Prop}
    (hother : ∀ q v w, live q v → F.defs q w → name w = name v → w = v)
    (hback : ∀ p q v, F.step p q → live q v → ¬ F.defs q v → live p v) {p : Point} {v : Var}
    (h : live p v) : ¬ F.Clobbered name v p := by
  intro hclobbered
  induction hclobbered with
  | other _ _ hw hne hname => exact hne (hother _ _ _ h hw hname)
  | step _ hstep hno ih => exact ih (hback _ _ _ hstep h hno)

end FlowGraph
