-- SUMMARY: Flow graphs whose points define and read variables, strictness, and what it says of copies and of values that stay.
import Mathlib.Logic.Relation

/-!
# Flow graphs

Variables are read on the way from a point to the next and defined on arrival. In a strict
graph a definition comes before every read, whichever path is taken, unless there is none. A
copy then agrees with its source wherever the copy can be read.
-/

structure FlowGraph (Point Var : Type) where
  start : Point
  step : Point → Point → Prop
  reads : Point → Point → Var → Prop
  defs : Point → Var → Prop

namespace FlowGraph

variable {Point Var Value : Type} {F : FlowGraph Point Var}

def Reachable (F : FlowGraph Point Var) : Point → Prop := Relation.ReflTransGen F.step F.start

/-- Some path from the start does not define `v`. -/
inductive Undefined (F : FlowGraph Point Var) (v : Var) : Point → Prop
  | start : ¬ F.defs F.start v → Undefined F v F.start
  | step {p q} : Undefined F v p → F.step p q → ¬ F.defs q v → Undefined F v q

def Never (F : FlowGraph Point Var) (v : Var) : Prop := ∀ p, ¬ F.defs p v

/-- A definition comes before every read, on every path, or there is none. -/
structure Strict (F : FlowGraph Point Var) : Prop where
  start : ∀ v, ¬ F.defs F.start v
  reads : ∀ p q v, F.step p q → F.reads p q v → F.Undefined v p → F.Never v

/-- A point where `v` is defined, or a path without a definition. -/
theorem Reachable.undefined_or {p : Point} (h : F.Reachable p) (hstart : ∀ v, ¬ F.defs F.start v)
    (v : Var) : F.Undefined v p ∨ ∃ p q, F.Undefined v p ∧ F.step p q ∧ F.defs q v := by
  induction h with
  | refl => exact Or.inl (.start (hstart v))
  | @tail p q _ hstep ih =>
    refine ih.elim (fun hp => ?_) Or.inr
    by_cases hq : F.defs q v
    · exact Or.inr ⟨p, q, hp, hstep, hq⟩
    · exact Or.inl (hp.step hstep hq)

/-! ## Copies -/

/-- A copy is defined, and its definition reads its source. -/
structure Copies (F : FlowGraph Point Var) (copy : Var → Var → Prop) : Prop where
  unique : ∀ p q v, F.defs p v → F.defs q v → p = q
  defined : ∀ v u, copy v u → ¬ F.Never v
  reads : ∀ v u p q, copy v u → F.step p q → F.defs q v → F.reads p q u

variable {copy : Var → Var → Prop}

/-- A path that does not define the source does not define the copy. -/
theorem Strict.undefined_copy (hF : F.Strict) (hcopy : F.Copies copy) {v u : Var}
    (hvu : copy v u) (hu : ¬ F.Never u) {p : Point} (h : F.Undefined u p) : F.Undefined v p := by
  induction h with
  | start _ => exact .start (hF.start v)
  | @step p q hp hstep _ ih =>
    refine ih.step hstep fun hdef => hu ?_
    exact hF.reads p q u hstep (hcopy.reads v u p q hvu hstep hdef) hp

/-- The point that defines the source can be reached for the first time. -/
theorem Strict.first_def (hF : F.Strict) (hcopy : F.Copies copy) {u : Var} {q : Point}
    (hq : F.Reachable q) (hdef : F.defs q u) : ∃ p, F.Undefined u p ∧ F.step p q := by
  rcases hq.undefined_or hF.start u with hundef | ⟨p, q', hp, hstep, hdef'⟩
  · cases hundef with
    | start _ => exact absurd hdef (hF.start u)
    | step _ _ hno => exact absurd hdef hno
  · rw [hcopy.unique q q' u hdef hdef']
    exact ⟨p, hp, hstep⟩

theorem Strict.not_defs_source (hF : F.Strict) (hcopy : F.Copies copy) {v u : Var}
    (hvu : copy v u) {q : Point} (hq : F.Reachable q) (hv : F.defs q v) : ¬ F.defs q u := by
  intro hu
  obtain ⟨p, hp, hstep⟩ := hF.first_def hcopy hq hu
  exact hF.reads p q u hstep (hcopy.reads v u p q hvu hstep hv) hp q hu

/-- Where the source is defined, the copy need not be. -/
theorem Strict.undefined_at_source (hF : F.Strict) (hcopy : F.Copies copy) {v u : Var}
    (hvu : copy v u) {q : Point} (hq : F.Reachable q) (hu : F.defs q u) : F.Undefined v q := by
  obtain ⟨p, hp, hstep⟩ := hF.first_def hcopy hq hu
  refine (hF.undefined_copy hcopy hvu (fun hnever => hnever q hu) hp).step hstep fun hv => ?_
  exact hF.not_defs_source hcopy hvu hq hv hu

/-- What a step does to the values: the variables that it does not define keep theirs. -/
def Frame (F : FlowGraph Point Var) (q : Point) (val val' : Var → Value) : Prop :=
  ∀ v, ¬ F.defs q v → val' v = val v

/-- A copy gets what its source has before the step. -/
def Copied (F : FlowGraph Point Var) (copy : Var → Var → Prop) (q : Point) (val val' : Var → Value) :
    Prop := ∀ v u, copy v u → F.defs q v → val' v = val u

/-- A copy agrees with its source, or it need not be defined yet. -/
def CopiesAgree (F : FlowGraph Point Var) (copy : Var → Var → Prop) (p : Point) (val : Var → Value) :
    Prop := ∀ v u, copy v u → val v = val u ∨ F.Undefined v p

theorem Strict.copiesAgree_start (hF : F.Strict) (val : Var → Value) :
    F.CopiesAgree copy F.start val := fun v _ _ => Or.inr (.start (hF.start v))

/-- Every step keeps the agreement. -/
theorem Strict.copiesAgree_step (hF : F.Strict) (hcopy : F.Copies copy) {p q : Point}
    {val val' : Var → Value} (h : F.CopiesAgree copy p val) (hp : F.Reachable p)
    (hstep : F.step p q) (hframe : F.Frame q val val') (hcopied : F.Copied copy q val val') :
    F.CopiesAgree copy q val' := by
  intro v u hvu
  have hq : F.Reachable q := hp.tail hstep
  by_cases hv : F.defs q v
  · left
    rw [hcopied v u hvu hv, hframe u (hF.not_defs_source hcopy hvu hq hv)]
  by_cases hu : F.defs q u
  · exact Or.inr (hF.undefined_at_source hcopy hvu hq hu)
  · rw [hframe v hv, hframe u hu]
    exact (h v u hvu).imp_right fun hundef => hundef.step hstep hv

/-- Where a variable can be read, so can what it copies. -/
theorem Strict.reads_source (hF : F.Strict) (hcopy : F.Copies copy) {p : Point} {v u : Var}
    (hvu : copy v u) (hv : F.Undefined v p → F.Never v) (hu : F.Undefined u p) : F.Never u :=
  Classical.byContradiction fun hnever =>
    hcopy.defined v u hvu (hv (hF.undefined_copy hcopy hvu hnever hu))

/-- A chain of copies has one value where its start can be read. -/
theorem Strict.eq_of_chain (hF : F.Strict) (hcopy : F.Copies copy) {p : Point}
    {val : Var → Value} (h : F.CopiesAgree copy p val) {v w : Var}
    (hchain : Relation.ReflTransGen copy v w) (hv : F.Undefined v p → F.Never v) :
    val w = val v := by
  induction hchain using Relation.ReflTransGen.head_induction_on with
  | refl => rfl
  | @head v u hvu _ ih =>
    have hdefined : ¬ F.Undefined v p := fun hundef => hcopy.defined v u hvu (hv hundef)
    rw [ih (hF.reads_source hcopy hvu hv)]
    exact ((h v u hvu).resolve_right hdefined).symm

/-- With more steps and fewer definitions there are more paths that do not define `v`. -/
theorem Undefined.mono {G : FlowGraph Point Var} {v : Var} {p : Point} (h : F.Undefined v p)
    (hstep : ∀ p q, F.step p q → G.step p q) (hdefs : ∀ p v, G.defs p v → F.defs p v)
    (hstart : F.start = G.start) : G.Undefined v p := by
  induction h with
  | start hno =>
    rw [hstart] at hno ⊢
    exact .start fun hdef => hno (hdefs _ v hdef)
  | step _ hpq hno ih => exact ih.step (hstep _ _ hpq) fun hdef => hno (hdefs _ v hdef)

/-! ## Values that stay -/

/-- What every definition of a variable gives it. -/
def Established (F : FlowGraph Point Var) (Q : Var → Value → Prop) (p : Point) (val : Var → Value) :
    Prop := ∀ v, Q v (val v) ∨ F.Undefined v p

theorem established_start (hstart : ∀ v, ¬ F.defs F.start v) (Q : Var → Value → Prop)
    (val : Var → Value) : F.Established Q F.start val := fun v => Or.inr (.start (hstart v))

theorem established_step {Q : Var → Value → Prop} {p q : Point} {val val' : Var → Value}
    (h : F.Established Q p val) (hstep : F.step p q) (hframe : F.Frame q val val')
    (hdefs : ∀ v, F.defs q v → Q v (val' v)) : F.Established Q q val' := by
  intro v
  by_cases hv : F.defs q v
  · exact Or.inl (hdefs v hv)
  · rw [hframe v hv]
    exact (h v).imp_right fun hundef => hundef.step hstep hv

end FlowGraph
