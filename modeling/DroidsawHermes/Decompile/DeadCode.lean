-- SUMMARY: Execution of an SSA function on a machine, and what dead code elimination leaves of a function.
import DroidsawHermes.Decompile.Closed
import DroidsawHermes.Decompile.Simplify
import Mathlib.Logic.Function.Basic

/-!
# Dead code

What the operations do is left to a machine. Dead code elimination leaves what has a name that is
not taken for pure, and what is used.
-/

namespace Hermes.Decompile

/-! ## Machines -/

/-- What an operation does: its value, the state behind it, what can be observed of it, whether
the run stops, and which successor a terminator takes. -/
structure Effect (Value σ Event : Type) where
  value : Value
  state : σ
  events : List Event
  stops : Bool
  next : Nat

/-- A machine that executes operations on the values they read: those of their operands, and
where the run has a frame, behind them those of the registers that they read by position. Some
states cannot be told apart: they differ in what an allocation leaves behind. -/
structure Machine (Value σ Event : Type) where
  exec : SsaOp → List Value → σ → Effect Value σ Event
  same : σ → σ → Prop
  equiv : Equivalence same
  congr : ∀ {s s'}, same s s' → ∀ op values,
    (exec op values s').value = (exec op values s).value ∧
      same (exec op values s).state (exec op values s').state ∧
      (exec op values s').events = (exec op values s).events ∧
      (exec op values s').stops = (exec op values s).stops ∧
      (exec op values s').next = (exec op values s).next

namespace Machine

variable {Value σ Event : Type} (m : Machine Value σ Event)

/-! ## Runs -/

/-- The values of variables. -/
abbrev Values (Value : Type) := VarId → Value

def assign (values : Values Value) (dst : Option VarId) (value : Value) : Values Value :=
  match dst with
  | some v => Function.update values v value
  | none => values

/-- The operations of a block. The successor is the one that its last operation without a
destination takes. -/
def runOps : List SsaOp → Values Value → σ → Nat →
    List Event × Option (Values Value × σ × Nat)
  | [], values, s, next => ([], some (values, s, next))
  | op :: rest, values, s, next =>
    let effect := m.exec op (op.reads.map values) s
    if effect.stops then (effect.events, none)
    else
      let result := runOps rest (assign values op.dst effect.value) effect.state
        (if op.dst.isNone then effect.next else next)
      (effect.events ++ result.1, result.2)

end Machine

/-- The phis of a block read what the edge from the predecessor gives them. -/
def enterPhis {Value : Type} (phis : List Phi) (pred : BlockId) (values : VarId → Value) :
    VarId → Value := fun v =>
  match (phis.find? fun phi => phi.dst = v).bind fun phi => phi.args.find? fun arg => arg.1 = pred with
  | some arg => values arg.2
  | none => values v

@[simp] theorem enterPhis_const {Value : Type} (phis : List Phi) (pred : BlockId) (value : Value) :
    enterPhis phis pred (fun _ => value) = fun _ => value := by
  funext v
  unfold enterPhis
  split <;> rfl

namespace Machine

variable {Value σ Event : Type} (m : Machine Value σ Event)

/-- The events of a run through at most `n` blocks. -/
def run (f : SsaFunction) : Nat → BlockId → BlockId → Values Value → σ → List Event
  | 0, _, _, _, _ => []
  | n + 1, pred, id, values, s =>
    match f.block? id with
    | none => []
    | some b =>
      let result := m.runOps b.ops (enterPhis b.phis pred values) s 0
      result.1 ++ match result.2 with
        | none => []
        | some (values, s, next) =>
          match b.successors[next]? with
          | none => []
          | some succ => run f n id succ values s

end Machine

/-! ## Removal -/

/-- The operations that dead code elimination removes. -/
def SsaFunction.isDead (f : SsaFunction) (op : SsaOp) : Bool :=
  match op.dst with
  | none => false
  | some dst => isPure op.name && f.countUses dst == 0

def removedOps (f : SsaFunction) : List SsaOp := f.ops.filter f.isDead

def removedPhis (f : SsaFunction) : List Phi := f.phis.filter fun phi => f.countUses phi.dst == 0

section Reads

variable {Value : Type} {f : SsaFunction}

/-- The values of all variables that are read. -/
def AgreeOnReads (f : SsaFunction) (values values' : VarId → Value) : Prop :=
  ∀ v, 0 < f.countUses v → values' v = values v

theorem AgreeOnReads.assign {values values' : VarId → Value} (h : AgreeOnReads f values values')
    (dst : Option VarId) (value : Value) :
    AgreeOnReads f (Machine.assign values dst value) (Machine.assign values' dst value) := by
  cases dst with
  | none => exact h
  | some d =>
    intro v hv
    by_cases heq : v = d
    · simp [Machine.assign, heq]
    · simp [Machine.assign, heq, h v hv]

theorem AgreeOnReads.reads {values values' : VarId → Value} (h : AgreeOnReads f values values')
    {op : SsaOp} (hop : op ∈ f.ops) : op.reads.map values' = op.reads.map values := by
  refine List.map_congr_left fun v hv => h v ?_
  obtain ⟨operand, hoperand, hvar⟩ := List.mem_filterMap.mp hv
  cases operand with
  | var w =>
    cases hvar
    exact one_le_countUses hop hoperand
  | _ => cases hvar

/-- The phis that stay give the variables that are read what all phis give them. -/
theorem agreeOnReads_enterPhis {b : SsaBlock} (hb : b ∈ f.blocks) {values values' : VarId → Value}
    (h : AgreeOnReads f values values') (pred : BlockId) :
    AgreeOnReads f (enterPhis b.phis pred values)
      (enterPhis (b.phis.filter fun phi => !(f.countUses phi.dst == 0)) pred values') := by
  intro v hv
  have hfind : (b.phis.filter fun phi => !(f.countUses phi.dst == 0)).find? (fun phi => phi.dst = v)
      = b.phis.find? fun phi => phi.dst = v := by
    rw [List.find?_filter]
    congr 1
    funext phi
    by_cases hphi : phi.dst = v
    · have hused : f.countUses v ≠ 0 := by omega
      simp [hphi, hused]
    · simp [hphi]
  unfold enterPhis
  rw [hfind]
  cases hphi : b.phis.find? fun phi => phi.dst = v with
  | none => exact h v hv
  | some phi =>
    cases harg : phi.args.find? fun arg => arg.1 = pred with
    | none => simpa [harg] using h v hv
    | some arg =>
      have huse : 0 < f.countUses arg.2 := by
        refine SsaFunction.countUses_pos.mpr (SsaFunction.mem_reads_of_block hb
          (SsaBlock.mem_reads_of_phi (List.mem_of_find?_eq_some hphi) ?_))
        exact List.mem_map_of_mem (List.mem_of_find?_eq_some harg)
      simpa [harg] using h arg.2 huse

end Reads

end Hermes.Decompile
