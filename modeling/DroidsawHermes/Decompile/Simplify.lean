-- SUMMARY: Copy propagation, constant folding and dead-code elimination.
import DroidsawHermes.Decompile.Passes
import DroidsawHermes.Lib.Binary64
import Mathlib.Logic.Relation

/-!
# Copies, constants and dead code

`copy_propagation`, `constant_folding` and `dead_code_elimination` of
`decompile/optimize.rs`.
-/

namespace Hermes.Decompile

/-! ## Copy propagation -/

/-- The source of a `Mov`. -/
def SsaOp.copySrc (op : SsaOp) : Option VarId :=
  if op.name = "Mov" ∨ op.name = "MovLong" then op.operands[1]?.bind SsaOperand.var? else none

def SsaFunction.copies (s : SsaFunction) : VarId → Option VarId := lastDef s.ops SsaOp.copySrc

/-- Follows the copies to their end, or once round a cycle. -/
def resolveCopy (copies : VarId → Option VarId) : Nat → List VarId → VarId → VarId
  | 0, _, current => current
  | fuel + 1, visited, current =>
    match copies current with
    | none => current
    | some next =>
      if visited.contains current then current
      else resolveCopy copies fuel (current :: visited) next

/-- The variable that `copy_propagation` puts in the place of `v`. A round visits
one more destination, so the fuel outlasts the loop. -/
def SsaFunction.copyRoot (s : SsaFunction) (v : VarId) : VarId :=
  resolveCopy s.copies (s.ops.length + 1) [] v

def Phi.mapArgs (σ : VarId → VarId) (phi : Phi) : Phi :=
  { phi with args := phi.args.map fun arg => (arg.1, σ arg.2) }

def copyPropagation (s : SsaFunction) : SsaFunction :=
  ⟨s.blocks.map fun b =>
    { b with
      phis := b.phis.map (Phi.mapArgs s.copyRoot)
      ops := b.ops.map (SsaOp.mapOperands (SsaOperand.mapVar s.copyRoot)) }⟩

/-- `v` is defined as a copy of `u`. -/
def SsaFunction.IsCopy (s : SsaFunction) (v u : VarId) : Prop :=
  ∃ op ∈ s.ops, op.dst = some v ∧ op.copySrc = some u

/-- `v` is a copy of `u`, through any number of copies. -/
def SsaFunction.CopyOf (s : SsaFunction) : VarId → VarId → Prop := Relation.ReflTransGen s.IsCopy

theorem SsaFunction.isCopy_of_copies {s : SsaFunction} {v u : VarId} (h : s.copies v = some u) :
    s.IsCopy v u := lastDef_eq_some h

theorem SsaFunction.copyOf_resolveCopy (s : SsaFunction) (fuel : Nat) (visited : List VarId)
    (v : VarId) : s.CopyOf v (resolveCopy s.copies fuel visited v) := by
  induction fuel generalizing visited v with
  | zero => exact Relation.ReflTransGen.refl
  | succ fuel ih =>
    simp only [resolveCopy]
    cases hnext : s.copies v with
    | none => exact Relation.ReflTransGen.refl
    | some next =>
      simp only
      split
      · exact Relation.ReflTransGen.refl
      · exact Relation.ReflTransGen.head (isCopy_of_copies hnext) (ih (v :: visited) next)

theorem SsaFunction.copyOf_copyRoot (s : SsaFunction) (v : VarId) : s.CopyOf v (s.copyRoot v) :=
  s.copyOf_resolveCopy _ _ _

/-- The constants known so far; a double is kept as its bits. -/
structure Consts where
  vals : VarId → Option Int
  doubles : VarId → Option UInt64

inductive FoldedConst where
  | int (n : Int)
  | double (bits : UInt64)

/-- The bitwise operations, on the operands as `i32`. -/
def bitwiseResult (name : String) (lv rv : Int) : Option Int :=
  let l := BitVec.ofInt 32 lv
  let r := BitVec.ofInt 32 rv
  let shift := (rv % 32).toNat
  match name with
  | "BitAnd" => some (l &&& r).toInt
  | "BitOr" => some (l ||| r).toInt
  | "BitXor" => some (l ^^^ r).toInt
  | "LShift" => some (l <<< shift).toInt
  | "RShift" => some (l.sshiftRight shift).toInt
  | "URshift" => some (l >>> shift).toNat
  | _ => none

/-- The numeric operations, on the operands as `f64`. -/
def numericResult (name : String) (lv rv : Int) : Option Float :=
  let l := Binary64.ofInt lv
  let r := Binary64.ofInt rv
  match name with
  | "AddN" => some (l + r)
  | "Sub" | "SubN" => some (l - r)
  | "Mul" | "MulN" => some (l * r)
  | "Div" | "DivN" => if rv ≠ 0 then some (l / r) else none
  | "Mod" => if rv ≠ 0 then some (Binary64.remainder lv rv) else none
  | _ => none

/-- `i32::MAX`. -/
def i32Max : Int := 2 ^ 31 - 1

/-- `i32::MIN`. -/
def i32Min : Int := -2 ^ 31

/-- `val.fract() == 0.0` of a float that a 64-bit integer can hold. -/
def isIntegral (val : Float) : Bool := Binary64.ofInt (Binary64.toInt val) == val

def foldInts (name : String) (lv rv : Int) : Option FoldedConst :=
  match bitwiseResult name lv rv with
  | some val =>
    if val > i32Max ∨ val < i32Min then some (.double (Binary64.ofInt val).toBits)
    else some (.int val)
  | none =>
    (numericResult name lv rv).map fun val =>
      if isIntegral val && val.abs ≤ Binary64.ofInt i32Max then .int (Binary64.toInt val)
      else .double val.toBits

def foldDoubles (name : String) (lv rv : UInt64) : Option FoldedConst :=
  let l := Float.ofBits lv
  let r := Float.ofBits rv
  match name with
  | "Add" | "AddN" => some (.double (l + r).toBits)
  | "Sub" | "SubN" => some (.double (l - r).toBits)
  | "Mul" | "MulN" => some (.double (l * r).toBits)
  | "Div" | "DivN" => some (.double (l / r).toBits)
  | _ => none

/-- The operation becomes a load of the constant. -/
def SsaOp.loadConst (op : SsaOp) : FoldedConst → SsaOp
  | .int n =>
    { op with name := "LoadConstInt", operands := op.operands.take 1 ++ [.const n] }
  | .double bits =>
    { op with name := "LoadConstDouble", operands := op.operands.take 1 ++ [.constDouble bits] }

def Consts.insert (consts : Consts) (dst : VarId) : FoldedConst → Consts
  | .int n => { consts with vals := fun v => if v = dst then some n else consts.vals v }
  | .double bits =>
    { consts with doubles := fun v => if v = dst then some bits else consts.doubles v }

/-- One attempt at an operation: a load of the folded constant, or nothing new. -/
def SsaOp.foldWith (op : SsaOp) (consts : Consts) (dst : VarId) :
    Option FoldedConst → SsaOp × Consts
  | some c => (op.loadConst c, consts.insert dst c)
  | none => (op, consts)

def SsaOp.foldIntsAt (op : SsaOp) (consts : Consts) (dst lhs rhs : VarId) : SsaOp × Consts :=
  op.foldWith consts dst do foldInts op.name (← consts.vals lhs) (← consts.vals rhs)

def SsaOp.foldDoublesAt (op : SsaOp) (consts : Consts) (dst lhs rhs : VarId) : SsaOp × Consts :=
  op.foldWith consts dst do foldDoubles op.name (← consts.doubles lhs) (← consts.doubles rhs)

/-- First on integers, then on doubles. -/
def foldOp (consts : Consts) (op : SsaOp) : SsaOp × Consts :=
  match op.dst, op.operands[1]?, op.operands[2]? with
  | some dst, some (SsaOperand.var lhs), some (SsaOperand.var rhs) =>
    let r := op.foldIntsAt consts dst lhs rhs
    r.1.foldDoublesAt r.2 dst lhs rhs
  | _, _, _ => (op, consts)

def foldOps : Consts → List SsaOp → List SsaOp × Consts
  | consts, [] => ([], consts)
  | consts, op :: ops =>
    let r := foldOp consts op
    let rest := foldOps r.2 ops
    (r.1 :: rest.1, rest.2)

def foldBlocks : Consts → List SsaBlock → List SsaBlock
  | _, [] => []
  | consts, b :: blocks =>
    let r := foldOps consts b.ops
    { b with ops := r.1 } :: foldBlocks r.2 blocks

/-- The variables that take part in a phi. -/
def SsaFunction.phiVars (s : SsaFunction) : List VarId :=
  s.phis.flatMap fun phi => phi.dst :: phi.args.map Prod.snd

def SsaOp.constVal (op : SsaOp) : Option Int :=
  match op.name, op.operands[1]? with
  | "LoadConstZero", _ => some 0
  | "LoadConstUInt8", some (SsaOperand.const n) | "LoadConstInt", some (SsaOperand.const n) => some n
  | _, _ => none

def SsaOp.constDouble (op : SsaOp) : Option UInt64 :=
  match op.name, op.operands[1]? with
  | "LoadConstDouble", some (SsaOperand.constDouble bits) => some bits
  | _, _ => none

def SsaFunction.loadedConsts (s : SsaFunction) : Consts where
  vals v := if s.phiVars.contains v then none else lastDef s.ops SsaOp.constVal v
  doubles v := if s.phiVars.contains v then none else lastDef s.ops SsaOp.constDouble v

def constantFolding (s : SsaFunction) : SsaFunction := ⟨foldBlocks s.loadedConsts s.blocks⟩

theorem SsaOp.IsExit.settled {op : SsaOp} (h : op.IsExit) : Settled op.name := by
  rcases h with h | h
  · exact Or.inl h
  · exact Or.inr (Or.inl h)

def deadCodeElimination (s : SsaFunction) : SsaFunction :=
  ⟨s.blocks.map fun b =>
    { b with
      ops := b.ops.filter fun op =>
        match op.dst with
        | none => true
        | some dst => hasSideEffects op.name || s.countUses dst > 0
      phis := b.phis.filter fun phi => s.countUses phi.dst > 0 }⟩

theorem SsaOp.IsExit.hasSideEffects {op : SsaOp} (h : op.IsExit) :
    hasSideEffects op.name = true := by
  rcases h with h | h <;> rw [h] <;> decide

theorem SsaFunction.ReadAtExit.one_le_countUses {s : SsaFunction} {v : VarId}
    (h : s.ReadAtExit v) : 1 ≤ s.countUses v := by
  obtain ⟨id, op, hop, -, hv⟩ := h
  exact Hermes.Decompile.one_le_countUses (mem_ops_of_lastOp? hop) hv

end Hermes.Decompile
