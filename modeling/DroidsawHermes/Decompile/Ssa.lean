-- SUMMARY: The SSA form of a function: variables with their textual form, operations, phis and blocks.
import Mathlib
import DroidsawHermes.Decompile.Cfg

/-!
# SSA functions

The data of `decompile/ssa.rs`: SSA variables and operands, phis, blocks and
functions.
-/

namespace Hermes.Decompile

/-! ## Variables -/

/-- An SSA variable: a register and a version. -/
structure VarId where
  reg : Nat
  ver : Nat
  deriving DecidableEq, Repr

/-- By register, then by version. -/
instance : LinearOrder VarId :=
  LinearOrder.lift' (fun v : VarId => toLex (v.reg, v.ver)) fun v w h => by
    cases v
    cases w
    cases h
    rfl

/-- `Display for VarId`. -/
def VarId.display (v : VarId) : String := "r" ++ Nat.repr v.reg ++ "_" ++ Nat.repr v.ver

theorem underscore_not_mem_repr (n : Nat) : '_' ∉ (Nat.repr n).toList := by
  intro h
  have hdigit : Char.isDigit '_' = true := by
    apply Nat.isDigit_of_mem_toDigits (b := 10) (n := n) (by decide) (by decide)
    simp only [Nat.repr, String.toList_ofList] at h
    exact h
  exact absurd hdigit (by decide)

/-- The first underscore ends the register. -/
theorem VarId.display_injective : Function.Injective VarId.display := by
  rintro ⟨r, v⟩ ⟨r', v'⟩ h
  have hlist := congrArg String.toList h
  have hsplit : ∀ x y : Nat, (VarId.display ⟨x, y⟩).toList =
      ('r' :: (Nat.repr x).toList) ++ '_' :: (Nat.repr y).toList := by
    intro x y
    simp [VarId.display]
  have hno : ∀ n : Nat, '_' ∉ 'r' :: (Nat.repr n).toList := by
    intro n hmem
    rcases List.mem_cons.mp hmem with heq | hmem
    · exact absurd heq (by decide)
    · exact underscore_not_mem_repr n hmem
  rw [hsplit, hsplit, List.append_cons_inj_of_notMem (hno r) (underscore_not_mem_repr v)] at hlist
  obtain ⟨hreg, -, hver⟩ := hlist
  rw [Nat.repr_injective (String.toList_inj.mp (List.cons.inj hreg).2),
    Nat.repr_injective (String.toList_inj.mp hver)]

/-! ## Operations -/

inductive SsaOperand where
  | var (v : VarId)
  | dstPlaceholder
  | const (n : Int)
  | constDouble (bits : UInt64)
  | stringId (id : Nat)
  | funcId (id : Nat)
  | blockTarget (b : BlockId)
  | resolvedString (s : String)
  | resolvedBigInt (s : String)
  deriving DecidableEq, Repr

structure SsaOp where
  name : String
  dst : Option VarId
  operands : List SsaOperand
  original : DecodedInst
  deriving DecidableEq, Repr

/-- A phi, with one argument for each edge into its block. -/
structure Phi where
  dst : VarId
  args : List (BlockId × VarId)
  deriving DecidableEq, Repr

structure SsaBlock where
  id : BlockId
  phis : List Phi
  ops : List SsaOp
  successors : List BlockId
  predecessors : List BlockId
  deriving DecidableEq, Repr

structure SsaFunction where
  blocks : List SsaBlock
  deriving DecidableEq, Repr

def SsaOperand.var? : SsaOperand → Option VarId
  | .var v => some v
  | _ => none

/-- The variables an operation reads. -/
def SsaOp.reads (op : SsaOp) : List VarId := op.operands.filterMap SsaOperand.var?

end Hermes.Decompile
