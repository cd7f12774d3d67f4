-- SUMMARY: The statements made of returns and throws, and when they hold the value that the block leaves with.
import DroidsawHermes.Decompile.BuiltOperands
import DroidsawHermes.Decompile.Exits
import DroidsawHermes.Decompile.SsaForm
import DroidsawHermes.Structure.FoldMatches
import DroidsawHermes.Structure.Optimize
import DroidsawHermes.Structure.Stmt

/-!
# Values of returns and throws

Behind the patterns, the passes leave every return and throw as it is. A literal fold may drop
the operation that defines what it reads.
-/

namespace Hermes.Structure

open Decompile

/-! ## Literal folds as passes -/

namespace LiteralPass

end LiteralPass

/-- An operation that stays for the same variable; a return or throw stays as it is. -/
def KeepsExit (op op' : SsaOp) : Prop := op.Kept op' ∧ (op.IsExit → op' = op)

theorem KeepsExit.refl (op : SsaOp) : KeepsExit op op := ⟨SsaOp.Kept.refl op, fun _ => rfl⟩

namespace LiteralPass

end LiteralPass

/-! ## The other passes -/

section

variable (t : BufferTables) (getFuncName : Nat → String) (getBigint : Nat → Option String)

end

section

variable {t : BufferTables} {getFuncName : Nat → String} {getBigint : Nat → Option String}
  {s : SsaFunction}

end

/-! ## Built functions -/

section

variable {σ : Type} {B : CommonBuilder σ} {types : DecodedInst → List OpType}

end

/-! ## Statements of returns and throws -/

section

variable {t : BufferTables} {getFuncName : Nat → String} {getBigint : Nat → Option String}
  {s : SsaFunction} {id : BlockId} {op : SsaOp} {v : VarId}

end

end Hermes.Structure
