-- SUMMARY: What branch conditions mean for JavaScript values, and which of them `negate_condition` negates.
import DroidsawHermes.Structure.Stmt

/-!
# Conditions

The meaning of a printed condition, over any type of JavaScript values, and
`negate_condition` of `decompile/sugar.rs`.
-/

namespace Hermes.Structure

open Decompile

/-! ## Values -/

/-- What conditions and conditional jumps ask of JavaScript values. -/
structure Js (Value : Type) where
  truthy : Value → Bool
  isUndefined : Value → Bool
  looseEq : Value → Value → Bool
  strictEq : Value → Value → Bool
  /-- `IsLessThan`: nothing for operands that cannot be compared. -/
  less : Value → Value → Option Bool
  /-- The bit of the type, in the mask of a type test. -/
  typeBit : Value → Nat
  /-- The value is the builtin with this id. -/
  isBuiltin : Nat → Value → Bool
  /-- Any other operator between two values, as a condition. -/
  other : String → Value → Value → Bool
  zero : Value
  one : Value
  zero_falsy : truthy zero = false
  one_truthy : truthy one = true
  numbers : typeBit zero = typeBit one

namespace Js

variable {Value : Type} (js : Js Value)

/-- A comparison, by its operator. -/
def compare (op : String) (l r : Value) : Bool :=
  match op with
  | "===" => js.strictEq l r
  | "!==" => !js.strictEq l r
  | "==" => js.looseEq l r
  | "!=" => !js.looseEq l r
  | "<" => js.less l r = some true
  | ">" => js.less r l = some true
  | "<=" => js.less r l = some false
  | ">=" => js.less l r = some false
  | op => js.other op l r

/-- A condition, where the variables have these values. -/
def holds (env : VarId → Value) : Condition → Bool
  | .truthy v => js.truthy (env v)
  | .falsy v => !js.truthy (env v)
  | .compare op left right => js.compare op (env left) (env right)
  | .isUndefined v => js.isUndefined (env v)
  | .notUndefined v => !js.isUndefined (env v)

end Js

/-! ## Negation -/

def negatedOp (op : String) : String :=
  match op with
  | "===" => "!=="
  | "!==" => "==="
  | "==" => "!="
  | "!=" => "=="
  | "<" => ">="
  | ">=" => "<"
  | ">" => "<="
  | "<=" => ">"
  | op => op

def negateCondition : Condition → Condition
  | .truthy v => .falsy v
  | .falsy v => .truthy v
  | .compare op left right => .compare (negatedOp op) left right
  | .isUndefined v => .notUndefined v
  | .notUndefined v => .isUndefined v

/-- The operators that `negate_condition` has the negation of. -/
def equalityOps : List String := ["===", "!==", "==", "!="]

/-- The condition tests no order. -/
def Condition.Negatable : Condition → Prop
  | .compare op _ _ => op ∈ equalityOps
  | _ => True

instance (c : Condition) : Decidable c.Negatable := by
  cases c <;> unfold Condition.Negatable <;> infer_instance

variable {Value : Type} (js : Js Value) (env : VarId → Value)

theorem Js.holds_negateCondition {c : Condition} (h : c.Negatable) :
    js.holds env (negateCondition c) = !js.holds env c := by
  cases c with
  | compare op left right =>
    simp only [Condition.Negatable, equalityOps, List.mem_cons, List.not_mem_nil, or_false] at h
    rcases h with rfl | rfl | rfl | rfl <;> simp [negateCondition, negatedOp, holds, compare]
  | _ => simp [negateCondition, holds]

/-- The negation of a test that is no equality is none either. -/
theorem mem_equalityOps_of_negatedOp {op : String} (h : negatedOp op ∈ equalityOps) :
    op ∈ equalityOps := by
  unfold negatedOp at h
  split at h <;> first | exact h | (revert h; decide)

/-! ## Integers -/

/-- Integers and `undefined`, which cannot be compared. -/
def intJs : Js (Option Int) where
  truthy v := match v with
    | some n => n ≠ 0
    | none => false
  isUndefined v := v = none
  looseEq l r := l = r
  strictEq l r := l = r
  less l r := match l, r with
    | some m, some n => some (m < n)
    | _, _ => none
  typeBit v := if v = none then 0 else 1
  isBuiltin _ _ := false
  other _ _ _ := false
  zero := some 0
  one := some 1
  zero_falsy := rfl
  one_truthy := rfl
  numbers := rfl

/-- `undefined` is in no order with itself. -/
theorem intJs_compare_undefined {op : String} (h : op ∉ equalityOps) :
    intJs.compare op none none = false := by
  unfold Js.compare
  split <;> first | rfl | exact absurd (by decide) h

end Hermes.Structure
