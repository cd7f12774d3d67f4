-- SUMMARY: The condition and the targets of a conditional branch, and the jumps they are right for.
import DroidsawHermes.Decompile.BuiltOperands
import DroidsawHermes.Structure.BuildExpr
import DroidsawHermes.Structure.Conditions

/-!
# Branch polarity

`conditional_branch` of `decompile/region.rs` with `extract_condition` of
`decompile/structure.rs`, against what the jumps test.
-/

namespace Hermes.Structure

open Decompile

/-! ## The condition of a block -/

/-- The operators by what a name contains, most specific first. -/
def compareTests : List (String × String) :=
  [
    ("StrictEqual", "==="), ("StrictNotEqual", "!=="), ("NotGreaterEqual", "<"),
    ("NotLessEqual", ">"), ("GreaterEqual", ">="), ("LessEqual", "<="), ("NotGreater", "<="),
    ("NotLess", ">="), ("Greater", ">"), ("Less", "<"), ("NotEqual", "!="), ("Equal", "==")]

def compareOp (name : String) : String :=
  ((compareTests.find? fun t => containsText name t.1).map Prod.snd).getD "??"

def varCondition (make : VarId → Condition) : Option SsaOperand → Option Condition
  | some (.var v) => some (make v)
  | _ => none

def extractCondition (b : SsaBlock) : Option Condition :=
  match b.ops.getLast? with
  | none => none
  | some last =>
    if last.name = "JmpTrue" ∨ last.name = "JmpTrueLong" then
      varCondition .truthy last.operands[1]?
    else if last.name = "JmpFalse" ∨ last.name = "JmpFalseLong" then
      varCondition .falsy last.operands[1]?
    else if last.name = "JmpUndefined" ∨ last.name = "JmpUndefinedLong" then
      varCondition .isUndefined last.operands[1]?
    else if last.name = "JmpTypeOfIs" then varCondition .truthy last.operands[1]?
    else if last.name.front? = some 'J' ∧ last.name ≠ "Jmp" ∧ last.name ≠ "JmpLong" then
      match last.operands[1]?, last.operands[2]? with
      | some (SsaOperand.var l), some (SsaOperand.var r) => some (.compare (compareOp last.name) l r)
      | _, _ => none
    else none

/-! ## The branch of a block -/

structure CondBranch where
  thenTarget : Option BlockId
  elseTarget : Option BlockId
  cond : Option Condition
  deriving DecidableEq, Repr

def isNegatedJump (name : String) : Bool := containsText name "False" || containsText name "Not"

def conditionalBranch (ssa : SsaFunction) (block : BlockId) : CondBranch :=
  match ssa.block? block with
  | none => ⟨none, none, none⟩
  | some b =>
    match b.ops.getLast? with
    | none => ⟨none, none, none⟩
    | some last =>
      let target := last.original.branchTarget
      let other := b.successors.find? fun s => some s ≠ target
      if isNegatedJump last.name then
        ⟨other, target, (extractCondition b).map negateCondition⟩
      else ⟨target, other, extractCondition b⟩

/-! ## What the jumps test -/

/-- The test of a conditional jump. -/
inductive BranchTest where
  | truthy
  | falsy
  | undefined
  | compare (op : String) (negated : Bool)
  | typeOf
  | builtin (negated : Bool)
  deriving DecidableEq, Repr

/-- The conditional jumps of all versions. -/
def branchTests : List (String × BranchTest) :=
  [
    ("JmpTrue", .truthy), ("JmpTrueLong", .truthy), ("JmpFalse", .falsy), ("JmpFalseLong", .falsy),
    ("JmpUndefined", .undefined), ("JmpUndefinedLong", .undefined),
    ("JLess", .compare "<" false), ("JLessLong", .compare "<" false),
    ("JLessN", .compare "<" false), ("JLessNLong", .compare "<" false),
    ("JNotLess", .compare "<" true), ("JNotLessLong", .compare "<" true),
    ("JNotLessN", .compare "<" true), ("JNotLessNLong", .compare "<" true),
    ("JLessEqual", .compare "<=" false), ("JLessEqualLong", .compare "<=" false),
    ("JLessEqualN", .compare "<=" false), ("JLessEqualNLong", .compare "<=" false),
    ("JNotLessEqual", .compare "<=" true), ("JNotLessEqualLong", .compare "<=" true),
    ("JNotLessEqualN", .compare "<=" true), ("JNotLessEqualNLong", .compare "<=" true),
    ("JGreater", .compare ">" false), ("JGreaterLong", .compare ">" false),
    ("JGreaterN", .compare ">" false), ("JGreaterNLong", .compare ">" false),
    ("JNotGreater", .compare ">" true), ("JNotGreaterLong", .compare ">" true),
    ("JNotGreaterN", .compare ">" true), ("JNotGreaterNLong", .compare ">" true),
    ("JGreaterEqual", .compare ">=" false), ("JGreaterEqualLong", .compare ">=" false),
    ("JGreaterEqualN", .compare ">=" false), ("JGreaterEqualNLong", .compare ">=" false),
    ("JNotGreaterEqual", .compare ">=" true), ("JNotGreaterEqualLong", .compare ">=" true),
    ("JNotGreaterEqualN", .compare ">=" true), ("JNotGreaterEqualNLong", .compare ">=" true),
    ("JEqual", .compare "==" false), ("JEqualLong", .compare "==" false),
    ("JNotEqual", .compare "==" true), ("JNotEqualLong", .compare "==" true),
    ("JStrictEqual", .compare "===" false), ("JStrictEqualLong", .compare "===" false),
    ("JStrictNotEqual", .compare "===" true), ("JStrictNotEqualLong", .compare "===" true),
    ("JmpTypeOfIs", .typeOf), ("JmpBuiltinIs", .builtin false),
    ("JmpBuiltinIsLong", .builtin false), ("JmpBuiltinIsNot", .builtin true),
    ("JmpBuiltinIsNotLong", .builtin true)]

namespace BranchTest

/-- The operand types of a jump with this test. -/
def rows : BranchTest → List (List OpType)
  | .truthy | .falsy | .undefined => [[.A1, .R], [.A4, .R]]
  | .compare _ _ => [[.A1, .R, .R], [.A4, .R, .R]]
  | .typeOf => [[.A4, .R, .U2]]
  | .builtin _ => [[.A1, .U1, .R], [.A4, .U1, .R]]

/-- The operands of a jump with this test. -/
inductive Fits : BranchTest → List SsaOperand → Prop where
  | truthy (t : SsaOperand) (v : VarId) : Fits .truthy [t, .var v]
  | falsy (t : SsaOperand) (v : VarId) : Fits .falsy [t, .var v]
  | undefined (t : SsaOperand) (v : VarId) : Fits .undefined [t, .var v]
  | compare (op : String) (negated : Bool) (t : SsaOperand) (l r : VarId) :
    Fits (.compare op negated) [t, .var l, .var r]
  | typeOf (t : SsaOperand) (v : VarId) (mask : Int) : Fits .typeOf [t, .var v, .const mask]
  | builtin (negated : Bool) (t : SsaOperand) (id : Int) (v : VarId) :
    Fits (.builtin negated) [t, .const id, .var v]

/-- The jump is taken, where the variables have these values. -/
def taken {Value : Type} (js : Js Value) (env : VarId → Value) :
    BranchTest → List SsaOperand → Bool
  | .truthy, [_, .var v] => js.truthy (env v)
  | .falsy, [_, .var v] => !js.truthy (env v)
  | .undefined, [_, .var v] => js.isUndefined (env v)
  | .compare op negated, [_, .var l, .var r] => js.compare op (env l) (env r) ^^ negated
  | .typeOf, [_, .var v, .const mask] => (constTagToU16 mask).testBit (js.typeBit (env v))
  | .builtin negated, [_, .const id, .var v] => js.isBuiltin (asU32 id) (env v) ^^ negated
  | _, _ => false

end BranchTest

/-! ## The table of jumps -/

/-- Every conditional jump of every version is in the table. -/
theorem branchTests_complete : schemaRows.all (fun r => r.1.front? != some 'J' || r.1 == "Jmp" ||
    r.1 == "JmpLong" || branchTests.any fun t => t.1 == r.1 && t.2.rows.contains r.2) = true := by
  decide +kernel

/-- The names with an arm of their own in `extract_condition`. -/
def namedJumps : List String :=
  ["JmpTrue", "JmpTrueLong", "JmpFalse", "JmpFalseLong", "JmpUndefined", "JmpUndefinedLong",
    "JmpTypeOfIs"]

/-- A name that only the comparisons have an arm for. -/
def isCompareName (name : String) : Bool :=
  !namedJumps.contains name && name.front? == some 'J' && name != "Jmp" && name != "JmpLong"

/-- What the name tests of the source read off a name, by the test of the jump. -/
def readsAs (name : String) : BranchTest → Bool
  | .truthy => ["JmpTrue", "JmpTrueLong"].contains name && !isNegatedJump name
  | .falsy => ["JmpFalse", "JmpFalseLong"].contains name && isNegatedJump name
  | .undefined => ["JmpUndefined", "JmpUndefinedLong"].contains name && !isNegatedJump name
  | .compare op negated =>
    isCompareName name && isNegatedJump name == negated &&
      (if negated then negatedOp (compareOp name) else compareOp name) == op
  | .typeOf => name == "JmpTypeOfIs" && !isNegatedJump name
  | .builtin _ => isCompareName name

theorem readsAs_branchTests : branchTests.all (fun t => readsAs t.1 t.2) = true := by
  decide

theorem readsAs_of_mem {name : String} {test : BranchTest} (h : (name, test) ∈ branchTests) :
    readsAs name test = true :=
  List.all_eq_true.mp readsAs_branchTests _ h

/-! ## Built jumps -/

section Built

variable {types : List OpType} {inst : DecodedInst} {op : SsaOp}

theorem hasPlainOperands_branchTests :
    branchTests.all (fun t => t.1.front? == some 'J' && hasPlainOperands t.1) = true := by
  decide

theorem test_of_isConditionalBranch (hdec : Decoded types inst)
    (hjump : inst.isConditionalBranch = true) :
    ∃ test, (inst.name, test) ∈ branchTests ∧ types ∈ test.rows := by
  have hrow := List.all_eq_true.mp branchTests_complete _ hdec.row
  simp only [DecodedInst.isConditionalBranch, ← String.front?_eq, Bool.and_eq_true,
    decide_eq_true_eq] at hjump
  obtain ⟨⟨hfront, hjmp⟩, hlong⟩ := hjump
  simp only [hfront, hjmp, hlong, bne_self_eq_false, beq_eq_false_iff_ne.mpr, ne_eq,
    not_false_eq_true, Bool.or_false, Bool.false_or] at hrow
  obtain ⟨⟨name, test⟩, hmem, heq⟩ := List.any_eq_true.mp hrow
  simp only [Bool.and_eq_true, beq_iff_eq, List.contains_iff_mem] at heq
  obtain ⟨rfl, htypes⟩ := heq
  exact ⟨test, hmem, htypes⟩

/-- The operands of a jump are those of its test. -/
theorem fits_of_builtFrom (hdec : Decoded types inst) (hbuilt : BuiltFrom types inst op)
    (hjump : inst.isConditionalBranch = true) :
    ∃ test, (op.name, test) ∈ branchTests ∧ test.Fits op.operands := by
  obtain ⟨test, hmem, htypes⟩ := test_of_isConditionalBranch hdec hjump
  have hname := List.all_eq_true.mp hasPlainOperands_branchTests _ hmem
  simp only [Bool.and_eq_true, beq_iff_eq] at hname
  obtain ⟨hfront, hplain⟩ := hname
  have hhead : inst.name.toList.head? = some 'J' := String.front?_eq ▸ hfront
  have hdst : classifyInst types inst = none := by
    have hstarts : noDstPrefixes.any (startsWith inst.name) = true := by
      refine List.any_eq_true.mpr ⟨"J", by simp [noDstPrefixes], ?_⟩
      obtain ⟨rest, hrest⟩ := List.head?_eq_some_iff.mp hhead
      simp [startsWith, hrest]
    rw [classifyInst, hstarts, Bool.or_true, Bool.true_or, if_pos rfl]
  have hargc : argcForResolve inst = none := argcForResolve_of_front? (by simp [hfront])
  have hops := plain_operands hdec hbuilt hdst hargc hplain
  refine ⟨test, hbuilt.name ▸ hmem, ?_⟩
  generalize op.operands = operands at hops
  cases test
  all_goals
    simp only [BranchTest.rows, List.mem_cons, List.not_mem_nil, or_false] at htypes
    first | (subst htypes) | (rcases htypes with rfl | rfl)
  all_goals
    simp only [List.forall₂_cons_left_iff, List.forall₂_nil_left_iff, PlainOperand] at hops
  case truthy.inl | truthy.inr =>
    obtain ⟨t, _, -, ⟨_, _, ⟨v, rfl⟩, rfl, rfl⟩, rfl⟩ := hops
    exact .truthy t v
  case falsy.inl | falsy.inr =>
    obtain ⟨t, _, -, ⟨_, _, ⟨v, rfl⟩, rfl, rfl⟩, rfl⟩ := hops
    exact .falsy t v
  case undefined.inl | undefined.inr =>
    obtain ⟨t, _, -, ⟨_, _, ⟨v, rfl⟩, rfl, rfl⟩, rfl⟩ := hops
    exact .undefined t v
  case compare.inl | compare.inr =>
    obtain ⟨t, _, -, ⟨_, _, ⟨l, rfl⟩, ⟨_, _, ⟨r, rfl⟩, rfl, rfl⟩, rfl⟩, rfl⟩ := hops
    exact .compare _ _ t l r
  case typeOf =>
    obtain ⟨t, _, -, ⟨_, _, ⟨v, rfl⟩, ⟨_, _, ⟨mask, rfl⟩, rfl, rfl⟩, rfl⟩, rfl⟩ := hops
    exact .typeOf t v mask
  case builtin.inl | builtin.inr =>
    obtain ⟨t, _, -, ⟨_, _, ⟨i, rfl⟩, ⟨_, _, ⟨v, rfl⟩, rfl, rfl⟩, rfl⟩, rfl⟩ := hops
    exact .builtin _ t i v

/-- Renaming the variables of a jump, as the passes do, keeps its operands in their places. -/
theorem BranchTest.Fits.rename {test : BranchTest} {operands : List SsaOperand}
    (h : test.Fits operands) (σ : VarId → VarId) :
    test.Fits (operands.map (SsaOperand.mapVar σ)) := by
  cases h <;> constructor

end Built

/-! ## The condition of a jump -/

section Condition

variable {b : SsaBlock} {op : SsaOp}

theorem extractCondition_of_isCompareName (hlast : b.ops.getLast? = some op)
    (hname : isCompareName op.name = true) :
    extractCondition b =
      match op.operands[1]?, op.operands[2]? with
      | some (SsaOperand.var l), some (SsaOperand.var r) => some (.compare (compareOp op.name) l r)
      | _, _ => none := by
  simp only [isCompareName, namedJumps, Bool.and_eq_true, Bool.not_eq_true', bne_iff_ne, ne_eq,
    beq_iff_eq, List.contains_eq_mem, List.mem_cons, List.not_mem_nil, or_false, decide_eq_false_iff_not,
    not_or] at hname
  obtain ⟨⟨⟨⟨h1, h2, h3, h4, h5, h6, h7⟩, hfront⟩, hjmp⟩, hlong⟩ := hname
  have harm : op.name.front? = some 'J' ∧ op.name ≠ "Jmp" ∧ op.name ≠ "JmpLong" :=
    ⟨hfront, hjmp, hlong⟩
  simp only [extractCondition, hlast, h1, h2, h3, h4, h5, h6, h7, or_self, if_false, if_pos harm]

/-- The condition that is read off a jump. -/
def BranchTest.condition (name : String) : BranchTest → List SsaOperand → Option Condition
  | .truthy, [_, .var v] | .typeOf, [_, .var v, _] => some (.truthy v)
  | .falsy, [_, .var v] => some (.falsy v)
  | .undefined, [_, .var v] => some (.isUndefined v)
  | .compare _ _, [_, .var l, .var r] => some (.compare (compareOp name) l r)
  | _, _ => none

theorem extractCondition_of_fits {test : BranchTest} (hlast : b.ops.getLast? = some op)
    (htest : (op.name, test) ∈ branchTests) (hfits : test.Fits op.operands) :
    extractCondition b = test.condition op.name op.operands := by
  have hreads := readsAs_of_mem htest
  obtain ⟨name, dst, operands, original⟩ := op
  cases hfits
  case truthy t v | falsy t v | undefined t v =>
    simp only [readsAs, Bool.and_eq_true, List.contains_eq_mem, List.mem_cons, List.not_mem_nil,
      or_false, decide_eq_true_eq] at hreads
    rcases hreads.1 with rfl | rfl <;>
      simp [extractCondition, hlast, varCondition, BranchTest.condition]
  case typeOf t v mask =>
    simp only [readsAs, Bool.and_eq_true, beq_iff_eq] at hreads
    obtain ⟨rfl, -⟩ := hreads
    simp [extractCondition, hlast, varCondition, BranchTest.condition]
  case compare cmp negated t l r =>
    simp only [readsAs, Bool.and_eq_true] at hreads
    rw [extractCondition_of_isCompareName hlast hreads.1.1]
    rfl
  case builtin negated t id v =>
    rw [extractCondition_of_isCompareName hlast hreads]
    rfl

end Condition

/-! ## Polarity -/

/-- A block that ends with a conditional jump and has two successors. -/
structure BranchBlock (ssa : SsaFunction) (id : BlockId) (op : SsaOp) (test : BranchTest)
    (target other : BlockId) : Prop where
  ends : ∃ b, ssa.block? id = some b ∧ b.ops.getLast? = some op ∧
    (b.successors = [target, other] ∨ b.successors = [other, target])
  listed : (op.name, test) ∈ branchTests
  fits : test.Fits op.operands
  jumps : op.original.branchTarget = some target
  distinct : target ≠ other

section Polarity

variable {Value : Type} (js : Js Value) (ssa : SsaFunction) (id : BlockId) (op : SsaOp)
  (test : BranchTest) (target other : BlockId)

/-- Where the jump goes. -/
def BranchTest.goesTo (env : VarId → Value) : BlockId :=
  if test.taken js env op.operands then target else other

/-- The condition is true exactly when the then target comes next, and false exactly when
the else target does. -/
def PolarityRight : Prop :=
  ∃ cond thenTarget elseTarget,
    conditionalBranch ssa id = ⟨some thenTarget, some elseTarget, some cond⟩ ∧
    ∀ env, (js.holds env cond = true ↔ test.goesTo js op target other env = thenTarget) ∧
      (js.holds env cond = false ↔ test.goesTo js op target other env = elseTarget)

/-- The jumps whose test is no condition on one or two variables. -/
def misjudgedJumps : List String :=
  ["JmpTypeOfIs", "JmpBuiltinIs", "JmpBuiltinIsLong", "JmpBuiltinIsNot", "JmpBuiltinIsNotLong"]

variable {js ssa id op test target other}

theorem conditionalBranch_eq (h : BranchBlock ssa id op test target other) :
    ∃ b, b.ops.getLast? = some op ∧
      conditionalBranch ssa id =
        if isNegatedJump op.name then
          ⟨some other, some target, (extractCondition b).map negateCondition⟩
        else ⟨some target, some other, extractCondition b⟩ := by
  obtain ⟨b, hb, hlast, hsuccs⟩ := h.ends
  have hother : (b.successors.find? fun s => some s ≠ op.original.branchTarget) = some other := by
    rw [h.jumps]
    have hne := h.distinct
    rcases hsuccs with hsuccs | hsuccs <;> simp [hsuccs, hne.symm]
  refine ⟨b, hlast, ?_⟩
  simp only [conditionalBranch, hb, hlast]
  rw [hother, h.jumps]

/-- The polarity is right when the condition agrees with the jump, up to the swap. -/
theorem polarityRight_of_holds (h : BranchBlock ssa id op test target other) {b : SsaBlock}
    {cond : Condition}
    (heq : conditionalBranch ssa id =
      if isNegatedJump op.name then
        ⟨some other, some target, (extractCondition b).map negateCondition⟩
      else ⟨some target, some other, extractCondition b⟩)
    (hcond : extractCondition b = some cond)
    (hholds : ∀ env, test.taken js env op.operands =
      if isNegatedJump op.name then !js.holds env (negateCondition cond) else js.holds env cond) :
    PolarityRight js ssa id op test target other := by
  have hne := h.distinct
  rw [hcond] at heq
  cases hneg : isNegatedJump op.name with
  | true =>
    simp only [hneg, if_true] at heq hholds
    refine ⟨negateCondition cond, other, target, heq, fun env => ?_⟩
    rw [BranchTest.goesTo, hholds env]
    cases js.holds env (negateCondition cond) <;> simp [hne, hne.symm]
  | false =>
    simp only [hneg, Bool.false_eq_true, if_false] at heq hholds
    refine ⟨cond, target, other, heq, fun env => ?_⟩
    rw [BranchTest.goesTo, hholds env]
    cases js.holds env cond <;> simp [hne, hne.symm]

/-- The opposite of an order test is not its negation, but it is negated twice. -/
theorem holds_negate_compare (env : VarId → Value) {name op : String} {negated : Bool} {l r : VarId}
    (hop : (if negated then negatedOp (compareOp name) else compareOp name) = op) :
    (js.compare op (env l) (env r) ^^ negated) =
      if negated then !js.holds env (negateCondition (.compare (compareOp name) l r))
      else js.holds env (.compare (compareOp name) l r) := by
  subst hop
  cases negated <;> simp [negateCondition, Js.holds]

theorem polarityRight_of_not_mem (h : BranchBlock ssa id op test target other)
    (hname : op.name ∉ misjudgedJumps) : PolarityRight js ssa id op test target other := by
  obtain ⟨b, hlast, heq⟩ := conditionalBranch_eq h
  have hextract := extractCondition_of_fits hlast h.listed h.fits
  have hreads := readsAs_of_mem h.listed
  have hfits := h.fits
  generalize hoperands : op.operands = operands at hfits hextract
  cases hfits with
  | truthy t v =>
    simp only [readsAs, Bool.and_eq_true, Bool.not_eq_true'] at hreads
    refine polarityRight_of_holds h heq hextract fun env => ?_
    simp [hreads.2, hoperands, BranchTest.taken, Js.holds]
  | falsy t v =>
    simp only [readsAs, Bool.and_eq_true] at hreads
    refine polarityRight_of_holds h heq hextract fun env => ?_
    simp [hreads.2, hoperands, BranchTest.taken, negateCondition, Js.holds]
  | undefined t v =>
    simp only [readsAs, Bool.and_eq_true, Bool.not_eq_true'] at hreads
    refine polarityRight_of_holds h heq hextract fun env => ?_
    simp [hreads.2, hoperands, BranchTest.taken, Js.holds]
  | compare cmp negated t l r =>
    simp only [readsAs, Bool.and_eq_true, beq_iff_eq] at hreads
    refine polarityRight_of_holds h heq hextract fun env => ?_
    rw [hreads.1.2, hoperands]
    exact holds_negate_compare env hreads.2
  | typeOf t v mask =>
    simp only [readsAs, Bool.and_eq_true, beq_iff_eq] at hreads
    simp [misjudgedJumps, hreads.1] at hname
  | builtin negated t i v =>
    have hall : ∀ t ∈ branchTests, ∀ negated, t.2 = .builtin negated → t.1 ∈ misjudgedJumps := by
      decide
    exact absurd (hall _ h.listed negated rfl) hname

/-- A type test is no test of truth: zero and one are numbers both. -/
theorem not_polarityRight_typeOf (h : BranchBlock ssa id op .typeOf target other) :
    ¬ PolarityRight js ssa id op .typeOf target other := by
  rintro ⟨cond, thenTarget, elseTarget, hbranch, hholds⟩
  obtain ⟨b, hlast, heq⟩ := conditionalBranch_eq h
  have hextract := extractCondition_of_fits hlast h.listed h.fits
  have hreads := readsAs_of_mem h.listed
  simp only [readsAs, Bool.and_eq_true, Bool.not_eq_true'] at hreads
  have hfits := h.fits
  generalize hoperands : op.operands = operands at hfits hextract
  cases hfits with
  | typeOf t v mask =>
    simp only [heq, hreads.2, Bool.false_eq_true, if_false, hextract, BranchTest.condition,
      CondBranch.mk.injEq, Option.some.injEq] at hbranch
    obtain ⟨rfl, rfl, rfl⟩ := hbranch
    have hzero := (hholds fun _ => js.zero).1
    have hone := (hholds fun _ => js.one).1
    simp only [BranchTest.goesTo, hoperands, BranchTest.taken, js.numbers, Js.holds, js.zero_falsy,
      js.one_truthy, true_iff, Bool.false_eq_true, false_iff] at hzero hone
    exact hzero hone

/-- A test for a builtin has no condition. -/
theorem not_polarityRight_builtin {negated : Bool}
    (h : BranchBlock ssa id op (.builtin negated) target other) :
    ¬ PolarityRight js ssa id op (.builtin negated) target other := by
  rintro ⟨cond, thenTarget, elseTarget, hbranch, -⟩
  obtain ⟨b, hlast, heq⟩ := conditionalBranch_eq h
  have hextract := extractCondition_of_fits hlast h.listed h.fits
  have hfits := h.fits
  generalize op.operands = operands at hfits hextract
  cases hfits with
  | builtin _ t i v =>
    rw [heq, hextract] at hbranch
    split at hbranch <;> simp [BranchTest.condition] at hbranch

/-- The tests of the misjudged jumps. -/
theorem misjudged_tests : ∀ t ∈ branchTests, t.1 ∈ misjudgedJumps →
    t.2 = .typeOf ∨ t.2 = .builtin true ∨ t.2 = .builtin false := by
  decide

/-- The polarity is right exactly for the jumps on truth, undefined or a comparison. -/
theorem polarityRight_iff (h : BranchBlock ssa id op test target other) :
    PolarityRight js ssa id op test target other ↔ op.name ∉ misjudgedJumps := by
  refine ⟨fun hright hname => ?_, polarityRight_of_not_mem h⟩
  have htests : test = .typeOf ∨ test = .builtin true ∨ test = .builtin false :=
    misjudged_tests _ h.listed hname
  rcases htests with rfl | rfl | rfl
  · exact not_polarityRight_typeOf h hright
  · exact not_polarityRight_builtin h hright
  · exact not_polarityRight_builtin h hright

end Polarity

/-! ## Two blocks -/

/-- A jump at 0 to 9, or on to 6. -/
def jumpTo9 (name : String) (operand : SsaOperand) (raw : Operand) : SsaOp :=
  { name
    dst := none
    operands := [.blockTarget 9, .var ⟨1, 0⟩, operand]
    original := ⟨0, 6, name, [.addr 9, .reg 1, raw]⟩ }

def jumpBlock (op : SsaOp) : SsaFunction :=
  ⟨[{ id := 0, phis := [], ops := [op], successors := [9, 6], predecessors := [] }]⟩

/-- `JNotLess 9, r1, r2`. -/
def notLessJump : SsaOp := jumpTo9 "JNotLess" (.var ⟨2, 0⟩) (.reg 2)

/-- `JmpTypeOfIs 9, r1, 8`. -/
def typeOfJump : SsaOp := jumpTo9 "JmpTypeOfIs" (.const 8) (.uint 8)

theorem notLessJump_block :
    BranchBlock (jumpBlock notLessJump) 0 notLessJump (.compare "<" true) 9 6 where
  ends := ⟨_, rfl, rfl, Or.inl rfl⟩
  listed := by decide
  fits := .compare "<" true _ _ _
  jumps := by decide
  distinct := by decide

theorem typeOfJump_block : BranchBlock (jumpBlock typeOfJump) 0 typeOfJump .typeOf 9 6 where
  ends := ⟨_, rfl, rfl, Or.inl rfl⟩
  listed := by decide
  fits := .typeOf _ _ _
  jumps := by decide
  distinct := by decide

theorem notLess_polarityRight_iff :
    PolarityRight intJs (jumpBlock notLessJump) 0 notLessJump (.compare "<" true) 9 6 ↔
      notLessJump.name ∉ misjudgedJumps :=
  polarityRight_iff notLessJump_block

/-- The type of a variable is tested as its truth. -/
theorem typeOf_polarity_wrong :
    conditionalBranch (jumpBlock typeOfJump) 0 = ⟨some 9, some 6, some (.truthy ⟨1, 0⟩)⟩ ∧
    ¬ PolarityRight intJs (jumpBlock typeOfJump) 0 typeOfJump .typeOf 9 6 :=
  ⟨by decide, not_polarityRight_typeOf typeOfJump_block⟩

end Hermes.Structure
