-- SUMMARY: The opcodes of all versions with their operand types, and the operands that SSA construction gives their instructions.
import DroidsawHermes.Decompile.BuildSsa

/-!
# Operands of built operations

The rows of `decompile/schemas.rs` for all versions, each once, and what `build_ssa`
makes of the operands of an instruction that one of them decodes.
-/

namespace Hermes.Decompile

/-! ## Opcodes of all versions -/

/-- Stores of a value under a string id. -/
def byIdRows : List (String × List OpType) :=
  [
    ("PutById", [.R, .R, .U1, .U2]), ("PutByIdLong", [.R, .R, .U1, .U4]),
    ("TryPutById", [.R, .R, .U1, .U2]), ("TryPutByIdLong", [.R, .R, .U1, .U4]),
    ("PutNewOwnByIdShort", [.R, .R, .U1]), ("PutNewOwnById", [.R, .R, .U2]),
    ("PutNewOwnByIdLong", [.R, .R, .U4]), ("PutNewOwnNEById", [.R, .R, .U2]),
    ("PutNewOwnNEByIdLong", [.R, .R, .U4]), ("PutByIdLoose", [.R, .R, .U1, .U2]),
    ("PutByIdStrict", [.R, .R, .U1, .U2]), ("PutByIdLooseLong", [.R, .R, .U1, .U4]),
    ("PutByIdStrictLong", [.R, .R, .U1, .U4]), ("TryPutByIdLoose", [.R, .R, .U1, .U2]),
    ("TryPutByIdStrict", [.R, .R, .U1, .U2]), ("TryPutByIdLooseLong", [.R, .R, .U1, .U4]),
    ("TryPutByIdStrictLong", [.R, .R, .U1, .U4]), ("DefineOwnById", [.R, .R, .U1, .U2]),
    ("DefineOwnByIdLong", [.R, .R, .U1, .U4])]

/-- Stores of a value at an index. -/
def byIndexRows : List (String × List OpType) :=
  [
    ("PutOwnByIndex", [.R, .R, .U1]), ("PutOwnByIndexL", [.R, .R, .U4]),
    ("PutOwnBySlotIdx", [.R, .R, .U1]), ("PutOwnBySlotIdxLong", [.R, .R, .U4]),
    ("DefineOwnInDenseArray", [.R, .R, .U1]), ("DefineOwnInDenseArrayL", [.R, .R, .U2])]

/-- Stores with the key in front of the value. -/
def keyValueRows : List (String × List OpType) :=
  [
    ("PutByVal", [.R, .R, .R]), ("PutByValLoose", [.R, .R, .R]), ("PutByValStrict", [.R, .R, .R]),
    ("FastArrayStore", [.R, .R, .R])]

/-- Stores with the value in front of the key. -/
def valueKeyRows : List (String × List OpType) :=
  [
    ("PutOwnByVal", [.R, .R, .R, .U1]), ("DefineOwnByVal", [.R, .R, .R, .U1])]

/-- Stores of a value at the end. -/
def pushRows : List (String × List OpType) :=
  [
    ("FastArrayPush", [.R, .R]), ("FastArrayAppend", [.R, .R])]

/-- Stores of a getter and a setter. -/
def accessorRows : List (String × List OpType) :=
  [
    ("PutOwnGetterSetterByVal", [.R, .R, .R, .R, .U1]),
    ("DefineOwnGetterSetterByVal", [.R, .R, .R, .R, .U1])]

/-- Stores to a slot of an environment. -/
def environmentRows : List (String × List OpType) :=
  [
    ("StoreToEnvironment", [.R, .U1, .R]), ("StoreToEnvironmentL", [.R, .U2, .R]),
    ("StoreNPToEnvironment", [.R, .U1, .R]), ("StoreNPToEnvironmentL", [.R, .U2, .R])]

/-- Stores under a private symbol. -/
def privateRows : List (String × List OpType) :=
  [("AddOwnPrivateBySym", [.R, .R, .R]), ("PutOwnPrivateBySym", [.R, .R, .U1, .R])]

/-- Stores that have no arm in `build_expr` and `format_op`. -/
def unhandledRows : List (String × List OpType) :=
  [
    ("PutOwnByIdShort", [.R, .R, .U1]), ("PutOwnById", [.R, .R, .U2]),
    ("PutOwnByIdLong", [.R, .R, .U4]), ("DefineOwnByIndex", [.R, .R, .U1]),
    ("DefineOwnByIndexL", [.R, .R, .U4]), ("PutByValWithReceiver", [.R, .R, .R, .R, .U1])]

/-- The rows of the opcodes that `classify_inst` takes for stores. -/
def storeRows : List (String × List OpType) :=
  byIdRows ++ byIndexRows ++ keyValueRows ++ valueKeyRows ++ pushRows ++ accessorRows ++
    environmentRows ++ privateRows ++ unhandledRows

def otherRows : List (String × List OpType) :=
  [
    ("NewObjectWithBuffer", [.R, .U2, .U2, .U2, .U2]),
    ("NewObjectWithBufferLong", [.R, .U2, .U2, .U4, .U4]), ("NewObject", [.R]),
    ("NewArrayWithBuffer", [.R, .U2, .U2, .U2]), ("NewArrayWithBufferLong", [.R, .U2, .U2, .U4]),
    ("NewArray", [.R, .U2]), ("Mov", [.R, .R]), ("MovLong", [.R4, .R4]), ("Negate", [.R, .R]),
    ("Not", [.R, .R]), ("BitNot", [.R, .R]), ("TypeOf", [.R, .R]), ("Eq", [.R, .R, .R]),
    ("StrictEq", [.R, .R, .R]), ("Neq", [.R, .R, .R]), ("StrictNeq", [.R, .R, .R]),
    ("Less", [.R, .R, .R]), ("LessEq", [.R, .R, .R]), ("Greater", [.R, .R, .R]),
    ("GreaterEq", [.R, .R, .R]), ("Add", [.R, .R, .R]), ("AddN", [.R, .R, .R]),
    ("Mul", [.R, .R, .R]), ("MulN", [.R, .R, .R]), ("Div", [.R, .R, .R]), ("DivN", [.R, .R, .R]),
    ("Mod", [.R, .R, .R]), ("Sub", [.R, .R, .R]), ("SubN", [.R, .R, .R]), ("LShift", [.R, .R, .R]),
    ("RShift", [.R, .R, .R]), ("URshift", [.R, .R, .R]), ("BitAnd", [.R, .R, .R]),
    ("BitXor", [.R, .R, .R]), ("BitOr", [.R, .R, .R]), ("InstanceOf", [.R, .R, .R]),
    ("IsIn", [.R, .R, .R]), ("GetEnvironment", [.R, .U1]), ("LoadFromEnvironment", [.R, .R, .U1]),
    ("LoadFromEnvironmentL", [.R, .R, .U2]), ("GetGlobalObject", [.R]), ("CreateEnvironment", [.R]),
    ("DeclareGlobalVar", [.U4]), ("GetByIdShort", [.R, .R, .U1, .U1]),
    ("GetById", [.R, .R, .U1, .U2]), ("GetByIdLong", [.R, .R, .U1, .U4]),
    ("TryGetById", [.R, .R, .U1, .U2]), ("TryGetByIdLong", [.R, .R, .U1, .U4]),
    ("DelById", [.R, .R, .U2]), ("DelByIdLong", [.R, .R, .U4]), ("GetByVal", [.R, .R, .R]),
    ("DelByVal", [.R, .R, .R]), ("PutGetterSetter", [.R, .U4, .R, .R]),
    ("GetPNameList", [.R, .R, .R, .R]), ("GetNextPName", [.R, .R, .R, .R, .R]),
    ("Call", [.R, .R, .U1]), ("Construct", [.R, .R, .U1]), ("CallDirect", [.R, .U1, .U2]),
    ("CallLong", [.R, .R, .U4]), ("ConstructLong", [.R, .R, .U4]),
    ("CallDirectLongIndex", [.R, .U1, .U4]), ("CallBuiltin", [.R, .U1, .U1]), ("Ret", [.R]),
    ("Catch", [.R]), ("DirectEval", [.R, .R]), ("Throw", [.R]), ("Debugger", []),
    ("DebuggerCheckBreak", []), ("ProfilePoint", [.U2]), ("Unreachable", []),
    ("CreateClosure", [.R, .R, .U2]), ("CreateClosureLongIndex", [.R, .R, .U4]),
    ("CreateThis", [.R, .R, .R]), ("SelectObject", [.R, .R, .R]), ("LoadParam", [.R, .U1]),
    ("LoadParamLong", [.R, .U4]), ("LoadConstUInt8", [.R, .U1]), ("LoadConstInt", [.R, .I4]),
    ("LoadConstDouble", [.R, .D]), ("LoadConstString", [.R, .U2]),
    ("LoadConstStringLongIndex", [.R, .U4]), ("LoadConstUndefined", [.R]), ("LoadConstNull", [.R]),
    ("LoadConstTrue", [.R]), ("LoadConstFalse", [.R]), ("LoadConstZero", [.R]),
    ("CoerceThisNS", [.R, .R]), ("LoadThisNS", [.R]), ("ToNumber", [.R, .R]), ("ToInt32", [.R, .R]),
    ("AddEmptyString", [.R, .R]), ("GetArgumentsPropByVal", [.R, .R, .R]),
    ("GetArgumentsLength", [.R, .R]), ("ReifyArguments", [.R]),
    ("CreateRegExp", [.R, .U4, .U4, .U4]), ("SwitchImm", [.R, .U4, .A4, .U4, .U4]), ("Jmp", [.A1]),
    ("JmpLong", [.A4]), ("JmpTrue", [.A1, .R]), ("JmpTrueLong", [.A4, .R]), ("JmpFalse", [.A1, .R]),
    ("JmpFalseLong", [.A4, .R]), ("JmpUndefined", [.A1, .R]), ("JmpUndefinedLong", [.A4, .R]),
    ("JLess", [.A1, .R, .R]), ("JLessLong", [.A4, .R, .R]), ("JNotLess", [.A1, .R, .R]),
    ("JNotLessLong", [.A4, .R, .R]), ("JLessN", [.A1, .R, .R]), ("JLessNLong", [.A4, .R, .R]),
    ("JNotLessN", [.A1, .R, .R]), ("JNotLessNLong", [.A4, .R, .R]), ("JLessEqual", [.A1, .R, .R]),
    ("JLessEqualLong", [.A4, .R, .R]), ("JNotLessEqual", [.A1, .R, .R]),
    ("JNotLessEqualLong", [.A4, .R, .R]), ("JLessEqualN", [.A1, .R, .R]),
    ("JLessEqualNLong", [.A4, .R, .R]), ("JNotLessEqualN", [.A1, .R, .R]),
    ("JNotLessEqualNLong", [.A4, .R, .R]), ("JGreater", [.A1, .R, .R]),
    ("JGreaterLong", [.A4, .R, .R]), ("JNotGreater", [.A1, .R, .R]),
    ("JNotGreaterLong", [.A4, .R, .R]), ("JGreaterN", [.A1, .R, .R]),
    ("JGreaterNLong", [.A4, .R, .R]), ("JNotGreaterN", [.A1, .R, .R]),
    ("JNotGreaterNLong", [.A4, .R, .R]), ("JGreaterEqual", [.A1, .R, .R]),
    ("JGreaterEqualLong", [.A4, .R, .R]), ("JNotGreaterEqual", [.A1, .R, .R]),
    ("JNotGreaterEqualLong", [.A4, .R, .R]), ("JGreaterEqualN", [.A1, .R, .R]),
    ("JGreaterEqualNLong", [.A4, .R, .R]), ("JNotGreaterEqualN", [.A1, .R, .R]),
    ("JNotGreaterEqualNLong", [.A4, .R, .R]), ("JEqual", [.A1, .R, .R]),
    ("JEqualLong", [.A4, .R, .R]), ("JNotEqual", [.A1, .R, .R]), ("JNotEqualLong", [.A4, .R, .R]),
    ("JStrictEqual", [.A1, .R, .R]), ("JStrictEqualLong", [.A4, .R, .R]),
    ("JStrictNotEqual", [.A1, .R, .R]), ("JStrictNotEqualLong", [.A4, .R, .R]),
    ("Call1", [.R, .R, .R]), ("Call2", [.R, .R, .R, .R]), ("Call3", [.R, .R, .R, .R, .R]),
    ("Call4", [.R, .R, .R, .R, .R, .R]), ("GetNewTarget", [.R]), ("NewObjectWithParent", [.R, .R]),
    ("CreateGeneratorClosure", [.R, .R, .U2]), ("CreateGeneratorClosureLongIndex", [.R, .R, .U4]),
    ("StartGenerator", []), ("ResumeGenerator", [.R, .R]), ("CompleteGenerator", []),
    ("CreateGenerator", [.R, .R, .U2]), ("CreateGeneratorLongIndex", [.R, .R, .U4]),
    ("SaveGenerator", [.A1]), ("SaveGeneratorLong", [.A4]), ("ThrowIfUndefinedInst", [.R]),
    ("AsyncBreakCheck", []), ("IteratorBegin", [.R, .R]), ("IteratorNext", [.R, .R, .R]),
    ("IteratorClose", [.R, .U1]), ("CallBuiltinLong", [.R, .U1, .U4]),
    ("GetBuiltinClosure", [.R, .U1]), ("ThrowIfEmpty", [.R, .R]),
    ("CreateAsyncClosure", [.R, .R, .U2]), ("CreateAsyncClosureLongIndex", [.R, .R, .U4]),
    ("LoadConstEmpty", [.R]), ("Add32", [.R, .R, .R]), ("Sub32", [.R, .R, .R]),
    ("Mul32", [.R, .R, .R]), ("Divi32", [.R, .R, .R]), ("Divu32", [.R, .R, .R]),
    ("Loadi8", [.R, .R, .R]), ("Loadu8", [.R, .R, .R]), ("Loadi16", [.R, .R, .R]),
    ("Loadu16", [.R, .R, .R]), ("Loadi32", [.R, .R, .R]), ("Loadu32", [.R, .R, .R]),
    ("Store8", [.R, .R, .R]), ("Store16", [.R, .R, .R]), ("Store32", [.R, .R, .R]),
    ("Inc", [.R, .R]), ("Dec", [.R, .R]), ("LoadConstBigInt", [.R, .U2]),
    ("LoadConstBigIntLongIndex", [.R, .U4]), ("ToNumeric", [.R, .R]),
    ("GetArgumentsPropByValLoose", [.R, .R, .R]), ("GetArgumentsPropByValStrict", [.R, .R, .R]),
    ("ReifyArgumentsStrict", [.R]), ("ReifyArgumentsLoose", [.R]),
    ("CreateInnerEnvironment", [.R, .R, .U4]), ("ThrowIfHasRestrictedGlobalProperty", [.U4]),
    ("DirectEval", [.R, .R, .U1]), ("NewObjectWithBuffer", [.R, .U2, .U2]),
    ("NewObjectWithBufferLong", [.R, .U4, .U4]), ("AddS", [.R, .R, .R]),
    ("GetParentEnvironment", [.R, .U1]), ("GetEnvironment", [.R, .R, .U1]),
    ("GetClosureEnvironment", [.R, .R]), ("CreateFunctionEnvironment", [.R, .U1]),
    ("CreateTopLevelEnvironment", [.R, .U4]), ("CreateEnvironment", [.R, .R, .U4]),
    ("DelByIdLoose", [.R, .R, .U2]), ("DelByIdStrict", [.R, .R, .U2]),
    ("DelByIdLooseLong", [.R, .R, .U4]), ("DelByIdStrictLong", [.R, .R, .U4]),
    ("GetByIndex", [.R, .R, .U1]), ("DelByValLoose", [.R, .R, .R]),
    ("DelByValStrict", [.R, .R, .R]), ("CallWithNewTarget", [.R, .R, .R, .U1]),
    ("CallWithNewTargetLong", [.R, .R, .R, .R]), ("GetOwnBySlotIdx", [.R, .R, .U1]),
    ("GetOwnBySlotIdxLong", [.R, .R, .U4]), ("TypedLoadParent", [.R, .R]),
    ("TypedStoreParent", [.R, .R]), ("NewObjectWithBufferAndParent", [.R, .R, .U4, .U4]),
    ("NewTypedObjectWithBuffer", [.R, .R, .U4, .U4, .U1]), ("NewFastArray", [.R, .U2]),
    ("FastArrayLength", [.R, .R]), ("FastArrayLoad", [.R, .R, .R]),
    ("PrivateIsIn", [.R, .R, .R, .R]), ("TypeOfIs", [.R, .R, .U2]), ("LoadParentNoTraps", [.R, .R]),
    ("GetByIdWithReceiverLong", [.R, .R, .U1, .R, .U4]), ("GetByValWithReceiver", [.R, .R, .R, .R]),
    ("DelByVal", [.R, .R, .R, .U1]), ("GetOwnPrivateBySym", [.R, .R, .U1, .R]),
    ("CallRequire", [.R, .R, .U4]), ("ThrowIfUndefined", [.R, .R]),
    ("ThrowIfThisInitialized", [.R]), ("CreateBaseClass", [.R, .R, .R, .U2]),
    ("CreateBaseClassLongIndex", [.R, .R, .R, .U4]), ("CreateDerivedClass", [.R, .R, .R, .R, .U2]),
    ("CreateDerivedClassLongIndex", [.R, .R, .R, .R, .U4]), ("CreateThisForNew", [.R, .R, .U1]),
    ("CreateThisForSuper", [.R, .R, .R, .U1]), ("ToUint32", [.R, .R]),
    ("CreatePrivateName", [.R, .U4]), ("ToPropertyKey", [.R, .R]),
    ("UIntSwitchImm", [.R, .U4, .A4, .U4, .U4]), ("StringSwitchImm", [.R, .U4, .U4, .A4, .U4]),
    ("JmpTypeOfIs", [.A4, .R, .U2]), ("JmpBuiltinIs", [.A1, .U1, .R]),
    ("JmpBuiltinIsLong", [.A4, .U1, .R]), ("JmpBuiltinIsNot", [.A1, .U1, .R]),
    ("JmpBuiltinIsNotLong", [.A4, .U1, .R]), ("CacheNewObject", [.R, .R, .U4, .U1])]

/-- The rows of `V40_SCHEMAS` to `V99_SCHEMAS`, each once. -/
def schemaRows : List (String × List OpType) := storeRows ++ otherRows

/-- An instruction that a row decodes. -/
structure Decoded (types : List OpType) (inst : DecodedInst) : Prop where
  row : (inst.name, types) ∈ schemaRows
  operands : List.Forall₂ OpType.Decodes types inst.operands

theorem decoded_of_decodeAt {t : OpcodeTables} {code : List UInt8} {pos opcode : Nat}
    {inst : DecodedInst} (hrow : (t.instName opcode, (t.getSchema opcode).2) ∈ schemaRows)
    (h : decodeAt t code pos opcode = .ok inst) : Decoded (t.getSchema opcode).2 inst := by
  simp only [decodeAt] at h
  split at h
  · cases h
  · split at h
    · cases h
    · obtain ⟨operands, hoperands, hinst⟩ := Loop.bind_eq_ok.mp h
      cases hinst
      exact ⟨hrow, decodeOperands_decodes hoperands⟩

/-! ## Built operands -/

/-- The operation that `build_ssa` makes of an instruction. Each operand stands at its place,
with the variable that is read there; the arguments of the frame stand behind them. -/
structure BuiltFrom (types : List OpType) (inst : DecodedInst) (op : SsaOp) : Prop where
  name : op.name = inst.name
  operands : ∃ own args, op.operands = own ++ List.map SsaOperand.var args ∧
    List.Forall₂
      (fun x o => ∃ v, o = ssaOperand (fun _ => v) (classifyInst types inst) inst x.2 x.1)
      inst.operands.zipIdx own ∧
    (argcForResolve inst = none → args = [])

/-- Only calls read arguments in the frame. -/
theorem argcForResolve_of_front? {inst : DecodedInst} (h : inst.name.front? ≠ some 'C') :
    argcForResolve inst = none := by
  have hne : ∀ name ∈ ["Call", "CallLong", "CallDirect", "CallDirectLongIndex", "CallBuiltin",
      "CallBuiltinLong"], inst.name ≠ name := by
    rintro name hname rfl
    have hall : ∀ n ∈ ["Call", "CallLong", "CallDirect", "CallDirectLongIndex", "CallBuiltin",
        "CallBuiltinLong"], n.front? = some 'C' := by
      simp [String.front?_eq]
    exact h (hall _ hname)
  rw [argcForResolve, if_neg, if_neg, if_neg]
  · rintro (h | h) <;> exact hne _ (by simp) h
  · rintro (h | h) <;> exact hne _ (by simp) h
  · rintro (h | h) <;> exact hne _ (by simp) h

section Walk

variable {σ : Type} {B : CommonBuilder σ} {types : DecodedInst → List OpType} {g : SsaCfg}
  {bid : BlockId} {inst : DecodedInst}

theorem pushRead_operands {acc acc' : List SsaOperand × σ} {reg : Nat}
    (h : pushRead B g bid acc reg = .ok acc') : ∃ v, acc'.1 = acc.1 ++ [.var v] := by
  obtain ⟨⟨v, s⟩, -, h⟩ := Loop.bind_eq_ok.mp h
  cases h
  exact ⟨v, rfl⟩

theorem pushOperand_operands {acc acc' : List SsaOperand × σ} {dst : Option Nat}
    {x : Operand × Nat} (h : pushOperand B g bid dst inst acc x = .ok acc') :
    ∃ v, acc'.1 = acc.1 ++ [ssaOperand (fun _ => v) dst inst x.2 x.1] := by
  obtain ⟨o, i⟩ := x
  simp only [pushOperand] at h
  split at h
  · next r hreg =>
    have hown : ∀ v, ssaOperand (fun _ => v) dst inst i o =
        if i = 0 ∧ dst = some r then .dstPlaceholder else .var v := by
      intro v
      cases o <;> cases hreg <;> rfl
    simp only [hown]
    split at h
    · next hdst =>
      cases h
      exact ⟨⟨0, 0⟩, by rw [if_pos hdst]⟩
    · next hdst =>
      obtain ⟨v, hv⟩ := pushRead_operands h
      exact ⟨v, by rw [if_neg hdst, hv]⟩
  · next hreg =>
    cases h
    refine ⟨⟨0, 0⟩, ?_⟩
    cases o <;> first | rfl | cases hreg

theorem foldlM_pushOperand_operands {dst : Option Nat} {l : List (Operand × Nat)}
    {acc acc' : List SsaOperand × σ}
    (h : l.foldlM (pushOperand B g bid dst inst) acc = .ok acc') :
    ∃ own, acc'.1 = acc.1 ++ own ∧
      List.Forall₂ (fun x o => ∃ v, o = ssaOperand (fun _ => v) dst inst x.2 x.1) l own := by
  induction l generalizing acc with
  | nil =>
    cases h
    exact ⟨[], (List.append_nil _).symm, .nil⟩
  | cons x l ih =>
    rw [List.foldlM_cons] at h
    obtain ⟨acc₁, hstep, hrest⟩ := Loop.bind_eq_ok.mp h
    obtain ⟨v, hv⟩ := pushOperand_operands hstep
    obtain ⟨own, hown, hall⟩ := ih hrest
    refine ⟨_ :: own, ?_, .cons ⟨v, rfl⟩ hall⟩
    rw [hown, hv, List.append_assoc, List.singleton_append]

/-- A fold that pushes variables only. -/
theorem foldlM_pushArg_operands {arg0 argCount : Nat} {label : String} {l : List Nat}
    {acc acc' : List SsaOperand × σ}
    (h : l.foldlM (pushArg B g bid arg0 argCount label) acc = .ok acc') :
    ∃ args : List VarId, acc'.1 = acc.1 ++ args.map .var := by
  apply Loop.foldlM_invariant
    (fun x : List SsaOperand × σ => ∃ args : List VarId, x.1 = acc.1 ++ args.map .var) _
    ⟨[], (List.append_nil _).symm⟩ h
  rintro x i - x' ⟨args, hargs⟩ hstep
  simp only [pushArg] at hstep
  split at hstep
  · obtain ⟨v, hv⟩ := pushRead_operands hstep
    exact ⟨args ++ [v], by rw [hv, hargs, List.map_append, List.append_assoc]; rfl⟩
  · cases hstep

theorem pushCallArgs_operands {frameSize totalInsns : Nat} {acc acc' : List SsaOperand × σ}
    (h : pushCallArgs B g bid frameSize totalInsns inst acc = .ok acc') :
    ∃ args : List VarId, acc'.1 = acc.1 ++ args.map .var ∧
      (argcForResolve inst = none → args = []) := by
  simp only [pushCallArgs] at h
  split at h
  · cases h
    exact ⟨[], (List.append_nil _).symm, fun _ => rfl⟩
  · next hargc =>
    have hsome : ∀ args : List VarId, argcForResolve inst = none → args = [] :=
      fun _ hnone => absurd (hargc.symm.trans hnone) (by simp)
    split at h
    · cases h
    · split at h
      · cases h
        exact ⟨[], (List.append_nil _).symm, hsome _⟩
      · obtain ⟨acc₁, hthis, hargs⟩ := Loop.bind_eq_ok.mp h
        obtain ⟨args, hargs⟩ := foldlM_pushArg_operands hargs
        rw [pushThis] at hthis
        split at hthis
        · obtain ⟨v, hv⟩ := pushRead_operands hthis
          refine ⟨v :: args, ?_, hsome _⟩
          rw [hargs, hv, List.append_assoc]
          rfl
        · cases hthis
          exact ⟨args, hargs, hsome _⟩

/-- Each instruction makes one operation. -/
theorem walkInst_builtFrom {frameSize totalInsns : Nat}
    {acc acc' : List SsaOp × OrdMap Nat VarId × σ}
    (h : walkInst B types g bid frameSize totalInsns acc inst = .ok acc') :
    ∃ op, acc'.1 = acc.1 ++ [op] ∧ op.original = inst ∧ BuiltFrom (types inst) inst op := by
  obtain ⟨operands, hoperands, h⟩ := Loop.bind_eq_ok.mp h
  obtain ⟨⟨operands', s⟩, hargs, h⟩ := Loop.bind_eq_ok.mp h
  obtain ⟨⟨dst, s'⟩, -, h⟩ := Loop.bind_eq_ok.mp h
  cases h
  obtain ⟨own, hown, hall⟩ := foldlM_pushOperand_operands hoperands
  obtain ⟨args, hargs, hnone⟩ := pushCallArgs_operands hargs
  refine ⟨_, rfl, rfl, rfl, own, args, ?_, hall, hnone⟩
  change operands' = _
  rw [show operands' = operands.1 ++ _ from hargs, hown, List.nil_append]

end Walk

/-! ## Built functions -/

/-- The operation is what `build_ssa` makes of an instruction of the graph. -/
def StandsFor (types : DecodedInst → List OpType) (cfg : Cfg) (op : SsaOp) : Prop :=
  ∃ id block, cfg.blocks.get? id = some block ∧ op.original ∈ block.instructions ∧
    BuiltFrom (types op.original) op.original op

section

variable {σ : Type} {B : CommonBuilder σ} {types : DecodedInst → List OpType} {cfg : Cfg}

theorem walkBlock_standsFor {frameSize totalInsns : Nat} {w w' : Walk σ} {bid : BlockId}
    (hw : ∀ b ∈ w.blocks, ∀ op ∈ b.ops, StandsFor types cfg op)
    (h : walkBlock B types cfg frameSize totalInsns w bid = .ok w') :
    ∀ b ∈ w'.blocks, ∀ op ∈ b.ops, StandsFor types cfg op := by
  unfold walkBlock at h
  split at h
  · cases h
    exact hw
  · next block hget =>
    obtain ⟨⟨ops, params, s⟩, hops, h⟩ := Loop.bind_eq_ok.mp h
    cases h
    have hrun : ∀ op ∈ ops, StandsFor types cfg op := by
      refine Loop.foldlM_invariant (fun acc : List SsaOp × OrdMap Nat VarId × σ =>
        ∀ op ∈ acc.1, StandsFor types cfg op) (fun acc inst hinst acc' hacc hstep op hop => ?_)
        (by simp) hops
      obtain ⟨built, hbuilt, horiginal, hfrom⟩ := walkInst_builtFrom hstep
      rw [hbuilt] at hop
      rcases List.mem_append.mp hop with hmem | hmem
      · exact hacc op hmem
      · rw [List.mem_singleton.mp hmem]
        exact ⟨bid, block, hget, horiginal ▸ hinst, horiginal ▸ hfrom⟩
    intro b hb
    rcases List.mem_append.mp hb with hmem | hmem
    · exact hw b hmem
    · rw [List.mem_singleton.mp hmem]
      exact hrun

theorem ops_of_mem_drainPhis {blocks : List SsaBlock} {s : σ} {b' : SsaBlock}
    (h : b' ∈ drainPhis B blocks s) : ∃ b ∈ blocks, b'.ops = b.ops := by
  induction blocks generalizing s with
  | nil => cases h
  | cons b blocks ih =>
    rcases List.mem_cons.mp h with rfl | hrest
    · exact ⟨b, List.mem_cons_self, rfl⟩
    · obtain ⟨c, hc, hops⟩ := ih hrest
      exact ⟨c, List.mem_cons_of_mem b hc, hops⟩

theorem mem_ops_injectUndefined {blocks : List SsaBlock} {op : SsaOp}
    (h : op ∈ SsaFunction.ops ⟨injectUndefined blocks⟩) :
    (∃ v, op = syntheticOp v) ∨ ∃ b ∈ blocks, op ∈ b.ops := by
  obtain ⟨b, hb, hop⟩ := SsaFunction.mem_ops.mp h
  cases blocks with
  | nil => cases hb
  | cons entry rest =>
    rcases List.mem_cons.mp hb with rfl | hrest
    · rcases List.mem_append.mp hop with hundefined | hop
      · obtain ⟨v, -, rfl⟩ := List.mem_map.mp hundefined
        exact Or.inl ⟨v, rfl⟩
      · exact Or.inr ⟨entry, List.mem_cons_self, hop⟩
    · exact Or.inr ⟨b, List.mem_cons_of_mem entry hrest, hop⟩

/-- Besides the loads of undefined variables, every operation stands for an instruction. -/
theorem buildSsa_standsFor {frameSize : Nat} {built : BuiltSsa}
    (hbuild : buildSsa B types cfg frameSize = .ok built) {op : SsaOp}
    (hop : op ∈ built.function.ops) : (∃ v, op = syntheticOp v) ∨ StandsFor types cfg op := by
  obtain ⟨w, hwalk, hbuild⟩ := Loop.bind_eq_ok.mp hbuild
  obtain ⟨s, -, hbuild⟩ := Loop.bind_eq_ok.mp hbuild
  cases hbuild
  have hblocks := Loop.foldlM_invariant
    (fun w : Walk σ => ∀ b ∈ w.blocks, ∀ op ∈ b.ops, StandsFor types cfg op)
    (fun _ _ _ _ hw hstep => walkBlock_standsFor hw hstep) (by simp) hwalk
  refine (mem_ops_injectUndefined hop).imp_right ?_
  rintro ⟨b', hb', hop⟩
  obtain ⟨b, hb, hops⟩ := ops_of_mem_drainPhis hb'
  exact hblocks b hb op (hops ▸ hop)

end

/-! ## Operations without a destination -/

/-- The operand that stands for a type, where no literal is looked up. -/
def PlainOperand : OpType → SsaOperand → Prop
  | .R, o | .R4, o => ∃ v, o = .var v
  | .U1, o | .U2, o | .U4, o => ∃ n : Nat, o = .const n
  | .A1, o | .A4, o => ∃ b, o = .blockTarget b
  | .I4, o => ∃ n : Int, o = .const n
  | .D, o => ∃ bits, o = .constDouble bits

/-- The name is none that has strings or functions among its operands. -/
def hasPlainOperands (name : String) : Bool :=
  !containsText name "LoadConstString" && !containsText name "CreateClosure" &&
    !containsText name "CreateGenerator"

/-- The operands stand at the places of their types. -/
theorem plain_operands {types : List OpType} {inst : DecodedInst} {op : SsaOp}
    (hdec : Decoded types inst) (hbuilt : BuiltFrom types inst op)
    (hdst : classifyInst types inst = none) (hargc : argcForResolve inst = none)
    (hplain : hasPlainOperands inst.name = true) :
    List.Forall₂ PlainOperand types op.operands := by
  obtain ⟨own, args, hoperands, hown, hargs⟩ := hbuilt.operands
  rw [hargs hargc, List.map_nil, List.append_nil] at hoperands
  rw [hdst] at hown
  simp only [hasPlainOperands, Bool.and_eq_true, Bool.not_eq_true'] at hplain
  obtain ⟨⟨hstring, hclosure⟩, hgenerator⟩ := hplain
  have hoperand : ∀ (ot : OpType) (x : Operand × Nat) (o : SsaOperand), ot.Decodes x.1 →
      (∃ v, o = ssaOperand (fun _ => v) none inst x.2 x.1) → PlainOperand ot o := by
    rintro ot ⟨operand, i⟩ o hdecodes ⟨v, rfl⟩
    cases ot <;> cases operand <;> simp_all [OpType.Decodes, PlainOperand, ssaOperand]
  rw [hoperands, List.forall₂_iff_get]
  have hlength : inst.operands.zipIdx.length = inst.operands.length := List.length_zipIdx
  refine ⟨hdec.operands.length_eq.trans (hlength.symm.trans hown.length_eq), fun i hi hi' => ?_⟩
  have hread := List.Forall₂.get hown (hown.length_eq ▸ hi') hi'
  have hdecodes := List.Forall₂.get hdec.operands hi (hdec.operands.length_eq ▸ hi)
  simp only [List.get_eq_getElem, List.getElem_zipIdx] at hread hdecodes
  exact hoperand _ (_, _) _ hdecodes hread

end Hermes.Decompile
