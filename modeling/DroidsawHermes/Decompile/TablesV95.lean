-- SUMMARY: The opcode tables of bytecode versions 95 and 96.
import DroidsawHermes.Decompile.Decode

/-!
# Tables of version 95

`V95_SIZES`, `V95_NAMES` and `V95_SCHEMAS`, row by row. Version 96 uses the same
tables.
-/

namespace Hermes.Decompile

/-- Name, size and operand types, by opcode. -/
def v95Rows : List (String × UInt8 × List OpType) :=
  [
    ("Unreachable", 1, []), ("NewObjectWithBuffer", 10, [.R, .U2, .U2, .U2, .U2]),
    ("NewObjectWithBufferLong", 14, [.R, .U2, .U2, .U4, .U4]), ("NewObject", 2, [.R]),
    ("NewObjectWithParent", 3, [.R, .R]), ("NewArrayWithBuffer", 8, [.R, .U2, .U2, .U2]),
    ("NewArrayWithBufferLong", 10, [.R, .U2, .U2, .U4]), ("NewArray", 4, [.R, .U2]),
    ("Mov", 3, [.R, .R]), ("MovLong", 9, [.R4, .R4]), ("Negate", 3, [.R, .R]), ("Not", 3, [.R, .R]),
    ("BitNot", 3, [.R, .R]), ("TypeOf", 3, [.R, .R]), ("Eq", 4, [.R, .R, .R]),
    ("StrictEq", 4, [.R, .R, .R]), ("Neq", 4, [.R, .R, .R]), ("StrictNeq", 4, [.R, .R, .R]),
    ("Less", 4, [.R, .R, .R]), ("LessEq", 4, [.R, .R, .R]), ("Greater", 4, [.R, .R, .R]),
    ("GreaterEq", 4, [.R, .R, .R]), ("Add", 4, [.R, .R, .R]), ("AddN", 4, [.R, .R, .R]),
    ("Mul", 4, [.R, .R, .R]), ("MulN", 4, [.R, .R, .R]), ("Div", 4, [.R, .R, .R]),
    ("DivN", 4, [.R, .R, .R]), ("Mod", 4, [.R, .R, .R]), ("Sub", 4, [.R, .R, .R]),
    ("SubN", 4, [.R, .R, .R]), ("LShift", 4, [.R, .R, .R]), ("RShift", 4, [.R, .R, .R]),
    ("URshift", 4, [.R, .R, .R]), ("BitAnd", 4, [.R, .R, .R]), ("BitXor", 4, [.R, .R, .R]),
    ("BitOr", 4, [.R, .R, .R]), ("Inc", 3, [.R, .R]), ("Dec", 3, [.R, .R]),
    ("InstanceOf", 4, [.R, .R, .R]), ("IsIn", 4, [.R, .R, .R]), ("GetEnvironment", 3, [.R, .U1]),
    ("StoreToEnvironment", 4, [.R, .U1, .R]), ("StoreToEnvironmentL", 5, [.R, .U2, .R]),
    ("StoreNPToEnvironment", 4, [.R, .U1, .R]), ("StoreNPToEnvironmentL", 5, [.R, .U2, .R]),
    ("LoadFromEnvironment", 4, [.R, .R, .U1]), ("LoadFromEnvironmentL", 5, [.R, .R, .U2]),
    ("GetGlobalObject", 2, [.R]), ("GetNewTarget", 2, [.R]), ("CreateEnvironment", 2, [.R]),
    ("CreateInnerEnvironment", 7, [.R, .R, .U4]), ("DeclareGlobalVar", 5, [.U4]),
    ("ThrowIfHasRestrictedGlobalProperty", 5, [.U4]), ("GetByIdShort", 5, [.R, .R, .U1, .U1]),
    ("GetById", 6, [.R, .R, .U1, .U2]), ("GetByIdLong", 8, [.R, .R, .U1, .U4]),
    ("TryGetById", 6, [.R, .R, .U1, .U2]), ("TryGetByIdLong", 8, [.R, .R, .U1, .U4]),
    ("PutById", 6, [.R, .R, .U1, .U2]), ("PutByIdLong", 8, [.R, .R, .U1, .U4]),
    ("TryPutById", 6, [.R, .R, .U1, .U2]), ("TryPutByIdLong", 8, [.R, .R, .U1, .U4]),
    ("PutNewOwnByIdShort", 4, [.R, .R, .U1]), ("PutNewOwnById", 5, [.R, .R, .U2]),
    ("PutNewOwnByIdLong", 7, [.R, .R, .U4]), ("PutNewOwnNEById", 5, [.R, .R, .U2]),
    ("PutNewOwnNEByIdLong", 7, [.R, .R, .U4]), ("PutOwnByIndex", 4, [.R, .R, .U1]),
    ("PutOwnByIndexL", 7, [.R, .R, .U4]), ("PutOwnByVal", 5, [.R, .R, .R, .U1]),
    ("DelById", 5, [.R, .R, .U2]), ("DelByIdLong", 7, [.R, .R, .U4]), ("GetByVal", 4, [.R, .R, .R]),
    ("PutByVal", 4, [.R, .R, .R]), ("DelByVal", 4, [.R, .R, .R]),
    ("PutOwnGetterSetterByVal", 6, [.R, .R, .R, .R, .U1]), ("GetPNameList", 5, [.R, .R, .R, .R]),
    ("GetNextPName", 6, [.R, .R, .R, .R, .R]), ("Call", 4, [.R, .R, .U1]),
    ("Construct", 4, [.R, .R, .U1]), ("Call1", 4, [.R, .R, .R]), ("CallDirect", 5, [.R, .U1, .U2]),
    ("Call2", 5, [.R, .R, .R, .R]), ("Call3", 6, [.R, .R, .R, .R, .R]),
    ("Call4", 7, [.R, .R, .R, .R, .R, .R]), ("CallLong", 7, [.R, .R, .U4]),
    ("ConstructLong", 7, [.R, .R, .U4]), ("CallDirectLongIndex", 7, [.R, .U1, .U4]),
    ("CallBuiltin", 4, [.R, .U1, .U1]), ("CallBuiltinLong", 7, [.R, .U1, .U4]),
    ("GetBuiltinClosure", 3, [.R, .U1]), ("Ret", 2, [.R]), ("Catch", 2, [.R]),
    ("DirectEval", 4, [.R, .R, .U1]), ("Throw", 2, [.R]), ("ThrowIfEmpty", 3, [.R, .R]),
    ("Debugger", 1, []), ("AsyncBreakCheck", 1, []), ("ProfilePoint", 3, [.U2]),
    ("CreateClosure", 5, [.R, .R, .U2]), ("CreateClosureLongIndex", 7, [.R, .R, .U4]),
    ("CreateGeneratorClosure", 5, [.R, .R, .U2]),
    ("CreateGeneratorClosureLongIndex", 7, [.R, .R, .U4]), ("CreateAsyncClosure", 5, [.R, .R, .U2]),
    ("CreateAsyncClosureLongIndex", 7, [.R, .R, .U4]), ("CreateThis", 4, [.R, .R, .R]),
    ("SelectObject", 4, [.R, .R, .R]), ("LoadParam", 3, [.R, .U1]), ("LoadParamLong", 6, [.R, .U4]),
    ("LoadConstUInt8", 3, [.R, .U1]), ("LoadConstInt", 6, [.R, .I4]),
    ("LoadConstDouble", 10, [.R, .D]), ("LoadConstBigInt", 4, [.R, .U2]),
    ("LoadConstBigIntLongIndex", 6, [.R, .U4]), ("LoadConstString", 4, [.R, .U2]),
    ("LoadConstStringLongIndex", 6, [.R, .U4]), ("LoadConstEmpty", 2, [.R]),
    ("LoadConstUndefined", 2, [.R]), ("LoadConstNull", 2, [.R]), ("LoadConstTrue", 2, [.R]),
    ("LoadConstFalse", 2, [.R]), ("LoadConstZero", 2, [.R]), ("CoerceThisNS", 3, [.R, .R]),
    ("LoadThisNS", 2, [.R]), ("ToNumber", 3, [.R, .R]), ("ToNumeric", 3, [.R, .R]),
    ("ToInt32", 3, [.R, .R]), ("AddEmptyString", 3, [.R, .R]),
    ("GetArgumentsPropByVal", 4, [.R, .R, .R]), ("GetArgumentsLength", 3, [.R, .R]),
    ("ReifyArguments", 2, [.R]), ("CreateRegExp", 14, [.R, .U4, .U4, .U4]),
    ("SwitchImm", 18, [.R, .U4, .A4, .U4, .U4]), ("StartGenerator", 1, []),
    ("ResumeGenerator", 3, [.R, .R]), ("CompleteGenerator", 1, []),
    ("CreateGenerator", 5, [.R, .R, .U2]), ("CreateGeneratorLongIndex", 7, [.R, .R, .U4]),
    ("IteratorBegin", 3, [.R, .R]), ("IteratorNext", 4, [.R, .R, .R]),
    ("IteratorClose", 3, [.R, .U1]), ("Jmp", 2, [.A1]), ("JmpLong", 5, [.A4]),
    ("JmpTrue", 3, [.A1, .R]), ("JmpTrueLong", 6, [.A4, .R]), ("JmpFalse", 3, [.A1, .R]),
    ("JmpFalseLong", 6, [.A4, .R]), ("JmpUndefined", 3, [.A1, .R]),
    ("JmpUndefinedLong", 6, [.A4, .R]), ("SaveGenerator", 2, [.A1]),
    ("SaveGeneratorLong", 5, [.A4]), ("JLess", 4, [.A1, .R, .R]), ("JLessLong", 7, [.A4, .R, .R]),
    ("JNotLess", 4, [.A1, .R, .R]), ("JNotLessLong", 7, [.A4, .R, .R]),
    ("JLessN", 4, [.A1, .R, .R]), ("JLessNLong", 7, [.A4, .R, .R]), ("JNotLessN", 4, [.A1, .R, .R]),
    ("JNotLessNLong", 7, [.A4, .R, .R]), ("JLessEqual", 4, [.A1, .R, .R]),
    ("JLessEqualLong", 7, [.A4, .R, .R]), ("JNotLessEqual", 4, [.A1, .R, .R]),
    ("JNotLessEqualLong", 7, [.A4, .R, .R]), ("JLessEqualN", 4, [.A1, .R, .R]),
    ("JLessEqualNLong", 7, [.A4, .R, .R]), ("JNotLessEqualN", 4, [.A1, .R, .R]),
    ("JNotLessEqualNLong", 7, [.A4, .R, .R]), ("JGreater", 4, [.A1, .R, .R]),
    ("JGreaterLong", 7, [.A4, .R, .R]), ("JNotGreater", 4, [.A1, .R, .R]),
    ("JNotGreaterLong", 7, [.A4, .R, .R]), ("JGreaterN", 4, [.A1, .R, .R]),
    ("JGreaterNLong", 7, [.A4, .R, .R]), ("JNotGreaterN", 4, [.A1, .R, .R]),
    ("JNotGreaterNLong", 7, [.A4, .R, .R]), ("JGreaterEqual", 4, [.A1, .R, .R]),
    ("JGreaterEqualLong", 7, [.A4, .R, .R]), ("JNotGreaterEqual", 4, [.A1, .R, .R]),
    ("JNotGreaterEqualLong", 7, [.A4, .R, .R]), ("JGreaterEqualN", 4, [.A1, .R, .R]),
    ("JGreaterEqualNLong", 7, [.A4, .R, .R]), ("JNotGreaterEqualN", 4, [.A1, .R, .R]),
    ("JNotGreaterEqualNLong", 7, [.A4, .R, .R]), ("JEqual", 4, [.A1, .R, .R]),
    ("JEqualLong", 7, [.A4, .R, .R]), ("JNotEqual", 4, [.A1, .R, .R]),
    ("JNotEqualLong", 7, [.A4, .R, .R]), ("JStrictEqual", 4, [.A1, .R, .R]),
    ("JStrictEqualLong", 7, [.A4, .R, .R]), ("JStrictNotEqual", 4, [.A1, .R, .R]),
    ("JStrictNotEqualLong", 7, [.A4, .R, .R]), ("Add32", 4, [.R, .R, .R]),
    ("Sub32", 4, [.R, .R, .R]), ("Mul32", 4, [.R, .R, .R]), ("Divi32", 4, [.R, .R, .R]),
    ("Divu32", 4, [.R, .R, .R]), ("Loadi8", 4, [.R, .R, .R]), ("Loadu8", 4, [.R, .R, .R]),
    ("Loadi16", 4, [.R, .R, .R]), ("Loadu16", 4, [.R, .R, .R]), ("Loadi32", 4, [.R, .R, .R]),
    ("Loadu32", 4, [.R, .R, .R]), ("Store8", 4, [.R, .R, .R]), ("Store16", 4, [.R, .R, .R]),
    ("Store32", 4, [.R, .R, .R])]

def v95Tables : OpcodeTables where
  sizes := v95Rows.map fun row => row.2.1
  names := v95Rows.map fun row => row.1
  schemas := v95Rows.map fun row => (row.1, row.2.2)

end Hermes.Decompile
