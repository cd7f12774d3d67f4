-- SUMMARY: What the decompiler reads off an opcode name or a builtin id, and how it spells JavaScript tokens.
import Mathlib.Algebra.Group.Int.Defs
import Mathlib.Data.List.Infix

/-!
# Opcode names and JavaScript tokens

The name tests of `decompile/expr.rs` and `decompile/optimize.rs`: purity,
builtins, reserved words and identifiers, and the escapes of string literals.
-/

namespace Hermes.Decompile

/-! ## Text -/

/-- `s.starts_with(p)`. -/
def startsWith (s p : String) : Bool := p.toList.isPrefixOf s.toList

/-- `s.contains(p)`. -/
def containsText (s p : String) : Bool := decide (p.toList <:+: s.toList)

/-- The bytes of a text. -/
def utf8 (s : String) : List UInt8 := s.toByteArray.data.toList

theorem utf8_eq (s : String) : utf8 s = s.toList.flatMap String.utf8EncodeChar := by
  have hbytes : s.toByteArray = s.toList.utf8Encode := by simp
  rw [utf8, hbytes, List.utf8Encode, List.toList_data_toByteArray]

/-- On long lists of names the bytes are tested faster than the characters. -/
theorem utf8_infix_of_containsText {s p : String} (h : containsText s p = true) :
    utf8 p <:+: utf8 s := by
  obtain ⟨before, behind, heq⟩ := of_decide_eq_true h
  refine ⟨before.flatMap String.utf8EncodeChar, behind.flatMap String.utf8EncodeChar, ?_⟩
  rw [utf8_eq, utf8_eq, ← heq, List.flatMap_append, List.flatMap_append]

theorem utf8_prefix_of_startsWith {s p : String} (h : startsWith s p = true) :
    utf8 p <+: utf8 s := by
  obtain ⟨behind, heq⟩ := List.isPrefixOf_iff_prefix.mp h
  refine ⟨behind.flatMap String.utf8EncodeChar, ?_⟩
  rw [utf8_eq, utf8_eq, ← heq, List.flatMap_append]

/-- `n as u32`, for an `i64`. -/
def asU32 (n : Int) : Nat := (n % 2 ^ 32).toNat

/-! ## Purity -/

/-- The opcodes `is_pure` lists. -/
def pureNames : List String :=
  [
    "LoadConstUndefined", "LoadConstNull", "LoadConstTrue", "LoadConstFalse", "LoadConstZero",
    "LoadConstUInt8", "LoadConstInt", "LoadConstDouble", "LoadConstString",
    "LoadConstStringLongIndex", "LoadConstEmpty", "LoadConstBigInt", "LoadConstBigIntLongIndex",
    "LoadParam", "LoadParamLong", "LoadFromEnvironment", "LoadFromEnvironmentLong", "Add", "AddN",
    "Sub", "SubN", "Mul", "MulN", "Div", "DivN", "Mod", "ModN", "Exp", "BitAnd", "BitOr",
    "BitXor", "BitNot", "LShift", "RShift", "URshift", "Negate", "Inc", "Dec", "Add32", "Sub32",
    "Mul32", "Divi32", "Divu32", "Less", "LessN", "LessEqual", "LessEqualN", "Greater",
    "GreaterN", "GreaterEqual", "GreaterEqualN", "Eq", "Neq", "StrictEq", "StrictNeq",
    "InstanceOf", "IsIn", "TypeOf", "TypeOfIs", "ToNumber", "ToNumeric", "ToInt32", "ToString",
    "AddEmptyString", "CoerceThisNS", "LoadThisNS", "GetById", "GetByIdShort", "GetByIdLong",
    "TryGetById", "TryGetByIdLong", "GetByVal", "GetByIndex", "NewObject", "NewObjectWithBuffer",
    "NewObjectWithBufferLong", "HermesObjectLit", "HermesObjectSpreadLit", "NewArray",
    "NewArrayWithBuffer", "NewArrayWithBufferLong", "NewFastArray", "CreateRegExp", "CreateThis",
    "CreateThisForNew", "NewTypedObjectWithBuffer", "GetClosureEnvironment",
    "GetParentEnvironment", "GetEnvironment", "GetGlobalObject", "Mov", "MovLong", "Phi", "Not",
    "IteratorNext", "IteratorClose", "GetPNameList", "GetNextPName", "GetBuiltinClosure",
    "GetNewTarget", "GetArgumentsLength", "GetArgumentsPropByVal", "ReifyArguments",
    "ReifyArgumentsStrict", "SelectObject", "Unreachable", "ProfilePoint", "Debugger",
    "AsyncBreakCheck"]

def isPure (name : String) : Bool := pureNames.contains name

def hasSideEffects (name : String) : Bool := !isPure name

/-! ## Builtins -/

def builtinNames : List String :=
  [
    "globalThis.Symbol", "globalThis.eval", "Array.isArray", "Date.UTC", "Date.parse",
    "JSON.parse", "JSON.stringify", "Math.abs", "Math.acos", "Math.asin", "Math.atan",
    "Math.atan2", "Math.ceil", "Math.cos", "Math.exp", "Math.floor", "Math.hypot", "Math.imul",
    "Math.log", "Math.max", "Math.min", "Math.pow", "Math.round", "Math.sin", "Math.sqrt",
    "Math.tan", "Math.trunc", "Object.create", "Object.defineProperties", "Object.defineProperty",
    "Object.freeze", "Object.getOwnPropertyDescriptor", "Object.getOwnPropertyNames",
    "Object.getPrototypeOf", "Object.isExtensible", "Object.isFrozen", "Object.keys",
    "Object.seal", "String.fromCharCode", "HermesBuiltin.silentSetPrototypeOf",
    "HermesBuiltin.requireFast", "HermesBuiltin.getTemplateObject", "HermesBuiltin.ensureObject",
    "HermesBuiltin.getMethod", "HermesBuiltin.throwTypeError",
    "HermesBuiltin.throwReferenceError", "HermesBuiltin.copyDataProperties",
    "HermesBuiltin.copyRestArgs", "HermesBuiltin.arraySpread", "HermesBuiltin.apply",
    "HermesBuiltin.applyArguments", "HermesBuiltin.applyWithNewTarget", "HermesBuiltin.exportAll",
    "HermesBuiltin.exponentiationOperator", "HermesBuiltin.initRegexNamedGroups",
    "HermesBuiltin.functionPrototypeApply", "HermesBuiltin.functionPrototypeCall",
    "HermesBuiltin.functionPrototypeCall2", "HermesBuiltin.spawnAsync",
    "HermesBuiltin.makeAsyncIterator", "HermesBuiltin.awaitAsyncGenerator"]

def builtinName (id : Nat) : String := builtinNames.getD id "builtin"

def isGetTemplateObject (id : Nat) : Bool := builtinName id = "HermesBuiltin.getTemplateObject"

def isInitRegexNamedGroups (id : Nat) : Bool :=
  builtinName id = "HermesBuiltin.initRegexNamedGroups"

def isArraySpread (id : Nat) : Bool := builtinName id = "HermesBuiltin.arraySpread"

def isCopyDataProperties (id : Nat) : Bool := builtinName id = "HermesBuiltin.copyDataProperties"

/-! ## JavaScript tokens -/

def jsReserved : List String :=
  [
    "break", "case", "catch", "continue", "debugger", "default", "delete", "do", "else",
    "finally", "for", "function", "if", "in", "instanceof", "new", "return", "switch", "this",
    "throw", "try", "typeof", "var", "void", "while", "with", "class", "const", "enum", "export",
    "extends", "import", "super", "implements", "interface", "let", "package", "private",
    "protected", "public", "static", "yield", "await", "null", "true", "false"]

def isJsReserved (s : String) : Bool := jsReserved.contains s

def isValidJsIdent (s : String) : Bool :=
  match s.toList with
  | [] => false
  | first :: chars =>
    (first.isAlpha || first = '_' || first = '$')
      && chars.all (fun c => c.isAlphanum || c = '_' || c = '$')
      && !isJsReserved s

/-- `{:04x}`. -/
def hex4 (n : Nat) : String :=
  String.ofList ((Nat.toDigits 16 n).leftpad 4 '0')

/-- `char::is_control`: the Unicode class `Cc`. -/
def isControl (c : Char) : Bool := c.toNat < 0x20 || (0x7f ≤ c.toNat && c.toNat < 0xa0)

def escapeJsChar (c : Char) : String :=
  match c with
  | '\\' => "\\\\"
  | '"' => "\\\""
  | '\n' => "\\n"
  | '\r' => "\\r"
  | '\t' => "\\t"
  | '\x00' => "\\0"
  | c => if isControl c then "\\u" ++ hex4 c.toNat else c.toString

def escapeJsString (s : String) : String := String.join (s.toList.map escapeJsChar)

end Hermes.Decompile
