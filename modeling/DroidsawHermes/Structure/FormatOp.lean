-- SUMMARY: The text that `format_op` gives an operation, as a table of arms.
import DroidsawHermes.Structure.StringText

/-!
# Texts of operations

`format_op` of `decompile/structure.rs`. Its `match` on the name is a table of arms, in
the order of the source: the first arm whose pattern the name has is taken.
-/

namespace Hermes.Structure

open Decompile

/-! ## Arms -/

/-- The names of an arm, or what its names start with. -/
inductive ArmPattern where
  | oneOf (names : List String)
  | starts (heads : List String)
  deriving DecidableEq, Repr

def ArmPattern.has (name : String) : ArmPattern → Bool
  | .oneOf names => names.contains name
  | .starts heads => heads.any (startsWith name)

/-- An arm of a `match` on the name of an operation. -/
structure Arm (α : Type) where
  pattern : ArmPattern
  body : SsaOp → α

/-- The first arm for a name. -/
def armOf {α : Type} (arms : List (Arm α)) (name : String) : Option (Arm α) :=
  arms.find? (·.pattern.has name)

/-- The arm for a name is at the index of the first pattern that has it. -/
theorem armOf_eq_bind {α : Type} (arms : List (Arm α)) (name : String) :
    armOf arms name =
      ((arms.map Arm.pattern).findIdx? (ArmPattern.has name)).bind (arms[·]?) := by
  rw [armOf, List.find?_eq_bind_findIdx?_getElem?, List.findIdx?_map]
  rfl

/-- One arm for some names, of the operands. -/
def named {α : Type} (names : List String) (body : List SsaOperand → α) : Arm α :=
  ⟨.oneOf names, fun op => body op.operands⟩

def starting {α : Type} (heads : List String) (body : SsaOp → α) : Arm α := ⟨.starts heads, body⟩

/-! ## Operands -/

section

variable (doubleText : UInt64 → String)

/-- `Display for f64`. -/
def f64Text (bits : UInt64) : String :=
  if isNaN bits then "NaN"
  else if bits = 0x7FF0000000000000 then "inf"
  else if bits = 0xFFF0000000000000 then "-inf"
  else doubleText bits

def vr (ops : List SsaOperand) (i : Nat) : String :=
  match ops[i]? with
  | some (SsaOperand.var v) => v.display
  | some (SsaOperand.const c) => toString c
  | some (SsaOperand.constDouble bits) => (Decompile.Literal.double bits).display doubleText
  | some (SsaOperand.stringId s) => "str[" ++ Nat.repr s ++ "]"
  | some (SsaOperand.resolvedString s) =>
    "\"" ++ String.ofList (s.toList.flatMap escapeKeyChar) ++ "\""
  | some SsaOperand.dstPlaceholder => ""
  | _ => "?"

theorem vr_var {ops : List SsaOperand} {i : Nat} {v : VarId} (h : ops[i]? = some (.var v)) :
    vr doubleText ops i = v.display := by
  rw [vr, h]

def cr (ops : List SsaOperand) (i : Nat) : String :=
  match ops[i]? with
  | some (SsaOperand.const c) => toString c
  | some (SsaOperand.var v) => v.display
  | _ => "?"

def fbin (ops : List SsaOperand) (op : String) : String :=
  vr doubleText ops 1 ++ " " ++ op ++ " " ++ vr doubleText ops 2

/-- The first function id. -/
def findFuncId (ops : List SsaOperand) : Option Nat :=
  ops.findSome? fun
    | .funcId f => some f
    | _ => none

/-- An argument of a call, where other operands are left out. -/
def argText : SsaOperand → Option String
  | .var v => some v.display
  | .const c => some (toString c)
  | .resolvedString s => some ("\"" ++ s ++ "\"")
  | _ => none

/-- An argument of a builtin. -/
def builtinArgText : SsaOperand → Option String
  | .var v => some v.display
  | .const c => some (toString c)
  | _ => none

/-- An operand of an operation that has no arm. -/
def otherArgText (getStr : Nat → String) : SsaOperand → Option String
  | .var v => some v.display
  | .const c => some (toString c)
  | .constDouble bits => some (f64Text doubleText bits)
  | .stringId s => some ("\"" ++ getStr s ++ "\"")
  | .funcId f => some ("func[" ++ Nat.repr f ++ "]")
  | _ => none

/-- `void 0` with a comment behind it. -/
def voidText (comment : String) : String := "void 0 /* " ++ comment ++ " */"

/-- A comment on a function that is made. -/
def funcText (kind : String) (ops : List SsaOperand) : String :=
  match findFuncId ops with
  | some f => voidText (kind ++ " #" ++ Nat.repr f)
  | none => voidText kind

def escapeConstChar : Char → List Char
  | '\\' => ['\\', '\\']
  | '"' => ['\\', '"']
  | '\n' => ['\\', 'n']
  | '\r' => ['\\', 'r']
  | '\x00' => ['\\', '0']
  | c => [c]

/-- The slashes of a pattern that no backslash stands in front of. -/
def escapeSlashes : List Char → List Char
  | '\\' :: next :: chars => '\\' :: next :: escapeSlashes chars
  | '/' :: chars => '\\' :: '/' :: escapeSlashes chars
  | c :: chars => c :: escapeSlashes chars
  | [] => []

/-- `Object.defineProperty` with a getter and a setter. -/
def definePropertyText (object key getter setter : String) : String :=
  "Object.defineProperty(" ++ object ++ ", " ++ key ++ ", \x7bget: " ++ getter ++ ", set: " ++
    setter ++ "\x7d)"

/-- A property that a string id names, of an object text. -/
def propText (getStr : Nat → String) (object : String) (ops : List SsaOperand) : String :=
  match ops.getLast? with
  | some (SsaOperand.const sid) => fmtPropAccess object (getStr (asU32 sid))
  | _ => object ++ "[?]"

/-! ## The arms -/

section

variable (getStr : Nat → String)

def operatorTexts : List (Arm String) :=
  [
    named ["Add", "AddN"] (fbin doubleText · "+"),
    named ["Sub", "SubN"] (fbin doubleText · "-"),
    named ["Mul", "MulN"] (fbin doubleText · "*"),
    named ["Div", "DivN"] (fbin doubleText · "/"),
    named ["Mod"] (fbin doubleText · "%"),
    named ["BitAnd"] (fbin doubleText · "&"),
    named ["BitOr"] (fbin doubleText · "|"),
    named ["BitXor"] (fbin doubleText · "^"),
    named ["LShift"] (fbin doubleText · "<<"),
    named ["RShift"] (fbin doubleText · ">>"),
    named ["URshift"] (fbin doubleText · ">>>"),
    named ["Eq"] (fbin doubleText · "=="),
    named ["Neq"] (fbin doubleText · "!="),
    named ["StrictEq"] (fbin doubleText · "==="),
    named ["StrictNeq"] (fbin doubleText · "!=="),
    named ["Less"] (fbin doubleText · "<"),
    named ["LessEq"] (fbin doubleText · "<="),
    named ["Greater"] (fbin doubleText · ">"),
    named ["GreaterEq"] (fbin doubleText · ">="),
    named ["InstanceOf"] (fbin doubleText · "instanceof"),
    named ["IsIn"] (fbin doubleText · "in"),
    named ["Negate"] fun ops => "-" ++ vr doubleText ops 1,
    named ["Not"] fun ops => "!" ++ vr doubleText ops 1,
    named ["BitNot"] fun ops => "~" ++ vr doubleText ops 1,
    named ["TypeOf"] fun ops => "typeof " ++ vr doubleText ops 1,
    named ["Inc"] fun ops => vr doubleText ops 1 ++ " + 1",
    named ["Dec"] fun ops => vr doubleText ops 1 ++ " - 1"]

def constantTexts : List (Arm String) :=
  [
    named ["LoadConstString", "LoadConstStringLongIndex"] fun ops =>
      match ops[1]? with
      | some (SsaOperand.stringId s) =>
        "\"" ++ String.ofList ((getStr s).toList.flatMap escapeConstChar) ++ "\""
      | _ => "\"\"",
    named ["LoadConstInt", "LoadConstUInt8"] (cr · 1),
    named ["LoadConstDouble"] fun ops =>
      match ops[1]? with
      | some (SsaOperand.constDouble bits) => (Decompile.Literal.double bits).display doubleText
      | _ => "/* missing LoadConstDouble operand */ undefined",
    named ["LoadConstNull"] fun _ => "null",
    named ["LoadConstUndefined"] fun _ => "undefined",
    named ["LoadConstTrue"] fun _ => "true",
    named ["LoadConstFalse"] fun _ => "false",
    named ["LoadConstZero"] fun _ => "0",
    named ["LoadConstEmpty"] fun _ => "undefined",
    named ["LoadParam"] fun ops =>
      match ops[1]? with
      | some (SsaOperand.const 0) => "this"
      | some (SsaOperand.const n) => "a" ++ toString (n - 1)
      | _ => "/* missing LoadParam index */ undefined"]

def accessTexts : List (Arm String) :=
  [
    starting ["GetById", "TryGetById"] fun op =>
      propText getStr (vr doubleText op.operands 1) op.operands,
    named ["GetByVal"] fun ops => vr doubleText ops 1 ++ "[" ++ vr doubleText ops 2 ++ "]",
    named ["GetGlobalObject"] fun _ => "globalThis"]

/-- `.call` with the operands from index 2 to `last`. -/
def callOpText (ops : List SsaOperand) (last : Nat) : String :=
  vr doubleText ops 1 ++ ".call(" ++
    joinComma ((List.range' 2 (last - 1)).map (vr doubleText ops)) ++ ")"

def callTexts : List (Arm String) :=
  [
    named ["Call1"] fun ops => vr doubleText ops 1 ++ "()",
    named ["Call2"] (callOpText doubleText · 3),
    named ["Call3"] (callOpText doubleText · 4),
    named ["Call4"] (callOpText doubleText · 5),
    named ["Construct", "ConstructLong"] fun ops => "new " ++ vr doubleText ops 1 ++ "()",
    named ["ConstructNew"] fun ops =>
      "new " ++ vr doubleText ops 1 ++ "(" ++ joinComma ((ops.drop 3).filterMap argText) ++ ")",
    named ["MethodCall"] fun ops =>
      let method := match ops[2]? with
        | some (SsaOperand.resolvedString s) => s
        | _ => "?"
      vr doubleText ops 1 ++ "." ++ method ++ "(" ++
        joinComma ((ops.drop 3).filterMap argText) ++ ")"]

def objectTexts : List (Arm String) :=
  [
    named ["GetEnvironment"] fun ops => "env[" ++ cr ops 1 ++ "]",
    named ["LoadFromEnvironment", "LoadFromEnvironmentL"] fun ops =>
      let slotText := vr doubleText ops 1 ++ ".slot[" ++ cr ops 2 ++ "]"
      match ops[1]? with
      | some (SsaOperand.const sentinel) =>
        let s := asU32 sentinel
        if s &&& 0xF0000000 = 0xF0000000 then
          "_closure" ++ Nat.repr ((s >>> 16) &&& 0xFFF) ++ "_slot" ++ Nat.repr (s &&& 0xFFFF)
        else slotText
      | _ => slotText,
    named ["CreateThis"] fun ops => "Object.create(" ++ vr doubleText ops 1 ++ ".prototype)",
    named ["SelectObject"] fun ops =>
      vr doubleText ops 2 ++ " instanceof Object ? " ++ vr doubleText ops 2 ++ " : " ++
        vr doubleText ops 1,
    named ["Mov", "MovLong"] (vr doubleText · 1),
    named ["NewObject"] fun _ => "(\x7b\x7d)",
    named ["NewObjectWithParent"] fun ops => "Object.create(" ++ vr doubleText ops 1 ++ ")",
    named ["NewArray"] fun ops => "new Array(" ++ cr ops 1 ++ ")",
    named ["Catch"] fun _ => voidText "caught exception",
    named ["GetPNameList"] fun ops => "Object.keys(" ++ vr doubleText ops 1 ++ ")",
    named ["GetNextPName"] fun ops => vr doubleText ops 1 ++ ".next()",
    named ["IteratorBegin"] fun ops => vr doubleText ops 1 ++ "[Symbol.iterator]()",
    named ["IteratorNext"] fun ops => vr doubleText ops 1 ++ ".next()",
    named ["IteratorClose"] fun ops => vr doubleText ops 1 ++ ".return()"]

def closureTexts : List (Arm String) :=
  [
    named ["StartGenerator"] fun _ => voidText "generator start",
    named ["ResumeGenerator"] fun _ => voidText "resume",
    named ["SaveGenerator", "SaveGeneratorLong"] fun _ => "yield",
    named ["CompleteGenerator"] fun _ => "return",
    named ["CreateGenerator", "CreateGeneratorLongIndex"] (funcText "generator"),
    named ["CreateClosure", "CreateClosureLongIndex"] (funcText "closure"),
    named ["CreateAsyncClosure", "CreateAsyncClosureLongIndex"] (funcText "async closure"),
    named ["CreateGeneratorClosure", "CreateGeneratorClosureLongIndex"] (funcText "generator")]

def conversionTexts : List (Arm String) :=
  [
    named ["AddEmptyString", "AddS"] fun ops => "\"\" + " ++ vr doubleText ops 1,
    named ["ToNumber", "ToNumeric"] fun ops => "+" ++ vr doubleText ops 1,
    named ["ToInt32"] fun ops => vr doubleText ops 1 ++ " | 0",
    named ["ToUint32"] fun ops => vr doubleText ops 1 ++ " >>> 0",
    named ["GetArgumentsLength"] fun _ => "arguments.length",
    named ["GetArgumentsPropByVal", "GetArgumentsPropByValLoose", "GetArgumentsPropByValStrict"]
      fun ops => "arguments[" ++ vr doubleText ops 1 ++ "]",
    named ["ReifyArguments", "ReifyArgumentsLoose", "ReifyArgumentsStrict"]
      fun _ => "Array.from(arguments)",
    named ["CreateThisForNew", "CreateThisForSuper"]
      fun ops => "Object.create(" ++ vr doubleText ops 1 ++ ".prototype)",
    named ["GetNewTarget"] fun _ => "new.target",
    named ["NewObjectWithBuffer", "NewObjectWithBufferLong", "NewObjectWithBufferAndParent"]
      fun ops =>
        match ops[1]? with
        | some (SsaOperand.resolvedString s) => s
        | _ => "\x7b /* buffer */ \x7d",
    named ["NewArrayWithBuffer", "NewArrayWithBufferLong"] fun ops =>
      match ops[1]? with
      | some (SsaOperand.resolvedString s) => s
      | _ => "[ /* buffer */ ]"]

/-- A store to a property that a string id names. -/
def storeByIdText (op : SsaOp) : String :=
  propText getStr (vr doubleText op.operands 0) op.operands ++ " = " ++ vr doubleText op.operands 1

def storeTexts : List (Arm String) :=
  [
    starting ["PutById", "TryPutById"] (storeByIdText doubleText getStr),
    starting ["PutNewOwnById", "PutNewOwnNEById", "DefineOwnById"]
      (storeByIdText doubleText getStr),
    named ["PutByVal", "PutByValLoose", "PutByValStrict"] fun ops =>
      vr doubleText ops 0 ++ "[" ++ vr doubleText ops 1 ++ "] = " ++ vr doubleText ops 2,
    named ["PutOwnByIndex", "PutOwnByIndexL"] fun ops =>
      vr doubleText ops 0 ++ "[" ++ cr ops 2 ++ "] = " ++ vr doubleText ops 1,
    named ["PutOwnByVal"] fun ops =>
      vr doubleText ops 0 ++ "[" ++ vr doubleText ops 2 ++ "] = " ++ vr doubleText ops 1,
    starting ["StoreToEnvironment", "StoreNPToEnvironment"] fun op =>
      vr doubleText op.operands 0 ++ ".slot[" ++ cr op.operands 1 ++ "] = " ++
        vr doubleText op.operands 2,
    named ["DelById", "DelByIdLong"] fun ops =>
      "delete " ++ propText getStr (vr doubleText ops 0) ops,
    named ["DelByVal"] fun ops =>
      "delete " ++ vr doubleText ops 0 ++ "[" ++ vr doubleText ops 1 ++ "]",
    named ["DeclareGlobalVar"] fun ops =>
      match ops.head? with
      | some (SsaOperand.const sid) => "/* global */ var " ++ getStr (asU32 sid)
      | _ => "/* global */ var ?",
    named ["Throw"] fun ops => "throw " ++ vr doubleText ops 0,
    ⟨.oneOf ["ThrowIfEmpty", "ThrowIfUndefined"],
      fun op => vr doubleText op.operands 0 ++ " /* " ++ op.name ++ " */"⟩,
    named ["Debugger"] fun _ => "debugger",
    named ["DirectEval"] fun ops => "eval(" ++ vr doubleText ops 1 ++ ")",
    named ["PutOwnGetterSetterByVal", "DefineOwnGetterSetterByVal"] fun ops =>
      definePropertyText (vr doubleText ops 0) (vr doubleText ops 1) (vr doubleText ops 2)
        (vr doubleText ops 3),
    named ["CreateEnvironment", "CreateFunctionEnvironment", "CreateTopLevelEnvironment"]
      fun ops => voidText ("new env(" ++ cr ops 1 ++ ")"),
    named ["GetParentEnvironment"] fun ops => voidText ("parent env(" ++ cr ops 1 ++ ")"),
    named ["PutOwnBySlotIdx"] fun ops =>
      vr doubleText ops 0 ++ "[" ++ cr ops 2 ++ "] = " ++ vr doubleText ops 1,
    named ["DefineOwnInDenseArray"] fun ops =>
      vr doubleText ops 0 ++ "[" ++ cr ops 2 ++ "] = " ++ vr doubleText ops 1,
    named ["DefineOwnByVal"] fun ops =>
      vr doubleText ops 0 ++ "[" ++ vr doubleText ops 1 ++ "] = " ++ vr doubleText ops 2,
    named ["GetByIndex"] fun ops => vr doubleText ops 1 ++ "[" ++ cr ops 2 ++ "]"]

def otherTexts : List (Arm String) :=
  [
    named ["CreateRegExp"] fun ops =>
      match ops[1]?, ops[2]? with
      | some (SsaOperand.const pat), some (SsaOperand.const flags) =>
        "/" ++ String.ofList (escapeSlashes (getStr (asU32 pat)).toList) ++ "/" ++
          getStr (asU32 flags)
      | _, _ => voidText "regexp",
    named ["CallBuiltin", "CallBuiltinLong"] fun ops =>
      voidText ("builtin (" ++ joinComma ((ops.drop 1).filterMap builtinArgText) ++ ")"),
    named ["GetBuiltinClosure"] fun ops => voidText ("builtin[" ++ cr ops 1 ++ "]"),
    named ["CreateBaseClass", "CreateBaseClassLongIndex"]
      fun ops => voidText ("class (" ++ vr doubleText ops 1 ++ ")"),
    named ["CreateDerivedClass", "CreateDerivedClassLongIndex"] fun ops =>
      voidText ("class extends " ++ vr doubleText ops 3 ++ " (" ++ vr doubleText ops 1 ++ ")"),
    named ["CreatePrivateName"] fun ops =>
      match ops[1]? with
      | some (SsaOperand.const sid) => voidText ("#private(" ++ getStr (asU32 sid) ++ ")")
      | some (SsaOperand.resolvedString name) => voidText ("#private(" ++ name ++ ")")
      | _ => voidText "#private",
    named ["LoadParentNoTraps"] fun ops => voidText ("super (" ++ vr doubleText ops 1 ++ ")"),
    named ["PrivateIsIn"] fun ops => vr doubleText ops 1 ++ " in " ++ vr doubleText ops 2,
    named ["AddOwnPrivateBySym"] fun ops =>
      vr doubleText ops 1 ++ "._private = " ++ vr doubleText ops 2,
    named ["PutOwnPrivateBySym"] fun ops =>
      vr doubleText ops 0 ++ "._private = " ++ vr doubleText ops 1,
    named ["GetOwnPrivateBySym"] fun ops => vr doubleText ops 1 ++ "._private",
    named ["LoadConstBigInt", "LoadConstBigIntLongIndex"] fun ops =>
      match ops[1]? with
      | some (SsaOperand.resolvedBigInt s) => s ++ "n"
      | some (SsaOperand.const v) => "/* missing bigint #" ++ toString v ++ " */"
      | _ => "/* missing bigint */",
    named ["CallWithNewTarget", "CallWithNewTargetLong"]
      fun ops => "Reflect.construct(" ++ vr doubleText ops 1 ++ ", [])"]

def formatArms : List (Arm String) :=
  operatorTexts doubleText ++ constantTexts doubleText getStr ++ accessTexts doubleText getStr ++
    callTexts doubleText ++ objectTexts doubleText ++ closureTexts ++ conversionTexts doubleText ++
    storeTexts doubleText getStr ++ otherTexts doubleText getStr

def formatOp (op : SsaOp) : String :=
  match armOf (formatArms doubleText getStr) op.name with
  | some arm => arm.body op
  | none =>
    voidText (op.name ++ " (" ++
      joinComma ((op.operands.drop 1).filterMap (otherArgText doubleText getStr)) ++ ")")

/-! ## Arms by name -/

/-- The patterns of the arms, which depend on no text. -/
def formatPatterns : List ArmPattern := (formatArms (fun _ => "") fun _ => "").map Arm.pattern

theorem map_pattern_formatArms :
    (formatArms doubleText getStr).map Arm.pattern = formatPatterns := by
  simp only [formatPatterns, formatArms, operatorTexts, constantTexts, accessTexts, callTexts,
    objectTexts, conversionTexts, storeTexts, otherTexts, named, starting, List.map_append,
    List.map_cons, List.map_nil]

variable {doubleText getStr}

/-- The text of an operation whose name the pattern at index `i` is the first to have. -/
theorem formatOp_of_findIdx? {op : SsaOp} {i : Nat} {arm : Arm String}
    (hindex : formatPatterns.findIdx? (ArmPattern.has op.name) = some i)
    (harm : (formatArms doubleText getStr)[i]? = some arm) :
    formatOp doubleText getStr op = arm.body op := by
  rw [formatOp, armOf_eq_bind, map_pattern_formatArms, hindex, Option.bind_some, harm]

/-- An operation without an arm prints as a comment, without its first operand. -/
theorem formatOp_of_findIdx?_eq_none {op : SsaOp}
    (hindex : formatPatterns.findIdx? (ArmPattern.has op.name) = none) :
    formatOp doubleText getStr op =
      voidText (op.name ++ " (" ++
        joinComma ((op.operands.drop 1).filterMap (otherArgText doubleText getStr)) ++ ")") := by
  rw [formatOp, armOf_eq_bind, map_pattern_formatArms, hindex, Option.bind_none]

end

end

end Hermes.Structure
