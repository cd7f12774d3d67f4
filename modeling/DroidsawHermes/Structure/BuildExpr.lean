-- SUMMARY: The expression that `build_expr` makes of an operation, as a table of arms.
import DroidsawHermes.Decompile.Expr
import DroidsawHermes.Structure.FormatOp

/-!
# Expressions of operations

`build_expr` of `decompile/expr.rs`. Its `match` on the name is a table of arms, in the
order of the source: the first arm whose pattern the name has is taken. An operation
without an arm prints as `format_op` writes it.
-/

namespace Hermes.Structure

open Decompile

/-! ## Operands -/

def varExpr (ops : List SsaOperand) (i : Nat) : Expr :=
  match ops[i]? with
  | some (SsaOperand.var v) => .var v
  | some (SsaOperand.const c) => .literal (.int c)
  | some (SsaOperand.constDouble bits) => .literal (.double bits)
  | some (SsaOperand.stringId s) => .literal (.string ("str[" ++ Nat.repr s ++ "]"))
  | some (SsaOperand.resolvedString s) => .literal (.string s)
  | some (SsaOperand.resolvedBigInt s) => .literal (.bigInt s)
  | some (SsaOperand.funcId f) => .decompileMeta (.closure f .sync "")
  | some SsaOperand.dstPlaceholder => .void "dst"
  | some (SsaOperand.blockTarget _) => .void "target"
  | none => .literal .undefined

def operandToExpr : SsaOperand → Expr
  | .var v => .var v
  | .const c => .literal (.int c)
  | .constDouble bits => .literal (.double bits)
  | .resolvedString s => .literal (.string s)
  | .resolvedBigInt s => .literal (.bigInt s)
  | .stringId s => .literal (.string ("str[" ++ Nat.repr s ++ "]"))
  | .funcId f => .decompileMeta (.closure f .sync "")
  | .dstPlaceholder | .blockTarget _ => .literal .undefined

/-- A token of a literal buffer, or an operand. -/
def tokenExpr : SsaOperand → Expr
  | .resolvedString token => .raw token
  | o => operandToExpr o

/-- The receiver that a call prints, unless it is undefined or the callee itself. -/
def callThisArg (ops : List SsaOperand) (calleeIdx thisIdx : Nat) : Option Expr :=
  match varExpr ops thisIdx with
  | .literal .undefined => none
  | thisExpr =>
    match ops[calleeIdx]?, ops[thisIdx]? with
    | some (SsaOperand.var cv), some (SsaOperand.var tv) => if cv = tv then none else some thisExpr
    | _, _ => some thisExpr

def closureExprOrPlaceholder (ops : List SsaOperand) (kind : ClosureKind) : Expr :=
  match findFuncId ops with
  | some f => .decompileMeta (.closure f kind "")
  | none => .raw "/* missing func_id */"

/-- `v as u16`. -/
def constTagToU16 (v : Int) : Nat := (v % 2 ^ 16).toNat

def typeofBitfieldName : Nat → String
  | 1 => "undefined"
  | 2 => "object"
  | 4 => "string"
  | 8 => "symbol"
  | 16 => "boolean"
  | 32 => "number"
  | 64 => "bigint"
  | 128 => "function"
  | 256 => "null"
  | _ => "unknown"

def isExponentiationOperator (id : Nat) : Bool :=
  builtinName id = "HermesBuiltin.exponentiationOperator"

section

variable (doubleText : UInt64 → String) (getStr : Nat → String)

/-- The name that a string id or a resolved string is. -/
def propName : Option SsaOperand → Option String
  | some (SsaOperand.const sid) => some (getStr (asU32 sid))
  | some (SsaOperand.resolvedString s) => some s
  | _ => none

/-- The pattern or the flags of a regular expression. -/
def regExpPart : Option SsaOperand → Option String
  | some (SsaOperand.const id) => some (getStr (asU32 id))
  | some (SsaOperand.resolvedString s) => some s
  | some (SsaOperand.stringId id) => some (getStr id)
  | _ => none

/-! ## Operators and constants -/

def binary (op : BinOp) (ops : List SsaOperand) : Expr :=
  .binary op (varExpr ops 1) (varExpr ops 2)

def unary (op : UnaryOp) (ops : List SsaOperand) : Expr := .unary op (varExpr ops 1)

def operatorArms : List (Arm Expr) :=
  [
    named ["Add", "AddN"] (binary .add), named ["Sub", "SubN"] (binary .sub),
    named ["Mul", "MulN"] (binary .mul), named ["Div", "DivN"] (binary .div),
    named ["Mod"] (binary .mod), named ["BitAnd"] (binary .bitAnd), named ["BitOr"] (binary .bitOr),
    named ["BitXor"] (binary .bitXor), named ["LShift"] (binary .lShift),
    named ["RShift"] (binary .rShift), named ["URshift"] (binary .urShift),
    named ["Eq"] (binary .eq), named ["Neq"] (binary .neq), named ["StrictEq"] (binary .strictEq),
    named ["StrictNeq"] (binary .strictNeq), named ["Less"] (binary .less),
    named ["LessEq"] (binary .lessEq), named ["Greater"] (binary .greater),
    named ["GreaterEq"] (binary .greaterEq), named ["InstanceOf"] (binary .instanceOf),
    named ["IsIn"] (binary .in), named ["Negate"] (unary .neg), named ["Not"] (unary .not),
    named ["BitNot"] (unary .bitNot), named ["TypeOf"] fun ops => .typeof (varExpr ops 1),
    named ["ToNumber", "ToNumeric"] (unary .toNumber), named ["ToInt32"] (unary .toInt32),
    named ["ToUint32"] (unary .toUint32),
    named ["Inc"] fun ops => .binary .add (varExpr ops 1) (.literal (.int 1)),
    named ["Dec"] fun ops => .binary .sub (varExpr ops 1) (.literal (.int 1))]

def loadConstInt (ops : List SsaOperand) : Expr :=
  match ops[1]? with
  | some (SsaOperand.const v) => .literal (.int v)
  | _ => .literal (.int 0)

def loadConstDouble (ops : List SsaOperand) : Expr :=
  match ops[1]? with
  | some (SsaOperand.constDouble bits) => .literal (.double bits)
  | _ => .literal (.double 0)

def loadConstBigInt (ops : List SsaOperand) : Expr :=
  match ops[1]? with
  | some (SsaOperand.resolvedBigInt s) => .literal (.bigInt s)
  | some (SsaOperand.const v) => .raw ("/* missing bigint #" ++ toString v ++ " */")
  | _ => .raw "/* missing bigint */"

def loadConstString (ops : List SsaOperand) : Expr :=
  match ops[1]? with
  | some (SsaOperand.stringId s) => .literal (.string (getStr s))
  | _ => .literal (.string "")

def loadParam (ops : List SsaOperand) : Expr :=
  match ops[1]? with
  | some (SsaOperand.const idx) => .param (asU32 idx)
  | _ => .param 0

def constantArms : List (Arm Expr) :=
  [
    named ["LoadConstNull"] fun _ => .literal .null,
    named ["LoadConstUndefined"] fun _ => .literal .undefined,
    named ["LoadConstTrue"] fun _ => .literal (.bool true),
    named ["LoadConstFalse"] fun _ => .literal (.bool false),
    named ["LoadConstZero"] fun _ => .literal (.int 0),
    named ["LoadConstEmpty"] fun _ => .literal .undefined,
    named ["LoadConstInt", "LoadConstUInt8"] loadConstInt,
    named ["LoadConstDouble"] loadConstDouble,
    named ["LoadConstBigInt", "LoadConstBigIntLongIndex"] loadConstBigInt,
    named ["LoadConstString", "LoadConstStringLongIndex"] (loadConstString getStr),
    named ["LoadParam", "LoadParamLong"] loadParam,
    named ["GetGlobalObject"] fun _ => .global]

/-! ## Accesses and calls -/

def accessArms : List (Arm Expr) :=
  [
    starting ["GetById", "TryGetById"] fun op =>
      match propName getStr op.operands.getLast? with
      | some prop => .member (varExpr op.operands 1) prop
      | none => .raw (formatOp doubleText getStr op),
    named ["GetByVal"] fun ops => .index (varExpr ops 1) (varExpr ops 2),
    named ["NewObject"] fun _ => .objectLit [],
    named ["NewArray"] fun ops =>
      match ops[1]? with
      | some (SsaOperand.const n) => .call (.globalIdent "Array") none [.literal (.int n)]
      | _ => .arrayLit [],
    named ["NewFastArray"] fun _ => .arrayLit [],
    named ["CacheNewObject"] fun _ => .objectLit [],
    named ["Mov", "MovLong"] (varExpr · 1)]

/-- `Call1` to `Call4`, with the arguments at the given indices. -/
def fixedCall (args : List Nat) (ops : List SsaOperand) : Expr :=
  .call (varExpr ops 1) (callThisArg ops 1 2) (args.map (varExpr ops))

def callArms : List (Arm Expr) :=
  [
    named ["Call1"] (fixedCall []),
    named ["Call2"] (fixedCall [3]),
    named ["Call3"] (fixedCall [3, 4]),
    named ["Call4"] (fixedCall [3, 4, 5]),
    named ["MethodCall"] fun ops =>
      let method := match ops[2]? with
        | some (SsaOperand.resolvedString s) => s
        | _ => "?"
      .methodCall (varExpr ops 1) method ((ops.drop 3).map operandToExpr),
    named ["Construct", "ConstructLong"] fun ops => .new (varExpr ops 1) [],
    named ["ConstructNew"] fun ops => .new (varExpr ops 1) ((ops.drop 3).map operandToExpr)]

/-! ## Stores -/

/-- A store to a property of the first operand. -/
def putById (op : SsaOp) : Option String → Expr
  | some prop => .assign (.member (varExpr op.operands 0) prop) (varExpr op.operands 1)
  | none => .raw (formatOp doubleText getStr op)

/-- A store to an index of the first operand, with the operands of the index and the value. -/
def putByVal (index value : Nat) (ops : List SsaOperand) : Expr :=
  .assign (.index (varExpr ops 0) (varExpr ops index)) (varExpr ops value)

/-- The slot of an object, by the name of its key where that is known. -/
def slotTarget (ops : List SsaOperand) : Expr :=
  match ops[2]? with
  | some (SsaOperand.resolvedString key) =>
    if isValidJsIdent key then .member (varExpr ops 0) key
    else .index (varExpr ops 0) (.literal (.string key))
  | _ => .index (varExpr ops 0) (varExpr ops 2)

def storeArms : List (Arm Expr) :=
  [
    starting ["PutById", "TryPutById"] fun op =>
      putById doubleText getStr op (propName getStr op.operands.getLast?),
    starting ["PutNewOwnById", "PutNewOwnNEById", "DefineOwnById"] fun op =>
      putById doubleText getStr op
        (match op.operands.getLast? with
        | some (SsaOperand.const sid) => some (getStr (asU32 sid))
        | _ => none),
    named ["PutByVal", "PutByValLoose", "PutByValStrict"] (putByVal 1 2),
    named ["PutOwnByIndex", "PutOwnByIndexL"] (putByVal 2 1),
    named ["PutOwnByVal"] (putByVal 2 1),
    named ["PutOwnBySlotIdx", "PutOwnBySlotIdxLong"] fun ops =>
      .assign (slotTarget ops) (varExpr ops 1),
    named ["GetOwnBySlotIdx", "GetOwnBySlotIdxLong"] fun ops =>
      .index (varExpr ops 1) (varExpr ops 2),
    named ["FastArrayStore"] (putByVal 1 2),
    named ["FastArrayLoad"] fun ops => .index (varExpr ops 1) (varExpr ops 2),
    named ["FastArrayLength"] fun ops => .member (varExpr ops 1) "length",
    named ["FastArrayPush"] fun ops => .methodCall (varExpr ops 0) "push" [varExpr ops 1],
    named ["FastArrayAppend"] fun ops =>
      .methodCall (varExpr ops 0) "push" [.spread (varExpr ops 1)]]

/-! ## Closures and environments -/

/-- A load of a slot, or the name that the closure sentinel stands for. -/
def loadFromEnvironment (ops : List SsaOperand) : Expr :=
  let member := .member (varExpr ops 1) (slotProperty ops[2]?)
  match ops[1]? with
  | some (SsaOperand.const sentinel) =>
    let s := asU32 sentinel
    if s &&& 0xF0000000 = 0xF0000000 then
      let level := (s >>> 16) &&& 0xFFF
      match ops[2]? with
      | some (SsaOperand.resolvedString name) => .raw ("_closure" ++ Nat.repr level ++ "_" ++ name)
      | _ => .raw ("_closure" ++ Nat.repr level ++ "_slot" ++ Nat.repr (s &&& 0xFFFF))
    else member
  | _ => member

def closureArms : List (Arm Expr) :=
  [
    named ["CreateClosure", "CreateClosureLongIndex"] (closureExprOrPlaceholder · .sync),
    named ["CreateAsyncClosure", "CreateAsyncClosureLongIndex"]
      (closureExprOrPlaceholder · .async),
    named ["CreateGeneratorClosure", "CreateGeneratorClosureLongIndex", "CreateGenerator",
      "CreateGeneratorLongIndex"] (closureExprOrPlaceholder · .generator),
    named ["CreateEnvironment", "CreateFunctionEnvironment", "CreateTopLevelEnvironment"]
      fun _ => .decompileMeta (.env .current),
    named ["GetEnvironment"] fun _ => .decompileMeta (.env .current),
    named ["GetParentEnvironment"] fun _ => .decompileMeta (.env .parent),
    starting ["LoadFromEnvironment"] fun op => loadFromEnvironment op.operands,
    starting ["StoreToEnvironment", "StoreNPToEnvironment"] fun op =>
      .assign (.member (varExpr op.operands 0) (slotProperty op.operands[1]?))
        (varExpr op.operands 2)]

/-! ## Misc -/

/-- A call of a function of a global object. -/
def globalCall (object function : String) (args : List Expr) : Expr :=
  .call (.member (.globalIdent object) function) none args

def declareGlobalVar (ops : List SsaOperand) : Expr :=
  match ops.head? with
  | some (SsaOperand.const sid) => .declareGlobal (getStr (asU32 sid))
  | _ => .declareGlobal "?"

def delById (op : SsaOp) : Expr :=
  match op.operands.getLast? with
  | some (SsaOperand.const sid) => .delete (.member (varExpr op.operands 1) (getStr (asU32 sid)))
  | _ => .raw (formatOp doubleText getStr op)

/-- The text of a literal buffer, or an empty literal. -/
def fromBuffer (unresolved : Expr) (ops : List SsaOperand) : Expr :=
  match ops[1]? with
  | some (SsaOperand.resolvedString s) => .raw s
  | _ => unresolved

def createRegExp (ops : List SsaOperand) : Expr :=
  match regExpPart getStr ops[1]?, regExpPart getStr ops[2]? with
  | some pattern, some flags => .regExp pattern flags
  | _, _ => .raw "/* missing regex operand */"

def miscArms : List (Arm Expr) :=
  [
    named ["Catch"] fun _ => .void "caught exception",
    named ["Debugger"] fun _ => .debugger,
    named ["ProfilePoint", "AsyncBreakCheck"] fun _ => .void "",
    named ["CoerceThisNS", "LoadThisNS"] fun _ => .this,
    named ["GetClosureEnvironment"] fun _ => .decompileMeta (.env .closure),
    named ["TypeOfIs", "JmpTypeOfIs"] fun ops =>
      let typeName := match ops[2]? with
        | some (SsaOperand.const tag) => typeofBitfieldName (constTagToU16 tag)
        | _ => "unknown"
      .binary .strictEq (.unary .typeof (varExpr ops 1)) (.literal (.string typeName)),
    named ["DirectEval"] fun ops => .call (.globalIdent "eval") none [varExpr ops 1],
    named ["Throw"] fun ops => .raw ("throw " ++ (varExpr ops 0).display doubleText),
    named ["ThrowIfThisInitialized"] fun _ => .void "",
    named ["DeclareGlobalVar"] (declareGlobalVar getStr),
    named ["AddEmptyString", "AddS"] fun ops =>
      .binary .add (.literal (.string "")) (varExpr ops 1),
    ⟨.oneOf ["DelById", "DelByIdLong"], delById doubleText getStr⟩,
    named ["DelByVal"] fun ops => .delete (.index (varExpr ops 1) (varExpr ops 2)),
    named ["NewObjectWithBuffer", "NewObjectWithBufferLong", "NewObjectWithBufferAndParent"]
      (fromBuffer (.objectLit [])),
    named ["NewArrayWithBuffer", "NewArrayWithBufferLong"] (fromBuffer (.arrayLit [])),
    named ["NewObjectWithParent"] fun ops => globalCall "Object" "create" [varExpr ops 1],
    named ["GetPNameList"] fun ops => globalCall "Object" "keys" [varExpr ops 1],
    named ["GetNextPName"] fun ops => .methodCall (varExpr ops 1) "next" [],
    named ["IteratorBegin"] fun ops => .methodCall (varExpr ops 1) "[Symbol.iterator]" [],
    ⟨.oneOf ["IteratorNext", "IteratorClose"], fun op =>
      .methodCall (varExpr op.operands 1) (if op.name = "IteratorNext" then "next" else "return")
        []⟩,
    named ["StartGenerator"] fun _ => .void "generator start",
    named ["ResumeGenerator"] fun _ => .void "resume",
    named ["SaveGenerator", "SaveGeneratorLong"] fun _ => .yield none,
    named ["CompleteGenerator"] fun _ => .completeGenerator,
    named ["GetArgumentsLength"] fun _ => .member .arguments "length",
    starting ["GetArgumentsPropByVal"] fun op => .index .arguments (varExpr op.operands 1),
    starting ["ReifyArguments"] fun _ => globalCall "Array" "from" [.arguments],
    named ["CreateThisForNew", "CreateThisForSuper", "CreateThis"] fun ops =>
      globalCall "Object" "create" [.member (varExpr ops 1) "prototype"],
    named ["SelectObject"] (varExpr · 0),
    named ["GetNewTarget"] fun _ => .newTarget,
    named ["CreateRegExp"] (createRegExp getStr)]

/-! ## Builtins and literals made by the passes -/

def builtinExpr (operand : Option SsaOperand) : Expr :=
  match operand with
  | some (SsaOperand.const id) => .globalIdent (builtinName (asU32 id))
  | _ => .raw "/* missing builtin_id */"

/-- A call of a builtin. The operator `**` is one with two arguments. -/
def callBuiltin (ops : List SsaOperand) : Expr :=
  let call := .call (builtinExpr ops[1]?) none ((ops.drop 3).map operandToExpr)
  match ops with
  | [_, SsaOperand.const id, _, left, right] =>
    if isExponentiationOperator (asU32 id) then
      .binary .exp (operandToExpr left) (operandToExpr right)
    else call
  | _ => call

/-- The cooked and the raw chunks of a template. -/
def templateChunks : List SsaOperand → Option (List String × List String)
  | .resolvedString c :: .resolvedString r :: rest =>
    (templateChunks rest).map fun chunks => (c :: chunks.1, r :: chunks.2)
  | [] => some ([], [])
  | _ => none

def taggedTemplate (ops : List SsaOperand) : Expr :=
  let malformed := .raw "/* malformed tagged-template */"
  match ops[2]? with
  | some (SsaOperand.const n) =>
    if n < 1 then malformed
    else
      let needed := 3 + n.toNat * 2
      if ops.length < needed then malformed
      else match templateChunks ((ops.drop 3).take (n.toNat * 2)) with
        | some (cooked, raw) =>
          .taggedTemplate (varExpr ops 1) cooked raw ((ops.drop needed).map operandToExpr)
        | none => malformed
  | _ => malformed

/-- `char::is_whitespace`. -/
def isWhitespace (c : Char) : Bool :=
  c = ' ' || (0x09 ≤ c.toNat && c.toNat ≤ 0x0D) || c.toNat = 0x85 || c.toNat = 0xA0
    || c.toNat = 0x1680 || (0x2000 ≤ c.toNat && c.toNat ≤ 0x200A) || c.toNat = 0x2028
    || c.toNat = 0x2029 || c.toNat = 0x202F || c.toNat = 0x205F || c.toNat = 0x3000

/-- `str::trim`. -/
def trim (s : List Char) : List Char :=
  ((s.dropWhile isWhitespace).reverse.dropWhile isWhitespace).reverse

/-- The text between the brackets of an array literal, or nothing. -/
def insideBrackets (s : List Char) : List Char :=
  match trim s with
  | '[' :: inner => if inner.getLast? = some ']' then trim inner.dropLast else []
  | _ => []

/-- The operand at an index that the source takes for present. -/
def operandAt (ops : List SsaOperand) (i : Nat) : Expr :=
  (ops[i]?.map operandToExpr).getD (.literal .undefined)

def arraySpread (ops : List SsaOperand) : Expr :=
  match ops[1]? with
  | some (SsaOperand.resolvedString literal) =>
    let inner := insideBrackets literal.toList
    let items := if inner = [] then [] else ((String.ofList inner).splitOn ", ").map Expr.raw
    .arrayLit (items ++ [.spread (operandAt ops 2), operandAt ops 3])
  | _ => .raw "/* malformed array-spread */"

/-- The keys and the values of an object literal. -/
def objectPairs : List SsaOperand → Option (List ObjectEntry)
  | .resolvedString key :: value :: rest =>
    (objectPairs rest).map (.keyVal key (tokenExpr value) :: ·)
  | _ :: _ :: _ => none
  | _ => some []

def objectLit (ops : List SsaOperand) : Expr :=
  match objectPairs (ops.drop 1) with
  | some entries => .objectLit entries
  | none => .raw "/* malformed HermesObjectLit key */"

/-- The entry of a tag: `K:` and the key, or `S` for a spread. -/
def spreadEntry (tag : String) (value : Expr) : Option ObjectEntry :=
  match tag.toList with
  | 'K' :: ':' :: key => some (.keyVal (String.ofList key) value)
  | ['S'] => some (.spread value)
  | _ => none

def spreadEntries : List SsaOperand → Except String (List ObjectEntry)
  | .resolvedString tag :: value :: rest =>
    match spreadEntry tag (tokenExpr value) with
    | some entry => (spreadEntries rest).map (entry :: ·)
    | none => .error "/* malformed object-spread tag */"
  | _ :: _ :: _ => .error "/* malformed object-spread */"
  | _ => .ok []

def objectSpread (ops : List SsaOperand) : Expr :=
  match spreadEntries (ops.drop 1) with
  | .ok entries => .objectLit entries
  | .error text => .raw text

def builtinArms : List (Arm Expr) :=
  [
    named ["CallBuiltin", "CallBuiltinLong"] callBuiltin,
    named ["GetBuiltinClosure"] fun ops => builtinExpr ops[1]?,
    named ["HermesTaggedTemplate"] taggedTemplate,
    named ["HermesArraySpreadLit"] arraySpread,
    named ["HermesObjectLit"] objectLit,
    named ["HermesObjectSpreadLit"] objectSpread]

/-! ## Classes and variadic calls -/

/-- The callee of a call by function id. -/
def directCallee : Option SsaOperand → Expr
  | some (SsaOperand.const id) => .raw ("/* direct #" ++ Nat.repr (asU32 id) ++ " */")
  | some (SsaOperand.funcId id) => .raw ("/* direct #" ++ Nat.repr id ++ " */")
  | _ => .raw "/* missing func_id */"

/-- A call with its receiver and its arguments from index 3 on. -/
def variadicCall (callee : Expr) (calleeIdx : Nat) (ops : List SsaOperand) : Expr :=
  .call callee (callThisArg ops calleeIdx 3) ((ops.drop 4).map operandToExpr)

/-- A call of `require`, with the module id. -/
def callRequire (ops : List SsaOperand) : Expr :=
  match ops[2]? with
  | some (SsaOperand.const id) => .call (.globalIdent "require") none [.literal (.int id)]
  | _ => .call (.globalIdent "require") none [.raw "/* missing module_id */"]

def privateStore (object value : Nat) (ops : List SsaOperand) : Expr :=
  .assign (.member (varExpr ops object) "_private") (varExpr ops value)

def classArms : List (Arm Expr) :=
  [
    named ["CallWithNewTarget", "CallWithNewTargetLong"] fun ops =>
      globalCall "Reflect" "construct" [varExpr ops 1, .arrayLit []],
    named ["CreateBaseClass", "CreateBaseClassLongIndex"] fun _ => .void "class",
    named ["CreateDerivedClass", "CreateDerivedClassLongIndex"] fun _ => .void "class extends",
    named ["CreatePrivateName"] fun _ => .void "private",
    named ["LoadParentNoTraps"] fun ops => globalCall "Object" "getPrototypeOf" [varExpr ops 1],
    named ["PrivateIsIn"] (binary .in),
    named ["AddOwnPrivateBySym"] (privateStore 1 2),
    named ["PutOwnPrivateBySym"] (privateStore 0 1),
    named ["GetOwnPrivateBySym"] fun ops => .member (varExpr ops 1) "_private",
    named ["DefineOwnInDenseArray", "DefineOwnInDenseArrayL", "DefineOwnByVal"] (putByVal 2 1),
    named ["GetByIndex"] fun ops => .index (varExpr ops 1) (varExpr ops 2),
    named ["ThrowIfEmpty", "ThrowIfUndefined"] (varExpr · 0),
    named ["Call", "CallLong"] fun ops => variadicCall (varExpr ops 1) 1 ops,
    named ["CallDirect", "CallDirectLongIndex"] fun ops =>
      variadicCall (directCallee ops[2]?) 2 ops,
    named ["CallRequire"] callRequire]

/-! ## build_expr -/

def exprArms : List (Arm Expr) :=
  operatorArms ++ constantArms getStr ++ accessArms doubleText getStr ++ callArms ++
    storeArms doubleText getStr ++ closureArms ++ miscArms doubleText getStr ++ builtinArms ++
    classArms

def buildExpr (op : SsaOp) : Expr :=
  tryConvertJsx doubleText
    (match armOf (exprArms doubleText getStr) op.name with
    | some arm => arm.body op
    | none => .raw (formatOp doubleText getStr op))

/-! ## Arms by name -/

/-- The patterns of the arms, which depend on no text. -/
def exprPatterns : List ArmPattern := (exprArms (fun _ => "") fun _ => "").map Arm.pattern

theorem map_pattern_exprArms : (exprArms doubleText getStr).map Arm.pattern = exprPatterns := by
  simp only [exprPatterns, exprArms, constantArms, accessArms, storeArms, miscArms, named,
    starting, List.map_append, List.map_cons]

variable {doubleText getStr}

/-- The expression of an operation whose name the pattern at index `i` is the first to have. -/
theorem buildExpr_of_findIdx? {op : SsaOp} {i : Nat} {arm : Arm Expr}
    (hindex : exprPatterns.findIdx? (ArmPattern.has op.name) = some i)
    (harm : (exprArms doubleText getStr)[i]? = some arm) :
    buildExpr doubleText getStr op = tryConvertJsx doubleText (arm.body op) := by
  rw [buildExpr, armOf_eq_bind, map_pattern_exprArms, hindex, Option.bind_some, harm]

/-- An operation without an arm is the text of `format_op`. -/
theorem buildExpr_of_findIdx?_eq_none {op : SsaOp}
    (hindex : exprPatterns.findIdx? (ArmPattern.has op.name) = none) :
    buildExpr doubleText getStr op = .raw (formatOp doubleText getStr op) := by
  rw [buildExpr, armOf_eq_bind, map_pattern_exprArms, hindex, Option.bind_none]
  rfl

/-! ## Elements -/

theorem varExpr_ne_member (ops : List SsaOperand) (i : Nat) (object : Expr) (property : String) :
    varExpr ops i ≠ .member object property := by
  fun_cases varExpr ops i <;> simp

end

end Hermes.Structure
