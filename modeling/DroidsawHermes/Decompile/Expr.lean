-- SUMMARY: Expressions, their printed text, and the substitution of inlined variables.
import DroidsawHermes.Decompile.Environments

/-!
# Expressions

The expression tree of `decompile/expr.rs`, its `Display`, and `Expr::substitute`.
The text of a finite double is a parameter: it is the one that the Rust standard
library prints.
-/

namespace Hermes.Decompile

/-! ## Data -/

inductive BinOp where
  | add | sub | mul | div | mod | exp | bitAnd | bitOr | bitXor | lShift | rShift | urShift
  | eq | neq | strictEq | strictNeq | less | lessEq | greater | greaterEq | instanceOf | in
  deriving DecidableEq, Repr

inductive UnaryOp where
  | neg | not | bitNot | typeof | void | toNumber | toInt32 | toUint32
  deriving DecidableEq, Repr

inductive ClosureKind where
  | sync | async | generator
  deriving DecidableEq, Repr

inductive EnvKind where
  | current | parent | closure
  deriving DecidableEq, Repr

inductive DecompileMeta where
  | env (kind : EnvKind)
  /-- Without a name, `name` is empty. -/
  | closure (funcId : Nat) (kind : ClosureKind) (name : String)
  deriving DecidableEq, Repr

inductive Literal where
  | int (n : Int)
  | double (bits : UInt64)
  | string (s : String)
  | bool (b : Bool)
  | null
  | undefined
  | bigInt (decimal : String)
  deriving DecidableEq, Repr

mutual

/-- An entry of an object literal. -/
inductive ObjectEntry where
  | keyVal (key : String) (value : Expr)
  | spread (source : Expr)

inductive Expr where
  | literal (l : Literal)
  | var (v : VarId)
  | global
  | this
  | param (index : Nat)
  | binary (op : BinOp) (left right : Expr)
  | unary (op : UnaryOp) (operand : Expr)
  | member (object : Expr) (property : String)
  | index (object index : Expr)
  | call (callee : Expr) (thisArg : Option Expr) (args : List Expr)
  | methodCall (object : Expr) (method : String) (args : List Expr)
  | new (callee : Expr) (args : List Expr)
  | arrayLit (items : List Expr)
  | objectLit (entries : List ObjectEntry)
  | regExp (pattern flags : String)
  | typeof (operand : Expr)
  | delete (operand : Expr)
  | assign (target value : Expr)
  | void (comment : String)
  | arguments
  | newTarget
  | debugger
  | yield (value : Option Expr)
  | await (value : Expr)
  | spread (operand : Expr)
  | globalIdent (name : String)
  | decompileMeta (m : DecompileMeta)
  | jsx (tag props : Expr) (children : List Expr)
  | taggedTemplate (tag : Expr) (cooked raw : List String) (subs : List Expr)
  | declareGlobal (name : String)
  | completeGenerator
  | raw (text : String)

end

/-! ## Operators -/

def BinOp.precedence : BinOp → Nat
  | .exp => 14
  | .mul | .div | .mod => 13
  | .add | .sub => 12
  | .lShift | .rShift | .urShift => 11
  | .less | .lessEq | .greater | .greaterEq | .instanceOf | .in => 10
  | .eq | .neq | .strictEq | .strictNeq => 9
  | .bitAnd => 8
  | .bitXor => 7
  | .bitOr => 6

def BinOp.display : BinOp → String
  | .add => "+"
  | .sub => "-"
  | .mul => "*"
  | .div => "/"
  | .mod => "%"
  | .exp => "**"
  | .bitAnd => "&"
  | .bitOr => "|"
  | .bitXor => "^"
  | .lShift => "<<"
  | .rShift => ">>"
  | .urShift => ">>>"
  | .eq => "=="
  | .neq => "!="
  | .strictEq => "==="
  | .strictNeq => "!=="
  | .less => "<"
  | .lessEq => "<="
  | .greater => ">"
  | .greaterEq => ">="
  | .instanceOf => "instanceof"
  | .in => "in"

def UnaryOp.text (operand : String) : UnaryOp → String
  | .neg => "-" ++ operand
  | .not => "!" ++ operand
  | .bitNot => "~" ++ operand
  | .typeof => "typeof " ++ operand
  | .void => "void " ++ operand
  | .toNumber => "+" ++ operand
  | .toInt32 => operand ++ " | 0"
  | .toUint32 => operand ++ " >>> 0"

/-- Parentheses where an operand binds less tightly than `op`, on the right also
where it binds as tightly. -/
def parenthesized (below : Bool) (text : String) : String :=
  if below then "(" ++ text ++ ")" else text

def Expr.binaryPrecedence? : Expr → Option Nat
  | .binary op _ _ => some op.precedence
  | _ => none

/-! ## Atoms -/

/-- `f64::is_nan`. -/
def isNaN (bits : UInt64) : Bool :=
  bits &&& 0x7FF0000000000000 = 0x7FF0000000000000 ∧ bits &&& 0x000FFFFFFFFFFFFF ≠ 0

def escapeLiteralChar : Char → List Char
  | '\\' => ['\\', '\\']
  | '"' => ['\\', '"']
  | '\n' => ['\\', 'n']
  | '\r' => ['\\', 'r']
  | '\x00' => ['\\', '0']
  | '\u2028' => ['\\', 'u', '2', '0', '2', '8']
  | '\u2029' => ['\\', 'u', '2', '0', '2', '9']
  | c => [c]

/-- Seven `replace` calls, the one for the backslash first. -/
def escapeLiteral (s : String) : String := String.ofList (s.toList.flatMap escapeLiteralChar)

def Literal.display (doubleText : UInt64 → String) : Literal → String
  | .int n => toString n
  | .double bits =>
    if isNaN bits then "NaN"
    else if bits = 0x7FF0000000000000 then "Infinity"
    else if bits = 0xFFF0000000000000 then "-Infinity"
    else doubleText bits
  | .string s => "\"" ++ escapeLiteral s ++ "\""
  | .bool b => if b then "true" else "false"
  | .null => "null"
  | .undefined => "undefined"
  | .bigInt decimal => decimal ++ "n"

def ClosureKind.display : ClosureKind → String
  | .sync => "closure"
  | .async => "async"
  | .generator => "generator"

def DecompileMeta.display : DecompileMeta → String
  | .env .current => "_env"
  | .env .parent => "_parentEnv"
  | .env .closure => "_env"
  | .closure funcId kind name =>
    if name = "" then "null /* " ++ kind.display ++ " #" ++ Nat.repr funcId ++ " */"
    else "null /* " ++ kind.display ++ " " ++ name ++ " #" ++ Nat.repr funcId ++ " */"

def paramText (index : Nat) : String := if index = 0 then "this" else "a" ++ Nat.repr (index - 1)

/-- `name.replace('?', "_")`. -/
def replaceQuestionMarks (name : String) : String :=
  String.ofList (name.toList.map fun c => if c = '?' then '_' else c)

def globalIdentText (name : String) : String :=
  let safe := replaceQuestionMarks name
  if startsWith safe "globalThis." ∧ isIntrinsicGlobal (String.ofList (safe.toList.drop 11)) then
    String.ofList (safe.toList.drop 11)
  else safe

/-- The pattern of a regular expression literal. -/
def safePattern : List Char → List Char
  | '\\' :: esc :: chars => '\\' :: esc :: safePattern chars
  | '/' :: chars => '\\' :: '/' :: safePattern chars
  | '\n' :: chars | '\r' :: chars | '\u2028' :: chars | '\u2029' :: chars =>
    '\\' :: 'n' :: safePattern chars
  | c :: chars => c :: safePattern chars
  | [] => []

def safeFlags (flags : List Char) : List Char := flags.filter fun c => "dgimsuy".toList.contains c

def regExpText (pattern flags : String) : String :=
  "/" ++ String.ofList (safePattern pattern.toList) ++ "/" ++ String.ofList (safeFlags flags.toList)

/-- `escape_template_raw_chunk`, on characters. -/
def escapeTemplateRawChars : List Char → List Char
  | '\\' :: next :: chars => '\\' :: next :: escapeTemplateRawChars chars
  | ['\\'] => ['\\', '\\']
  | '`' :: chars => '\\' :: '`' :: escapeTemplateRawChars chars
  | '$' :: '{' :: chars => '\\' :: '$' :: '{' :: escapeTemplateRawChars chars
  | other :: chars => other :: escapeTemplateRawChars chars
  | [] => []

def escapeTemplateRawChunk (s : String) : String :=
  String.ofList (escapeTemplateRawChars s.toList)

def escapeKeyChar : Char → List Char
  | '\\' => ['\\', '\\']
  | '"' => ['\\', '"']
  | '\n' => ['\\', 'n']
  | c => [c]

/-- The key of an object entry, quoted unless it is an identifier. -/
def keyText (key : String) : String :=
  if isValidJsIdent key then key
  else "\"" ++ String.ofList (key.toList.flatMap escapeKeyChar) ++ "\""

/-! ## JSX -/

/-- `text.rsplit('.').next()`. -/
def lastSegment (text : String) : String :=
  String.ofList (text.toList.reverse.takeWhile (· ≠ '.')).reverse

/-- The tag does not look like a component. -/
def isPlainTag (tagText : String) : Bool :=
  let name := (lastSegment tagText).toList
  name.isEmpty || name.contains '[' || name.contains ']' || name.contains '(' || name.contains ')'
    || name.head?.any fun c => c.isDigit || c = '{'

/-- The tag name of an element, from the text of its tag. -/
def jsxTagName (tagText : String) : String :=
  if startsWith tagText "\"" ∧ tagText.toList.getLast? = some '"' ∧ 2 < tagText.utf8ByteSize then
    String.ofList (tagText.toList.drop 1).dropLast
  else lastSegment tagText

def jsxAttribute (key valueText : String) : String :=
  if valueText = "true" then key else key ++ "=\x7b" ++ valueText ++ "\x7d"

def pushAttribute (jsxProps attr : String) : String :=
  if jsxProps = "" then attr else jsxProps ++ " " ++ attr

/-- A list of attributes, with a space in front of it. -/
def jsxAttributes (attributes : List String) : String :=
  let jsxProps := attributes.foldl pushAttribute ""
  if jsxProps = "" then "" else " " ++ jsxProps

/-- `prop.split_once(": ")`, as an attribute. -/
def jsxPropAttribute (prop : String) : Option String :=
  match prop.splitOn ": " with
  | key :: value :: more => some (jsxAttribute key (": ".intercalate (value :: more)))
  | _ => none

/-- The props that are neither `null` nor an object literal. -/
def jsxPropsText (p : String) : String :=
  if p = "null" ∨ p = "undefined" ∨ p = "\x7b  \x7d" then ""
  else if startsWith p "\x7b " ∧ [' ', '\x7d'].isSuffixOf p.toList then
    let inner := String.ofList ((p.toList.drop 2).dropLast.dropLast)
    jsxAttributes ((inner.splitOn ", ").filterMap jsxPropAttribute)
  else " \x7b..." ++ p ++ "\x7d"

/-! ## Display -/

def joinComma (texts : List String) : String := ", ".intercalate texts

/-- `Display` of `Expr::Call`, of a callee printed as `callee`. `calleeObject` is the text of
its object, when it is a member expression. -/
def callText (callee : String) (calleeObject thisArg : Option String) (args : List String) :
    String :=
  match thisArg with
  | none => callee ++ "(" ++ joinComma args ++ ")"
  | some this =>
    if this = "undefined" then callee ++ "(" ++ joinComma args ++ ")"
    else if calleeObject = some this then callee ++ "(" ++ joinComma args ++ ")"
    else callee ++ ".call(" ++ joinComma (this :: args) ++ ")"

def methodCallText (object method : String) (args : List String) : String :=
  if startsWith method "[" then object ++ method ++ "(" ++ joinComma args ++ ")"
  else object ++ "." ++ method ++ "(" ++ joinComma args ++ ")"

def jsxText (tagName props : String) (children : List String) : String :=
  if children = [] then "<" ++ tagName ++ props ++ " />"
  else "<" ++ tagName ++ props ++ ">" ++ joinComma children ++ "</" ++ tagName ++ ">"

/-- The chunks of a template with the substitutions between them. -/
def templateBody : List String → List String → String
  | chunk :: chunks, sub :: subs =>
    escapeTemplateRawChunk chunk ++ "$\x7b" ++ sub ++ "\x7d" ++ templateBody chunks subs
  | chunk :: chunks, [] => escapeTemplateRawChunk chunk ++ templateBody chunks []
  | [], _ => ""

/-- The tag of a template is not a simple expression. -/
def Expr.tagNeedsParens : Expr → Bool
  | .binary .. | .unary .. | .assign .. | .new .. => true
  | _ => false

def taggedTemplateText (tag : String) (needsParens : Bool) (raw subs : List String) : String :=
  if raw.length ≠ subs.length + 1 then
    tag ++ "(/* tagged-template malformed */ " ++ joinComma subs ++ ")"
  else
    (if needsParens then "(" ++ tag ++ ")" else tag) ++ "\x60" ++ templateBody raw subs ++ "\x60"

/-- The global object, for `Display` of a member of it. -/
def Expr.isGlobalObject : Expr → Bool
  | .global => true
  | .raw text => text = "globalThis"
  | _ => false

section

variable (doubleText : UInt64 → String)

mutual

def Expr.display : Expr → String
  | .literal l => l.display doubleText
  | .var v => v.display
  | .global => "globalThis"
  | .this => "this"
  | .param index => paramText index
  | .binary op left right =>
    parenthesized (left.binaryPrecedence?.any (· < op.precedence)) left.display ++ " " ++
      op.display ++ " " ++
      parenthesized (right.binaryPrecedence?.any (· ≤ op.precedence)) right.display
  | .unary op operand => op.text operand.display
  | .member object property => memberText object.isGlobalObject object.display property
  | .index object index => object.display ++ "[" ++ index.display ++ "]"
  | .call callee thisArg args =>
    callText callee.display callee.objectDisplay? (displayOption thisArg) (displayAll args)
  | .methodCall object method args => methodCallText object.display method (displayAll args)
  | .new callee args => "new " ++ callee.display ++ "(" ++ joinComma (displayAll args) ++ ")"
  | .arrayLit items => "[" ++ joinComma (displayAll items) ++ "]"
  | .objectLit entries => "\x7b " ++ joinComma (displayEntries entries) ++ " \x7d"
  | .regExp pattern flags => regExpText pattern flags
  | .typeof operand => "typeof " ++ operand.display
  | .delete operand => "delete " ++ operand.display
  | .assign target value => assignText target.display value.display
  | .void comment => "void 0 /* " ++ comment ++ " */"
  | .arguments => "arguments"
  | .newTarget => "new.target"
  | .debugger => "debugger"
  | .yield none => "yield"
  | .yield (some value) => "yield " ++ value.display
  | .await value => "await " ++ value.display
  | .spread operand => "..." ++ operand.display
  | .globalIdent name => globalIdentText name
  | .decompileMeta m => m.display
  | .jsx tag props children =>
    jsxText (jsxTagName tag.display) props.jsxProps (displayAll children)
  | .taggedTemplate tag _ raw subs =>
    taggedTemplateText tag.display tag.tagNeedsParens raw (displayAll subs)
  | .declareGlobal name => "/* global */ var " ++ replaceQuestionMarks name
  | .completeGenerator => "return"
  | .raw text => rawText text

/-- The text of the object of a member expression. -/
def Expr.objectDisplay? : Expr → Option String
  | .member object _ => some object.display
  | _ => none

/-- `format_jsx_props`. -/
def Expr.jsxProps : Expr → String
  | .literal .null => ""
  | .objectLit entries => jsxAttributes (jsxEntries entries)
  | other => jsxPropsText other.display

def displayOption : Option Expr → Option String
  | none => none
  | some e => some e.display

def displayAll : List Expr → List String
  | [] => []
  | e :: rest => e.display :: displayAll rest

def ObjectEntry.display : ObjectEntry → String
  | .keyVal key value => keyText key ++ ": " ++ value.display
  | .spread source => "..." ++ source.display

def displayEntries : List ObjectEntry → List String
  | [] => []
  | e :: rest => e.display :: displayEntries rest

def jsxEntries : List ObjectEntry → List String
  | [] => []
  | .keyVal key value :: rest => jsxAttribute key value.display :: jsxEntries rest
  | .spread source :: rest => ("\x7b..." ++ source.display ++ "\x7d") :: jsxEntries rest

end

end

/-! ## Substitution -/

/-- The tag, the props and the children of a call of `createElement`. -/
def Expr.createElementArgs? : Expr → Option (Expr × Expr × List Expr)
  | .call (.member _ "createElement") _ (tag :: args) =>
    some (tag, args.head?.getD (.literal .null), args.drop 1)
  | .methodCall _ "createElement" (tag :: args) =>
    some (tag, args.head?.getD (.literal .null), args.drop 1)
  | _ => none

def tryConvertJsx (doubleText : UInt64 → String) (e : Expr) : Expr :=
  match e.createElementArgs? with
  | some (tag, props, children) =>
    if isPlainTag (tag.display doubleText) then e else .jsx tag props children
  | none => e

def ObjectEntry.mapValue (f : Expr → Expr) : ObjectEntry → ObjectEntry
  | .keyVal key value => .keyVal key (f value)
  | .spread source => .spread (f source)

/-- A map over the expressions directly inside an expression. -/
def Expr.mapChildren (f : Expr → Expr) : Expr → Expr
  | .binary op left right => .binary op (f left) (f right)
  | .unary op operand => .unary op (f operand)
  | .member object property => .member (f object) property
  | .index object key => .index (f object) (f key)
  | .call callee thisArg args => .call (f callee) (thisArg.map f) (args.map f)
  | .methodCall object method args => .methodCall (f object) method (args.map f)
  | .jsx tag props children => .jsx (f tag) (f props) (children.map f)
  | .taggedTemplate tag cooked chunks subs => .taggedTemplate (f tag) cooked chunks (subs.map f)
  | .new callee args => .new (f callee) (args.map f)
  | .arrayLit items => .arrayLit (items.map f)
  | .objectLit entries => .objectLit (entries.map (ObjectEntry.mapValue f))
  | .typeof operand => .typeof (f operand)
  | .delete operand => .delete (f operand)
  | .assign target value => .assign (f target) (f value)
  | .yield (some value) => .yield (some (f value))
  | .await value => .await (f value)
  | .spread operand => .spread (f operand)
  | atom => atom

/-- `substitute_depth`, with the levels that remain until the guard stops it. -/
def Expr.substituteDepth (inlineMap : VarId → Option Expr) : Nat → Expr → Expr
  | 0, e => e
  | levels + 1, .var v =>
    match inlineMap v with
    | some replacement => replacement.substituteDepth inlineMap levels
    | none => .var v
  | levels + 1, e => e.mapChildren (Expr.substituteDepth inlineMap levels)

/-- Depths 0 to 32 substitute. -/
def Expr.substitute (doubleText : UInt64 → String) (inlineMap : VarId → Option Expr)
    (e : Expr) : Expr :=
  tryConvertJsx doubleText (e.substituteDepth inlineMap 33)

end Hermes.Decompile
