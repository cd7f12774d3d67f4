-- SUMMARY: The receiver of printed calls: how JavaScript reads a printed call, and exactly when it binds the receiver of the operation.
import DroidsawHermes.Structure.BuildExpr

/-!
# Receivers of printed calls

Whether a call prints `.call` is decided twice: `call_this_arg` looks at the operands, and
`Display` compares texts after the substitution. What JavaScript binds depends on the
shape of the callee that is printed.
-/

namespace Hermes.Structure

open Decompile

/-! ## Shapes of printed expressions -/

/-- What a printed expression is to what stands behind it. -/
inductive Shape where
  /-- `object.m` or `object[k]`: a call binds the object. -/
  | access (object : String)
  /-- Another expression that a call or a dot can follow. -/
  | value
  /-- Digits, which a call can follow and a dot cannot. -/
  | digits
  /-- An expression that binds less tightly than a call. -/
  | loose
  /-- No expression, or several. -/
  | fragment
  deriving DecidableEq, Repr

/-- A call can follow. -/
def Shape.callable : Shape → Bool
  | .access _ | .value | .digits => true
  | .loose | .fragment => false

/-- A dot can follow. -/
def Shape.dotted : Shape → Bool
  | .access _ | .value => true
  | .digits | .loose | .fragment => false

/-- The expression is one argument. -/
def Shape.argument : Shape → Bool
  | .fragment => false
  | _ => true

/-- The shape of an expression that begins with one of shape `head` and goes on as `whole`,
where what goes on can follow the head if `follows`. -/
def Shape.behind (head whole : Shape) (follows : Bool) : Shape :=
  if follows then whole else if head.argument then .loose else .fragment

/-- A number, by its text. -/
def numberShape (text : String) : Shape :=
  if text.toList.head? = some '-' then .loose
  else if text.toList.all Char.isDigit then .digits
  else .value

section

variable (doubleText : UInt64 → String)

/-- The receiver that a call prints in `.call`. -/
def printedReceiver (callee : Expr) (thisArg : Option Expr) : Option Expr :=
  thisArg.filter fun receiver =>
    receiver.display doubleText ≠ "undefined" ∧
      callee.objectDisplay? doubleText ≠ some (receiver.display doubleText)

variable (rawShape : String → Shape)

def literalShape (l : Decompile.Literal) : Shape :=
  match l with
  | .int _ | .double _ | .bigInt _ => numberShape (l.display doubleText)
  | .string _ | .bool _ | .null | .undefined => .value

/-- The shape of a printed expression. What `Expr::Raw` and the global identifiers print
is read by `rawShape`. -/
def shapeOf : Expr → Shape
  | .literal l => literalShape doubleText l
  | .var _ | .global | .this | .param _ | .arguments | .newTarget => .value
  | .arrayLit _ | .objectLit _ | .regExp .. | .decompileMeta _ | .jsx .. => .value
  | .binary .. | .unary .. | .typeof _ | .delete _ | .void _ | .yield _ | .await _ => .loose
  | .spread _ | .debugger | .declareGlobal _ | .completeGenerator => .fragment
  | .member object property =>
    if object.isGlobalObject ∧ isIntrinsicGlobal property then .value
    else
      let parens := (object.display doubleText).toList.head?.any fun c => c.isDigit || c = '-'
      (shapeOf object).behind (.access (object.display doubleText))
        (if parens then (shapeOf object).argument else (shapeOf object).dotted)
  | .index object _ =>
    (shapeOf object).behind (.access (object.display doubleText)) (shapeOf object).callable
  | .call callee thisArg _ =>
    (shapeOf callee).behind .value
      (if (printedReceiver doubleText callee thisArg).isSome then (shapeOf callee).dotted else (shapeOf callee).callable)
  | .methodCall object method _ =>
    (shapeOf object).behind .value
      (if startsWith method "[" then (shapeOf object).callable else (shapeOf object).dotted)
  | .new callee _ => (shapeOf callee).behind .value (shapeOf callee).callable
  | .taggedTemplate tag _ raw subs =>
    if raw.length = subs.length + 1 ∧ tag.tagNeedsParens then .value
    else (shapeOf tag).behind .value (shapeOf tag).callable
  | .assign target _ =>
    -- a target that cannot be assigned is printed inside a comment
    if reservedTargets.contains (target.display doubleText) then .fragment else .loose
  | .globalIdent name => rawShape (globalIdentText name)
  | .raw text => rawShape (rawText text)

/-! ## Reading a printed call -/

/-- What a call does: what it calls, on which receiver and with which arguments. -/
structure CallReading where
  callee : String
  receiver : String
  args : List String
  deriving DecidableEq, Repr

/-- What a callee binds without `.call`. -/
def Shape.binds : Shape → Option String
  | .access object => some object
  | .value | .digits => some "undefined"
  | .loose | .fragment => none

/-- A printed call, as JavaScript reads it. -/
def readCall (callee : Expr) (thisArg : Option Expr) (args : List Expr) : Option CallReading :=
  let reading receiver := CallReading.mk (callee.display doubleText) receiver
    (args.map (Expr.display doubleText))
  if args.all fun arg => (shapeOf doubleText rawShape arg).argument then
    match printedReceiver doubleText callee thisArg with
    | some receiver =>
      if (shapeOf doubleText rawShape callee).dotted ∧
          (shapeOf doubleText rawShape receiver).argument then
        some (reading (receiver.display doubleText))
      else none
    | none => (shapeOf doubleText rawShape callee).binds.map reading
  else none

/-! ## What the shapes and the readings say of the text -/

section

variable {doubleText rawShape}

theorem behind_eq_access {head whole : Shape} {follows : Bool} {object : String}
    (h : head.behind whole follows = .access object) : follows = true ∧ whole = .access object := by
  unfold Shape.behind at h
  split at h
  · exact ⟨‹_›, h⟩
  · split at h <;> cases h

theorem literalShape_ne_access (l : Decompile.Literal) (object : String) :
    literalShape doubleText l ≠ .access object := by
  have hnumber : ∀ text, numberShape text ≠ .access object := by
    intro text
    unfold numberShape
    split
    · simp
    · split <;> simp
  cases l <;> simp [literalShape, hnumber]

/-- A member prints its object, or the object in parentheses, and then a dot or a bracket. -/
theorem memberText_access {isGlobal : Bool} {object property : String}
    (h : ¬ (isGlobal ∧ isIntrinsicGlobal property)) :
    ∃ before tail, memberText isGlobal object property = before ++ tail ∧
      (before = object ∨ before = "(" ++ object ++ ")") ∧
      (startsWith tail "." ∨ startsWith tail "[") := by
  rw [memberText, if_neg h]
  dsimp only
  set parens := object.toList.head?.any fun c => c.isDigit || c = '-'
  refine ⟨if parens then "(" ++ object ++ ")" else object, if isDotProperty property then "." ++ property
    else "[\"" ++ escapeProperty property ++ "\"]", ?_, ?_, ?_⟩
  · split <;> simp only [String.append_assoc]
  · cases parens with
    | true => exact Or.inr rfl
    | false => exact Or.inl rfl
  · split
    · exact Or.inl (by simp [startsWith])
    · exact Or.inr (by simp [startsWith])

/-- What reads as an access prints its object and then a dot or a bracket. -/
theorem display_of_shapeOf_access {e : Expr} {object : String}
    (h : shapeOf doubleText rawShape e = .access object) (hraw : ∀ text, e ≠ .raw text)
    (hident : ∀ name, e ≠ .globalIdent name) :
    ∃ before tail, e.display doubleText = before ++ tail ∧
      (before = object ∨ before = "(" ++ object ++ ")") ∧
      (startsWith tail "." ∨ startsWith tail "[") := by
  cases e with
  | literal l => exact absurd h (literalShape_ne_access l object)
  | raw text => exact absurd rfl (hraw text)
  | globalIdent name => exact absurd rfl (hident name)
  | member obj property =>
    simp only [shapeOf] at h
    split at h
    · cases h
    · next hglobal =>
      obtain ⟨-, hwhole⟩ := behind_eq_access h
      cases hwhole
      rw [Expr.display]
      exact memberText_access hglobal
  | index obj index =>
    obtain ⟨-, hwhole⟩ := behind_eq_access h
    cases hwhole
    refine ⟨_, "[" ++ index.display doubleText ++ "]", ?_, Or.inl rfl,
      Or.inr (by simp [startsWith])⟩
    simp only [Expr.display, String.append_assoc]
  | call callee thisArg args =>
    have hwhole := (behind_eq_access h).2
    cases hwhole
  | methodCall obj method args =>
    have hwhole := (behind_eq_access h).2
    cases hwhole
  | new callee args =>
    have hwhole := (behind_eq_access h).2
    cases hwhole
  | taggedTemplate tag cooked raw subs =>
    simp only [shapeOf] at h
    split at h
    · cases h
    · have hwhole := (behind_eq_access h).2
      cases hwhole
  | assign target value =>
    simp only [shapeOf] at h
    split at h <;> cases h
  | _ => cases h

/-- The text of a call: the callee, and `.call` where a receiver is printed. -/
theorem display_call (callee : Expr) (thisArg : Option Expr) (args : List Expr) :
    (Expr.call callee thisArg args).display doubleText =
      match printedReceiver doubleText callee thisArg with
      | some receiver => callee.display doubleText ++ ".call(" ++
          joinComma (receiver.display doubleText :: displayAll doubleText args) ++ ")"
      | none => callee.display doubleText ++ "(" ++ joinComma (displayAll doubleText args) ++ ")" := by
  cases thisArg with
  | none => rw [Expr.display, displayOption, callText, printedReceiver, Option.filter_none]
  | some receiver =>
    rw [Expr.display, displayOption, callText, printedReceiver, Option.filter_some]
    by_cases hundefined : receiver.display doubleText = "undefined"
    · simp [hundefined]
    · by_cases hobject : callee.objectDisplay? doubleText = some (receiver.display doubleText)
      · simp [hundefined, hobject]
      · simp [hundefined, hobject]

end

/-! ## Call operations -/

/-- A call operation, with the index of its receiver. Behind the destination stand values. -/
structure CallOp (op : SsaOp) (thisIdx : Nat) : Prop where
  layout : (op.name, op.operands.length, thisIdx) ∈
      [("Call1", 3, 2), ("Call2", 4, 2), ("Call3", 5, 2), ("Call4", 6, 2)] ∨
    (op.name = "Call" ∨ op.name = "CallLong") ∧ thisIdx = 3
  values : ∀ o ∈ op.operands.drop 1, o ≠ .dstPlaceholder ∧ ∀ b, o ≠ .blockTarget b

variable (getStr : Nat → String) (inlineMap : VarId → Option Expr)

/-- The text of an operand inside a printed operation. -/
def operandText (e : Expr) : String := (e.substituteDepth inlineMap 32).display doubleText

/-- What the operation does. -/
def callReading (op : SsaOp) (thisIdx : Nat) : CallReading where
  callee := operandText doubleText inlineMap (varExpr op.operands 1)
  receiver := operandText doubleText inlineMap (varExpr op.operands thisIdx)
  args := (op.operands.drop (thisIdx + 1)).map fun o =>
    operandText doubleText inlineMap (operandToExpr o)

/-- The printed call does what the operation does. An element is no printed call. -/
def KeepsCall (op : SsaOp) (thisIdx : Nat) : Prop :=
  match (buildExpr doubleText getStr op).substitute doubleText inlineMap with
  | .call callee thisArg args =>
    readCall doubleText rawShape callee thisArg args =
      some (callReading doubleText inlineMap op thisIdx)
  | .jsx .. => True
  | _ => False

/-! ## When the receiver is kept -/

/-- The receiver is no operand, or the variable that is called. -/
def DropsReceiver (op : SsaOp) (thisIdx : Nat) : Prop :=
  op.operands[thisIdx]? = none ∨
    ∃ v, op.operands[1]? = some (.var v) ∧ op.operands[thisIdx]? = some (.var v)

/-- `.call` is printed. -/
def PrintsReceiver (op : SsaOp) (thisIdx : Nat) : Prop :=
  let callee := (varExpr op.operands 1).substituteDepth inlineMap 32
  let receiver := operandText doubleText inlineMap (varExpr op.operands thisIdx)
  ¬ DropsReceiver op thisIdx ∧ receiver ≠ "undefined" ∧
    callee.objectDisplay? doubleText ≠ some receiver

/-- The call prints as an element: of a function `createElement`, with a tag in front. -/
def PrintsElement (op : SsaOp) (thisIdx : Nat) : Prop :=
  ∃ object tag, (varExpr op.operands 1).substituteDepth inlineMap 32 =
      .member object "createElement" ∧
    ((op.operands.drop (thisIdx + 1)).map
        fun o => (operandToExpr o).substituteDepth inlineMap 32).head? = some tag ∧
    isPlainTag (tag.display doubleText) = false

/-- The arguments stay apart, and the receiver is the one in `.call`, or the object of the
access that is called, or undefined where no access is called. -/
def ReceiverFits (op : SsaOp) (thisIdx : Nat) : Prop :=
  let callee := shapeOf doubleText rawShape ((varExpr op.operands 1).substituteDepth inlineMap 32)
  let receiver := (varExpr op.operands thisIdx).substituteDepth inlineMap 32
  (∀ o ∈ op.operands.drop (thisIdx + 1),
    (shapeOf doubleText rawShape ((operandToExpr o).substituteDepth inlineMap 32)).argument) ∧
  (PrintsReceiver doubleText inlineMap op thisIdx ∧ callee.dotted ∧
      (shapeOf doubleText rawShape receiver).argument ∨
    ¬ PrintsReceiver doubleText inlineMap op thisIdx ∧
      callee.binds = some (receiver.display doubleText))

variable {doubleText rawShape getStr inlineMap} {op : SsaOp} {thisIdx : Nat}

/-! ## The call that is built -/

/-- The arms of the call operations. -/
theorem findIdx?_calls :
    exprPatterns.findIdx? (ArmPattern.has "Call1") = some 49 ∧
    exprPatterns.findIdx? (ArmPattern.has "Call2") = some 50 ∧
    exprPatterns.findIdx? (ArmPattern.has "Call3") = some 51 ∧
    exprPatterns.findIdx? (ArmPattern.has "Call4") = some 52 ∧
    exprPatterns.findIdx? (ArmPattern.has "Call") = some 125 ∧
    exprPatterns.findIdx? (ArmPattern.has "CallLong") = some 125 := by
  decide

theorem tryConvertJsx_varExpr (ops : List SsaOperand) (i : Nat) (thisArg : Option Expr)
    (args : List Expr) :
    tryConvertJsx doubleText (.call (varExpr ops i) thisArg args) =
      .call (varExpr ops i) thisArg args := by
  have hnone : (Expr.call (varExpr ops i) thisArg args).createElementArgs? = none := by
    unfold Expr.createElementArgs?
    split
    · next heq =>
      rw [Expr.call.injEq] at heq
      exact absurd heq.1 (varExpr_ne_member ops i _ _)
    · next heq => cases heq
    · rfl
  rw [tryConvertJsx, hnone]

/-- An operand that is a value is the same expression for both readers. -/
theorem varExpr_eq {ops : List SsaOperand} {i : Nat} {o : SsaOperand} (h : ops[i]? = some o)
    (hvalue : o ≠ .dstPlaceholder ∧ ∀ b, o ≠ .blockTarget b) : varExpr ops i = operandToExpr o := by
  cases o with
  | dstPlaceholder => exact absurd rfl hvalue.1
  | blockTarget b => exact absurd rfl (hvalue.2 b)
  | _ => simp [varExpr, operandToExpr, h]

/-- The arguments at the indices behind the receiver are the operands there. -/
theorem map_varExpr_range' {ops : List SsaOperand} {n : Nat} (hlength : ops.length = 3 + n)
    (hvalues : ∀ o ∈ ops.drop 1, o ≠ .dstPlaceholder ∧ ∀ b, o ≠ .blockTarget b) :
    (List.range' 3 n).map (varExpr ops) = (ops.drop 3).map operandToExpr := by
  apply List.ext_getElem
  · simp [hlength]
  · intro i hi _
    have hbound : i < n := by simpa using hi
    have hget : ops[3 + i]? = some ops[3 + i] := List.getElem?_eq_getElem (by omega)
    have hmem : ops[3 + i] ∈ ops.drop 1 := by
      rw [List.mem_iff_getElem?]
      refine ⟨2 + i, ?_⟩
      rw [List.getElem?_drop, ← hget]
      congr 1
      omega
    simp only [List.getElem_map, List.getElem_range', List.getElem_drop, Nat.one_mul]
    exact varExpr_eq hget (hvalues _ hmem)

theorem buildExpr_fixedCall {n i : Nat} {arm : Arm Expr} (hop : CallOp op 2)
    (hlength : op.operands.length = 3 + n)
    (hindex : exprPatterns.findIdx? (ArmPattern.has op.name) = some i)
    (harm : (exprArms doubleText getStr)[i]? = some arm)
    (hbody : arm.body op = fixedCall (List.range' 3 n) op.operands) :
    buildExpr doubleText getStr op =
      .call (varExpr op.operands 1) (callThisArg op.operands 1 2)
        ((op.operands.drop 3).map operandToExpr) := by
  rw [buildExpr_of_findIdx? hindex harm, hbody, fixedCall, tryConvertJsx_varExpr,
    map_varExpr_range' hlength hop.values]

/-- The expression of a call operation, before the substitution. -/
theorem buildExpr_callOp (hop : CallOp op thisIdx) :
    buildExpr doubleText getStr op =
      .call (varExpr op.operands 1) (callThisArg op.operands 1 thisIdx)
        ((op.operands.drop (thisIdx + 1)).map operandToExpr) := by
  obtain ⟨h1, h2, h3, h4, hcall, hlong⟩ := findIdx?_calls
  rcases hop.layout with hfixed | ⟨hname, rfl⟩
  · simp only [List.mem_cons, Prod.mk.injEq, List.not_mem_nil, or_false] at hfixed
    rcases hfixed with ⟨hname, hlength, rfl⟩ | ⟨hname, hlength, rfl⟩ | ⟨hname, hlength, rfl⟩ |
      ⟨hname, hlength, rfl⟩
    · exact buildExpr_fixedCall (n := 0) hop hlength (hname ▸ h1) rfl rfl
    · exact buildExpr_fixedCall (n := 1) hop hlength (hname ▸ h2) rfl rfl
    · exact buildExpr_fixedCall (n := 2) hop hlength (hname ▸ h3) rfl rfl
    · exact buildExpr_fixedCall (n := 3) hop hlength (hname ▸ h4) rfl rfl
  · have hindex : exprPatterns.findIdx? (ArmPattern.has op.name) = some 125 := by
      rcases hname with hname | hname
      · exact hname ▸ hcall
      · exact hname ▸ hlong
    exact (buildExpr_of_findIdx? hindex rfl).trans (tryConvertJsx_varExpr _ _ _ _)

theorem callThisArg_of_drops (h : DropsReceiver op thisIdx) :
    callThisArg op.operands 1 thisIdx = none := by
  rcases h with hnone | ⟨v, hcallee, hthis⟩
  · simp [callThisArg, varExpr, hnone]
  · simp [callThisArg, varExpr, hcallee, hthis]

theorem callThisArg_of_not_drops (h : ¬ DropsReceiver op thisIdx) :
    callThisArg op.operands 1 thisIdx = some (varExpr op.operands thisIdx) := by
  obtain ⟨o, ho⟩ : ∃ o, op.operands[thisIdx]? = some o :=
    Option.ne_none_iff_exists'.mp fun hnone => h (Or.inl hnone)
  have hne : varExpr op.operands thisIdx ≠ .literal .undefined := by
    cases o <;> simp [varExpr, ho]
  rw [callThisArg]
  split
  · exact absurd ‹_› hne
  · split
    · next cv tv hcallee hthis =>
      split
      · next heq => exact absurd (Or.inr ⟨tv, heq ▸ hcallee, hthis⟩) h
      · rfl
    · rfl

/-- The receiver that is printed, once the variables are inlined. -/
theorem printedReceiver_of_prints (h : PrintsReceiver doubleText inlineMap op thisIdx) :
    printedReceiver doubleText ((varExpr op.operands 1).substituteDepth inlineMap 32)
        ((callThisArg op.operands 1 thisIdx).map (Expr.substituteDepth inlineMap 32)) =
      some ((varExpr op.operands thisIdx).substituteDepth inlineMap 32) := by
  obtain ⟨hdrops, hundefined, hobject⟩ := h
  rw [callThisArg_of_not_drops hdrops, Option.map_some, printedReceiver, Option.filter_some,
    if_pos]
  exact decide_eq_true ⟨hundefined, hobject⟩

theorem printedReceiver_of_not_prints (h : ¬ PrintsReceiver doubleText inlineMap op thisIdx) :
    printedReceiver doubleText ((varExpr op.operands 1).substituteDepth inlineMap 32)
        ((callThisArg op.operands 1 thisIdx).map (Expr.substituteDepth inlineMap 32)) = none := by
  by_cases hdrops : DropsReceiver op thisIdx
  · rw [callThisArg_of_drops hdrops]
    rfl
  · rw [callThisArg_of_not_drops hdrops, Option.map_some, printedReceiver, Option.filter_some,
      if_neg]
    exact fun htexts => h ⟨hdrops, of_decide_eq_true htexts⟩

/-- The printed call reads as the operation exactly when the receiver fits. -/
theorem readCall_substituted :
    readCall doubleText rawShape ((varExpr op.operands 1).substituteDepth inlineMap 32)
        ((callThisArg op.operands 1 thisIdx).map (Expr.substituteDepth inlineMap 32))
        (((op.operands.drop (thisIdx + 1)).map operandToExpr).map
          (Expr.substituteDepth inlineMap 32)) =
      some (callReading doubleText inlineMap op thisIdx) ↔
    ReceiverFits doubleText rawShape inlineMap op thisIdx := by
  have hargs : (((op.operands.drop (thisIdx + 1)).map operandToExpr).map
      (Expr.substituteDepth inlineMap 32)).map (Expr.display doubleText) =
      (callReading doubleText inlineMap op thisIdx).args := by
    simp only [callReading, List.map_map]
    rfl
  have hall : ((((op.operands.drop (thisIdx + 1)).map operandToExpr).map
      (Expr.substituteDepth inlineMap 32)).all
        fun arg => (shapeOf doubleText rawShape arg).argument) = true ↔
      ∀ o ∈ op.operands.drop (thisIdx + 1),
        (shapeOf doubleText rawShape ((operandToExpr o).substituteDepth inlineMap 32)).argument := by
    simp only [List.all_map, List.all_eq_true, Function.comp_apply]
  rw [readCall, ReceiverFits, ← hall, hargs]
  split
  · next hargsApart =>
    simp only [hargsApart, true_and]
    by_cases hprints : PrintsReceiver doubleText inlineMap op thisIdx
    · rw [printedReceiver_of_prints hprints]
      simp only [hprints, true_and, not_true_eq_false, false_and, or_false]
      split
      · next h => exact ⟨fun _ => h, fun _ => rfl⟩
      · next h => exact ⟨fun hnone => absurd hnone (by simp), fun h' => absurd h' h⟩
    · rw [printedReceiver_of_not_prints hprints]
      simp only [hprints, not_false_eq_true, true_and, false_and, false_or]
      rw [Option.map_eq_some_iff]
      constructor
      · rintro ⟨receiver, hbinds, hreading⟩
        exact hbinds.trans (congrArg (fun reading => some reading.receiver) hreading)
      · intro hbinds
        exact ⟨_, hbinds, rfl⟩
  · next hargsApart =>
    exact ⟨fun hnone => absurd hnone (by simp), fun h => absurd h.1 hargsApart⟩

/-- What is made into an element: a call of `createElement`, with a tag in front. -/
theorem createElementArgs?_call {callee : Expr} {thisArg : Option Expr} {args : List Expr}
    {tag props : Expr} {children : List Expr} :
    (Expr.call callee thisArg args).createElementArgs? = some (tag, props, children) ↔
      (∃ object, callee = .member object "createElement") ∧ args.head? = some tag ∧
        props = (args.tail.head?).getD (.literal .null) ∧ children = args.tail.tail := by
  unfold Expr.createElementArgs?
  split
  · next heq =>
    rw [Expr.call.injEq] at heq
    obtain ⟨rfl, -, rfl⟩ := heq
    simp only [Option.some.injEq, Prod.mk.injEq, Expr.member.injEq, and_true, exists_eq',
      List.head?_cons, List.tail_cons, true_and, List.drop_one]
    exact ⟨fun ⟨h1, h2, h3⟩ => ⟨h1, h2.symm, h3.symm⟩, fun ⟨h1, h2, h3⟩ => ⟨h1, h2.symm, h3.symm⟩⟩
  · next heq => cases heq
  · next hcall _ =>
    simp only [reduceCtorEq, false_iff, not_and]
    rintro ⟨object, rfl⟩ htag
    obtain ⟨rest, rfl⟩ := List.head?_eq_some_iff.mp htag
    exact absurd rfl (hcall object thisArg tag rest)

theorem substitute_callOp (hop : CallOp op thisIdx) :
    (buildExpr doubleText getStr op).substitute doubleText inlineMap =
      tryConvertJsx doubleText (.call ((varExpr op.operands 1).substituteDepth inlineMap 32)
        ((callThisArg op.operands 1 thisIdx).map (Expr.substituteDepth inlineMap 32))
        (((op.operands.drop (thisIdx + 1)).map operandToExpr).map
          (Expr.substituteDepth inlineMap 32))) := by
  rw [buildExpr_callOp hop]
  rfl

theorem printsElement_iff {thisArg : Option Expr} :
    PrintsElement doubleText inlineMap op thisIdx ↔
      ∃ tag props children,
        (Expr.call ((varExpr op.operands 1).substituteDepth inlineMap 32) thisArg
          (((op.operands.drop (thisIdx + 1)).map operandToExpr).map
            (Expr.substituteDepth inlineMap 32))).createElementArgs? =
          some (tag, props, children) ∧
        isPlainTag (tag.display doubleText) = false := by
  have hargs : ((op.operands.drop (thisIdx + 1)).map operandToExpr).map
      (Expr.substituteDepth inlineMap 32) =
      (op.operands.drop (thisIdx + 1)).map
        fun o => (operandToExpr o).substituteDepth inlineMap 32 := by
    rw [List.map_map]
    rfl
  simp only [createElementArgs?_call, hargs, PrintsElement]
  constructor
  · rintro ⟨object, tag, hcallee, htag, hplain⟩
    exact ⟨tag, _, _, ⟨⟨object, hcallee⟩, htag, rfl, rfl⟩, hplain⟩
  · rintro ⟨tag, props, children, ⟨⟨object, hcallee⟩, htag, -, -⟩, hplain⟩
    exact ⟨object, tag, hcallee, htag, hplain⟩

/-- A printed call does what its operation does exactly when its receiver fits, or it is
printed as an element. -/
theorem keepsCall_iff (hop : CallOp op thisIdx) :
    KeepsCall doubleText rawShape getStr inlineMap op thisIdx ↔
      PrintsElement doubleText inlineMap op thisIdx ∨
        ReceiverFits doubleText rawShape inlineMap op thisIdx := by
  rw [KeepsCall, substitute_callOp hop, tryConvertJsx, ← readCall_substituted]
  generalize (callThisArg op.operands 1 thisIdx).map (Expr.substituteDepth inlineMap 32) = thisArg
  have helement := @printsElement_iff doubleText inlineMap op thisIdx thisArg
  generalize ((op.operands.drop (thisIdx + 1)).map operandToExpr).map
    (Expr.substituteDepth inlineMap 32) = args at helement ⊢
  generalize (varExpr op.operands 1).substituteDepth inlineMap 32 = callee at helement ⊢
  cases hargs : (Expr.call callee thisArg args).createElementArgs? with
  | none =>
    have hnot : ¬ PrintsElement doubleText inlineMap op thisIdx := by
      rw [helement, hargs]
      rintro ⟨_, _, _, heq, -⟩
      cases heq
    exact (or_iff_right hnot).symm
  | some found =>
    obtain ⟨tag, props, children⟩ := found
    cases hplain : isPlainTag (tag.display doubleText) with
    | false =>
      have helem : PrintsElement doubleText inlineMap op thisIdx :=
        helement.mpr ⟨tag, props, children, hargs, hplain⟩
      simp only [hplain, Bool.false_eq_true, if_false, helem, true_or]
    | true =>
      have hnot : ¬ PrintsElement doubleText inlineMap op thisIdx := by
        rw [helement, hargs]
        rintro ⟨_, _, _, heq, hfalse⟩
        cases heq
        exact absurd (hplain.symm.trans hfalse) (by decide)
      simp only [hplain, if_true]
      exact (or_iff_right hnot).symm

/-! ## Sample calls -/

/-- `r1_0` called on `r2_0`, without arguments. -/
def sampleCall : SsaOp where
  name := "Call1"
  dst := some ⟨0, 1⟩
  operands := [.dstPlaceholder, .var ⟨1, 0⟩, .var ⟨2, 0⟩]
  original := ⟨0, 0, "Call1", []⟩

/-- The callee is the property `m` of `r3_0`, and the receiver is undefined. -/
def sampleInline (v : VarId) : Option Expr :=
  if v = ⟨1, 0⟩ then some (.member (.var ⟨3, 0⟩) "m")
  else if v = ⟨2, 0⟩ then some (.literal .undefined)
  else none

theorem callOp_sampleCall : CallOp sampleCall 2 where
  layout := Or.inl (by decide)
  values := by simp [sampleCall]

theorem sampleCall_callee : (varExpr sampleCall.operands 1).substituteDepth sampleInline 32 =
    .member (.var ⟨3, 0⟩) "m" := by
  simp [varExpr, sampleCall, Expr.substituteDepth, sampleInline, Expr.mapChildren]

theorem sampleCall_receiver : (varExpr sampleCall.operands 2).substituteDepth sampleInline 32 =
    .literal .undefined := by
  simp [varExpr, sampleCall, Expr.substituteDepth, sampleInline, Expr.mapChildren]

/-- A property that is called on undefined prints as a method call. -/
theorem sampleCall_not_keepsCall :
    CallOp sampleCall 2 ∧ ∀ doubleText rawShape getStr,
      ¬ KeepsCall doubleText rawShape getStr sampleInline sampleCall 2 := by
  refine ⟨callOp_sampleCall, fun doubleText rawShape getStr hkeeps => ?_⟩
  rw [KeepsCall, substitute_callOp callOp_sampleCall, sampleCall_callee] at hkeeps
  have hfits : ReceiverFits doubleText rawShape sampleInline sampleCall 2 := by
    rw [← readCall_substituted, sampleCall_callee]
    exact hkeeps
  obtain ⟨-, ⟨hprints, -⟩ | ⟨-, hbinds⟩⟩ := hfits
  · apply hprints.2.1
    simp [operandText, sampleCall_receiver, Expr.display, Decompile.Literal.display]
  · rw [sampleCall_callee, sampleCall_receiver] at hbinds
    have hobject : some (VarId.display ⟨3, 0⟩) = some "undefined" := by
      simpa [shapeOf, Shape.binds, Shape.behind, Shape.dotted, Expr.isGlobalObject, Expr.display,
        Decompile.Literal.display, VarId.display] using hbinds
    exact absurd hobject (by decide)

theorem sampleCall_keepsCall_iff :
    KeepsCall (fun _ => "") (fun _ => .value) (fun _ => "") sampleInline sampleCall 2 ↔
      PrintsElement (fun _ => "") sampleInline sampleCall 2 ∨
        ReceiverFits (fun _ => "") (fun _ => .value) sampleInline sampleCall 2 :=
  keepsCall_iff callOp_sampleCall

end

end Hermes.Structure
