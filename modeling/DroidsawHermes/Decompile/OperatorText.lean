-- SUMMARY: Which expressions print as a text that the operators of JavaScript read as the same expression.
import DroidsawHermes.Decompile.Expr
import DroidsawHermes.Lib.Precedence

/-!
# Operators in printed expressions

`Display` of `Expr` puts parentheses around binary operands, around objects that begin like a
number and around some tags. The operators are the unary and binary ones, assignments, members,
calls and templates. A text without one at its top counts as one token, as do the brackets behind
an object, `new` with its callee, and what was inserted as raw text.
-/

namespace Hermes.Decompile

open Precedence

/-! ## The operators of JavaScript -/

inductive Operator where
  | binary (op : BinOp)
  | assign

inductive Prefix where
  | unary (text : String)
  | yield
  | spread

/-- `level` is how tightly the text binds as an operand, 0 where it is none. -/
structure Leaf where
  text : String
  level : Nat

def Prefix.level : Prefix → Nat
  | .unary _ => 15
  | .yield => 2
  | .spread => 1

def Prefix.operand : Prefix → Nat
  | .unary _ => 15
  | .yield | .spread => 2

/-- The binary operators of the grammar, those that bind loosest first. In front of them stand
the assignment, the conditional and the logical operators. -/
def binaryOperators : List (List String) :=
  [
    ["|"], ["^"], ["&"], ["==", "!=", "===", "!=="], ["<", "<=", ">", ">=", "instanceof", "in"],
    ["<<", ">>", ">>>"], ["+", "-"], ["*", "/", "%"], ["**"]]

def BinOp.level (op : BinOp) : Nat :=
  6 + binaryOperators.findIdx fun operators => operators.contains op.display

/-- The precedences of the code are those of the grammar. -/
@[simp] theorem BinOp.level_eq_precedence (op : BinOp) : op.level = op.precedence := by
  cases op <;> decide

def Operator.level : Operator → Nat
  | .binary op => op.level
  | .assign => 2

/-- A unary expression is no left operand of `**`, and only what a postfix operator can stand
behind is assigned to. -/
def Operator.left : Operator → Nat
  | .binary op => if op = .exp then 16 else op.level
  | .assign => 16

def Operator.right : Operator → Nat
  | .binary op => if op = .exp then 14 else op.level + 1
  | .assign => 2

theorem BinOp.level_bounds (op : BinOp) : 6 ≤ op.level ∧ op.level ≤ 14 := by
  rw [level_eq_precedence]
  cases op <;> decide

theorem BinOp.eq_exp_of_level {op : BinOp} (h : op.level = 14) : op = .exp := by
  rw [level_eq_precedence] at h
  cases op <;> first | rfl | cases h

theorem Operator.level_bounds (o : Operator) : o.level ≤ 14 ∧ o.level ≤ o.left ∧ 3 ≤ o.left ∧
    o.level ≤ o.right := by
  cases o with
  | assign => decide
  | binary op =>
    have hbounds := op.level_bounds
    by_cases hexp : op = .exp
    · subst hexp
      decide
    · simp only [level, left, right, if_neg hexp]
      omega

/-- What associates to the right are `**` and the assignment. -/
theorem Operator.oneSide (o o' : Operator) (hlevel : o.level = o'.level)
    (hleft : o.left = o.level) : o'.right ≠ o'.level := by
  cases o with
  | assign => exact absurd hleft (by decide)
  | binary op =>
    have hbounds := op.level_bounds
    cases o' with
    | assign =>
      simp only [level] at hlevel
      omega
    | binary op' =>
      intro hright
      by_cases hexp : op' = .exp
      · subst hexp
        rw [BinOp.eq_exp_of_level hlevel] at hleft
        exact absurd hleft (by decide)
      · simp only [right, level, if_neg hexp] at hright
        omega

def jsLevels : Levels Leaf Prefix Operator where
  atom := Leaf.level
  pre := Prefix.level
  operand := Prefix.operand
  post := 16
  level := Operator.level
  left := Operator.left
  right := Operator.right
  pre_le_operand p := by cases p <;> simp [Prefix.level, Prefix.operand]
  level_le_left o := o.level_bounds.2.1
  level_le_right o := o.level_bounds.2.2.2
  oneSide := Operator.oneSide
  pre_apart p o hleft := by
    have hbounds := o.level_bounds
    cases p <;> simp only [Prefix.level, Prefix.operand] at hleft ⊢ <;> omega
  pre_lt_post p := by cases p <;> simp [Prefix.level]
  level_lt_post o := Nat.lt_of_le_of_lt o.level_bounds.1 (by decide)

abbrev OperatorToken := Token Leaf Prefix String Operator

abbrev OperatorTree := Tree Leaf Prefix String Operator

abbrev OperatorText := Printed Leaf Prefix String Operator

def Operator.text : Operator → String
  | .binary op => " " ++ op.display ++ " "
  | .assign => " = "

def Prefix.text : Prefix → String
  | .unary text => text
  | .yield => "yield "
  | .spread => "..."

def tokenText : OperatorToken → String
  | .atom leaf => leaf.text
  | .pre p => p.text
  | .post text => text
  | .op op => op.text
  | .lparen => "("
  | .rparen => ")"

def textOf : List OperatorToken → String
  | [] => ""
  | token :: tokens => tokenText token ++ textOf tokens

theorem textOf_append (tokens tokens' : List OperatorToken) :
    textOf (tokens ++ tokens') = textOf tokens ++ textOf tokens' := by
  induction tokens with
  | nil => rw [List.nil_append, textOf, String.empty_append]
  | cons token tokens ih => rw [List.cons_append, textOf, textOf, ih, String.append_assoc]

/-- `--` and `++` are no two signs. -/
def Apart (token token' : OperatorToken) : Prop :=
  ∀ sign ∈ ["-", "+"], ¬ (token = .pre (.unary sign) ∧ token' = .pre (.unary sign))

/-! ## Expressions as trees of operators -/

/-- The parentheses around the object of a member expression. -/
def startsNumeric (text : String) : Bool := text.toList.head?.any fun c => c.isDigit || c = '-'

def isSigned (text : String) : Bool := text.toList.head? = some '-'

/-- A negative number is printed with its sign. -/
def signed (text : String) : OperatorText :=
  if isSigned text then .pre (.unary "-") (.atom ⟨String.ofList text.toList.tail, 16⟩)
  else .atom ⟨text, 16⟩

theorem textOf_signed (text : String) : textOf (signed text).tokens = text := by
  unfold signed
  split
  · next hsigned =>
    obtain ⟨rest, hrest⟩ := List.head?_eq_some_iff.mp (of_decide_eq_true hsigned)
    simp only [Printed.tokens, textOf, tokenText, Prefix.text, String.append_empty, hrest,
      List.tail_cons]
    rw [← String.toList_inj, String.toList_append, String.toList_ofList, hrest]
    rw [String.toList_ofList]
    exact List.singleton_append
  · exact String.append_empty

def memberSuffix (property : String) : String :=
  if isDotProperty property then "." ++ property else "[\"" ++ escapeProperty property ++ "\"]"

def methodSuffix (method : String) : String :=
  if startsWith method "[" then method else "." ++ method

/-- What stands behind the tag, which is a call where there is no such template. -/
def templateSuffix (raw subs : List String) : String :=
  if raw.length = subs.length + 1 then "\x60" ++ templateBody raw subs ++ "\x60"
  else "(/* tagged-template malformed */ " ++ joinComma subs ++ ")"

def withParens (parens : Bool) (c : OperatorText) : OperatorText := if parens then .paren c else c

theorem tree_withParens (parens : Bool) (c : OperatorText) :
    (withParens parens c).tree = c.tree := by
  cases parens <;> rfl

theorem textOf_withParens (parens : Bool) (c : OperatorText) :
    textOf (withParens parens c).tokens = parenthesized parens (textOf c.tokens) := by
  cases parens with
  | false => rfl
  | true =>
    simp only [withParens, if_true, Printed.tokens, textOf, textOf_append, tokenText, parenthesized,
      String.append_empty, String.append_assoc]

theorem memberText_eq (isGlobal : Bool) (object property : String) :
    memberText isGlobal object property =
      if isGlobal ∧ isIntrinsicGlobal property then property
      else parenthesized (startsNumeric object) object ++ memberSuffix property := by
  rw [memberText]
  split
  · rfl
  · simp only [memberSuffix, startsNumeric, parenthesized]
    split <;> simp only [String.append_assoc]

theorem callText_eq (callee : String) (calleeObject thisArg : Option String)
    (args : List String) : callText callee calleeObject thisArg args =
      callee ++ callText "" calleeObject thisArg args := by
  unfold callText
  cases thisArg with
  | none => simp only [String.empty_append, String.append_assoc]
  | some this =>
    dsimp only
    split
    · simp only [String.empty_append, String.append_assoc]
    · split <;> simp only [String.empty_append, String.append_assoc]

theorem methodCallText_eq (object method : String) (args : List String) :
    methodCallText object method args =
      object ++ methodSuffix method ++ ("(" ++ joinComma args ++ ")") := by
  unfold methodCallText methodSuffix
  split <;> simp only [String.append_assoc]

theorem taggedTemplateText_eq (tag : String) (needsParens : Bool) (raw subs : List String) :
    taggedTemplateText tag needsParens raw subs =
      parenthesized (raw.length = subs.length + 1 && needsParens) tag ++
        templateSuffix raw subs := by
  unfold taggedTemplateText templateSuffix parenthesized
  by_cases hlength : raw.length = subs.length + 1
  · rw [if_neg (not_not_intro hlength), if_pos hlength]
    cases needsParens
    · simp [String.append_assoc]
    · simp only [hlength, String.append_assoc, decide_true, Bool.and_true, if_true]
  · simp [hlength, String.append_assoc]

section

variable (doubleText : UInt64 → String)

/-- What stands behind the callee. -/
def callSuffix (callee : Expr) (thisArg : Option Expr) (args : List Expr) : String :=
  callText "" (callee.objectDisplay? doubleText) (displayOption doubleText thisArg)
    (displayAll doubleText args)

/-- An assignment to a literal is printed as a comment. -/
def Expr.isReserved (target : Expr) : Bool := reservedTargets.contains (target.display doubleText)

def Expr.tagInParens (tag : Expr) (raw : List String) (subs : List Expr) : Bool :=
  raw.length = (displayAll doubleText subs).length + 1 && tag.tagNeedsParens

/-- How tightly the operator binds at the top of the text. -/
def Expr.textLevel : Expr → Nat
  | .literal l => if isSigned (l.display doubleText) then 15 else 16
  | .binary op _ _ => op.level
  | .unary .toInt32 _ => BinOp.bitOr.level
  | .unary .toUint32 _ => BinOp.urShift.level
  | .unary _ _ | .typeof _ | .delete _ | .await _ | .void _ => 15
  | .assign target _ => if target.isReserved doubleText then 0 else 2
  | .yield _ => 2
  | .spread _ => 1
  | .debugger | .declareGlobal _ | .completeGenerator => 0
  | _ => 16

/-- The operators of an expression. `x | 0` and `x >>> 0` stand for the coercions. -/
def Expr.operatorTree : Expr → OperatorTree
  | .literal l => (signed (l.display doubleText)).tree
  | .binary op left right => .node (.binary op) left.operatorTree right.operatorTree
  | .unary .toInt32 operand => .node (.binary .bitOr) operand.operatorTree (.atom ⟨"0", 16⟩)
  | .unary .toUint32 operand => .node (.binary .urShift) operand.operatorTree (.atom ⟨"0", 16⟩)
  | .unary op operand => .pre (.unary (op.text "")) operand.operatorTree
  | .typeof operand => .pre (.unary "typeof ") operand.operatorTree
  | .delete operand => .pre (.unary "delete ") operand.operatorTree
  | .await operand => .pre (.unary "await ") operand.operatorTree
  | .void comment => .pre (.unary "void ") (.atom ⟨"0 /* " ++ comment ++ " */", 16⟩)
  | .yield (some value) => .pre .yield value.operatorTree
  | .spread operand => .pre .spread operand.operatorTree
  | .assign target value =>
    if target.isReserved doubleText then
      .atom ⟨assignText (target.display doubleText) (value.display doubleText), 0⟩
    else .node .assign target.operatorTree value.operatorTree
  | .member object property =>
    if object.isGlobalObject ∧ isIntrinsicGlobal property then .atom ⟨property, 16⟩
    else .post (memberSuffix property) object.operatorTree
  | .index object key => .post ("[" ++ key.display doubleText ++ "]") object.operatorTree
  | .call callee thisArg args =>
    .post (callSuffix doubleText callee thisArg args) callee.operatorTree
  | .methodCall object method args =>
    .post ("(" ++ joinComma (displayAll doubleText args) ++ ")")
      (.post (methodSuffix method) object.operatorTree)
  | .taggedTemplate tag _ chunks subs =>
    .post (templateSuffix chunks (displayAll doubleText subs)) tag.operatorTree
  | e => .atom ⟨e.display doubleText, e.textLevel doubleText⟩

/-- The tree with the parentheses that `Display` puts. -/
def Expr.printed : Expr → OperatorText
  | .literal l => signed (l.display doubleText)
  | .binary op left right =>
    .node (.binary op)
      (withParens (left.binaryPrecedence?.any (· < op.precedence)) left.printed)
      (withParens (right.binaryPrecedence?.any (· ≤ op.precedence)) right.printed)
  | .unary .toInt32 operand => .node (.binary .bitOr) operand.printed (.atom ⟨"0", 16⟩)
  | .unary .toUint32 operand => .node (.binary .urShift) operand.printed (.atom ⟨"0", 16⟩)
  | .unary op operand => .pre (.unary (op.text "")) operand.printed
  | .typeof operand => .pre (.unary "typeof ") operand.printed
  | .delete operand => .pre (.unary "delete ") operand.printed
  | .await operand => .pre (.unary "await ") operand.printed
  | .void comment => .pre (.unary "void ") (.atom ⟨"0 /* " ++ comment ++ " */", 16⟩)
  | .yield (some value) => .pre .yield value.printed
  | .spread operand => .pre .spread operand.printed
  | .assign target value =>
    if target.isReserved doubleText then
      .atom ⟨assignText (target.display doubleText) (value.display doubleText), 0⟩
    else .node .assign target.printed value.printed
  | .member object property =>
    if object.isGlobalObject ∧ isIntrinsicGlobal property then .atom ⟨property, 16⟩
    else .post (memberSuffix property)
      (withParens (startsNumeric (object.display doubleText)) object.printed)
  | .index object key => .post ("[" ++ key.display doubleText ++ "]") object.printed
  | .call callee thisArg args => .post (callSuffix doubleText callee thisArg args) callee.printed
  | .methodCall object method args =>
    .post ("(" ++ joinComma (displayAll doubleText args) ++ ")")
      (.post (methodSuffix method) object.printed)
  | .taggedTemplate tag _ chunks subs =>
    .post (templateSuffix chunks (displayAll doubleText subs))
      (withParens (tag.tagInParens doubleText chunks subs) tag.printed)
  | e => .atom ⟨e.display doubleText, e.textLevel doubleText⟩

theorem Expr.tree_printed : ∀ e : Expr, (e.printed doubleText).tree = e.operatorTree doubleText
  | .binary op left right => by
    simp only [printed, operatorTree, Printed.tree, tree_withParens, tree_printed left,
      tree_printed right]
  | .unary op operand => by
    cases op <;> simp only [printed, operatorTree, Printed.tree, tree_printed operand]
  | .assign target value => by
    simp only [printed, operatorTree]
    split
    · rfl
    · simp only [Printed.tree, tree_printed target, tree_printed value]
  | .member object property => by
    simp only [printed, operatorTree]
    split
    · rfl
    · simp only [Printed.tree, tree_withParens, tree_printed object]
  | .typeof operand | .delete operand | .await operand | .yield (some operand)
  | .spread operand | .index operand _ | .call operand _ _ | .methodCall operand _ _
  | .taggedTemplate operand _ _ _ => by
    simp only [printed, operatorTree, Printed.tree, tree_withParens, tree_printed operand]
  | .literal _ | .var _ | .global | .this | .param _ | .new _ _ | .arrayLit _ | .objectLit _
  | .regExp _ _ | .void _ | .arguments | .newTarget | .debugger | .yield none | .globalIdent _
  | .decompileMeta _ | .jsx _ _ _ | .declareGlobal _ | .completeGenerator | .raw _ => rfl

/-- `Display` writes the tokens of the printed tree. -/
theorem Expr.display_eq : ∀ e : Expr,
    e.display doubleText = textOf (e.printed doubleText).tokens
  | .literal l => by rw [display, printed, textOf_signed]
  | .binary op left right => by
    simp only [display, printed, Printed.tokens, textOf, textOf_append, tokenText, Operator.text,
      textOf_withParens, ← display_eq left, ← display_eq right, String.append_assoc]
  | .unary op operand => by
    cases op <;> simp only [display, printed, UnaryOp.text, Printed.tokens, textOf, textOf_append,
      tokenText, Operator.text, Prefix.text, ← display_eq operand, String.append_empty] <;> rfl
  | .typeof operand | .delete operand | .await operand | .yield (some operand)
  | .spread operand => by
    simp only [display, printed, Printed.tokens, textOf, tokenText, Prefix.text,
      display_eq operand]
  | .void comment => by
    simp only [display, printed, Printed.tokens, textOf, tokenText, Prefix.text,
      String.append_empty]
    simp only [← String.append_assoc]
    rfl
  | .assign target value => by
    simp only [display, printed]
    split
    · exact (String.append_empty).symm
    · next hreserved =>
      rw [isReserved] at hreserved
      rw [assignText, if_neg hreserved]
      simp only [Printed.tokens, textOf, textOf_append, tokenText, Operator.text,
        ← display_eq target, ← display_eq value, String.append_assoc]
  | .member object property => by
    simp only [display, printed, memberText_eq]
    split
    · exact (String.append_empty).symm
    · simp only [Printed.tokens, textOf, textOf_append, tokenText, textOf_withParens,
        ← display_eq object, String.append_empty]
  | .index object key => by
    simp only [display, printed, Printed.tokens, textOf, textOf_append, tokenText,
      ← display_eq object, String.append_empty, String.append_assoc]
  | .call callee thisArg args => by
    rw [display, callText_eq]
    simp only [printed, Printed.tokens, textOf, textOf_append, tokenText, ← display_eq callee,
      String.append_empty, callSuffix]
  | .methodCall object method args => by
    simp only [display, methodCallText_eq, printed, Printed.tokens, textOf, textOf_append,
      tokenText, ← display_eq object, String.append_empty]
  | .taggedTemplate tag _ chunks subs => by
    rw [display, taggedTemplateText_eq]
    simp only [printed, Printed.tokens, textOf, textOf_append, tokenText, textOf_withParens,
      ← display_eq tag, String.append_empty, tagInParens]
  | .var _ | .global | .this | .param _ | .new _ _ | .arrayLit _ | .objectLit _ | .regExp _ _
  | .arguments | .newTarget | .debugger | .yield none | .globalIdent _ | .decompileMeta _
  | .jsx _ _ _ | .declareGlobal _ | .completeGenerator | .raw _ => (String.append_empty).symm

/-! ## What reads back -/

/-- The sign in front of an operand. -/
def Expr.sign? : Expr → Option String
  | .literal l => if isSigned (l.display doubleText) then some "-" else none
  | .unary .neg _ => some "-"
  | .unary .toNumber _ => some "+"
  | _ => none

/-- Every operand without parentheses binds tightly enough, and no two signs meet. -/
def Expr.WellPrinted : Expr → Prop
  | .binary op left right => left.WellPrinted ∧ right.WellPrinted ∧
    (left.binaryPrecedence?.any (· < op.precedence) = true ∨
      jsLevels.left (.binary op) ≤ left.textLevel doubleText) ∧
    (right.binaryPrecedence?.any (· ≤ op.precedence) = true ∨
      jsLevels.right (.binary op) ≤ right.textLevel doubleText)
  | .unary .toInt32 operand =>
    operand.WellPrinted ∧ BinOp.bitOr.level ≤ operand.textLevel doubleText
  | .unary .toUint32 operand =>
    operand.WellPrinted ∧ BinOp.urShift.level ≤ operand.textLevel doubleText
  | .unary op operand => operand.WellPrinted ∧ 15 ≤ operand.textLevel doubleText ∧
    operand.sign? doubleText ≠ some (op.text "")
  | .typeof operand | .delete operand | .await operand =>
    operand.WellPrinted ∧ 15 ≤ operand.textLevel doubleText
  | .yield (some operand) | .spread operand =>
    operand.WellPrinted ∧ 2 ≤ operand.textLevel doubleText
  | .assign target value => target.isReserved doubleText = true ∨
    target.WellPrinted ∧ value.WellPrinted ∧
      16 ≤ target.textLevel doubleText ∧ 2 ≤ value.textLevel doubleText
  | .member object property => (object.isGlobalObject ∧ isIntrinsicGlobal property) ∨
    object.WellPrinted ∧
      (startsNumeric (object.display doubleText) = true ∨ 16 ≤ object.textLevel doubleText)
  | .index object _ | .call object _ _ | .methodCall object _ _ =>
    object.WellPrinted ∧ 16 ≤ object.textLevel doubleText
  | .taggedTemplate tag _ chunks subs => tag.WellPrinted ∧
    (tag.tagInParens doubleText chunks subs = true ∨ 16 ≤ tag.textLevel doubleText)
  | _ => True

/-- No sign stands in front of the same sign. -/
def SignsApart : OperatorText → Prop
  | .atom _ => True
  | .paren c => SignsApart c
  | .pre p c => SignsApart c ∧ ∀ sign ∈ ["-", "+"], p = .unary sign →
    c.tokens.head? ≠ some (.pre (.unary sign))
  | .post _ c => SignsApart c
  | .node _ l r => SignsApart l ∧ SignsApart r

end

theorem apart_of_right {token token' : OperatorToken} (h : ∀ p, token' ≠ .pre p) :
    Apart token token' := fun sign _ heq => h (.unary sign) heq.2

theorem apart_of_left {token token' : OperatorToken} (h : ∀ p, token ≠ .pre p) :
    Apart token token' := fun sign _ heq => h (.unary sign) heq.1

theorem isChain_tokens (c : OperatorText) : c.tokens.IsChain Apart ↔ SignsApart c := by
  induction c with
  | atom a => simp [Printed.tokens, SignsApart]
  | paren c ih =>
    rw [Printed.tokens, List.isChain_cons, List.isChain_append, ih, SignsApart]
    simp [apart_of_left, apart_of_right]
  | pre p c ih =>
    rw [Printed.tokens, List.isChain_cons, ih, SignsApart, and_comm]
    refine and_congr_right fun _ => ⟨fun h sign hsign hp hhead => ?_, fun h y hy sign hsign => ?_⟩
    · exact h _ hhead sign hsign ⟨congrArg Token.pre hp, rfl⟩
    · rintro ⟨hp, rfl⟩
      exact h sign hsign (Token.pre.inj hp) hy
  | post q c ih =>
    rw [Printed.tokens, List.isChain_append, ih, SignsApart]
    simp [apart_of_right]
  | node o l r ihl ihr =>
    rw [Printed.tokens, List.isChain_append, List.isChain_cons, ihl, ihr, SignsApart]
    simp [apart_of_left, apart_of_right]

theorem signsApart_withParens (parens : Bool) (c : OperatorText) :
    SignsApart (withParens parens c) ↔ SignsApart c := by
  cases parens <;> rfl

theorem fits_withParens (parens : Bool) (c : OperatorText) (n : Nat) :
    (withParens parens c).Fits jsLevels n ↔
      if parens then c.Fits jsLevels 0 else c.Fits jsLevels n := by
  cases parens <;> rfl

section

variable (doubleText : UInt64 → String)

theorem ite_eq_some_iff {α : Type} {p : Prop} [Decidable p] {a b : α} :
    (if p then some a else none) = some b ↔ p ∧ a = b := by
  split <;> simp [*]

theorem head?_signed (text : String) (sign : String) :
    (signed text).tokens.head? = some (.pre (.unary sign)) ↔
      isSigned text = true ∧ "-" = sign := by
  unfold signed
  split <;> simp [Printed.tokens, *]

theorem unary_ne_of_length {text sign : String} (hlength : 1 < text.toList.length)
    (hsign : sign ∈ ["-", "+"]) : text ≠ sign := by
  rintro rfl
  rcases List.mem_pair.mp hsign with rfl | rfl <;> exact absurd hlength (by decide)

/-- The sign that an operand begins with is its own. -/
theorem Expr.head?_printed {e : Expr} (hfits : (e.printed doubleText).Fits jsLevels 15)
    {sign : String} (hsign : sign ∈ ["-", "+"]) :
    (e.printed doubleText).tokens.head? = some (.pre (.unary sign)) ↔
      e.sign? doubleText = some sign := by
  have hpost : ∀ {q : String} {c : OperatorText}, (Printed.post q c).Fits jsLevels 15 →
      (Printed.post q c).tokens.head? ≠ some (.pre (.unary sign)) := by
    intro q c hc hhead
    obtain ⟨tokens, htokens⟩ := List.head?_eq_some_iff.mp hhead
    have hfits : (Printed.post q c).Fits jsLevels 16 := ⟨Nat.le_refl _, hc.2⟩
    exact absurd (hfits.le_pre htokens) (by simp [jsLevels, Prefix.level])
  have hword : ∀ {text : String} {c : OperatorText}, 1 < text.toList.length →
      (Printed.pre (.unary text) c).tokens.head? ≠ some (.pre (.unary sign)) := by
    intro text c hlength hhead
    have htext := Prefix.unary.inj (Token.pre.inj (Option.some.inj hhead))
    exact unary_ne_of_length hlength hsign htext
  cases e with
  | literal l => rw [printed, head?_signed, sign?, ite_eq_some_iff]
  | binary op left right =>
    have := op.level_bounds.2
    exact absurd (Nat.le_trans hfits.1 this) (by decide)
  | unary op operand =>
    cases op with
    | toInt32 => exact absurd hfits.1 (by decide)
    | toUint32 => exact absurd hfits.1 (by decide)
    | neg | toNumber => simp [printed, Printed.tokens, sign?, UnaryOp.text]
    | typeof | void => simp [printed, sign?, hword, UnaryOp.text]
    | not | bitNot =>
      rcases List.mem_pair.mp hsign with rfl | rfl <;>
        simp [printed, Printed.tokens, sign?, UnaryOp.text]
  | typeof operand | delete operand | await operand | void comment =>
    simp [printed, sign?, hword]
  | yield value =>
    cases value with
    | none => simp [printed, Printed.tokens, sign?]
    | some value => simp [printed, Printed.tokens, sign?]
  | assign target value =>
    simp only [printed, sign?] at hfits ⊢
    split at hfits
    · next hreserved => simp [hreserved, Printed.tokens]
    · exact absurd hfits.1 (by decide)
  | member object property =>
    simp only [printed, sign?] at hfits ⊢
    split at hfits
    · next hglobal => simp [hglobal, Printed.tokens]
    · next hglobal => simp [hglobal, hpost hfits]
  | index | call | methodCall | taggedTemplate => simp [printed, sign?, hpost hfits]
  | _ => simp [printed, Printed.tokens, sign?]

/-- The parentheses in the text are enough, up to level `n`. -/
def FitsText (c : OperatorText) (n : Nat) : Prop := SignsApart c ∧ c.Fits jsLevels n

/-- The levels of an expression are those of its text. -/
def Expr.LevelsOfText (e : Expr) : Prop := ∀ n, FitsText (e.printed doubleText) n ↔
  e.WellPrinted doubleText ∧ n ≤ e.textLevel doubleText

variable {doubleText}

theorem Expr.LevelsOfText.withParens {e : Expr} (h : e.LevelsOfText doubleText) (parens : Bool)
    (n : Nat) : FitsText (withParens parens (e.printed doubleText)) n ↔
      e.WellPrinted doubleText ∧ (parens = true ∨ n ≤ e.textLevel doubleText) := by
  rw [FitsText, signsApart_withParens, fits_withParens]
  cases parens with
  | false => simpa [FitsText] using h n
  | true => simpa [FitsText] using h 0

/-- A prefix operator that is no sign. -/
theorem Expr.LevelsOfText.pre {e : Expr} (h : e.LevelsOfText doubleText) {p : Prefix}
    (hp : ∀ sign ∈ ["-", "+"], p ≠ .unary sign) (n : Nat) :
    FitsText (.pre p (e.printed doubleText)) n ↔
      (e.WellPrinted doubleText ∧ p.operand ≤ e.textLevel doubleText) ∧ n ≤ p.level := by
  rw [← h p.operand]
  constructor
  · rintro ⟨⟨hsigns, -⟩, hn, hfits⟩
    exact ⟨⟨hsigns, hfits⟩, hn⟩
  · rintro ⟨⟨hsigns, hfits⟩, hn⟩
    exact ⟨⟨hsigns, fun sign hsign heq => absurd heq (hp sign hsign)⟩, hn, hfits⟩

theorem Expr.LevelsOfText.sign {e : Expr} (h : e.LevelsOfText doubleText) {sign : String}
    (hsign : sign ∈ ["-", "+"]) (n : Nat) :
    FitsText (.pre (.unary sign) (e.printed doubleText)) n ↔
      (e.WellPrinted doubleText ∧ 15 ≤ e.textLevel doubleText ∧
        e.sign? doubleText ≠ some sign) ∧ n ≤ 15 := by
  constructor
  · rintro ⟨⟨hsigns, hapart⟩, hn, hfits⟩
    obtain ⟨hwell, hlevel⟩ := (h 15).mp ⟨hsigns, hfits⟩
    have hhead := hapart sign hsign rfl
    rw [ne_eq, head?_printed doubleText hfits hsign] at hhead
    exact ⟨⟨hwell, hlevel, hhead⟩, hn⟩
  · rintro ⟨⟨hwell, hlevel, hhead⟩, hn⟩
    obtain ⟨hsigns, hfits⟩ := (h 15).mpr ⟨hwell, hlevel⟩
    refine ⟨⟨hsigns, fun sign' hsign' heq => ?_⟩, hn, hfits⟩
    obtain rfl := Prefix.unary.inj heq
    rwa [ne_eq, head?_printed doubleText hfits hsign]

theorem Expr.mem_of_sign? {e : Expr} {sign : String} (h : e.sign? doubleText = some sign) :
    sign ∈ ["-", "+"] := by
  unfold sign? at h
  split at h
  · rw [← (ite_eq_some_iff.mp h).2]
    decide
  · cases h
    decide
  · cases h
    decide
  · cases h

theorem Expr.LevelsOfText.noSign {e : Expr} (h : e.LevelsOfText doubleText) {text : String}
    (htext : text ∉ ["-", "+"]) (n : Nat) :
    FitsText (.pre (.unary text) (e.printed doubleText)) n ↔
      (e.WellPrinted doubleText ∧ 15 ≤ e.textLevel doubleText ∧
        e.sign? doubleText ≠ some text) ∧ n ≤ 15 := by
  have hpre := h.pre (p := .unary text) (fun sign hsign heq =>
    htext (Prefix.unary.inj heq ▸ hsign)) n
  have hno : e.sign? doubleText ≠ some text := fun hsome => htext (mem_of_sign? hsome)
  rw [hpre, and_iff_left hno]
  rfl

theorem Expr.LevelsOfText.post {e : Expr} (h : e.LevelsOfText doubleText) (parens : Bool)
    (q : String) (n : Nat) :
    FitsText (.post q (Decompile.withParens parens (e.printed doubleText))) n ↔
      (e.WellPrinted doubleText ∧ (parens = true ∨ 16 ≤ e.textLevel doubleText)) ∧ n ≤ 16 := by
  rw [← h.withParens parens 16]
  constructor
  · rintro ⟨hsigns, hn, hfits⟩
    exact ⟨⟨hsigns, hfits⟩, hn⟩
  · rintro ⟨⟨hsigns, hfits⟩, hn⟩
    exact ⟨hsigns, hn, hfits⟩

theorem Expr.LevelsOfText.suffix {e : Expr} (h : e.LevelsOfText doubleText) (q : String)
    (n : Nat) : FitsText (.post q (e.printed doubleText)) n ↔
      (e.WellPrinted doubleText ∧ 16 ≤ e.textLevel doubleText) ∧ n ≤ 16 := by
  refine (h.post false q n).trans ?_
  simp

theorem Expr.LevelsOfText.node {l r : OperatorText} {wellLeft wellRight : Prop} {o : Operator}
    (hl : FitsText l o.left ↔ wellLeft) (hr : FitsText r o.right ↔ wellRight) (n : Nat) :
    FitsText (.node o l r) n ↔ (wellLeft ∧ wellRight) ∧ n ≤ o.level := by
  rw [← hl, ← hr]
  constructor
  · rintro ⟨⟨hsl, hsr⟩, hn, hfl, hfr⟩
    exact ⟨⟨⟨hsl, hfl⟩, hsr, hfr⟩, hn⟩
  · rintro ⟨⟨⟨hsl, hfl⟩, hsr, hfr⟩, hn⟩
    exact ⟨⟨hsl, hsr⟩, hn, hfl, hfr⟩

theorem fits_leaf (text : String) (level n : Nat) :
    FitsText (.atom ⟨text, level⟩) n ↔ n ≤ level :=
  and_iff_right trivial

theorem fits_signed (text : String) (n : Nat) :
    FitsText (signed text) n ↔ n ≤ if isSigned text then 15 else 16 := by
  unfold signed
  split
  · simp [FitsText, SignsApart, Printed.Fits, Printed.tokens, jsLevels, Prefix.level,
      Prefix.operand]
  · exact fits_leaf text 16 n

variable (doubleText)

theorem Expr.levelsOfText : ∀ e : Expr, e.LevelsOfText doubleText
  | .literal l, n => by simp [printed, fits_signed, WellPrinted, textLevel]
  | .binary op left right, n => by
    rw [printed, LevelsOfText.node ((levelsOfText left).withParens _ _)
      ((levelsOfText right).withParens _ _)]
    simp only [WellPrinted, textLevel, Operator.level, jsLevels, and_assoc, and_left_comm]
  | .unary op operand, n => by
    cases op with
    | neg => exact (levelsOfText operand).sign (by decide) n
    | toNumber => exact (levelsOfText operand).sign (by decide) n
    | toInt32 =>
      refine (LevelsOfText.node (o := .binary .bitOr) (levelsOfText operand _)
        (fits_leaf "0" 16 _) n).trans ?_
      simp [WellPrinted, textLevel, Operator.level, Operator.left, Operator.right,
        BinOp.precedence]
    | toUint32 =>
      refine (LevelsOfText.node (o := .binary .urShift) (levelsOfText operand _)
        (fits_leaf "0" 16 _) n).trans ?_
      simp [WellPrinted, textLevel, Operator.level, Operator.left, Operator.right,
        BinOp.precedence]
    | not | bitNot | typeof | void => exact (levelsOfText operand).noSign (by decide) n
  | .typeof operand, n | .delete operand, n | .await operand, n | .yield (some operand), n
  | .spread operand, n => (levelsOfText operand).pre (by simp) n
  | .void comment, n => by
    simp [printed, FitsText, SignsApart, Printed.Fits, Printed.tokens, jsLevels, Prefix.level,
      Prefix.operand, WellPrinted, textLevel]
  | .assign target value, n => by
    rw [printed, WellPrinted, textLevel]
    split
    · next hreserved => simp [fits_leaf, hreserved]
    · next hreserved =>
      rw [LevelsOfText.node (levelsOfText target _) (levelsOfText value _), or_iff_right hreserved]
      simp only [Operator.level, Operator.left, Operator.right, and_assoc, and_left_comm]
  | .member object property, n => by
    have hlevel : (member object property).textLevel doubleText = 16 := rfl
    rw [printed, WellPrinted, hlevel]
    split
    · next hglobal => simp [fits_leaf, hglobal]
    · next hglobal => rw [(levelsOfText object).post, or_iff_right hglobal]
  | .index object key, n => (levelsOfText object).suffix _ n
  | .call object thisArg args, n => (levelsOfText object).suffix _ n
  | .methodCall object method args, n => by
    refine Iff.trans ?_ ((levelsOfText object).suffix (methodSuffix method) n)
    have hpost : jsLevels.post = 16 := rfl
    simp only [printed, FitsText, SignsApart, Printed.Fits, hpost, Nat.le_refl, true_and]
  | .taggedTemplate tag _ chunks subs, n => (levelsOfText tag).post _ _ n
  | .yield none, n => by simp [printed, fits_leaf, WellPrinted, textLevel]
  | .var _, n | .global, n | .this, n | .param _, n | .new _ _, n | .arrayLit _, n | .objectLit _, n
  | .regExp _ _, n | .arguments, n | .newTarget, n | .debugger, n | .globalIdent _, n
  | .decompileMeta _, n | .jsx _ _ _, n | .declareGlobal _, n | .completeGenerator, n
  | .raw _, n => by simp [printed, fits_leaf, WellPrinted, textLevel]

/-- The text is that of the tokens, and its operators make the expression of them, and nothing
else, exactly when it is well printed. -/
theorem Expr.display_reads_iff (e : Expr) :
    e.display doubleText = textOf (e.printed doubleText).tokens ∧
      ((e.printed doubleText).tokens.IsChain Apart ∧
        (∀ t, Reads jsLevels (e.printed doubleText).tokens t ↔ t = e.operatorTree doubleText) ↔
          e.WellPrinted doubleText) := by
  refine ⟨e.display_eq doubleText, ?_⟩
  rw [isChain_tokens, ← e.tree_printed, reads_only_iff]
  exact (e.levelsOfText doubleText 0).trans (and_iff_left (Nat.zero_le _))

/-- `(a ** b) ** c` loses its parentheses. -/
example (a b c : VarId) :
    ¬ (Expr.binary .exp (.binary .exp (.var a) (.var b)) (.var c)).WellPrinted doubleText := by
  simp [Expr.WellPrinted, Expr.textLevel, Expr.binaryPrecedence?, jsLevels, Operator.left,
    BinOp.precedence]

end

end Hermes.Decompile
