-- SUMMARY: The placeholder of the destination: only the operations that pass a register on render it.
import DroidsawHermes.Decompile.BuiltOperands
import DroidsawHermes.Structure.BuildExpr

/-!
# The placeholder of the destination

Whether the first operand is the destination is decided by `classify_inst`; each arm of
`build_expr` has its own indices. An arm that reads the first operand has to be one for
operations without a destination.
-/

namespace Hermes.Structure

open Decompile

/-! ## Atoms of expressions -/

mutual

/-- The atoms of an expression, from left to right. -/
def leaves : Expr → List Expr
  | .binary _ left right => leaves left ++ leaves right
  | .unary _ operand => leaves operand
  | .member object _ => leaves object
  | .index object index => leaves object ++ leaves index
  | .call callee thisArg args => leaves callee ++ leavesOption thisArg ++ leavesAll args
  | .methodCall object _ args => leaves object ++ leavesAll args
  | .new callee args => leaves callee ++ leavesAll args
  | .arrayLit items => leavesAll items
  | .objectLit entries => leavesEntries entries
  | .typeof operand => leaves operand
  | .delete operand => leaves operand
  | .assign target value => leaves target ++ leaves value
  | .yield (some value) => leaves value
  | .await value => leaves value
  | .spread operand => leaves operand
  | .jsx tag props children => leaves tag ++ leaves props ++ leavesAll children
  | .taggedTemplate tag _ _ subs => leaves tag ++ leavesAll subs
  | atom => [atom]

def leavesOption : Option Expr → List Expr
  | none => []
  | some e => leaves e

def leavesAll : List Expr → List Expr
  | [] => []
  | e :: rest => leaves e ++ leavesAll rest

def leavesEntries : List ObjectEntry → List Expr
  | [] => []
  | .keyVal _ value :: rest => leaves value ++ leavesEntries rest
  | .spread source :: rest => leaves source ++ leavesEntries rest

end

attribute [simp] leaves leavesOption leavesAll leavesEntries

theorem mem_leavesAll {x : Expr} {es : List Expr} :
    x ∈ leavesAll es ↔ ∃ e ∈ es, x ∈ leaves e := by
  induction es with
  | nil => simp
  | cons e es ih => simp [ih]

/-- The value of an entry of an object literal. -/
def entryValue : ObjectEntry → Expr
  | .keyVal _ value => value
  | .spread source => source

theorem mem_leavesEntries {x : Expr} {entries : List ObjectEntry} :
    x ∈ leavesEntries entries ↔ ∃ entry ∈ entries, x ∈ leaves (entryValue entry) := by
  induction entries with
  | nil => simp
  | cons entry entries ih => cases entry <;> simp [ih, entryValue]

/-! ## The placeholder of the destination -/

/-- The expression does not render the placeholder of the destination. -/
def NoPlaceholder (e : Expr) : Prop := Expr.void "dst" ∉ leaves e

namespace NoPlaceholder

variable {e l r : Expr} {es : List Expr}

@[simp] theorem binary {op : BinOp} :
    NoPlaceholder (.binary op l r) ↔ NoPlaceholder l ∧ NoPlaceholder r := by
  simp [NoPlaceholder]

@[simp] theorem unary {op : UnaryOp} : NoPlaceholder (.unary op e) ↔ NoPlaceholder e := by
  simp [NoPlaceholder]

@[simp] theorem member {property : String} :
    NoPlaceholder (.member e property) ↔ NoPlaceholder e := by
  simp [NoPlaceholder]

@[simp] theorem index : NoPlaceholder (.index l r) ↔ NoPlaceholder l ∧ NoPlaceholder r := by
  simp [NoPlaceholder]

@[simp] theorem call {thisArg : Option Expr} :
    NoPlaceholder (.call e thisArg es) ↔
      NoPlaceholder e ∧ (∀ receiver ∈ thisArg, NoPlaceholder receiver) ∧
        ∀ arg ∈ es, NoPlaceholder arg := by
  cases thisArg <;>
    simp [NoPlaceholder, mem_leavesAll]

@[simp] theorem methodCall {method : String} :
    NoPlaceholder (.methodCall e method es) ↔ NoPlaceholder e ∧ ∀ arg ∈ es, NoPlaceholder arg := by
  simp [NoPlaceholder, mem_leavesAll]

@[simp] theorem new : NoPlaceholder (.new e es) ↔ NoPlaceholder e ∧ ∀ arg ∈ es, NoPlaceholder arg := by
  simp [NoPlaceholder, mem_leavesAll]

@[simp] theorem arrayLit : NoPlaceholder (.arrayLit es) ↔ ∀ item ∈ es, NoPlaceholder item := by
  simp [NoPlaceholder, mem_leavesAll]

@[simp] theorem objectLit {entries : List ObjectEntry} :
    NoPlaceholder (.objectLit entries) ↔ ∀ entry ∈ entries, NoPlaceholder (entryValue entry) := by
  simp [NoPlaceholder, mem_leavesEntries]

@[simp] theorem typeof : NoPlaceholder (.typeof e) ↔ NoPlaceholder e := by
  simp [NoPlaceholder]

@[simp] theorem delete : NoPlaceholder (.delete e) ↔ NoPlaceholder e := by
  simp [NoPlaceholder]

@[simp] theorem assign : NoPlaceholder (.assign l r) ↔ NoPlaceholder l ∧ NoPlaceholder r := by
  simp [NoPlaceholder]

@[simp] theorem spread : NoPlaceholder (.spread e) ↔ NoPlaceholder e := by
  simp [NoPlaceholder]

@[simp] theorem taggedTemplate {cooked raw : List String} :
    NoPlaceholder (.taggedTemplate e cooked raw es) ↔
      NoPlaceholder e ∧ ∀ sub ∈ es, NoPlaceholder sub := by
  simp [NoPlaceholder, mem_leavesAll]

@[simp] theorem jsx : NoPlaceholder (.jsx l r es) ↔
    NoPlaceholder l ∧ NoPlaceholder r ∧ ∀ child ∈ es, NoPlaceholder child := by
  simp [NoPlaceholder, mem_leavesAll]

@[simp] theorem literal (x : Decompile.Literal) : NoPlaceholder (.literal x) := by
  simp [NoPlaceholder]

@[simp] theorem raw (text : String) : NoPlaceholder (.raw text) := by
  simp [NoPlaceholder]

@[simp] theorem globalIdent (name : String) : NoPlaceholder (.globalIdent name) := by
  simp [NoPlaceholder]

@[simp] theorem decompileMeta (m : DecompileMeta) : NoPlaceholder (.decompileMeta m) := by
  simp [NoPlaceholder]

@[simp] theorem void {comment : String} : NoPlaceholder (.void comment) ↔ comment ≠ "dst" := by
  simp [NoPlaceholder, eq_comm]

/-- The atoms without data. -/
@[simp] theorem atoms : NoPlaceholder .global ∧ NoPlaceholder .this ∧ NoPlaceholder .arguments ∧
    NoPlaceholder .newTarget ∧ NoPlaceholder .debugger ∧ NoPlaceholder (.yield none) ∧
    NoPlaceholder .completeGenerator := by
  simp [NoPlaceholder]

@[simp] theorem declareGlobal (name : String) : NoPlaceholder (.declareGlobal name) := by
  simp [NoPlaceholder]

@[simp] theorem regExp (pattern flags : String) : NoPlaceholder (.regExp pattern flags) := by
  simp [NoPlaceholder]

/-- An atom other than the placeholder. -/
theorem atom (h : leaves e = [e]) (hne : Expr.void "dst" ≠ e) : NoPlaceholder e := by
  rw [NoPlaceholder, h, List.mem_singleton]
  exact hne

end NoPlaceholder

/-- Only the first operand is the destination. -/
def FirstOnly (ops : List SsaOperand) : Prop := ∀ i, ops[i + 1]? ≠ some SsaOperand.dstPlaceholder

theorem leaves_varExpr (ops : List SsaOperand) (i : Nat) :
    leaves (varExpr ops i) = [varExpr ops i] := by
  fun_cases varExpr ops i <;> simp

theorem noPlaceholder_varExpr {ops : List SsaOperand} {i : Nat}
    (h : ops[i]? ≠ some SsaOperand.dstPlaceholder) : NoPlaceholder (varExpr ops i) := by
  apply NoPlaceholder.atom (leaves_varExpr ops i)
  fun_cases varExpr ops i with
  | case8 hdst => exact absurd hdst h
  | _ => simp

theorem noPlaceholder_operandToExpr (o : SsaOperand) : NoPlaceholder (operandToExpr o) := by
  cases o <;> simp [NoPlaceholder, operandToExpr]

/-! ## Stores -/

/-- What the names of stores start with, in `classify_inst`. -/
def storePrefixes : List String :=
  ["PutById", "TryPutById", "PutByVal", "StoreToEnvironment", "StoreNPToEnvironment", "DefineOwn",
    "PutNewOwn", "PutOwn"]

/-- The stores of `classify_inst`, which have no destination. -/
def isStore (name : String) : Bool :=
  storePrefixes.any (startsWith name) ||
    ["FastArrayStore", "FastArrayPush", "FastArrayAppend", "AddOwnPrivateBySym"].contains name

/-- The operations that pass a source register on. -/
def passNames : List String := ["ThrowIfEmpty", "ThrowIfUndefined", "SelectObject"]

/-- A pattern that only stores have. -/
def onlyStores : ArmPattern → Bool
  | .oneOf names => names.all isStore
  | .starts heads => heads.all fun head => storePrefixes.any (startsWith head)

theorem startsWith_trans {s t u : String} (hst : startsWith s t = true)
    (htu : startsWith t u = true) : startsWith s u = true := by
  rw [startsWith, List.isPrefixOf_iff_prefix] at *
  exact htu.trans hst

theorem isStore_of_onlyStores {p : ArmPattern} {name : String} (h : onlyStores p = true)
    (hname : p.has name = true) : isStore name = true := by
  cases p with
  | oneOf names => exact List.all_eq_true.mp h name (List.contains_iff_mem.mp hname)
  | starts heads =>
    obtain ⟨head, hmem, hhead⟩ := List.any_eq_true.mp hname
    obtain ⟨pre, hpre, hstarts⟩ := List.any_eq_true.mp (List.all_eq_true.mp h head hmem)
    have hany : storePrefixes.any (startsWith name) = true :=
      List.any_eq_true.mpr ⟨pre, hpre, startsWith_trans hhead hstarts⟩
    rw [isStore, hany, Bool.true_or]

/-- A store has no destination. -/
theorem classifyInst_of_isStore {types : List OpType} {inst : DecodedInst}
    (h : isStore inst.name = true) : classifyInst types inst = none := by
  have hnone : (noDstNames.contains inst.name || noDstPrefixes.any (startsWith inst.name)) = true := by
    rcases Bool.or_eq_true_iff.mp h with hstarts | hname
    · obtain ⟨pre, hpre, hstarts⟩ := List.any_eq_true.mp hstarts
      have hmem : pre ∈ noDstPrefixes :=
        (show storePrefixes ⊆ noDstPrefixes by simp [storePrefixes, noDstPrefixes]) hpre
      rw [List.any_eq_true.mpr ⟨pre, hmem, hstarts⟩, Bool.or_true]
    · have hsub : ["FastArrayStore", "FastArrayPush", "FastArrayAppend", "AddOwnPrivateBySym"] ⊆
          noDstNames := by simp [noDstNames]
      rw [List.contains_iff_mem.mpr (hsub (List.contains_iff_mem.mp hname)), Bool.true_or]
  rw [classifyInst, if_pos]
  rw [hnone, Bool.true_or]

/-! ## The arms -/

section Arms

variable {doubleText : UInt64 → String} {getStr : Nat → String} {op : SsaOp}

theorem noPlaceholder_operatorArms (hop : FirstOnly op.operands) :
    ∀ arm ∈ operatorArms, NoPlaceholder (arm.body op) := by
  have h1 := noPlaceholder_varExpr (hop 0)
  have h2 := noPlaceholder_varExpr (hop 1)
  simp [operatorArms, named, binary, unary, h1, h2]

theorem noPlaceholder_constantArms (op : SsaOp) :
    ∀ arm ∈ constantArms getStr, NoPlaceholder (arm.body op) := by
  have hint : NoPlaceholder (loadConstInt op.operands) := by
    unfold loadConstInt
    split <;> simp
  have hdouble : NoPlaceholder (loadConstDouble op.operands) := by
    unfold loadConstDouble
    split <;> simp
  have hbigInt : NoPlaceholder (loadConstBigInt op.operands) := by
    unfold loadConstBigInt
    split <;> simp
  have hstring : NoPlaceholder (loadConstString getStr op.operands) := by
    unfold loadConstString
    split <;> simp
  have hparam : NoPlaceholder (loadParam op.operands) := by
    unfold loadParam
    split <;> simp [NoPlaceholder]
  simp [constantArms, named, hint, hdouble, hbigInt, hstring, hparam]

theorem noPlaceholder_accessArms (hop : FirstOnly op.operands) :
    ∀ arm ∈ accessArms doubleText getStr, NoPlaceholder (arm.body op) := by
  have h1 := noPlaceholder_varExpr (hop 0)
  have h2 := noPlaceholder_varExpr (hop 1)
  simp only [accessArms, named, starting, List.forall_mem_cons, NoPlaceholder.index, h1, h2,
    true_and, List.not_mem_nil, false_imp_iff, implies_true, and_true]
  refine ⟨?_, ?_, ?_, ?_, ?_⟩
  · split <;> simp [h1]
  · simp [NoPlaceholder]
  · split <;> simp
  · simp
  · simp [NoPlaceholder]

/-- The receiver of a call is an operand behind the callee. -/
theorem noPlaceholder_callThisArg (hop : FirstOnly op.operands) (calleeIdx thisIdx : Nat) :
    ∀ receiver ∈ callThisArg op.operands calleeIdx (thisIdx + 1), NoPlaceholder receiver := by
  intro receiver hreceiver
  have heq : receiver = varExpr op.operands (thisIdx + 1) := by
    unfold callThisArg at hreceiver
    split at hreceiver
    · cases hreceiver
    · split at hreceiver
      · split at hreceiver <;> cases hreceiver
        rfl
      · cases hreceiver
        rfl
  exact heq ▸ noPlaceholder_varExpr (hop thisIdx)

theorem noPlaceholder_args (ops : List SsaOperand) (n : Nat) :
    ∀ arg ∈ (ops.drop n).map operandToExpr, NoPlaceholder arg := by
  intro arg harg
  obtain ⟨o, -, rfl⟩ := List.mem_map.mp harg
  exact noPlaceholder_operandToExpr o

theorem noPlaceholder_fixedCall (hop : FirstOnly op.operands) (args : List Nat) :
    NoPlaceholder (fixedCall (args.map (· + 1)) op.operands) := by
  rw [fixedCall, NoPlaceholder.call]
  refine ⟨noPlaceholder_varExpr (hop 0), noPlaceholder_callThisArg hop 1 1, fun arg harg => ?_⟩
  obtain ⟨i, hi, rfl⟩ := List.mem_map.mp harg
  obtain ⟨n, -, rfl⟩ := List.mem_map.mp hi
  exact noPlaceholder_varExpr (hop n)

theorem noPlaceholder_callArms (hop : FirstOnly op.operands) :
    ∀ arm ∈ callArms, NoPlaceholder (arm.body op) := by
  have h1 := noPlaceholder_varExpr (hop 0)
  simp only [callArms, named, List.forall_mem_cons, NoPlaceholder.methodCall, NoPlaceholder.new, h1,
    true_and, List.not_mem_nil, false_imp_iff, implies_true, and_true]
  exact ⟨noPlaceholder_fixedCall hop [], noPlaceholder_fixedCall hop [2],
    noPlaceholder_fixedCall hop [2, 3], noPlaceholder_fixedCall hop [2, 3, 4],
    noPlaceholder_args _ 3, noPlaceholder_args _ 3⟩

theorem noPlaceholder_closureExpr (ops : List SsaOperand) (kind : ClosureKind) :
    NoPlaceholder (closureExprOrPlaceholder ops kind) := by
  unfold closureExprOrPlaceholder
  split <;> simp

theorem noPlaceholder_loadFromEnvironment {ops : List SsaOperand} (hop : FirstOnly ops) :
    NoPlaceholder (loadFromEnvironment ops) := by
  have h1 := noPlaceholder_varExpr (hop 0)
  unfold loadFromEnvironment
  dsimp only
  split
  · split
    · split <;> simp
    · simpa using h1
  · simpa using h1

theorem noPlaceholder_tokenExpr (o : SsaOperand) : NoPlaceholder (tokenExpr o) := by
  cases o <;> simp [NoPlaceholder, tokenExpr, operandToExpr]

theorem noPlaceholder_builtinExpr (operand : Option SsaOperand) :
    NoPlaceholder (builtinExpr operand) := by
  unfold builtinExpr
  split <;> simp

theorem noPlaceholder_callBuiltin (ops : List SsaOperand) : NoPlaceholder (callBuiltin ops) := by
  have hcall : NoPlaceholder
      (.call (builtinExpr ops[1]?) none ((ops.drop 3).map operandToExpr)) := by
    rw [NoPlaceholder.call]
    exact ⟨noPlaceholder_builtinExpr _, by simp, noPlaceholder_args ops 3⟩
  unfold callBuiltin
  dsimp only
  split
  · split
    · simp [noPlaceholder_operandToExpr]
    · exact hcall
  · exact hcall

theorem noPlaceholder_taggedTemplate {ops : List SsaOperand} (hop : FirstOnly ops) :
    NoPlaceholder (taggedTemplate ops) := by
  unfold taggedTemplate
  dsimp only
  split
  · split
    · simp
    · split
      · simp
      · split
        · rw [NoPlaceholder.taggedTemplate]
          exact ⟨noPlaceholder_varExpr (hop 0), noPlaceholder_args ops _⟩
        · simp
  · simp

theorem noPlaceholder_operandAt (ops : List SsaOperand) (i : Nat) :
    NoPlaceholder (operandAt ops i) := by
  unfold operandAt
  cases ops[i]? <;> simp [noPlaceholder_operandToExpr]

theorem noPlaceholder_arraySpread (ops : List SsaOperand) : NoPlaceholder (arraySpread ops) := by
  unfold arraySpread
  split
  · dsimp only
    rw [NoPlaceholder.arrayLit]
    intro item hitem
    rcases List.mem_append.mp hitem with hitem | hitem
    · split at hitem
      · cases hitem
      · obtain ⟨text, -, rfl⟩ := List.mem_map.mp hitem
        exact NoPlaceholder.raw text
    · simp only [List.mem_cons, List.not_mem_nil, or_false] at hitem
      rcases hitem with rfl | rfl
      · rw [NoPlaceholder.spread]
        exact noPlaceholder_operandAt ops 2
      · exact noPlaceholder_operandAt ops 3
  · simp

theorem noPlaceholder_objectPairs {ops : List SsaOperand} {entries : List ObjectEntry}
    (h : objectPairs ops = some entries) : ∀ entry ∈ entries, NoPlaceholder (entryValue entry) := by
  induction ops using objectPairs.induct generalizing entries with
  | case1 key value rest ih =>
    obtain ⟨tail, htail, rfl⟩ := Option.map_eq_some_iff.mp h
    intro entry hentry
    rcases List.mem_cons.mp hentry with rfl | hmem
    · exact noPlaceholder_tokenExpr value
    · exact ih htail entry hmem
  | case2 o value rest hkey =>
    rw [objectPairs.eq_2 _ _ _ hkey] at h
    cases h
  | case3 ops h1 h2 =>
    rw [objectPairs.eq_3 _ h1 h2] at h
    cases h
    simp

theorem noPlaceholder_objectLit (ops : List SsaOperand) : NoPlaceholder (objectLit ops) := by
  unfold objectLit
  split
  · next hentries =>
    rw [NoPlaceholder.objectLit]
    exact noPlaceholder_objectPairs hentries
  · simp

theorem noPlaceholder_spreadEntry {tag : String} {o : SsaOperand} {entry : ObjectEntry}
    (h : spreadEntry tag (tokenExpr o) = some entry) : NoPlaceholder (entryValue entry) := by
  unfold spreadEntry at h
  split at h
  · cases h
    exact noPlaceholder_tokenExpr o
  · cases h
    exact noPlaceholder_tokenExpr o
  · cases h

theorem noPlaceholder_spreadEntries {ops : List SsaOperand} {entries : List ObjectEntry}
    (h : spreadEntries ops = .ok entries) : ∀ entry ∈ entries, NoPlaceholder (entryValue entry) := by
  induction ops using spreadEntries.induct generalizing entries with
  | case1 tag value rest entry hentry ih =>
    simp only [spreadEntries, hentry] at h
    cases hrest : spreadEntries rest with
    | error text =>
      rw [hrest] at h
      cases h
    | ok tail =>
      rw [hrest] at h
      cases h
      intro entry' hmem
      rcases List.mem_cons.mp hmem with rfl | hmem
      · exact noPlaceholder_spreadEntry hentry
      · exact ih hrest entry' hmem
  | case2 tag value rest hnone =>
    simp only [spreadEntries, hnone] at h
    cases h
  | case3 o value rest htag =>
    rw [spreadEntries.eq_2 _ _ _ htag] at h
    cases h
  | case4 ops h1 h2 =>
    rw [spreadEntries.eq_3 _ h1 h2] at h
    cases h
    simp

theorem noPlaceholder_objectSpread (ops : List SsaOperand) : NoPlaceholder (objectSpread ops) := by
  unfold objectSpread
  split
  · next hentries =>
    rw [NoPlaceholder.objectLit]
    exact noPlaceholder_spreadEntries hentries
  · simp

theorem noPlaceholder_builtinArms (hop : FirstOnly op.operands) :
    ∀ arm ∈ builtinArms, NoPlaceholder (arm.body op) := by
  simp only [builtinArms, named, List.forall_mem_cons, List.not_mem_nil, false_imp_iff,
    implies_true, and_true]
  exact ⟨noPlaceholder_callBuiltin _, noPlaceholder_builtinExpr _, noPlaceholder_taggedTemplate hop,
    noPlaceholder_arraySpread _, noPlaceholder_objectLit _, noPlaceholder_objectSpread _⟩

theorem noPlaceholder_directCallee (operand : Option SsaOperand) :
    NoPlaceholder (directCallee operand) := by
  unfold directCallee
  split <;> simp

theorem noPlaceholder_variadicCall {callee : Expr} {calleeIdx : Nat} (hop : FirstOnly op.operands)
    (hcallee : NoPlaceholder callee) :
    NoPlaceholder (variadicCall callee calleeIdx op.operands) := by
  rw [variadicCall, NoPlaceholder.call]
  exact ⟨hcallee, noPlaceholder_callThisArg hop calleeIdx 2, noPlaceholder_args _ 4⟩

/-- An operation whose operands stand where `build_ssa` puts them. -/
structure Placed (op : SsaOp) : Prop where
  firstOnly : FirstOnly op.operands
  store : isStore op.name = true → op.operands[0]? ≠ some SsaOperand.dstPlaceholder

theorem Placed.first (hop : Placed op) {p : ArmPattern} (hp : onlyStores p = true)
    (hname : p.has op.name = true) : NoPlaceholder (varExpr op.operands 0) :=
  noPlaceholder_varExpr (hop.store (isStore_of_onlyStores hp hname))

theorem noPlaceholder_storeArms (hop : Placed op) :
    ∀ arm ∈ storeArms doubleText getStr, arm.pattern.has op.name = true →
      NoPlaceholder (arm.body op) := by
  have h1 := noPlaceholder_varExpr (hop.firstOnly 0)
  have h2 := noPlaceholder_varExpr (hop.firstOnly 1)
  have hput : ∀ prop, NoPlaceholder (varExpr op.operands 0) →
      NoPlaceholder (putById doubleText getStr op prop) := by
    intro prop h0
    cases prop <;> simp [putById, h0, h1]
  have hslot : NoPlaceholder (varExpr op.operands 0) → NoPlaceholder (slotTarget op.operands) := by
    intro h0
    unfold slotTarget
    split
    · split <;> simp [h0]
    · simp [h0, h2]
  simp only [storeArms, named, starting, List.forall_mem_cons, putByVal, NoPlaceholder.assign,
    NoPlaceholder.index, NoPlaceholder.member, NoPlaceholder.methodCall, NoPlaceholder.spread, h1, h2,
    and_self, and_true, implies_true, true_and, List.not_mem_nil, false_imp_iff]
  exact ⟨fun h => hput _ (hop.first (by decide) h),
    fun h => hput _ (hop.first (by decide) h), fun h => hop.first (by decide) h,
    fun h => hop.first (by decide) h, fun h => hop.first (by decide) h,
    fun h => hslot (hop.first (by decide) h), fun h => hop.first (by decide) h,
    fun h => hop.first (by decide) h, fun h => hop.first (by decide) h⟩

theorem noPlaceholder_closureArms (hop : Placed op) :
    ∀ arm ∈ closureArms, arm.pattern.has op.name = true → NoPlaceholder (arm.body op) := by
  have h2 := noPlaceholder_varExpr (hop.firstOnly 1)
  simp only [closureArms, named, starting, List.forall_mem_cons, noPlaceholder_closureExpr,
    NoPlaceholder.decompileMeta, noPlaceholder_loadFromEnvironment hop.firstOnly,
    NoPlaceholder.assign, NoPlaceholder.member, h2, and_true, implies_true, true_and,
    List.not_mem_nil, false_imp_iff]
  exact fun h => hop.first (by decide) h

/-- A name that an arm for passes has is one of them. -/
theorem not_has_of_not_mem_passNames (hpass : op.name ∉ passNames) {names : List String}
    (hnames : names ⊆ passNames) : ArmPattern.has op.name (.oneOf names) = true → False :=
  fun h => hpass (hnames (List.contains_iff_mem.mp h))

theorem noPlaceholder_miscArms (hop : Placed op) (hpass : op.name ∉ passNames) :
    ∀ arm ∈ miscArms doubleText getStr, arm.pattern.has op.name = true →
      NoPlaceholder (arm.body op) := by
  have h1 := noPlaceholder_varExpr (hop.firstOnly 0)
  have h2 := noPlaceholder_varExpr (hop.firstOnly 1)
  have hdeclare : NoPlaceholder (declareGlobalVar getStr op.operands) := by
    unfold declareGlobalVar
    split <;> simp
  have hdelete : NoPlaceholder (delById doubleText getStr op) := by
    unfold delById
    split <;> simp [h1]
  have hobject : NoPlaceholder (fromBuffer (.objectLit []) op.operands) := by
    unfold fromBuffer
    split <;> simp
  have harray : NoPlaceholder (fromBuffer (.arrayLit []) op.operands) := by
    unfold fromBuffer
    split <;> simp
  have hregExp : NoPlaceholder (createRegExp getStr op.operands) := by
    unfold createRegExp
    split <;> simp
  have hselect : ArmPattern.has op.name (.oneOf ["SelectObject"]) = false :=
    Bool.eq_false_iff.mpr (not_has_of_not_mem_passNames hpass (by simp [passNames]))
  simp [miscArms, named, starting, globalCall, h1, h2, hdeclare, hdelete, hobject, harray, hregExp,
    hselect]

theorem noPlaceholder_classArms (hop : Placed op) (hpass : op.name ∉ passNames) :
    ∀ arm ∈ classArms, arm.pattern.has op.name = true → NoPlaceholder (arm.body op) := by
  have h1 := noPlaceholder_varExpr (hop.firstOnly 0)
  have h2 := noPlaceholder_varExpr (hop.firstOnly 1)
  have hprivate : ArmPattern.has op.name (.oneOf ["PutOwnPrivateBySym"]) = true →
      NoPlaceholder (varExpr op.operands 0) := hop.first (by decide)
  have hdense : ArmPattern.has op.name (.oneOf ["DefineOwnInDenseArray",
      "DefineOwnInDenseArrayL", "DefineOwnByVal"]) = true →
      NoPlaceholder (varExpr op.operands 0) := hop.first (by decide)
  have hthrow : ArmPattern.has op.name (.oneOf ["ThrowIfEmpty", "ThrowIfUndefined"]) = false :=
    Bool.eq_false_iff.mpr (not_has_of_not_mem_passNames hpass (by simp [passNames]))
  have hvariadic : NoPlaceholder (variadicCall (varExpr op.operands 1) 1 op.operands) :=
    noPlaceholder_variadicCall hop.firstOnly h1
  have hdirect : NoPlaceholder (variadicCall (directCallee op.operands[2]?) 2 op.operands) :=
    noPlaceholder_variadicCall hop.firstOnly (noPlaceholder_directCallee _)
  have hrequire : NoPlaceholder (callRequire op.operands) := by
    unfold callRequire
    split <;> simp
  simp +contextual [classArms, named, globalCall, binary, privateStore, putByVal, h1, h2, hprivate,
    hdense, hthrow, hvariadic, hdirect, hrequire]

/-- An element has the arguments of the call it is made of. -/
theorem noPlaceholder_element {tag : Expr} {args : List Expr}
    (h : ∀ arg ∈ tag :: args, NoPlaceholder arg) :
    NoPlaceholder (.jsx tag (args.head?.getD (.literal .null)) (args.drop 1)) := by
  rw [NoPlaceholder.jsx]
  refine ⟨h tag List.mem_cons_self, ?_, fun child hchild => ?_⟩
  · cases args with
    | nil => exact NoPlaceholder.literal .null
    | cons props children => exact h props (List.mem_cons_of_mem _ List.mem_cons_self)
  · exact h child (List.mem_cons_of_mem _ (List.mem_of_mem_drop hchild))

theorem noPlaceholder_tryConvertJsx {e : Expr} (h : NoPlaceholder e) :
    NoPlaceholder (tryConvertJsx doubleText e) := by
  unfold tryConvertJsx
  split
  · next tag props children hargs =>
    split
    · exact h
    · unfold Expr.createElementArgs? at hargs
      split at hargs
      · cases hargs
        exact noPlaceholder_element (NoPlaceholder.call.mp h).2.2
      · cases hargs
        exact noPlaceholder_element (NoPlaceholder.methodCall.mp h).2
      · cases hargs
  · exact h

/-- Only the operations that pass a register on render the placeholder. -/
theorem noPlaceholder_buildExpr (hop : Placed op) (hpass : op.name ∉ passNames) :
    NoPlaceholder (buildExpr doubleText getStr op) := by
  apply noPlaceholder_tryConvertJsx
  split
  · next arm harm =>
    have hname : arm.pattern.has op.name = true :=
      List.find?_some (p := fun a : Arm Expr => a.pattern.has op.name) harm
    have hmem := List.mem_of_find?_eq_some harm
    simp only [exprArms, List.mem_append] at hmem
    rcases hmem with (((((((hmem | hmem) | hmem) | hmem) | hmem) | hmem) | hmem) | hmem) | hmem
    · exact noPlaceholder_operatorArms hop.firstOnly arm hmem
    · exact noPlaceholder_constantArms op arm hmem
    · exact noPlaceholder_accessArms hop.firstOnly arm hmem
    · exact noPlaceholder_callArms hop.firstOnly arm hmem
    · exact noPlaceholder_storeArms hop arm hmem hname
    · exact noPlaceholder_closureArms hop arm hmem hname
    · exact noPlaceholder_miscArms hop hpass arm hmem hname
    · exact noPlaceholder_builtinArms hop.firstOnly arm hmem
    · exact noPlaceholder_classArms hop hpass arm hmem hname
  · exact NoPlaceholder.raw _

end Arms

/-! ## Built operations -/

section Built

variable {types : List OpType} {inst : DecodedInst} {op : SsaOp}

theorem ssaOperand_ne_placeholder {v : VarId} {dst : Option Nat} {i : Nat} {o : Operand}
    (h : i ≠ 0 ∨ dst = none) : ssaOperand (fun _ => v) dst inst i o ≠ .dstPlaceholder := by
  cases o with
  | reg r | reg32 r =>
    rw [ssaOperand, if_neg]
    · simp
    · rintro ⟨rfl, hdst⟩
      rcases h with hne | hnone
      · exact hne rfl
      · rw [hnone] at hdst
        cases hdst
  | uint n =>
    rw [ssaOperand]
    split
    · simp
    · split <;> simp
  | _ => simp [ssaOperand]

/-- The operand of a built operation that is the placeholder is the destination. -/
theorem builtFrom_placeholder (hbuilt : BuiltFrom types inst op) {i : Nat}
    (h : op.operands[i]? = some SsaOperand.dstPlaceholder) :
    i = 0 ∧ classifyInst types inst ≠ none := by
  obtain ⟨own, args, hoperands, hown, -⟩ := hbuilt.operands
  rw [hoperands] at h
  by_cases hi : i < own.length
  · rw [List.getElem?_append_left hi] at h
    obtain ⟨hlt, hget⟩ := List.getElem?_eq_some_iff.mp h
    obtain ⟨v, hv⟩ := List.Forall₂.get hown (hown.length_eq ▸ hlt) hlt
    rw [List.get_eq_getElem, hget] at hv
    by_contra hne
    refine ssaOperand_ne_placeholder ?_ hv.symm
    simp only [List.get_eq_getElem, List.getElem_zipIdx, Nat.zero_add]
    tauto
  · rw [List.getElem?_append_right (by omega), List.getElem?_map] at h
    obtain ⟨v, -, hv⟩ := Option.map_eq_some_iff.mp h
    cases hv

theorem placed_of_builtFrom (hbuilt : BuiltFrom types inst op) : Placed op where
  firstOnly i h := absurd (builtFrom_placeholder hbuilt h).1 (by omega)
  store hstore h := (builtFrom_placeholder hbuilt h).2
    (classifyInst_of_isStore (hbuilt.name ▸ hstore))

end Built

end Hermes.Structure
