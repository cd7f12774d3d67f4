-- SUMMARY: Environment slots: the names that loads get, the places that stores and loads print, and exactly when they agree.
import DroidsawHermes.Decompile.BuildSsa
import DroidsawHermes.Decompile.Simplify

/-!
# Environment slots

`name_closure_vars` of `decompile/optimize.rs` and the text that `build_expr`
and `Display for Expr` give environment operations. What naming and inlining
make of an operand is a parameter: `operandText`.
-/

namespace Hermes.Decompile

/-! ## Names of slots -/

def isEnvStore (name : String) : Bool :=
  startsWith name "StoreToEnvironment" || startsWith name "StoreNPToEnvironment"

def isEnvLoad (name : String) : Bool :=
  name = "LoadFromEnvironment" || name = "LoadFromEnvironmentL"

/-- What the first walk has found so far. -/
structure ClosureNames where
  envRegisters : VarId → Option Nat
  slotNames : Nat × Nat → Option String

section

variable (getStr getFuncName : Nat → String) (s : SsaFunction)

/-- `infer_var_name`: `fuel` is the number of hops that are left. -/
def inferVarName : Nat → VarId → Option String
  | 0, _ => none
  | fuel + 1, current =>
    match lastDef s.ops some current with
    | none => none
    | some op =>
      if op.name = "Mov" ∨ op.name = "MovLong" then
        match op.operands[1]? with
        | some (SsaOperand.var src) => inferVarName fuel src
        | _ => none
      else if op.name = "LoadParam" ∨ op.name = "LoadParamLong" then
        match op.operands[1]? with
        | some (SsaOperand.const 0) => some "this"
        | some (SsaOperand.const idx) => some ("a" ++ toString (idx - 1))
        | _ => none
      else if startsWith op.name "CreateClosure" || startsWith op.name "CreateAsyncClosure"
          || startsWith op.name "CreateGeneratorClosure" then
        match op.operands.getLast? with
        | some (SsaOperand.const fid) =>
          let name := getFuncName (asU32 fid)
          if name ≠ "" then some name else none
        | _ => none
      else if startsWith op.name "GetById" || startsWith op.name "TryGetById" then
        op.operands.reverse.findSome? fun o =>
          match o with
          | SsaOperand.const strId =>
            let name := getStr (asU32 strId)
            if 0 ≤ strId ∧ name ≠ "" ∧ isValidJsIdent name then some name else none
          | _ => none
      else if op.name = "LoadConstString" ∨ op.name = "LoadConstStringLongIndex" then
        match op.operands[1]? with
        | some (SsaOperand.const strId) =>
          let str := getStr (asU32 strId)
          if str.utf8ByteSize ≤ 30 ∧ isValidJsIdent str then some str else none
        | _ => none
      else none

/-- The environments that `GetEnvironment` and the two create operations define. -/
def ClosureNames.addEnv (names : ClosureNames) (op : SsaOp) : ClosureNames :=
  match op.dst with
  | none => names
  | some dst =>
    let put := fun level =>
      { names with envRegisters := Function.update names.envRegisters dst (some level) }
    if op.name = "GetEnvironment" then
      match op.operands[1]? with
      | some (SsaOperand.const level) => put (asU32 level)
      | _ => names
    else if op.name = "CreateEnvironment" ∨ op.name = "CreateFunctionEnvironment" then put 0
    else names

/-- A store read as `[DstPlaceholder, Var(env), Const(slot), Var(value)]`. The first
name of a slot stays. -/
def ClosureNames.addSlot (names : ClosureNames) (op : SsaOp) : ClosureNames :=
  if isEnvStore op.name then
    match op.operands[1]?, op.operands[2]?, op.operands[3]? with
    | some (SsaOperand.var env), some (SsaOperand.const slot), some (SsaOperand.var val) =>
      let key := ((names.envRegisters env).getD 0, asU32 slot &&& 0xFFFF)
      match inferVarName getStr getFuncName s 8 val, names.slotNames key with
      | some name, none =>
        { names with slotNames := Function.update names.slotNames key (some name) }
      | _, _ => names
    | _, _, _ => names
  else names

def closureNames : ClosureNames :=
  s.ops.foldl (fun names op => (names.addEnv op).addSlot getStr getFuncName s op)
    ⟨fun _ => none, fun _ => none⟩

end

/-- `0xF000_0000 | (level << 16) | slot_val`, in 32 bits. -/
def closureSentinel (level slot : Nat) : Nat := 0xF0000000 ||| (level <<< 16) % 2 ^ 32 ||| slot

/-- The second walk, at one operation. -/
def ClosureNames.renameLoad (names : ClosureNames) (op : SsaOp) : SsaOp :=
  if isEnvLoad op.name then
    match op.operands[1]?, op.operands[2]? with
    | some (SsaOperand.var env), some (SsaOperand.const slot) =>
      let level := (names.envRegisters env).getD 0
      let slotVal := asU32 slot &&& 0xFFFF
      let operands := op.operands.set 1 (.const (closureSentinel level slotVal))
      match names.slotNames (level, slotVal) with
      | some name => { op with operands := operands.set 2 (.resolvedString name) }
      | none => { op with operands := operands }
    | _, _ => op
  else op

def nameClosureVars (getStr getFuncName : Nat → String) (s : SsaFunction) : SsaFunction :=
  s.mapOps (closureNames getStr getFuncName s).renameLoad

/-! ## Text -/

def intrinsicGlobals : List String :=
  ["Symbol", "Array", "Object", "Promise", "Map", "Set", "WeakMap", "WeakSet", "Proxy", "Reflect",
    "JSON", "Math", "Error", "String", "Number", "Boolean", "BigInt", "Date", "RegExp"]

def isIntrinsicGlobal (name : String) : Bool := intrinsicGlobals.contains name

def rawChar : Char → Char
  | '\n' | '\r' | '\u2028' | '\u2029' => ' '
  | '`' => '\''
  | '?' => '_'
  | c => c

/-- `Display` of `Expr::Raw`. -/
def rawText (s : String) : String :=
  let safe := String.ofList (s.toList.map rawChar)
  if startsWith safe "globalThis." ∧ isIntrinsicGlobal (String.ofList (safe.toList.drop 11)) then
    String.ofList (safe.toList.drop 11)
  else safe

def escapePropertyChar : Char → List Char
  | '\\' => ['\\', '\\']
  | '"' => ['\\', '"']
  | '\n' => ['\\', 'n']
  | '\r' => ['\\', 'r']
  | c => [c]

/-- Four `replace` calls, the one for the backslash first. -/
def escapeProperty (s : String) : String := String.ofList (s.toList.flatMap escapePropertyChar)

/-- The property can stand after a dot. -/
def isDotProperty (property : String) : Bool :=
  match property.toList with
  | [] => false
  | first :: chars =>
    (first.isAlpha || first = '_' || first = '$')
      && chars.all fun c => c.isAlphanum || c = '_' || c = '$'

/-- `Display` of `Expr::Member`, for an object that prints as `object`; `isGlobal` holds
of the global object. -/
def memberText (isGlobal : Bool) (object property : String) : String :=
  if isGlobal ∧ isIntrinsicGlobal property then property
  else
    let needsParens := object.toList.head?.any fun c => c.isDigit || c = '-'
    let obj := if needsParens then "(" ++ object ++ ")" else object
    if isDotProperty property then obj ++ "." ++ property
    else obj ++ "[\"" ++ escapeProperty property ++ "\"]"

/-- The targets that `Display` of `Expr::Assign` comments out. -/
def reservedTargets : List String :=
  ["false", "true", "undefined", "null", "this", "return", "throw", "delete", "class", "function",
    "catch", "finally"]

def assignText (target value : String) : String :=
  if reservedTargets.contains target then "/* " ++ target ++ " = " ++ value ++ " */"
  else target ++ " = " ++ value

def slotProperty (operand : Option SsaOperand) : String :=
  "slot[" ++ (match operand with
    | some (SsaOperand.const c) => toString c
    | _ => "?") ++ "]"

section

variable (isGlobal : Option SsaOperand → Bool) (operandText : Option SsaOperand → String)

/-- `LoadFromEnvironment*` of `build_expr`, printed. -/
def loadText (operands : List SsaOperand) : String :=
  let member := memberText (isGlobal operands[1]?) (operandText operands[1]?)
    (slotProperty operands[2]?)
  match operands[1]? with
  | some (SsaOperand.const sentinel) =>
    let s := asU32 sentinel
    if s &&& 0xF0000000 = 0xF0000000 then
      let level := (s >>> 16) &&& 0xFFF
      let slot := s &&& 0xFFFF
      match operands[2]? with
      | some (SsaOperand.resolvedString name) => rawText ("_closure" ++ Nat.repr level ++ "_" ++ name)
      | _ => rawText ("_closure" ++ Nat.repr level ++ "_slot" ++ Nat.repr slot)
    else member
  | _ => member

/-- The target of the assignment that a store prints as. -/
def storeTarget (operands : List SsaOperand) : String :=
  memberText (isGlobal operands[0]?) (operandText operands[0]?) (slotProperty operands[1]?)

/-- The place that an environment operation prints. -/
def slotText (op : SsaOp) : String :=
  if isEnvStore op.name then storeTarget isGlobal operandText op.operands
  else loadText isGlobal operandText op.operands

end

/-! ## Stores and loads of a function -/

/-- A store to a slot of the environment that a variable holds. -/
def StoresTo (op : SsaOp) (slot : Nat) : Prop :=
  isEnvStore op.name = true ∧ ∃ env value, op.operands = [.var env, .const slot, value]

/-- A load from a slot of the environment that a variable holds. -/
def LoadsFrom (op : SsaOp) (slot : Nat) : Prop :=
  isEnvLoad op.name = true ∧ ∃ dst env, op.operands = [dst, .var env, .const slot]

def Accesses (op : SsaOp) (slot : Nat) : Prop := StoresTo op slot ∨ LoadsFrom op slot

/-- Every store has its slot where `build_ssa` puts it. -/
def EnvLayout (s : SsaFunction) : Prop :=
  ∀ op ∈ s.ops, isEnvStore op.name = true → ∃ env slot value, op.operands = [env, .const slot, value]

theorem not_isEnvStore_of_isEnvLoad {name : String} (h : isEnvLoad name = true) :
    isEnvStore name = false := by
  simp only [isEnvLoad, Bool.or_eq_true, decide_eq_true_eq] at h
  rcases h with rfl | rfl <;> decide

theorem StoresTo.renameLoad {op : SsaOp} {slot : Nat} (h : StoresTo op slot)
    (names : ClosureNames) : names.renameLoad op = op := by
  have hload : isEnvLoad op.name = false := by
    by_contra hne
    rw [Bool.not_eq_false] at hne
    have hstore := not_isEnvStore_of_isEnvLoad hne
    rw [h.1] at hstore
    cases hstore
  simp [ClosureNames.renameLoad, hload]

theorem ClosureNames.addEnv_slotNames (names : ClosureNames) (op : SsaOp) :
    (names.addEnv op).slotNames = names.slotNames := by
  simp only [addEnv]
  repeat' split
  all_goals rfl

/-- No store has a name for its slot where the first walk looks for it. -/
theorem closureNames_slotNames {getStr getFuncName : Nat → String} {s : SsaFunction}
    (h : EnvLayout s) : (closureNames getStr getFuncName s).slotNames = fun _ => none := by
  have hrun : ∀ (ops : List SsaOp) (names : ClosureNames), (∀ op ∈ ops, op ∈ s.ops) →
      names.slotNames = (fun _ => none) →
      (ops.foldl (fun names op => (names.addEnv op).addSlot getStr getFuncName s op)
        names).slotNames = fun _ => none := by
    intro ops
    induction ops with
    | nil => exact fun _ _ hnames => hnames
    | cons op ops ih =>
      intro names hmem hnames
      rw [List.foldl_cons]
      apply ih _ fun op' hop' => hmem op' (List.mem_cons_of_mem op hop')
      simp only [ClosureNames.addSlot]
      split
      · next hstore =>
        obtain ⟨env, slot, value, hoperands⟩ := h op (hmem op List.mem_cons_self) hstore
        simp only [hoperands, List.getElem?_cons_succ, List.getElem?_cons_zero,
          ClosureNames.addEnv_slotNames, hnames]
      · rw [ClosureNames.addEnv_slotNames, hnames]
  exact hrun s.ops _ (fun _ hop => hop) rfl

/-! ## What stores and loads print -/

def closureSlot (level slot : Nat) : String :=
  "_closure" ++ Nat.repr level ++ "_slot" ++ Nat.repr slot

theorem asU32_natCast {n : Nat} (h : n < 2 ^ 32) : asU32 n = n := by
  simp only [asU32]
  omega

theorem closureSentinel_lt (level : Nat) {slot : Nat} (h : slot < 2 ^ 16) :
    closureSentinel level slot < 2 ^ 32 := by
  have hlevel : (level <<< 16) % 2 ^ 32 < 2 ^ 32 := Nat.mod_lt _ (by decide)
  exact Nat.or_lt_two_pow (Nat.or_lt_two_pow (by decide) hlevel) (by omega)

theorem closureSentinel_and_mask (level slot : Nat) :
    closureSentinel level slot &&& 0xF0000000 = 0xF0000000 := by
  apply Nat.eq_of_testBit_eq
  intro i
  simp only [closureSentinel, Nat.testBit_or, Nat.testBit_and]
  cases Nat.testBit 0xF0000000 i <;> simp

theorem closureSentinel_and_slot (level : Nat) {slot : Nat} (h : slot < 2 ^ 16) :
    closureSentinel level slot &&& 0xFFFF = slot := by
  have hlevel : (level <<< 16) % 2 ^ 32 % 2 ^ 16 = 0 := by
    rw [Nat.shiftLeft_eq]
    omega
  have hmask : ∀ n : Nat, n &&& 0xFFFF = n % 2 ^ 16 := fun n =>
    Nat.and_two_pow_sub_one_eq_mod n 16
  rw [closureSentinel, Nat.and_or_distrib_right, Nat.and_or_distrib_right, hmask, hmask, hmask,
    hlevel, Nat.mod_eq_of_lt h]
  simp

/-- A character of an identifier. -/
def isIdentChar (c : Char) : Bool := c.isAlphanum || c = '_' || c = '$'

theorem isIdentChar_of_isValidJsIdent {n : String} (h : isValidJsIdent n = true) {c : Char}
    (hc : c ∈ n.toList) : isIdentChar c = true := by
  simp only [isValidJsIdent] at h
  split at h
  · cases h
  · next first chars hlist =>
    rw [hlist] at hc
    simp only [Bool.and_eq_true, List.all_eq_true] at h
    obtain ⟨⟨hfirst, hchars⟩, -⟩ := h
    rcases List.mem_cons.mp hc with rfl | hc
    · simp only [isIdentChar, Char.isAlphanum, Bool.or_eq_true, decide_eq_true_eq] at hfirst ⊢
      tauto
    · exact hchars c hc

theorem isIdentChar_of_mem_repr {n : Nat} {c : Char} (h : c ∈ (Nat.repr n).toList) :
    c.isDigit = true := by
  apply Nat.isDigit_of_mem_toDigits (b := 10) (n := n) (by decide) (by decide)
  simp only [Nat.repr, String.toList_ofList] at h
  exact h

theorem closureSlot_toList (level slot : Nat) : (closureSlot level slot).toList =
    '_' :: ("closure".toList ++ (Nat.repr level).toList ++ "_slot".toList
      ++ (Nat.repr slot).toList) := by
  simp [closureSlot]

theorem isValidJsIdent_closureSlot (level slot : Nat) :
    isValidJsIdent (closureSlot level slot) = true := by
  have hdigits : ∀ n : Nat, ∀ c ∈ (Nat.repr n).toList, isIdentChar c = true := by
    intro n c hc
    simp only [isIdentChar, Char.isAlphanum, isIdentChar_of_mem_repr hc, Bool.or_true,
      Bool.true_or]
  have hclosure : ∀ c ∈ "closure".toList, isIdentChar c = true := by
    simp [isIdentChar, Char.isAlphanum, Char.isAlpha]
  have hslot : ∀ c ∈ "_slot".toList, isIdentChar c = true := by
    simp [isIdentChar, Char.isAlphanum, Char.isAlpha]
  have hreserved : ∀ w ∈ jsReserved, w.toList.head? ≠ some '_' := by
    simp [jsReserved]
  have hnot : isJsReserved (closureSlot level slot) = false := by
    simp only [isJsReserved, List.contains_eq_mem, decide_eq_false_iff_not]
    intro hmem
    apply hreserved _ hmem
    rw [closureSlot_toList, List.head?_cons]
  simp only [isValidJsIdent, closureSlot_toList, hnot, Bool.not_false, Bool.and_true,
    Bool.and_eq_true]
  refine ⟨by decide, List.all_eq_true.mpr fun c hc => ?_⟩
  simp only [List.mem_append] at hc
  rcases hc with ((hc | hc) | hc) | hc
  · exact hclosure c hc
  · exact hdigits level c hc
  · exact hslot c hc
  · exact hdigits slot c hc

theorem rawText_of_ident {n : String} (h : isValidJsIdent n = true) : rawText n = n := by
  have hmap : n.toList.map rawChar = n.toList := by
    conv_rhs => rw [← List.map_id n.toList]
    apply List.map_congr_left
    intro c hc
    have hident := isIdentChar_of_isValidJsIdent h hc
    simp only [rawChar, id]
    split <;> first | rfl | (exact absurd hident (by decide))
  have hprefix : startsWith n "globalThis." = false := by
    by_contra hne
    rw [Bool.not_eq_false, startsWith, List.isPrefixOf_iff_prefix] at hne
    have hident := isIdentChar_of_isValidJsIdent h (hne.subset (a := '.') (by decide))
    exact absurd hident (by decide)
  simp [rawText, hmap, hprefix]

/-- A load of a function whose slots have no names. -/
theorem slotText_load {isGlobal : Option SsaOperand → Bool}
    {operandText : Option SsaOperand → String} {names : ClosureNames} {op : SsaOp} {slot : Nat}
    (hnames : names.slotNames = fun _ => none) (h : LoadsFrom op slot) (hslot : slot < 2 ^ 16) :
    ∃ level, slotText isGlobal operandText (names.renameLoad op) = closureSlot level slot := by
  obtain ⟨hload, dst, env, hoperands⟩ := h
  have hval : asU32 slot &&& 0xFFFF = slot := by
    rw [asU32_natCast (by omega)]
    have hmod := Nat.and_two_pow_sub_one_eq_mod slot 16
    exact hmod.trans (Nat.mod_eq_of_lt hslot)
  have hrename : names.renameLoad op = { op with operands := [dst,
      .const (closureSentinel ((names.envRegisters env).getD 0) slot), .const slot] } := by
    simp [ClosureNames.renameLoad, hload, hoperands, hnames, hval]
  generalize (names.envRegisters env).getD 0 = level at hrename
  refine ⟨(closureSentinel level slot >>> 16) &&& 0xFFF, ?_⟩
  rw [hrename, slotText, if_neg (by simp [not_isEnvStore_of_isEnvLoad hload])]
  simp only [loadText, List.getElem?_cons_succ, List.getElem?_cons_zero,
    asU32_natCast (closureSentinel_lt level hslot), closureSentinel_and_mask, if_true,
    closureSentinel_and_slot level hslot]
  exact rawText_of_ident (isValidJsIdent_closureSlot _ slot)

/-- The end of the place of a slot, after its object. -/
def slotSuffix (slot : Nat) : List Char :=
  "[\"".toList ++ ("slot[".toList ++ (Nat.repr slot).toList ++ "]".toList) ++ "\"]".toList

theorem escapeProperty_slot (slot : Nat) :
    escapeProperty ("slot[" ++ Nat.repr slot ++ "]") = "slot[" ++ Nat.repr slot ++ "]" := by
  have hopen : ∀ c ∈ "slot[".toList, escapePropertyChar c = [c] := by simp [escapePropertyChar]
  have hclose : ∀ c ∈ "]".toList, escapePropertyChar c = [c] := by simp [escapePropertyChar]
  have hplain : ∀ c ∈ ("slot[" ++ Nat.repr slot ++ "]").toList, escapePropertyChar c = [c] := by
    intro c hc
    simp only [String.toList_append, List.mem_append] at hc
    rcases hc with (hc | hc) | hc
    · exact hopen c hc
    · have hdigit := isIdentChar_of_mem_repr hc
      simp only [escapePropertyChar]
      split <;> first | rfl | exact absurd hdigit (by decide)
    · exact hclose c hc
  rw [escapeProperty, List.flatMap_congr hplain, List.flatMap_singleton', String.ofList_toList]

theorem memberText_slot (isGlobal : Bool) (object : String) (slot : Nat) :
    ∃ obj, (memberText isGlobal object ("slot[" ++ Nat.repr slot ++ "]")).toList =
      obj ++ slotSuffix slot := by
  have hchars : ("slot[" ++ Nat.repr slot ++ "]").toList =
      's' :: ("lot[".toList ++ (Nat.repr slot).toList ++ "]".toList) := by
    simp
  have hintrinsic : isIntrinsicGlobal ("slot[" ++ Nat.repr slot ++ "]") = false := by
    have hhead : ∀ w ∈ intrinsicGlobals, w.toList.head? ≠ some 's' := by simp [intrinsicGlobals]
    simp only [isIntrinsicGlobal, List.contains_eq_mem, decide_eq_false_iff_not]
    intro hmem
    apply hhead _ hmem
    rw [hchars, List.head?_cons]
  have hbracket : isDotProperty ("slot[" ++ Nat.repr slot ++ "]") = false := by
    simp [isDotProperty, hchars]
  rw [memberText, hintrinsic, hbracket, escapeProperty_slot]
  simp only [and_false, if_false, Bool.false_eq_true]
  generalize (if (object.toList.head?.any fun c => c.isDigit || decide (c = '-')) = true then
    "(" ++ object ++ ")" else object) = obj
  exact ⟨obj.toList, by simp only [slotSuffix, String.toList_append, List.append_assoc]⟩

theorem slotText_store {isGlobal : Option SsaOperand → Bool}
    {operandText : Option SsaOperand → String} {names : ClosureNames} {op : SsaOp} {slot : Nat}
    (h : StoresTo op slot) :
    ∃ obj, (slotText isGlobal operandText (names.renameLoad op)).toList =
      obj ++ slotSuffix slot := by
  rw [h.renameLoad]
  obtain ⟨hstore, env, value, hoperands⟩ := h
  have hproperty : slotProperty op.operands[1]? = "slot[" ++ Nat.repr slot ++ "]" := by
    rw [hoperands]
    rfl
  rw [slotText, if_pos hstore, storeTarget, hproperty]
  exact memberText_slot _ _ slot

/-! ## Slots in texts -/

/-- The digits at the end of a text give the number back. -/
theorem repr_eq_of_append {x y : List Char} {c : Char} (hc : c.isDigit = false) {m n : Nat}
    (h : x ++ c :: (Nat.repr m).toList = y ++ c :: (Nat.repr n).toList) : m = n := by
  have hdigits : ∀ (k : Nat) (z : List Char),
      ((z ++ c :: (Nat.repr k).toList).reverse.takeWhile Char.isDigit).reverse =
        (Nat.repr k).toList := by
    intro k z
    have hall : ∀ d ∈ (Nat.repr k).toList.reverse, d.isDigit = true := fun d hd =>
      isIdentChar_of_mem_repr (List.mem_reverse.mp hd)
    rw [List.reverse_append, List.reverse_cons, List.append_assoc, List.singleton_append,
      List.takeWhile_append_of_pos hall, List.takeWhile_cons, hc]
    simp
  have heq := hdigits m x
  rw [h, hdigits n y] at heq
  exact (Nat.repr_injective (String.toList_inj.mp heq)).symm

theorem closureSlot_slot {l l' m n : Nat} (h : closureSlot l m = closureSlot l' n) : m = n := by
  have hlist := congrArg String.toList h
  have hsplit : ∀ i j : Nat, (closureSlot i j).toList =
      ("_closure".toList ++ (Nat.repr i).toList ++ "_slo".toList) ++ 't' :: (Nat.repr j).toList := by
    intro i j
    simp [closureSlot]
  rw [hsplit, hsplit] at hlist
  exact repr_eq_of_append (by decide) hlist

theorem slotSuffix_slot {x y : List Char} {m n : Nat} (h : x ++ slotSuffix m = y ++ slotSuffix n) :
    m = n := by
  have hsplit : ∀ (z : List Char) (k : Nat), z ++ slotSuffix k =
      ((z ++ "[\"slot".toList) ++ '[' :: (Nat.repr k).toList) ++ "]\"]".toList := by
    intro z k
    simp [slotSuffix]
  rw [hsplit, hsplit] at h
  exact repr_eq_of_append (by decide) (List.append_cancel_right h)

theorem bracket_mem_slotSuffix (slot : Nat) : '[' ∈ slotSuffix slot := by
  simp [slotSuffix]

/-! ## Places -/

/-- A storage place of the printed program. -/
inductive Place (Obj : Type) where
  | variable (name : String)
  | property (object : Obj) (key : String)

/-- The place that a text designates, where `objectOf` says which object the text before
a property denotes. -/
inductive Designates {Obj : Type} (objectOf : String → Obj) : String → Place Obj → Prop where
  | name {n : String} (h : isValidJsIdent n = true) : Designates objectOf n (.variable n)
  | dot {o k : String} (h : isDotProperty k = true) :
    Designates objectOf (o ++ "." ++ k) (.property (objectOf o) k)
  | bracket {o k : String} :
    Designates objectOf (o ++ "[\"" ++ escapeProperty k ++ "\"]") (.property (objectOf o) k)

def SamePlace {Obj : Type} (objectOf : String → Obj) (text text' : String) : Prop :=
  ∃ p, Designates objectOf text p ∧ Designates objectOf text' p

/-- A name and a text with a bracket are never one place. -/
theorem not_samePlace {Obj : Type} {objectOf : String → Obj} {text n : String}
    (htext : '[' ∈ text.toList) (hn : isValidJsIdent n = true) : ¬ SamePlace objectOf text n := by
  have hident := fun c (hc : c ∈ n.toList) => isIdentChar_of_isValidJsIdent hn hc
  rintro ⟨p, hp, hp'⟩
  cases hp' with
  | name =>
    cases hp with
    | name => exact absurd (hident _ htext) (by decide)
  | dot => exact absurd (hident '.' (by simp)) (by decide)
  | bracket => exact absurd (hident '[' (by simp)) (by decide)

/-! ## Identity of slots -/

section

variable {Env Obj : Type} (getStr getFuncName : Nat → String)
  (isGlobal : Option SsaOperand → Bool) (operandText : Option SsaOperand → String)
  (objectOf : String → Obj) (s : SsaFunction) (touches : SsaOp → Env → Prop)

/-- The place that an operation of the function prints after the naming of slots. -/
def placeText (op : SsaOp) : String :=
  slotText isGlobal operandText ((closureNames getStr getFuncName s).renameLoad op)

/-- In a run in which `touches` says which operation is executed on which environment,
stores and loads print one place exactly when they access one slot of one environment,
and different slots never print the same. -/
structure SlotsKeepIdentity : Prop where
  place : ∀ st ∈ s.ops, ∀ ld ∈ s.ops, ∀ m n : Nat, ∀ E F : Env, StoresTo st m → LoadsFrom ld n →
    m < 65536 → n < 65536 → touches st E → touches ld F →
    (SamePlace objectOf (placeText getStr getFuncName isGlobal operandText s st)
      (placeText getStr getFuncName isGlobal operandText s ld) ↔ m = n ∧ E = F)
  distinct : ∀ a ∈ s.ops, ∀ b ∈ s.ops, ∀ m n : Nat, Accesses a m → Accesses b n →
    m < 65536 → n < 65536 → m ≠ n →
    placeText getStr getFuncName isGlobal operandText s a ≠
      placeText getStr getFuncName isGlobal operandText s b

/-- No load of the run reads a slot of an environment to which a store of the run writes. -/
def NoSlotReadBack : Prop :=
  ∀ st ∈ s.ops, ∀ ld ∈ s.ops, ∀ slot < 65536, ∀ E : Env, StoresTo st slot → LoadsFrom ld slot →
    touches st E → ¬ touches ld E

end

section

variable {Env Obj : Type} {getStr getFuncName : Nat → String}
  {isGlobal : Option SsaOperand → Bool} {operandText : Option SsaOperand → String}
  {objectOf : String → Obj} {s : SsaFunction} {touches : SsaOp → Env → Prop}

theorem placeText_load (h : EnvLayout s) {op : SsaOp} {slot : Nat} (hop : LoadsFrom op slot)
    (hslot : slot < 65536) : ∃ level, placeText getStr getFuncName isGlobal operandText s op =
      closureSlot level slot :=
  slotText_load (closureNames_slotNames h) hop hslot

theorem placeText_store {op : SsaOp} {slot : Nat} (hop : StoresTo op slot) :
    ∃ obj, (placeText getStr getFuncName isGlobal operandText s op).toList =
      obj ++ slotSuffix slot :=
  slotText_store hop

/-- A store and a load never print one place. -/
theorem not_samePlace_store_load (h : EnvLayout s) {st ld : SsaOp} {m n : Nat}
    (hst : StoresTo st m) (hld : LoadsFrom ld n) (hn : n < 65536) :
    ¬ SamePlace objectOf (placeText getStr getFuncName isGlobal operandText s st)
      (placeText getStr getFuncName isGlobal operandText s ld) := by
  obtain ⟨level, hload⟩ := placeText_load h hld hn
  obtain ⟨obj, hstore⟩ := placeText_store hst
  rw [hload]
  refine not_samePlace ?_ (isValidJsIdent_closureSlot level n)
  rw [hstore]
  exact List.mem_append_right obj (bracket_mem_slotSuffix m)

theorem closureSlot_ne_store {level m n : Nat} {text : String} {obj : List Char}
    (h : text.toList = obj ++ slotSuffix m) : text ≠ closureSlot level n := by
  rintro rfl
  have hmem : '[' ∈ (closureSlot level n).toList := by
    rw [h]
    exact List.mem_append_right obj (bracket_mem_slotSuffix m)
  exact absurd (isIdentChar_of_isValidJsIdent (isValidJsIdent_closureSlot level n) hmem) (by decide)

theorem placeText_ne (h : EnvLayout s) {a b : SsaOp} {m n : Nat} (ha : Accesses a m)
    (hb : Accesses b n) (hm : m < 65536) (hn : n < 65536) (hne : m ≠ n) :
    placeText getStr getFuncName isGlobal operandText s a ≠
      placeText getStr getFuncName isGlobal operandText s b := by
  rcases ha with ha | ha <;> rcases hb with hb | hb
  · obtain ⟨obj, ha⟩ := placeText_store ha
    obtain ⟨obj', hb⟩ := placeText_store hb
    intro heq
    rw [heq, hb] at ha
    exact hne (slotSuffix_slot ha).symm
  · obtain ⟨obj, ha⟩ := placeText_store ha
    obtain ⟨level, hb⟩ := placeText_load h hb hn
    rw [hb]
    exact closureSlot_ne_store ha
  · obtain ⟨level, ha⟩ := placeText_load h ha hm
    obtain ⟨obj, hb⟩ := placeText_store hb
    rw [ha]
    exact (closureSlot_ne_store hb).symm
  · obtain ⟨level, ha⟩ := placeText_load h ha hm
    obtain ⟨level', hb⟩ := placeText_load h hb hn
    rw [ha, hb]
    exact fun heq => hne (closureSlot_slot heq)

/-- Slots keep their identity exactly when nothing that is stored is read back. -/
theorem slotsKeepIdentity_iff (h : EnvLayout s) :
    SlotsKeepIdentity getStr getFuncName isGlobal operandText objectOf s touches ↔
      NoSlotReadBack s touches := by
  constructor
  · intro hkeep st hst ld hld slot hslot E hstore hload htouch htouch'
    have hsame := (hkeep.place st hst ld hld slot slot E E hstore hload hslot hslot htouch
      htouch').mpr ⟨rfl, rfl⟩
    exact not_samePlace_store_load h hstore hload hslot hsame
  · intro hnone
    refine ⟨?_, fun a _ b _ m n ha hb hm hn hne => placeText_ne h ha hb hm hn hne⟩
    intro st hst ld hld m n E F hstore hload hm hn htouch htouch'
    refine iff_of_false (not_samePlace_store_load h hstore hload hn) ?_
    rintro ⟨rfl, rfl⟩
    exact hnone st hst ld hld m hm E hstore hload htouch htouch'

end

/-- `CreateEnvironment r0; LoadConstZero r1; StoreToEnvironment r0, 0, r1;
LoadFromEnvironment r2, r0, slot`. -/
def storeThenLoad (slot : Nat) : SsaFunction :=
  ⟨[
    { id := 0
      phis := []
      ops := [
        ⟨"CreateEnvironment", some ⟨0, 0⟩, [.dstPlaceholder],
          ⟨0, 2, "CreateEnvironment", [.reg 0]⟩⟩,
        ⟨"LoadConstZero", some ⟨1, 0⟩, [.dstPlaceholder], ⟨2, 2, "LoadConstZero", [.reg 1]⟩⟩,
        ⟨"StoreToEnvironment", none, [.var ⟨0, 0⟩, .const 0, .var ⟨1, 0⟩],
          ⟨4, 4, "StoreToEnvironment", [.reg 0, .uint 0, .reg 1]⟩⟩,
        ⟨"LoadFromEnvironment", some ⟨2, 0⟩, [.dstPlaceholder, .var ⟨0, 0⟩, .const slot],
          ⟨8, 4, "LoadFromEnvironment", [.reg 2, .reg 0, .uint slot]⟩⟩]
      successors := []
      predecessors := [] }]⟩

/-- Every operand under its own name. -/
def plainText : Option SsaOperand → String
  | some (.var v) => v.display
  | _ => ""

theorem storeThenLoad_layout (slot : Nat) : EnvLayout (storeThenLoad slot) := by
  intro op hop hstore
  simp only [SsaFunction.ops, storeThenLoad, List.flatMap_cons, List.flatMap_nil, List.append_nil,
    List.mem_cons, List.not_mem_nil, or_false] at hop
  rcases hop with rfl | rfl | rfl | rfl
  · exact absurd hstore (by decide)
  · exact absurd hstore (by decide)
  · exact ⟨_, _, _, rfl⟩
  · have hload : isEnvStore "LoadFromEnvironment" = false := by decide
    exact absurd hstore (by simp [hload])

theorem storeThenLoad_loses_identity : ¬ SlotsKeepIdentity (fun _ => "") (fun _ => "")
    (fun _ => false) plainText id (storeThenLoad 0) (fun _ (_ : Unit) => True) := by
  intro h
  have hstore : StoresTo (storeThenLoad 0).ops[2] 0 := ⟨by decide, _, _, rfl⟩
  have hload : LoadsFrom (storeThenLoad 0).ops[3] 0 := ⟨by decide, _, _, rfl⟩
  have hsame := (h.place _ (List.getElem_mem _) _ (List.getElem_mem _) 0 0 () () hstore hload
    (by decide) (by decide) trivial trivial).mpr ⟨rfl, rfl⟩
  exact not_samePlace_store_load (storeThenLoad_layout 0) hstore hload (by decide) hsame

theorem slotsKeepIdentity_iff_other_slot :
    SlotsKeepIdentity (fun _ => "") (fun _ => "") (fun _ => false) plainText id (storeThenLoad 1)
      (fun _ (_ : Unit) => True) ↔
    NoSlotReadBack (storeThenLoad 1) (fun _ (_ : Unit) => True) :=
  slotsKeepIdentity_iff (storeThenLoad_layout 1)

end Hermes.Decompile
