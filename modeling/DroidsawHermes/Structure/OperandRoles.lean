-- SUMMARY: The roles of operands: exactly which opcodes are rendered as SSA construction and the positional readers place their operands.
import DroidsawHermes.Decompile.CfgBuilt
import DroidsawHermes.Decompile.Instructions
import DroidsawHermes.Structure.Placeholder

/-!
# Roles of operands

What a printed store says of its operands, against the order of the operands in the
instruction and against the passes that read them by position.
-/

namespace Hermes.Structure

open Decompile

/-! ## Printed stores -/

/-- The object that a printed store writes to, with the key and the values. -/
structure StoreParts where
  object : Expr
  key : Option Expr
  values : List Expr

/-- The parts of a printed store. -/
inductive Stores (doubleText : UInt64 → String) : Expr → StoreParts → Prop where
  | member (object value : Expr) (property : String) :
    Stores doubleText (.assign (.member object property) value) ⟨object, none, [value]⟩
  | index (object key value : Expr) :
    Stores doubleText (.assign (.index object key) value) ⟨object, some key, [value]⟩
  | push (object value : Expr) :
    Stores doubleText (.methodCall object "push" [value]) ⟨object, none, [value]⟩
  | append (object value : Expr) :
    Stores doubleText (.methodCall object "push" [.spread value]) ⟨object, none, [value]⟩
  | accessor (object key getter setter : Expr) :
    Stores doubleText
      (.raw (definePropertyText (object.display doubleText) (key.display doubleText)
        (getter.display doubleText) (setter.display doubleText)))
      ⟨object, some key, [getter, setter]⟩

/-! ## Positional readers -/

/-- The operands that a pass takes for the object, the key and the value of a store. -/
structure ReaderRoles where
  object : Option Nat
  key : Option Nat
  value : Option Nat
  deriving DecidableEq, Repr

/-- The roles that `name_closure_vars` and `recover_class` give operands. -/
def readerRoles (name : String) : ReaderRoles :=
  if isEnvStore name then ⟨some 1, none, some 3⟩
  else if startsWith name "DefineOwnById" then ⟨some 0, none, some 1⟩
  else if name = "AddOwnPrivateBySym" then ⟨some 0, some 2, some 1⟩
  else if startsWith name "PutNewOwnById" || startsWith name "PutNewOwnNEById"
      || startsWith name "DefineOwnByVal" then ⟨none, none, some 1⟩
  else ⟨none, none, none⟩

/-- A store gives the operands the roles that the readers give them. -/
structure RolesAgree (ops : List SsaOperand) (roles : ReaderRoles) (parts : StoreParts) : Prop where
  object : ∀ i ∈ roles.object, parts.object = varExpr ops i
  key : ∀ i ∈ roles.key, parts.key = some (varExpr ops i)
  value : ∀ i ∈ roles.value, parts.values = [varExpr ops i]

/-! ## Agreement -/

/-- The registers among the operands. -/
def registers (ops : List SsaOperand) : List Expr :=
  ops.filterMap fun
    | .var v => some (.var v)
    | _ => none

/-- A printed store shows the operands of its operation. -/
structure StoreAgrees (doubleText : UInt64 → String) (getStr : Nat → String) (op : SsaOp)
    (parts : StoreParts) : Prop where
  printed : Stores doubleText (buildExpr doubleText getStr op) parts
  object : parts.object = varExpr op.operands 0
  /-- The other registers are printed as well. -/
  others : (registers (op.operands.drop 1)).Subperm (parts.key.toList ++ parts.values)
  roles : RolesAgree op.operands (readerRoles op.name) parts

/-- The expression of an operation takes the operands for what they are. -/
structure OperandsAgree (doubleText : UInt64 → String) (getStr : Nat → String) (op : SsaOp) :
    Prop where
  noPlaceholder : NoPlaceholder (buildExpr doubleText getStr op)
  /-- A thrown operand is printed as text. -/
  thrown : op.name = "Throw" → op.operands[0]? ≠ some SsaOperand.dstPlaceholder
  stores : isStore op.name = true → ∃ parts, StoreAgrees doubleText getStr op parts
  passes : op.name ∈ passNames →
    ∃ v, SsaOperand.var v ∈ op.operands.drop 1 ∧ buildExpr doubleText getStr op = .var v

/-- The opcodes that are rendered otherwise. -/
def misreadNames : List String :=
  ["ThrowIfEmpty", "ThrowIfUndefined", "SelectObject", "StoreToEnvironment",
    "StoreToEnvironmentL", "StoreNPToEnvironment", "StoreNPToEnvironmentL", "AddOwnPrivateBySym",
    "PutOwnPrivateBySym", "PutOwnByIdShort", "PutOwnById", "PutOwnByIdLong", "DefineOwnByIndex",
    "DefineOwnByIndexL", "PutByValWithReceiver"]

/-! ## Operands of stores -/

/-- What stores begin with. -/
def storeInitials : List (Option Char) := [some 'P', some 'T', some 'S', some 'D', some 'F', some 'A']

theorem front?_of_startsWith {s p : String} {c : Char} (hp : p.toList.head? = some c)
    (h : startsWith s p = true) : s.front? = some c := by
  rw [startsWith, List.isPrefixOf_iff_prefix] at h
  obtain ⟨rest, hrest⟩ := h
  rw [String.front?_eq, ← hrest, List.head?_append, hp]
  rfl

theorem front?_of_isStore {name : String} (h : isStore name = true) :
    name.front? ∈ storeInitials := by
  rcases Bool.or_eq_true_iff.mp h with hstarts | hname
  · obtain ⟨pre, hpre, hstarts⟩ := List.any_eq_true.mp hstarts
    have hall : ∀ pre ∈ storePrefixes, pre.toList.head? ∈ storeInitials := by
      simp [storePrefixes, storeInitials]
    have hmem := hall pre hpre
    cases hhead : pre.toList.head? with
    | none =>
      rw [hhead] at hmem
      exact absurd hmem (by decide)
    | some c =>
      rw [front?_of_startsWith hhead hstarts, ← hhead]
      exact hmem
  · have hall : ∀ n ∈ ["FastArrayStore", "FastArrayPush", "FastArrayAppend", "AddOwnPrivateBySym"],
        n.front? ∈ storeInitials := by
      simp [String.front?_eq, storeInitials]
    exact hall name (List.contains_iff_mem.mp hname)

theorem isStore_otherRows : otherRows.all
    (fun r => !storeInitials.contains r.1.front? || !isStore r.1) = true := by
  decide +kernel

variable {types : List OpType} {inst : DecodedInst} {op : SsaOp}

/-- The row of a store is one of the store rows. -/
theorem mem_storeRows (hdec : Decoded types inst) (hstore : isStore inst.name = true) :
    (inst.name, types) ∈ storeRows := by
  rcases List.mem_append.mp hdec.row with hrow | hrow
  · exact hrow
  · have hnot := List.all_eq_true.mp isStore_otherRows _ hrow
    simp only [List.contains_iff_mem.mpr (front?_of_isStore hstore), hstore, Bool.not_true,
      Bool.or_self, Bool.false_eq_true] at hnot

/-- The operand of a store that a type stands for. -/
def StoreOperand : OpType → SsaOperand → Prop
  | .R, o | .R4, o => ∃ v, o = .var v
  | .U1, o | .U2, o | .U4, o => ∃ n : Nat, o = .const n
  | _, _ => True

theorem hasPlainOperands_storeRows :
    storeRows.all (fun r => hasPlainOperands r.1) = true := by
  decide

/-- The operands of a store stand at the places of their types. -/
theorem store_operands (hdec : Decoded types inst) (hbuilt : BuiltFrom types inst op)
    (hstore : isStore inst.name = true) : List.Forall₂ StoreOperand types op.operands := by
  have hplain := List.all_eq_true.mp hasPlainOperands_storeRows _ (mem_storeRows hdec hstore)
  -- A store is no call.
  have hargc : argcForResolve inst = none := argcForResolve_of_front? fun hfront => by
    have hinitial := front?_of_isStore hstore
    rw [hfront] at hinitial
    simp [storeInitials] at hinitial
  refine (plain_operands hdec hbuilt (classifyInst_of_isStore hstore) hargc hplain).imp
    fun ot o h => ?_
  cases ot <;> first | exact h | trivial

/-! ## Environment stores -/

theorem isEnvStore_storeRows : storeRows.all
    (fun r => !isEnvStore r.1 || environmentRows.contains r) = true := by
  decide +kernel

theorem isStore_of_isEnvStore {name : String} (h : isEnvStore name = true) :
    isStore name = true := by
  rw [isStore, Bool.or_eq_true_iff, List.any_eq_true]
  rcases Bool.or_eq_true_iff.mp h with h | h
  · exact Or.inl ⟨_, by decide, h⟩
  · exact Or.inl ⟨_, by decide, h⟩

/-- A store to an environment has the slot between the environment and the value. -/
theorem envStore_operands (hdec : Decoded types inst) (hbuilt : BuiltFrom types inst op)
    (hstore : isEnvStore inst.name = true) :
    ∃ (env value : VarId) (slot : Nat), op.operands = [.var env, .const slot, .var value] := by
  have hisStore := isStore_of_isEnvStore hstore
  have hrow : (inst.name, types) ∈ environmentRows := by
    have hall := List.all_eq_true.mp isEnvStore_storeRows _ (mem_storeRows hdec hisStore)
    simpa [hstore] using hall
  have htypes : types = [.R, .U1, .R] ∨ types = [.R, .U2, .R] := by
    simp only [environmentRows, List.mem_cons, Prod.mk.injEq, List.not_mem_nil, or_false] at hrow
    tauto
  have hoperands := store_operands hdec hbuilt hisStore
  rcases htypes with rfl | rfl
  all_goals
    simp only [List.forall₂_cons_left_iff, List.forall₂_nil_left_iff] at hoperands
    obtain ⟨_, _, ⟨env, rfl⟩, ⟨_, _, ⟨slot, rfl⟩, ⟨_, _, ⟨value, rfl⟩, rfl, rfl⟩, rfl⟩, h⟩ :=
      hoperands
    exact ⟨env, value, slot, h⟩

/-- What `build_ssa` makes of a decoded body has its environment stores laid out. -/
theorem envLayout_of_buildSsa {σ : Type} {B : CommonBuilder σ} {t : OpcodeTables}
    {code bytecodes : List UInt8} {insts : List DecodedInst} {excHandlers : List ExcHandler}
    {types : DecodedInst → List OpType} {cfg : Cfg} {frameSize : Nat} {built : BuiltSsa}
    (hknown : t.Known) (hgives : t.Gives insts types) (hdecode : decodeFunction t code = .ok insts)
    (hcfg : Cfg.build insts excHandlers bytecodes = .ok cfg)
    (hbuild : buildSsa B types cfg frameSize = .ok built) : EnvLayout built.function := by
  intro op hop hstore
  rcases buildSsa_standsFor hbuild hop with ⟨v, rfl⟩ | ⟨_, _, hget, hmem, hfrom⟩
  · have hnot : isEnvStore "LoadConstUndefined" = false := by decide
    cases hstore.symm.trans hnot
  · have hinst := mem_of_mem_block hdecode hcfg hget _ hmem
    obtain ⟨env, value, slot, hoperands⟩ := envStore_operands
      (hgives.decoded hknown hdecode _ hinst) hfrom (hfrom.name ▸ hstore)
    exact ⟨_, _, _, hoperands⟩

end Hermes.Structure
