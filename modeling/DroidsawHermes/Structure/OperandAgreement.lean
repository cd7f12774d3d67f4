-- SUMMARY: Exactly which opcodes are rendered with their operands where SSA construction puts them.
import DroidsawHermes.Decompile.SsaForm
import DroidsawHermes.Structure.OperandRoles

/-!
# Agreement on operands

The arms of `build_expr` for the stores, one group of rows at a time, and the opcodes whose
expression shows other operands than their instruction has.
-/

namespace Hermes.Structure

open Decompile

variable {doubleText : UInt64 → String} {getStr : Nat → String}
  {types : List OpType} {inst : DecodedInst} {op : SsaOp}

/-! ## Rows of stores -/

/-- The arms of `build_expr` for the rows of stores. -/
theorem findIdx?_storeRows :
    (∀ r ∈ byIdRows, exprPatterns.findIdx? (ArmPattern.has r.1) ∈ [some 56, some 57]) ∧
    (∀ r ∈ byIndexRows, exprPatterns.findIdx? (ArmPattern.has r.1) ∈
      [some 59, some 61, some 122]) ∧
    (∀ r ∈ keyValueRows, exprPatterns.findIdx? (ArmPattern.has r.1) ∈ [some 58, some 63]) ∧
    (∀ r ∈ valueKeyRows, exprPatterns.findIdx? (ArmPattern.has r.1) ∈ [some 60, some 122]) ∧
    (∀ r ∈ pushRows, exprPatterns.findIdx? (ArmPattern.has r.1) ∈ [some 66, some 67]) ∧
    (∀ r ∈ environmentRows, exprPatterns.findIdx? (ArmPattern.has r.1) = some 75) ∧
    (∀ r ∈ accessorRows ++ unhandledRows, exprPatterns.findIdx? (ArmPattern.has r.1) = none) ∧
    exprPatterns.findIdx? (ArmPattern.has "AddOwnPrivateBySym") = some 119 ∧
    exprPatterns.findIdx? (ArmPattern.has "PutOwnPrivateBySym") = some 120 := by
  decide

/-- The arms of `format_op` for the rows without an arm in `build_expr`. -/
theorem findIdx?_formatRows :
    (∀ r ∈ accessorRows, formatPatterns.findIdx? (ArmPattern.has r.1) = some 93) ∧
    (∀ r ∈ unhandledRows, formatPatterns.findIdx? (ArmPattern.has r.1) = none) := by
  decide

/-- The roles in a store of the second operand in the first. -/
def valueRoles : List ReaderRoles :=
  [⟨some 0, none, some 1⟩, ⟨none, none, some 1⟩, ⟨none, none, none⟩]

theorem readerRoles_storeRows :
    (∀ r ∈ byIdRows ++ byIndexRows ++ valueKeyRows ++ pushRows, readerRoles r.1 ∈ valueRoles) ∧
    (∀ r ∈ keyValueRows ++ accessorRows, readerRoles r.1 = ⟨none, none, none⟩) ∧
    (∀ r ∈ environmentRows, (readerRoles r.1).object = some 1) := by
  decide

/-- A register for the object and one for the value, and constants behind them. -/
def ValueTypes (types : List OpType) : Prop :=
  types.take 2 = [.R, .R] ∧ types.drop 2 ≠ [] ∧ ∀ ot ∈ types.drop 2, ot ∈ [OpType.U1, .U2, .U4]

instance (types : List OpType) : Decidable (ValueTypes types) :=
  inferInstanceAs (Decidable (_ ∧ _ ∧ _))

theorem types_storeRows :
    (∀ r ∈ byIdRows, ValueTypes r.2) ∧
    (∀ r ∈ byIndexRows, ValueTypes r.2 ∧ r.2.length = 3) ∧
    (∀ r ∈ keyValueRows, r.2 = [.R, .R, .R]) ∧
    (∀ r ∈ valueKeyRows, r.2 = [.R, .R, .R, .U1]) ∧
    (∀ r ∈ pushRows, r.2 = [.R, .R]) ∧
    (∀ r ∈ accessorRows, r.2 = [.R, .R, .R, .R, .U1]) ∧
    (∀ r ∈ environmentRows, r.2 = [.R, .U1, .R] ∨ r.2 = [.R, .U2, .R]) := by
  decide

/-! ## Operands of the rows -/

theorem map_const_of_uints {us : List OpType} {ops : List SsaOperand}
    (h : List.Forall₂ StoreOperand us ops) (hus : ∀ ot ∈ us, ot ∈ [OpType.U1, .U2, .U4]) :
    ∃ consts : List Nat, ops = consts.map fun n : Nat => SsaOperand.const n := by
  induction h with
  | nil => exact ⟨[], rfl⟩
  | @cons ot o us ops hot _ ih =>
    obtain ⟨consts, rfl⟩ := ih fun ot hmem => hus ot (List.mem_cons_of_mem _ hmem)
    have hconst : ∃ n : Nat, o = .const n := by
      have hmem := hus ot List.mem_cons_self
      simp only [List.mem_cons, List.not_mem_nil, or_false] at hmem
      rcases hmem with rfl | rfl | rfl <;> exact hot
    obtain ⟨n, rfl⟩ := hconst
    exact ⟨n :: consts, rfl⟩

theorem operands_of_valueTypes (htypes : ValueTypes types)
    (hops : List.Forall₂ StoreOperand types op.operands) :
    ∃ (object value : VarId) (consts : List Nat), consts.length + 2 = types.length ∧
      consts ≠ [] ∧
      op.operands = .var object :: .var value :: consts.map fun n : Nat => SsaOperand.const n := by
  obtain ⟨htake, hdrop, huints⟩ := htypes
  obtain ⟨us, rfl⟩ : ∃ us, types = .R :: .R :: us := ⟨types.drop 2, by
    rw [← List.take_append_drop 2 types, htake]
    simp⟩
  rw [List.forall₂_cons_left_iff] at hops
  obtain ⟨_, _, ⟨object, rfl⟩, hops, hoperands⟩ := hops
  rw [List.forall₂_cons_left_iff] at hops
  obtain ⟨_, rest, ⟨value, rfl⟩, hrest, rfl⟩ := hops
  obtain ⟨consts, rfl⟩ := map_const_of_uints hrest huints
  refine ⟨object, value, consts, ?_, ?_, hoperands⟩
  · simpa using hrest.length_eq.symm
  · rintro rfl
    exact hdrop (List.forall₂_nil_right_iff.mp hrest)

/-- The roles of a store of the second operand in the first. -/
theorem rolesAgree_value {ops : List SsaOperand} {roles : ReaderRoles} {parts : StoreParts}
    (hroles : roles ∈ valueRoles) (hobject : parts.object = varExpr ops 0)
    (hvalues : parts.values = [varExpr ops 1]) : RolesAgree ops roles parts := by
  simp only [valueRoles, List.mem_cons, List.not_mem_nil, or_false] at hroles
  constructor <;> rcases hroles with rfl | rfl | rfl <;> simp [hobject, hvalues]

theorem rolesAgree_none {ops : List SsaOperand} {roles : ReaderRoles} (parts : StoreParts)
    (hroles : roles = ⟨none, none, none⟩) : RolesAgree ops roles parts := by
  subst hroles
  constructor <;> simp

/-! ## Stores that agree -/

theorem storeAgrees_byId (hrow : (op.name, types) ∈ byIdRows)
    (hops : List.Forall₂ StoreOperand types op.operands) :
    ∃ parts, StoreAgrees doubleText getStr op parts := by
  obtain ⟨object, value, consts, -, hne, hoperands⟩ :=
    operands_of_valueTypes (types_storeRows.1 _ hrow) hops
  obtain ⟨n, hlast⟩ : ∃ n : Nat, op.operands.getLast? = some (SsaOperand.const n) := by
    refine ⟨consts.getLast hne, ?_⟩
    rw [hoperands, List.getLast?_cons_cons, List.getLast?_cons, List.getLast?_map,
      List.getLast?_eq_some_getLast hne]
    rfl
  have hexpr : buildExpr doubleText getStr op =
      .assign (.member (varExpr op.operands 0) (getStr (asU32 n))) (varExpr op.operands 1) := by
    have hindex := findIdx?_storeRows.1 _ hrow
    simp only [List.mem_cons, List.not_mem_nil, or_false] at hindex
    rcases hindex with hindex | hindex
    · rw [buildExpr_of_findIdx? hindex rfl]
      simp only [starting, hlast, propName, putById]
      rfl
    · rw [buildExpr_of_findIdx? hindex rfl]
      simp only [starting, hlast, putById]
      rfl
  refine ⟨⟨varExpr op.operands 0, none, [varExpr op.operands 1]⟩, ?_, rfl, ?_,
    rolesAgree_value (readerRoles_storeRows.1 (op.name, types) (by simp [hrow])) rfl rfl⟩
  · rw [hexpr]
    exact .member _ _ _
  · simp [hoperands, registers, varExpr]

/-- A store to an index, from the operands of the index and the value. -/
theorem stores_putByVal {index value : Nat} {ops : List SsaOperand}
    (hexpr : buildExpr doubleText getStr op = tryConvertJsx doubleText (putByVal index value ops)) :
    Stores doubleText (buildExpr doubleText getStr op)
      ⟨varExpr ops 0, some (varExpr ops index), [varExpr ops value]⟩ := by
  rw [hexpr]
  exact .index _ _ _

theorem storeAgrees_byIndex (hrow : (op.name, types) ∈ byIndexRows)
    (hops : List.Forall₂ StoreOperand types op.operands) :
    ∃ parts, StoreAgrees doubleText getStr op parts := by
  obtain ⟨htypes, hthree⟩ := types_storeRows.2.1 _ hrow
  obtain ⟨object, value, consts, hlength, -, hoperands⟩ := operands_of_valueTypes htypes hops
  obtain ⟨n, rfl⟩ : ∃ n, consts = [n] := List.length_eq_one_iff.mp (by omega)
  have hslot : slotTarget op.operands = .index (varExpr op.operands 0) (varExpr op.operands 2) := by
    simp [slotTarget, hoperands]
  have hindex := findIdx?_storeRows.2.1 _ hrow
  simp only [List.mem_cons, List.not_mem_nil, or_false] at hindex
  have hexpr : buildExpr doubleText getStr op =
      tryConvertJsx doubleText (putByVal 2 1 op.operands) := by
    rcases hindex with hindex | hindex | hindex
    · exact buildExpr_of_findIdx? hindex rfl
    · rw [buildExpr_of_findIdx? hindex rfl]
      simp only [named, hslot, putByVal]
    · exact buildExpr_of_findIdx? hindex rfl
  refine ⟨_, stores_putByVal hexpr, rfl, ?_,
    rolesAgree_value (readerRoles_storeRows.1 (op.name, types) (by simp [hrow])) rfl rfl⟩
  simp [hoperands, registers, varExpr]

theorem storeAgrees_keyValue (hrow : (op.name, types) ∈ keyValueRows)
    (hops : List.Forall₂ StoreOperand types op.operands) :
    ∃ parts, StoreAgrees doubleText getStr op parts := by
  have htypes : types = [.R, .R, .R] := types_storeRows.2.2.1 _ hrow
  subst htypes
  simp only [List.forall₂_cons_left_iff, List.forall₂_nil_left_iff, StoreOperand] at hops
  obtain ⟨_, _, ⟨object, rfl⟩, ⟨_, _, ⟨key, rfl⟩, ⟨_, _, ⟨value, rfl⟩, rfl, rfl⟩, rfl⟩,
    hoperands⟩ := hops
  have hindex := findIdx?_storeRows.2.2.1 _ hrow
  simp only [List.mem_cons, List.not_mem_nil, or_false] at hindex
  have hexpr : buildExpr doubleText getStr op =
      tryConvertJsx doubleText (putByVal 1 2 op.operands) := by
    rcases hindex with hindex | hindex
    · exact buildExpr_of_findIdx? hindex rfl
    · exact buildExpr_of_findIdx? hindex rfl
  refine ⟨_, stores_putByVal hexpr, rfl, ?_,
    rolesAgree_none _ (readerRoles_storeRows.2.1 (op.name, _) (List.mem_append_left _ hrow))⟩
  simp [hoperands, registers, varExpr, List.Subperm.refl]

theorem storeAgrees_valueKey (hrow : (op.name, types) ∈ valueKeyRows)
    (hops : List.Forall₂ StoreOperand types op.operands) :
    ∃ parts, StoreAgrees doubleText getStr op parts := by
  have htypes : types = [.R, .R, .R, .U1] := types_storeRows.2.2.2.1 _ hrow
  subst htypes
  simp only [List.forall₂_cons_left_iff, List.forall₂_nil_left_iff, StoreOperand] at hops
  obtain ⟨_, _, ⟨object, rfl⟩, ⟨_, _, ⟨value, rfl⟩, ⟨_, _, ⟨key, rfl⟩, ⟨_, _, ⟨n, rfl⟩, rfl, rfl⟩,
    rfl⟩, rfl⟩, hoperands⟩ := hops
  have hindex := findIdx?_storeRows.2.2.2.1 _ hrow
  simp only [List.mem_cons, List.not_mem_nil, or_false] at hindex
  have hexpr : buildExpr doubleText getStr op =
      tryConvertJsx doubleText (putByVal 2 1 op.operands) := by
    rcases hindex with hindex | hindex
    · exact buildExpr_of_findIdx? hindex rfl
    · exact buildExpr_of_findIdx? hindex rfl
  refine ⟨_, stores_putByVal hexpr, rfl, ?_,
    rolesAgree_value (readerRoles_storeRows.1 (op.name, [.R, .R, .R, .U1]) (by simp [hrow])) rfl rfl⟩
  simpa [hoperands, registers, varExpr] using (List.Perm.swap _ _ _).subperm

theorem storeAgrees_push (hrow : (op.name, types) ∈ pushRows)
    (hops : List.Forall₂ StoreOperand types op.operands) :
    ∃ parts, StoreAgrees doubleText getStr op parts := by
  have htypes : types = [.R, .R] := types_storeRows.2.2.2.2.1 _ hrow
  subst htypes
  simp only [List.forall₂_cons_left_iff, List.forall₂_nil_left_iff, StoreOperand] at hops
  obtain ⟨_, _, ⟨object, rfl⟩, ⟨_, _, ⟨value, rfl⟩, rfl, rfl⟩, hoperands⟩ := hops
  have hpush : ∀ args, tryConvertJsx doubleText
      (.methodCall (varExpr op.operands 0) "push" args) =
        .methodCall (varExpr op.operands 0) "push" args := by
    intro args
    rw [tryConvertJsx]
    simp [Expr.createElementArgs?]
  have hindex := findIdx?_storeRows.2.2.2.2.1 _ hrow
  simp only [List.mem_cons, List.not_mem_nil, or_false] at hindex
  refine ⟨⟨varExpr op.operands 0, none, [varExpr op.operands 1]⟩, ?_, rfl, ?_,
    rolesAgree_value (readerRoles_storeRows.1 (op.name, [.R, .R]) (by simp [hrow])) rfl rfl⟩
  · rcases hindex with hindex | hindex
    · rw [buildExpr_of_findIdx? hindex rfl]
      exact (hpush _).symm ▸ .push _ _
    · rw [buildExpr_of_findIdx? hindex rfl]
      exact (hpush _).symm ▸ .append _ _
  · simp [hoperands, registers, varExpr]

theorem storeAgrees_accessor (hrow : (op.name, types) ∈ accessorRows)
    (hops : List.Forall₂ StoreOperand types op.operands) :
    ∃ parts, StoreAgrees doubleText getStr op parts := by
  have htypes : types = [.R, .R, .R, .R, .U1] := types_storeRows.2.2.2.2.2.1 _ hrow
  subst htypes
  simp only [List.forall₂_cons_left_iff, List.forall₂_nil_left_iff, StoreOperand] at hops
  obtain ⟨_, _, ⟨object, rfl⟩, ⟨_, _, ⟨key, rfl⟩, ⟨_, _, ⟨getter, rfl⟩, ⟨_, _, ⟨setter, rfl⟩,
    ⟨_, _, ⟨n, rfl⟩, rfl, rfl⟩, rfl⟩, rfl⟩, rfl⟩, hoperands⟩ := hops
  have hnone := findIdx?_storeRows.2.2.2.2.2.2.1 (op.name, _) (List.mem_append_left _ hrow)
  have hformat := findIdx?_formatRows.1 _ hrow
  refine ⟨⟨.var object, some (.var key), [.var getter, .var setter]⟩, ?_, ?_, ?_,
    rolesAgree_none _ (readerRoles_storeRows.2.1 (op.name, _) (List.mem_append_right _ hrow))⟩
  · have htext : formatOp doubleText getStr op =
        definePropertyText object.display key.display getter.display setter.display := by
      rw [formatOp_of_findIdx? hformat rfl]
      have hget : op.operands[0]? = some (.var object) ∧ op.operands[1]? = some (.var key) ∧
          op.operands[2]? = some (.var getter) ∧ op.operands[3]? = some (.var setter) := by
        simp [hoperands]
      simp only [named, vr_var doubleText hget.1, vr_var doubleText hget.2.1,
        vr_var doubleText hget.2.2.1, vr_var doubleText hget.2.2.2]
    have hprinted := @Stores.accessor doubleText (.var object) (.var key)
      (.var getter) (.var setter)
    rw [buildExpr_of_findIdx?_eq_none hnone, htext]
    simpa only [Expr.display] using hprinted
  · simp [hoperands, varExpr]
  · simp [hoperands, registers, List.Subperm.refl]

/-! ## Stores that do not agree -/

/-- The printed parts of a store to a property are its operands. -/
theorem Stores.member_parts {object value : Expr} {property : String} {parts : StoreParts}
    (h : Stores doubleText (.assign (.member object property) value) parts) :
    parts = ⟨object, none, [value]⟩ := by
  cases h
  rfl

/-- `name_closure_vars` looks for the environment behind a destination. -/
theorem not_storeAgrees_environment (hrow : (op.name, types) ∈ environmentRows)
    (hops : List.Forall₂ StoreOperand types op.operands) (parts : StoreParts) :
    ¬ StoreAgrees doubleText getStr op parts := by
  intro hagrees
  have hshape : ∃ env slot value, op.operands = [.var env, .const slot, .var value] := by
    have hcases : types = [.R, .U1, .R] ∨ types = [.R, .U2, .R] :=
      types_storeRows.2.2.2.2.2.2 _ hrow
    rcases hcases with htypes | htypes
    all_goals
      subst htypes
      simp only [List.forall₂_cons_left_iff, List.forall₂_nil_left_iff, StoreOperand] at hops
      obtain ⟨_, _, ⟨env, rfl⟩, ⟨_, _, ⟨slot, rfl⟩, ⟨_, _, ⟨value, rfl⟩, rfl, rfl⟩, rfl⟩,
        hoperands⟩ := hops
      exact ⟨env, slot, value, hoperands⟩
  obtain ⟨env, slot, value, hoperands⟩ := hshape
  have hobject : parts.object = varExpr op.operands 1 :=
    hagrees.roles.object 1 (readerRoles_storeRows.2.2 _ hrow)
  rw [hagrees.object, hoperands] at hobject
  simp [varExpr] at hobject

/-- The symbol is not printed. -/
theorem not_storeAgrees_private (hrow : (op.name, types) ∈ privateRows)
    (hops : List.Forall₂ StoreOperand types op.operands) (parts : StoreParts) :
    ¬ StoreAgrees doubleText getStr op parts := by
  intro hagrees
  have hothers := hagrees.others.length_le
  have hindex := findIdx?_storeRows.2.2.2.2.2.2.2
  have hprinted := hagrees.printed
  simp only [privateRows, List.mem_cons, Prod.mk.injEq, List.not_mem_nil, or_false] at hrow
  rcases hrow with ⟨hname, rfl⟩ | ⟨hname, rfl⟩
  · simp only [List.forall₂_cons_left_iff, List.forall₂_nil_left_iff, StoreOperand] at hops
    obtain ⟨_, _, ⟨object, rfl⟩, ⟨_, _, ⟨value, rfl⟩, ⟨_, _, ⟨key, rfl⟩, rfl, rfl⟩, rfl⟩,
      hoperands⟩ := hops
    rw [buildExpr_of_findIdx? (hname ▸ hindex.1) rfl] at hprinted
    rw [Stores.member_parts hprinted, hoperands] at hothers
    simp [registers] at hothers
  · simp only [List.forall₂_cons_left_iff, List.forall₂_nil_left_iff, StoreOperand] at hops
    obtain ⟨_, _, ⟨object, rfl⟩, ⟨_, _, ⟨value, rfl⟩, ⟨_, _, ⟨n, rfl⟩, ⟨_, _, ⟨key, rfl⟩, rfl, rfl⟩,
      rfl⟩, rfl⟩, hoperands⟩ := hops
    rw [buildExpr_of_findIdx? (hname ▸ hindex.2) rfl] at hprinted
    rw [Stores.member_parts hprinted, hoperands] at hothers
    simp [registers] at hothers

/-- A printed text that is a store calls `Object.defineProperty`. -/
theorem Stores.raw_text {text : String} {parts : StoreParts}
    (h : Stores doubleText (.raw text) parts) :
    ∃ object key getter setter, text = definePropertyText object key getter setter := by
  cases h
  exact ⟨_, _, _, _, rfl⟩

theorem front?_append {s : String} {c : Char} (h : s.front? = some c) (t : String) :
    (s ++ t).front? = some c := by
  rw [String.front?_eq] at *
  rw [String.toList_append, List.head?_append, h]
  rfl

theorem front?_voidText (comment : String) : (voidText comment).front? = some 'v' :=
  front?_append (front?_append (by simp [String.front?_eq]) _) _

theorem front?_definePropertyText (object key getter setter : String) :
    (definePropertyText object key getter setter).front? = some 'O' := by
  iterate 8 apply front?_append
  simp [String.front?_eq]

/-- The object is not printed. -/
theorem not_storeAgrees_unhandled (hrow : (op.name, types) ∈ unhandledRows) (parts : StoreParts) :
    ¬ StoreAgrees doubleText getStr op parts := by
  intro hagrees
  have hnone := findIdx?_storeRows.2.2.2.2.2.2.1 (op.name, types) (List.mem_append_right _ hrow)
  have hprinted := hagrees.printed
  rw [buildExpr_of_findIdx?_eq_none hnone,
    formatOp_of_findIdx?_eq_none (findIdx?_formatRows.2 _ hrow)] at hprinted
  obtain ⟨object, key, getter, setter, htext⟩ := Stores.raw_text hprinted
  have hfront := front?_voidText (op.name ++ " (" ++
    joinComma ((op.operands.drop 1).filterMap (otherArgText doubleText getStr)) ++ ")")
  rw [htext, front?_definePropertyText] at hfront
  cases hfront

/-! ## Passed registers -/

/-- The operations that pass a register on have a destination, and an arm that reads it. -/
theorem passNames_table :
    (∀ r ∈ schemaRows, r.1 ∈ passNames → r.2.head? = some .R) ∧
    (∀ name ∈ passNames, (noDstNames.contains name || noDstPrefixes.any (startsWith name) ||
      containsText name "SwitchImm") = false) ∧
    (∀ name ∈ passNames, exprPatterns.findIdx? (ArmPattern.has name) ∈ [some 104, some 124]) := by
  decide +kernel

/-- They are rendered as the placeholder of the destination. -/
theorem buildExpr_of_mem_passNames (hdec : Decoded types inst) (hbuilt : BuiltFrom types inst op)
    (hpass : inst.name ∈ passNames) : buildExpr doubleText getStr op = .void "dst" := by
  obtain ⟨hhead, hnone, hindex⟩ := passNames_table
  obtain ⟨rest, rfl⟩ := List.head?_eq_some_iff.mp (hhead _ hdec.row hpass)
  obtain ⟨operand, operands, hdecodes, -, hinst⟩ := List.forall₂_cons_left_iff.mp hdec.operands
  obtain ⟨r, rfl⟩ : ∃ r, operand = .reg r := by
    cases operand <;> first | exact ⟨_, rfl⟩ | cases hdecodes
  have hclassify : classifyInst (.R :: rest) inst = some r := by
    have hhead : (OpType.R :: rest).head? = some .R ∨ (OpType.R :: rest).head? = some .R4 :=
      Or.inl rfl
    rw [classifyInst, if_neg (by rw [hnone _ hpass]; decide), if_pos hhead, hinst]
    rfl
  have hfirst : op.operands[0]? = some SsaOperand.dstPlaceholder := by
    obtain ⟨own, args, hoperands, hown, -⟩ := hbuilt.operands
    rw [hinst, List.zipIdx_cons, List.forall₂_cons_left_iff] at hown
    obtain ⟨o, own, ⟨v, ho⟩, -, rfl⟩ := hown
    rw [hoperands, ho, hclassify]
    simp [ssaOperand]
  have hvoid : tryConvertJsx doubleText (varExpr op.operands 0) = .void "dst" := by
    simp only [varExpr, hfirst]
    rfl
  rw [← hbuilt.name] at hpass
  have hop := hindex _ hpass
  simp only [List.mem_cons, List.not_mem_nil, or_false] at hop
  rcases hop with hop | hop
  · rw [← hvoid]
    exact buildExpr_of_findIdx? hop rfl
  · rw [← hvoid]
    exact buildExpr_of_findIdx? hop rfl

/-! ## Agreement -/

/-- The opcodes whose stores do not agree. -/
theorem misread_storeRows :
    (∀ r ∈ byIdRows ++ byIndexRows ++ keyValueRows ++ valueKeyRows ++ pushRows ++ accessorRows,
      r.1 ∉ misreadNames) ∧
    (∀ r ∈ environmentRows ++ privateRows ++ unhandledRows, r.1 ∈ misreadNames) ∧
    passNames ⊆ misreadNames ∧
    ∀ name ∈ misreadNames, name ∈ passNames ∨ isStore name = true := by
  decide

/-- A store shows its operands exactly when its opcode is none of them. -/
theorem storeAgrees_iff (hdec : Decoded types inst) (hbuilt : BuiltFrom types inst op)
    (hstore : isStore inst.name = true) :
    (∃ parts, StoreAgrees doubleText getStr op parts) ↔ inst.name ∉ misreadNames := by
  have hops := store_operands hdec hbuilt hstore
  have hrow := mem_storeRows hdec hstore
  obtain ⟨hagree, hmisread, -, -⟩ := misread_storeRows
  rw [← hbuilt.name] at hrow ⊢
  simp only [storeRows, List.mem_append] at hrow
  rcases hrow with (((((((hrow | hrow) | hrow) | hrow) | hrow) | hrow) | hrow) | hrow) | hrow
  · exact iff_of_true (storeAgrees_byId hrow hops) (hagree (op.name, types) (by simp [hrow]))
  · exact iff_of_true (storeAgrees_byIndex hrow hops) (hagree (op.name, types) (by simp [hrow]))
  · exact iff_of_true (storeAgrees_keyValue hrow hops) (hagree (op.name, types) (by simp [hrow]))
  · exact iff_of_true (storeAgrees_valueKey hrow hops) (hagree (op.name, types) (by simp [hrow]))
  · exact iff_of_true (storeAgrees_push hrow hops) (hagree (op.name, types) (by simp [hrow]))
  · exact iff_of_true (storeAgrees_accessor hrow hops) (hagree (op.name, types) (by simp [hrow]))
  all_goals
    have hname : op.name ∈ misreadNames := hmisread (op.name, types) (by simp [hrow])
    refine iff_of_false ?_ (not_not.mpr hname)
    rintro ⟨parts, hagrees⟩
  · exact not_storeAgrees_environment hrow hops parts hagrees
  · exact not_storeAgrees_private hrow hops parts hagrees
  · exact not_storeAgrees_unhandled hrow parts hagrees

/-- Every other operation is rendered with its operands where they stand. -/
theorem operandsAgree_of_not_mem (hdec : Decoded types inst) (hbuilt : BuiltFrom types inst op)
    (hname : inst.name ∉ misreadNames) : OperandsAgree doubleText getStr op := by
  have hpass : op.name ∉ passNames := fun h => hname (hbuilt.name ▸ misread_storeRows.2.2.1 h)
  refine ⟨noPlaceholder_buildExpr (placed_of_builtFrom hbuilt) hpass, fun hthrow hdst => ?_,
    fun hstore => ?_, fun h => absurd h hpass⟩
  · apply (builtFrom_placeholder hbuilt hdst).2
    have hnone : noDstNames.contains inst.name = true := by
      rw [← hbuilt.name, hthrow]
      decide
    rw [classifyInst, hnone, Bool.true_or, Bool.true_or, if_pos rfl]
  · exact (storeAgrees_iff hdec hbuilt (hbuilt.name ▸ hstore)).mpr hname

/-- The operands agree exactly when the opcode is none of the misread ones. -/
theorem operandsAgree_iff (hdec : Decoded types inst) (hbuilt : BuiltFrom types inst op) :
    OperandsAgree doubleText getStr op ↔ inst.name ∉ misreadNames := by
  refine ⟨fun hagree hname => ?_, operandsAgree_of_not_mem hdec hbuilt⟩
  rcases misread_storeRows.2.2.2 _ hname with hpass | hstore
  · obtain ⟨v, -, hv⟩ := hagree.passes (hbuilt.name ▸ hpass)
    rw [buildExpr_of_mem_passNames hdec hbuilt hpass] at hv
    cases hv
  · exact (storeAgrees_iff hdec hbuilt hstore).mp (hagree.stores (hbuilt.name ▸ hstore)) hname

section Walk

variable {σ : Type} {B : CommonBuilder σ} {types : DecodedInst → List OpType} {g : SsaCfg}
  {bid : BlockId} {frameSize totalInsns : Nat}

/-- What SSA construction makes of an instruction is rendered with its operands where they
stand exactly when the opcode is none of the misread ones. -/
theorem walkInst_operandsAgree_iff (doubleText : UInt64 → String) (getStr : Nat → String)
    {acc acc' : List SsaOp × OrdMap Nat VarId × σ} (hdec : Decoded (types inst) inst)
    (h : walkInst B types g bid frameSize totalInsns acc inst = .ok acc') :
    ∃ op, acc'.1 = acc.1 ++ [op] ∧
      (OperandsAgree doubleText getStr op ↔ inst.name ∉ misreadNames) := by
  obtain ⟨op, hop, -, hbuilt⟩ := walkInst_builtFrom h
  exact ⟨op, hop, operandsAgree_iff hdec hbuilt⟩

end Walk

/-- `PutByVal r0, r1, r2`. -/
def putByValInst : DecodedInst := ⟨0, 4, "PutByVal", [.reg 0, .reg 1, .reg 2]⟩

/-- `ThrowIfEmpty r0, r1`. -/
def throwIfEmptyInst : DecodedInst := ⟨0, 3, "ThrowIfEmpty", [.reg 0, .reg 1]⟩

/-- One block without edges. -/
def oneBlock : SsaCfg := ⟨0, [0], fun _ => [], fun _ => [], fun _ => []⟩

/-- What is built of the instruction when it is the first one. -/
def builtFirst (inst : DecodedInst) : Except HermesError (List SsaOp × OrdMap Nat VarId × Renaming) :=
  walkInst phiPerBlock v95Tables.opTypes oneBlock 0 3 1 ([], OrdMap.empty, phiPerBlock.new) inst

theorem decoded_putByValInst : Decoded (v95Tables.opTypes putByValInst) putByValInst := by
  have htypes : v95Tables.opTypes putByValInst = [.R, .R, .R] := by decide
  rw [htypes]
  exact ⟨by decide, by simp [putByValInst, OpType.Decodes]⟩

theorem decoded_throwIfEmptyInst :
    Decoded (v95Tables.opTypes throwIfEmptyInst) throwIfEmptyInst := by
  have htypes : v95Tables.opTypes throwIfEmptyInst = [.R, .R] := by decide
  rw [htypes]
  exact ⟨by decide, by simp [throwIfEmptyInst, OpType.Decodes]⟩

theorem putByVal_operandsAgree_iff : ∃ built, builtFirst putByValInst = .ok built ∧
    ∃ op, built.1 = [] ++ [op] ∧
      (OperandsAgree (fun _ => "") (fun _ => "") op ↔ putByValInst.name ∉ misreadNames) := by
  obtain ⟨built, hbuilt, -⟩ := @Loop.exists_of_okAnd _ _ (builtFirst putByValInst)
    (fun built => built.1.length = 1) (by decide)
  exact ⟨built, hbuilt, walkInst_operandsAgree_iff _ _ decoded_putByValInst hbuilt⟩

/-- The checked register is the second operand, and the first one is rendered. -/
theorem throwIfEmpty_not_operandsAgree :
    decodeAt v95Tables [96, 0, 1] 0 96 = .ok throwIfEmptyInst ∧
    ∃ built, builtFirst throwIfEmptyInst = .ok built ∧
      ∀ op, built.1 = [op] → ∀ doubleText getStr, ¬ OperandsAgree doubleText getStr op := by
  obtain ⟨built, hbuilt, -⟩ := @Loop.exists_of_okAnd _ _ (builtFirst throwIfEmptyInst)
    (fun built => built.1.length = 1) (by decide)
  refine ⟨by decide, built, hbuilt, fun op hop doubleText getStr hagree => ?_⟩
  obtain ⟨op', hop', -, hfrom⟩ := walkInst_builtFrom hbuilt
  rw [hop, List.nil_append, List.cons.injEq] at hop'
  rw [hop'.1] at hagree
  exact (operandsAgree_iff decoded_throwIfEmptyInst hfrom).mp hagree (by decide)

end Hermes.Structure
