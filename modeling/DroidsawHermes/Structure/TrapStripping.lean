-- SUMMARY: Stripping of runtime traps and of the branches they empty, in one pass over all bodies.
import DroidsawHermes.Decompile.Opcodes
import DroidsawHermes.Structure.ApplyDeep

/-!
# Trap stripping

`strip_tdz_traps` of `decompile/sugar.rs`. Bodies are rewritten before the lists that
hold them, so an `if` is looked at after its branches have lost their traps.
-/

namespace Hermes.Structure

open Decompile

/-! ## The pass -/

def isTdzTrapOp (op : SsaOp) : Bool :=
  if op.name != "CallBuiltin" && op.name != "CallBuiltinLong" then false
  else
    match op.operands[1]? with
    | some (SsaOperand.const n) => n == 44 || n == 45
    | _ => false

def stripTdzOneLevel : List Stmt → List Stmt
  | [] => []
  | .assign dst op blockId :: rest =>
    if isTdzTrapOp op then stripTdzOneLevel rest
    else .assign dst op blockId :: stripTdzOneLevel rest
  | .op op :: rest =>
    if isTdzTrapOp op then stripTdzOneLevel rest else .op op :: stripTdzOneLevel rest
  | .ifElse cond thenBody elseBody :: rest =>
    if thenBody.isEmpty && elseBody.isEmpty then stripTdzOneLevel rest
    else .ifElse cond thenBody elseBody :: stripTdzOneLevel rest
  | other :: rest => other :: stripTdzOneLevel rest

def stripTdzTraps (stmts : List Stmt) : List Stmt :=
  applyDeep stripTdzOneLevel (applyDeep stripTdzOneLevel stmts)

/-! ## What is stripped -/

/-- A call of `throwTypeError` or `throwReferenceError`. -/
def IsTrapCall (op : SsaOp) : Prop :=
  (op.name = "CallBuiltin" ∨ op.name = "CallBuiltinLong") ∧
    ∃ id : Nat, op.operands[1]? = some (SsaOperand.const id) ∧
      (builtinName id = "HermesBuiltin.throwTypeError" ∨
        builtinName id = "HermesBuiltin.throwReferenceError")

def Stmt.IsTrap : Stmt → Prop
  | .assign _ o _ | .op o => IsTrapCall o
  | _ => False

/-- An `if` whose branches are both empty. -/
def Stmt.isEmptyIf : Stmt → Bool
  | .ifElse _ thenBody elseBody => thenBody.isEmpty && elseBody.isEmpty
  | _ => false

/-- No statement is a trap or an empty `if`, at any depth. -/
def TrapFree (stmts : List Stmt) : Prop :=
  ∀ stmt ∈ allOf stmts, ¬ stmt.IsTrap ∧ stmt.isEmptyIf = false

/-- The statement has no bodies. -/
def Stmt.isLeaf : Stmt → Bool
  | .ifElse _ _ _ | .while _ _ | .forIn _ _ _ | .switch _ _ _ | .tryCatch _ _ _
  | .labeled _ _ => false
  | _ => true

mutual

/-- The statement keeps its place, and its bodies are stripped. -/
inductive StrippedStmt : Stmt → Stmt → Prop where
  | leaf {stmt : Stmt} (h : stmt.isLeaf = true) : StrippedStmt stmt stmt
  | ifElse {cond : Condition} {thenBody elseBody thenBody' elseBody' : List Stmt}
    (hthen : Stripped thenBody thenBody') (helse : Stripped elseBody elseBody') :
    StrippedStmt (.ifElse cond thenBody elseBody) (.ifElse cond thenBody' elseBody')
  | while {cond : Option Condition} {body body' : List Stmt} (hbody : Stripped body body') :
    StrippedStmt (.while cond body) (.while cond body')
  | forIn {key obj : VarId} {body body' : List Stmt} (hbody : Stripped body body') :
    StrippedStmt (.forIn key obj body) (.forIn key obj body')
  | switch {discriminant : VarId} {cases cases' : List (String × List Stmt)}
    {default default' : List Stmt} (hcases : StrippedCases cases cases')
    (hdefault : Stripped default default') :
    StrippedStmt (.switch discriminant cases default) (.switch discriminant cases' default')
  | tryCatch {catchVar : String} {tryBody catchBody tryBody' catchBody' : List Stmt}
    (htry : Stripped tryBody tryBody') (hcatch : Stripped catchBody catchBody') :
    StrippedStmt (.tryCatch tryBody catchVar catchBody) (.tryCatch tryBody' catchVar catchBody')
  | labeled {label : String} {body body' : List Stmt} (hbody : Stripped body body') :
    StrippedStmt (.labeled label body) (.labeled label body')

/-- The second list is the first one without some traps, and without some `if`s whose branches
have nothing else. -/
inductive Stripped : List Stmt → List Stmt → Prop where
  | nil : Stripped [] []
  | keep {stmt stmt' : Stmt} {rest rest' : List Stmt} (hstmt : StrippedStmt stmt stmt')
    (hrest : Stripped rest rest') : Stripped (stmt :: rest) (stmt' :: rest')
  | trap {stmt : Stmt} {rest rest' : List Stmt} (h : stmt.IsTrap) (hrest : Stripped rest rest') :
    Stripped (stmt :: rest) rest'
  | emptied {cond : Condition} {thenBody elseBody rest rest' : List Stmt}
    (hthen : Stripped thenBody []) (helse : Stripped elseBody []) (hrest : Stripped rest rest') :
    Stripped (.ifElse cond thenBody elseBody :: rest) rest'

inductive StrippedCases : List (String × List Stmt) → List (String × List Stmt) → Prop where
  | nil : StrippedCases [] []
  | cons {label : String} {body body' : List Stmt} {rest rest' : List (String × List Stmt)}
    (hbody : Stripped body body') (hrest : StrippedCases rest rest') :
    StrippedCases ((label, body) :: rest) ((label, body') :: rest')

end

/-! ## The traps of the pass -/

/-- An entry of the table is the name of its index only. -/
theorem builtinName_eq_iff {name : String} {k id : Nat} (hk : k < builtinNames.length)
    (hname : "builtin" ≠ name)
    (hall : ∀ j : Fin builtinNames.length, builtinName j = name ↔ j.val = k) :
    builtinName id = name ↔ id = k := by
  by_cases h : id < builtinNames.length
  · exact hall ⟨id, h⟩
  · have hdefault : builtinName id = "builtin" := List.getD_eq_default _ _ (Nat.not_lt.mp h)
    rw [hdefault]
    refine iff_of_false hname ?_
    rintro rfl
    exact h hk

theorem builtinName_eq_throwTypeError {id : Nat} :
    builtinName id = "HermesBuiltin.throwTypeError" ↔ id = 44 :=
  builtinName_eq_iff (by decide) (by decide) (by decide)

theorem builtinName_eq_throwReferenceError {id : Nat} :
    builtinName id = "HermesBuiltin.throwReferenceError" ↔ id = 45 :=
  builtinName_eq_iff (by decide) (by decide) (by decide)

theorem isTdzTrapOp_iff (op : SsaOp) : isTdzTrapOp op = true ↔ IsTrapCall op := by
  simp only [IsTrapCall, builtinName_eq_throwTypeError, builtinName_eq_throwReferenceError]
  by_cases hname : op.name = "CallBuiltin" ∨ op.name = "CallBuiltinLong"
  · have hcall : (op.name != "CallBuiltin" && op.name != "CallBuiltinLong") = false := by
      rcases hname with h | h <;> simp [h]
    simp only [isTdzTrapOp, hcall, Bool.false_eq_true, if_false, hname, true_and]
    cases hop : op.operands[1]? with
    | none => simp
    | some operand =>
      cases operand with
      | const n =>
        simp only [Bool.or_eq_true, beq_iff_eq, Option.some.injEq, SsaOperand.const.injEq]
        refine ⟨?_, ?_⟩
        · rintro (rfl | rfl)
          · exact ⟨44, rfl, Or.inl rfl⟩
          · exact ⟨45, rfl, Or.inr rfl⟩
        · rintro ⟨id, rfl, rfl | rfl⟩
          · exact Or.inl rfl
          · exact Or.inr rfl
      | _ => simp
  · have hcall : (op.name != "CallBuiltin" && op.name != "CallBuiltinLong") = true := by
      simpa using hname
    simp [isTdzTrapOp, hcall, hname]

/-- A trap or an empty `if`. -/
def Stmt.Dropped (stmt : Stmt) : Prop := stmt.IsTrap ∨ stmt.isEmptyIf = true

theorem stripTdzOneLevel_dropped {stmt : Stmt} (h : stmt.Dropped) (rest : List Stmt) :
    stripTdzOneLevel (stmt :: rest) = stripTdzOneLevel rest := by
  cases stmt with
  | assign dst op blockId =>
    have htrap := (isTdzTrapOp_iff op).mpr (h.resolve_right Bool.false_ne_true)
    simp [stripTdzOneLevel, htrap]
  | op op =>
    have htrap := (isTdzTrapOp_iff op).mpr (h.resolve_right Bool.false_ne_true)
    simp [stripTdzOneLevel, htrap]
  | ifElse cond thenBody elseBody =>
    have hempty : (thenBody.isEmpty && elseBody.isEmpty) = true := h.resolve_left id
    simp only [stripTdzOneLevel, hempty, if_true]
  | _ => exact absurd h (by simp [Stmt.Dropped, Stmt.IsTrap, Stmt.isEmptyIf])

theorem stripTdzOneLevel_kept {stmt : Stmt} (h : ¬ stmt.Dropped) (rest : List Stmt) :
    stripTdzOneLevel (stmt :: rest) = stmt :: stripTdzOneLevel rest := by
  obtain ⟨htrap, hempty⟩ := not_or.mp h
  cases stmt with
  | assign dst op blockId =>
    have hop : isTdzTrapOp op = false :=
      Bool.eq_false_iff.mpr fun hop => htrap ((isTdzTrapOp_iff op).mp hop)
    simp [stripTdzOneLevel, hop]
  | op op =>
    have hop : isTdzTrapOp op = false :=
      Bool.eq_false_iff.mpr fun hop => htrap ((isTdzTrapOp_iff op).mp hop)
    simp [stripTdzOneLevel, hop]
  | ifElse cond thenBody elseBody =>
    rw [Stmt.isEmptyIf] at hempty
    rw [stripTdzOneLevel, if_neg hempty]
  | _ => rfl

theorem isTrap_descendStmt (rewrite : List Stmt → List Stmt) (stmt : Stmt) :
    (descendStmt rewrite stmt).IsTrap ↔ stmt.IsTrap := by
  cases stmt <;> exact Iff.rfl

/-! ## One pass strips -/

mutual

theorem strippedStmt_descendStmt (stmt : Stmt) :
    StrippedStmt stmt (descendStmt stripTdzOneLevel stmt) := by
  cases stmt with
  | ifElse cond thenBody elseBody =>
    exact .ifElse (stripped_applyDeep thenBody) (stripped_applyDeep elseBody)
  | «while» cond body => exact .while (stripped_applyDeep body)
  | forIn key obj body => exact .forIn (stripped_applyDeep body)
  | switch discriminant cases default =>
    exact .switch (strippedCases_descendCases cases) (stripped_applyDeep default)
  | tryCatch tryBody catchVar catchBody =>
    exact .tryCatch (stripped_applyDeep tryBody) (stripped_applyDeep catchBody)
  | labeled label body => exact .labeled (stripped_applyDeep body)
  | _ => exact .leaf rfl

theorem stripped_applyDeep (stmts : List Stmt) :
    Stripped stmts (stripTdzOneLevel (descendAll stripTdzOneLevel stmts)) := by
  cases stmts with
  | nil => exact .nil
  | cons stmt rest =>
    have hstmt := strippedStmt_descendStmt stmt
    have hrest := stripped_applyDeep rest
    rw [descendAll]
    by_cases hdropped : (descendStmt stripTdzOneLevel stmt).Dropped
    · rw [stripTdzOneLevel_dropped hdropped]
      rcases hdropped with htrap | hempty
      · exact .trap ((isTrap_descendStmt _ stmt).mp htrap) hrest
      · cases stmt with
        | ifElse cond thenBody elseBody =>
          have hthen := stripped_applyDeep thenBody
          have helse := stripped_applyDeep elseBody
          rw [descendStmt, Stmt.isEmptyIf, Bool.and_eq_true, List.isEmpty_iff,
            List.isEmpty_iff] at hempty
          rw [hempty.1] at hthen
          rw [hempty.2] at helse
          exact .emptied hthen helse hrest
        | _ => cases hempty
    · rw [stripTdzOneLevel_kept hdropped]
      exact .keep hstmt hrest

theorem strippedCases_descendCases (cases : List (String × List Stmt)) :
    StrippedCases cases (descendCases stripTdzOneLevel cases) := by
  cases cases with
  | nil => exact .nil
  | cons case rest =>
    obtain ⟨label, body⟩ := case
    exact .cons (stripped_applyDeep body) (strippedCases_descendCases rest)

end

mutual

theorem trapFree_descendStmt (stmt : Stmt)
    (h : ¬ (descendStmt stripTdzOneLevel stmt).Dropped) :
    ∀ s ∈ (descendStmt stripTdzOneLevel stmt).all, ¬ s.Dropped := by
  cases stmt with
  | ifElse cond thenBody elseBody =>
    have hthen := trapFree_applyDeep thenBody
    have helse := trapFree_applyDeep elseBody
    intro s hs
    rw [descendStmt, Stmt.all, List.mem_cons, List.mem_append] at hs
    rcases hs with rfl | hs | hs
    · exact h
    · exact hthen s hs
    · exact helse s hs
  | «while» cond body =>
    have hbody := trapFree_applyDeep body
    intro s hs
    rw [descendStmt, Stmt.all, List.mem_cons] at hs
    rcases hs with rfl | hs
    · exact h
    · exact hbody s hs
  | forIn key obj body =>
    have hbody := trapFree_applyDeep body
    intro s hs
    rw [descendStmt, Stmt.all, List.mem_cons] at hs
    rcases hs with rfl | hs
    · exact h
    · exact hbody s hs
  | switch discriminant cases default =>
    have hcases := trapFree_descendCases cases
    have hdefault := trapFree_applyDeep default
    intro s hs
    rw [descendStmt, Stmt.all, List.mem_cons, List.mem_append] at hs
    rcases hs with rfl | hs | hs
    · exact h
    · exact hcases s hs
    · exact hdefault s hs
  | tryCatch tryBody catchVar catchBody =>
    have htry := trapFree_applyDeep tryBody
    have hcatch := trapFree_applyDeep catchBody
    intro s hs
    rw [descendStmt, Stmt.all, List.mem_cons, List.mem_append] at hs
    rcases hs with rfl | hs | hs
    · exact h
    · exact htry s hs
    · exact hcatch s hs
  | labeled label body =>
    have hbody := trapFree_applyDeep body
    intro s hs
    rw [descendStmt, Stmt.all, List.mem_cons] at hs
    rcases hs with rfl | hs
    · exact h
    · exact hbody s hs
  | _ =>
    intro s hs
    cases List.mem_singleton.mp hs
    exact h

theorem trapFree_applyDeep (stmts : List Stmt) :
    ∀ s ∈ allOf (stripTdzOneLevel (descendAll stripTdzOneLevel stmts)), ¬ s.Dropped := by
  cases stmts with
  | nil =>
    intro s hs
    cases hs
  | cons stmt rest =>
    have hstmt := trapFree_descendStmt stmt
    have hrest := trapFree_applyDeep rest
    rw [descendAll]
    by_cases hdropped : (descendStmt stripTdzOneLevel stmt).Dropped
    · rw [stripTdzOneLevel_dropped hdropped]
      exact hrest
    · rw [stripTdzOneLevel_kept hdropped]
      intro s hs
      rw [allOf, List.mem_append] at hs
      rcases hs with hs | hs
      · exact hstmt hdropped s hs
      · exact hrest s hs

theorem trapFree_descendCases (cases : List (String × List Stmt)) :
    ∀ s ∈ allOfCases (descendCases stripTdzOneLevel cases), ¬ s.Dropped := by
  cases cases with
  | nil =>
    intro s hs
    cases hs
  | cons case rest =>
    obtain ⟨label, body⟩ := case
    have hbody := trapFree_applyDeep body
    have hrest := trapFree_descendCases rest
    intro s hs
    rw [descendCases, allOfCases, List.mem_append] at hs
    rcases hs with hs | hs
    · exact hbody s hs
    · exact hrest s hs

end

theorem trapFree_iff {stmts : List Stmt} : TrapFree stmts ↔ ∀ s ∈ allOf stmts, ¬ s.Dropped :=
  forall₂_congr fun s _ => by simp [Stmt.Dropped]

/-! ## Nothing else does -/

mutual

theorem eq_descendStmt (stmt : Stmt) {stmt' : Stmt} (h : StrippedStmt stmt stmt')
    (hfree : ∀ s ∈ stmt'.all, ¬ s.Dropped) : stmt' = descendStmt stripTdzOneLevel stmt := by
  cases h with
  | leaf hleaf => cases stmt <;> first | rfl | cases hleaf
  | @ifElse cond thenBody elseBody thenBody' elseBody' hthen helse =>
    rw [Stmt.all, List.forall_mem_cons, List.forall_mem_append] at hfree
    rw [descendStmt, eq_applyDeep thenBody hthen hfree.2.1, eq_applyDeep elseBody helse hfree.2.2]
  | @«while» cond body body' hbody =>
    rw [Stmt.all, List.forall_mem_cons] at hfree
    rw [descendStmt, eq_applyDeep body hbody hfree.2]
  | @forIn key obj body body' hbody =>
    rw [Stmt.all, List.forall_mem_cons] at hfree
    rw [descendStmt, eq_applyDeep body hbody hfree.2]
  | @switch discriminant cases cases' default default' hcases hdefault =>
    rw [Stmt.all, List.forall_mem_cons, List.forall_mem_append] at hfree
    rw [descendStmt, eq_descendCases cases hcases hfree.2.1,
      eq_applyDeep default hdefault hfree.2.2]
  | @tryCatch catchVar tryBody catchBody tryBody' catchBody' htry hcatch =>
    rw [Stmt.all, List.forall_mem_cons, List.forall_mem_append] at hfree
    rw [descendStmt, eq_applyDeep tryBody htry hfree.2.1, eq_applyDeep catchBody hcatch hfree.2.2]
  | @labeled label body body' hbody =>
    rw [Stmt.all, List.forall_mem_cons] at hfree
    rw [descendStmt, eq_applyDeep body hbody hfree.2]

theorem eq_applyDeep (stmts : List Stmt) {out : List Stmt} (h : Stripped stmts out)
    (hfree : ∀ s ∈ allOf out, ¬ s.Dropped) :
    out = stripTdzOneLevel (descendAll stripTdzOneLevel stmts) := by
  cases h with
  | nil => rfl
  | @keep stmt stmt' rest rest' hstmt hrest =>
    rw [allOf, List.forall_mem_append] at hfree
    have hself : stmt' ∈ stmt'.all := by cases stmt' <;> simp [Stmt.all]
    have heq := eq_descendStmt stmt hstmt hfree.1
    have hkept := hfree.1 stmt' hself
    rw [heq] at hkept
    rw [descendAll, stripTdzOneLevel_kept hkept, ← heq, ← eq_applyDeep rest hrest hfree.2]
  | @trap stmt rest rest' htrap hrest =>
    have hdropped : (descendStmt stripTdzOneLevel stmt).Dropped :=
      Or.inl ((isTrap_descendStmt _ stmt).mpr htrap)
    rw [descendAll, stripTdzOneLevel_dropped hdropped]
    exact eq_applyDeep rest hrest hfree
  | @emptied cond thenBody elseBody rest rest' hthen helse hrest =>
    have hnil : ∀ s ∈ allOf [], ¬ s.Dropped := fun s hs => nomatch hs
    have hdropped : (descendStmt stripTdzOneLevel (.ifElse cond thenBody elseBody)).Dropped := by
      rw [descendStmt, ← eq_applyDeep thenBody hthen hnil, ← eq_applyDeep elseBody helse hnil]
      exact Or.inr rfl
    rw [descendAll, stripTdzOneLevel_dropped hdropped]
    exact eq_applyDeep rest hrest hfree

theorem eq_descendCases (cases : List (String × List Stmt)) {out : List (String × List Stmt)}
    (h : StrippedCases cases out) (hfree : ∀ s ∈ allOfCases out, ¬ s.Dropped) :
    out = descendCases stripTdzOneLevel cases := by
  cases h with
  | nil => rfl
  | @cons label body body' rest rest' hbody hrest =>
    rw [allOfCases, List.forall_mem_append] at hfree
    rw [descendCases, eq_applyDeep body hbody hfree.1, eq_descendCases rest hrest hfree.2]

end

/-! ## One pass -/

mutual

theorem StrippedStmt.refl (stmt : Stmt) : StrippedStmt stmt stmt := by
  cases stmt with
  | ifElse cond thenBody elseBody => exact .ifElse (Stripped.refl thenBody) (Stripped.refl elseBody)
  | «while» cond body => exact .while (Stripped.refl body)
  | forIn key obj body => exact .forIn (Stripped.refl body)
  | switch discriminant cases default =>
    exact .switch (StrippedCases.refl cases) (Stripped.refl default)
  | tryCatch tryBody catchVar catchBody =>
    exact .tryCatch (Stripped.refl tryBody) (Stripped.refl catchBody)
  | labeled label body => exact .labeled (Stripped.refl body)
  | _ => exact .leaf rfl

theorem Stripped.refl (stmts : List Stmt) : Stripped stmts stmts := by
  cases stmts with
  | nil => exact .nil
  | cons stmt rest => exact .keep (StrippedStmt.refl stmt) (Stripped.refl rest)

theorem StrippedCases.refl (cases : List (String × List Stmt)) : StrippedCases cases cases := by
  cases cases with
  | nil => exact .nil
  | cons case rest => exact .cons (Stripped.refl case.2) (StrippedCases.refl rest)

end

/-- What has no traps is left as it is. -/
theorem applyDeep_of_trapFree {stmts : List Stmt} (h : TrapFree stmts) :
    applyDeep stripTdzOneLevel stmts = stmts :=
  (eq_applyDeep stmts (Stripped.refl stmts) (trapFree_iff.mp h)).symm

theorem trapFree_onePass (stmts : List Stmt) : TrapFree (applyDeep stripTdzOneLevel stmts) :=
  trapFree_iff.mpr (trapFree_applyDeep stmts)

theorem stripTdzTraps_eq (stmts : List Stmt) :
    stripTdzTraps stmts = applyDeep stripTdzOneLevel stmts :=
  applyDeep_of_trapFree (trapFree_onePass stmts)

/-- Stripping removes exactly the traps and the branches that they empty, in one pass. -/
theorem stripTdzTraps_exact (stmts : List Stmt) :
    (∀ out, Stripped stmts out ∧ TrapFree out ↔ out = stripTdzTraps stmts) ∧
    applyDeep stripTdzOneLevel stmts = stripTdzTraps stmts ∧
    stripTdzTraps (stripTdzTraps stmts) = stripTdzTraps stmts := by
  refine ⟨fun out => ⟨fun h => ?_, ?_⟩, (stripTdzTraps_eq stmts).symm, ?_⟩
  · rw [stripTdzTraps_eq]
    exact eq_applyDeep stmts h.1 (trapFree_iff.mp h.2)
  · rintro rfl
    rw [stripTdzTraps_eq]
    exact ⟨stripped_applyDeep stmts, trapFree_onePass stmts⟩
  · rw [stripTdzTraps_eq (stripTdzTraps stmts), stripTdzTraps_eq stmts]
    exact applyDeep_of_trapFree (trapFree_onePass stmts)

end Hermes.Structure
