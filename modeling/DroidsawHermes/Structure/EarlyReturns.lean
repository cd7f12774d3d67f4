-- SUMMARY: Flattening of early returns, and the conditions for which it keeps what is executed.
import DroidsawHermes.Structure.Exec

/-!
# Early returns

`flatten_early_returns` of `decompile/sugar.rs`: an exit in one branch of an `if`
becomes a guard, and the other branch moves up behind it.
-/

namespace Hermes.Structure

open Decompile Control

/-! ## The pass -/

/-- A single return or throw. -/
def isExitOnly (body : List Stmt) : Bool := body.length == 1 && body.all isExit

/-- The exit is in the else branch: the condition is negated. -/
def flips (thenBody elseBody : List Stmt) : Bool :=
  isExitOnly elseBody && !thenBody.isEmpty && !thenBody.getLast?.any isExit

/-- The exit is in the then branch. -/
def guards (thenBody elseBody : List Stmt) : Bool := isExitOnly thenBody && !elseBody.isEmpty

mutual

def flattenStmt (depth : Nat) : Stmt → List Stmt
  | .ifElse cond thenBody elseBody =>
    if flips thenBody elseBody then
      .ifElse (negateCondition cond) elseBody [] :: flattenEarlyReturnsInner (depth + 1) thenBody
    else if guards thenBody elseBody then
      .ifElse cond thenBody [] :: flattenEarlyReturnsInner (depth + 1) elseBody
    else
      [.ifElse cond (flattenEarlyReturnsInner (depth + 1) thenBody)
        (flattenEarlyReturnsInner (depth + 1) elseBody)]
  | .while cond body => [.while cond (flattenEarlyReturnsInner (depth + 1) body)]
  | .forIn key obj body => [.forIn key obj (flattenEarlyReturnsInner (depth + 1) body)]
  | .switch discriminant cases default =>
    [.switch discriminant (flattenCases (depth + 1) cases)
      (flattenEarlyReturnsInner (depth + 1) default)]
  | .tryCatch tryBody catchVar catchBody =>
    [.tryCatch (flattenEarlyReturnsInner (depth + 1) tryBody) catchVar
      (flattenEarlyReturnsInner (depth + 1) catchBody)]
  | other => [other]

/-- Below the depth limit the statements stay as they are. -/
def flattenEarlyReturnsInner (depth : Nat) : List Stmt → List Stmt
  | [] => []
  | stmt :: rest =>
    if depth > 500 then stmt :: rest
    else flattenStmt depth stmt ++ flattenEarlyReturnsInner depth rest

def flattenCases (depth : Nat) : List (String × List Stmt) → List (String × List Stmt)
  | [] => []
  | (label, body) :: rest =>
    (label, flattenEarlyReturnsInner depth body) :: flattenCases depth rest

end

def flattenEarlyReturns (stmts : List Stmt) : List Stmt := flattenEarlyReturnsInner 0 stmts

/-! ## Flipped conditions -/

mutual

/-- The conditions that are negated in a statement. -/
def Stmt.flipped (depth : Nat) : Stmt → List Condition
  | .ifElse cond thenBody elseBody =>
    if flips thenBody elseBody then cond :: flippedIn (depth + 1) thenBody
    else if guards thenBody elseBody then flippedIn (depth + 1) elseBody
    else flippedIn (depth + 1) thenBody ++ flippedIn (depth + 1) elseBody
  | .while _ body => flippedIn (depth + 1) body
  | .forIn _ _ body => flippedIn (depth + 1) body
  | .switch _ cases default => flippedInCases (depth + 1) cases ++ flippedIn (depth + 1) default
  | .tryCatch tryBody _ catchBody => flippedIn (depth + 1) tryBody ++ flippedIn (depth + 1) catchBody
  | _ => []

def flippedIn (depth : Nat) : List Stmt → List Condition
  | [] => []
  | stmt :: rest => if depth > 500 then [] else stmt.flipped depth ++ flippedIn depth rest

def flippedInCases (depth : Nat) : List (String × List Stmt) → List Condition
  | [] => []
  | (_, body) :: rest => flippedIn depth body ++ flippedInCases depth rest

end

/-- The conditions that the pass negates. -/
def flippedConditions (stmts : List Stmt) : List Condition := flippedIn 0 stmts

/-! ## Execution -/

section Execution

variable {Value σ : Type} {m : Machine Value σ} (fuel : Nat)

/-- The negation of the condition holds in the other states. -/
def Machine.Negates (m : Machine Value σ) (cond : Condition) : Prop :=
  ∀ s, m.holds s (negateCondition cond) = !m.holds s cond

theorem Machine.negates_of_negatable {cond : Condition} (h : cond.Negatable) : m.Negates cond :=
  fun s => m.js.holds_negateCondition (m.value s) h

theorem isExitOnly_eq_true {body : List Stmt} (h : isExitOnly body = true) :
    ∃ stmt, body = [stmt] ∧ isExit stmt = true := by
  simp only [isExitOnly, Bool.and_eq_true, beq_iff_eq] at h
  obtain ⟨stmt, rfl⟩ := List.length_eq_one_iff.mp h.1
  exact ⟨stmt, rfl, by simpa using h.2⟩

/-- A guard that exits stands for a branch that exits. -/
theorem runList_guard (cond : Condition) {body : List Stmt} (hbody : isExitOnly body = true)
    (rest : List Stmt) (s : σ) :
    runList m fuel none (.ifElse cond body [] :: rest) s =
      if m.holds s cond then runList m fuel none body s else runList m fuel none rest s := by
  obtain ⟨stmt, rfl, hexit⟩ := isExitOnly_eq_true hbody
  rw [runList_cons, Stmt.run, runList_singleton, runList_nil]
  split
  · exact seq_of_isExit m fuel hexit none s _
  · exact Control.Run.stop_normal_seq s _

mutual

theorem runList_flattenStmt (stmt : Stmt) (depth : Nat)
    (h : ∀ cond ∈ stmt.flipped depth, m.Negates cond) :
    runList m fuel none (flattenStmt depth stmt) = stmt.run m fuel none := by
  cases stmt with
  | ifElse cond thenBody elseBody =>
    rw [Stmt.flipped] at h
    rw [flattenStmt]
    split at h
    · next hflips =>
      rw [if_pos hflips]
      have hthen := runList_flattenInner thenBody (depth + 1) fun c hc => h c (List.mem_cons_of_mem _ hc)
      simp only [flips, Bool.and_eq_true] at hflips
      funext s
      rw [runList_guard fuel (negateCondition cond) hflips.1.1, h cond List.mem_cons_self s, hthen,
        Stmt.run]
      cases m.holds s cond <;> rfl
    · next hflips =>
      rw [if_neg hflips]
      split at h
      · next hguards =>
        rw [if_pos hguards]
        have helse := runList_flattenInner elseBody (depth + 1) h
        simp only [guards, Bool.and_eq_true] at hguards
        funext s
        rw [runList_guard fuel cond hguards.1, helse, Stmt.run]
      · next hguards =>
        rw [if_neg hguards, runList_singleton]
        have hthen := runList_flattenInner thenBody (depth + 1) fun c hc =>
          h c (List.mem_append_left _ hc)
        have helse := runList_flattenInner elseBody (depth + 1) fun c hc =>
          h c (List.mem_append_right _ hc)
        funext s
        rw [Stmt.run, Stmt.run, hthen, helse]
  | «while» cond body =>
    rw [Stmt.flipped] at h
    rw [flattenStmt, runList_singleton]
    funext s
    rw [Stmt.run, Stmt.run, runList_flattenInner body (depth + 1) h]
  | forIn key obj body =>
    rw [Stmt.flipped] at h
    rw [flattenStmt, runList_singleton]
    funext s
    rw [Stmt.run, Stmt.run, runList_flattenInner body (depth + 1) h]
  | switch discriminant cases default =>
    rw [Stmt.flipped] at h
    rw [flattenStmt, runList_singleton]
    have hcases := runCases_flattenCases cases (depth + 1) fun c hc => h c (List.mem_append_left _ hc)
    have hdefault := runList_flattenInner default (depth + 1) fun c hc =>
      h c (List.mem_append_right _ hc)
    funext s
    rw [Stmt.run, Stmt.run, hcases, hdefault]
  | tryCatch tryBody catchVar catchBody =>
    rw [Stmt.flipped] at h
    rw [flattenStmt, runList_singleton]
    have htry := runList_flattenInner tryBody (depth + 1) fun c hc => h c (List.mem_append_left _ hc)
    have hcatch := runList_flattenInner catchBody (depth + 1) fun c hc =>
      h c (List.mem_append_right _ hc)
    funext s
    rw [Stmt.run, Stmt.run, htry, hcatch]
  | _ => exact runList_singleton m fuel none _

theorem runList_flattenInner : ∀ (stmts : List Stmt) (depth : Nat),
    (∀ cond ∈ flippedIn depth stmts, m.Negates cond) →
      runList m fuel none (flattenEarlyReturnsInner depth stmts) = runList m fuel none stmts
  | [], _, _ => by rw [flattenEarlyReturnsInner]
  | stmt :: rest, depth, h => by
    rw [flippedIn] at h
    rw [flattenEarlyReturnsInner]
    split
    · rfl
    · next hdepth =>
      rw [if_neg hdepth] at h
      have hstmt := runList_flattenStmt stmt depth fun c hc => h c (List.mem_append_left _ hc)
      have hrest := runList_flattenInner rest depth fun c hc => h c (List.mem_append_right _ hc)
      funext s
      rw [runList_append, runList_cons, hstmt, hrest]

theorem runCases_flattenCases : ∀ (cases : List (String × List Stmt)) (depth : Nat),
    (∀ cond ∈ flippedInCases depth cases, m.Negates cond) →
      ∀ v, runCases m fuel v (flattenCases depth cases) = runCases m fuel v cases
  | [], _, _, _ => by rw [flattenCases]
  | (label, body) :: rest, depth, h, v => by
    rw [flippedInCases] at h
    have hbody := runList_flattenInner body depth fun c hc => h c (List.mem_append_left _ hc)
    have hrest := runCases_flattenCases rest depth (fun c hc => h c (List.mem_append_right _ hc)) v
    funext s
    rw [flattenCases, runCases, runCases, hbody, hrest]

end

end Execution

/-! ## When execution is kept -/

/-- The flattened list runs the same leaf statements and ends in the same way, whatever the
values and the leaf statements are. -/
def KeepsExecution (stmts : List Stmt) : Prop :=
  ∀ (Value σ : Type) (m : Machine Value σ) (fuel : Nat) (s : σ),
    runList m fuel none (flattenEarlyReturns stmts) s = runList m fuel none stmts s

theorem keepsExecution_of_negatable {stmts : List Stmt}
    (h : ∀ cond ∈ flippedConditions stmts, cond.Negatable) : KeepsExecution stmts := by
  intro Value σ m fuel s
  have hrun := runList_flattenInner fuel stmts 0 fun cond hcond =>
    m.negates_of_negatable (h cond hcond)
  exact congrFun hrun s

/-- A copy under a condition, or else a return. -/
def copyOrReturn (cond : Condition) : List Stmt :=
  [.ifElse cond [.phiAssign "r0_1" "r0_0"] [.return none]]

theorem flippedConditions_copyOrReturn (cond : Condition) :
    flippedConditions (copyOrReturn cond) = [cond] := by
  simp [flippedConditions, copyOrReturn, flippedIn, Stmt.flipped, flips, isExitOnly, isExit]

theorem flattenEarlyReturns_copyOrReturn (cond : Condition) :
    flattenEarlyReturns (copyOrReturn cond) =
      [.ifElse (negateCondition cond) [.return none] [], .phiAssign "r0_1" "r0_0"] := by
  simp [flattenEarlyReturns, copyOrReturn, flattenEarlyReturnsInner, flattenStmt, flips, isExitOnly,
    isExit]

/-- Neither an order test nor its opposite holds of `undefined`: the return is lost. -/
theorem not_keepsExecution_copyOrReturn {cond : Condition} (h : ¬ cond.Negatable) :
    ¬ KeepsExecution (copyOrReturn cond) := by
  cases cond with
  | compare op left right =>
    intro hkeeps
    have hop : op ∉ equalityOps := h
    have hcond : undefinedMachine.holds () (.compare op left right) = false :=
      intJs_compare_undefined hop
    have hneg : undefinedMachine.holds () (negateCondition (.compare op left right)) = false :=
      intJs_compare_undefined fun hmem => hop (mem_equalityOps_of_negatedOp hmem)
    have hrun := hkeeps _ _ undefinedMachine 0 ()
    have hflat : runList undefinedMachine 0 none
        (flattenEarlyReturns (copyOrReturn (.compare op left right))) () =
          runList undefinedMachine 0 none [.phiAssign "r0_1" "r0_0"] () := by
      rw [flattenEarlyReturns_copyOrReturn, runList_guard 0 _ rfl, hneg, if_neg Bool.false_ne_true]
    have horig : runList undefinedMachine 0 none (copyOrReturn (.compare op left right)) () =
        runList undefinedMachine 0 none [.return none] () := by
      rw [copyOrReturn, runList_singleton, Stmt.run, hcond, if_neg Bool.false_ne_true]
    rw [hflat, horig] at hrun
    have htrace := congrArg Control.Run.trace hrun
    cases htrace
  | _ => exact absurd trivial h

/-- Execution is kept, for all lists with the same conditions to negate, exactly when none of
them tests an order. -/
theorem flattenEarlyReturns_keeps_iff (stmts : List Stmt) :
    (∀ stmts', flippedConditions stmts' ⊆ flippedConditions stmts → KeepsExecution stmts') ↔
      ∀ cond ∈ flippedConditions stmts, cond.Negatable := by
  constructor
  · intro hkeeps cond hcond
    by_contra hneg
    refine not_keepsExecution_copyOrReturn hneg (hkeeps _ ?_)
    rw [flippedConditions_copyOrReturn]
    simpa using hcond
  · intro hneg stmts' hsubset
    exact keepsExecution_of_negatable fun cond hcond => hneg cond (hsubset hcond)

/-- `if (r1_0 < r2_0) { r0_1 = r0_0 } else { return }`, where neither of them is less. -/
theorem less_loses_return :
    runList undefinedMachine 0 none (copyOrReturn (.compare "<" ⟨1, 0⟩ ⟨2, 0⟩)) () =
      .stop (.returned none) () ∧
    runList undefinedMachine 0 none
      (flattenEarlyReturns (copyOrReturn (.compare "<" ⟨1, 0⟩ ⟨2, 0⟩))) () =
      ⟨[.phiAssign "r0_1" "r0_0"], (), .normal⟩ ∧
    ¬ KeepsExecution (copyOrReturn (.compare "<" ⟨1, 0⟩ ⟨2, 0⟩)) := by
  refine ⟨?_, ?_, not_keepsExecution_copyOrReturn (by decide)⟩
  · rfl
  · rw [flattenEarlyReturns_copyOrReturn]
    rfl

end Hermes.Structure
