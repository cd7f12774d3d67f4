-- SUMMARY: Rewriting of all bodies of a statement list, inner ones first, and what keeps its execution.
import DroidsawHermes.Structure.Exec

/-!
# Deep rewriting

`apply_deep` of `decompile/sugar.rs`. A body is rewritten after the bodies inside it.
-/

namespace Hermes.Structure

open Decompile Control

variable (rewrite : List Stmt → List Stmt)

mutual

/-- The bodies of a statement are rewritten. -/
def descendStmt : Stmt → Stmt
  | .ifElse cond thenBody elseBody =>
    .ifElse cond (rewrite (descendAll thenBody)) (rewrite (descendAll elseBody))
  | .while cond body => .while cond (rewrite (descendAll body))
  | .forIn key obj body => .forIn key obj (rewrite (descendAll body))
  | .switch discriminant cases default =>
    .switch discriminant (descendCases cases) (rewrite (descendAll default))
  | .tryCatch tryBody catchVar catchBody =>
    .tryCatch (rewrite (descendAll tryBody)) catchVar (rewrite (descendAll catchBody))
  | .labeled label body => .labeled label (rewrite (descendAll body))
  | other => other

def descendAll : List Stmt → List Stmt
  | [] => []
  | stmt :: rest => descendStmt stmt :: descendAll rest

def descendCases : List (String × List Stmt) → List (String × List Stmt)
  | [] => []
  | (label, body) :: rest => (label, rewrite (descendAll body)) :: descendCases rest

end

def applyDeep (stmts : List Stmt) : List Stmt := rewrite (descendAll rewrite stmts)

/-! ## Levels -/

mutual

/-- The lists that are rewritten inside a statement. -/
def Stmt.levels : Stmt → List (List Stmt)
  | .ifElse _ thenBody elseBody =>
    (descendAll rewrite thenBody :: levelsIn thenBody) ++
      (descendAll rewrite elseBody :: levelsIn elseBody)
  | .while _ body => descendAll rewrite body :: levelsIn body
  | .forIn _ _ body => descendAll rewrite body :: levelsIn body
  | .switch _ cases default =>
    levelsInCases cases ++ (descendAll rewrite default :: levelsIn default)
  | .tryCatch tryBody _ catchBody =>
    (descendAll rewrite tryBody :: levelsIn tryBody) ++
      (descendAll rewrite catchBody :: levelsIn catchBody)
  | .labeled _ body => descendAll rewrite body :: levelsIn body
  | _ => []

def levelsIn : List Stmt → List (List Stmt)
  | [] => []
  | stmt :: rest => stmt.levels ++ levelsIn rest

def levelsInCases : List (String × List Stmt) → List (List Stmt)
  | [] => []
  | (_, body) :: rest => (descendAll rewrite body :: levelsIn body) ++ levelsInCases rest

end

/-- All lists that are rewritten. -/
def levels (stmts : List Stmt) : List (List Stmt) :=
  descendAll rewrite stmts :: levelsIn rewrite stmts

/-! ## Execution -/

section Execution

variable {Value σ : Type} (m : Machine Value σ) (fuel : Nat)

/-- The lists run in the same way, also behind a label. -/
structure SameRun (stmts stmts' : List Stmt) : Prop where
  loop : ∀ label, loopLabel label stmts' = loopLabel label stmts
  run : ∀ label, runList m fuel label stmts' = runList m fuel label stmts

theorem SameRun.trans {m : Machine Value σ} {fuel : Nat} {stmts stmts' stmts'' : List Stmt}
    (h : SameRun m fuel stmts stmts') (h' : SameRun m fuel stmts' stmts'') :
    SameRun m fuel stmts stmts'' :=
  ⟨fun label => (h'.loop label).trans (h.loop label), fun label => (h'.run label).trans (h.run label)⟩

theorem loopLabel_descendAll (label : String) (stmts : List Stmt) :
    loopLabel label (descendAll rewrite stmts) = loopLabel label stmts := by
  match stmts with
  | [] => rfl
  | [stmt] => cases stmt <;> rfl
  | stmt :: stmt' :: rest => cases stmt <;> cases stmt' <;> rfl

variable {rewrite m fuel}

theorem SameRun.rewritten {body : List Stmt}
    (hinner : (∀ l ∈ levelsIn rewrite body, SameRun m fuel l (rewrite l)) →
      SameRun m fuel body (descendAll rewrite body))
    (h : ∀ l ∈ descendAll rewrite body :: levelsIn rewrite body, SameRun m fuel l (rewrite l)) :
    SameRun m fuel body (rewrite (descendAll rewrite body)) :=
  SameRun.trans (hinner fun l hl => h l (List.mem_cons_of_mem _ hl)) (h _ List.mem_cons_self)

mutual

theorem run_descendStmt (stmt : Stmt)
    (h : ∀ l ∈ stmt.levels rewrite, SameRun m fuel l (rewrite l)) (label : Option String) :
    (descendStmt rewrite stmt).run m fuel label = stmt.run m fuel label := by
  cases stmt with
  | ifElse cond thenBody elseBody =>
    rw [Stmt.levels] at h
    have hthen := SameRun.rewritten (sameRun_descendAll thenBody) fun l hl =>
      h l (List.mem_append_left _ hl)
    have helse := SameRun.rewritten (sameRun_descendAll elseBody) fun l hl =>
      h l (List.mem_append_right _ hl)
    funext s
    rw [descendStmt, Stmt.run, Stmt.run, hthen.run, helse.run]
  | «while» cond body =>
    rw [Stmt.levels] at h
    have hbody := SameRun.rewritten (sameRun_descendAll body) h
    funext s
    rw [descendStmt, Stmt.run, Stmt.run, hbody.run]
  | forIn key obj body =>
    rw [Stmt.levels] at h
    have hbody := SameRun.rewritten (sameRun_descendAll body) h
    funext s
    rw [descendStmt, Stmt.run, Stmt.run, hbody.run]
  | switch discriminant cases default =>
    rw [Stmt.levels] at h
    have hcases := runCases_descendCases cases fun l hl => h l (List.mem_append_left _ hl)
    have hdefault := SameRun.rewritten (sameRun_descendAll default) fun l hl =>
      h l (List.mem_append_right _ hl)
    funext s
    rw [descendStmt, Stmt.run, Stmt.run, hcases, hdefault.run]
  | tryCatch tryBody catchVar catchBody =>
    rw [Stmt.levels] at h
    have htry := SameRun.rewritten (sameRun_descendAll tryBody) fun l hl =>
      h l (List.mem_append_left _ hl)
    have hcatch := SameRun.rewritten (sameRun_descendAll catchBody) fun l hl =>
      h l (List.mem_append_right _ hl)
    funext s
    rw [descendStmt, Stmt.run, Stmt.run, htry.run, hcatch.run]
  | labeled l body =>
    rw [Stmt.levels] at h
    have hbody := SameRun.rewritten (sameRun_descendAll body) h
    funext s
    rw [descendStmt, Stmt.run, Stmt.run, hbody.loop, hbody.run]
  | _ => rfl

theorem sameRun_descendAll (stmts : List Stmt)
    (h : ∀ l ∈ levelsIn rewrite stmts, SameRun m fuel l (rewrite l)) :
    SameRun m fuel stmts (descendAll rewrite stmts) := by
  refine ⟨fun label => loopLabel_descendAll rewrite label stmts, fun label => ?_⟩
  cases stmts with
  | nil => rw [descendAll]
  | cons stmt rest =>
    rw [levelsIn] at h
    have hstmt := run_descendStmt stmt fun l hl => h l (List.mem_append_left _ hl)
    have hrest := sameRun_descendAll rest fun l hl => h l (List.mem_append_right _ hl)
    funext s
    rw [descendAll, runList_cons, runList_cons, hstmt, hrest.run]

theorem runCases_descendCases (cases : List (String × List Stmt))
    (h : ∀ l ∈ levelsInCases rewrite cases, SameRun m fuel l (rewrite l)) (v : Value) :
    runCases m fuel v (descendCases rewrite cases) = runCases m fuel v cases := by
  cases cases with
  | nil => rw [descendCases]
  | cons case rest =>
    obtain ⟨label, body⟩ := case
    rw [levelsInCases] at h
    have hbody := SameRun.rewritten (sameRun_descendAll body) fun l hl =>
      h l (List.mem_append_left _ hl)
    have hrest := runCases_descendCases rest (fun l hl => h l (List.mem_append_right _ hl)) v
    funext s
    rw [descendCases, runCases, runCases, hbody.run, hrest]

end

/-- Rewriting keeps execution where it keeps that of every list that is rewritten. -/
theorem sameRun_applyDeep {stmts : List Stmt}
    (h : ∀ l ∈ levels rewrite stmts, SameRun m fuel l (rewrite l)) :
    SameRun m fuel stmts (applyDeep rewrite stmts) :=
  SameRun.rewritten (sameRun_descendAll stmts) h

end Execution

end Hermes.Structure
