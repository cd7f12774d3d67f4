-- SUMMARY: Recovery of switches from chains of equality tests, and the chains for which it keeps what is executed.
import DroidsawHermes.Decompile.Opcodes
import DroidsawHermes.Structure.ApplyDeep

/-!
# Switch recovery

`recover_switch` of `decompile/sugar.rs`. A nested chain of tests or a sequence of
tests on one discriminant becomes a switch.
-/

namespace Hermes.Structure

open Decompile Control

/-! ## The pass -/

structure SwitchCases where
  cases : List (String × List Stmt)
  rest : List Stmt

mutual

/-- A test of the discriminant, and those in its else branch. -/
def Stmt.elseChain (disc : VarId) : Stmt → SwitchCases
  | .ifElse (.compare op left right) thenBody elseBody =>
    if op = "===" ∧ right = disc then
      ⟨(left.display, thenBody) :: (elseChain disc elseBody).cases, (elseChain disc elseBody).rest⟩
    else ⟨[], [.ifElse (.compare op left right) thenBody elseBody]⟩
  | stmt => ⟨[], [stmt]⟩

/-- The tests of the discriminant in nested else branches, and the last branch. -/
def elseChain (disc : VarId) : List Stmt → SwitchCases
  | [stmt] => stmt.elseChain disc
  | remaining => ⟨[], remaining⟩

end

/-- A constant is loaded into the variable with this name. -/
def loadsConst (left : String) : Stmt → Bool
  | .assign dst op _ => dst == left && startsWith op.name "LoadConst"
  | _ => false

structure SwitchScan where
  cases : List (String × List Stmt)
  preSwitch : List Stmt
  consumed : Nat

/-- The tests of the discriminant one after the other, with constant loads between them. -/
def scanSequence (disc : VarId) (stmts : List Stmt) : SwitchScan → List Stmt → SwitchScan
  | scan, .ifElse (.compare op left right) thenBody [] :: rest =>
    if op = "===" ∧ right = disc then
      let isConst := scan.preSwitch.any (loadsConst left.display) ||
        (stmts.take scan.consumed).any (loadsConst left.display)
      if !isConst && !scan.cases.isEmpty then scan
      else
        scanSequence disc stmts
          ⟨scan.cases ++ [(left.display, thenBody)], scan.preSwitch, scan.consumed + 1⟩ rest
    else scan
  | scan, .assign dst op blockId :: rest =>
    if startsWith op.name "LoadConst" then
      scanSequence disc stmts
        ⟨scan.cases, scan.preSwitch ++ [.assign dst op blockId], scan.consumed + 1⟩ rest
    else scan
  | scan, _ => scan

def isReturn : Stmt → Bool
  | .return _ => true
  | _ => false

structure SwitchMatch where
  preStmts : List Stmt
  switchStmt : Stmt
  consumed : Nat

def tryExtractSwitchSequential (stmts : List Stmt) : Option SwitchMatch :=
  match stmts with
  | .ifElse (.compare op firstLeft disc) firstBody firstElse :: _ =>
    if op ≠ "===" then none
    else
      let chain := elseChain disc firstElse
      if !firstElse.isEmpty && chain.cases.length + 1 ≥ 3 then
        some ⟨[], .switch disc ((firstLeft.display, firstBody) :: chain.cases) chain.rest, 1⟩
      else
        let scan := scanSequence disc stmts ⟨[], [], 0⟩ stmts
        if scan.cases.length < 3 then none
        else
          let default := (stmts.drop scan.consumed).head?.toList.filter isReturn
          some ⟨scan.preSwitch, .switch disc scan.cases default, scan.consumed + default.length⟩
  | _ => none

/-- One list, after `skip` statements that are already consumed. -/
def recoverSwitches : Nat → List Stmt → List Stmt
  | _, [] => []
  | skip + 1, _ :: rest => recoverSwitches skip rest
  | 0, stmt :: rest =>
    match tryExtractSwitchSequential (stmt :: rest) with
    | some found => found.preStmts ++ found.switchStmt :: recoverSwitches (found.consumed - 1) rest
    | none => stmt :: recoverSwitches 0 rest

def recoverSwitchOneLevel (stmts : List Stmt) : List Stmt := recoverSwitches 0 stmts

def recoverSwitch (stmts : List Stmt) : List Stmt := applyDeep recoverSwitchOneLevel stmts

/-! ## Breaks -/

mutual

/-- A `break` without a label that leaves the statement. -/
def Stmt.breaksOut : Stmt → Bool
  | .break label => label.isNone
  | .ifElse _ thenBody elseBody => breaksOutIn thenBody || breaksOutIn elseBody
  | .tryCatch tryBody _ catchBody => breaksOutIn tryBody || breaksOutIn catchBody
  | .labeled _ body => breaksOutIn body
  | _ => false

def breaksOutIn : List Stmt → Bool
  | [] => false
  | stmt :: rest => stmt.breaksOut || breaksOutIn rest

end

section Execution

variable {Value σ : Type} (m : Machine Value σ) (fuel : Nat)

mutual

theorem run_not_broke (stmt : Stmt) (h : stmt.breaksOut = false) (label : Option String) (s : σ) :
    (stmt.run m fuel label s).outcome ≠ .broke none := by
  cases stmt with
  | ifElse cond thenBody elseBody =>
    rw [Stmt.breaksOut, Bool.or_eq_false_iff] at h
    rw [Stmt.run]
    split
    · exact runList_not_broke thenBody h.1 none s
    · exact runList_not_broke elseBody h.2 none s
  | tryCatch tryBody catchVar catchBody =>
    rw [Stmt.breaksOut, Bool.or_eq_false_iff] at h
    rw [Stmt.run]
    exact Control.Run.outcome_handle_ne (runList_not_broke tryBody h.1 none s) fun v s =>
      runList_not_broke catchBody h.2 none _
  | labeled l body =>
    rw [Stmt.breaksOut] at h
    rw [Stmt.run]
    exact Control.Run.outcome_leaveLabel_ne (runList_not_broke body h _ s) l
  | «while» cond body =>
    rw [Stmt.run]
    exact Control.Run.outcome_whileLoop_ne _ _ fuel s
  | forIn key obj body =>
    rw [Stmt.run]
    exact Control.Run.outcome_forLoop_ne _ _ _ s
  | switch discriminant cases default =>
    rw [Stmt.run]
    exact Control.Run.outcome_leave_ne _
  | «break» l =>
    rw [Stmt.breaksOut] at h
    rw [Stmt.run]
    cases l with
    | none => cases h
    | some l => simp [Control.Run.stop]
  | «return» v => simp [Stmt.run, Control.Run.stop]
  | throw v => simp [Stmt.run, Control.Run.stop]
  | «continue» l => simp [Stmt.run, Control.Run.stop]
  | _ =>
    rw [Stmt.run]
    · unfold Machine.runLeaf
      split <;> simp
    all_goals simp

theorem runList_not_broke (stmts : List Stmt) (h : breaksOutIn stmts = false)
    (label : Option String) (s : σ) : (runList m fuel label stmts s).outcome ≠ .broke none := by
  cases stmts with
  | nil => simp [Control.Run.stop]
  | cons stmt rest =>
    rw [breaksOutIn, Bool.or_eq_false_iff] at h
    rw [runList_cons]
    exact Control.Run.outcome_seq_ne (run_not_broke stmt h.1 label s) fun s =>
      runList_not_broke rest h.2 none s

end

/-! ## Else chains -/

mutual

theorem run_stmt_elseChain (disc : VarId) (stmt : Stmt) (s : σ) :
    stmt.run m fuel none s =
      (runCases m fuel (m.value s disc) (stmt.elseChain disc).cases s).getD
        (runList m fuel none (stmt.elseChain disc).rest s) := by
  cases stmt with
  | ifElse cond thenBody elseBody =>
    cases cond with
    | compare op left right =>
      rw [Stmt.elseChain]
      split
      · next htest =>
        obtain ⟨rfl, rfl⟩ := htest
        have hholds : m.holds s (.compare "===" left right) =
            m.js.strictEq (m.value s left) (m.value s right) := rfl
        have helse := run_elseChain right elseBody s
        rw [Stmt.run, runCases, m.label_display, helse, hholds]
        split <;> rfl
      · rw [runCases, runList_singleton]
        rfl
    | _ => simp [Stmt.elseChain, runCases, runList_singleton]
  | _ => simp [Stmt.elseChain, runCases, runList_singleton]

/-- The first test that holds selects the branch, as in a switch. -/
theorem run_elseChain (disc : VarId) (stmts : List Stmt) (s : σ) :
    runList m fuel none stmts s =
      (runCases m fuel (m.value s disc) (elseChain disc stmts).cases s).getD
        (runList m fuel none (elseChain disc stmts).rest s) := by
  match stmts with
  | [] => simp [elseChain, runCases]
  | [stmt] =>
    rw [runList_singleton, elseChain]
    exact run_stmt_elseChain disc stmt s
  | stmt :: stmt' :: rest => simp [elseChain, runCases]

end

/-- The bodies of a switch have no `break` that would leave the switch. -/
def Stmt.breaksInside : Stmt → Bool
  | .switch _ cases default => (cases.any fun case => breaksOutIn case.2) || breaksOutIn default
  | _ => false

theorem runCases_not_broke {v : Value} {cases : List (String × List Stmt)} {s : σ}
    {r : StmtRun Value σ} (h : cases.any (fun case => breaksOutIn case.2) = false)
    (hr : runCases m fuel v cases s = some r) : r.outcome ≠ .broke none := by
  induction cases with
  | nil => simp [runCases] at hr
  | cons case rest ih =>
    obtain ⟨label, body⟩ := case
    rw [List.any_cons, Bool.or_eq_false_iff] at h
    rw [runCases] at hr
    split at hr
    · cases hr
      exact runList_not_broke m fuel body h.1 none s
    · exact ih h.2 hr

/-- A switch runs as the chain of its tests. -/
theorem run_switch_of_not_breaksInside {disc : VarId} {cases : List (String × List Stmt)}
    {default : List Stmt} (h : (Stmt.switch disc cases default).breaksInside = false)
    (label : Option String) (s : σ) :
    (Stmt.switch disc cases default).run m fuel label s =
      (runCases m fuel (m.value s disc) cases s).getD (runList m fuel none default s) := by
  rw [Stmt.breaksInside, Bool.or_eq_false_iff] at h
  rw [Stmt.run]
  refine Control.Run.leave_of_ne ?_
  cases hr : runCases m fuel (m.value s disc) cases s with
  | none => exact runList_not_broke m fuel default h.2 none s
  | some r => exact runCases_not_broke m fuel h.1 hr

/-! ## Proper matches -/

/-- The switch replaces one statement and takes no `break` of a loop around it. -/
structure SwitchMatch.Proper (found : SwitchMatch) : Prop where
  single : found.consumed = 1
  breaks : found.switchStmt.breaksInside = false

instance (found : SwitchMatch) : Decidable found.Proper :=
  decidable_of_iff (found.consumed = 1 ∧ found.switchStmt.breaksInside = false)
    ⟨fun h => ⟨h.1, h.2⟩, fun h => ⟨h.1, h.2⟩⟩

theorem le_consumed_scanSequence (disc : VarId) (stmts : List Stmt) (scan : SwitchScan)
    (rest : List Stmt) (h : scan.cases.length ≤ scan.consumed) :
    (scanSequence disc stmts scan rest).cases.length ≤
      (scanSequence disc stmts scan rest).consumed := by
  fun_induction scanSequence disc stmts scan rest with
  | case2 scan op left right thenBody rest htest isConst hstop ih =>
    refine ih ?_
    simp only [List.length_append, List.length_singleton]
    omega
  | case4 scan dst op blockId rest hload ih =>
    refine ih ?_
    exact Nat.le_succ_of_le h
  | _ => exact h

/-- A match of one statement is a nested chain. -/
theorem chain_of_consumed {stmt : Stmt} {rest : List Stmt} {found : SwitchMatch}
    (h : tryExtractSwitchSequential (stmt :: rest) = some found) (hsingle : found.consumed = 1) :
    ∃ left disc thenBody elseBody, stmt = .ifElse (.compare "===" left disc) thenBody elseBody ∧
      found.preStmts = [] ∧
      found.switchStmt = .switch disc ((left.display, thenBody) :: (elseChain disc elseBody).cases)
        (elseChain disc elseBody).rest := by
  unfold tryExtractSwitchSequential at h
  split at h
  · next op left disc thenBody elseBody rest' hstmts =>
    cases hstmts
    split at h
    · cases h
    · next hop =>
      have heq : op = "===" := not_not.mp hop
      subst heq
      simp only at h
      split at h
      · cases h
        exact ⟨left, disc, thenBody, elseBody, rfl, rfl, rfl⟩
      · split at h
        · cases h
        · next hlength =>
          cases h
          have hle := le_consumed_scanSequence disc
            (.ifElse (.compare "===" left disc) thenBody elseBody :: rest) ⟨[], [], 0⟩
            (.ifElse (.compare "===" left disc) thenBody elseBody :: rest) (Nat.le_refl 0)
          simp only at hsingle
          omega
  · cases h

/-- The matches of a list, in its order. -/
def switchMatches : Nat → List Stmt → List SwitchMatch
  | _, [] => []
  | skip + 1, _ :: rest => switchMatches skip rest
  | 0, stmt :: rest =>
    match tryExtractSwitchSequential (stmt :: rest) with
    | some found => found :: switchMatches (found.consumed - 1) rest
    | none => switchMatches 0 rest

/-- A statement runs as the other one, and is a loop when that is. -/
structure SameStmt (stmt stmt' : Stmt) : Prop where
  loop : ∀ label, loopLabel label [stmt'] = loopLabel label [stmt]
  run : ∀ label, stmt'.run m fuel label = stmt.run m fuel label

variable {m fuel}

theorem sameRun_of_forall₂ {stmts stmts' : List Stmt}
    (h : List.Forall₂ (SameStmt m fuel) stmts stmts') : SameRun m fuel stmts stmts' := by
  induction h with
  | nil => exact ⟨fun _ => rfl, fun _ => rfl⟩
  | @cons stmt stmt' rest rest' hstmt hrest ih =>
    refine ⟨fun label => ?_, fun label => ?_⟩
    · cases hrest with
      | nil => exact hstmt.loop label
      | cons => cases stmt <;> cases stmt' <;> rfl
    · funext s
      rw [runList_cons, runList_cons, hstmt.run, ih.run]

theorem sameStmt_of_proper {stmt : Stmt} {rest : List Stmt} {found : SwitchMatch}
    (h : tryExtractSwitchSequential (stmt :: rest) = some found) (hproper : found.Proper) :
    found.preStmts = [] ∧ SameStmt m fuel stmt found.switchStmt := by
  obtain ⟨left, disc, thenBody, elseBody, rfl, hpre, hswitch⟩ := chain_of_consumed h hproper.single
  refine ⟨hpre, fun label => by rw [hswitch]; rfl, fun label => ?_⟩
  have hbreaks := hproper.breaks
  rw [hswitch] at hbreaks ⊢
  funext s
  have hchain := run_elseChain m fuel disc [.ifElse (.compare "===" left disc) thenBody elseBody] s
  rw [run_switch_of_not_breaksInside m fuel hbreaks label s]
  rw [elseChain, Stmt.elseChain, if_pos ⟨rfl, rfl⟩, runList_singleton] at hchain
  exact hchain.symm.trans (by rw [Stmt.run, Stmt.run])

theorem forall₂_recoverSwitches {stmts : List Stmt}
    (h : ∀ found ∈ switchMatches 0 stmts, found.Proper) :
    List.Forall₂ (SameStmt m fuel) stmts (recoverSwitches 0 stmts) := by
  induction stmts with
  | nil => exact .nil
  | cons stmt rest ih =>
    rw [switchMatches] at h
    rw [recoverSwitches]
    cases hfound : tryExtractSwitchSequential (stmt :: rest) with
    | none =>
      rw [hfound] at h
      exact .cons ⟨fun _ => rfl, fun _ => rfl⟩ (ih h)
    | some found =>
      simp only [hfound, List.forall_mem_cons] at h
      obtain ⟨hpre, hsame⟩ := sameStmt_of_proper (m := m) hfound h.1
      simp only [hpre, List.nil_append, h.1.single, Nat.sub_self] at h ⊢
      exact .cons hsame (ih h.2)

end Execution

/-! ## When execution is kept -/

/-- The list with its switches runs the same leaf statements and ends in the same way, whatever
the values and the leaf statements are. -/
def SwitchesKeepExecution (stmts : List Stmt) : Prop :=
  ∀ (Value σ : Type) (m : Machine Value σ) (fuel : Nat) (s : σ),
    runList m fuel none (recoverSwitch stmts) s = runList m fuel none stmts s

/-- Every match, in every list that is rewritten, is proper. -/
def ProperSwitches (stmts : List Stmt) : Prop :=
  ∀ l ∈ levels recoverSwitchOneLevel stmts, ∀ found ∈ switchMatches 0 l, found.Proper

instance (stmts : List Stmt) : Decidable (ProperSwitches stmts) :=
  inferInstanceAs (Decidable (∀ l ∈ _, _))

theorem recoverSwitch_keeps {stmts : List Stmt} (h : ProperSwitches stmts) :
    SwitchesKeepExecution stmts := by
  intro Value σ m fuel s
  have hlevels : ∀ l ∈ levels recoverSwitchOneLevel stmts,
      SameRun m fuel l (recoverSwitchOneLevel l) :=
    fun l hl => sameRun_of_forall₂ (forall₂_recoverSwitches (h l hl))
  exact congrFun ((sameRun_applyDeep hlevels).run none) s

/-- A copy from the register to another one. -/
def copyFrom (reg : Nat) : Stmt := .phiAssign "r9_0" (VarId.display ⟨reg, 0⟩)

/-- `if (r1_0 === r0_0) …` with two more tests in its else branches. -/
def testsInElse : List Stmt :=
  [.ifElse (.compare "===" ⟨1, 0⟩ ⟨0, 0⟩) [copyFrom 1]
    [.ifElse (.compare "===" ⟨2, 0⟩ ⟨0, 0⟩) [copyFrom 2]
      [.ifElse (.compare "===" ⟨3, 0⟩ ⟨0, 0⟩) [copyFrom 3] [.return none]]]]

theorem testsInElse_keeps : SwitchesKeepExecution testsInElse :=
  recoverSwitch_keeps (by decide)

def loadConst (reg : Nat) : Stmt :=
  .assign (VarId.display ⟨reg, 0⟩)
    ⟨"LoadConstUInt8", some ⟨reg, 0⟩, [.dstPlaceholder, .const reg], ⟨0, 3, "LoadConstUInt8", []⟩⟩ none

/-- `if (r1_0 === r0_0) …` with two more tests behind it. -/
def testsInSequence : List Stmt :=
  [.ifElse (.compare "===" ⟨1, 0⟩ ⟨0, 0⟩) [copyFrom 1] [], loadConst 2,
    .ifElse (.compare "===" ⟨2, 0⟩ ⟨0, 0⟩) [copyFrom 2] [], loadConst 3,
    .ifElse (.compare "===" ⟨3, 0⟩ ⟨0, 0⟩) [copyFrom 3] []]

/-- Where all tests hold, three bodies run, but one case. -/
theorem testsInSequence_loses_bodies : ¬ SwitchesKeepExecution testsInSequence := by
  intro hkeeps
  have htrace := congrArg (fun r => r.trace.length) (hkeeps _ _ undefinedMachine 0 ())
  have hswitch : (runList undefinedMachine 0 none (recoverSwitch testsInSequence) ()).trace.length = 3 := by
    decide
  have htests : (runList undefinedMachine 0 none testsInSequence ()).trace.length = 5 := by
    decide
  rw [hswitch, htests] at htrace
  cases htrace

end Hermes.Structure
