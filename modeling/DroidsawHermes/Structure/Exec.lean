-- SUMMARY: Execution of structured statements: the leaf statements they run and how they end.
import DroidsawHermes.Lib.Control
import DroidsawHermes.Structure.Conditions

/-!
# Execution

What the printed statements do, over any meaning of values and of leaf statements.
-/

namespace Hermes.Structure

open Decompile Control

/-! ## Machines -/

/-- The meaning of values, leaf statements and loop keys. -/
structure Machine (Value σ : Type) where
  js : Js Value
  value : σ → VarId → Value
  /-- The value of a case label. -/
  label : σ → String → Value
  label_display : ∀ s v, label s v.display = value s v
  /-- The state after a leaf statement, and what it throws. -/
  leaf : Stmt → σ → σ × Option Value
  /-- The state in which a catch variable has the value. -/
  catchVar : String → Value → σ → σ
  /-- The keys of an object, in the order of enumeration. -/
  keys : σ → VarId → List Value
  setKey : VarId → Value → σ → σ

variable {Value σ : Type} (m : Machine Value σ)

abbrev StmtRun (Value σ : Type) := Control.Run Stmt Value String σ

namespace Machine

def holds (s : σ) (cond : Condition) : Bool := m.js.holds (m.value s) cond

def runLeaf (stmt : Stmt) (s : σ) : StmtRun Value σ :=
  match m.leaf stmt s with
  | (s', none) => ⟨[stmt], s', .normal⟩
  | (s', some v) => ⟨[stmt], s', .thrown v⟩

end Machine

/-- Every variable is `undefined`, and nothing is thrown. -/
def undefinedMachine : Machine (Option Int) Unit where
  js := intJs
  value _ _ := none
  label _ _ := none
  label_display _ _ := rfl
  leaf _ s := (s, none)
  catchVar _ _ s := s
  keys _ _ := []
  setKey _ _ s := s

/-! ## Statements -/

/-- A label goes to the loop that is all of its body. -/
def loopLabel (label : String) : List Stmt → Option String
  | [.while _ _] | [.forIn _ _ _] => some label
  | _ => none

mutual

/-- A statement, with the label in front of it. Loops run at most `fuel` times. -/
def Stmt.run (fuel : Nat) (label : Option String) : Stmt → σ → StmtRun Value σ
  | .return v, s => .stop (.returned (v.map (m.value s))) s
  | .throw v, s => .stop (.thrown (m.value s v)) s
  | .ifElse cond thenBody elseBody, s =>
    if m.holds s cond then runList fuel none thenBody s else runList fuel none elseBody s
  | .while cond body, s =>
    .whileLoop label (fun s => cond.all (m.holds s)) (fun s => runList fuel none body s) fuel s
  | .forIn key obj body, s =>
    .forLoop label (m.setKey key) (fun s => runList fuel none body s) (m.keys s obj) s
  | .switch discriminant cases default, s =>
    -- A case that ends normally leaves the switch, by the `break` that is printed after it.
    ((runCases fuel (m.value s discriminant) cases s).getD (runList fuel none default s)).leave
  | .tryCatch tryBody catchVar catchBody, s =>
    (runList fuel none tryBody s).handle fun v s =>
      runList fuel none catchBody (m.catchVar catchVar v s)
  | .labeled label body, s => (runList fuel (loopLabel label body) body s).leaveLabel label
  | .break label, s => .stop (.broke label) s
  | .continue label, s => .stop (.continued label) s
  | stmt, s => m.runLeaf stmt s

def runList (fuel : Nat) (label : Option String) : List Stmt → σ → StmtRun Value σ
  | [], s => .stop .normal s
  | stmt :: rest, s => (stmt.run fuel label s).seq fun s => runList fuel none rest s

/-- The first case with the value. -/
def runCases (fuel : Nat) (value : Value) :
    List (String × List Stmt) → σ → Option (StmtRun Value σ)
  | [], _ => none
  | (label, body) :: rest, s =>
    if m.js.strictEq (m.label s label) value then some (runList fuel none body s)
    else runCases fuel value rest s

end

section Lists

variable (fuel : Nat)

@[simp] theorem runList_nil (label : Option String) (s : σ) :
    runList m fuel label [] s = .stop .normal s := by
  rw [runList]

theorem runList_cons (label : Option String) (stmt : Stmt) (rest : List Stmt) (s : σ) :
    runList m fuel label (stmt :: rest) s =
      (stmt.run m fuel label s).seq (runList m fuel none rest) := by
  rw [runList]

theorem runList_singleton (label : Option String) (stmt : Stmt) :
    runList m fuel label [stmt] = stmt.run m fuel label := by
  funext s
  rw [runList_cons]
  have hnil : runList m fuel none [] = .stop .normal := by
    funext s
    exact runList_nil m fuel none s
  rw [hnil, Control.Run.seq_stop_normal]

theorem runList_append (stmts rest : List Stmt) (s : σ) :
    runList m fuel none (stmts ++ rest) s =
      (runList m fuel none stmts s).seq (runList m fuel none rest) := by
  induction stmts generalizing s with
  | nil => rw [List.nil_append, runList_nil, Control.Run.stop_normal_seq]
  | cons stmt stmts ih =>
    rw [List.cons_append, runList_cons, runList_cons, Control.Run.seq_assoc]
    congr 1
    funext s
    exact ih s

/-! ## Exits -/

def isExit : Stmt → Bool
  | .return _ | .throw _ => true
  | _ => false

theorem run_isExit {stmt : Stmt} (h : isExit stmt = true) (label : Option String) (s : σ) :
    (stmt.run m fuel label s).outcome ≠ .normal := by
  cases stmt <;> first | (simp [Stmt.run, Control.Run.stop]; done) | cases h

/-- Nothing runs after an exit. -/
theorem seq_of_isExit {stmt : Stmt} (h : isExit stmt = true) (label : Option String) (s : σ)
    (k : σ → StmtRun Value σ) : (stmt.run m fuel label s).seq k = stmt.run m fuel label s :=
  Control.Run.seq_of_ne (run_isExit m fuel h label s) k

end Lists

end Hermes.Structure
