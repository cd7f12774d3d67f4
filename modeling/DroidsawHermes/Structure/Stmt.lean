-- SUMMARY: Structured statements, with their nested bodies and what each statement itself reads and writes.
import DroidsawHermes.Decompile.Ssa

/-!
# Structured statements

The tree that `decompile/structure.rs` makes of a function and the sugar passes
rewrite.
-/

namespace Hermes.Structure

open Decompile

/-! ## Data -/

/-- A branch condition. -/
inductive Condition where
  | truthy (v : VarId)
  | falsy (v : VarId)
  | compare (op : String) (left right : VarId)
  | isUndefined (v : VarId)
  | notUndefined (v : VarId)
  deriving DecidableEq, Repr

/-- A property name, or the name of the variable that holds the key. -/
inductive DestructureKey where
  | static (name : String)
  | computed (var : String)
  deriving DecidableEq, Repr

/-- The keys of a destructuring pattern, outermost first. -/
inductive DestructurePath where
  | leaf (key : DestructureKey)
  | nested (key : DestructureKey) (inner : DestructurePath)
  deriving DecidableEq, Repr

structure StaticField where
  name : String
  value : String
  isPrivate : Bool
  deriving DecidableEq, Repr

inductive Stmt where
  | assign (dst : String) (op : SsaOp) (blockId : Option BlockId)
  | op (op : SsaOp)
  | return (v : Option VarId)
  | throw (v : VarId)
  | ifElse (cond : Condition) (thenBody elseBody : List Stmt)
  /-- Without a condition, `while (true)`. -/
  | while (cond : Option Condition) (body : List Stmt)
  | forIn (key obj : VarId) (body : List Stmt)
  | switch (discriminant : VarId) (cases : List (String × List Stmt)) (default : List Stmt)
  | tryCatch (tryBody : List Stmt) (catchVar : String) (catchBody : List Stmt)
  /-- Pairs of a property and the variable it goes to. -/
  | destructure (object : String) (bindings : List (String × String))
  | destructureWithDefault (object targetReceiver target default : String)
      (path : DestructurePath)
  /-- Pairs of a method name and the variable of its closure. -/
  | class (name : String) (parent : Option String) (methods : List (String × String))
      (staticFields : List StaticField)
  | import (name source : String)
  | exportNamed (name value : String)
  | exportDefault (value : String)
  | phiAssign (dst src : String)
  | labeled (label : String) (body : List Stmt)
  | break (label : Option String)
  | continue (label : Option String)
  | comment (text : String)

/-! ## Bodies -/

mutual

/-- A statement and the statements inside it. -/
def Stmt.all : Stmt → List Stmt
  | .ifElse cond thenBody elseBody =>
    .ifElse cond thenBody elseBody :: (allOf thenBody ++ allOf elseBody)
  | .while cond body => .while cond body :: allOf body
  | .forIn key obj body => .forIn key obj body :: allOf body
  | .switch discriminant cases default =>
    .switch discriminant cases default :: (allOfCases cases ++ allOf default)
  | .tryCatch tryBody catchVar catchBody =>
    .tryCatch tryBody catchVar catchBody :: (allOf tryBody ++ allOf catchBody)
  | .labeled label body => .labeled label body :: allOf body
  | s => [s]

/-- All statements of a list, nested ones included. -/
def allOf : List Stmt → List Stmt
  | [] => []
  | s :: rest => s.all ++ allOf rest

def allOfCases : List (String × List Stmt) → List Stmt
  | [] => []
  | (_, body) :: rest => allOf body ++ allOfCases rest

end

mutual

/-- How many levels of bodies a statement has. -/
def Stmt.depth : Stmt → Nat
  | .ifElse _ thenBody elseBody => max (depthOf thenBody) (depthOf elseBody) + 1
  | .while _ body => depthOf body + 1
  | .forIn _ _ body => depthOf body + 1
  | .switch _ cases default => max (depthOfCases cases) (depthOf default) + 1
  | .tryCatch tryBody _ catchBody => max (depthOf tryBody) (depthOf catchBody) + 1
  | .labeled _ body => depthOf body + 1
  | _ => 0

/-- The nesting depth of a list. -/
def depthOf : List Stmt → Nat
  | [] => 0
  | s :: rest => max s.depth (depthOf rest)

def depthOfCases : List (String × List Stmt) → Nat
  | [] => 0
  | (_, body) :: rest => max (depthOf body) (depthOfCases rest)

end

end Hermes.Structure
