-- SUMMARY: The dispatcher loop for blocks without a structure, and when it visits the blocks that the control flow graph does.
import DroidsawHermes.Decompile.PhiCopies
import DroidsawHermes.Lib.Driven
import DroidsawHermes.Structure.BranchPolarity
import DroidsawHermes.Structure.Exec

/-!
# The dispatcher

`emit_dispatcher` of `decompile/structure.rs` makes a case of each block and a loop around
them. The loop is run beside the control flow graph: it goes wrong at an edge that leaves the
set of blocks, and at every block that it finds no transition for.
-/

namespace Hermes.Structure

open Decompile Control

/-! ## The source -/

/-- What the dispatcher is made from. -/
structure DispatchRegion where
  /-- The blocks with a case, in this order. -/
  blockOrder : List BlockId
  blockMap : BlockId → Option SsaBlock
  phiCopies : PhiCopies
  /-- `all_succs`, with the empty list for an absent key. -/
  allSuccs : BlockId → List BlockId
  /-- The edges between these blocks get a transition. -/
  orderSet : List BlockId

/-- The statement of a block as a structured statement. -/
def blockStmt : Decompile.Stmt → Stmt
  | .assign dst op blockId => .assign dst op blockId
  | .op op => .op op
  | .phiAssign dst src => .phiAssign dst src

/-- `VarId(u32::MAX, u32::MAX)`, the discriminant of the dispatcher's switch. -/
def stateSentinel : VarId := ⟨4294967295, 4294967295⟩

def dispatchLabel (depth : Nat) : String := "__dispatch_" ++ toString depth

def stateVar (depth : Nat) : String := "__state_" ++ toString depth

namespace DispatchRegion

variable (g : DispatchRegion) (depth : Nat)

/-- The case of a block, the last one where the order names it twice. -/
def blockToCase (b : BlockId) : Option Nat :=
  (g.blockOrder.zipIdx.reverse.find? fun e => e.1 = b).map Prod.snd

/-- The transition to a case. -/
def goTo (k : Nat) : List Stmt :=
  [.comment (stateVar depth ++ " = " ++ toString k), .continue (some (dispatchLabel depth))]

def branchArm (target : Option BlockId) : List Stmt :=
  match target.bind g.blockToCase with
  | some k => goTo depth k
  | none => [.break (some (dispatchLabel depth))]

/-- The successors in the set. -/
def succsIn (bid : BlockId) : List BlockId := (g.allSuccs bid).filter (· ∈ g.orderSet)

/-- A branch on a condition with the arms by the polarity of the jump. -/
def branch (last : SsaOp) (cond : Condition) (succs : List BlockId) : List Stmt :=
  let target := last.original.branchTarget
  let other := succs.find? fun s => some s ≠ target
  if isNegatedJump last.name then
    [.ifElse (negateCondition cond) (g.branchArm depth other) (g.branchArm depth target)]
  else [.ifElse cond (g.branchArm depth target) (g.branchArm depth other)]

/-- What follows the operations of a block that neither returns nor throws. -/
def routing (bid : BlockId) (block : SsaBlock) (last : SsaOp) : List Stmt :=
  match g.succsIn bid with
  | [] => []
  | [s] =>
    match g.blockToCase s with
    | some k => goTo depth k
    | none => []
  | succs =>
    if last.original.isConditionalBranch then
      match extractCondition block with
      | some cond => g.branch depth last cond succs
      | none => []
    else []

def terminator (bid : BlockId) (block : SsaBlock) (last : SsaOp) : List Stmt :=
  if last.name = "Ret" then [.return (last.operands.head?.bind SsaOperand.var?)]
  else if last.name = "Throw" then
    match last.operands.head?.bind SsaOperand.var? with
    | some v => [.throw v]
    | none => []
  else g.routing depth bid block last

/-- The operations of a block without its terminator. -/
def blockOps (bid : BlockId) : List Stmt :=
  ((g.blockMap bid).map fun block => (emitBlockOps block g.phiCopies).map blockStmt).getD []

def caseBody (bid : BlockId) : List Stmt :=
  g.blockOps bid ++
    match g.blockMap bid with
    | none => []
    | some block =>
      match block.ops.getLast? with
      | none => []
      | some last => g.terminator depth bid block last

def dispatchCases : List (String × List Stmt) :=
  g.blockOrder.zipIdx.map fun e => (toString e.2, g.caseBody depth e.1)

def emitDispatcher : List Stmt :=
  if g.blockOrder = [] then []
  else
    [
      .comment ("var " ++ stateVar depth ++ " = 0"),
      .labeled (dispatchLabel depth)
        [.while none
          [.switch stateSentinel (g.dispatchCases depth) [.break (some (dispatchLabel depth))]]]]

end DispatchRegion

/-! ## Readings -/

/-- What the conditions of one visit to a block are: a condition and its negation are read as
opposites. -/
structure Reading where
  holds : Condition → Bool
  negates : ∀ c, negateCondition c ≠ c → holds (negateCondition c) = !holds c
  /-- A jump without a condition is taken. -/
  unread : Bool
  /-- The successor of a block that chooses among several. -/
  pick : Nat

/-- The polarity of a condition. -/
def Condition.positive : Condition → Bool
  | .truthy _ | .isUndefined _ => true
  | .falsy _ | .notUndefined _ => false
  | .compare op _ _ => ["===", "==", "<", ">"].contains op

theorem positive_negateCondition {c : Condition} (h : negateCondition c ≠ c) :
    (negateCondition c).positive = !c.positive := by
  cases c with
  | compare op l r =>
    have hop : negatedOp op ≠ op := by
      rintro heq
      exact h (by rw [negateCondition, heq])
    unfold negatedOp at hop
    simp only [negateCondition, Condition.positive, negatedOp]
    split at hop <;> first | decide | exact absurd rfl hop
  | _ => rfl

/-- Conditions are read by their polarity, or all the other way. -/
def Reading.polar (flip unread : Bool) (pick : Nat) : Reading where
  holds c := c.positive ^^ flip
  negates c h := by
    rw [positive_negateCondition h]
    cases c.positive <;> cases flip <;> rfl
  unread := unread
  pick := pick

instance : Nonempty Reading := ⟨.polar false false 0⟩

/-- The jump of a block is taken. -/
def Reading.jumps (r : Reading) (block : SsaBlock) : Bool :=
  ((extractCondition block).map r.holds).getD r.unread

/-- Every jump can be taken and not, and every successor can be picked. -/
theorem Reading.exists_jumps (block : SsaBlock) (taken : Bool) (pick : Nat) :
    ∃ r : Reading, r.jumps block = taken ∧ r.pick = pick := by
  cases hcond : extractCondition block with
  | none => exact ⟨.polar false taken pick, by simp [jumps, hcond, polar], rfl⟩
  | some c =>
    refine ⟨.polar (c.positive ^^ taken) taken pick, ?_, rfl⟩
    simp only [jumps, hcond, polar, Option.map_some, Option.getD_some]
    cases c.positive <;> cases taken <;> rfl

/-! ## The control flow graph -/

/-- How control leaves the blocks. -/
inductive RegionExit where
  | returned (v : Option VarId)
  | thrown (v : Option VarId)
  | left (target : BlockId)
  | stuck
  deriving DecidableEq, Repr

namespace DispatchRegion

variable (g : DispatchRegion)

/-- Where a conditional jump goes when it is not taken. -/
def passes (bid : BlockId) (last : SsaOp) : Option BlockId :=
  let target := last.original.branchTarget
  ((g.allSuccs bid).find? fun s => some s ≠ target).or target

/-- The successor that a block chooses. -/
def picks (r : Reading) (bid : BlockId) : Option BlockId :=
  (g.allSuccs bid)[r.pick % (g.allSuccs bid).length]?

/-- The successor of a block that neither returns nor throws. -/
def nextBlock (r : Reading) (bid : BlockId) (block : SsaBlock) : Option BlockId :=
  match block.ops.getLast? with
  | none => g.picks r bid
  | some last =>
    if last.original.isConditionalBranch then
      if r.jumps block then last.original.branchTarget else g.passes bid last
    else g.picks r bid

/-- Control follows an edge. -/
def follow : Option BlockId → BlockId ⊕ RegionExit
  | some t => if t ∈ g.orderSet then .inl t else .inr (.left t)
  | none => .inr .stuck

/-- What comes after a block. -/
def step (r : Reading) (bid : BlockId) : BlockId ⊕ RegionExit :=
  match g.blockMap bid with
  | none => .inr .stuck
  | some block =>
    match block.ops.getLast? with
    | none => g.follow (g.nextBlock r bid block)
    | some last =>
      if last.name = "Ret" then .inr (.returned (last.operands.head?.bind SsaOperand.var?))
      else if last.name = "Throw" then .inr (.thrown (last.operands.head?.bind SsaOperand.var?))
      else g.follow (g.nextBlock r bid block)

end DispatchRegion

/-! ## Runs of the loop -/

/-- A visit to a block begins, or a statement of it runs. -/
inductive DispatchEvent where
  | enter (block : Option BlockId)
  | leaf (stmt : Stmt)

/-- The state variable, and the readings of the visits to come. -/
structure DispatchState where
  case : Nat
  readings : List Reading

abbrev DispatchRun := Control.Run DispatchEvent VarId String DispatchState

def DispatchState.holds (s : DispatchState) (cond : Condition) : Bool :=
  (s.readings.head?.map fun r => r.holds cond).getD false

namespace DispatchRegion

variable (g : DispatchRegion) (depth : Nat)

/-- The assignment that a comment stands for. -/
def assigned (text : String) : Option Nat :=
  (List.range g.blockOrder.length).find? fun k =>
    text = stateVar depth ++ " = " ++ toString k ∨
      text = "var " ++ stateVar depth ++ " = " ++ toString k

end DispatchRegion

section Dispatch

variable (g : DispatchRegion) (depth fuel : Nat)

mutual

/-- A statement of the loop, with the label in front of it. A visit ends with its case. -/
def Stmt.dispatch (label : Option String) : Stmt → DispatchState → DispatchRun
  | .comment text, s => .stop .normal { s with case := (g.assigned depth text).getD s.case }
  | .return v, s => .stop (.returned v) s
  | .throw v, s => .stop (.thrown v) s
  | .ifElse cond thenBody elseBody, s =>
    if s.holds cond then dispatchList none thenBody s else dispatchList none elseBody s
  | .while cond body, s =>
    .whileLoop label (fun s => cond.all s.holds) (fun s => dispatchList none body s) fuel s
  | .switch discriminant cases default, s =>
    if discriminant = stateSentinel then
      ((dispatchCase cases s).getD (dispatchList none default s)).leave
    else ⟨[.leaf (.switch discriminant cases default)], s, .normal⟩
  | .labeled label body, s => (dispatchList (loopLabel label body) body s).leaveLabel label
  | .break label, s => .stop (.broke label) s
  | .continue label, s => .stop (.continued label) s
  | stmt, s => ⟨[.leaf stmt], s, .normal⟩

def dispatchList (label : Option String) : List Stmt → DispatchState → DispatchRun
  | [], s => .stop .normal s
  | stmt :: rest, s => (stmt.dispatch label s).seq fun s => dispatchList none rest s

/-- The first case with the number. -/
def dispatchCase : List (String × List Stmt) → DispatchState → Option DispatchRun
  | [], _ => none
  | (label, body) :: rest, s =>
    if label = toString s.case then
      let r := dispatchList none body s
      some ⟨.enter g.blockOrder[s.case]? :: r.trace,
        { r.state with readings := r.state.readings.tail }, r.outcome⟩
    else dispatchCase rest s

end

end Dispatch

/-- How the loop ends, where its end leads to a block. -/
def exitOf (after : BlockId) : Outcome VarId String → Option RegionExit
  | .outOfFuel => none
  | .normal => some (.left after)
  | .returned v => some (.returned v)
  | .thrown v => some (.thrown (some v))
  | _ => some .stuck

namespace DispatchRegion

variable (g : DispatchRegion)

/-- The loop runs while the readings last. -/
def runLoop (depth : Nat) (after : BlockId) (readings : List Reading) :
    List DispatchEvent × Option RegionExit :=
  let r := dispatchList g depth readings.length none (g.emitDispatcher depth)
    ⟨g.blockOrder.length, readings⟩
  (r.trace, exitOf after r.outcome)

/-- A visit to a block. -/
def visit (bid : BlockId) : List DispatchEvent :=
  .enter (some bid) :: (g.blockOps bid).map .leaf

/-- The control flow graph from the entry block. -/
def runGraph (entry : BlockId) (readings : List Reading) :
    List DispatchEvent × Option RegionExit :=
  let r := Driven.run g.step readings entry
  (r.1.flatMap g.visit, r.2)

/-- The loop, with the code of the block `after` behind it, does what the graph does from the
entry block. -/
def Simulates (depth : Nat) (entry after : BlockId) : Prop :=
  ∀ readings, g.runLoop depth after readings = g.runGraph entry readings

end DispatchRegion

/-! ## The loop as steps between blocks -/

namespace DispatchRegion

variable (g : DispatchRegion) {depth : Nat}

/-- The next block by an arm of a branch. -/
def armNext (after : BlockId) : Option BlockId → BlockId ⊕ RegionExit
  | some t => if t ∈ g.blockOrder then .inl t else .inr (.left after)
  | none => .inr (.left after)

/-- The next block of the loop. A case without a transition runs again. -/
def loopStep (after : BlockId) (r : Reading) (bid : BlockId) : BlockId ⊕ RegionExit :=
  match g.blockMap bid with
  | none => .inl bid
  | some block =>
    match block.ops.getLast? with
    | none => .inl bid
    | some last =>
      if last.name = "Ret" then .inr (.returned (last.operands.head?.bind SsaOperand.var?))
      else if last.name = "Throw" then
        match last.operands.head?.bind SsaOperand.var? with
        | some v => .inr (.thrown (some v))
        | none => .inl bid
      else
        match g.succsIn bid with
        | [] => .inl bid
        | [s] => if s ∈ g.blockOrder then .inl s else .inl bid
        | succs =>
          if last.original.isConditionalBranch then
            match extractCondition block with
            | some cond =>
              let target := last.original.branchTarget
              let other := succs.find? fun s => some s ≠ target
              if isNegatedJump last.name then
                if r.holds (negateCondition cond) then g.armNext after other
                else g.armNext after target
              else if r.holds cond then g.armNext after target
              else g.armNext after other
            | none => .inl bid
          else .inl bid

/-! ### Cases and states -/

variable {g}

theorem getElem?_of_blockToCase {b : BlockId} {k : Nat} (h : g.blockToCase b = some k) :
    g.blockOrder[k]? = some b := by
  simp only [blockToCase, Option.map_eq_some_iff] at h
  obtain ⟨⟨b', k'⟩, hfind, rfl⟩ := h
  have hmem := List.mem_reverse.mp (List.mem_of_find?_eq_some hfind)
  have heq := List.find?_some hfind
  simp only [decide_eq_true_eq] at heq
  subst heq
  exact List.mem_zipIdx_iff_getElem?.mp hmem

theorem blockToCase_eq_none {b : BlockId} : g.blockToCase b = none ↔ b ∉ g.blockOrder := by
  rw [blockToCase, Option.map_eq_none_iff, List.find?_eq_none]
  constructor
  · intro h hb
    obtain ⟨k, hk⟩ := List.mem_iff_getElem?.mp hb
    have hmem : (b, k) ∈ g.blockOrder.zipIdx.reverse :=
      List.mem_reverse.mpr (List.mem_zipIdx_iff_getElem?.mpr hk)
    simpa using h _ hmem
  · rintro h ⟨b', k⟩ hmem
    have hk := List.mem_zipIdx_iff_getElem?.mp (List.mem_reverse.mp hmem)
    have hb' := List.mem_of_getElem? hk
    simp only [decide_eq_true_eq]
    rintro rfl
    exact h hb'

theorem exists_blockToCase {b : BlockId} (h : b ∈ g.blockOrder) :
    ∃ k, g.blockToCase b = some k ∧ g.blockOrder[k]? = some b := by
  cases hk : g.blockToCase b with
  | none => exact absurd h (blockToCase_eq_none.mp hk)
  | some k => exact ⟨k, rfl, getElem?_of_blockToCase hk⟩

/-- The two forms of an assignment differ in their first character. -/
theorem var_ne_assignment (k k' : Nat) : "var " ++ stateVar depth ++ " = " ++ toString k ≠
    stateVar depth ++ " = " ++ toString k' := by
  intro h
  have hchars := congrArg (fun s => s.toList.head?) h
  simp [stateVar] at hchars

/-- The text of an assignment names its state. -/
theorem assigned_eq {text : String} {k : Nat} (hk : k < g.blockOrder.length)
    (htext : text = stateVar depth ++ " = " ++ toString k ∨
      text = "var " ++ stateVar depth ++ " = " ++ toString k) :
    g.assigned depth text = some k := by
  cases hfind : g.assigned depth text with
  | none =>
    have hnone := List.find?_eq_none.mp hfind k (List.mem_range.mpr hk)
    simp only [decide_eq_true_eq] at hnone
    exact absurd htext hnone
  | some k' =>
    have htext' := List.find?_some hfind
    simp only [decide_eq_true_eq] at htext'
    have hsame : toString k' = toString k := by
      rcases htext with rfl | rfl <;> rcases htext' with h | h
      · exact (String.append_right_inj _).mp h.symm
      · exact absurd h.symm (var_ne_assignment k' k)
      · exact absurd h (var_ne_assignment k k')
      · exact (String.append_right_inj _).mp h.symm
    rw [Nat.repr_injective hsame]

/-! ### The statements of a case -/

section Cases

variable {fuel : Nat}

theorem dispatchList_append (stmts rest : List Stmt) (s : DispatchState) :
    dispatchList g depth fuel none (stmts ++ rest) s =
      (dispatchList g depth fuel none stmts s).seq (dispatchList g depth fuel none rest) := by
  induction stmts generalizing s with
  | nil => rw [List.nil_append, dispatchList, Control.Run.stop_normal_seq]
  | cons stmt stmts ih =>
    rw [List.cons_append, dispatchList, dispatchList, Control.Run.seq_assoc]
    congr 1
    funext s
    exact ih s

theorem dispatchList_singleton (label : Option String) (stmt : Stmt) (s : DispatchState) :
    dispatchList g depth fuel label [stmt] s = stmt.dispatch g depth fuel label s := by
  have hnil : dispatchList g depth fuel none [] = .stop .normal := by
    funext s
    rw [dispatchList]
  rw [dispatchList, hnil, Control.Run.seq_stop_normal]

/-- The operations of a block run and change nothing of the loop. -/
theorem dispatchList_leaves (stmts : List Decompile.Stmt) (s : DispatchState) :
    dispatchList g depth fuel none (stmts.map blockStmt) s =
      ⟨(stmts.map blockStmt).map .leaf, s, .normal⟩ := by
  induction stmts with
  | nil => rw [List.map_nil, dispatchList]; rfl
  | cons stmt stmts ih =>
    have hstmt : (blockStmt stmt).dispatch g depth fuel none s =
        ⟨[.leaf (blockStmt stmt)], s, .normal⟩ := by
      cases stmt <;> simp [blockStmt, Stmt.dispatch]
    rw [List.map_cons, dispatchList, hstmt, Control.Run.seq_of_eq rfl, Control.Run.andThen, ih]
    rfl

theorem dispatchList_blockOps (bid : BlockId) (s : DispatchState) :
    dispatchList g depth fuel none (g.blockOps bid) s =
      ⟨(g.blockOps bid).map .leaf, s, .normal⟩ := by
  unfold blockOps
  cases g.blockMap bid with
  | none => exact dispatchList_leaves [] s
  | some block => exact dispatchList_leaves _ s

/-- The end of a case, by what the loop does next: its state has the next block. -/
def Ends (g : DispatchRegion) (depth : Nat) (after : BlockId) (readings : List Reading)
    (r : DispatchRun) : BlockId ⊕ RegionExit → Prop
  | .inl t => r.trace = [] ∧ (∃ k, r.state = ⟨k, readings⟩ ∧ g.blockOrder[k]? = some t) ∧
      (r.outcome = .normal ∨ r.outcome = .continued (some (dispatchLabel depth)))
  | .inr (.left t) =>
    r.trace = [] ∧ t = after ∧ r.outcome = .broke (some (dispatchLabel depth))
  | .inr (.returned v) => r.trace = [] ∧ r.outcome = .returned v
  | .inr (.thrown (some v)) => r.trace = [] ∧ r.outcome = .thrown v
  | .inr _ => False

theorem Ends.trace_eq_nil {after : BlockId} {readings : List Reading} {r : DispatchRun}
    {next : BlockId ⊕ RegionExit} (h : g.Ends depth after readings r next) : r.trace = [] := by
  match next, h with
  | .inl _, h => exact h.1
  | .inr (.left _), h => exact h.1
  | .inr (.returned _), h => exact h.1
  | .inr (.thrown (some _)), h => exact h.1

theorem ends_goTo {t : BlockId} {k : Nat} (after : BlockId) (hk : g.blockOrder[k]? = some t)
    (s : DispatchState) :
    g.Ends depth after s.readings (dispatchList g depth fuel none (goTo depth k) s) (.inl t) := by
  have hlt : k < g.blockOrder.length := (List.getElem?_eq_some_iff.mp hk).1
  have hassigned : g.assigned depth (stateVar depth ++ " = " ++ toString k) = some k :=
    assigned_eq hlt (Or.inl rfl)
  simp only [goTo, dispatchList, Stmt.dispatch, hassigned, Option.getD_some,
    Control.Run.stop_normal_seq]
  exact ⟨rfl, ⟨k, rfl, hk⟩, Or.inr rfl⟩

/-- A case that runs to its end runs again. -/
theorem ends_again {k : Nat} {bid : BlockId} (after : BlockId) (hk : g.blockOrder[k]? = some bid)
    (readings : List Reading) :
    g.Ends depth after readings (dispatchList g depth fuel none [] ⟨k, readings⟩) (.inl bid) := by
  rw [dispatchList]
  exact ⟨rfl, ⟨k, rfl, hk⟩, Or.inl rfl⟩

theorem ends_branchArm (after : BlockId) (target : Option BlockId) (s : DispatchState) :
    g.Ends depth after s.readings
      (dispatchList g depth fuel none (g.branchArm depth target) s) (g.armNext after target) := by
  have hbreak : g.Ends depth after s.readings
      (dispatchList g depth fuel none [.break (some (dispatchLabel depth))] s)
      (.inr (.left after)) := by
    rw [dispatchList_singleton, Stmt.dispatch]
    exact ⟨rfl, rfl, rfl⟩
  cases target with
  | none => exact hbreak
  | some t =>
    by_cases ht : t ∈ g.blockOrder
    · obtain ⟨k, hcase, hk⟩ := exists_blockToCase ht
      simp only [branchArm, armNext, Option.bind_some, hcase, if_pos ht]
      exact ends_goTo after hk s
    · simp only [branchArm, armNext, Option.bind_some, blockToCase_eq_none.mpr ht, if_neg ht]
      exact hbreak

theorem ends_ifElse {k : Nat} (after : BlockId) (cond : Condition) (x y : Option BlockId)
    (r : Reading) (readings : List Reading) :
    g.Ends depth after (r :: readings)
      (dispatchList g depth fuel none [.ifElse cond (g.branchArm depth x) (g.branchArm depth y)]
        ⟨k, r :: readings⟩)
      (if r.holds cond then g.armNext after x else g.armNext after y) := by
  rw [dispatchList_singleton, Stmt.dispatch]
  have hholds : DispatchState.holds ⟨k, r :: readings⟩ cond = r.holds cond := rfl
  rw [hholds]
  cases r.holds cond with
  | true => exact ends_branchArm after x ⟨k, r :: readings⟩
  | false => exact ends_branchArm after y ⟨k, r :: readings⟩

theorem ends_branch {k : Nat} (after : BlockId) (last : SsaOp) (cond : Condition)
    (succs : List BlockId) (r : Reading) (readings : List Reading) :
    g.Ends depth after (r :: readings)
      (dispatchList g depth fuel none (g.branch depth last cond succs) ⟨k, r :: readings⟩)
      (if isNegatedJump last.name then
        if r.holds (negateCondition cond) then
          g.armNext after (succs.find? fun s => some s ≠ last.original.branchTarget)
        else g.armNext after last.original.branchTarget
      else if r.holds cond then g.armNext after last.original.branchTarget
      else g.armNext after (succs.find? fun s => some s ≠ last.original.branchTarget)) := by
  unfold branch
  split <;> exact ends_ifElse after _ _ _ r readings

/-- The statements behind the operations of a block take the step of the loop. -/
theorem ends_terminator {k : Nat} {bid : BlockId} {block : SsaBlock} {last : SsaOp}
    (after : BlockId) (hk : g.blockOrder[k]? = some bid) (hblock : g.blockMap bid = some block)
    (hlast : block.ops.getLast? = some last) (r : Reading) (readings : List Reading) :
    g.Ends depth after (r :: readings)
      (dispatchList g depth fuel none (g.terminator depth bid block last) ⟨k, r :: readings⟩)
      (g.loopStep after r bid) := by
  have hagain : g.Ends depth after (r :: readings)
      (dispatchList g depth fuel none [] ⟨k, r :: readings⟩) (.inl bid) :=
    ends_again after hk (r :: readings)
  simp only [terminator, loopStep, hblock, hlast]
  split
  · rw [dispatchList_singleton, Stmt.dispatch]
    exact ⟨rfl, rfl⟩
  split
  · cases last.operands.head?.bind SsaOperand.var? with
    | none => exact hagain
    | some v =>
      rw [dispatchList_singleton, Stmt.dispatch]
      exact ⟨rfl, rfl⟩
  unfold routing
  split
  · exact hagain
  · next s _ =>
    by_cases hs : s ∈ g.blockOrder
    · obtain ⟨k', hcase, hk'⟩ := exists_blockToCase hs
      simp only [hcase, if_pos hs]
      exact ends_goTo after hk' ⟨k, r :: readings⟩
    · simp only [blockToCase_eq_none.mpr hs, if_neg hs]
      exact hagain
  · split
    · split
      · exact ends_branch after last _ _ r readings
      · exact hagain
    · exact hagain

variable (depth fuel) in
/-- A case runs the operations of its block and takes the step of the loop. -/
theorem ends_caseBody {k : Nat} {bid : BlockId} (after : BlockId)
    (hk : g.blockOrder[k]? = some bid) (r : Reading) (readings : List Reading) :
    ∃ e, dispatchList g depth fuel none (g.caseBody depth bid) ⟨k, r :: readings⟩ =
        ⟨(g.blockOps bid).map .leaf, e.state, e.outcome⟩ ∧
      g.Ends depth after (r :: readings) e (g.loopStep after r bid) := by
  have hends : g.Ends depth after (r :: readings)
      (dispatchList g depth fuel none
        (match g.blockMap bid with
          | none => []
          | some block =>
            match block.ops.getLast? with
            | none => []
            | some last => g.terminator depth bid block last) ⟨k, r :: readings⟩)
      (g.loopStep after r bid) := by
    cases hblock : g.blockMap bid with
    | none =>
      simp only [loopStep, hblock]
      exact ends_again after hk (r :: readings)
    | some block =>
      cases hlast : block.ops.getLast? with
      | none =>
        simp only [loopStep, hblock, hlast]
        exact ends_again after hk (r :: readings)
      | some last =>
        simp only [hlast]
        exact ends_terminator after hk hblock hlast r readings
  refine ⟨_, ?_, hends⟩
  rw [caseBody, dispatchList_append, dispatchList_blockOps, Control.Run.seq_of_eq rfl,
    Control.Run.andThen]
  simp only [hends.trace_eq_nil, List.append_nil]

/-- The switch runs the case of the state. -/
theorem dispatchCase_eq {blocks : List BlockId} {k : Nat} {bid : BlockId}
    (hk : blocks[k]? = some bid) (j : Nat) {s : DispatchState} (hs : s.case = j + k) :
    dispatchCase g depth fuel
        ((blocks.zipIdx j).map fun e => (toString e.2, g.caseBody depth e.1)) s =
      some ⟨.enter g.blockOrder[s.case]? ::
          (dispatchList g depth fuel none (g.caseBody depth bid) s).trace,
        { (dispatchList g depth fuel none (g.caseBody depth bid) s).state with
          readings := (dispatchList g depth fuel none (g.caseBody depth bid) s).state.readings.tail },
        (dispatchList g depth fuel none (g.caseBody depth bid) s).outcome⟩ := by
  induction blocks generalizing j k with
  | nil => simp at hk
  | cons b blocks ih =>
    rw [List.zipIdx_cons, List.map_cons, dispatchCase]
    cases k with
    | zero =>
      simp only [List.getElem?_cons_zero, Option.some.injEq] at hk
      subst hk
      rw [if_pos (by rw [hs]; rfl)]
    | succ k =>
      have hne : toString j ≠ toString s.case := by
        intro h
        have hcase := Nat.repr_injective h
        omega
      rw [if_neg hne]
      exact ih (by simpa using hk) (j + 1) (by omega)

variable (depth fuel) in
theorem dispatch_switch {k : Nat} {bid : BlockId} (after : BlockId)
    (hk : g.blockOrder[k]? = some bid) (r : Reading) (readings : List Reading) :
    ∃ e, dispatchList g depth fuel none
        [.switch stateSentinel (g.dispatchCases depth) [.break (some (dispatchLabel depth))]]
        ⟨k, r :: readings⟩ =
          Control.Run.leave ⟨g.visit bid, ⟨e.state.case, e.state.readings.tail⟩, e.outcome⟩ ∧
      g.Ends depth after (r :: readings) e (g.loopStep after r bid) := by
  obtain ⟨e, hbody, hends⟩ := ends_caseBody depth fuel after hk r readings
  refine ⟨e, ?_, hends⟩
  rw [dispatchList_singleton, Stmt.dispatch, if_pos rfl, dispatchCases,
    dispatchCase_eq hk 0 (Nat.zero_add k).symm, hbody, Option.getD_some, hk]
  rfl

variable (depth fuel) in
/-- The loop visits the blocks that its steps visit. -/
theorem whileLoop_dispatch (after : BlockId) (readings : List Reading) {k : Nat} {bid : BlockId}
    (hk : g.blockOrder[k]? = some bid) :
    let r := Control.Run.whileLoop (some (dispatchLabel depth))
      (fun _ => true)
      (fun s => dispatchList g depth fuel none
        [.switch stateSentinel (g.dispatchCases depth) [.break (some (dispatchLabel depth))]] s)
      readings.length ⟨k, readings⟩
    r.trace = (Driven.run (g.loopStep after) readings bid).1.flatMap g.visit ∧
      exitOf after (r.leaveLabel (dispatchLabel depth)).outcome =
        (Driven.run (g.loopStep after) readings bid).2 := by
  induction readings generalizing k bid with
  | nil => exact ⟨rfl, rfl⟩
  | cons r readings ih =>
    obtain ⟨e, hbody, hends⟩ := dispatch_switch depth fuel after hk r readings
    simp only [List.length_cons, Control.Run.whileLoop, if_true, hbody]
    cases hstep : g.loopStep after r bid with
    | inl t =>
      rw [hstep] at hends
      obtain ⟨-, ⟨k', hstate, hk'⟩, houtcome⟩ := hends
      obtain ⟨htrace, hexit⟩ := ih hk'
      rw [Driven.run_cons_next hstep, List.flatMap_cons]
      rcases houtcome with houtcome | houtcome <;>
        simp only [Control.Run.leave, houtcome, hstate, Control.Run.iterate, Control.Run.continues,
          decide_true, if_true, Control.Run.andThen, List.tail_cons, htrace, true_and, ← hexit] <;>
        refine congrArg (exitOf after) (Control.Run.outcome_leaveLabel_congr ?_ _) <;> rfl
    | inr exit =>
      rw [hstep] at hends
      rw [Driven.run_cons_end hstep, List.flatMap_singleton]
      cases exit with
      | left target =>
        obtain ⟨-, rfl, houtcome⟩ := hends
        simp [Control.Run.leave, houtcome, Control.Run.iterate, Control.Run.continues,
          Control.Run.leaveLabel, exitOf]
      | returned v =>
        obtain ⟨-, houtcome⟩ := hends
        simp [Control.Run.leave, houtcome, Control.Run.iterate, Control.Run.continues,
          Control.Run.leaveLabel, exitOf]
      | thrown v =>
        cases v with
        | none => exact hends.elim
        | some v =>
          obtain ⟨-, houtcome⟩ := hends
          simp [Control.Run.leave, houtcome, Control.Run.iterate, Control.Run.continues,
            Control.Run.leaveLabel, exitOf]
      | stuck => exact hends.elim

end Cases

/-- The loop starts with the first block and takes its steps from there. -/
theorem runLoop_eq {entry : BlockId} (hentry : g.blockOrder.head? = some entry) (after : BlockId)
    (readings : List Reading) :
    g.runLoop depth after readings =
      ((Driven.run (g.loopStep after) readings entry).1.flatMap g.visit,
        (Driven.run (g.loopStep after) readings entry).2) := by
  have hne : g.blockOrder ≠ [] := by
    intro h
    simp [h] at hentry
  have hlt : 0 < g.blockOrder.length := List.length_pos_iff.mpr hne
  have hk : g.blockOrder[0]? = some entry := by rw [← hentry, List.head?_eq_getElem?]
  obtain ⟨htrace, hexit⟩ := whileLoop_dispatch depth readings.length after readings hk
  have htext : "var " ++ stateVar depth ++ " = 0" =
      "var " ++ stateVar depth ++ " = " ++ toString 0 := by
    have hzero : " = 0" = " = " ++ toString 0 := rfl
    rw [hzero, ← String.append_assoc]
  have hassigned : g.assigned depth ("var " ++ stateVar depth ++ " = 0") = some 0 :=
    assigned_eq hlt (Or.inr htext)
  have hloop : (fun s : DispatchState => (none : Option Condition).all s.holds) = fun _ => true := by
    funext s
    rfl
  simp only [runLoop, emitDispatcher, if_neg hne]
  rw [dispatchList, Stmt.dispatch, hassigned, Control.Run.stop_normal_seq,
    dispatchList_singleton, Stmt.dispatch, dispatchList_singleton, Stmt.dispatch, hloop,
    Control.Run.trace_leaveLabel]
  exact Prod.ext htrace hexit

end DispatchRegion

/-! ## When the steps agree -/

namespace DispatchRegion

variable (g : DispatchRegion)

/-- The edges that readings can choose, by the last operation of a block. -/
def edges (bid : BlockId) : Option SsaOp → List (Option BlockId)
  | some last =>
    if last.original.isConditionalBranch then [last.original.branchTarget, g.passes bid last]
    else (g.allSuccs bid).map some
  | none => (g.allSuccs bid).map some

/-- All edges of a block go to `t`, in the set. -/
def OnlyEdge (bid : BlockId) (last : Option SsaOp) (t : BlockId) : Prop :=
  g.edges bid last ≠ [] ∧ ∀ e ∈ g.edges bid last, e = some t ∧ t ∈ g.orderSet

/-- An arm for `x` keeps an edge: it goes to the same block of the set, or it leaves the loop
where the edge goes to the block behind it. -/
def Kept (after : BlockId) (x edge : Option BlockId) : Prop :=
  (∃ t, edge = some t ∧ t ∈ g.orderSet ∧ x = some t ∧ t ∈ g.blockOrder) ∨
    edge = some after ∧ after ∉ g.orderSet ∧ ∀ t, x = some t → t ∉ g.blockOrder

/-- A branch with both arms: its condition can be negated if the jump is, and the arms keep the
edges. -/
structure BranchRight (after bid : BlockId) (last : SsaOp) (cond : Condition)
    (succs : List BlockId) : Prop where
  negatable : isNegatedJump last.name = true → negateCondition cond ≠ cond
  taken : g.Kept after last.original.branchTarget last.original.branchTarget
  passed : g.Kept after (succs.find? fun s => some s ≠ last.original.branchTarget)
    (g.passes bid last)

/-- The transitions of a block that neither returns nor throws. Without one, its case runs
again. -/
def RoutedRight (after bid : BlockId) (block : SsaBlock) (last : SsaOp) : Prop :=
  match g.succsIn bid with
  | [] => g.OnlyEdge bid (some last) bid
  | [s] => g.OnlyEdge bid (some last) (if s ∈ g.blockOrder then s else bid)
  | succs =>
    if last.original.isConditionalBranch then
      match extractCondition block with
      | some cond => g.BranchRight after bid last cond succs
      | none => g.OnlyEdge bid (some last) bid
    else g.OnlyEdge bid (some last) bid

/-- The dispatcher leaves a block as the graph does. -/
def StepsRight (after bid : BlockId) : Prop :=
  ∃ block, g.blockMap bid = some block ∧
    match block.ops.getLast? with
    | none => g.OnlyEdge bid none bid
    | some last =>
      if last.name = "Ret" then True
      else if last.name = "Throw" then ∃ v, last.operands.head?.bind SsaOperand.var? = some v
      else g.RoutedRight after bid block last

variable {g} {after bid : BlockId} {block : SsaBlock}

theorem forall_picks_iff (P : Option BlockId → Prop) :
    (∀ r, P (g.picks r bid)) ↔
      (g.allSuccs bid = [] → P none) ∧ ∀ t ∈ g.allSuccs bid, P (some t) := by
  constructor
  · intro h
    refine ⟨fun hnil => ?_, fun t ht => ?_⟩
    · have hpick := h (.polar false false 0)
      simpa [picks, hnil] using hpick
    · obtain ⟨k, hlt, hk⟩ := List.mem_iff_getElem.mp ht
      have hpick := h (.polar false false k)
      simpa [picks, Reading.polar, Nat.mod_eq_of_lt hlt, List.getElem?_eq_getElem hlt, hk] using hpick
  · rintro ⟨hnil, hmem⟩ r
    rw [picks]
    cases hpick : (g.allSuccs bid)[r.pick % (g.allSuccs bid).length]? with
    | some t => exact hmem t (List.mem_of_getElem? hpick)
    | none =>
      refine hnil (List.length_eq_zero_iff.mp ?_)
      by_contra hlength
      have hlt := Nat.mod_lt r.pick (Nat.pos_of_ne_zero hlength)
      rw [List.getElem?_eq_none_iff] at hpick
      omega

/-- Readings choose every edge. -/
theorem forall_nextBlock_iff (P : Option BlockId → Prop) :
    (∀ r, P (g.nextBlock r bid block)) ↔
      (g.edges bid block.ops.getLast? = [] → P none) ∧
        ∀ e ∈ g.edges bid block.ops.getLast?, P e := by
  have hpicks : (∀ r, P (g.picks r bid)) ↔
      ((g.allSuccs bid).map some = [] → P none) ∧ ∀ e ∈ (g.allSuccs bid).map some, P e := by
    rw [forall_picks_iff P]
    simp
  cases hlast : block.ops.getLast? with
  | none => simpa only [nextBlock, edges, hlast] using hpicks
  | some last =>
    simp only [nextBlock, edges, hlast]
    split
    · constructor
      · intro h
        obtain ⟨r, htaken, -⟩ := Reading.exists_jumps block true 0
        obtain ⟨r', hpassed, -⟩ := Reading.exists_jumps block false 0
        have hr := h r
        have hr' := h r'
        rw [htaken] at hr
        rw [hpassed] at hr'
        simp_all
      · rintro ⟨-, h⟩ r
        cases r.jumps block
        · exact h _ (by simp)
        · exact h _ (by simp)
    · exact hpicks

theorem follow_eq_inl {e : Option BlockId} {t : BlockId} :
    g.follow e = .inl t ↔ e = some t ∧ t ∈ g.orderSet := by
  cases e with
  | none => simp [follow]
  | some u =>
    simp only [follow, Option.some.injEq]
    split
    · next hu =>
      rw [Sum.inl.injEq]
      constructor
      · rintro rfl
        exact ⟨rfl, hu⟩
      · exact And.left
    · next hu =>
      simp only [reduceCtorEq, false_iff, not_and]
      rintro rfl
      exact hu

theorem forall_follow_iff (t : BlockId) :
    (∀ r, .inl t = g.follow (g.nextBlock r bid block)) ↔
      g.OnlyEdge bid block.ops.getLast? t := by
  rw [forall_nextBlock_iff fun e => Sum.inl t = g.follow e, OnlyEdge]
  simp only [eq_comm (a := Sum.inl t), follow_eq_inl, reduceCtorEq, false_and, imp_false, ne_eq]

theorem follow_eq_left {e : Option BlockId} {t : BlockId} :
    g.follow e = .inr (.left t) ↔ e = some t ∧ t ∉ g.orderSet := by
  cases e with
  | none => simp [follow]
  | some u =>
    simp only [follow, Option.some.injEq]
    split
    · next hu =>
      simp only [reduceCtorEq, false_iff, not_and, not_not]
      rintro rfl
      exact hu
    · next hu =>
      rw [Sum.inr.injEq, RegionExit.left.injEq]
      constructor
      · rintro rfl
        exact ⟨rfl, hu⟩
      · exact And.left

theorem armNext_of_mem {t : BlockId} (h : t ∈ g.blockOrder) :
    g.armNext after (some t) = .inl t := if_pos h

theorem armNext_of_not_mem {x : Option BlockId} (h : ∀ t, x = some t → t ∉ g.blockOrder) :
    g.armNext after x = .inr (.left after) := by
  cases x with
  | none => rfl
  | some t => exact if_neg (h t rfl)

theorem armNext_eq_follow {x e : Option BlockId} :
    g.armNext after x = g.follow e ↔ g.Kept after x e := by
  by_cases hx : ∃ t, x = some t ∧ t ∈ g.blockOrder
  · obtain ⟨t, rfl, ht⟩ := hx
    rw [armNext_of_mem ht, eq_comm, follow_eq_inl]
    constructor
    · rintro ⟨rfl, hset⟩
      exact Or.inl ⟨t, rfl, hset, rfl, ht⟩
    · rintro (⟨u, rfl, hset, heq, -⟩ | ⟨-, -, hnot⟩)
      · exact ⟨heq.symm, Option.some.inj heq ▸ hset⟩
      · exact absurd ht (hnot t rfl)
  · have hnot : ∀ t, x = some t → t ∉ g.blockOrder := fun t ht hmem => hx ⟨t, ht, hmem⟩
    rw [armNext_of_not_mem hnot, eq_comm, follow_eq_left]
    constructor
    · exact fun ⟨hedge, hset⟩ => Or.inr ⟨hedge, hset, hnot⟩
    · rintro (⟨u, -, -, rfl, hmem⟩ | ⟨hedge, hset, -⟩)
      · exact absurd hmem (hnot u rfl)
      · exact ⟨hedge, hset⟩

/-- The arms of a branch in the wrong order are never right: they differ, and the edges stay in
the set. -/
theorem not_kept_swapped {last : SsaOp} {succs : List BlockId} (hsuccs : g.succsIn bid = succs)
    (hne : succs ≠ [])
    (htaken : g.Kept after (succs.find? fun s => some s ≠ last.original.branchTarget)
      last.original.branchTarget)
    (hpassed : g.Kept after last.original.branchTarget (g.passes bid last)) : False := by
  rcases htaken with ⟨t, htarget, -, hother, -⟩ | ⟨htarget, hafter, -⟩
  · have hdiffers := List.find?_some hother
    simp [htarget] at hdiffers
  rcases hpassed with ⟨t, -, hset, htarget', -⟩ | ⟨hpasses, -, -⟩
  · rw [htarget, Option.some.injEq] at htarget'
    exact hafter (htarget' ▸ hset)
  cases hfind : (g.allSuccs bid).find? fun s => some s ≠ last.original.branchTarget with
  | some u =>
    have hdiffers := List.find?_some hfind
    simp only [passes, hfind, Option.some_or, Option.some.injEq] at hpasses
    simp [htarget, hpasses] at hdiffers
  | none =>
    -- Every successor is the block behind the loop, which is not in the set.
    refine hne (hsuccs ▸ List.filter_eq_nil_iff.mpr fun s hs hset => hafter ?_)
    have hsame := List.find?_eq_none.mp hfind s hs
    simp only [htarget, ne_eq, Option.some.injEq, decide_not, Bool.not_eq_eq_eq_not, Bool.not_true,
      decide_eq_false_iff_not, not_not] at hsame
    exact hsame ▸ of_decide_eq_true hset

theorem forall_branch_iff {last : SsaOp} {cond : Condition} {succs : List BlockId}
    (hlast : block.ops.getLast? = some last) (hcond : extractCondition block = some cond)
    (hbranch : last.original.isConditionalBranch = true) (hsuccs : g.succsIn bid = succs)
    (hne : succs ≠ []) :
    (∀ r : Reading,
      (if isNegatedJump last.name then
        if r.holds (negateCondition cond) then
          g.armNext after (succs.find? fun s => some s ≠ last.original.branchTarget)
        else g.armNext after last.original.branchTarget
      else if r.holds cond then g.armNext after last.original.branchTarget
      else g.armNext after (succs.find? fun s => some s ≠ last.original.branchTarget)) =
        g.follow (g.nextBlock r bid block)) ↔ g.BranchRight after bid last cond succs := by
  have hjumps : ∀ r : Reading, r.jumps block = r.holds cond := by
    intro r
    rw [Reading.jumps, hcond]
    rfl
  have hnext : ∀ r, g.nextBlock r bid block =
      if r.holds cond then last.original.branchTarget else g.passes bid last := by
    intro r
    simp only [nextBlock, hlast, hbranch, if_true, hjumps]
  constructor
  · intro h
    obtain ⟨r, htrue, -⟩ := Reading.exists_jumps block true 0
    obtain ⟨r', hfalse, -⟩ := Reading.exists_jumps block false 0
    rw [hjumps] at htrue hfalse
    have htaken := h r
    have hpassed := h r'
    rw [hnext, htrue] at htaken
    rw [hnext, hfalse] at hpassed
    cases hneg : isNegatedJump last.name with
    | false =>
      simp only [hneg, Bool.false_eq_true, if_false, if_true] at htaken hpassed
      exact ⟨fun h => absurd h (by simp [hneg]), armNext_eq_follow.mp htaken,
        armNext_eq_follow.mp hpassed⟩
    | true =>
      by_cases hsame : negateCondition cond = cond
      · simp only [hneg, hsame, htrue, hfalse, Bool.false_eq_true, if_false, if_true]
          at htaken hpassed
        exact (not_kept_swapped hsuccs hne (armNext_eq_follow.mp htaken)
          (armNext_eq_follow.mp hpassed)).elim
      · simp only [hneg, r.negates cond hsame, r'.negates cond hsame, htrue, hfalse, Bool.not_true,
          Bool.not_false, Bool.false_eq_true, if_false, if_true] at htaken hpassed
        exact ⟨fun _ => hsame, armNext_eq_follow.mp htaken, armNext_eq_follow.mp hpassed⟩
  · intro h r
    have htaken := armNext_eq_follow.mpr h.taken
    have hpassed := armNext_eq_follow.mpr h.passed
    rw [hnext]
    cases hneg : isNegatedJump last.name with
    | false =>
      cases r.holds cond with
      | false => simpa only [Bool.false_eq_true, if_false] using hpassed
      | true => simpa only [Bool.false_eq_true, if_false, if_true] using htaken
    | true =>
      rw [r.negates cond (h.negatable hneg)]
      cases r.holds cond with
      | false => simpa only [Bool.not_false, Bool.false_eq_true, if_false, if_true] using hpassed
      | true => simpa only [Bool.not_true, Bool.false_eq_true, if_false, if_true] using htaken

/-- The loop and the graph take the same step from a block. -/
theorem forall_step_iff :
    (∀ r, g.loopStep after r bid = g.step r bid) ↔ g.StepsRight after bid := by
  cases hblock : g.blockMap bid with
  | none =>
    simp only [loopStep, step, StepsRight, hblock, reduceCtorEq, false_and, exists_false,
      iff_false, not_forall]
    exact ⟨.polar false false 0, not_false⟩
  | some block =>
    have honly := @forall_follow_iff g bid block
    cases hlast : block.ops.getLast? with
    | none =>
      rw [hlast] at honly
      simp only [loopStep, step, StepsRight, hblock, Option.some.injEq, exists_eq_left', hlast]
      exact honly bid
    | some last =>
      rw [hlast] at honly
      simp only [loopStep, step, StepsRight, hblock, Option.some.injEq, exists_eq_left', hlast]
      by_cases hret : last.name = "Ret"
      · simp only [if_pos hret, implies_true]
      by_cases hthrow : last.name = "Throw"
      · simp only [if_neg hret, if_pos hthrow]
        cases last.operands.head?.bind SsaOperand.var? with
        | none => simp
        | some v => simp
      simp only [if_neg hret, if_neg hthrow, RoutedRight]
      cases hsuccs : g.succsIn bid with
      | nil => exact honly bid
      | cons s succs =>
        cases succs with
        | nil =>
          by_cases hs : s ∈ g.blockOrder
          · simp only [if_pos hs]
            exact honly s
          · simp only [if_neg hs]
            exact honly bid
        | cons s' succs =>
          by_cases hbranch : last.original.isConditionalBranch = true
          · simp only [if_pos hbranch]
            cases hcond : extractCondition block with
            | none => exact honly bid
            | some cond => exact forall_branch_iff hlast hcond hbranch hsuccs (by simp)
          · simp only [if_neg hbranch]
            exact honly bid

/-! ## The dispatcher and the graph -/

/-- The block of a visit. -/
def entered : DispatchEvent → Option BlockId
  | .enter block => block
  | .leaf _ => none

/-- The visits show in the events. -/
theorem filterMap_entered (visits : List BlockId) :
    (visits.flatMap g.visit).filterMap entered = visits := by
  have hleaves : ∀ stmts : List Stmt, (stmts.map DispatchEvent.leaf).filterMap entered = [] := by
    intro stmts
    rw [List.filterMap_map]
    exact List.filterMap_eq_nil_iff.mpr fun _ _ => rfl
  induction visits with
  | nil => rfl
  | cons bid visits ih =>
    rw [List.flatMap_cons, List.filterMap_append, ih, visit, List.filterMap_cons, hleaves]
    rfl

theorem run_eq_of_events {run run' : List BlockId × Option RegionExit}
    (h : (run'.1.flatMap g.visit, run'.2) = (run.1.flatMap g.visit, run.2)) : run' = run := by
  obtain ⟨hevents, hexit⟩ := Prod.mk.inj h
  refine Prod.ext ?_ hexit
  rw [← filterMap_entered (g := g) run'.1, hevents, filterMap_entered]

/-- A dispatcher that simulates the graph starts with the entry block. -/
theorem head?_of_simulates {depth : Nat} {entry : BlockId} (h : g.Simulates depth entry after) :
    g.blockOrder.head? = some entry := by
  obtain ⟨r⟩ : Nonempty Reading := inferInstance
  have hrun := h [r]
  cases hhead : g.blockOrder.head? with
  | none =>
    have hnil : g.blockOrder = [] := List.head?_eq_none_iff.mp hhead
    have hempty : (g.runLoop depth after [r]).1 = [] := by
      simp [runLoop, emitDispatcher, hnil, dispatchList, Control.Run.stop]
    have hvisits := filterMap_entered (g := g) (Driven.run g.step [r] entry).1
    have hevents : (Driven.run g.step [r] entry).1.flatMap g.visit = [] := by
      rw [← hempty, hrun, runGraph]
    have hvisit := Driven.head?_run_cons g.step r [] entry
    rw [← hvisits, hevents] at hvisit
    cases hvisit
  | some first =>
    rw [runLoop_eq hhead, runGraph] at hrun
    have hvisits := congrArg (fun run => run.1.head?) (run_eq_of_events hrun)
    simpa only [Driven.head?_run_cons] using hvisits

/-- The dispatcher simulates the control flow graph exactly if it starts with the entry block
and leaves every block that can be reached as the graph does. -/
theorem simulates_iff (g : DispatchRegion) (depth : Nat) (entry after : BlockId) :
    g.Simulates depth entry after ↔ g.blockOrder.head? = some entry ∧
      ∀ bid, Driven.Reaches g.step entry bid → g.StepsRight after bid := by
  constructor
  · intro h
    have hentry := head?_of_simulates h
    have hruns : ∀ readings, Driven.run (g.loopStep after) readings entry =
        Driven.run g.step readings entry := by
      intro readings
      exact run_eq_of_events ((runLoop_eq hentry after readings).symm.trans (h readings))
    exact ⟨hentry, fun bid hbid => forall_step_iff.mp (Driven.run_eq_iff.mp hruns bid hbid)⟩
  · rintro ⟨hentry, hsteps⟩ readings
    rw [runLoop_eq hentry, runGraph,
      Driven.run_eq_iff.mpr fun bid hbid => forall_step_iff.mpr (hsteps bid hbid)]

end DispatchRegion

/-- A block with one operation. -/
def singleBlock (id : BlockId) (op : SsaOp) : SsaBlock where
  id := id
  phis := []
  ops := [op]
  successors := []
  predecessors := []

/-- The blocks 4 and 8 jump to each other, and control enters both of them. The region backend
gives a case to every block of the function. -/
def irreducible : DispatchRegion where
  blockOrder := [0, 4, 8, 10]
  blockMap id :=
    match id with
    | 0 => some (singleBlock 0
        ⟨"JmpTrue", none, [.const 8, .var ⟨1, 0⟩], ⟨0, 4, "JmpTrue", [.addr 8, .reg 1]⟩⟩)
    | 4 => some (singleBlock 4 ⟨"Jmp", none, [.const 4], ⟨4, 4, "Jmp", [.addr 4]⟩⟩)
    | 8 => some (singleBlock 8
        ⟨"JmpTrue", none, [.const (-4), .var ⟨1, 0⟩], ⟨8, 2, "JmpTrue", [.addr (-4), .reg 1]⟩⟩)
    | 10 => some (singleBlock 10 ⟨"Ret", none, [.var ⟨1, 0⟩], ⟨10, 2, "Ret", [.reg 1]⟩⟩)
    | _ => none
  phiCopies _ := []
  allSuccs id :=
    match id with
    | 0 => [8, 4]
    | 4 => [8]
    | 8 => [4, 10]
    | _ => []
  orderSet := [4, 8]

/-- The loop starts with the entry of the function, which is not in the region. -/
theorem irreducible_not_simulated : ¬ irreducible.Simulates 0 4 10 := by
  intro h
  have hevents := congrArg (fun run => run.1.filterMap DispatchRegion.entered)
    (h [.polar false false 0])
  revert hevents
  decide

end Hermes.Structure
