-- SUMMARY: Construction of the control flow graph: block boundaries, blocks, edges, exception handlers and block order.
import DroidsawHermes.Decompile.Decode
import DroidsawHermes.Decompile.Opcodes
import DroidsawHermes.Lib.OrdMap

/-!
# Control flow graphs

`Cfg::build` of `decompile/cfg.rs`. `BTreeMap` and `BTreeSet` are ordered maps and
sets. `usize` has 64 bits: the table positions of a switch cannot overflow it.
-/

open Bytes

namespace Hermes.Decompile

abbrev BlockId := Nat

structure ExcHandler where
  start : Nat
  stop : Nat
  target : Nat
  deriving DecidableEq, Repr

structure BasicBlock where
  id : BlockId
  /-- Offset of the first instruction. -/
  start : Nat
  /-- Offset after the last instruction. -/
  stop : Nat
  instructions : List DecodedInst
  successors : List BlockId
  predecessors : List BlockId
  /-- The catch block, inside a try region. -/
  excHandler : Option BlockId
  /-- The string of each case of a `StringSwitchImm`. -/
  switchStringIds : List Nat
  deriving DecidableEq, Repr

abbrev BlockMap := OrdMap BlockId BasicBlock

structure Cfg where
  blocks : BlockMap
  entry : BlockId
  blockOrder : List BlockId
  /-- Catch block to the try-region blocks that flow to it on a throw. -/
  excPredecessors : OrdMap BlockId (List BlockId)
  deriving DecidableEq

/-- A block without edges. -/
def BasicBlock.new (start stop : Nat) (instructions : List DecodedInst) : BasicBlock :=
  ⟨start, start, stop, instructions, [], [], none, []⟩

/-! ## Targets -/

/-- `None` when the sum would wrap. -/
def instNextOffset (inst : DecodedInst) : Option Nat :=
  if inst.offset + inst.size ≤ u32Max then some (inst.offset + inst.size) else none

def DecodedInst.isStringSwitch (inst : DecodedInst) : Bool := inst.name = "StringSwitchImm"

/-- Any of the switches. -/
def DecodedInst.isSwitch (inst : DecodedInst) : Bool := containsText inst.name "SwitchImm"

/-- The target of an address operand. -/
def operandTarget (inst : DecodedInst) (k : Nat) : Option Nat :=
  match inst.operands[k]? with
  | some (.addr rel) => checkedAddSigned inst.offset rel
  | _ => none

/-- The `(string id, relative target)` pairs, big-endian, of a `StringSwitchImm`.
Entries past the end of the bytecode are skipped. -/
def stringSwitchTable (bytecodes : List UInt8) (inst : DecodedInst) : List (Nat × Int) :=
  match inst.operands[2]?, inst.operands[4]? with
  | some (Operand.uint strTableOff), some (Operand.uint numCases) =>
    (List.range (min numCases 65536)).filterMap fun j =>
      let entryOff := inst.offset + strTableOff + j * 8
      if entryOff + 8 ≤ bytecodes.length then
        some (ofLE (slice bytecodes entryOff (entryOff + 4)).reverse,
          Int.bmod (ofLE (slice bytecodes (entryOff + 4) (entryOff + 8)).reverse) (2 ^ 32))
      else none
  | _, _ => []

/-- The relative targets, little-endian, of a `SwitchImm` or `UIntSwitchImm`. -/
def jumpTable (bytecodes : List UInt8) (inst : DecodedInst) : List Int :=
  match inst.operands[1]?, inst.operands[3]?, inst.operands[4]? with
  | some (Operand.uint jtOffset), some (Operand.uint minCase), some (Operand.uint maxCase) =>
    (List.range (min (maxCase + 1 - minCase) 65536)).filterMap fun j =>
      let entryOff := inst.offset + jtOffset + j * 4
      if entryOff + 4 ≤ bytecodes.length then
        some (Int.bmod (ofLE (slice bytecodes entryOff (entryOff + 4))) (2 ^ 32))
      else none
  | _, _, _ => []

def defaultTarget (inst : DecodedInst) : Option Nat :=
  if inst.isStringSwitch then operandTarget inst 3 else operandTarget inst 2

def caseTargets (bytecodes : List UInt8) (inst : DecodedInst) : List Nat :=
  if inst.isStringSwitch then
    (stringSwitchTable bytecodes inst).filterMap fun entry => checkedAddSigned inst.offset entry.2
  else (jumpTable bytecodes inst).filterMap fun rel => checkedAddSigned inst.offset rel

/-! ## Step 1: boundaries -/

/-- The addresses where the instruction, which ends at `next`, makes blocks start. -/
def instBoundaries (bytecodes : List UInt8) (inst : DecodedInst) (next : Nat) : List Nat :=
  (if inst.isTerminator then [next] else [])
  ++ inst.branchTarget.toList
  ++ (if inst.isSwitch then (defaultTarget inst).toList ++ caseTargets bytecodes inst else [])

def addBoundaries (bytecodes : List UInt8) (boundaries : OrdSet Nat) (inst : DecodedInst) :
    Except HermesError (OrdSet Nat) :=
  match instNextOffset inst with
  | none => .error (.arithmeticOverflow "instruction next-offset")
  | some next => .ok ((instBoundaries bytecodes inst next).foldl OrdSet.insert boundaries)

def findBoundaries (instructions : List DecodedInst) (excHandlers : List ExcHandler)
    (bytecodes : List UInt8) : Except HermesError (OrdSet Nat) := do
  let boundaries ← instructions.foldlM (addBoundaries bytecodes) (OrdSet.empty.insert 0)
  .ok ((excHandlers.flatMap fun eh => [eh.start, eh.stop, eh.target]).foldl OrdSet.insert boundaries)

/-! ## Step 2: blocks -/

/-- The finished blocks, and the block that is being filled. -/
structure Splitting where
  blocks : BlockMap
  currentBlockInsts : List DecodedInst
  currentStart : Nat

def splitStep (boundaries : OrdSet Nat) (s : Splitting) (inst : DecodedInst) : Splitting :=
  let s :=
    if inst.offset ∈ boundaries.keys ∧ s.currentBlockInsts ≠ [] then
      { blocks := s.blocks.insert s.currentStart
          (.new s.currentStart inst.offset s.currentBlockInsts)
        currentBlockInsts := []
        currentStart := inst.offset }
    else s
  { s with
    currentStart := if s.currentBlockInsts = [] then inst.offset else s.currentStart
    currentBlockInsts := s.currentBlockInsts ++ [inst] }

def finishSplit (s : Splitting) : Except HermesError BlockMap :=
  match s.currentBlockInsts.getLast? with
  | none => .ok s.blocks
  | some last =>
    match instNextOffset last with
    | none => .error (.arithmeticOverflow "final block end offset")
    | some stop =>
      .ok (s.blocks.insert s.currentStart (.new s.currentStart stop s.currentBlockInsts))

def splitBlocks (boundaries : OrdSet Nat) (instructions : List DecodedInst) :
    Except HermesError BlockMap :=
  finishSplit (instructions.foldl (splitStep boundaries) ⟨.empty, [], 0⟩)

/-! ## Step 3: edges -/

/-- A target, where it is a block. -/
def knownTarget (blockIds : List BlockId) (target : Option Nat) : List BlockId :=
  target.toList.filter (· ∈ blockIds)

/-- A case target is added once. -/
def pushCase (blockIds succs : List BlockId) (target : Nat) : List BlockId :=
  if target ∈ blockIds ∧ target ∉ succs then succs ++ [target] else succs

/-- The successors of a block with this last instruction; `nextBlock` is the block
behind it. -/
def successorsOf (bytecodes : List UInt8) (blockIds : List BlockId) (nextBlock : Option BlockId)
    (last : DecodedInst) : List BlockId :=
  if last.isUnconditionalJump then knownTarget blockIds last.branchTarget
  else if last.isConditionalBranch then
    knownTarget blockIds last.branchTarget ++ knownTarget blockIds (instNextOffset last)
  else if last.isSwitch then
    (caseTargets bytecodes last).foldl (pushCase blockIds)
      (knownTarget blockIds (defaultTarget last))
  else if last.isReturn || last.isThrow || last.name = "Unreachable" then []
  else nextBlock.toList

def stringIdsOf (bytecodes : List UInt8) (last : DecodedInst) : List Nat :=
  if last.isStringSwitch then (stringSwitchTable bytecodes last).map Prod.fst else []

def addSuccessors (bytecodes : List UInt8) (blocks : BlockMap) : BlockMap :=
  blocks.mapIdx fun i _ block =>
    match block.instructions.getLast? with
    | none => block
    | some last =>
      { block with
        successors := successorsOf bytecodes blocks.keys blocks.keys[i + 1]? last
        switchStringIds := stringIdsOf bytecodes last }

def addPredecessors (blocks : BlockMap) : BlockMap :=
  let edges := blocks.values.flatMap fun b => b.successors.map fun s => (b.id, s)
  edges.foldl (fun blocks edge =>
    blocks.modify edge.2 fun b => { b with predecessors := b.predecessors ++ [edge.1] }) blocks

/-! ## Step 4: exception handlers -/

def markHandler (blocks : BlockMap) (eh : ExcHandler) : Except HermesError BlockMap :=
  if eh.target ∈ blocks.keys then
    .ok (blocks.mapVal fun _ b =>
      if b.start ≥ eh.start ∧ b.stop ≤ eh.stop then { b with excHandler := some eh.target } else b)
  else .error (.invalidExceptionHandlerTarget eh.target)

/-! ## Step 5: reverse post-order -/

/-- The depth-first search, from a stack of blocks to enter (`false`) or to leave
(`true`). The top of the stack is the head of the list. -/
def dfsLoop (blocks : BlockMap) : Nat → List (BlockId × Bool) → OrdSet BlockId → List BlockId →
    Option (OrdSet BlockId × List BlockId)
  | _, [], visited, postOrder => some (visited, postOrder)
  | 0, _ :: _, _, _ => none
  | fuel + 1, (bid, true) :: stack, visited, postOrder =>
    dfsLoop blocks fuel stack visited (postOrder ++ [bid])
  | fuel + 1, (bid, false) :: stack, visited, postOrder =>
    if bid ∈ visited.keys then dfsLoop blocks fuel stack visited postOrder
    else
      let visited := visited.insert bid
      let succs := match blocks.get? bid with
        | some block => block.successors.filter (· ∉ visited.keys)
        | none => []
      dfsLoop blocks fuel (succs.map (·, false) ++ (bid, true) :: stack) visited postOrder

/-- A block is entered and left once, and each edge pushes at most one entry. -/
def dfsFuel (blocks : BlockMap) : Nat :=
  (blocks.values.map fun b => 2 * b.successors.length).sum + 2

/-- Blocks that the search does not reach come last. -/
def reversePostOrder (blocks : BlockMap) : List BlockId :=
  match blocks.keys.head? with
  | none => []
  | some entry =>
    match dfsLoop blocks (dfsFuel blocks) [(entry, false)] .empty [] with
    | none => []
    | some (visited, postOrder) => postOrder.reverse ++ blocks.keys.filter (· ∉ visited.keys)

/-- Invariant 7 for one block: its catch block comes after it. -/
def checkCatchAfter (rpoPos : OrdMap BlockId Nat) (b : BasicBlock) : Except HermesError Unit :=
  match b.excHandler with
  | none => .ok ()
  | some catchBlock =>
    let handlerPos := (rpoPos.get? catchBlock).getD u64Max
    let tryPos := (rpoPos.get? b.id).getD 0
    if tryPos ≥ handlerPos then .error (.invalidExceptionLayout catchBlock b.id) else .ok ()

def checkLayout (blocks : BlockMap) (blockOrder : List BlockId) : Except HermesError Unit :=
  let rpoPos := blockOrder.zipIdx.foldl (fun m x => m.insert x.1 x.2) .empty
  blocks.values.foldlM (fun _ b => checkCatchAfter rpoPos b) ()

def addExcPredecessor (m : OrdMap BlockId (List BlockId)) (b : BasicBlock) :
    OrdMap BlockId (List BlockId) :=
  match b.excHandler with
  | some catchTarget => m.insert catchTarget ((m.get? catchTarget).getD [] ++ [b.id])
  | none => m

/-- The reverse exception map. -/
def excPredecessorsOf (blocks : BlockMap) : OrdMap BlockId (List BlockId) :=
  blocks.values.foldl addExcPredecessor .empty

/-! ## build -/

/-- `Cfg::build`. Without blocks there is no entry to search from, and what is
left gives the empty graph of the early return. -/
def Cfg.build (instructions : List DecodedInst) (excHandlers : List ExcHandler)
    (bytecodes : List UInt8) : Except HermesError Cfg :=
  if instructions = [] then
    .ok { blocks := OrdMap.empty.insert 0 (.new 0 0 []), entry := 0, blockOrder := [0],
          excPredecessors := .empty }
  else do
    let boundaries ← findBoundaries instructions excHandlers bytecodes
    let blocks ← splitBlocks boundaries instructions
    let blocks := addPredecessors (addSuccessors bytecodes blocks)
    let blocks ← excHandlers.foldlM markHandler blocks
    let blockOrder := reversePostOrder blocks
    checkLayout blocks blockOrder
    .ok { blocks := blocks, entry := blockOrder.head?.getD 0, blockOrder := blockOrder,
          excPredecessors := excPredecessorsOf blocks }

end Hermes.Decompile
