-- SUMMARY: The leader-set construction of a graph's shape, and the shape of a built graph.
import DroidsawHermes.Decompile.Cfg
import Mathlib.Data.Finset.Insert

/-!
# The graph oracle

`naive_cfg` and `Cfg::to_shape` of `decompile/cfg_oracle.rs`. The oracle reads the
switch tables with the same loops as the builder. A `BTreeSet` of edges is a finite
set: only its elements are compared.
-/

open Bytes

namespace Hermes.Decompile

inductive EdgeKindOracle where
  | fallThrough | branch | switchDefault | exceptionHandler
  deriving DecidableEq, Repr

abbrev OracleEdge := BlockId × BlockId × EdgeKindOracle

structure CfgShape where
  leaders : OrdSet Nat
  edges : Finset OracleEdge
  entry : Nat
  /-- Leader to the instruction offsets of its block. -/
  blockInstructions : OrdMap Nat (List Nat)

inductive CfgOracleError where
  | emptyInstructions
  | arithmeticOverflow (context : String)
  deriving DecidableEq, Repr

/-! ## Opcode predicates -/

def oracleIsUncondJump (name : String) : Bool := name = "Jmp" || name = "JmpLong"

def oracleIsCondBranch (name : String) : Bool :=
  name.toList.head? = some 'J' && name ≠ "Jmp" && name ≠ "JmpLong"
    && !containsText name "SwitchImm"

def oracleHasBranchTarget (name : String) : Bool :=
  oracleIsUncondJump name || oracleIsCondBranch name || name = "SaveGenerator"
    || name = "SaveGeneratorLong"

def oracleIsStringSwitch (name : String) : Bool := name = "StringSwitchImm"

def oracleIsIntSwitch (name : String) : Bool :=
  containsText name "SwitchImm" && name ≠ "StringSwitchImm"

def oracleIsReturn (name : String) : Bool := name = "Ret"

def oracleIsThrow (name : String) : Bool := name = "Throw"

def oracleIsUnreachable (name : String) : Bool := name = "Unreachable"

def oracleIsTerminator (name : String) : Bool :=
  oracleIsUncondJump name || oracleIsCondBranch name || oracleIsStringSwitch name
    || oracleIsIntSwitch name || oracleIsReturn name || oracleIsThrow name
    || oracleIsUnreachable name

/-! ## Leaders -/

def stringCaseTargets (bytecodes : List UInt8) (inst : DecodedInst) : List Nat :=
  (stringSwitchTable bytecodes inst).filterMap fun entry => checkedAddSigned inst.offset entry.2

def intCaseTargets (bytecodes : List UInt8) (inst : DecodedInst) : List Nat :=
  (jumpTable bytecodes inst).filterMap fun rel => checkedAddSigned inst.offset rel

/-- Rules 2 and 3. -/
def leaderTargets (bytecodes : List UInt8) (inst : DecodedInst) : List Nat :=
  (if oracleIsTerminator inst.name then (instNextOffset inst).toList else [])
  ++ (if oracleHasBranchTarget inst.name then inst.branchTarget.toList else [])
  ++ (if oracleIsStringSwitch inst.name then
        (operandTarget inst 3).toList ++ stringCaseTargets bytecodes inst else [])
  ++ (if oracleIsIntSwitch inst.name then
        (operandTarget inst 2).toList ++ intCaseTargets bytecodes inst else [])

/-- A leader is the offset of an instruction. -/
def insertIfInstr (instOffsets : List Nat) (leaders : OrdSet Nat) (t : Nat) : OrdSet Nat :=
  if t ∈ instOffsets then leaders.insert t else leaders

def findLeaders (instructions : List DecodedInst) (excHandlers : List ExcHandler)
    (bytecodes : List UInt8) : OrdSet Nat :=
  let instOffsets := instructions.map (·.offset)
  let leaders := instructions.head?.elim .empty fun first => OrdSet.empty.insert first.offset
  let leaders := instructions.foldl (fun leaders inst =>
    (leaderTargets bytecodes inst).foldl (insertIfInstr instOffsets) leaders) leaders
  excHandlers.foldl (fun leaders eh =>
    [eh.start, eh.stop, eh.target].foldl (insertIfInstr instOffsets) leaders) leaders

/-! ## Blocks -/

/-- The largest leader at or before `offset`. -/
def leaderOf (leaders : List Nat) (offset : Nat) : Option Nat :=
  (leaders.filter (· ≤ offset)).getLast?

def pushInst (blockInstructions : OrdMap Nat (List Nat)) (inst : DecodedInst) :
    OrdMap Nat (List Nat) :=
  match leaderOf blockInstructions.keys inst.offset with
  | some leader =>
    blockInstructions.insert leader
      ((blockInstructions.get? leader).getD [] ++ [inst.offset])
  | none => blockInstructions

def fillBlocks (leaders : OrdSet Nat) (instructions : List DecodedInst) :
    OrdMap Nat (List Nat) :=
  instructions.foldl pushInst (leaders.mapVal fun _ _ => [])

/-- `addr_to_idx`, followed: the last instruction at the address. -/
def instAt (instructions : List DecodedInst) (addr : Nat) : Option DecodedInst :=
  (instructions.filter (·.offset = addr)).getLast?

/-- The last instruction of the block of a leader. -/
def lastInst (instructions : List DecodedInst) (blockInstructions : OrdMap Nat (List Nat))
    (leader : Nat) : Option DecodedInst :=
  ((blockInstructions.get? leader).getD []).getLast?.bind (instAt instructions)

/-! ## Edges -/

def addIfLeader (leaders : OrdSet Nat) (leader : Nat) (kind : EdgeKindOracle)
    (edges : Finset OracleEdge) (target : Option Nat) : Finset OracleEdge :=
  match target with
  | some t => if t ∈ leaders.keys then insert (leader, t, kind) edges else edges
  | none => edges

/-- A case target that is the default target adds no edge of its own. -/
def addCase (leaders : OrdSet Nat) (leader : Nat) (edges : Finset OracleEdge) (t : Nat) :
    Finset OracleEdge :=
  if t ∈ leaders.keys ∧ (leader, t, .switchDefault) ∉ edges then insert (leader, t, .branch) edges
  else edges

def addNormalEdges (bytecodes : List UInt8) (leaders : OrdSet Nat) (leader : Nat)
    (edges : Finset OracleEdge) (last : DecodedInst) : Finset OracleEdge :=
  if oracleIsReturn last.name || oracleIsThrow last.name || oracleIsUnreachable last.name then edges
  else if oracleIsUncondJump last.name then
    addIfLeader leaders leader .branch edges last.branchTarget
  else if oracleIsCondBranch last.name then
    let edges := addIfLeader leaders leader .branch edges last.branchTarget
    if instNextOffset last ≠ last.branchTarget then
      addIfLeader leaders leader .fallThrough edges (instNextOffset last)
    else edges
  else if oracleIsStringSwitch last.name then
    (stringCaseTargets bytecodes last).foldl (addCase leaders leader)
      (addIfLeader leaders leader .switchDefault edges (operandTarget last 3))
  else if oracleIsIntSwitch last.name then
    (intCaseTargets bytecodes last).foldl (addCase leaders leader)
      (addIfLeader leaders leader .switchDefault edges (operandTarget last 2))
  else addIfLeader leaders leader .fallThrough edges (instNextOffset last)

def addLeaderEdges (instructions : List DecodedInst) (bytecodes : List UInt8)
    (leaders : OrdSet Nat) (blockInstructions : OrdMap Nat (List Nat)) (edges : Finset OracleEdge)
    (leader : Nat) : Finset OracleEdge :=
  match lastInst instructions blockInstructions leader with
  | some last => addNormalEdges bytecodes leaders leader edges last
  | none => edges

/-! ## Exception edges -/

/-- End of the block of the leader at `ldrIdx`; none for an empty block. -/
def oracleBlockEnd (instructions : List DecodedInst) (leaderVec : List Nat)
    (blockInstructions : OrdMap Nat (List Nat)) (ldrIdx blockStart : Nat) : Option Nat :=
  ((blockInstructions.get? blockStart).getD []).getLast?.map fun lastAddr =>
    match instAt instructions lastAddr with
    | some li => min (li.offset + li.size) u32Max
    | none => leaderVec[ldrIdx + 1]?.getD (min (blockStart + 1) u32Max)

/-- One leader, with its index, against one handler. -/
def enterBlock (instructions : List DecodedInst) (leaderVec : List Nat)
    (blockInstructions : OrdMap Nat (List Nat)) (eh : ExcHandler) (blockExc : OrdMap Nat Nat)
    (entry : Nat × Nat) : OrdMap Nat Nat :=
  match oracleBlockEnd instructions leaderVec blockInstructions entry.2 entry.1 with
  | none => blockExc
  | some blockEnd =>
    if entry.1 ≥ eh.start ∧ blockEnd ≤ eh.stop then blockExc.insert entry.1 eh.target
    else blockExc

/-- The last handler whose region contains the block wins. -/
def enterHandler (instructions : List DecodedInst) (leaders : OrdSet Nat)
    (blockInstructions : OrdMap Nat (List Nat)) (blockExc : OrdMap Nat Nat) (eh : ExcHandler) :
    OrdMap Nat Nat :=
  if eh.target ∉ leaders.keys then blockExc
  else leaders.keys.zipIdx.foldl (enterBlock instructions leaders.keys blockInstructions eh) blockExc

/-! ## naive_cfg -/

def naiveCfg (instructions : List DecodedInst) (excHandlers : List ExcHandler)
    (bytecodes : List UInt8) : Except CfgOracleError CfgShape :=
  if instructions = [] then
    .ok { leaders := OrdSet.empty.insert 0, edges := ∅, entry := 0,
          blockInstructions := OrdMap.empty.insert 0 [] }
  else
    let leaders := findLeaders instructions excHandlers bytecodes
    let blockInstructions := (fillBlocks leaders instructions).filter fun _ v => v ≠ []
    let leaders := leaders.filter fun l _ => l ∈ blockInstructions.keys
    let edges :=
      leaders.keys.foldl (addLeaderEdges instructions bytecodes leaders blockInstructions) ∅
    let blockExc := excHandlers.foldl (enterHandler instructions leaders blockInstructions) .empty
    let edges := blockExc.toList.foldl (fun edges entry =>
      insert (entry.1, entry.2, .exceptionHandler) edges) edges
    .ok { leaders := leaders, edges := edges, entry := leaders.keys.head?.getD 0,
          blockInstructions := blockInstructions }

/-! ## to_shape -/

/-- A missing address counts as 0. -/
def shapeTarget (li : DecodedInst) : Option Nat :=
  checkedAddSigned li.offset (match li.operands.head? with
    | some (.addr rel) => rel
    | _ => 0)

def shapeDefault (li : DecodedInst) : Option Nat :=
  if oracleIsStringSwitch li.name then operandTarget li 3 else operandTarget li 2

/-- The label of an edge out of a block with this last instruction. -/
def successorKind (last : Option DecodedInst) (target : Nat) : EdgeKindOracle :=
  let name := last.elim "" (·.name)
  if oracleIsUncondJump name then .branch
  else if oracleIsCondBranch name then
    if some target = last.bind shapeTarget then .branch else .fallThrough
  else if oracleIsStringSwitch name || oracleIsIntSwitch name then
    if some target = last.bind shapeDefault then .switchDefault else .branch
  else .fallThrough

namespace Cfg

variable (cfg : Cfg)

def excEdge (edges : Finset OracleEdge) (block : BasicBlock) : Finset OracleEdge :=
  match block.excHandler.bind cfg.blocks.get? with
  | some catchBlock => insert (block.start, catchBlock.start, .exceptionHandler) edges
  | none => edges

def successorEdge (block : BasicBlock) (edges : Finset OracleEdge) (s : BlockId) :
    Finset OracleEdge :=
  match cfg.blocks.get? s with
  | some tb =>
    insert (block.start, tb.start, successorKind block.instructions.getLast? tb.start) edges
  | none => edges

def blockEdges (edges : Finset OracleEdge) (block : BasicBlock) : Finset OracleEdge :=
  block.successors.foldl (cfg.successorEdge block) (cfg.excEdge edges block)

def toShape : CfgShape where
  leaders := cfg.blocks.values.foldl (fun leaders b => leaders.insert b.start) OrdSet.empty
  edges := cfg.blocks.values.foldl cfg.blockEdges ∅
  entry := (cfg.blocks.get? cfg.entry).elim 0 (·.start)
  blockInstructions := cfg.blocks.values.foldl (fun m b =>
    m.insert b.start (b.instructions.map (·.offset))) OrdMap.empty

end Cfg

end Hermes.Decompile
