-- SUMMARY: SSA construction: the destination register and the operands of an instruction, and the passes of `build_ssa` over a graph.
import DroidsawHermes.Decompile.Decode
import DroidsawHermes.Decompile.Passes

/-!
# SSA construction

`classify_inst` and `build_ssa`. The variable that reaches a register is what the
Braun builder of another crate reads there: a `CommonBuilder` is a parameter.
-/

namespace Hermes.Decompile

/-! ## Destination and operands -/

def Operand.asReg : Operand → Option Nat
  | .reg r | .reg32 r => some r
  | _ => none

/-- The names without a destination that `classify_inst` lists in full. -/
def noDstNames : List String :=
  ["Ret", "Throw", "Debugger", "AsyncBreakCheck", "ProfilePoint", "Unreachable", "Nop",
    "FastArrayStore", "FastArrayPush", "FastArrayAppend", "AddOwnPrivateBySym", "DeclareGlobalVar"]

/-- The first halves of the names of stores and jumps. -/
def noDstPrefixes : List String :=
  ["PutById", "TryPutById", "PutByVal", "StoreToEnvironment", "StoreNPToEnvironment", "DefineOwn",
    "PutNewOwn", "PutOwn", "J"]

/-- The register that an instruction writes. -/
def classifyInst (types : List OpType) (inst : DecodedInst) : Option Nat :=
  if noDstNames.contains inst.name || noDstPrefixes.any (startsWith inst.name)
      || containsText inst.name "SwitchImm" then none
  else if types.head? = some .R ∨ types.head? = some .R4 then inst.operands.head?.bind Operand.asReg
  else none

/-- `n as u32` of a saturating sum, for the target of a branch. -/
def blockTarget (inst : DecodedInst) (rel : Int) : Nat := asU32 ((inst.offset : Int) + rel)

/-- The operand at index `i`. -/
def ssaOperand (read : Nat → VarId) (dst : Option Nat) (inst : DecodedInst) (i : Nat) :
    Operand → SsaOperand
  | .reg r | .reg32 r => if i = 0 ∧ dst = some r then .dstPlaceholder else .var (read r)
  | .uint n =>
    if containsText inst.name "LoadConstString" ∧ i = 1 then .stringId n
    else if (containsText inst.name "CreateClosure" ∨ containsText inst.name "CreateGenerator")
        ∧ 1 ≤ i then .funcId n
    else .const n
  | .int n => .const n
  | .double bits => .constDouble bits
  | .addr rel => .blockTarget (blockTarget inst rel)

/-- The operands that stand in the instruction itself. -/
def ssaOperands (read : Nat → VarId) (types : List OpType) (inst : DecodedInst) :
    List SsaOperand :=
  inst.operands.zipIdx.map fun (op, i) => ssaOperand read (classifyInst types inst) inst i op

/-! ## Operands of decoded instructions -/

/-- The operands that the decoder gives for a type. -/
def OpType.Decodes : OpType → Operand → Prop
  | .R, .reg _ | .R4, .reg32 _ | .U1, .uint _ | .U2, .uint _ | .U4, .uint _ | .A1, .addr _
  | .A4, .addr _ | .I4, .int _ | .D, .double _ => True
  | _, _ => False

theorem decodeOperand_decodes (ot : OpType) (bytes : List UInt8) :
    ot.Decodes (decodeOperand ot bytes) := by
  cases ot <;> trivial

theorem decodeOperands_decodes {code : List UInt8} {pos opcode instEnd opPos : Nat}
    {types : List OpType} {operands : List Operand}
    (h : decodeOperands code pos opcode instEnd types opPos = .ok operands) :
    List.Forall₂ OpType.Decodes types operands := by
  induction types generalizing opPos operands with
  | nil =>
    cases h
    exact List.Forall₂.nil
  | cons ot types ih =>
    simp only [decodeOperands] at h
    split at h
    · cases h
    · obtain ⟨tail, htail, hcons⟩ := Loop.bind_eq_ok.mp h
      cases hcons
      exact List.Forall₂.cons (decodeOperand_decodes ot _) (ih htail)

/-! ## The builder -/

/-- What the builder sees of a graph. -/
structure SsaCfg where
  entry : BlockId
  nodes : List BlockId
  successors : BlockId → List BlockId
  predecessors : BlockId → List BlockId
  excPredecessors : BlockId → List BlockId

def cfgAdapter (cfg : Cfg) : SsaCfg where
  entry := cfg.entry
  nodes := cfg.blocks.keys
  successors n := ((cfg.blocks.get? n).map BasicBlock.successors).getD []
  predecessors n := ((cfg.blocks.get? n).map BasicBlock.predecessors).getD []
  excPredecessors n := if n = cfg.entry then [] else (cfg.excPredecessors.get? n).getD []

/-- The operations of the builder, on its states `σ`. -/
structure CommonBuilder (σ : Type) where
  new : σ
  readVariable : SsaCfg → σ → BlockId → Nat → Except HermesError (VarId × σ)
  newVar : σ → Nat → Except HermesError (VarId × σ)
  writeVariable : σ → BlockId → Nat → VarId → σ
  sealPhis : SsaCfg → σ → Except HermesError σ
  takePhis : σ → BlockId → List Phi × σ

section Build

variable {σ : Type} (B : CommonBuilder σ) (types : DecodedInst → List OpType)

/-! ## Pass 1: operations -/

/-- The operands so far, with one more register read. -/
def pushRead (g : SsaCfg) (bid : BlockId) (acc : List SsaOperand × σ) (reg : Nat) :
    Except HermesError (List SsaOperand × σ) := do
  let (v, s) ← B.readVariable g acc.2 bid reg
  .ok (acc.1 ++ [.var v], s)

/-- The operand of the instruction at an index. -/
def pushOperand (g : SsaCfg) (bid : BlockId) (dst : Option Nat) (inst : DecodedInst)
    (acc : List SsaOperand × σ) (x : Operand × Nat) : Except HermesError (List SsaOperand × σ) :=
  match x.1.asReg with
  | some r =>
    if x.2 = 0 ∧ dst = some r then .ok (acc.1 ++ [.dstPlaceholder], acc.2)
    else pushRead B g bid acc r
  -- nothing is read
  | none => .ok (acc.1 ++ [ssaOperand (VarId.mk · 0) dst inst x.2 x.1], acc.2)

/-- The argument count of a call whose arguments stand in the frame, the label of
its errors, and whether `this` is among its operands. -/
def argcForResolve (inst : DecodedInst) : Option (Nat × String × Bool) :=
  if inst.name = "Call" ∨ inst.name = "CallLong" then
    match inst.operands[2]? with
    | some (Operand.uint n) => some (n, "variadic Call argc", true)
    | _ => none
  else if inst.name = "CallDirect" ∨ inst.name = "CallDirectLongIndex" then
    match inst.operands[1]? with
    | some (Operand.uint n) => some (n, "variadic CallDirect argc", true)
    | _ => none
  else if inst.name = "CallBuiltin" ∨ inst.name = "CallBuiltinLong" then
    match inst.operands[2]? with
    | some (Operand.uint n) => some (n, "variadic CallBuiltin argc", false)
    | _ => none
  else none

/-- Argument `i` is `i` registers below the first one. -/
def pushArg (g : SsaCfg) (bid : BlockId) (arg0 argCount : Nat) (label : String)
    (acc : List SsaOperand × σ) (i : Nat) : Except HermesError (List SsaOperand × σ) :=
  if i ≤ arg0 then pushRead B g bid acc (arg0 - i)
  else .error (.countExceedsInput argCount (arg0 + 1) label)

/-- `this` is the register above the first argument. -/
def pushThis (g : SsaCfg) (bid : BlockId) (arg0 : Nat) (includeThis : Bool)
    (acc : List SsaOperand × σ) : Except HermesError (List SsaOperand × σ) :=
  if includeThis then pushRead B g bid acc (arg0 + 1) else .ok acc

/-- The operands of a call that the instruction does not name. The first argument
is register `frame_size - 9`. -/
def pushCallArgs (g : SsaCfg) (bid : BlockId) (frameSize totalInsns : Nat) (inst : DecodedInst)
    (acc : List SsaOperand × σ) : Except HermesError (List SsaOperand × σ) :=
  match argcForResolve inst with
  | none => .ok acc
  | some (argc, label, includeThis) =>
    if totalInsns < argc then .error (.countExceedsInput argc totalInsns label)
    else if frameSize < 9 then .ok acc
    else do
      let acc ← pushThis B g bid (frameSize - 9) includeThis acc
      (List.range (argc - 1)).foldlM (pushArg B g bid (frameSize - 9) (argc - 1) label) acc

/-- The new version of the destination register. -/
def writeDst (s : σ) (bid : BlockId) : Option Nat → Except HermesError (Option VarId × σ)
  | none => .ok (none, s)
  | some reg => do
    let (v, s) ← B.newVar s reg
    .ok (some v, B.writeVariable s bid reg v)

def addParam (op : SsaOp) (params : OrdMap Nat VarId) : OrdMap Nat VarId :=
  if op.name = "LoadParam" ∨ op.name = "LoadParamLong" then
    match op.dst, op.operands[1]? with
    | some var, some (SsaOperand.const idx) => params.insert (asU32 idx) var
    | _, _ => params
  else params

/-- What the walk has made, and the state of the builder. -/
structure Walk (σ : Type) where
  blocks : List SsaBlock
  params : OrdMap Nat VarId
  builder : σ

/-- The operations of the block so far, with the one of the next instruction. -/
def walkInst (g : SsaCfg) (bid : BlockId) (frameSize totalInsns : Nat)
    (acc : List SsaOp × OrdMap Nat VarId × σ) (inst : DecodedInst) :
    Except HermesError (List SsaOp × OrdMap Nat VarId × σ) := do
  let dstReg := classifyInst (types inst) inst
  let operands ← inst.operands.zipIdx.foldlM (pushOperand B g bid dstReg inst) ([], acc.2.2)
  let (operands, s) ← pushCallArgs B g bid frameSize totalInsns inst operands
  let (dst, s) ← writeDst B s bid dstReg
  let op : SsaOp := ⟨inst.name, dst, operands, inst⟩
  .ok (acc.1 ++ [op], addParam op acc.2.1, s)

def walkBlock (cfg : Cfg) (frameSize totalInsns : Nat) (w : Walk σ) (bid : BlockId) :
    Except HermesError (Walk σ) :=
  match cfg.blocks.get? bid with
  | none => .ok w
  | some block => do
    let (ops, params, s) ← block.instructions.foldlM
      (walkInst B types (cfgAdapter cfg) bid frameSize totalInsns) ([], w.params, w.builder)
    .ok ⟨w.blocks ++ [⟨bid, [], ops, block.successors, block.predecessors⟩], params, s⟩

def walkBlocks (cfg : Cfg) (frameSize : Nat) : Except HermesError (Walk σ) :=
  let totalInsns := (cfg.blocks.values.map fun b => b.instructions.length).sum
  cfg.blockOrder.foldlM (walkBlock B types cfg frameSize totalInsns) ⟨[], .empty, B.new⟩

/-! ## Pass 3: phis -/

/-- The phis of the builder, drained into the blocks. -/
def drainPhis : List SsaBlock → σ → List SsaBlock
  | [], _ => []
  | b :: blocks, s =>
    let (phis, s) := B.takePhis s b.id
    { b with phis := phis } :: drainPhis blocks s

/-! ## Post-pass: undefined variables -/

/-- The variables defined so far, and the reads of others. -/
structure DefUse where
  defined : OrdSet VarId
  used : List VarId

def scanOp (d : DefUse) (op : SsaOp) : DefUse :=
  let defined := match op.dst with
    | some dst => d.defined.insert dst
    | none => d.defined
  ⟨defined, d.used ++ op.reads.filter (· ∉ defined.keys)⟩

def scanBlock (d : DefUse) (b : SsaBlock) : DefUse :=
  b.ops.foldl scanOp { d with defined := (b.phis.map Phi.dst).foldl OrdSet.insert d.defined }

/-- The operands that nothing defines, each once. -/
def undefinedVars (blocks : List SsaBlock) : List VarId :=
  let d := blocks.foldl scanBlock ⟨.empty, []⟩
  ((d.used.filter (· ∉ d.defined.keys)).foldl OrdSet.insert .empty).keys

def syntheticOp (v : VarId) : SsaOp :=
  ⟨"LoadConstUndefined", some v, [.dstPlaceholder], ⟨0, 0, "LoadConstUndefined", []⟩⟩

/-- The first block defines the undefined variables. -/
def injectUndefined (blocks : List SsaBlock) : List SsaBlock :=
  match blocks with
  | [] => []
  | entry :: rest =>
    { entry with ops := (undefinedVars blocks).map syntheticOp ++ entry.ops } :: rest

/-! ## build_ssa -/

/-- The function, with its `block_order` and `param_vars`. -/
structure BuiltSsa where
  function : SsaFunction
  blockOrder : List BlockId
  paramVars : List VarId

def buildSsa (cfg : Cfg) (frameSize : Nat) : Except HermesError BuiltSsa := do
  let w ← walkBlocks B types cfg frameSize
  let s ← B.sealPhis (cfgAdapter cfg) w.builder
  .ok ⟨⟨injectUndefined (drainPhis B w.blocks s)⟩, cfg.blockOrder, w.params.values⟩

end Build

end Hermes.Decompile
