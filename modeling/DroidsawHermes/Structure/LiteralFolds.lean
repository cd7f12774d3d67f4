-- SUMMARY: The three folds of an allocation and the operations that fill it into one literal.
import DroidsawHermes.Decompile.PatternRewrite
import DroidsawHermes.Structure.LiteralBuffers

/-!
# Literal folds

The slot names and the cluster fold of `resolve_buffers`, `rewrite_array_spread_sugar` and
`rewrite_object_spread_sugar`. Each matcher looks for its clusters in the operations of a
block as they are, and the rewrites are applied afterwards.
-/

namespace Hermes.Structure

open Decompile

/-! ## Slots -/

def isSlotPut (op : SsaOp) : Bool :=
  op.name = "PutOwnBySlotIdx" || op.name = "PutOwnBySlotIdxLong"

/-- `shape_keys` and `shape_values`. -/
def slotTables (t : BufferTables) (s : SsaFunction) : VarId → Option SlotTable :=
  lastDef s.ops fun op => (resolveBuffer t op).2

/-- A put by index becomes one by name. -/
def nameSlot (tables : VarId → Option SlotTable) (op : SsaOp) : SsaOp :=
  if isSlotPut op then
    match op.operands[0]?, op.operands[2]? with
    | some (SsaOperand.var obj), some (SsaOperand.const slot) =>
      match (tables obj).bind fun table => if 0 ≤ slot then table.keys[slot.toNat]? else none with
      | some key => { op with operands := op.operands.set 2 (.resolvedString key.1) }
      | none => op
    | _, _ => op
  else op

/-! ## Cluster fold -/

/-- `var_def_idx`. -/
def defIndex (ops : List SsaOp) (v : VarId) : Option Nat := ops.findIdx? fun op => op.dst = some v

/-- The value of a put can be read at the allocation: its variable is defined before it, or
not in this block, or by a pure operation. -/
def readableAt (ops : List SsaOp) (i : Nat) : SsaOperand → Bool
  | .var v =>
    match defIndex ops v with
    | some d => d < i || (ops[d]?).any fun op => isPure op.name
    | none => true
  | _ => true

/-- The first other operation after the allocation that defines its variable. -/
def fence (ops : List SsaOp) (i : Nat) (dst : VarId) : Option Nat :=
  (List.range ops.length).find? fun j =>
    i < j && (ops[j]?).any fun op => !isSlotPut op && op.dst = some dst

/-- A put that is folded into the literal: its index, its slot and its value. -/
structure SlotPut where
  index : Nat
  slot : Nat
  value : SsaOperand

def slotPut (ops : List SsaOp) (i : Nat) (dst : VarId) (table : SlotTable) (j : Nat) :
    Option SlotPut :=
  match ops[j]? with
  | none => none
  | some put =>
    if i < j ∧ (fence ops i dst).all (j < ·) ∧ isSlotPut put ∧
        put.operands[0]? = some (.var dst) then
      match put.operands[1]?, put.operands[2]? with
      | some value, some (SsaOperand.resolvedString name) =>
        match table.keys.findIdx? fun key => key.1 = name with
        | some slot =>
          if table.values[slot]? = some "null" ∧ readableAt ops i value then
            some ⟨j, slot, value⟩
          else none
        | none => none
      | _, _ => none
    else none

def slotPuts (ops : List SsaOp) (i : Nat) (dst : VarId) (table : SlotTable) : List SlotPut :=
  (List.range ops.length).filterMap (slotPut ops i dst table)

structure ClusterFold where
  bufferIdx : Nat
  dst : VarId
  table : SlotTable
  puts : List SlotPut

def clusterFold (tables : VarId → Option SlotTable) (ops : List SsaOp) (i : Nat) :
    Option ClusterFold :=
  match ops[i]? with
  | none => none
  | some op =>
    if op.name = "NewObjectWithBuffer" ∨ op.name = "NewObjectWithBufferLong" then
      match op.dst with
      | some dst =>
        match tables dst with
        | some table =>
          let puts := slotPuts ops i dst table
          if puts.isEmpty then none else some ⟨i, dst, table, puts⟩
        | none => none
      | none => none
    else none

namespace ClusterFold

/-- The last put of a slot, or the text of its initial value. -/
def slotValue (f : ClusterFold) (slot : Nat) (text : String) : SsaOperand :=
  match f.puts.reverse.find? fun put => put.slot = slot with
  | some put => put.value
  | none => .resolvedString text

def operands (f : ClusterFold) : List SsaOperand :=
  .var f.dst :: ((f.table.keys.zip f.table.values).zipIdx.flatMap fun p =>
    [.resolvedString p.1.1.1, f.slotValue p.2 p.1.2])

end ClusterFold

/-- Operations rewritten by index, and then some dropped by index. -/
def applyFolds (rewrite : Nat → SsaOp → SsaOp) (removals : List Nat) (ops : List SsaOp) :
    List SsaOp :=
  Edits.removeAll removals (ops.zipIdx.map fun p => rewrite p.2 p.1)

def clusterFolds (tables : VarId → Option SlotTable) (ops : List SsaOp) : List ClusterFold :=
  (List.range ops.length).filterMap (clusterFold tables ops)

def foldClusters (tables : VarId → Option SlotTable) (ops : List SsaOp) : List SsaOp :=
  let folds := clusterFolds tables ops
  applyFolds (fun i op => match folds.find? fun f => f.bufferIdx = i with
      | some f => { op with name := "HermesObjectLit", operands := f.operands }
      | none => op)
    (folds.flatMap fun f => f.puts.map SlotPut.index) ops

def resolveBuffers (t : BufferTables) (s : SsaFunction) : SsaFunction :=
  let tables := slotTables t s
  ⟨s.blocks.map fun b =>
    { b with ops := foldClusters tables (b.ops.map fun op => nameSlot tables (resolveBuffer t op).1) }⟩

/-! ## Array spread -/

def isBuiltinCall (op : SsaOp) (isBuiltin : Nat → Bool) : Bool :=
  isCallBuiltin op.name && match op.operands[1]? with
    | some (SsaOperand.const id) => isBuiltin (asU32 id)
    | _ => false

def arrayBufferNames : List String := ["NewArrayWithBuffer", "NewArrayWithBufferLong"]

def defineNames : List String :=
  ["DefineOwnByVal", "DefineOwnInDenseArray", "DefineOwnInDenseArrayL"]

def isResolved (op : SsaOp) : Bool :=
  match op.operands[1]? with
  | some (SsaOperand.resolvedString _) => true
  | _ => false

/-- The last array allocation of the variable in front of the spread. -/
def arrayPrefix (ops : List SsaOp) (i : Nat) (target : VarId) : Option Nat :=
  (List.range i).reverse.find? fun j => (ops[j]?).any fun op =>
    op.dst = some target && arrayBufferNames.contains op.name && isResolved op

/-- The definition at the index that the spread returned. -/
def definesAt (target index : VarId) (op : SsaOp) : Bool :=
  op.operands[0]? = some (.var target) && op.operands[2]? = some (.var index)

/-- The first define operation that writes at that index, unless one before it defines the
target. -/
def arrayDefine (ops : List SsaOp) (i : Nat) (target index : VarId) : Option Nat :=
  ((List.range ops.length).find? fun j => i < j && (ops[j]?).any fun op =>
      defineNames.contains op.name && (definesAt target index op || op.dst = some target)).filter
    fun j => (ops[j]?).any (definesAt target index)

structure ArrayCluster where
  prefixIdx : Nat
  spreadIdx : Nat
  defineIdx : Nat
  source : SsaOperand
  trailing : SsaOperand

def arrayCluster (uses : VarId → Nat) (ops : List SsaOp) (i : Nat) : Option ArrayCluster := do
  let op ← ops[i]?
  guard (isBuiltinCall op isArraySpread)
  guard (op.operands[2]? = some (.const 4))
  let .var target ← op.operands[3]? | none
  let index ← op.dst
  guard (uses index = 1)
  let prefixIdx ← arrayPrefix ops i target
  let defineIdx ← arrayDefine ops i target index
  let source ← op.operands[4]?
  let define ← ops[defineIdx]?
  let trailing ← define.operands[1]?
  return ⟨prefixIdx, i, defineIdx, source, trailing⟩

def arrayClusters (uses : VarId → Nat) (ops : List SsaOp) : List ArrayCluster :=
  (List.range ops.length).filterMap (arrayCluster uses ops)

/-- The last cluster of an allocation is the one it is rewritten to. -/
def foldArraySpreads (uses : VarId → Nat) (ops : List SsaOp) : List SsaOp :=
  let clusters := arrayClusters uses ops
  applyFolds (fun i op => match clusters.reverse.find? fun c => c.prefixIdx = i with
      | some c => { op with
          name := "HermesArraySpreadLit"
          operands := [.dstPlaceholder, op.operands[1]?.getD .dstPlaceholder, c.source, c.trailing] }
      | none => op)
    (clusters.flatMap fun c => [c.spreadIdx, c.defineIdx]) ops

def rewriteArraySpreadSugar (s : SsaFunction) : SsaFunction :=
  ⟨s.blocks.map fun b => { b with ops := foldArraySpreads s.countUses b.ops }⟩

/-! ## Object spread -/

def emptyObjectNames : List String := ["NewObject", "CacheNewObject"]

/-- The allocation in front of a copy: the first operation that defines the target. -/
def objectAlloc (ops : List SsaOp) (i : Nat) (target : VarId) : Option Nat :=
  ((List.range i).find? fun j => (ops[j]?).any fun op => op.dst = some target).filter fun j =>
    (ops[j]?).any fun op => emptyObjectNames.contains op.name
      || objectBufferNames.contains op.name && isResolved op

def putByIndexNames : List String := ["PutOwnByIndex", "PutOwnByIndexL"]

def putByIdNames : List String :=
  ["DefineOwnById", "DefineOwnByIdLong", "PutOwnById", "PutOwnByIdLong", "PutOwnByIdShort"]

/-- What the walk behind the first copy does at an operation. -/
inductive ClusterStep where
  | add (entry : ObjectSpreadEntry)
  | stop
  | skip

def copyStepAt (op : SsaOp) : ClusterStep :=
  match op.operands[4]? with
  | some source => .add (.spread source)
  | none => .stop

def putByIndexStep (op : SsaOp) : ClusterStep :=
  match op.operands[1]?, op.operands[2]? with
  | some value, some (SsaOperand.const idx) => .add (.keyVal (toString idx) value)
  | _, _ => .stop

def putByIdStep (op : SsaOp) : ClusterStep :=
  match op.operands[1]?, op.operands[3]? with
  | some value, some (SsaOperand.resolvedString key) => .add (.keyVal key value)
  | _, _ => .stop

def clusterStep (target : VarId) (op : SsaOp) : ClusterStep :=
  if isBuiltinCall op isCopyDataProperties ∧ op.operands[3]? = some (.var target) then copyStepAt op
  else if op.name ∈ putByIndexNames ∧ op.operands[0]? = some (.var target) then putByIndexStep op
  else if op.name ∈ putByIdNames ∧ op.operands[0]? = some (.var target) then putByIdStep op
  else if op.dst = some target ∨ .var target ∈ op.operands then .stop
  else .skip

/-- The entries behind the first copy, each with its index. -/
def extendCluster (target : VarId) (consumed : List Nat) :
    Nat → List SsaOp → List (Nat × ObjectSpreadEntry)
  | _, [] => []
  | n, op :: ops =>
    if n ∈ consumed then []
    else match clusterStep target op with
      | .add entry => (n, entry) :: extendCluster target consumed (n + 1) ops
      | .stop => []
      | .skip => extendCluster target consumed (n + 1) ops

structure ObjectCluster where
  allocIdx : Nat
  entries : List (Nat × ObjectSpreadEntry)

def objectCluster (uses : VarId → Nat) (ops : List SsaOp) (consumed : List Nat) (i : Nat) :
    Option ObjectCluster := do
  guard (i ∉ consumed)
  let op ← ops[i]?
  guard (isBuiltinCall op isCopyDataProperties)
  let .var target ← op.operands[3]? | none
  let .var source ← op.operands[4]? | none
  let allocIdx ← objectAlloc ops i target
  guard (0 < uses target)
  return ⟨allocIdx, (i, .spread (.var source)) ::
    extendCluster target consumed (i + 1) (ops.drop (i + 1))⟩

/-- The clusters of a block, each with the operations it consumes. -/
def objectClusters (uses : VarId → Nat) (ops : List SsaOp) : List ObjectCluster :=
  (List.range ops.length).foldl (fun clusters i =>
    let consumed := clusters.flatMap fun c => c.entries.map Prod.fst
    clusters ++ (objectCluster uses ops consumed i).toList) []

/-- The allocation of a cluster becomes the literal; what it had as its entries comes first. -/
def ObjectCluster.apply (ops : List SsaOp) (c : ObjectCluster) : List SsaOp :=
  ops.modify c.allocIdx fun op =>
    { op with
      name := "HermesObjectSpreadLit"
      operands := .dstPlaceholder ::
        ((objectBufferPrefixEntries op).getD [] ++ c.entries.map Prod.snd).flatMap
          pushObjectSpreadEntry }

def foldObjectSpreads (uses : VarId → Nat) (ops : List SsaOp) : List SsaOp :=
  let clusters := objectClusters uses ops
  Edits.removeAll (clusters.flatMap fun c => c.entries.map Prod.fst)
    (clusters.foldl ObjectCluster.apply ops)

def rewriteObjectSpreadSugar (s : SsaFunction) : SsaFunction :=
  ⟨s.blocks.map fun b => { b with ops := foldObjectSpreads s.countUses b.ops }⟩

end Hermes.Structure
