-- SUMMARY: The rewrite of instruction patterns: strings, tagged templates, constructs, method calls and async wrappers.
import DroidsawHermes.Decompile.Passes

/-!
# Pattern rewriting

`pattern_rewrite` of `decompile/optimize.rs`, stage by stage: string and property
propagation, `rewrite_tagged_templates`, `elide_init_regex_named_groups`, the
patterns of one block, and the rewrites that are deferred to the end.
-/

namespace Hermes.Decompile

/-! ## Strings and property names -/

section

variable (getStr : Nat → String)

/-- The string that an operation loads. -/
def SsaOp.loadedString (op : SsaOp) : Option String :=
  if op.name = "LoadConstString" ∨ op.name = "LoadConstStringLongIndex" then
    match op.operands[1]? with
    | some (SsaOperand.stringId sid) => some (getStr sid)
    | _ => none
  else none

def SsaFunction.stringVars (s : SsaFunction) : VarId → Option String :=
  lastDef s.ops (SsaOp.loadedString getStr)

def resolveString (strings : VarId → Option String) : SsaOperand → SsaOperand
  | .var v => ((strings v).map SsaOperand.resolvedString).getD (.var v)
  | o => o

/-- Jumps keep their variables. -/
def propagateStrings (s : SsaFunction) : SsaFunction :=
  s.mapOps fun op =>
    if op.original.isJump then op else op.mapOperands (resolveString (s.stringVars getStr))

/-- A string table index becomes its string, unless that is empty. -/
def resolveName : SsaOperand → SsaOperand
  | .const sid => if getStr (asU32 sid) ≠ "" then .resolvedString (getStr (asU32 sid)) else .const sid
  | o => o

/-- Names whose last operand is a property name. -/
def propertyPrefixes : List String :=
  ["GetById", "TryGetById", "PutById", "TryPutById", "DefineOwnById"]

def SsaOp.resolveProperty (op : SsaOp) : SsaOp :=
  if propertyPrefixes.any (startsWith op.name) then
    { op with operands := op.operands.modify (op.operands.length - 1) (resolveName getStr) }
  else if op.name = "CreatePrivateName" then
    { op with operands := op.operands.modify 1 (resolveName getStr) }
  else op

def resolveProperties (s : SsaFunction) : SsaFunction := s.mapOps (SsaOp.resolveProperty getStr)

end

/-! ## Tagged templates -/

def isCallBuiltin (name : String) : Bool := name = "CallBuiltin" || name = "CallBuiltinLong"

def SsaOperand.string? : SsaOperand → Option String
  | .resolvedString s => some s
  | _ => none

/-- The chunks of a template object, cooked and raw. -/
structure Chunks where
  cooked : List String
  raw : List String

/-- The operands are `[dst, id, argc, objId, dupFlag, raws.., cookeds..]`. -/
def SsaOp.chunks (op : SsaOp) : Option Chunks :=
  if isCallBuiltin op.name then
    match op.operands[1]? with
    | some (SsaOperand.const id) =>
      let count := (op.operands.length - 5) / 2
      if isGetTemplateObject (asU32 id) ∧ 7 ≤ op.operands.length ∧ count ≠ 0
          ∧ 5 + count * 2 = op.operands.length then do
        let raw ← ((op.operands.drop 5).take count).mapM SsaOperand.string?
        let cooked ← ((op.operands.drop (5 + count)).take count).mapM SsaOperand.string?
        some ⟨cooked, raw⟩
      else none
    | _ => none
  else none

/-- Where the first argument of a call stands. -/
def arg0Index (name : String) : Option Nat :=
  if name = "Call1" ∨ name = "Call2" ∨ name = "Call3" ∨ name = "Call4" then some 3
  else if name = "Call" ∨ name = "CallLong" ∨ name = "CallDirect" ∨ name = "CallDirectLongIndex" then
    some 4
  else none

/-- The template object that a call takes as its first argument. -/
def SsaOp.templateArg (templates : VarId → Option Chunks) (op : SsaOp) :
    Option (Nat × VarId × Chunks) := do
  let arg0 ← arg0Index op.name
  match op.operands[arg0]? with
  | some (SsaOperand.var v) => (templates v).map fun chunks => (arg0, v, chunks)
  | _ => none

/-- A cooked chunk and a raw one by turns. -/
def Chunks.operands (chunks : Chunks) : List SsaOperand :=
  (chunks.cooked.zip chunks.raw).flatMap fun (c, r) => [.resolvedString c, .resolvedString r]

def SsaOp.foldTemplate (templates : VarId → Option Chunks) (op : SsaOp) : SsaOp :=
  match op.templateArg templates with
  | some (arg0, _, chunks) =>
    { op with
      name := "HermesTaggedTemplate"
      operands := [.dstPlaceholder, (op.operands[1]?).getD .dstPlaceholder,
        .const chunks.cooked.length] ++ chunks.operands ++ op.operands.drop (arg0 + 1) }
  | none => op

/-- The block and the index of the last operation that has an entry for `v`. -/
def SsaFunction.defSite {α : Type} (s : SsaFunction) (entry : SsaOp → Option α) (v : VarId) :
    Option (Nat × Nat) :=
  (s.blocks.zipIdx.flatMap fun (b, bi) => b.ops.zipIdx.map fun (op, oi) => (op, bi, oi)).reverse
    |>.findSome? fun (op, site) => if op.dst = some v ∧ (entry op).isSome then some site else none

/-- The producers to drop from block `bi`: those that nothing reads any more. -/
def templateRemovals (s folded : SsaFunction) (bi : Nat) : List Nat :=
  (s.ops.filterMap (SsaOp.templateArg (lastDef s.ops SsaOp.chunks))).filterMap fun (_, v, _) =>
    if folded.countUses v > 0 then none
    else (s.defSite SsaOp.chunks v).bind fun site => if site.1 = bi then some site.2 else none

def rewriteTaggedTemplates (s : SsaFunction) : SsaFunction :=
  let folded := s.mapOps (SsaOp.foldTemplate (lastDef s.ops SsaOp.chunks))
  ⟨folded.blocks.zipIdx.map fun (b, bi) =>
    { b with ops := Edits.removeAll (templateRemovals s folded bi) b.ops }⟩

/-! ## Groups of regular expressions -/

def SsaOp.isRegexGroups (op : SsaOp) : Bool :=
  isCallBuiltin op.name &&
    match op.operands[1]? with
    | some (SsaOperand.const id) => isInitRegexNamedGroups (asU32 id)
    | _ => false

def elideInitRegexNamedGroups (s : SsaFunction) : SsaFunction :=
  ⟨s.blocks.map fun b =>
    { b with
      ops := b.ops.filter fun op =>
        match op.dst with
        | some dst => !op.isRegexGroups || s.countUses dst > 0
        | none => true }⟩

/-! ## Patterns of a block -/

/-- `*v == from ⟹ *v = to`. -/
def replaceVar (src dst v : VarId) : VarId := if v = src then dst else v

def SsaOp.replaceVar (src dst : VarId) (op : SsaOp) : SsaOp :=
  op.mapOperands (SsaOperand.mapVar (Decompile.replaceVar src dst))

/-- `==` on operands: doubles compare as floats. -/
def SsaOperand.same : SsaOperand → SsaOperand → Bool
  | .constDouble a, .constDouble b => Float.ofBits a == Float.ofBits b
  | a, b => a = b

def sameOperand : Option SsaOperand → Option SsaOperand → Bool
  | some a, some b => a.same b
  | none, none => true
  | _, _ => false

def SsaOp.isConstruct (op : SsaOp) : Bool := op.name = "Construct" || op.name = "ConstructLong"

/-- The operation allocates the object for a construct with this callee. -/
def SsaOp.createsThisFor (callee : Option SsaOperand) (op : SsaOp) : Bool :=
  if op.name = "CreateThisForNew" ∨ op.name = "CreateThisForSuper" then
    sameOperand op.operands[1]? callee
  else if op.name = "CreateThis" then sameOperand op.operands[2]? callee
  else false

/-- The last operation before index `i` that allocates for `callee`. -/
def createIndex (ops : List SsaOp) (callee : Option SsaOperand) (i : Nat) : Option Nat :=
  (List.range i).reverse.find? fun j => (ops[j]?).any (SsaOp.createsThisFor callee)

/-- A `SelectObject` that reads the variable. -/
def SsaOp.selects (v : VarId) (op : SsaOp) : Bool :=
  op.name = "SelectObject" && op.operands.contains (.var v)

/-- The first index from `start` on at which `v` is selected. -/
def selectIndex (ops : List SsaOp) (v : VarId) (start : Nat) : Option Nat :=
  (List.range ops.length).find? fun k => start ≤ k && (ops[k]?).any (SsaOp.selects v)

/-- Pattern A: a construct and its allocation, with the results of the two. -/
structure ConstructFold where
  constructIdx : Nat
  createIdx : Nat
  createDst : Option VarId
  constructDst : Option VarId

/-- A match at index `i`. -/
def constructFold (ops : List SsaOp) (i : Nat) : Option ConstructFold := do
  let op ← ops[i]?
  if op.isConstruct then
    let ci ← createIndex ops op.operands[1]? i
    let create ← ops[ci]?
    some ⟨i, ci, create.dst, op.dst⟩
  else none

def constructFolds (ops : List SsaOp) : List ConstructFold :=
  (List.range ops.length).filterMap (constructFold ops)

namespace ConstructFold

variable (ops : List SsaOp) (f : ConstructFold)

/-- The `SelectObject` after the construct: its index and the rewrite of its result. -/
def select : Option (Nat × VarId × VarId) := do
  let ct ← f.createDst
  let con ← f.constructDst
  let k ← selectIndex ops ct (f.constructIdx + 1)
  let sel ← (ops[k]?).bind SsaOp.dst
  some (k, sel, con)

/-- No `SelectObject` follows in the block. -/
def pending : Option (VarId × VarId) := do
  let ct ← f.createDst
  let con ← f.constructDst
  if selectIndex ops ct (f.constructIdx + 1) = none then some (ct, con) else none

/-- The match, done on the operations as they are by now. -/
def apply (current : List SsaOp) : List SsaOp :=
  let renamed := current.modify f.constructIdx fun op => { op with name := "ConstructNew" }
  match f.select ops with
  | some (_, sel, con) => renamed.map (SsaOp.replaceVar sel con)
  | none => renamed

def removals : List Nat := f.createIdx :: (f.select ops).toList.map Prod.fst

end ConstructFold

/-- The operations of a block after pattern A. -/
def foldConstructs (ops : List SsaOp) : List SsaOp :=
  (constructFolds ops).foldl (fun current f => f.apply ops current) ops

/-- The rewrites that a block leaves for all blocks. -/
def blockRewrites (ops : List SsaOp) : List (VarId × VarId) :=
  (constructFolds ops).filterMap fun f => (f.select ops).map Prod.snd

/-- `block_defs.get(v)`. -/
def blockDef (ops : List SsaOp) (v : VarId) : Option Nat :=
  (List.range ops.length).reverse.find? fun i => (ops[i]?).any fun op => op.dst = some v

def SsaOp.isGetById (op : SsaOp) : Bool :=
  startsWith op.name "GetById" || startsWith op.name "TryGetById"

def isShortCall (name : String) : Bool :=
  name = "Call1" || name = "Call2" || name = "Call3" || name = "Call4"

section

variable (getStr : Nat → String)

/-- Pattern C at one operation: the method call, and the index of the property read. -/
def methodCall (snapshot : List SsaOp) (uses : VarId → Nat) (op : SsaOp) : Option (SsaOp × Nat) :=
  if isShortCall op.name then
    match op.operands with
    | first :: SsaOperand.var callee :: args => do
      let idx ← blockDef snapshot callee
      let get ← snapshot[idx]?
      if get.isGetById ∧ uses callee = 1 then
        let obj ← get.operands[1]?
        match get.operands.getLast? with
        | some (SsaOperand.const sid) =>
          some ({ op with
            name := "MethodCall"
            operands := [first, obj, .resolvedString (getStr (asU32 sid))] ++ args.drop 1 }, idx)
        | _ => none
      else none
    | _ => none
  else none

def SsaOp.toMethodCall (snapshot : List SsaOp) (uses : VarId → Nat) (op : SsaOp) : SsaOp :=
  ((methodCall getStr snapshot uses op).map Prod.fst).getD op

def SsaOp.isAsyncWrapper (op : SsaOp) : Bool :=
  op.isGetById &&
    match op.operands.getLast? with
    | some (SsaOperand.resolvedString s) => containsText s "asyncToGenerator"
    | some (SsaOperand.const sid) => containsText (getStr (asU32 sid)) "asyncToGenerator"
    | _ => false

/-- Pattern D: the closure's index, the result of the wrapper call and the closure's
variable. -/
structure AsyncRewrite where
  closureIdx : Nat
  src : VarId
  dst : VarId

/-- The argument in which a wrapper call takes its closure. -/
def SsaOp.closureArg (op : SsaOp) : Option SsaOperand :=
  if op.name = "Call1" then op.operands[2]? else op.operands[4]?.or op.operands[3]?

/-- A match at one operation. -/
def asyncRewrite (snapshot : List SsaOp) (op : SsaOp) : Option AsyncRewrite :=
  if op.name = "Call1" ∨ op.name = "Call" ∨ op.name = "CallLong" then
    match op.operands[1]?, op.closureArg with
    | some (SsaOperand.var callee), some (SsaOperand.var closure) => do
      let wrapper ← (blockDef snapshot callee).bind fun i => snapshot[i]?
      let idx ← blockDef snapshot closure
      let closureOp ← snapshot[idx]?
      let dst ← op.dst
      if wrapper.isAsyncWrapper getStr && startsWith closureOp.name "CreateGeneratorClosure" then
        some ⟨idx, dst, closure⟩
      else none
    | _, _ => none
  else none

def AsyncRewrite.apply (current : List SsaOp) (r : AsyncRewrite) : List SsaOp :=
  (current.modify r.closureIdx fun op => { op with name := "CreateAsyncClosure" }).map
    (SsaOp.replaceVar r.src r.dst)

/-- The operations of a block after its patterns, before any is dropped. -/
def rewriteOps (uses : VarId → Nat) (ops : List SsaOp) : List SsaOp :=
  (ops.filterMap (asyncRewrite getStr ops)).foldl AsyncRewrite.apply
    ((foldConstructs ops).map (SsaOp.toMethodCall getStr ops uses))

/-- The indices of the wrapper calls. -/
def asyncRemovals (ops : List SsaOp) : List Nat :=
  (List.range ops.length).filter fun i =>
    (ops[i]?).any fun op => (asyncRewrite getStr ops op).isSome

/-- `remove_indices`. -/
def removeIndices (uses : VarId → Nat) (ops : List SsaOp) : List Nat :=
  (constructFolds ops).flatMap (ConstructFold.removals ops)
  ++ (foldConstructs ops).filterMap (fun op => (methodCall getStr ops uses op).map Prod.snd)
  ++ asyncRemovals getStr ops

def rewriteBlock (uses : VarId → Nat) (b : SsaBlock) : SsaBlock :=
  { b with ops := Edits.removeAll (removeIndices getStr uses b.ops) (rewriteOps getStr uses b.ops) }

def rewriteBlocks (s : SsaFunction) : SsaFunction :=
  ⟨s.blocks.map (rewriteBlock getStr s.countUses)⟩

end

/-! ## Deferred rewrites -/

/-- The removal of a `SelectObject` from a block, and the rewrite it leaves. -/
def removeSelect (ct con : VarId) (b : SsaBlock) : SsaBlock × List (VarId × VarId) :=
  match selectIndex b.ops ct 0 with
  | some i =>
    match (b.ops[i]?).bind SsaOp.dst with
    | some sel =>
      ({ b with ops := (Edits.removeAll [i] b.ops).map (SsaOp.replaceVar sel con) }, [(sel, con)])
    | none => (b, [])
  | none => (b, [])

/-- One pending removal, in every block. -/
def removeSelects (st : SsaFunction × List (VarId × VarId)) (p : VarId × VarId) :
    SsaFunction × List (VarId × VarId) :=
  let blocks := st.1.blocks.map (removeSelect p.1 p.2)
  (⟨blocks.map Prod.fst⟩, st.2 ++ blocks.flatMap Prod.snd)

def Phi.replaceVar (src dst : VarId) (phi : Phi) : Phi :=
  { dst := Decompile.replaceVar src dst phi.dst
    args := phi.args.map fun arg => (arg.1, Decompile.replaceVar src dst arg.2) }

/-- One rewrite in every block, phis included. -/
def SsaFunction.replaceVar (s : SsaFunction) (r : VarId × VarId) : SsaFunction :=
  ⟨s.blocks.map fun b =>
    { b with
      ops := b.ops.map (SsaOp.replaceVar r.1 r.2)
      phis := b.phis.map (Phi.replaceVar r.1 r.2) }⟩

/-- The function when the patterns of its blocks are matched. -/
def prepare (getStr : Nat → String) (s : SsaFunction) : SsaFunction :=
  elideInitRegexNamedGroups
    (rewriteTaggedTemplates (resolveProperties getStr (propagateStrings getStr s)))

/-- `pending_select_removals`. -/
def SsaFunction.pendingRemovals (s : SsaFunction) : List (VarId × VarId) :=
  s.blocks.flatMap fun b => (constructFolds b.ops).filterMap (ConstructFold.pending b.ops)

/-- `cross_block_rewrites`, before the pending removals add theirs. -/
def SsaFunction.crossBlockRewrites (s : SsaFunction) : List (VarId × VarId) :=
  s.blocks.flatMap fun b => blockRewrites b.ops

/-- The patterns of every block, and then the deferred rewrites. -/
def rewritePatterns (getStr : Nat → String) (s : SsaFunction) : SsaFunction :=
  let r := s.pendingRemovals.foldl removeSelects (rewriteBlocks getStr s, s.crossBlockRewrites)
  r.2.foldl SsaFunction.replaceVar r.1

def patternRewrite (getStr : Nat → String) (s : SsaFunction) : SsaFunction :=
  rewritePatterns getStr (prepare getStr s)

end Hermes.Decompile
