-- SUMMARY: Runs in which operations also read registers by position, and when dead code elimination is sound for them.
import DroidsawHermes.Decompile.DeadCode

/-!
# Registers read by position

A call whose arguments are not among its operands finds them in the registers of the frame. What
is written to such a register has no use that `count_uses` sees.
-/

namespace Hermes.Decompile

/-! ## The frame -/

/-- The registers that an operation reads by position. The arguments of a call stand at the top of
the frame, where `build_ssa` looks for them when it knows the size of the frame; for the
constructions it never does. -/
def callFrame (frameSize : Nat) (op : SsaOp) : List Nat :=
  let argument (i : Nat) := frameSize - 9 - i
  let count (operand : Nat) : Nat :=
    match op.original.operands[operand]? with
    | some (.uint n) => n
    | _ => 0
  if op.original.operands.length < op.operands.length then []
  else if op.name ∈ ["Call", "CallLong", "Construct", "ConstructLong"] then
    (frameSize - 8) :: (List.range (count 2 - 1)).map argument
  else if op.name ∈ ["CallWithNewTarget", "CallWithNewTargetLong"] then
    (frameSize - 8) :: (List.range (count 3 - 1)).map argument
  else if op.name ∈ ["CallDirect", "CallDirectLongIndex"] then
    (frameSize - 8) :: (List.range (count 1 - 1)).map argument
  else if op.name ∈ ["CallBuiltin", "CallBuiltinLong"] then
    (List.range (count 2 - 1)).map argument
  else []

/-- From operation `i` of a block on, register `r` may be read by position before it is written. -/
inductive SsaFunction.ReadInFrame (f : SsaFunction) (frame : SsaOp → List Nat) (r : Nat) :
    BlockId → Nat → Prop where
  | read {id i b op} (hblock : f.block? id = some b) (hop : b.ops[i]? = some op)
      (hread : r ∈ frame op) : ReadInFrame f frame r id i
  | step {id i b op} (hblock : f.block? id = some b) (hop : b.ops[i]? = some op)
      (hdst : ∀ v, op.dst = some v → v.reg ≠ r) (hrest : ReadInFrame f frame r id (i + 1)) :
      ReadInFrame f frame r id i
  | jump {id i b succ next} (hblock : f.block? id = some b) (hend : b.ops[i]? = none)
      (hsucc : succ ∈ b.successors) (hnext : f.block? succ = some next)
      (hphis : ∀ phi ∈ next.phis, phi.dst.reg ≠ r) (hrest : ReadInFrame f frame r succ 0) :
      ReadInFrame f frame r id i

/-! ## Runs -/

/-- What an operation finds: the variables, what was last written to each register, the state. -/
structure FrameStore (Value σ : Type) where
  values : VarId → Value
  regs : Nat → Value
  state : σ

namespace FrameStore

variable {Value σ : Type}

/-- The values of the operands, then those of the registers read by position. -/
def reads (frame : SsaOp → List Nat) (store : FrameStore Value σ) (op : SsaOp) : List Value :=
  op.reads.map store.values ++ (frame op).map store.regs

def assign (store : FrameStore Value σ) (dst : Option VarId) (value : Value) (state : σ) :
    FrameStore Value σ where
  values := Machine.assign store.values dst value
  regs := match dst with
    | some v => Function.update store.regs v.reg value
    | none => store.regs
  state := state

def enter (store : FrameStore Value σ) (phis : List Phi) (pred : BlockId) : FrameStore Value σ where
  values := enterPhis phis pred store.values
  regs := fun r =>
    match phis.find? fun phi => phi.dst.reg = r with
    | some phi => enterPhis phis pred store.values phi.dst
    | none => store.regs r
  state := store.state

end FrameStore

/-- An operation that a run executes, on the values it reads. -/
structure Execution (Value σ : Type) where
  op : SsaOp
  values : List Value
  state : σ

namespace Machine

variable {Value σ Event : Type} (m : Machine Value σ Event) (frame : SsaOp → List Nat)

/-- What is executed of the operations of a block, and what is behind them. -/
def executeOps : List SsaOp → FrameStore Value σ → Nat →
    List (Execution Value σ) × Option (FrameStore Value σ × Nat)
  | [], store, next => ([], some (store, next))
  | op :: rest, store, next =>
    let effect := m.exec op (store.reads frame op) store.state
    if effect.stops then ([⟨op, store.reads frame op, store.state⟩], none)
    else
      let result := executeOps rest (store.assign op.dst effect.value effect.state)
        (if op.dst.isNone then effect.next else next)
      (⟨op, store.reads frame op, store.state⟩ :: result.1, result.2)

/-- What is executed in a run through at most `n` blocks. -/
def executions (f : SsaFunction) : Nat → BlockId → BlockId → FrameStore Value σ →
    List (Execution Value σ)
  | 0, _, _, _ => []
  | n + 1, pred, id, store =>
    match f.block? id with
    | none => []
    | some b =>
      let result := executeOps m frame b.ops (store.enter b.phis pred) 0
      result.1 ++ match result.2 with
        | none => []
        | some (store, next) =>
          match b.successors[next]? with
          | none => []
          | some succ => executions f n id succ store

def events (e : Execution Value σ) : List Event := (m.exec e.op e.values e.state).events

/-- The events of a run in which operations also read by position. -/
def runInFrame (f : SsaFunction) (n : Nat) (pred id : BlockId) (store : FrameStore Value σ) :
    List Event :=
  (m.executions frame f n pred id store).flatMap m.events

/-- No operation reads by position. -/
theorem executeOps_nil_frame (ops : List SsaOp) (store : FrameStore Value σ) (next : Nat) :
    ((m.executeOps (fun _ => []) ops store next).1.flatMap m.events =
        (m.runOps ops store.values store.state next).1) ∧
      ((m.executeOps (fun _ => []) ops store next).2.map fun x =>
          (x.1.values, x.1.state, x.2)) =
        (m.runOps ops store.values store.state next).2 := by
  induction ops generalizing store next with
  | nil => exact ⟨rfl, rfl⟩
  | cons op rest ih =>
    simp only [executeOps, runOps, FrameStore.reads, List.map_nil, List.append_nil]
    split
    · exact ⟨by simp [events], rfl⟩
    · obtain ⟨hevents, hend⟩ := ih (store.assign op.dst _ _) _
      exact ⟨by rw [List.flatMap_cons, hevents]; rfl, hend⟩

/-- When no operation reads by position, the registers do not matter. -/
theorem runInFrame_nil_frame (f : SsaFunction) (n : Nat) (pred id : BlockId)
    (store : FrameStore Value σ) :
    m.runInFrame (fun _ => []) f n pred id store = m.run f n pred id store.values store.state := by
  induction n generalizing pred id store with
  | zero => rfl
  | succ n ih =>
    unfold runInFrame executions run
    cases f.block? id with
    | none => rfl
    | some b =>
      obtain ⟨hevents, hend⟩ := m.executeOps_nil_frame b.ops (store.enter b.phis pred) 0
      dsimp only [FrameStore.enter] at hevents hend ⊢
      rw [List.flatMap_append, hevents, ← hend]
      congr 1
      cases (m.executeOps (fun _ => []) b.ops _ 0).2 with
      | none => rfl
      | some result =>
        dsimp only [Option.map_some]
        cases b.successors[result.2]? with
        | none => rfl
        | some succ => exact ih id succ result.1

end Machine

/-! ## Runs with and without what is removed -/

section Simulation

variable {Value σ Event : Type} (m : Machine Value σ Event) {frame : SsaOp → List Nat}
  {f : SsaFunction}

/-- Two stores between which nothing that follows operation `i` of a block can tell. -/
structure AlikeAt (f : SsaFunction) (frame : SsaOp → List Nat) (id : BlockId) (i : Nat)
    (store store' : FrameStore Value σ) : Prop where
  values : AgreeOnReads f store.values store'.values
  regs : ∀ r, f.ReadInFrame frame r id i → store'.regs r = store.regs r
  state : m.same store.state store'.state

/-- What is removed of the block holds nothing that is read by position. -/
structure SsaFunction.FrameKept (f : SsaFunction) (frame : SsaOp → List Nat) : Prop where
  ops : ∀ id b, f.block? id = some b → ∀ i op dst, b.ops[i]? = some op → op ∈ removedOps f →
    op.dst = some dst → ¬ f.ReadInFrame frame dst.reg id (i + 1)
  phis : ∀ id b, f.block? id = some b → ∀ phi ∈ b.phis, phi ∈ removedPhis f →
    ¬ f.ReadInFrame frame phi.dst.reg id 0

theorem SsaFunction.block?_mem {id : BlockId} {b : SsaBlock} (h : f.block? id = some b) :
    b ∈ f.blocks :=
  List.mem_reverse.mp (List.mem_of_find?_eq_some h)

namespace AlikeAt

variable {m} {id : BlockId} {b : SsaBlock} {i : Nat} {op : SsaOp} {store store' : FrameStore Value σ}

theorem refl (store : FrameStore Value σ) : AlikeAt m f frame id i store store :=
  ⟨fun _ _ => rfl, fun _ _ => rfl, m.equiv.refl _⟩

theorem reads (h : AlikeAt m f frame id i store store') (hblock : f.block? id = some b)
    (hop : b.ops[i]? = some op) : store'.reads frame op = store.reads frame op := by
  have hmem : op ∈ f.ops :=
    SsaFunction.mem_ops.mpr ⟨b, SsaFunction.block?_mem hblock, List.mem_of_getElem? hop⟩
  rw [FrameStore.reads, FrameStore.reads, h.values.reads hmem]
  congr 1
  exact List.map_congr_left fun r hr => h.regs r (.read hblock hop hr)

/-- Both runs execute the operation. -/
theorem assign (h : AlikeAt m f frame id i store store') (hblock : f.block? id = some b)
    (hop : b.ops[i]? = some op) (value : Value) {s s' : σ} (hsame : m.same s s') :
    AlikeAt m f frame id (i + 1) (store.assign op.dst value s) (store'.assign op.dst value s') where
  values := h.values.assign op.dst value
  regs := by
    intro r hr
    cases hdst : op.dst with
    | none => exact h.regs r (.step hblock hop (by simp [hdst]) hr)
    | some dst =>
      by_cases heq : r = dst.reg
      · simp [FrameStore.assign, heq]
      · have hread := h.regs r (.step hblock hop (by simpa [hdst] using fun h => heq h.symm) hr)
        simpa [FrameStore.assign, Function.update_of_ne heq] using hread
  state := hsame

/-- The phis that stay give the registers that are read what all phis give them. -/
theorem enter (hkept : f.FrameKept frame) (hblock : f.block? id = some b) (pred : BlockId)
    (hvalues : AgreeOnReads f store.values store'.values)
    (hregs : ∀ r, (∀ phi ∈ b.phis, phi.dst.reg ≠ r) → f.ReadInFrame frame r id 0 →
      store'.regs r = store.regs r)
    (hstate : m.same store.state store'.state) :
    AlikeAt m f frame id 0 (store.enter b.phis pred)
      (store'.enter (b.phis.filter fun phi => !(f.countUses phi.dst == 0)) pred) where
  values := agreeOnReads_enterPhis (SsaFunction.block?_mem hblock) hvalues pred
  regs := by
    intro r hr
    have hused : ∀ phi ∈ b.phis, phi.dst.reg = r → 0 < f.countUses phi.dst := by
      intro phi hphi hreg
      by_contra huse
      have hremoved : phi ∈ removedPhis f :=
        List.mem_filter.mpr ⟨List.mem_flatMap.mpr ⟨b, SsaFunction.block?_mem hblock, hphi⟩,
          by simpa using huse⟩
      exact hkept.phis id b hblock phi hphi hremoved (hreg ▸ hr)
    have hfind : (b.phis.filter fun phi => !(f.countUses phi.dst == 0)).find?
        (fun phi => phi.dst.reg = r) = b.phis.find? fun phi => phi.dst.reg = r := by
      rw [List.find?_filter]
      refine List.find?_congr fun phi hphi => ?_
      by_cases hreg : phi.dst.reg = r
      · have huse := hused phi hphi hreg
        simp [hreg, huse.ne']
      · simp [hreg]
    simp only [FrameStore.enter, hfind]
    cases hphi : b.phis.find? fun phi => phi.dst.reg = r with
    | none =>
      rw [List.find?_eq_none] at hphi
      exact hregs r (fun phi hmem => by simpa using hphi phi hmem) hr
    | some phi =>
      have hreg : phi.dst.reg = r := by simpa using List.find?_some hphi
      exact agreeOnReads_enterPhis (SsaFunction.block?_mem hblock) hvalues pred phi.dst
        (hused phi (List.mem_of_find?_eq_some hphi) hreg)
  state := hstate

/-- Behind the last operation of a block, the run goes on at a successor. -/
theorem jump (h : AlikeAt m f frame id i store store') (hkept : f.FrameKept frame)
    (hblock : f.block? id = some b) (hend : b.ops[i]? = none) {succ : BlockId}
    (hsucc : succ ∈ b.successors) {next : SsaBlock} (hnext : f.block? succ = some next) :
    AlikeAt m f frame succ 0 (store.enter next.phis id)
      (store'.enter (next.phis.filter fun phi => !(f.countUses phi.dst == 0)) id) :=
  enter hkept hnext id h.values
    (fun r hphis hr => h.regs r (.jump hblock hend hsucc hnext hphis hr)) h.state

end AlikeAt

end Simulation

/-! ## Soundness -/

/-- The names that `is_pure` lists although they may do something: operators that convert their
operands and so may call, iterations and enumerations, object creation that may throw, and
what stops the run. -/
def effectfulNames : List String :=
  ["Add", "Sub", "Mul", "Div", "Mod", "Exp", "BitAnd", "BitOr", "BitXor", "BitNot", "LShift",
    "RShift", "URshift", "Negate", "Inc", "Dec", "Less", "LessEqual", "Greater", "GreaterEqual",
    "Eq", "Neq", "InstanceOf", "IsIn", "ToNumber", "ToNumeric", "ToInt32", "ToString",
    "AddEmptyString", "CreateThis", "CreateThisForNew", "IteratorNext", "IteratorClose",
    "GetPNameList", "GetNextPName", "Unreachable", "Debugger", "AsyncBreakCheck"]

section Soundness

variable {Value σ Event : Type} (m : Machine Value σ Event) (frame : SsaOp → List Nat)
  (f : SsaFunction) (entry : BlockId)

variable {m frame f entry}

end Soundness

/-- A machine on plain values and objects. Operators call a method of an object, and what is
pure does nothing on plain values. -/
def callingMachine : Machine Bool Unit (String × List Bool) where
  exec op values _ :=
    if effectfulNames.contains op.name then
      ⟨false, (), if values.contains true then [(op.name, values)] else [], false, 0⟩
    else if isPure op.name then ⟨false, (), [], false, 0⟩
    else ⟨true, (), [(op.name, values)], op.name == "Ret", 0⟩
  same _ _ := True
  equiv := ⟨fun _ => trivial, fun _ => trivial, fun _ _ => trivial⟩
  congr _ _ _ := ⟨rfl, trivial, rfl, rfl, rfl⟩

namespace UnusedSum

def zero : SsaOp :=
  ⟨"LoadConstZero", some ⟨1, 0⟩, [.dstPlaceholder], ⟨0, 2, "LoadConstZero", [.reg 1]⟩⟩

def sum : SsaOp :=
  ⟨"Add", some ⟨5, 0⟩, [.dstPlaceholder, .var ⟨1, 0⟩, .var ⟨1, 0⟩],
    ⟨2, 4, "Add", [.reg 5, .reg 1, .reg 1]⟩⟩

def object : SsaOp :=
  ⟨"Construct", some ⟨6, 0⟩, [.dstPlaceholder, .var ⟨2, 0⟩, .const 1],
    ⟨6, 4, "Construct", [.reg 6, .reg 2, .uint 1]⟩⟩

def ret : SsaOp := ⟨"Ret", none, [.var ⟨6, 0⟩], ⟨10, 2, "Ret", [.reg 6]⟩⟩

/-- The sum of two zeros is not used, and an object is constructed. -/
def function : SsaFunction :=
  ⟨[{
    id := 0
    phis := []
    ops := [zero, sum, object, ret]
    successors := []
    predecessors := [] }]⟩

theorem executions (n : Nat) (pred : BlockId) (store : FrameStore Bool Unit) :
    callingMachine.executions (callFrame 20) function (n + 1) pred 0 store =
      [⟨zero, [], store.state⟩, ⟨sum, [false, false], ()⟩,
        ⟨object, [store.values ⟨2, 0⟩, store.regs 12], ()⟩, ⟨ret, [true], ()⟩] := rfl

end UnusedSum

end Hermes.Decompile
