-- SUMMARY: The shape of a built graph, part by part, over the opcode tables that its labels rest on.
import DroidsawHermes.Decompile.CfgOracle
import DroidsawHermes.Decompile.CfgWellFormed

/-!
# Shapes

`ShapeOf` is the shape that the parts of an instruction list have: their starts,
their instructions and their labelled edges. A built graph has this shape.
-/

open Bytes

namespace Hermes.Decompile

/-! ## Opcode tables -/

/-- What the opcode tables of every version promise about names: an address in the
first operand is a branch target, and no `J` instruction is a switch. -/
structure OpcodeTables.Sound (t : OpcodeTables) : Prop where
  branchTarget : ∀ opcode < t.sizes.length,
    (t.getSchema opcode).2.head? = some .A1 ∨ (t.getSchema opcode).2.head? = some .A4 →
    oracleHasBranchTarget (t.instName opcode)
  jump : ∀ opcode < t.sizes.length, (t.instName opcode).toList.head? = some 'J' →
    containsText (t.instName opcode) "SwitchImm" = false

/-- The same for one instruction. -/
structure DecodedInst.Sound (inst : DecodedInst) : Prop where
  branchTarget : inst.branchTarget ≠ none → oracleHasBranchTarget inst.name
  jump : inst.name.toList.head? = some 'J' → inst.isSwitch = false

theorem FromTables.sound {t : OpcodeTables} (ht : t.Sound) {inst : DecodedInst}
    (h : FromTables t inst) : inst.Sound := by
  obtain ⟨opcode, hlt, hname, haddr⟩ := h.entry
  constructor
  · intro htarget
    rw [DecodedInst.branchTarget] at htarget
    split at htarget
    · next rel hhead =>
      rw [hname]
      exact ht.branchTarget opcode hlt (haddr rel hhead)
    · exact absurd rfl htarget
  · intro hhead
    rw [DecodedInst.isSwitch, hname]
    exact ht.jump opcode hlt (hname ▸ hhead)

theorem DecodedFrom.sound {t : OpcodeTables} (ht : t.Sound) {code : List UInt8} {pos : Nat}
    {insts : List DecodedInst} (h : DecodedFrom t code pos insts) : ∀ inst ∈ insts, inst.Sound := by
  induction h with
  | done => simp
  | inst hoffset htable hrest ih => exact List.forall_mem_cons.mpr ⟨htable.sound ht, ih⟩

theorem v95Tables_sound : v95Tables.Sound := by
  constructor <;> decide +kernel

/-! ## Predicates -/

theorem isUncondJump_eq (inst : DecodedInst) :
    oracleIsUncondJump inst.name = inst.isUnconditionalJump := rfl

theorem isStringSwitch_eq (inst : DecodedInst) :
    oracleIsStringSwitch inst.name = inst.isStringSwitch := rfl

theorem isSwitch_of_string {inst : DecodedInst} (h : inst.isStringSwitch) : inst.isSwitch := by
  rw [DecodedInst.isSwitch, of_decide_eq_true h]
  decide

theorem isIntSwitch_eq (inst : DecodedInst) :
    oracleIsIntSwitch inst.name = (inst.isSwitch && !inst.isStringSwitch) := by
  simp [oracleIsIntSwitch, DecodedInst.isSwitch, DecodedInst.isStringSwitch]

theorem isCondBranch_eq {inst : DecodedInst} (h : inst.Sound) :
    oracleIsCondBranch inst.name = inst.isConditionalBranch := by
  rw [Bool.eq_iff_iff, oracleIsCondBranch, DecodedInst.isConditionalBranch, Bool.and_eq_true]
  refine ⟨And.left, fun hbranch => ⟨hbranch, ?_⟩⟩
  simp only [Bool.and_eq_true] at hbranch
  have hswitch := h.jump (of_decide_eq_true hbranch.1.1)
  rw [DecodedInst.isSwitch] at hswitch
  rw [hswitch]
  rfl

theorem isTerminator_eq {inst : DecodedInst} (h : inst.Sound) :
    oracleIsTerminator inst.name = inst.isTerminator := by
  have hjump : inst.isJump =
      (inst.isUnconditionalJump || inst.isConditionalBranch || inst.isSwitch) := by
    have hJ : inst.isUnconditionalJump → inst.name.toList.head? = some 'J' := by
      intro hjmp
      simp only [DecodedInst.isUnconditionalJump, Bool.or_eq_true, decide_eq_true_eq] at hjmp
      rcases hjmp with hname | hname <;> rw [hname] <;> decide
    rw [Bool.eq_iff_iff]
    simp only [DecodedInst.isUnconditionalJump, Bool.or_eq_true, decide_eq_true_eq] at hJ
    simp only [DecodedInst.isJump, DecodedInst.isUnconditionalJump,
      DecodedInst.isConditionalBranch, DecodedInst.isSwitch, containsText, Bool.or_eq_true,
      Bool.and_eq_true, decide_eq_true_eq]
    tauto
  have hstring : inst.isStringSwitch → inst.isSwitch := isSwitch_of_string
  rw [oracleIsTerminator, isUncondJump_eq, isCondBranch_eq h, isStringSwitch_eq, isIntSwitch_eq,
    DecodedInst.isTerminator, hjump, oracleIsReturn, oracleIsThrow, oracleIsUnreachable,
    DecodedInst.isReturn, DecodedInst.isThrow, Bool.eq_iff_iff]
  simp only [Bool.or_eq_true, Bool.and_eq_true, Bool.not_eq_true']
  cases hs : inst.isStringSwitch <;> simp_all

/-! ## Labelled edges -/

/-- How control leaves a block. -/
inductive Flow where
  | jump | branch | switch | stop | next
  deriving DecidableEq

def DecodedInst.flow (inst : DecodedInst) : Flow :=
  if inst.isUnconditionalJump then .jump
  else if inst.isConditionalBranch then .branch
  else if inst.isSwitch then .switch
  else if inst.isReturn || inst.isThrow || inst.name = "Unreachable" then .stop
  else .next

/-- The labelled edges of a block with this last instruction, without catch edges. -/
def LabelledEdge (bytecodes : List UInt8) (ids : List BlockId) (last : DecodedInst) (t : BlockId)
    (kind : EdgeKindOracle) : Prop :=
  t ∈ ids ∧
    match last.flow with
    | .jump => kind = .branch ∧ last.branchTarget = some t
    | .branch => kind = .branch ∧ last.branchTarget = some t ∨
        kind = .fallThrough ∧ instNextOffset last = some t ∧ last.branchTarget ≠ some t
    | .switch => kind = .switchDefault ∧ defaultTarget last = some t ∨
        kind = .branch ∧ t ∈ caseTargets bytecodes last ∧ defaultTarget last ≠ some t
    | .stop => False
    | .next => kind = .fallThrough ∧ instNextOffset last = some t

theorem successorsOf_flow (bytecodes : List UInt8) (ids : List BlockId) (next : Option BlockId)
    (last : DecodedInst) : successorsOf bytecodes ids next last =
      match last.flow with
      | .jump => knownTarget ids last.branchTarget
      | .branch => knownTarget ids last.branchTarget ++ knownTarget ids (instNextOffset last)
      | .switch => (caseTargets bytecodes last).foldl (pushCase ids)
          (knownTarget ids (defaultTarget last))
      | .stop => []
      | .next => next.toList := by
  unfold successorsOf DecodedInst.flow
  split_ifs <;> rfl

theorem stop_of_exit {inst : DecodedInst}
    (h : (inst.isReturn || inst.isThrow || inst.name = "Unreachable") = true) :
    inst.flow = .stop := by
  have hname : inst.name = "Ret" ∨ inst.name = "Throw" ∨ inst.name = "Unreachable" := by
    simp only [DecodedInst.isReturn, DecodedInst.isThrow, Bool.or_eq_true, decide_eq_true_eq] at h
    tauto
  have hjump : inst.isUnconditionalJump = false := by
    rcases hname with hname | hname | hname <;> rw [DecodedInst.isUnconditionalJump, hname] <;>
      decide
  have hbranch : inst.isConditionalBranch = false := by
    rcases hname with hname | hname | hname <;> rw [DecodedInst.isConditionalBranch, hname] <;>
      decide
  have hswitch : inst.isSwitch = false := by
    rcases hname with hname | hname | hname <;> rw [DecodedInst.isSwitch, hname] <;> decide
  simp [DecodedInst.flow, hjump, hbranch, hswitch, h]

/-! ## Shapes of parts -/

/-- The edges of a part, catch edge included. -/
def PartEdge (excHandlers : List ExcHandler) (bytecodes : List UInt8)
    (ps : List (List DecodedInst)) (part : List DecodedInst) (e : OracleEdge) : Prop :=
  (∃ c ∈ lastHandler excHandlers (startOf part) (stopOf part) none,
    e = (startOf part, c, .exceptionHandler)) ∨
  ∃ last ∈ part.getLast?, ∃ t kind, e = (startOf part, t, kind) ∧
    LabelledEdge bytecodes (ps.map startOf) last t kind

/-- The shape of the parts. -/
structure ShapeOf (excHandlers : List ExcHandler) (bytecodes : List UInt8)
    (ps : List (List DecodedInst)) (shape : CfgShape) : Prop where
  leaders : shape.leaders.keys = ps.map startOf
  edges : ∀ e, e ∈ shape.edges ↔ ∃ part ∈ ps, PartEdge excHandlers bytecodes ps part e
  entry : shape.entry = 0
  blockInstructions : shape.blockInstructions.toList =
    ps.map fun part => (startOf part, part.map (·.offset))

theorem ShapeOf.unique {excHandlers : List ExcHandler} {bytecodes : List UInt8}
    {ps : List (List DecodedInst)} {shape shape' : CfgShape}
    (h : ShapeOf excHandlers bytecodes ps shape) (h' : ShapeOf excHandlers bytecodes ps shape') :
    shape = shape' := by
  have hleaders : shape.leaders = shape'.leaders :=
    OrdSet.ext_keys fun k => by rw [h.leaders, h'.leaders]
  have hedges : shape.edges = shape'.edges :=
    Finset.ext fun e => by rw [h.edges, h'.edges]
  have hblocks : shape.blockInstructions = shape'.blockInstructions :=
    OrdMap.ext (h.blockInstructions.trans h'.blockInstructions.symm)
  cases shape
  cases shape'
  simp only [CfgShape.mk.injEq]
  exact ⟨hleaders, hedges, h.entry.trans h'.entry.symm, hblocks⟩

/-! ## Labels of a built graph -/

theorem successorKind_flow {last : DecodedInst} (h : last.Sound) (t : BlockId) :
    successorKind (some last) t =
      match last.flow with
      | .jump => .branch
      | .branch => if some t = shapeTarget last then .branch else .fallThrough
      | .switch => if some t = defaultTarget last then .switchDefault else .branch
      | .stop | .next => .fallThrough := by
  have hswitch : (last.isStringSwitch || (last.isSwitch && !last.isStringSwitch)) =
      last.isSwitch := by
    by_cases hstring : last.isStringSwitch
    · simp [hstring, isSwitch_of_string hstring]
    · simp [hstring]
  have hdefault : shapeDefault last = defaultTarget last := rfl
  simp only [successorKind, Option.elim_some, Option.bind_some, isUncondJump_eq, isCondBranch_eq h,
    isStringSwitch_eq, isIntSwitch_eq, hswitch, hdefault, DecodedInst.flow]
  by_cases hjump : last.isUnconditionalJump
  · simp only [hjump, if_true]
  · by_cases hbranch : last.isConditionalBranch
    · simp only [hjump, hbranch, if_true, if_false, Bool.false_eq_true]
    · by_cases hsw : last.isSwitch
      · simp only [hjump, hbranch, hsw, if_true, if_false, Bool.false_eq_true]
      · simp only [hjump, hbranch, hsw, if_false, Bool.false_eq_true]
        split_ifs <;> rfl

theorem shapeTarget_cases (last : DecodedInst) : shapeTarget last = last.branchTarget ∨
    last.branchTarget = none ∧ shapeTarget last = checkedAddSigned last.offset 0 := by
  cases hhead : last.operands.head? with
  | none =>
    right
    simp only [shapeTarget, DecodedInst.branchTarget, hhead, true_and]
  | some op =>
    cases op with
    | addr rel =>
      left
      simp only [shapeTarget, DecodedInst.branchTarget, hhead]
    | _ =>
      right
      simp only [shapeTarget, DecodedInst.branchTarget, hhead, true_and]

/-- Either way to read the target agrees on the successors. -/
theorem shapeTarget_iff {last : DecodedInst} {t : BlockId} (hpos : 0 < last.size)
    (ht : last.branchTarget = some t ∨ instNextOffset last = some t) :
    some t = shapeTarget last ↔ last.branchTarget = some t := by
  rcases shapeTarget_cases last with heq | ⟨hnone, heq⟩
  · rw [heq, eq_comm]
  · -- without a target only the next block is left, and it is not at the offset
    rw [heq, hnone]
    refine iff_of_false (fun hself => ?_) (by simp)
    rw [hnone] at ht
    have hnext := ht.resolve_left (by simp)
    obtain ⟨-, rfl⟩ := instNextOffset_eq_some.mp hnext
    simp only [checkedAddSigned, DecodedInst.stop] at hself
    split at hself
    · simp only [Option.some.injEq, Int.add_zero, Int.toNat_natCast] at hself
      exact absurd (Nat.add_eq_left.mp hself) (Nat.ne_of_gt hpos)
    · cases hself

/-! ## Edges of the built graph -/

theorem mem_foldl_pushCase {ids cases succs : List BlockId} {s : BlockId} :
    s ∈ cases.foldl (pushCase ids) succs ↔ s ∈ succs ∨ s ∈ cases ∧ s ∈ ids := by
  induction cases generalizing succs with
  | nil => simp
  | cons t cases ih =>
    rw [List.foldl_cons, ih, pushCase]
    split
    · next hnew =>
      simp only [List.mem_append, List.mem_cons, List.not_mem_nil, or_false]
      grind
    · next hold =>
      simp only [List.mem_cons]
      grind

theorem mem_head?_knownTarget {ids : List BlockId} {target : Option Nat} {s : BlockId} :
    s ∈ (knownTarget ids target).head?.toList ↔ target = some s ∧ s ∈ ids := by
  rw [← mem_knownTarget]
  cases target with
  | none => simp [knownTarget]
  | some t => by_cases ht : t ∈ ids <;> simp [knownTarget, ht]

/-- The successors with their labels are the labelled edges. -/
theorem labelled_successors {bytecodes : List UInt8} {ids : List BlockId} {last : DecodedInst}
    (h : last.Sound) (hpos : 0 < last.size) {t : BlockId} {kind : EdgeKindOracle} :
    (t ∈ successorsOf bytecodes ids (knownTarget ids (instNextOffset last)).head? last ∧
        kind = successorKind (some last) t) ↔
      LabelledEdge bytecodes ids last t kind := by
  rw [successorsOf_flow, successorKind_flow h, LabelledEdge]
  cases last.flow with
  | jump =>
    simp only [mem_knownTarget]
    tauto
  | branch =>
    simp only [List.mem_append, mem_knownTarget]
    constructor
    · rintro ⟨ht, rfl⟩
      have hiff := shapeTarget_iff hpos (ht.imp And.left And.left)
      simp only [hiff]
      grind
    · rintro ⟨hid, ⟨rfl, ht⟩ | ⟨rfl, hnext, hne⟩⟩
      · have hiff := shapeTarget_iff hpos (Or.inl ht)
        simp only [hiff]
        grind
      · have hiff := shapeTarget_iff hpos (Or.inr hnext)
        simp only [hiff]
        grind
  | switch =>
    simp only [mem_foldl_pushCase, mem_knownTarget]
    grind
  | stop => simp
  | next =>
    simp only [mem_head?_knownTarget]
    tauto

theorem mem_foldl_successorEdge {cfg : Cfg} {b : BasicBlock} {l : List BlockId}
    {edges : Finset OracleEdge} {e : OracleEdge} :
    e ∈ l.foldl (cfg.successorEdge b) edges ↔ e ∈ edges ∨ ∃ s ∈ l, ∃ tb ∈ cfg.blocks.get? s,
      e = (b.start, tb.start, successorKind b.instructions.getLast? tb.start) := by
  induction l generalizing edges with
  | nil => simp
  | cons s l ih =>
    have hstep : e ∈ cfg.successorEdge b edges s ↔ e ∈ edges ∨ ∃ tb ∈ cfg.blocks.get? s,
        e = (b.start, tb.start, successorKind b.instructions.getLast? tb.start) := by
      rw [Cfg.successorEdge]
      cases cfg.blocks.get? s with
      | none => simp
      | some tb => simp [or_comm]
    rw [List.foldl_cons, ih, hstep, List.exists_mem_cons_iff, or_assoc]

theorem lastHandler_mem {excHandlers : List ExcHandler} {start stop : Nat} {init : Option BlockId}
    {c : BlockId} (h : lastHandler excHandlers start stop init = some c) :
    init = some c ∨ ∃ eh ∈ excHandlers, eh.target = c := by
  induction excHandlers generalizing init with
  | nil => exact Or.inl h
  | cons eh rest ih =>
    rw [lastHandler, List.foldl_cons] at h
    rcases ih h with hinit | ⟨other, hother, heq⟩
    · split at hinit
      · exact Or.inr ⟨eh, List.mem_cons_self, Option.some.inj hinit⟩
      · exact Or.inl hinit
    · exact Or.inr ⟨other, List.mem_cons_of_mem _ hother, heq⟩

section BuiltEdges

variable {insts : List DecodedInst} {excHandlers : List ExcHandler} {bytecodes : List UInt8}
  {boundaries : OrdSet Nat} {cfg : Cfg} {hi : Nat}

theorem Built.get? (h : Built insts excHandlers bytecodes boundaries cfg)
    {part : List DecodedInst} (hpart : part ∈ parts boundaries insts) :
    cfg.blocks.get? (startOf part) =
      some (builtBlock excHandlers bytecodes (parts boundaries insts) part) := by
  rw [OrdMap.get?_eq_some_iff, h.blocks]
  exact List.mem_map_of_mem hpart

theorem Built.mem_blockEdges (h : Built insts excHandlers bytecodes boundaries cfg)
    (htiles : InstTiles 0 hi insts) (hsound : ∀ inst ∈ insts, inst.Sound)
    {part : List DecodedInst} (hpart : part ∈ parts boundaries insts) {edges : Finset OracleEdge}
    {e : OracleEdge} :
    e ∈ cfg.blockEdges edges (builtBlock excHandlers bytecodes (parts boundaries insts) part) ↔
      e ∈ edges ∨ PartEdge excHandlers bytecodes (parts boundaries insts) part e := by
  obtain ⟨last, hlast, hmem⟩ := exists_getLast hpart
  have hpos : 0 < last.size := by
    have hlt := (htiles.bounds hmem).2.1
    rw [DecodedInst.stop] at hlt
    omega
  have hcatch : e ∈ cfg.excEdge edges
      (builtBlock excHandlers bytecodes (parts boundaries insts) part) ↔ e ∈ edges ∨
        ∃ c ∈ lastHandler excHandlers (startOf part) (stopOf part) none,
          e = (startOf part, c, .exceptionHandler) := by
    rw [Cfg.excEdge, builtBlock]
    cases hc : lastHandler excHandlers (startOf part) (stopOf part) none with
    | none => simp
    | some c =>
      obtain ⟨eh, heh, rfl⟩ := (lastHandler_mem hc).resolve_left (by simp)
      obtain ⟨target, htarget, heq⟩ := List.mem_map.mp (h.targets eh heh)
      rw [Option.bind_some, ← heq, h.get? htarget]
      simp [builtBlock, or_comm]
  have hsucc : (∃ s ∈ partSuccessors bytecodes ((parts boundaries insts).map startOf) part,
      ∃ tb ∈ cfg.blocks.get? s, e = (startOf part, tb.start, successorKind part.getLast? tb.start)) ↔
      ∃ last ∈ part.getLast?, ∃ t kind, e = (startOf part, t, kind) ∧
        LabelledEdge bytecodes ((parts boundaries insts).map startOf) last t kind := by
    rw [partSuccessors, hlast]
    simp only [Option.mem_def, Option.some.injEq, exists_eq_left',
      ← labelled_successors (hsound last hmem) hpos]
    constructor
    · rintro ⟨s, hs, tb, htb, rfl⟩
      have hid := mem_of_mem_successorsOf (fun t ht =>
        (mem_head?_knownTarget.mp (Option.mem_toList.mpr ht)).2) hs
      obtain ⟨target, htarget, rfl⟩ := List.mem_map.mp hid
      cases (h.get? htarget).symm.trans htb
      exact ⟨_, _, rfl, hs, rfl⟩
    · rintro ⟨t, kind, rfl, ht, rfl⟩
      have hid := mem_of_mem_successorsOf (fun t ht =>
        (mem_head?_knownTarget.mp (Option.mem_toList.mpr ht)).2) ht
      obtain ⟨target, htarget, rfl⟩ := List.mem_map.mp hid
      exact ⟨_, ht, _, h.get? htarget, rfl⟩
  rw [Cfg.blockEdges, mem_foldl_successorEdge, hcatch, or_assoc, PartEdge, ← hsucc]
  rfl

theorem Built.mem_toShape_edges (h : Built insts excHandlers bytecodes boundaries cfg)
    (htiles : InstTiles 0 hi insts) (hsound : ∀ inst ∈ insts, inst.Sound) {e : OracleEdge} :
    e ∈ cfg.toShape.edges ↔ ∃ part ∈ parts boundaries insts,
      PartEdge excHandlers bytecodes (parts boundaries insts) part e := by
  have hfold : ∀ (l : List (List DecodedInst)) (edges : Finset OracleEdge),
      (∀ part ∈ l, part ∈ parts boundaries insts) →
      (e ∈ (l.map (builtBlock excHandlers bytecodes (parts boundaries insts))).foldl
          cfg.blockEdges edges ↔
        e ∈ edges ∨ ∃ part ∈ l,
          PartEdge excHandlers bytecodes (parts boundaries insts) part e) := by
    intro l
    induction l with
    | nil => simp
    | cons part l ih =>
      intro edges hl
      obtain ⟨hpart, hrest⟩ := List.forall_mem_cons.mp hl
      rw [List.map_cons, List.foldl_cons, ih _ hrest, h.mem_blockEdges htiles hsound hpart,
        List.exists_mem_cons_iff, or_assoc]
  rw [Cfg.toShape, h.values, hfold _ _ fun _ hpart => hpart]
  simp

theorem Built.toShape_spec (h : Built insts excHandlers bytecodes boundaries cfg)
    (hne : insts ≠ []) (htiles : InstTiles 0 hi insts) (hsound : ∀ inst ∈ insts, inst.Sound) :
    ShapeOf excHandlers bytecodes (parts boundaries insts) cfg.toShape := by
  have hps := parts_tiles boundaries htiles
  have hsorted : (cfg.blocks.values).Pairwise fun a b => a.start < b.start := by
    rw [h.values]
    exact List.pairwise_map.mpr hps.starts_sorted
  constructor
  · have hlist := @OrdMap.toList_foldl_insert _ _ _ _ BasicBlock.start (fun _ => ()) _
      (OrdMap.empty : OrdMap Nat Unit) hsorted (by simp [OrdMap.empty, OrdMap.keys])
    have hkeys : cfg.toShape.leaders.keys = cfg.blocks.values.map (·.start) := by
      rw [OrdMap.keys, show cfg.toShape.leaders.toList = _ from hlist]
      simp [OrdMap.empty, Function.comp_def]
    rw [hkeys, h.values, List.map_map]
    rfl
  · exact fun e => h.mem_toShape_edges htiles hsound
  · -- the first block is the entry
    have hpsNe := parts_ne boundaries hne
    have hfirst := hps.start_head hpsNe
    have hget := h.get? (List.head_mem hpsNe)
    rw [hfirst] at hget
    rw [Cfg.toShape, h.entry, hget]
    exact hfirst
  · have hlist := @OrdMap.toList_foldl_insert _ _ _ _ BasicBlock.start
      (fun b : BasicBlock => b.instructions.map (·.offset)) _
      (OrdMap.empty : OrdMap Nat (List Nat)) hsorted (by simp [OrdMap.empty, OrdMap.keys])
    rw [Cfg.toShape, hlist, h.values, List.map_map]
    rfl

end BuiltEdges

end Hermes.Decompile
