-- SUMMARY: The window of the file that the decompiler reads jump tables in, and which tables it sees whole.
import DroidsawHermes.Decompile.SwitchTables
import DroidsawHermes.Parser.Regions

/-!
# The code window

`decompile_one` of `decompile/mod.rs` hands the graph construction the body of a
function and the 256 bytes behind it. The construction skips the table entries
past that window, so a case is lost where no entry inside the window, and not the
default, has its target.
-/

open Bytes

namespace Hermes

def UnrecognizedReason.toError (funcId : Nat) : UnrecognizedReason → HermesError
  | .overflowedHeaderOutOfBounds largeOff bufLen =>
    .overflowedHeaderOutOfBounds funcId largeOff bufLen
  | .overflowedHeaderOverlapsSynthesizedRegion largeOff =>
    .overflowedHeaderOverlapsSynthesizedRegion funcId largeOff
  | .exceptionTableOverlapsSynthesizedRegion excOffset =>
    .exceptionTableOverlapsSynthesizedRegion funcId excOffset
  | .largeHeaderLayoutAmbiguous largeOff => .largeHeaderLayoutAmbiguous funcId largeOff
  | .exceptionHandlerOutOfFunctionRange handlerIdx start stop target fnSize =>
    .exceptionHandlerOutOfFunctionRange funcId handlerIdx start stop target fnSize

namespace Decompile

/-! ## decompile_one -/

def excHandlersOf (f : HbcFile) (funcId : Nat) : List ExcHandler :=
  (List.range (f.functionExceptionCount funcId)).map fun i =>
    let eh := f.functionExceptionGet funcId i
    ⟨eh.start, eh.stop, eh.target⟩

/-- `decompile_one` up to the graph, with the instructions that it decodes. `t` are
the tables of `opcode_version`. -/
def decompileOneGraph (f : HbcFile) (t : OpcodeTables) (data : List UInt8) (funcId : Nat) :
    Except HermesError (List DecodedInst × Cfg) :=
  if funcId ≥ f.functionCount then .error (.functionIdOutOfRange funcId f.functionCount)
  else
    let unrecognized := f.unrecognizedFunctions
    match (Sorted.binarySearchByKey UnrecognizedFunction.funcIdx funcId unrecognized).bind
        (unrecognized[·]?) with
    | some u => .error (u.reason.toError funcId)
    | none =>
      let d := f.functionGet funcId
      let fnEnd := d.offset + d.size
      if fnEnd > u64Max then
        .error (.arithmeticOverflow "function_offset_u64 + function_size_u64")
      else if fnEnd > data.length then
        .error (.functionBodyExceedsBuffer d.offset d.size data.length)
      else
        let codeEnd := min (fnEnd + 256) data.length
        match get? data d.offset codeEnd with
        | none => .error (.functionBodyExceedsBuffer d.offset d.size data.length)
        | some code =>
          if fnEnd > u32Max then .error (.arithmeticOverflow "function_offset + function_size (u32)")
          else
            match get? data d.offset fnEnd with
            | none => .error (.functionBodyExceedsBuffer d.offset d.size data.length)
            | some fnSlice => do
              let instructions ← decodeFunction t fnSlice
              let graph ← Cfg.build instructions (excHandlersOf f funcId) code
              .ok (instructions, graph)

/-- The graph is built from the decoded body and the code window. -/
theorem decompileOneGraph_ok {f : HbcFile} {t : OpcodeTables} {data : List UInt8} {funcId : Nat}
    {insts : List DecodedInst} {cfg : Cfg}
    (h : decompileOneGraph f t data funcId = .ok (insts, cfg)) :
    ∃ body, decodeFunction t body = .ok insts ∧
      Cfg.build insts (excHandlersOf f funcId)
        (slice data (f.functionGet funcId).offset
          (min ((f.functionGet funcId).offset + (f.functionGet funcId).size + 256) data.length)) =
        .ok cfg := by
  simp only [decompileOneGraph] at h
  split at h
  · cases h
  split at h
  · cases h
  split at h
  · cases h
  split at h
  · cases h
  split at h
  · cases h
  next code hcode =>
  split at h
  · cases h
  split at h
  · cases h
  next body hbody =>
  obtain ⟨instructions, hdecode, h⟩ := Loop.bind_eq_ok.mp h
  obtain ⟨graph, hbuild, h⟩ := Loop.bind_eq_ok.mp h
  cases h
  refine ⟨body, hdecode, ?_⟩
  simp only [get?] at hcode
  split at hcode
  · cases hcode
    exact hbuild
  · cases hcode

/-! ## Tables of a file -/

/-- The jump table of a switch, `n` entries at `start` from the beginning of the
function at `offset`, lies inside the file. -/
structure FileTable (data : List UInt8) (offset : Nat) (inst : DecodedInst) (start n : Nat) :
    Prop where
  name : inst.name = "SwitchImm" ∨ inst.name = "UIntSwitchImm"
  operands : ∃ jtOffset minCase maxCase, inst.operands[1]? = some (.uint jtOffset) ∧
    inst.operands[3]? = some (.uint minCase) ∧ inst.operands[4]? = some (.uint maxCase) ∧
    start = inst.offset + jtOffset ∧ n = maxCase + 1 - minCase
  count : n ≤ 65536
  inFile : offset + start + n * 4 ≤ data.length

/-- Every entry whose target is an instruction is a successor of its switch. -/
def TablesSeen (data : List UInt8) (offset : Nat) (insts : List DecodedInst) (cfg : Cfg) : Prop :=
  ∀ inst ∈ insts, ∀ start n, FileTable data offset inst start n →
    ∀ k < n, ∀ i ∈ insts, jumpEntry data inst (offset + start) k = some i.offset →
      ∃ b ∈ cfg.blocks.values, b.instructions.getLast? = some inst ∧ i.offset ∈ b.successors

/-- An entry past the 256 bytes behind the function that goes to an instruction
goes to the default, or to where an entry before goes. -/
def WindowSuffices (data : List UInt8) (offset size : Nat) (insts : List DecodedInst) : Prop :=
  ∀ inst ∈ insts, ∀ start n, FileTable data offset inst start n →
    ∀ k < n, ∀ i ∈ insts, jumpEntry data inst (offset + start) k = some i.offset →
      size + 256 < start + k * 4 + 4 →
      defaultTarget inst = some i.offset ∨ ∃ j < n, start + j * 4 + 4 ≤ size + 256 ∧
        jumpEntry data inst (offset + start) j = some i.offset

/-- The window shows the entries that end in it. -/
theorem mem_caseTargets {data : List UInt8} {offset stop start n : Nat} {inst : DecodedInst}
    (htable : FileTable data offset inst start n) (hstop : offset ≤ stop) {p : Nat} :
    p ∈ caseTargets (slice data offset (min stop data.length)) inst ↔
      ∃ k < n, offset + start + k * 4 + 4 ≤ stop ∧
        jumpEntry data inst (offset + start) k = some p := by
  obtain ⟨jtOffset, minCase, maxCase, hjt, hmin, hmax, rfl, rfl⟩ := htable.operands
  have hfile := htable.inFile
  have hcount : min (maxCase + 1 - minCase) 65536 = maxCase + 1 - minCase :=
    Nat.min_eq_left htable.count
  have hlen : (slice data offset (min stop data.length)).length = min stop data.length - offset :=
    length_slice (Nat.min_le_right _ _)
  simp only [caseTargets, (isSwitch_of_intName htable.name).1, Bool.false_eq_true, if_false,
    jumpTable, hjt, hmin, hmax, hcount, hlen, List.mem_filterMap, List.mem_range]
  constructor
  · rintro ⟨rel, ⟨k, hk, hrel⟩, hp⟩
    split at hrel
    · next hwindow =>
      rw [slice_slice (by omega)] at hrel
      refine ⟨k, hk, by omega, ?_⟩
      rw [jumpEntry, ← hp, ← Option.some.inj hrel]
      simp only [Nat.add_assoc]
    · cases hrel
  · rintro ⟨k, hk, hwindow, hp⟩
    rw [jumpEntry] at hp
    refine ⟨_, ⟨k, hk, ?_⟩, hp⟩
    rw [if_pos (by omega), slice_slice (by omega)]
    simp only [Nat.add_assoc]

/-! ## Tables and graphs -/

/-- Where a switch goes, among the instructions. -/
theorem SwitchBlock.mem_successors {insts : List DecodedInst} {bytecodes : List UInt8}
    {ids : List BlockId} {inst i : DecodedInst} {b : BasicBlock}
    (h : SwitchBlock insts bytecodes ids inst b) (hi : i ∈ insts) :
    i.offset ∈ b.successors ↔
      defaultTarget inst = some i.offset ∨ i.offset ∈ caseTargets bytecodes inst := by
  rw [h.successors, mem_foldl_pushCase, mem_knownTarget]
  constructor
  · rintro (⟨hdefault, -⟩ | ⟨hcase, -⟩)
    · exact Or.inl hdefault
    · exact Or.inr hcase
  · rintro (hdefault | hcase)
    · exact Or.inl ⟨hdefault, (h.known _ (Or.inl hdefault)).mpr ⟨i, hi, rfl⟩⟩
    · exact Or.inr ⟨hcase, (h.known _ (Or.inr hcase)).mpr ⟨i, hi, rfl⟩⟩

/-- The graph that `decompile_one` builds has the targets of every jump table in the
file exactly where the 256 bytes behind the function show them. -/
theorem decompileOneGraph_tables_iff {f : HbcFile} {t : OpcodeTables} {data : List UInt8}
    {funcId : Nat} {insts : List DecodedInst} {cfg : Cfg}
    (h : decompileOneGraph f t data funcId = .ok (insts, cfg)) :
    TablesSeen data (f.functionGet funcId).offset insts cfg ↔
      WindowSuffices data (f.functionGet funcId).offset (f.functionGet funcId).size insts := by
  obtain ⟨body, hdecode, hbuild⟩ := decompileOneGraph_ok h
  have hblock : ∀ inst ∈ insts, ∀ start n,
      FileTable data (f.functionGet funcId).offset inst start n → inst.isTerminator ∧
        ∀ b ∈ cfg.blocks.values, b.instructions.getLast? = some inst →
          SwitchBlock insts (slice data (f.functionGet funcId).offset
            (min ((f.functionGet funcId).offset + (f.functionGet funcId).size + 256) data.length))
            cfg.blocks.keys inst b := by
    intro inst hinst start n htable
    obtain ⟨-, hswitch, hjump, hbranch, hterm⟩ := isSwitch_of_intName htable.name
    exact ⟨hterm, fun b hb hlast =>
      build_switchBlock hdecode hbuild (List.ne_nil_of_mem hinst) hswitch hjump hbranch hb hlast⟩
  constructor
  · intro hseen inst hinst start n htable k hk i hi hentry hpast
    obtain ⟨-, hswitch⟩ := hblock inst hinst start n htable
    obtain ⟨b, hb, hlast, hsucc⟩ := hseen inst hinst start n htable k hk i hi hentry
    rcases ((hswitch b hb hlast).mem_successors hi).mp hsucc with hdefault | hcase
    · exact Or.inl hdefault
    · obtain ⟨j, hj, hwindow, hj'⟩ := (mem_caseTargets htable (by omega)).mp hcase
      exact Or.inr ⟨j, hj, by omega, hj'⟩
  · intro hsuffices inst hinst start n htable k hk i hi hentry
    obtain ⟨hterm, hswitch⟩ := hblock inst hinst start n htable
    obtain ⟨b, hb, hlast⟩ := build_exists_getLast? hdecode hbuild hinst hterm
    refine ⟨b, hb, hlast, ((hswitch b hb hlast).mem_successors hi).mpr ?_⟩
    by_cases hpast : (f.functionGet funcId).size + 256 < start + k * 4 + 4
    · rcases hsuffices inst hinst start n htable k hk i hi hentry hpast with
        hdefault | ⟨j, hj, hwindow, hj'⟩
      · exact Or.inl hdefault
      · exact Or.inr ((mem_caseTargets htable (by omega)).mpr ⟨j, hj, by omega, hj'⟩)
    · exact Or.inr ((mem_caseTargets htable (by omega)).mpr ⟨k, hk, by omega, hentry⟩)

/-- A v96 file of one function, a switch over 0 to 63 and two returns, with its
table behind it. All entries but the last go to the default. -/
def sampleSwitchBuffer (lastTarget : UInt8) : List UInt8 :=
  sampleHeader 96 [424, 0, 1]
    ++ [144, 0, 0, 2, 22, 0, 0, 0, 0, 0, 0, 0, 0, 0, 0, 0]
    ++ [133, 0, 24, 0, 0, 0, 18, 0, 0, 0, 0, 0, 0, 0, 63, 0, 0, 0, 92, 0, 92, 1, 0, 0]
    ++ (List.replicate 63 [18, 0, 0, 0]).flatten ++ [lastTarget, 0, 0, 0]

def longSwitch : DecodedInst :=
  ⟨0, 18, "SwitchImm", [.reg 0, .uint 24, .addr 18, .uint 0, .uint 63]⟩

def longSwitchInsts : List DecodedInst :=
  [longSwitch, ⟨18, 2, "Ret", [.reg 0]⟩, ⟨20, 2, "Ret", [.reg 1]⟩]

theorem longSwitch_table (lastTarget : UInt8) :
    FileTable (sampleSwitchBuffer lastTarget) 144 longSwitch 24 64 := by
  have hheader : (sampleHeader 96 [424, 0, 1]).length = 128 := by decide +kernel
  have hlen : (sampleSwitchBuffer lastTarget).length = 424 := by
    simp only [sampleSwitchBuffer, List.length_append, hheader, List.length_flatten,
      List.map_replicate, List.sum_replicate_nat]
    rfl
  exact ⟨Or.inl rfl, ⟨24, 0, 63, rfl, rfl, rfl, rfl, rfl⟩, by omega, by omega⟩

/-- With the default in the last place too. -/
theorem longSwitch_suffices : WindowSuffices (sampleSwitchBuffer 18) 144 22 longSwitchInsts := by
  intro inst hinst start n htable k hk i hi hentry hpast
  have hswitch : inst = longSwitch := by
    rcases htable.name with hname | hname <;>
      simp only [longSwitchInsts, List.mem_cons, List.not_mem_nil, or_false] at hinst <;>
      rcases hinst with rfl | rfl | rfl <;> simp at hname ⊢
  subst hswitch
  obtain ⟨jtOffset, minCase, maxCase, hjt, hmin, hmax, rfl, rfl⟩ := htable.operands
  cases hjt
  cases hmin
  cases hmax
  have hlast : k = 63 := by
    simp only [longSwitch] at hpast
    omega
  have htarget : jumpEntry (sampleSwitchBuffer 18) longSwitch 168 63 = some 18 := by
    decide
  subst hlast
  rw [show 144 + (longSwitch.offset + 24) = 168 from rfl, htarget] at hentry
  rw [← hentry]
  exact Or.inl (by decide)

theorem decompileOneGraph_tables_sample : ∃ f cfg,
    parse checkedBoundCount (sampleSwitchBuffer 18) = .ok f ∧
    decompileOneGraph f v95Tables (sampleSwitchBuffer 18) 0 = .ok (longSwitchInsts, cfg) ∧
    TablesSeen (sampleSwitchBuffer 18) 144 longSwitchInsts cfg := by
  obtain ⟨f, hparse, hcheck⟩ := Loop.exists_of_okAnd
    (x := parse checkedBoundCount (sampleSwitchBuffer 18))
    (p := fun f => ((f.functionGet 0).offset = 144 ∧ (f.functionGet 0).size = 22) ∧
      Loop.okAnd (decompileOneGraph f v95Tables (sampleSwitchBuffer 18) 0) fun r =>
        r.1 = longSwitchInsts) (by decide +kernel)
  obtain ⟨⟨hoffset, hsize⟩, hgraph⟩ := of_decide_eq_true hcheck
  obtain ⟨⟨insts, cfg⟩, hgraph, hinsts⟩ := Loop.exists_of_okAnd hgraph
  obtain rfl := of_decide_eq_true hinsts
  have hiff := decompileOneGraph_tables_iff hgraph
  rw [hoffset, hsize] at hiff
  exact ⟨f, cfg, hparse, hgraph, hiff.mpr longSwitch_suffices⟩

/-- The case of the last entry is lost. -/
theorem decompileOneGraph_loses_case : ∃ f cfg,
    parse checkedBoundCount (sampleSwitchBuffer 20) = .ok f ∧
    decompileOneGraph f v95Tables (sampleSwitchBuffer 20) 0 = .ok (longSwitchInsts, cfg) ∧
    ¬ TablesSeen (sampleSwitchBuffer 20) (f.functionGet 0).offset longSwitchInsts cfg := by
  obtain ⟨f, hparse, hcheck⟩ := Loop.exists_of_okAnd
    (x := parse checkedBoundCount (sampleSwitchBuffer 20))
    (p := fun f => (f.functionGet 0).offset = 144 ∧
      Loop.okAnd (decompileOneGraph f v95Tables (sampleSwitchBuffer 20) 0) fun r =>
        r.1 = longSwitchInsts ∧ ∀ b ∈ r.2.blocks.values,
          b.instructions.getLast? = some longSwitch → 20 ∉ b.successors) (by decide +kernel)
  obtain ⟨hoffset, hgraph⟩ := of_decide_eq_true hcheck
  obtain ⟨⟨insts, cfg⟩, hgraph, hlost⟩ := Loop.exists_of_okAnd hgraph
  obtain ⟨rfl, hlost⟩ := of_decide_eq_true hlost
  refine ⟨f, cfg, hparse, hgraph, fun hseen => ?_⟩
  rw [hoffset] at hseen
  obtain ⟨b, hb, hlast, hsucc⟩ := hseen longSwitch (by simp [longSwitchInsts]) 24 64
    (longSwitch_table 20) 63 (by omega) ⟨20, 2, "Ret", [.reg 1]⟩ (by simp [longSwitchInsts])
    (by decide)
  exact hlost b hb hlast hsucc

end Decompile

end Hermes
