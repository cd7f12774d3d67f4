-- SUMMARY: The instruction decoder: operand schemas, decoded instructions and the loop over a function's bytecode.
import DroidsawHermes.Error
import DroidsawHermes.Lib.Loop
import Mathlib.Data.List.Infix

/-!
# Decoding

`decompile/decode.rs`. The opcode tables of a bytecode version are generated
data; a run of the decoder takes them as a parameter.
-/

open Bytes

namespace Hermes.Decompile

/-! ## Operands and instructions -/

/-- Operand type of a schema. -/
inductive OpType where
  | R | R4 | U1 | U2 | U4 | A1 | A4 | I4 | D
  deriving DecidableEq, Repr

def OpType.byteSize : OpType → Nat
  | .R | .U1 | .A1 => 1
  | .U2 => 2
  | .R4 | .U4 | .A4 | .I4 => 4
  | .D => 8

/-- A typed operand; a double is kept as its bits. -/
inductive Operand where
  | reg (r : Nat)
  | reg32 (r : Nat)
  | uint (n : Nat)
  | int (n : Int)
  | double (bits : UInt64)
  | addr (rel : Int)
  deriving DecidableEq, Repr

structure DecodedInst where
  offset : Nat
  size : Nat
  name : String
  operands : List Operand
  deriving DecidableEq, Repr

/-- `checked_add_signed` on 32-bit integers. -/
def checkedAddSigned (base : Nat) (rel : Int) : Option Nat :=
  let v := (base : Int) + rel
  if 0 ≤ v ∧ v ≤ u32Max then some v.toNat else none

namespace DecodedInst

def branchTarget (inst : DecodedInst) : Option Nat :=
  match inst.operands.head? with
  | some (.addr rel) => checkedAddSigned inst.offset rel
  | _ => none

def isJump (inst : DecodedInst) : Bool :=
  inst.name.toList.head? = some 'J' || decide ("SwitchImm".toList <:+: inst.name.toList)

def isConditionalBranch (inst : DecodedInst) : Bool :=
  inst.name.toList.head? = some 'J' && inst.name ≠ "Jmp" && inst.name ≠ "JmpLong"

def isUnconditionalJump (inst : DecodedInst) : Bool := inst.name = "Jmp" || inst.name = "JmpLong"

def isReturn (inst : DecodedInst) : Bool := inst.name = "Ret"

def isThrow (inst : DecodedInst) : Bool := inst.name = "Throw"

def isTerminator (inst : DecodedInst) : Bool :=
  inst.isJump || inst.isReturn || inst.isThrow || inst.name = "Unreachable"

end DecodedInst

/-! ## Opcode tables -/

/-- The tables of one bytecode version, by opcode. -/
structure OpcodeTables where
  sizes : List UInt8
  names : List String
  schemas : List (String × List OpType)

namespace OpcodeTables

variable (t : OpcodeTables)

def getSchema (opcode : Nat) : String × List OpType := t.schemas[opcode]?.getD ("Unknown", [])

/-- The name that an instruction of this opcode gets. -/
def instName (opcode : Nat) : String :=
  match t.names[opcode]? with
  | some name => if name ≠ "" then name else (t.getSchema opcode).1
  | none => (t.getSchema opcode).1

end OpcodeTables

/-! ## The decoder -/

/-- The operand that the bytes of its type hold. -/
def decodeOperand (ot : OpType) (bytes : List UInt8) : Operand :=
  match ot with
  | .R => .reg (ofLE bytes)
  | .R4 => .reg32 (ofLE bytes)
  | .U1 | .U2 | .U4 => .uint (ofLE bytes)
  | .A1 => .addr (Int.bmod (ofLE bytes) (2 ^ 8))
  | .A4 => .addr (Int.bmod (ofLE bytes) (2 ^ 32))
  | .I4 => .int (Int.bmod (ofLE bytes) (2 ^ 32))
  | .D => .double (UInt64.ofNat (ofLE bytes))

/-- The operands of the types that are left, from `opPos` on. -/
def decodeOperands (code : List UInt8) (pos opcode instEnd : Nat) :
    List OpType → Nat → Except HermesError (List Operand)
  | [], _ => .ok []
  | ot :: rest, opPos =>
    let opEnd := opPos + ot.byteSize
    if opEnd > instEnd then .error (.truncatedInstructionStream pos opcode)
    else do
      let operands ← decodeOperands code pos opcode instEnd rest opEnd
      .ok (decodeOperand ot (slice code opPos opEnd) :: operands)

/-- One round of the loop, at an opcode byte. `pos as u32` narrows. -/
def decodeAt (t : OpcodeTables) (code : List UInt8) (pos opcode : Nat) :
    Except HermesError DecodedInst :=
  match t.sizes[opcode]? with
  | none => .error (.unknownOpcode pos opcode t.sizes.length)
  | some size =>
    let instEnd := pos + size.toNat
    if size = 0 ∨ instEnd > code.length then .error (.truncatedInstructionStream pos opcode)
    else do
      let operands ← decodeOperands code pos opcode instEnd (t.getSchema opcode).2 (pos + 1)
      .ok ⟨pos % 2 ^ 32, size.toNat, t.instName opcode, operands⟩

/-- The loop from `pos` on. Every round reads at least one byte, so the length of
the code is enough fuel. -/
def decodeFrom (t : OpcodeTables) (code : List UInt8) :
    Nat → Nat → Except HermesError (List DecodedInst)
  | 0, _ => .ok []
  | fuel + 1, pos =>
    match code[pos]? with
    | none => .ok []
    | some opcode => do
      let inst ← decodeAt t code pos opcode.toNat
      let rest ← decodeFrom t code fuel (pos + inst.size)
      .ok (inst :: rest)

/-- `decode_function`, with the tables of the version. -/
def decodeFunction (t : OpcodeTables) (code : List UInt8) :
    Except HermesError (List DecodedInst) :=
  decodeFrom t code code.length 0

/-! ## What a decoded function is -/

/-- An instruction that the tables can give. -/
structure FromTables (t : OpcodeTables) (inst : DecodedInst) : Prop where
  size_pos : 0 < inst.size
  entry : ∃ opcode < t.sizes.length, inst.name = t.instName opcode ∧
    ∀ rel, inst.operands.head? = some (.addr rel) →
      (t.getSchema opcode).2.head? = some .A1 ∨ (t.getSchema opcode).2.head? = some .A4

/-- The instructions that lie one after the other from `pos` to the end. -/
inductive DecodedFrom (t : OpcodeTables) (code : List UInt8) : Nat → List DecodedInst → Prop where
  | done : DecodedFrom t code code.length []
  | inst {pos : Nat} {inst : DecodedInst} {rest : List DecodedInst}
      (hoffset : inst.offset = pos % 2 ^ 32) (htable : FromTables t inst)
      (hrest : DecodedFrom t code (pos + inst.size) rest) : DecodedFrom t code pos (inst :: rest)

theorem decodeOperand_addr {ot : OpType} {bytes : List UInt8} {rel : Int}
    (h : decodeOperand ot bytes = .addr rel) : ot = .A1 ∨ ot = .A4 := by
  cases ot <;> simp [decodeOperand] at h ⊢

theorem decodeOperands_head {code : List UInt8} {pos opcode instEnd opPos : Nat}
    {types : List OpType} {operands : List Operand} {rel : Int}
    (h : decodeOperands code pos opcode instEnd types opPos = .ok operands)
    (hhead : operands.head? = some (.addr rel)) :
    types.head? = some .A1 ∨ types.head? = some .A4 := by
  cases types with
  | nil =>
    cases h
    cases hhead
  | cons ot rest =>
    simp only [decodeOperands] at h
    split at h
    · cases h
    · obtain ⟨tail, -, htail⟩ := Loop.bind_eq_ok.mp h
      cases htail
      simp only [List.head?_cons, Option.some.injEq] at hhead ⊢
      exact decodeOperand_addr hhead

theorem decodeAt_spec {t : OpcodeTables} {code : List UInt8} {pos opcode : Nat}
    {inst : DecodedInst} (h : decodeAt t code pos opcode = .ok inst) :
    inst.offset = pos % 2 ^ 32 ∧ FromTables t inst ∧ pos + inst.size ≤ code.length := by
  simp only [decodeAt] at h
  split at h
  · cases h
  · next size hsize =>
    split at h
    · cases h
    · next hfits =>
      obtain ⟨operands, hoperands, hinst⟩ := Loop.bind_eq_ok.mp h
      cases hinst
      push Not at hfits
      obtain ⟨hlt, -⟩ := List.getElem?_eq_some_iff.mp hsize
      refine ⟨rfl, ⟨?_, opcode, hlt, rfl, fun rel hhead => decodeOperands_head hoperands hhead⟩,
        hfits.2⟩
      have hne : size.toNat ≠ 0 := fun hzero => hfits.1 (UInt8.toNat_inj.mp hzero)
      exact Nat.pos_of_ne_zero hne

theorem decodeFrom_spec {t : OpcodeTables} {code : List UInt8} {fuel pos : Nat}
    {insts : List DecodedInst} (hpos : pos ≤ code.length) (hfuel : code.length ≤ pos + fuel)
    (h : decodeFrom t code fuel pos = .ok insts) : DecodedFrom t code pos insts := by
  induction fuel generalizing pos insts with
  | zero =>
    have hend : pos = code.length := by omega
    cases h
    exact hend ▸ .done
  | succ fuel ih =>
    simp only [decodeFrom] at h
    split at h
    · next hnone =>
      have hge := List.getElem?_eq_none_iff.mp hnone
      have hend : pos = code.length := by omega
      cases h
      exact hend ▸ .done
    · obtain ⟨inst, hinst, hmore⟩ := Loop.bind_eq_ok.mp h
      obtain ⟨rest, hrest, hcons⟩ := Loop.bind_eq_ok.mp hmore
      cases hcons
      obtain ⟨hoffset, htable, hend⟩ := decodeAt_spec hinst
      have hstep := htable.size_pos
      exact .inst hoffset htable (ih hend (by omega) hrest)

theorem decodeFunction_spec {t : OpcodeTables} {code : List UInt8} {insts : List DecodedInst}
    (h : decodeFunction t code = .ok insts) : DecodedFrom t code 0 insts :=
  decodeFrom_spec (Nat.zero_le _) (by omega) h

end Hermes.Decompile
