-- SUMMARY: Where an instruction goes on, read from its opcode, its operands and its jump table, and that the graph reads the same.
import DroidsawHermes.Decompile.CfgBuilt
import DroidsawHermes.Decompile.Instructions

/-!
# Addresses of instructions

Every opcode goes on behind itself, jumps, branches, switches or stops, and the addresses are
relative to the instruction. The successors that the control flow graph gives a block are the
blocks at the next addresses of its last instruction.
-/

open Bytes

namespace Hermes.Decompile

/-! ## Next addresses -/

/-- How an opcode goes on. -/
inductive OpcodeKind where
  | next | jump | branch | intSwitch | stringSwitch | stop
  deriving DecidableEq, Repr

/-- The conditional jumps: to the address in front of their other operands, or on. -/
def branchNames : List String :=
  ["JmpTrue", "JmpTrueLong", "JmpFalse", "JmpFalseLong", "JmpUndefined", "JmpUndefinedLong",
    "JLess", "JLessLong", "JNotLess", "JNotLessLong", "JLessN", "JLessNLong", "JNotLessN",
    "JNotLessNLong", "JLessEqual", "JLessEqualLong", "JNotLessEqual", "JNotLessEqualLong",
    "JLessEqualN", "JLessEqualNLong", "JNotLessEqualN", "JNotLessEqualNLong", "JGreater",
    "JGreaterLong", "JNotGreater", "JNotGreaterLong", "JGreaterN", "JGreaterNLong",
    "JNotGreaterN", "JNotGreaterNLong", "JGreaterEqual", "JGreaterEqualLong", "JNotGreaterEqual",
    "JNotGreaterEqualLong", "JGreaterEqualN", "JGreaterEqualNLong", "JNotGreaterEqualN",
    "JNotGreaterEqualNLong", "JEqual", "JEqualLong", "JNotEqual", "JNotEqualLong",
    "JStrictEqual", "JStrictEqualLong", "JStrictNotEqual", "JStrictNotEqualLong", "JmpTypeOfIs",
    "JmpBuiltinIs", "JmpBuiltinIsLong", "JmpBuiltinIsNot", "JmpBuiltinIsNotLong"]

def kindOf (name : String) : OpcodeKind :=
  if name ∈ ["Jmp", "JmpLong"] then .jump
  else if name ∈ branchNames then .branch
  else if name ∈ ["SwitchImm", "UIntSwitchImm"] then .intSwitch
  else if name = "StringSwitchImm" then .stringSwitch
  else if name ∈ ["Ret", "Throw", "Unreachable"] then .stop
  else .next

namespace DecodedInst

variable (bytecodes : List UInt8) (inst : DecodedInst)

/-- No instruction stands in front of the body. -/
def noAddress : Int := -1

/-- The address at the distance that an operand tells. -/
def address (place : Nat) : Int :=
  match inst.operands[place]? with
  | some (.addr rel) => inst.offset + rel
  | _ => noAddress

/-- The number that an operand is. -/
def number (place : Nat) : Nat :=
  match inst.operands[place]? with
  | some (.uint n) => n
  | _ => 0

/-- How many cases a switch has: from the first integer to the last, or as many as it says. -/
def caseCount : Nat :=
  match kindOf inst.name with
  | .intSwitch => inst.number 4 + 1 - inst.number 3
  | .stringSwitch => inst.number 4
  | _ => 0

/-- The address of a distance in the bytes from `start` to `stop`. -/
def addressAt (start stop : Nat) (value : List UInt8 → Nat) : Int :=
  if stop ≤ bytecodes.length then
    inst.offset + Int.bmod (value (slice bytecodes start stop)) (2 ^ 32)
  else noAddress

/-- Where case `i` goes. The distances stand in a table behind the code: four bytes for an integer,
and behind the four of its string, the high byte first, for a string. -/
def caseAddress (i : Nat) : Int :=
  match kindOf inst.name with
  | .intSwitch =>
    let entry := inst.offset + inst.number 1 + 4 * i
    inst.addressAt bytecodes entry (entry + 4) ofLE
  | .stringSwitch =>
    let entry := inst.offset + inst.number 2 + 8 * i
    inst.addressAt bytecodes (entry + 4) (entry + 8) fun bytes => ofLE bytes.reverse
  | _ => noAddress

/-- The addresses where a run can go on, each once for a switch: its default comes first. -/
def nextAddresses : List Int :=
  match kindOf inst.name with
  | .next => [(inst.offset + inst.size : Nat)]
  | .jump => [inst.address 0]
  | .branch => [inst.address 0, (inst.offset + inst.size : Nat)]
  | .intSwitch =>
    (inst.address 2 :: (List.range inst.caseCount).map (inst.caseAddress bytecodes)).eraseDups
  | .stringSwitch =>
    (inst.address 3 :: (List.range inst.caseCount).map (inst.caseAddress bytecodes)).eraseDups
  | .stop => []

end DecodedInst

/-- Only the last next address of an instruction may be outside the body. -/
structure AddressesInside (bytecodes : List UInt8) (insts : List DecodedInst) : Prop where
  cases : ∀ inst ∈ insts, inst.caseCount ≤ 65536
  next : ∀ inst ∈ insts, ∀ a ∈ (inst.nextAddresses bytecodes).dropLast,
    ∃ target ∈ insts, a = target.offset

theorem nextAddresses_of_next {bytecodes : List UInt8} {inst : DecodedInst}
    (h : kindOf inst.name = .next) :
    inst.nextAddresses bytecodes = [((inst.offset + inst.size : Nat) : Int)] := by
  simp only [DecodedInst.nextAddresses, h]

/-! ## What the graph reads -/

/-- The opcode tests of the graph tell how an instruction goes on. -/
structure DecodedInst.TestsTell (inst : DecodedInst) : Prop where
  jump : inst.isUnconditionalJump = true ↔ kindOf inst.name = .jump
  branch : inst.isConditionalBranch = true ↔ kindOf inst.name = .branch
  switch : inst.isSwitch = true ↔
    kindOf inst.name = .intSwitch ∨ kindOf inst.name = .stringSwitch
  string : inst.isStringSwitch = true ↔ kindOf inst.name = .stringSwitch
  stop : (inst.isReturn || inst.isThrow || decide (inst.name = "Unreachable")) = true ↔
    kindOf inst.name = .stop

/-- The names of every kind but `next`. -/
def kindNames : List (OpcodeKind × List String) :=
  [(.jump, ["Jmp", "JmpLong"]), (.branch, branchNames), (.intSwitch, ["SwitchImm", "UIntSwitchImm"]),
    (.stringSwitch, ["StringSwitchImm"]), (.stop, ["Ret", "Throw", "Unreachable"])]

/-- In the schemas only jumps and branches start with a `J`, and only switches are named so. -/
theorem jumps_schemaRows : schemaRows.all (fun r =>
    ((utf8 r.1).head? != some 74 || r.1 == "Jmp" || r.1 == "JmpLong" || branchNames.contains r.1) &&
      (!decide (utf8 "SwitchImm" <:+: utf8 r.1) ||
        ["SwitchImm", "UIntSwitchImm", "StringSwitchImm"].contains r.1)) = true := by
  decide +kernel

theorem jumps_names : branchNames.all (fun name => name.toList.head? == some 'J' && name != "Jmp" &&
      name != "JmpLong") = true ∧
    ["SwitchImm", "UIntSwitchImm", "StringSwitchImm"].all (containsText · "SwitchImm") = true := by
  decide +kernel

/-- The operands of the switches. -/
theorem switches_schemaRows : schemaRows.all (fun r =>
    (!(["SwitchImm", "UIntSwitchImm"].contains r.1) || r.2 == [.R, .U4, .A4, .U4, .U4]) &&
      (r.1 != "StringSwitchImm" || r.2 == [.R, .U4, .U4, .A4, .U4])) = true := by
  decide +kernel

theorem kindOf_kindNames :
    kindNames.all (fun e => e.2.all fun name => kindOf name == e.1) = true := by
  decide +kernel

theorem kindOf_iff {kind : OpcodeKind} {names : List String} (h : (kind, names) ∈ kindNames)
    {name : String} : kindOf name = kind ↔ name ∈ names := by
  constructor
  · intro hkind
    simp only [kindOf] at hkind
    simp only [kindNames, List.mem_cons, List.not_mem_nil, or_false, Prod.mk.injEq] at h
    rcases h with ⟨rfl, rfl⟩ | ⟨rfl, rfl⟩ | ⟨rfl, rfl⟩ | ⟨rfl, rfl⟩ | ⟨rfl, rfl⟩ <;>
      split_ifs at hkind <;> simp_all
  · intro hname
    simpa using List.all_eq_true.mp (List.all_eq_true.mp kindOf_kindNames _ h) name hname

section Tests

variable {types : List OpType} {inst : DecodedInst}

theorem head_utf8_of_head {name : String} (h : name.toList.head? = some 'J') :
    (utf8 name).head? = some 74 := by
  have hstarts : startsWith name "J" = true := by
    obtain ⟨rest, hrest⟩ := List.head?_eq_some_iff.mp h
    rw [startsWith, hrest]
    rfl
  obtain ⟨rest, hrest⟩ := utf8_prefix_of_startsWith hstarts
  rw [← hrest]
  rfl

theorem Decoded.testsTell (hdec : Decoded types inst) : inst.TestsTell := by
  obtain ⟨hrowJump, hrowSwitch⟩ := Bool.and_eq_true_iff.mp
    (List.all_eq_true.mp jumps_schemaRows _ hdec.row)
  have hjump : kindOf inst.name = .jump ↔ _ := kindOf_iff (.head _)
  have hbranch : kindOf inst.name = .branch ↔ _ := kindOf_iff (.tail _ (.head _))
  have hint : kindOf inst.name = .intSwitch ↔ _ := kindOf_iff (.tail _ (.tail _ (.head _)))
  have hstring : kindOf inst.name = .stringSwitch ↔ _ :=
    kindOf_iff (.tail _ (.tail _ (.tail _ (.head _))))
  have hstop : kindOf inst.name = .stop ↔ _ :=
    kindOf_iff (.tail _ (.tail _ (.tail _ (.tail _ (.head _)))))
  refine ⟨?_, ?_, ?_, ?_, ?_⟩
  · simp [hjump, DecodedInst.isUnconditionalJump]
  · rw [hbranch, DecodedInst.isConditionalBranch]
    constructor
    · intro h
      simp only [Bool.and_eq_true, decide_eq_true_eq] at h
      simpa [head_utf8_of_head h.1.1, h.1.2, h.2] using hrowJump
    · intro h
      simpa [and_assoc] using List.all_eq_true.mp jumps_names.1 _ h
  · rw [hint, hstring, ← List.mem_append, DecodedInst.isSwitch]
    constructor
    · intro h
      simpa [utf8_infix_of_containsText h] using hrowSwitch
    · exact fun h => List.all_eq_true.mp jumps_names.2 _ h
  · simp [hstring, DecodedInst.isStringSwitch]
  · simp [hstop, DecodedInst.isReturn, DecodedInst.isThrow, or_assoc]

/-- Only what goes on behind itself is no terminator. -/
theorem DecodedInst.TestsTell.isTerminator_iff (h : inst.TestsTell) :
    inst.isTerminator = true ↔ kindOf inst.name ≠ .next := by
  have hparts : inst.isTerminator = true ↔ inst.isUnconditionalJump = true ∨
      inst.isConditionalBranch = true ∨ inst.isSwitch = true ∨
      (inst.isReturn || inst.isThrow || decide (inst.name = "Unreachable")) = true := by
    have hfirst : inst.name.toList.head? = some 'J' ↔ inst.isUnconditionalJump = true ∨
        inst.isConditionalBranch = true := by
      constructor
      · intro hfirst
        by_cases hname : inst.name = "Jmp" ∨ inst.name = "JmpLong"
        · exact Or.inl (by simpa [isUnconditionalJump] using hname)
        · exact Or.inr (by simpa [isConditionalBranch, hfirst] using hname)
      · rintro (hname | hname)
        · simp only [isUnconditionalJump, Bool.or_eq_true, decide_eq_true_eq] at hname
          rcases hname with hname | hname <;> rw [hname] <;> rfl
        · simp only [isConditionalBranch, Bool.and_eq_true, decide_eq_true_eq] at hname
          exact hname.1.1
    have hswitch : decide ("SwitchImm".toList <:+: inst.name.toList) = inst.isSwitch := rfl
    rw [isTerminator, isJump, hswitch]
    simp only [Bool.or_eq_true, decide_eq_true_eq, hfirst, or_assoc]
  rw [hparts, h.jump, h.branch, h.switch, h.stop]
  cases kindOf inst.name <;> simp

/-! ## Addresses of blocks -/

/-- An address that 32 bits hold. -/
def address? (a : Int) : Option Nat :=
  if 0 ≤ a ∧ a ≤ u32Max then some a.toNat else none

theorem operandTarget_eq (k : Nat) : operandTarget inst k = address? (inst.address k) := by
  rw [operandTarget, DecodedInst.address]
  cases inst.operands[k]? with
  | none => rfl
  | some o => cases o <;> rfl

theorem branchTarget_eq : inst.branchTarget = address? (inst.address 0) := by
  rw [DecodedInst.branchTarget, DecodedInst.address, List.head?_eq_getElem?]
  cases inst.operands[0]? with
  | none => rfl
  | some o => cases o <;> rfl

theorem addressAt_eq (bytecodes : List UInt8) (start stop : Nat) (value : List UInt8 → Nat) :
    address? (inst.addressAt bytecodes start stop value) = if stop ≤ bytecodes.length then
      checkedAddSigned inst.offset (Int.bmod (value (slice bytecodes start stop)) (2 ^ 32))
    else none := by
  rw [DecodedInst.addressAt]
  split <;> rfl

theorem decodes_shapes (o : Operand) : (OpType.R.Decodes o → ∃ r, o = .reg r) ∧
    (OpType.U4.Decodes o → ∃ n, o = .uint n) ∧ (OpType.A4.Decodes o → ∃ rel, o = .addr rel) := by
  cases o <;> simp [OpType.Decodes]

/-- The operands of a switch stand where their types say. -/
theorem Decoded.switch_operands (hdec : Decoded types inst) :
    (kindOf inst.name = .intSwitch → ∃ r table rel low high, inst.operands =
      [.reg r, .uint table, .addr rel, .uint low, .uint high]) ∧
    (kindOf inst.name = .stringSwitch → ∃ r global table rel cases, inst.operands =
      [.reg r, .uint global, .uint table, .addr rel, .uint cases]) := by
  obtain ⟨hrowInt, hrowString⟩ := Bool.and_eq_true_iff.mp
    (List.all_eq_true.mp switches_schemaRows _ hdec.row)
  have hint : kindOf inst.name = .intSwitch ↔ _ := kindOf_iff (.tail _ (.tail _ (.head _)))
  have hstring : kindOf inst.name = .stringSwitch ↔ _ :=
    kindOf_iff (.tail _ (.tail _ (.tail _ (.head _))))
  have hoperands := hdec.operands
  generalize inst.operands = operands at hoperands ⊢
  constructor
  · intro hkind
    obtain rfl : types = [.R, .U4, .A4, .U4, .U4] := by
      simpa [hint.mp hkind] using hrowInt
    rcases hoperands with _ | ⟨h₀, _ | ⟨h₁, _ | ⟨h₂, _ | ⟨h₃, _ | ⟨h₄, _ | _⟩⟩⟩⟩⟩
    obtain ⟨r, rfl⟩ := (decodes_shapes _).1 h₀
    obtain ⟨table, rfl⟩ := (decodes_shapes _).2.1 h₁
    obtain ⟨rel, rfl⟩ := (decodes_shapes _).2.2 h₂
    obtain ⟨low, rfl⟩ := (decodes_shapes _).2.1 h₃
    obtain ⟨high, rfl⟩ := (decodes_shapes _).2.1 h₄
    exact ⟨r, table, rel, low, high, rfl⟩
  · intro hkind
    obtain rfl : types = [.R, .U4, .U4, .A4, .U4] := by
      simpa [List.mem_singleton.mp (hstring.mp hkind)] using hrowString
    rcases hoperands with _ | ⟨h₀, _ | ⟨h₁, _ | ⟨h₂, _ | ⟨h₃, _ | ⟨h₄, _ | _⟩⟩⟩⟩⟩
    obtain ⟨r, rfl⟩ := (decodes_shapes _).1 h₀
    obtain ⟨global, rfl⟩ := (decodes_shapes _).2.1 h₁
    obtain ⟨table, rfl⟩ := (decodes_shapes _).2.1 h₂
    obtain ⟨rel, rfl⟩ := (decodes_shapes _).2.2 h₃
    obtain ⟨cases, rfl⟩ := (decodes_shapes _).2.1 h₄
    exact ⟨r, global, table, rel, cases, rfl⟩

/-- The case targets are the addresses of the cases that 32 bits hold. -/
theorem caseTargets_eq (hdec : Decoded types inst) (bytecodes : List UInt8)
    (hswitch : kindOf inst.name = .intSwitch ∨ kindOf inst.name = .stringSwitch)
    (hcount : inst.caseCount ≤ 65536) : caseTargets bytecodes inst =
      ((List.range inst.caseCount).map (inst.caseAddress bytecodes)).filterMap address? := by
  have hstring := hdec.testsTell.string
  rw [List.filterMap_map, caseTargets]
  rcases hswitch with hkind | hkind
  · obtain ⟨r, table, rel, low, high, hoperands⟩ := hdec.switch_operands.1 hkind
    have hcases : inst.caseCount = high + 1 - low := by
      simp [DecodedInst.caseCount, hkind, DecodedInst.number, hoperands]
    rw [hcases] at hcount ⊢
    rw [if_neg (by simp [hstring, hkind])]
    simp only [jumpTable, hoperands, List.getElem?_cons_succ, List.getElem?_cons_zero]
    rw [Nat.min_eq_left hcount, List.filterMap_filterMap]
    refine List.filterMap_congr fun i _ => ?_
    simp only [Function.comp_apply, DecodedInst.caseAddress, hkind, addressAt_eq,
      DecodedInst.number, hoperands, List.getElem?_cons_succ, List.getElem?_cons_zero, Nat.mul_comm i]
    split
    · rw [Option.bind_some]
    · rw [Option.bind_none]
  · obtain ⟨r, global, table, rel, cases, hoperands⟩ := hdec.switch_operands.2 hkind
    have hcases : inst.caseCount = cases := by
      simp [DecodedInst.caseCount, hkind, DecodedInst.number, hoperands]
    rw [hcases] at hcount ⊢
    rw [if_pos (hstring.mpr hkind)]
    simp only [stringSwitchTable, hoperands, List.getElem?_cons_succ, List.getElem?_cons_zero]
    rw [Nat.min_eq_left hcount, List.filterMap_filterMap]
    refine List.filterMap_congr fun i _ => ?_
    simp only [Function.comp_apply, DecodedInst.caseAddress, hkind, addressAt_eq,
      DecodedInst.number, hoperands, List.getElem?_cons_succ, List.getElem?_cons_zero, Nat.mul_comm i]
    split
    · rw [Option.bind_some]
    · rw [Option.bind_none]

theorem defaultTarget_eq (htests : inst.TestsTell) :
    (kindOf inst.name = .intSwitch → defaultTarget inst = address? (inst.address 2)) ∧
      (kindOf inst.name = .stringSwitch → defaultTarget inst = address? (inst.address 3)) := by
  constructor
  · intro hkind
    rw [defaultTarget, if_neg (by simp [htests.string, hkind]), operandTarget_eq]
  · intro hkind
    rw [defaultTarget, if_pos (htests.string.mpr hkind), operandTarget_eq]

/-! ## Successors -/

/-- The block at an address. -/
def blockAt (blockIds : List BlockId) (a : Int) : Option BlockId :=
  (address? a).filter (· ∈ blockIds)

theorem blockAt_eq_some {blockIds : List BlockId} {a : Int} {id : BlockId} :
    blockAt blockIds a = some id ↔ id ∈ blockIds ∧ id ≤ u32Max ∧ a = (id : Nat) := by
  rw [blockAt, Option.filter_eq_some_iff, address?, decide_eq_true_eq, and_comm, and_congr_right_iff]
  intro _
  split
  · next h =>
    obtain ⟨n, rfl⟩ := Int.eq_ofNat_of_zero_le h.1
    have hle : n ≤ u32Max := by exact_mod_cast h.2
    rw [Option.some_inj, Int.toNat_natCast, Int.ofNat_inj]
    exact ⟨fun heq => ⟨heq ▸ hle, heq⟩, And.right⟩
  · next h =>
    refine ⟨nofun, ?_⟩
    rintro ⟨hle, rfl⟩
    exact absurd ⟨Int.natCast_nonneg id, by exact_mod_cast hle⟩ h

theorem knownTarget_address (blockIds : List BlockId) (a : Int) :
    knownTarget blockIds (address? a) = (blockAt blockIds a).toList := by
  rw [knownTarget, blockAt]
  cases address? a with
  | none => rfl
  | some id => by_cases hid : id ∈ blockIds <;> simp [Option.filter, hid]

section Dedup

variable {α β : Type} [DecidableEq α] [DecidableEq β]

/-- Behind the elements before it, once. -/
def pushNew (l : List α) (x : α) : List α := if x ∈ l then l else l ++ [x]

theorem eraseDups_append_eq (l₁ l₂ : List α) :
    (l₁ ++ l₂).eraseDups = l₂.foldl pushNew l₁.eraseDups := by
  induction l₂ generalizing l₁ with
  | nil => simp
  | cons x l₂ ih =>
    rw [List.append_cons, ih, List.foldl_cons]
    congr 1
    rw [List.eraseDups_append, pushNew]
    by_cases hx : x ∈ l₁ <;> simp [List.removeAll, hx, List.eraseDups_cons]

/-- A map of different elements to different ones goes through. -/
theorem filterMap_foldl_pushNew {f : α → Option β}
    (hf : ∀ x y b, f x = some b → f y = some b → x = y) (l acc : List α) :
    (l.foldl pushNew acc).filterMap f = (l.filterMap f).foldl pushNew (acc.filterMap f) := by
  induction l generalizing acc with
  | nil => rfl
  | cons x l ih =>
    rw [List.foldl_cons, ih, pushNew]
    cases hx : f x with
    | none =>
      rw [List.filterMap_cons_none hx]
      split
      · rfl
      · simp [hx]
    | some b =>
      rw [List.filterMap_cons_some hx, List.foldl_cons]
      congr 1
      have hmem : b ∈ acc.filterMap f ↔ x ∈ acc := by
        rw [List.mem_filterMap]
        exact ⟨fun ⟨y, hy, hb⟩ => hf y x b hb hx ▸ hy, fun hmem => ⟨x, hmem, hx⟩⟩
      rw [pushNew]
      by_cases hin : x ∈ acc <;> simp [hmem, hin, hx]

end Dedup

theorem foldl_pushCase_eq (blockIds targets acc : List BlockId) :
    targets.foldl (pushCase blockIds) acc =
      (targets.filter (· ∈ blockIds)).foldl pushNew acc := by
  induction targets generalizing acc with
  | nil => rfl
  | cons target targets ih =>
    rw [List.foldl_cons, ih, pushCase]
    by_cases hid : target ∈ blockIds <;> by_cases hmem : target ∈ acc <;> simp [hid, hmem, pushNew]

/-- The cases of a switch add the blocks at their addresses, behind the default. -/
theorem foldl_pushCase_addresses (blockIds : List BlockId) (a : Int) (cases : List Int) :
    (cases.filterMap address?).foldl (pushCase blockIds) (knownTarget blockIds (address? a)) =
      (a :: cases).eraseDups.filterMap (blockAt blockIds) := by
  have hone : ∀ a b id, blockAt blockIds a = some id → blockAt blockIds b = some id → a = b :=
    fun a b id ha hb => (blockAt_eq_some.mp ha).2.2.trans (blockAt_eq_some.mp hb).2.2.symm
  have hcases : (cases.filterMap address?).filter (· ∈ blockIds) =
      cases.filterMap (blockAt blockIds) := List.filter_filterMap
  have hdefault : knownTarget blockIds (address? a) = [a].filterMap (blockAt blockIds) := by
    rw [knownTarget_address, List.filterMap_cons]
    cases blockAt blockIds a <;> rfl
  rw [foldl_pushCase_eq, hcases, hdefault, ← filterMap_foldl_pushNew hone]
  congr 1
  exact (eraseDups_append_eq [a] cases).symm

/-- The successors of a block are the blocks at the next addresses of its last instruction. -/
theorem partSuccessors_eq (hdec : Decoded types inst) {part : List DecodedInst}
    (hlast : part.getLast? = some inst) (hcount : inst.caseCount ≤ 65536)
    (bytecodes : List UInt8) (blockIds : List BlockId) :
    partSuccessors bytecodes blockIds part =
      (inst.nextAddresses bytecodes).filterMap (blockAt blockIds) := by
  have htests := hdec.testsTell
  have hnext : instNextOffset inst = address? (inst.offset + inst.size : Nat) := by
    rw [instNextOffset, address?]
    refine if_congr (by omega) rfl rfl
  have hone : ∀ a, [a].filterMap (blockAt blockIds) = (blockAt blockIds a).toList := by
    intro a
    rw [List.filterMap_cons]
    cases blockAt blockIds a <;> rfl
  have hno : ∀ {b : Bool} {kind : OpcodeKind}, (b = true ↔ kindOf inst.name = kind) →
      kindOf inst.name ≠ kind → ¬ b = true := fun htest hkind hb => hkind (htest.mp hb)
  simp only [partSuccessors, hlast, successorsOf, DecodedInst.nextAddresses]
  cases hkind : kindOf inst.name with
  | jump =>
    rw [if_pos (htests.jump.mpr hkind), branchTarget_eq, knownTarget_address, hone]
  | branch =>
    rw [if_neg (hno htests.jump (by simp [hkind])), if_pos (htests.branch.mpr hkind),
      branchTarget_eq, hnext, knownTarget_address, knownTarget_address, ← hone, ← hone,
      ← List.filterMap_append]
    rfl
  | intSwitch =>
    rw [if_neg (hno htests.jump (by simp [hkind])), if_neg (hno htests.branch (by simp [hkind])),
      if_pos (htests.switch.mpr (.inl hkind)), caseTargets_eq hdec bytecodes (.inl hkind) hcount,
      (defaultTarget_eq htests).1 hkind, foldl_pushCase_addresses]
  | stringSwitch =>
    rw [if_neg (hno htests.jump (by simp [hkind])), if_neg (hno htests.branch (by simp [hkind])),
      if_pos (htests.switch.mpr (.inr hkind)), caseTargets_eq hdec bytecodes (.inr hkind) hcount,
      (defaultTarget_eq htests).2 hkind, foldl_pushCase_addresses]
  | stop =>
    rw [if_neg (hno htests.jump (by simp [hkind])), if_neg (hno htests.branch (by simp [hkind])),
      if_neg (by simp [htests.switch, hkind]), if_pos (htests.stop.mpr hkind)]
    rfl
  | next =>
    rw [if_neg (hno htests.jump (by simp [hkind])), if_neg (hno htests.branch (by simp [hkind])),
      if_neg (by simp [htests.switch, hkind]), if_neg (hno htests.stop (by simp [hkind])), hnext,
      knownTarget_address, hone]
    cases blockAt blockIds (inst.offset + inst.size : Nat) <;> rfl

/-- Where a jump, a branch or a switch goes on, a block starts. -/
theorem mem_instBoundaries (hdec : Decoded types inst) {bytecodes : List UInt8}
    (hcount : inst.caseCount ≤ 65536) (hends : kindOf inst.name ≠ .next) {a : Int} {n : Nat}
    (ha : a ∈ inst.nextAddresses bytecodes) (hn : address? a = some n) :
    n ∈ instBoundaries bytecodes inst inst.stop := by
  have htests := hdec.testsTell
  have hterm : inst.isTerminator = true := htests.isTerminator_iff.mpr hends
  have htarget : a = inst.address 0 → n ∈ inst.branchTarget.toList := by
    rintro rfl
    rw [branchTarget_eq, hn]
    exact List.mem_singleton_self n
  have hstop : a = (inst.offset + inst.size : Nat) → n = inst.stop := by
    rintro rfl
    rw [address?] at hn
    split at hn
    · exact (Option.some.inj hn).symm
    · cases hn
  have hcase : ∀ place, defaultTarget inst = address? (inst.address place) →
      (kindOf inst.name = .intSwitch ∨ kindOf inst.name = .stringSwitch) →
      a ∈ inst.address place :: (List.range inst.caseCount).map (inst.caseAddress bytecodes) →
      n ∈ (defaultTarget inst).toList ++ caseTargets bytecodes inst := by
    intro place hdefault hswitch hmem
    rw [hdefault, caseTargets_eq hdec bytecodes hswitch hcount, List.mem_append]
    rcases List.mem_cons.mp hmem with rfl | hmem
    · rw [hn]
      exact Or.inl (List.mem_singleton_self n)
    · exact Or.inr (List.mem_filterMap.mpr ⟨a, hmem, hn⟩)
  rw [instBoundaries, if_pos hterm, List.mem_append, List.mem_append, List.mem_singleton]
  rw [DecodedInst.nextAddresses] at ha
  cases hkind : kindOf inst.name with
  | next => exact absurd hkind hends
  | jump =>
    rw [hkind] at ha
    exact Or.inl (Or.inr (htarget (List.mem_singleton.mp ha)))
  | branch =>
    simp only [hkind, List.mem_cons, List.not_mem_nil, or_false] at ha
    exact Or.inl (ha.symm.imp hstop htarget)
  | intSwitch =>
    simp only [hkind, List.mem_eraseDups] at ha
    rw [if_pos (htests.switch.mpr (.inl hkind))]
    exact Or.inr (hcase 2 ((defaultTarget_eq htests).1 hkind) (.inl hkind) ha)
  | stringSwitch =>
    simp only [hkind, List.mem_eraseDups] at ha
    rw [if_pos (htests.switch.mpr (.inr hkind))]
    exact Or.inr (hcase 3 ((defaultTarget_eq htests).2 hkind) (.inr hkind) ha)
  | stop =>
    rw [hkind] at ha
    cases ha

end Tests

end Hermes.Decompile
