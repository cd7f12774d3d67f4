-- SUMMARY: A decoded body is tiled by its instructions, and decoding a concatenation is concatenating the decodings.
import DroidsawHermes.Decompile.Decode

/-!
# Instructions tile the body

The instructions that `decode_function` returns lie one behind the other and read
their operands inside themselves, and whether the rest of the code decodes has no
influence on the instructions before it.
-/

open Bytes

namespace Hermes.Decompile

/-! ## Tiles -/

/-- The operands of consecutive little-endian fields from `opPos` on. -/
def fieldsAt (code : List UInt8) : List OpType → Nat → List Operand
  | [], _ => []
  | ot :: rest, opPos =>
    decodeOperand ot (slice code opPos (opPos + ot.byteSize)) ::
      fieldsAt code rest (opPos + ot.byteSize)

/-- The bytes of the operands of a schema. -/
def fieldsWidth (types : List OpType) : Nat := (types.map OpType.byteSize).sum

/-- The instructions that the bytes from `start` to `stop` are, one behind the
other. An offset is the position as a `u32`. -/
inductive Tiles (t : OpcodeTables) (code : List UInt8) : Nat → Nat → List DecodedInst → Prop where
  | done {pos : Nat} : Tiles t code pos pos []
  | inst {pos stop : Nat} {opcode size : UInt8} {rest : List DecodedInst}
      (hopcode : code[pos]? = some opcode) (hsize : t.sizes[opcode.toNat]? = some size)
      (hfields : 1 + fieldsWidth (t.getSchema opcode.toNat).2 ≤ size.toNat)
      (hend : pos + size.toNat ≤ code.length) (hrest : Tiles t code (pos + size.toNat) stop rest) :
      Tiles t code pos stop
        (⟨pos % 2 ^ 32, size.toNat, t.instName opcode.toNat,
          fieldsAt code (t.getSchema opcode.toNat).2 (pos + 1)⟩ :: rest)

/-- The ranges of the instructions are consecutive, from `start` to `stop`. -/
def Consecutive : Nat → Nat → List DecodedInst → Prop
  | start, stop, [] => start = stop
  | start, stop, inst :: rest =>
    inst.offset = start ∧ Consecutive (inst.offset + inst.size) stop rest

/-- An instruction `n` bytes further on. -/
def DecodedInst.shift (n : Nat) (inst : DecodedInst) : DecodedInst :=
  { inst with offset := inst.offset + n }

/-- Where the instruction begins that a decoding error is about. -/
def errorOffset : HermesError → Option Nat
  | .unknownOpcode offset _ _ => some offset
  | .truncatedInstructionStream offset _ => some offset
  | _ => none

section Tiles

variable {t : OpcodeTables} {a b code : List UInt8} {start stop : Nat} {insts : List DecodedInst}

theorem Tiles.consecutive (h : Tiles t code start stop insts) (hlen : code.length ≤ 2 ^ 32) :
    Consecutive start stop insts := by
  induction h with
  | done => exact rfl
  | inst hopcode _ _ _ _ ih =>
    obtain ⟨hlt, -⟩ := List.getElem?_eq_some_iff.mp hopcode
    refine ⟨Nat.mod_eq_of_lt (by omega), ?_⟩
    rw [Nat.mod_eq_of_lt (by omega)]
    exact ih

theorem Tiles.le (h : Tiles t code start stop insts) : start ≤ stop := by
  induction h with
  | done => exact Nat.le_refl _
  | inst _ _ _ _ _ ih => omega

theorem Tiles.stop_le (h : Tiles t code start stop insts) (hstart : start ≤ code.length) :
    stop ≤ code.length := by
  induction h with
  | done => exact hstart
  | inst _ _ _ hend _ ih => exact ih hend

theorem Tiles.eq_nil (h : Tiles t code start stop insts) (hstart : code.length ≤ start) :
    insts = [] := by
  cases h with
  | done => rfl
  | inst hopcode _ _ _ _ =>
    obtain ⟨hlt, -⟩ := List.getElem?_eq_some_iff.mp hopcode
    omega

theorem Tiles.append {mid : Nat} {x y : List DecodedInst} (hx : Tiles t code start mid x)
    (hy : Tiles t code mid stop y) : Tiles t code start stop (x ++ y) := by
  induction hx with
  | done => exact hy
  | inst hopcode hsize hfields hend _ ih => exact .inst hopcode hsize hfields hend (ih hy)

theorem slice_shift_congr {n m w i j : Nat} (h : slice a n (n + w) = slice b m (m + w))
    (hj : j ≤ w) : slice a (n + i) (n + j) = slice b (m + i) (m + j) := by
  rw [← slice_slice (Nat.add_le_add_left hj n), h, slice_slice (Nat.add_le_add_left hj m)]

/-- The fields of a range are read from the range only. -/
theorem fieldsAt_congr {n m : Nat} {types : List OpType}
    (h : slice a n (n + fieldsWidth types) = slice b m (m + fieldsWidth types)) :
    fieldsAt a types n = fieldsAt b types m := by
  induction types generalizing n m with
  | nil => rfl
  | cons ot rest ih =>
    have hwidth : fieldsWidth (ot :: rest) = ot.byteSize + fieldsWidth rest := by
      simp [fieldsWidth]
    rw [hwidth] at h
    have hhead := slice_shift_congr (i := 0) h (Nat.le_add_right ot.byteSize (fieldsWidth rest))
    have htail := slice_shift_congr (i := ot.byteSize) h (Nat.le_refl _)
    rw [← Nat.add_assoc, ← Nat.add_assoc] at htail
    simp only [Nat.add_zero] at hhead
    simp only [fieldsAt, hhead, ih htail]

/-- What tiles a part of the code tiles it in front of more code. -/
theorem Tiles.append_right (h : Tiles t a start stop insts) (b : List UInt8) :
    Tiles t (a ++ b) start stop insts := by
  induction h with
  | done => exact .done
  | @inst pos stop opcode size rest hopcode hsize hfields hend _ ih =>
    have hbytes : fieldsAt a (t.getSchema opcode.toNat).2 (pos + 1) =
        fieldsAt (a ++ b) (t.getSchema opcode.toNat).2 (pos + 1) := by
      apply fieldsAt_congr
      rw [slice_append_left]
      omega
    rw [hbytes]
    obtain ⟨hlt, -⟩ := List.getElem?_eq_some_iff.mp hopcode
    have hlen : (a ++ b).length = a.length + b.length := List.length_append
    exact .inst (by rw [List.getElem?_append_left hlt, hopcode]) hsize hfields (by omega) ih

/-- What tiles a part of the code tiles it behind more code, shifted. -/
theorem Tiles.append_left (h : Tiles t b start stop insts) (a : List UInt8)
    (hlen : a.length + b.length < 2 ^ 32) :
    Tiles t (a ++ b) (a.length + start) (a.length + stop)
      (insts.map (DecodedInst.shift a.length)) := by
  induction h with
  | done => exact .done
  | @inst pos stop opcode size rest hopcode hsize hfields hend _ ih =>
    have hbytes : fieldsAt b (t.getSchema opcode.toNat).2 (pos + 1) =
        fieldsAt (a ++ b) (t.getSchema opcode.toNat).2 (a.length + pos + 1) := by
      apply fieldsAt_congr
      rw [Nat.add_assoc a.length, Nat.add_assoc a.length, slice_append_right]
    obtain ⟨hlt, -⟩ := List.getElem?_eq_some_iff.mp hopcode
    have hoffset : pos % 2 ^ 32 + a.length = (a.length + pos) % 2 ^ 32 := by omega
    simp only [List.map_cons, DecodedInst.shift]
    rw [hbytes, hoffset]
    have hlength : (a ++ b).length = a.length + b.length := List.length_append
    refine .inst ?_ hsize hfields (by omega) (by rwa [Nat.add_assoc])
    rw [List.getElem?_append_right (by omega), Nat.add_sub_cancel_left, hopcode]

end Tiles

/-! ## One instruction -/

section Instruction

variable {t : OpcodeTables} {code : List UInt8} {pos opcode instEnd : Nat}

theorem decodeOperands_eq_ok {types : List OpType} {opPos : Nat} {operands : List Operand} :
    decodeOperands code pos opcode instEnd types opPos = .ok operands ↔
      (types = [] ∨ opPos + fieldsWidth types ≤ instEnd) ∧ operands = fieldsAt code types opPos := by
  induction types generalizing opPos operands with
  | nil => simp [decodeOperands, fieldsAt, eq_comm]
  | cons ot rest ih =>
    simp only [decodeOperands, fieldsAt, fieldsWidth, List.map_cons, List.sum_cons] at ih ⊢
    split
    · next hgt => 
      constructor
      · intro h
        cases h
      · rintro ⟨h | h, -⟩
        · cases h
        · omega
    · next hle =>
      rw [Loop.bind_eq_ok]
      constructor
      · rintro ⟨tail, htail, hcons⟩
        obtain ⟨hfits, rfl⟩ := ih.mp htail
        cases hcons
        refine ⟨.inr ?_, rfl⟩
        rcases hfits with rfl | hfits
        · simp only [List.map_nil, List.sum_nil]
          omega
        · omega
      · rintro ⟨h | h, rfl⟩
        · cases h
        · exact ⟨_, ih.mpr ⟨.inr (by omega), rfl⟩, rfl⟩

/-- An instruction whose operands do not fit fails where it begins. -/
theorem decodeOperands_eq_error {types : List OpType} {opPos : Nat} {e : HermesError}
    (h : decodeOperands code pos opcode instEnd types opPos = .error e) :
    e = .truncatedInstructionStream pos opcode := by
  induction types generalizing opPos with
  | nil => cases h
  | cons ot rest ih =>
    simp only [decodeOperands] at h
    split at h
    · cases h
      rfl
    · cases hrest : decodeOperands code pos opcode instEnd rest (opPos + ot.byteSize) with
      | error e' =>
        rw [hrest, Loop.error_bind] at h
        cases h
        exact ih hrest
      | ok operands =>
        rw [hrest, Loop.ok_bind] at h
        cases h

end Instruction

/-- A round succeeds exactly where the opcode has a size, the instruction lies in the
code and the operands lie in the instruction. -/
theorem decodeAt_eq_ok {t : OpcodeTables} {code : List UInt8} {pos opcode : Nat}
    {inst : DecodedInst} :
    decodeAt t code pos opcode = .ok inst ↔ ∃ size, t.sizes[opcode]? = some size ∧
      1 + fieldsWidth (t.getSchema opcode).2 ≤ size.toNat ∧ pos + size.toNat ≤ code.length ∧
      inst = ⟨pos % 2 ^ 32, size.toNat, t.instName opcode,
        fieldsAt code (t.getSchema opcode).2 (pos + 1)⟩ := by
  simp only [decodeAt]
  cases hsize : t.sizes[opcode]? with
  | none => simp
  | some size =>
    simp only [Option.some.injEq, exists_eq_left']
    have hzero : size = 0 ↔ size.toNat = 0 := by
      rw [← UInt8.toNat_inj]
      rfl
    split
    · next hbad =>
      constructor
      · intro h
        cases h
      · rintro ⟨hfields, hend, -⟩
        rw [hzero] at hbad
        omega
    · next hgood =>
      rw [hzero] at hgood
      push Not at hgood
      rw [Loop.bind_eq_ok]
      constructor
      · rintro ⟨operands, hoperands, hinst⟩
        obtain ⟨hfits, rfl⟩ := decodeOperands_eq_ok.mp hoperands
        cases hinst
        refine ⟨?_, hgood.2, rfl⟩
        rcases hfits with hnil | hfits
        · rw [hnil]
          exact Nat.one_le_iff_ne_zero.mpr hgood.1
        · omega
      · rintro ⟨hfields, hend, rfl⟩
        exact ⟨_, decodeOperands_eq_ok.mpr ⟨.inr (by omega), rfl⟩, rfl⟩

theorem decodeAt_eq_error {t : OpcodeTables} {code : List UInt8} {pos opcode : Nat}
    {e : HermesError} (h : decodeAt t code pos opcode = .error e) : errorOffset e = some pos := by
  simp only [decodeAt] at h
  split at h
  · cases h
    rfl
  · next size hsize =>
    split at h
    · cases h
      rfl
    · cases hoperands : decodeOperands code pos opcode (pos + size.toNat) (t.getSchema opcode).2
          (pos + 1) with
      | error e' =>
        rw [hoperands, Loop.error_bind] at h
        cases h
        rw [decodeOperands_eq_error hoperands]
        rfl
      | ok operands =>
        rw [hoperands, Loop.ok_bind] at h
        cases h

/-! ## The loop -/

section Loop

variable {t : OpcodeTables} {code : List UInt8} {fuel start stop : Nat} {insts : List DecodedInst}

/-- The loop goes over what tiles the code and goes on behind it. -/
theorem decodeFrom_tiles (h : Tiles t code start stop insts) (hfuel : code.length ≤ start + fuel) :
    ∃ fuel', code.length ≤ stop + fuel' ∧
      decodeFrom t code fuel start = (decodeFrom t code fuel' stop).map (insts ++ ·) := by
  induction h generalizing fuel with
  | @done pos =>
    refine ⟨fuel, hfuel, ?_⟩
    cases decodeFrom t code fuel pos <;> rfl
  | @inst pos stop opcode size rest hopcode hsize hfields hend _ ih =>
    obtain ⟨hlt, -⟩ := List.getElem?_eq_some_iff.mp hopcode
    obtain ⟨fuel, rfl⟩ : ∃ n, fuel = n + 1 := ⟨fuel - 1, by omega⟩
    obtain ⟨fuel', hfuel', heq⟩ := @ih fuel (by omega)
    refine ⟨fuel', hfuel', ?_⟩
    have hinst := decodeAt_eq_ok.mpr ⟨size, hsize, hfields, hend, rfl⟩
    simp only [decodeFrom, hopcode, hinst, Loop.ok_bind, heq]
    cases decodeFrom t code fuel' stop <;> rfl

/-- The loop stops at the end, or at an instruction that fails. -/
theorem decodeFrom_stops (hstart : start ≤ code.length) (hfuel : code.length ≤ start + fuel) :
    (∃ insts, decodeFrom t code fuel start = .ok insts ∧
      Tiles t code start code.length insts) ∨
    ∃ stop insts opcode e, decodeFrom t code fuel start = .error e ∧ Tiles t code start stop insts ∧
      code[stop]? = some opcode ∧ decodeAt t code stop opcode.toNat = .error e := by
  induction fuel generalizing start with
  | zero =>
    obtain rfl : start = code.length := by omega
    exact .inl ⟨[], rfl, .done⟩
  | succ fuel ih =>
    simp only [decodeFrom]
    cases hopcode : code[start]? with
    | none =>
      have hge := List.getElem?_eq_none_iff.mp hopcode
      obtain rfl : start = code.length := by omega
      exact .inl ⟨[], rfl, .done⟩
    | some opcode =>
      cases hinst : decodeAt t code start opcode.toNat with
      | error e =>
        refine .inr ⟨start, [], opcode, e, ?_, .done, hopcode, hinst⟩
        simp only [hinst, Loop.error_bind]
      | ok inst =>
        obtain ⟨size, hsize, hfields, hend, rfl⟩ := decodeAt_eq_ok.mp hinst
        simp only [hinst, Loop.ok_bind]
        rcases @ih (start + size.toNat) hend (by omega) with
          ⟨rest, hrest, htiles⟩ | ⟨stop, rest, opcode', e, hrest, htiles, hopcode', herr⟩
        · refine .inl ⟨_, ?_, .inst hopcode hsize hfields hend htiles⟩
          rw [hrest]
          rfl
        · refine .inr ⟨stop, _, opcode', e, ?_, .inst hopcode hsize hfields hend htiles, hopcode',
            herr⟩
          rw [hrest]
          rfl

end Loop

/-! ## The decoder -/

section Decoder

variable {t : OpcodeTables} {a b code : List UInt8}

theorem decodeFunction_eq_ok {insts : List DecodedInst} :
    decodeFunction t code = .ok insts ↔ Tiles t code 0 code.length insts := by
  constructor
  · intro h
    rcases @decodeFrom_stops t code code.length 0 (Nat.zero_le _)
      (by omega) with ⟨insts', hok, htiles⟩ | ⟨_, _, _, e, herr, -⟩
    · have heq := hok.symm.trans h
      cases heq
      exact htiles
    · have heq := herr.symm.trans h
      cases heq
  · intro h
    obtain ⟨fuel', -, heq⟩ := @decodeFrom_tiles t code code.length _ _ _ h (by omega)
    rw [decodeFunction, heq]
    cases fuel' with
    | zero => simp [decodeFrom, Except.map]
    | succ fuel' => simp [decodeFrom, Except.map]

theorem decodeFunction_eq_error {e : HermesError} (h : decodeFunction t code = .error e) :
    ∃ stop insts, errorOffset e = some stop ∧ Tiles t code 0 stop insts := by
  rcases @decodeFrom_stops t code code.length 0 (Nat.zero_le _)
    (by omega) with ⟨_, hok, -⟩ | ⟨stop, insts, opcode, e', herr, htiles, -, hfails⟩
  · have heq := hok.symm.trans h
    cases heq
  · have heq := herr.symm.trans h
    cases heq
    exact ⟨stop, insts, decodeAt_eq_error hfails, htiles⟩

/-- Behind what tiles the beginning of the code, decoding goes on or fails. -/
theorem decodeFunction_after {stop : Nat} {insts : List DecodedInst}
    (htiles : Tiles t code 0 stop insts) (hstop : stop ≤ code.length) :
    (∃ rest, decodeFunction t code = .ok (insts ++ rest)) ∨
      ∃ pos e, decodeFunction t code = .error e ∧ errorOffset e = some pos ∧ stop ≤ pos := by
  obtain ⟨fuel', hfuel', heq⟩ := @decodeFrom_tiles t code code.length _ _ _ htiles (by omega)
  rcases decodeFrom_stops hstop hfuel' with
    ⟨rest, hrest, -⟩ | ⟨pos, rest, opcode, e, hrest, hmore, -, hfails⟩
  · refine .inl ⟨rest, ?_⟩
    rw [decodeFunction, heq, hrest]
    rfl
  · refine .inr ⟨pos, e, ?_, decodeAt_eq_error hfails, hmore.le⟩
    rw [decodeFunction, heq, hrest]
    rfl

/-- The decoded instructions tile the body, two bodies one behind the other decode to
their instructions one behind the other, and an error is not undone by what stands in
front of it. -/
theorem decodeFunction_tiles (t : OpcodeTables) :
    (∀ code insts, decodeFunction t code = .ok insts →
      Tiles t code 0 code.length insts ∧
        (code.length ≤ 2 ^ 32 → Consecutive 0 code.length insts)) ∧
    (∀ a b x y, decodeFunction t a = .ok x → decodeFunction t b = .ok y →
      a.length + b.length < 2 ^ 32 →
      decodeFunction t (a ++ b) = .ok (x ++ y.map (DecodedInst.shift a.length))) ∧
    ∀ a b e, decodeFunction t a = .error e →
      ∃ stop insts, errorOffset e = some stop ∧ Tiles t a 0 stop insts ∧
        ((∃ rest, decodeFunction t (a ++ b) = .ok (insts ++ rest)) ∨
          ∃ pos e', decodeFunction t (a ++ b) = .error e' ∧ errorOffset e' = some pos ∧
            stop ≤ pos) := by
  refine ⟨?_, ?_, ?_⟩
  · intro code insts h
    have htiles := decodeFunction_eq_ok.mp h
    exact ⟨htiles, htiles.consecutive⟩
  · intro a b x y hx hy hlen
    have hfront := (decodeFunction_eq_ok.mp hx).append_right b
    have hback := (decodeFunction_eq_ok.mp hy).append_left a hlen
    rw [decodeFunction_eq_ok, List.length_append]
    exact hfront.append hback
  · intro a b e h
    obtain ⟨stop, insts, hoffset, htiles⟩ := decodeFunction_eq_error h
    refine ⟨stop, insts, hoffset, htiles, ?_⟩
    apply decodeFunction_after (htiles.append_right b)
    rw [List.length_append]
    exact Nat.le_add_right_of_le (htiles.stop_le (Nat.zero_le _))

end Decoder

end Hermes.Decompile
