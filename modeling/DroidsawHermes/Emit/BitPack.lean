-- SUMMARY: The bit packer of the emitter, and that packing the fields of an entry back restores the entry.
import DroidsawHermes.Parser.RawEntries

/-!
# Bit packing

`bit_pack_u32` of `emit.rs` and the three entry writers that use it. A field
that was read from an entry and is packed at its place puts the entry's own bits
back; an entry whose fields and flags byte tile all of its bits is restored.
-/

open Bytes

namespace Hermes

/-- The loop of `bit_pack_u32`. Every round writes at least one bit, so a fuel of
`numBits` never runs out; a round writes at most eight. -/
def bitPackLoop (numBits value : Nat) : Nat → List UInt8 → Nat → Nat → List UInt8
  | 0, out, _, _ => out
  | fuel + 1, out, written, bitIdx =>
    if written < numBits then
      let byteIdx := bitIdx / 8
      let bitsInByte := 8 - bitIdx % 8
      let bitsToWrite := min bitsInByte (numBits - written)
      let mask := (1 <<< bitsToWrite) - 1
      let shift := bitIdx % 8
      let valueChunk := (value >>> written) &&& mask
      match out[byteIdx]? with
      | none => out
      | some slot =>
        bitPackLoop numBits value fuel
          (out.set byteIdx (slot ||| UInt8.ofNat (valueChunk <<< shift)))
          (written + bitsToWrite) (bitIdx + bitsToWrite)
    else out

def bitPackU32 (out : List UInt8) (startBit numBits value : Nat) : List UInt8 :=
  bitPackLoop numBits value numBits out 0 startBit

theorem length_bitPackLoop (numBits value : Nat) :
    ∀ fuel out written bitIdx,
      (bitPackLoop numBits value fuel out written bitIdx).length = out.length := by
  intro fuel
  induction fuel with
  | zero => intro out written bitIdx; rfl
  | succ fuel ih =>
    intro out written bitIdx
    simp only [bitPackLoop]
    split
    · split
      · rfl
      · rw [ih, List.length_set]
    · rfl

@[simp] theorem length_bitPackU32 (out : List UInt8) (startBit numBits value : Nat) :
    (bitPackU32 out startBit numBits value).length = out.length :=
  length_bitPackLoop numBits value numBits out 0 startBit

/-- One round: the chunk of the value goes to its place in the byte. -/
private theorem bitAt_packChunk {out : List UInt8} {slot : UInt8} {bitIdx written n value i : Nat}
    (hslot : out[bitIdx / 8]? = some slot) (hn : n ≤ 8 - bitIdx % 8) :
    bitAt (out.set (bitIdx / 8)
        (slot ||| UInt8.ofNat (((value >>> written) &&& ((1 <<< n) - 1)) <<< (bitIdx % 8)))) i =
      (bitAt out i ||
        (decide (bitIdx ≤ i ∧ i < bitIdx + n) && value.testBit (written + (i - bitIdx)))) := by
  have hlt : bitIdx / 8 < out.length := (List.getElem?_eq_some_iff.mp hslot).1
  have hmask : (1 <<< n) - 1 = 2 ^ n - 1 := by rw [Nat.shiftLeft_eq, Nat.one_mul]
  rw [bitAt_set hlt]
  by_cases hbyte : i / 8 = bitIdx / 8
  · have hold : bitAt out i = slot.toNat.testBit (i % 8) := by
      simp [bitAt, hbyte, hslot]
    rw [if_pos hbyte, hold, UInt8.toNat_or, Nat.testBit_or, UInt8.toNat_ofNat', hmask,
      Nat.testBit_mod_two_pow, Nat.testBit_shiftLeft, Nat.testBit_and, Nat.testBit_shiftRight,
      Nat.testBit_two_pow_sub_one]
    congr 1
    by_cases hin : bitIdx ≤ i ∧ i < bitIdx + n
    · obtain ⟨hlo, hhi⟩ := hin
      have h1 : i % 8 ≥ bitIdx % 8 := by omega
      have h2 : i % 8 < 8 := by omega
      have h3 : i % 8 - bitIdx % 8 = i - bitIdx := by omega
      have h4 : i - bitIdx < n := by omega
      simp [hlo, hhi, h1, h2, h3, h4]
    · by_cases h1 : i % 8 ≥ bitIdx % 8
      · have h4 : ¬ i % 8 - bitIdx % 8 < n := by omega
        simp [hin, h4]
      · simp [hin, h1]
  · have hout : ¬ (bitIdx ≤ i ∧ i < bitIdx + n) := by omega
    rw [if_neg hbyte]
    simp [hout]

/-- The loop invariant: what is left of the value still has to be written. -/
private theorem bitAt_bitPackLoop (numBits value i : Nat) :
    ∀ fuel out written bitIdx, numBits - written ≤ fuel →
      bitIdx + (numBits - written) ≤ 8 * out.length →
      bitAt (bitPackLoop numBits value fuel out written bitIdx) i =
        (bitAt out i || (decide (bitIdx ≤ i ∧ i < bitIdx + (numBits - written)) &&
          value.testBit (written + (i - bitIdx)))) := by
  intro fuel
  induction fuel with
  | zero =>
    intro out written bitIdx hfuel _
    have hno : ¬ (bitIdx ≤ i ∧ i < bitIdx + (numBits - written)) := by omega
    simp [bitPackLoop, hno]
  | succ fuel ih =>
    intro out written bitIdx hfuel hroom
    simp only [bitPackLoop]
    split
    · rename_i hlt
      split
      · rename_i hnone
        have hlen : out.length ≤ bitIdx / 8 := by simpa using hnone
        omega
      · rename_i slot hslot
        generalize hn : min (8 - bitIdx % 8) (numBits - written) = n
        have hpos : 0 < n := by omega
        rw [ih _ _ _ (by omega) (by rw [List.length_set]; omega),
          bitAt_packChunk hslot (by omega), Bool.or_assoc]
        congr 1
        by_cases hlow : i < bitIdx + n
        · have hno : ¬ (bitIdx + n ≤ i ∧ i < bitIdx + n + (numBits - (written + n))) := by omega
          have hiff : (bitIdx ≤ i ∧ i < bitIdx + n) ↔
              (bitIdx ≤ i ∧ i < bitIdx + (numBits - written)) := by omega
          simp [hno, hiff]
        · have hno : ¬ (bitIdx ≤ i ∧ i < bitIdx + n) := by omega
          have hiff : (bitIdx + n ≤ i ∧ i < bitIdx + n + (numBits - (written + n))) ↔
              (bitIdx ≤ i ∧ i < bitIdx + (numBits - written)) := by omega
          have hidx : written + n + (i - (bitIdx + n)) = written + (i - bitIdx) := by omega
          simp [hno, hiff, hidx]
    · rename_i hge
      have hno : ¬ (bitIdx ≤ i ∧ i < bitIdx + (numBits - written)) := by omega
      simp [hno]

theorem bitAt_bitPackU32 {out : List UInt8} {startBit numBits : Nat}
    (h : startBit + numBits ≤ 8 * out.length) (value i : Nat) :
    bitAt (bitPackU32 out startBit numBits value) i =
      (bitAt out i ||
        (decide (startBit ≤ i ∧ i < startBit + numBits) && value.testBit (i - startBit))) := by
  rw [bitPackU32, bitAt_bitPackLoop numBits value i numBits out 0 startBit (by omega) (by omega)]
  simp

/-- Packing a field back at the place it was read from restores its bits. -/
theorem bitAt_bitPackU32_readBitfield {out entry : List UInt8} {startBit numBits : Nat}
    (h : startBit + numBits ≤ 8 * out.length) (i : Nat) :
    bitAt (bitPackU32 out startBit numBits (readBitfield entry startBit numBits)) i =
      (bitAt out i || (decide (startBit ≤ i ∧ i < startBit + numBits) && bitAt entry i)) := by
  rw [bitAt_bitPackU32 h, testBit_readBitfield]
  congr 1
  by_cases hin : startBit ≤ i ∧ i < startBit + numBits
  · have hlt : i - startBit < numBits := by omega
    have hidx : startBit + (i - startBit) = i := by omega
    simp [hin, hlt, hidx]
  · simp [hin]

-- ---------------------------------------------------------------------------
-- Entry writers
-- ---------------------------------------------------------------------------

def emitOneSmallFuncHeaderV96 (raw : SmallFuncHeaderV96Raw) : List UInt8 :=
  let entry := List.replicate 16 0
  let entry := bitPackU32 entry 0 25 raw.rawOffset
  let entry := bitPackU32 entry 25 7 raw.rawParamCount
  let entry := bitPackU32 entry 32 15 raw.rawByteSize
  let entry := bitPackU32 entry 47 17 raw.rawFuncName
  let entry := bitPackU32 entry 64 25 raw.rawInfoOffset
  let entry := bitPackU32 entry 89 31 raw.rawUncharacterizedMid
  entry.set 15 raw.rawFlagsByte

def emitOneSmallFuncHeaderV98 : SmallFuncHeaderV98Raw → List UInt8
  | .earlyV98 rawOffset rawParamCount rawByteSize rawFuncName rawUncharacterizedMid
      rawFlagsByte =>
    let entry := List.replicate 12 0
    let entry := bitPackU32 entry 0 25 rawOffset
    let entry := bitPackU32 entry 25 7 rawParamCount
    let entry := bitPackU32 entry 32 15 rawByteSize
    let entry := bitPackU32 entry 47 17 rawFuncName
    let entry := bitPackU32 entry 64 24 rawUncharacterizedMid
    entry.set 11 rawFlagsByte
  | .lateV98 rawOffset rawParamCount rawLoopDepth rawByteSize rawFuncName
      rawUncharacterizedMidLo rawUncharacterizedMidHi rawFlagsByte =>
    let entry := List.replicate 12 0
    let entry := bitPackU32 entry 0 25 rawOffset
    let entry := bitPackU32 entry 25 5 rawParamCount
    let entry := bitPackU32 entry 30 2 rawLoopDepth
    let entry := bitPackU32 entry 32 14 rawByteSize
    let entry := bitPackU32 entry 46 8 rawFuncName
    let entry := bitPackU32 entry 54 32 rawUncharacterizedMidLo
    let entry := bitPackU32 entry 86 2 rawUncharacterizedMidHi
    entry.set 11 rawFlagsByte

def emitOneSmallStringTableEntryV96 (raw : SmallStringTableEntryV96Raw) : List UInt8 :=
  let entry := List.replicate 4 0
  let entry := bitPackU32 entry 0 1 (if raw.isUtf16 then 1 else 0)
  let entry := bitPackU32 entry 1 23 raw.strOffset
  bitPackU32 entry 24 8 raw.strLength

/-- The last byte of an entry, set to what the entry has there. -/
private theorem bitAt_setLast {out entry : List UInt8} {k : Nat} (hk : k < out.length) (i : Nat) :
    bitAt (out.set k (entry.getD k 0)) i =
      if i / 8 = k then bitAt entry i else bitAt out i := by
  rw [bitAt_set hk]
  by_cases h : i / 8 = k
  · simp only [h, if_true, bitAt]
  · simp only [h, if_false]

theorem emitOneSmallFuncHeaderV96_split {entry : List UInt8} (hlen : entry.length = 16) :
    emitOneSmallFuncHeaderV96 (HbcFile.splitSmallFuncHeaderV96 entry) = entry := by
  apply ext_bitAt
  · simp [emitOneSmallFuncHeaderV96, hlen]
  intro i hi
  have hi' : i < 128 := by
    simpa [emitOneSmallFuncHeaderV96] using hi
  simp only [emitOneSmallFuncHeaderV96, HbcFile.splitSmallFuncHeaderV96]
  rw [bitAt_setLast (by simp)]
  by_cases hlast : i / 8 = 15
  · rw [if_pos hlast]
  · rw [if_neg hlast]
    repeat rw [bitAt_bitPackU32_readBitfield (by simp)]
    rw [bitAt_replicate_zero]
    -- the six fields tile the bits below the flags byte
    cases bitAt entry i with
    | false => simp
    | true =>
      simp only [Bool.false_or, Bool.and_true, Bool.or_eq_true, decide_eq_true_eq]
      omega

theorem emitOneSmallFuncHeaderV98_splitEarly {entry : List UInt8} (hlen : entry.length = 12) :
    emitOneSmallFuncHeaderV98 (HbcFile.splitSmallFuncHeaderEarlyV98 entry) = entry := by
  apply ext_bitAt
  · simp [emitOneSmallFuncHeaderV98, HbcFile.splitSmallFuncHeaderEarlyV98, hlen]
  intro i hi
  have hi' : i < 96 := by
    simpa [emitOneSmallFuncHeaderV98, HbcFile.splitSmallFuncHeaderEarlyV98] using hi
  simp only [emitOneSmallFuncHeaderV98, HbcFile.splitSmallFuncHeaderEarlyV98]
  rw [bitAt_setLast (by simp)]
  by_cases hlast : i / 8 = 11
  · rw [if_pos hlast]
  · rw [if_neg hlast]
    repeat rw [bitAt_bitPackU32_readBitfield (by simp)]
    rw [bitAt_replicate_zero]
    cases bitAt entry i with
    | false => simp
    | true =>
      simp only [Bool.false_or, Bool.and_true, Bool.or_eq_true, decide_eq_true_eq]
      omega

theorem emitOneSmallFuncHeaderV98_splitLate {entry : List UInt8} (hlen : entry.length = 12) :
    emitOneSmallFuncHeaderV98 (HbcFile.splitSmallFuncHeaderLateV98 entry) = entry := by
  apply ext_bitAt
  · simp [emitOneSmallFuncHeaderV98, HbcFile.splitSmallFuncHeaderLateV98, hlen]
  intro i hi
  have hi' : i < 96 := by
    simpa [emitOneSmallFuncHeaderV98, HbcFile.splitSmallFuncHeaderLateV98] using hi
  simp only [emitOneSmallFuncHeaderV98, HbcFile.splitSmallFuncHeaderLateV98]
  rw [bitAt_setLast (by simp)]
  by_cases hlast : i / 8 = 11
  · rw [if_pos hlast]
  · rw [if_neg hlast]
    repeat rw [bitAt_bitPackU32_readBitfield (by simp)]
    rw [bitAt_replicate_zero]
    cases bitAt entry i with
    | false => simp
    | true =>
      simp only [Bool.false_or, Bool.and_true, Bool.or_eq_true, decide_eq_true_eq]
      omega

theorem emitOneSmallStringTableEntryV96_split {entry : List UInt8} (hlen : entry.length = 4) :
    emitOneSmallStringTableEntryV96
      { isUtf16 := readBitfield entry 0 1 ≠ 0
        strOffset := readBitfield entry 1 23
        strLength := readBitfield entry 24 8 } = entry := by
  have hbit : (if decide (readBitfield entry 0 1 ≠ 0) = true then 1 else 0) =
      readBitfield entry 0 1 := by
    have hlt := readBitfield_lt entry 0 1
    simp only [decide_eq_true_eq]
    split <;> omega
  apply ext_bitAt
  · simp [emitOneSmallStringTableEntryV96, hlen]
  intro i hi
  have hi' : i < 32 := by
    simpa [emitOneSmallStringTableEntryV96] using hi
  simp only [emitOneSmallStringTableEntryV96, hbit]
  repeat rw [bitAt_bitPackU32_readBitfield (by simp)]
  rw [bitAt_replicate_zero]
  cases bitAt entry i with
  | false => simp
  | true =>
    simp only [Bool.false_or, Bool.and_true, Bool.or_eq_true, decide_eq_true_eq]
    omega

end Hermes
