-- SUMMARY: The parser's total readers: little-endian words, bitfields, 4-byte alignment and flag packing, with their bit-level specifications.
import DroidsawHermes.Lib.Bytes
import Mathlib.Tactic.NormNum

/-!
# Readers

The helper functions of `parser/mod.rs` that every accessor goes through.
Integers of the source are naturals here; a saturating or narrowing operation
is written out with its bound where the source relies on it.
-/

open Bytes

namespace Hermes

def u32Max : Nat := 0xFFFFFFFF
def u64Max : Nat := 0xFFFFFFFFFFFFFFFF

/-- `u64::saturating_add`. -/
def saturatingAddU64 (a b : Nat) : Nat := min (a + b) u64Max

/-- `checked_add` and `checked_mul` on 64-bit integers, for a sum or product `v`. -/
def checkedU64 {ε : Type} (v : Nat) (e : ε) : Except ε Nat := if v ≤ u64Max then .ok v else .error e

theorem checkedU64_of_le {ε : Type} {v : Nat} {e : ε} (h : v ≤ u64Max) :
    checkedU64 v e = .ok v := if_pos h

/-! ## Words -/

/-- `buf.get(offset..)`, `first_chunk::<4>()`, `map_or(0, u32::from_le_bytes)`. -/
def readU32 (buf : List UInt8) (offset : Nat) : Nat :=
  match buf.drop offset with
  | a :: b :: c :: d :: _ => ofLE [a, b, c, d]
  | _ => 0

theorem readU32_lt (buf : List UInt8) (offset : Nat) : readU32 buf offset < 2 ^ 32 := by
  unfold readU32
  split
  · rename_i a b c d rest hd
    have hlt : ofLE [a, b, c, d] < 256 ^ 4 := ofLE_lt [a, b, c, d]
    norm_num at hlt ⊢
    exact hlt
  · decide

theorem readU32_le_u32Max (buf : List UInt8) (offset : Nat) : readU32 buf offset ≤ u32Max := by
  have := readU32_lt buf offset
  simp only [u32Max]
  omega

theorem readU32_eq_ofLE {buf : List UInt8} {offset : Nat} (h : offset + 4 ≤ buf.length) :
    readU32 buf offset = ofLE (slice buf offset (offset + 4)) := by
  have hlen : (buf.drop offset).length = buf.length - offset := by simp
  have hfour : offset + 4 - offset = 4 := by omega
  simp only [readU32, slice, hfour]
  obtain ⟨a, b, c, d, rest, hd⟩ : ∃ a b c d rest, buf.drop offset = a :: b :: c :: d :: rest := by
    rcases hd : buf.drop offset with _ | ⟨a, _ | ⟨b, _ | ⟨c, _ | ⟨d, rest⟩⟩⟩⟩
    case cons.cons.cons.cons => exact ⟨a, b, c, d, rest, rfl⟩
    all_goals
      rw [hd] at hlen
      simp only [List.length_cons, List.length_nil] at hlen
      omega
  rw [hd]
  rfl

/-- Writing a word back restores the four bytes it was read from. -/
theorem leBytes_readU32 {buf : List UInt8} {offset : Nat} (h : offset + 4 ≤ buf.length) :
    leBytes 4 (readU32 buf offset) = slice buf offset (offset + 4) := by
  rw [readU32_eq_ofLE h, leBytes_slice h]

theorem readU32_congr {n : Nat} {a b : List UInt8} (h : AgreeFrom n a b) {offset : Nat}
    (hn : n ≤ offset) : readU32 a offset = readU32 b offset := by
  simp only [readU32, h.drop hn]

theorem readU32_congr_add {n : Nat} {a b : List UInt8} (h : AgreeFrom n a b) {offset : Nat}
    (hn : n ≤ offset) (k : Nat) : readU32 a (offset + k) = readU32 b (offset + k) :=
  readU32_congr h (by omega)

/-- A word that the buffer does not hold reads as zero. -/
theorem readU32_eq_zero {buf : List UInt8} {offset : Nat} (h : buf.length < offset + 4) :
    readU32 buf offset = 0 := by
  have hlen : (buf.drop offset).length < 4 := by
    simp only [List.length_drop]
    omega
  unfold readU32
  split
  · rename_i hd
    rw [hd] at hlen
    simp only [List.length_cons] at hlen
    omega
  · rfl

theorem readU32_congr_on {a b : List UInt8} {offset : Nat} (h : AgreeOn offset (offset + 4) a b) :
    readU32 a offset = readU32 b offset := by
  by_cases hin : offset + 4 ≤ b.length
  · rw [readU32_eq_ofLE hin, readU32_eq_ofLE (h.length_eq ▸ hin), h.slice_eq]
  · rw [@readU32_eq_zero a _ (by rw [h.length_eq]; omega), readU32_eq_zero (by omega)]

/-- `buf.get(offset..)`, `first_chunk::<w>()`, `map_or(0, from_le_bytes)`. -/
def readLE (w : Nat) (buf : List UInt8) (offset : Nat) : Nat :=
  ((get? buf offset (offset + w)).map ofLE).getD 0

def readU16 (buf : List UInt8) (offset : Nat) : Nat := readLE 2 buf offset

/-- The bits of the float. -/
def readF64 (buf : List UInt8) (offset : Nat) : UInt64 := UInt64.ofNat (readLE 8 buf offset)

theorem readU32_eq_readLE (buf : List UInt8) (offset : Nat) :
    readU32 buf offset = readLE 4 buf offset := by
  by_cases h : offset + 4 ≤ buf.length
  · rw [readU32_eq_ofLE h, readLE, get?_of_le (by omega) h]
    rfl
  · have hnone : get? buf offset (offset + 4) = none := if_neg fun hin => h hin.2
    rw [readU32_eq_zero (by omega), readLE, hnone]
    rfl

/-- A word reads back as it was written. -/
theorem readLE_append (pre suf : List UInt8) (w n : Nat) :
    readLE w (pre ++ leBytes w n ++ suf) pre.length = n % 256 ^ w := by
  have hslice := slice_append pre (leBytes w n) suf
  rw [length_leBytes] at hslice
  rw [readLE, get?_of_le (by omega) (by simp only [List.length_append, length_leBytes]; omega),
    hslice, Option.map_some, Option.getD_some, ofLE_leBytes]

/-! ## Alignment and flags -/

/-- Round up to a multiple of 4, saturating at `u64::MAX`; `& !3` clears the two
low bits. -/
def align4U64 (v : Nat) : Nat := saturatingAddU64 v 3 / 4 * 4

theorem le_align4U64 {v : Nat} (h : v + 3 ≤ u64Max) : v ≤ align4U64 v := by
  simp only [align4U64, saturatingAddU64, u64Max] at *
  omega

def packFlags (raw : Nat) : Nat :=
  (raw &&& 0x03) -- prohibit_invoke
    ||| (((raw >>> 2) &&& 1) <<< 2) -- strict_mode
    ||| (((raw >>> 3) &&& 1) <<< 3) -- has_exception_handler
    ||| (((raw >>> 4) &&& 1) <<< 4) -- has_debug_info
    ||| (((raw >>> 6) &&& 3) <<< 5) -- kind

/-! ## Bitfields -/

/-- The loop of `read_bitfield`. Every round reads at least one bit, so a fuel of
`numBits` never runs out. -/
def readBitfieldLoop (bytes : List UInt8) (numBits : Nat) : Nat → Nat → Nat → Nat → Nat
  | 0, value, _, _ => value
  | fuel + 1, value, written, bitIdx =>
    if written < numBits then
      match bytes[bitIdx / 8]? with
      | none => value
      | some b =>
        let bitsInByte := 8 - bitIdx % 8
        let bitsToRead := min bitsInByte (numBits - written)
        let mask := (1 <<< bitsToRead) - 1
        let shift := bitIdx % 8
        let byteValue := b.toNat >>> shift
        readBitfieldLoop bytes numBits fuel (value ||| ((byteValue &&& mask) <<< written))
          (written + bitsToRead) (bitIdx + bitsToRead)
    else value

def readBitfield (bytes : List UInt8) (startBit numBits : Nat) : Nat :=
  readBitfieldLoop bytes numBits numBits 0 0 startBit

/-- One chunk of a bitfield read: the masked byte value, moved to its place,
holds exactly the buffer's bits of that chunk. -/
private theorem testBit_chunk {b : UInt8} {bytes : List UInt8} {bitIdx n written k : Nat}
    (hb : bytes[bitIdx / 8]? = some b) (hn : n ≤ 8 - bitIdx % 8) :
    (((b.toNat >>> (bitIdx % 8)) &&& ((1 <<< n) - 1)) <<< written).testBit k =
      (decide (written ≤ k ∧ k < written + n) && bitAt bytes (bitIdx + (k - written))) := by
  have hmask : (1 <<< n) - 1 = 2 ^ n - 1 := by rw [Nat.shiftLeft_eq, Nat.one_mul]
  rw [hmask, Nat.testBit_shiftLeft, Nat.testBit_and, Nat.testBit_two_pow_sub_one,
    Nat.testBit_shiftRight]
  by_cases hk : written ≤ k ∧ k < written + n
  · obtain ⟨hle, hlt⟩ := hk
    have hdiv : (bitIdx + (k - written)) / 8 = bitIdx / 8 := by omega
    have hmod : (bitIdx + (k - written)) % 8 = bitIdx % 8 + (k - written) := by omega
    have hlt' : k - written < n := by omega
    simp [bitAt, hdiv, hmod, hb, hle, hlt, hlt']
  · by_cases hle : written ≤ k
    · have hge : ¬ k - written < n := by omega
      simp [hk, hge]
    · simp [hle]

/-- The loop invariant: the bits below `written` are in `value`, the rest still
come from the buffer. -/
private theorem testBit_readBitfieldLoop (bytes : List UInt8) (numBits k : Nat) :
    ∀ fuel value written bitIdx, numBits - written ≤ fuel →
      (readBitfieldLoop bytes numBits fuel value written bitIdx).testBit k =
        (value.testBit k ||
          (decide (written ≤ k ∧ k < numBits) && bitAt bytes (bitIdx + (k - written)))) := by
  intro fuel
  induction fuel with
  | zero =>
    intro value written bitIdx hfuel
    have hno : ¬ (written ≤ k ∧ k < numBits) := by omega
    simp [readBitfieldLoop, hno]
  | succ fuel ih =>
    intro value written bitIdx hfuel
    simp only [readBitfieldLoop]
    split
    · rename_i hlt
      split
      · -- the buffer has ended: every bit still wanted reads as zero
        rename_i hnone
        have hlen : bytes.length ≤ bitIdx / 8 := by simpa using hnone
        rw [bitAt_of_length_le (b := bytes) (i := bitIdx + (k - written)) (by omega)]
        simp
      · rename_i b hb
        generalize hn : min (8 - bitIdx % 8) (numBits - written) = n
        have hpos : 0 < n := by omega
        rw [ih _ _ _ (by omega), Nat.testBit_or,
          testBit_chunk hb (by omega), Bool.or_assoc]
        congr 1
        by_cases hk : k < written + n
        · have hno : ¬ (written + n ≤ k ∧ k < numBits) := by omega
          have hiff : (written ≤ k ∧ k < written + n) ↔ (written ≤ k ∧ k < numBits) := by omega
          simp [hno, hiff]
        · have hno : ¬ (written ≤ k ∧ k < written + n) := by omega
          by_cases hk' : k < numBits
          · have hidx : bitIdx + n + (k - (written + n)) = bitIdx + (k - written) := by omega
            have h1 : written + n ≤ k := by omega
            have h2 : written ≤ k := by omega
            simp [hidx, h1, h2]
          · simp [hno, hk']
    · rename_i hge
      have hno : ¬ (written ≤ k ∧ k < numBits) := by omega
      simp [hno]

/-- A bitfield is the buffer's bits from `startBit` on, cut to `numBits`. -/
theorem testBit_readBitfield (bytes : List UInt8) (startBit numBits k : Nat) :
    (readBitfield bytes startBit numBits).testBit k =
      (decide (k < numBits) && bitAt bytes (startBit + k)) := by
  simp [readBitfield, testBit_readBitfieldLoop bytes numBits k numBits 0 0 startBit (by omega)]

theorem readBitfield_lt (bytes : List UInt8) (startBit numBits : Nat) :
    readBitfield bytes startBit numBits < 2 ^ numBits := by
  apply Nat.lt_pow_two_of_testBit
  intro i hi
  have hno : ¬ i < numBits := by omega
  simp [testBit_readBitfield, hno]

/-- A bitfield of a word is the word, shifted and masked. -/
theorem readBitfield_eq_ofLE (bytes : List UInt8) (startBit numBits : Nat) :
    readBitfield bytes startBit numBits = (ofLE bytes >>> startBit) &&& (2 ^ numBits - 1) := by
  apply Nat.eq_of_testBit_eq
  intro i
  rw [testBit_readBitfield, Nat.testBit_and, Nat.testBit_two_pow_sub_one, Nat.testBit_shiftRight,
    testBit_ofLE, Bool.and_comm]

end Hermes
