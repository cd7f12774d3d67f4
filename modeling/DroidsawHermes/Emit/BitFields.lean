-- SUMMARY: Packing and reading of a bit field are inverse, as long as the bit index fits its word.
import DroidsawHermes.Emit.BitPack

/-!
# Bit fields

`bit_pack_u32` of `emit.rs` and `read_bitfield` of `parser/mod.rs` with the bit index
as they keep it, in 32 bits. Up to its end the index does not wrap, and the two loops
are those on natural numbers.
-/

open Bytes

namespace Hermes

def bitPackLoopWrapping (numBits value : Nat) : Nat → List UInt8 → Nat → Nat → List UInt8
  | 0, out, _, _ => out
  | fuel + 1, out, written, bitIdx =>
    if written < numBits then
      let bitsToWrite := min (8 - bitIdx % 8) (numBits - written)
      let valueChunk := (value >>> written) &&& ((1 <<< bitsToWrite) - 1)
      match out[bitIdx / 8]? with
      | none => out
      | some slot =>
        bitPackLoopWrapping numBits value fuel
          (out.set (bitIdx / 8) (slot ||| UInt8.ofNat (valueChunk <<< (bitIdx % 8))))
          (written + bitsToWrite) ((bitIdx + bitsToWrite) % 2 ^ 32)
    else out

def bitPackU32Wrapping (out : List UInt8) (startBit numBits value : UInt32) : List UInt8 :=
  bitPackLoopWrapping numBits.toNat value.toNat numBits.toNat out 0 startBit.toNat

def readBitfieldLoopWrapping (bytes : List UInt8) (numBits : Nat) : Nat → Nat → Nat → Nat → Nat
  | 0, value, _, _ => value
  | fuel + 1, value, written, bitIdx =>
    if written < numBits then
      match bytes[bitIdx / 8]? with
      | none => value
      | some b =>
        let bitsToRead := min (8 - bitIdx % 8) (numBits - written)
        let byteValue := b.toNat >>> (bitIdx % 8)
        readBitfieldLoopWrapping bytes numBits fuel
          (value ||| ((byteValue &&& ((1 <<< bitsToRead) - 1)) <<< written))
          (written + bitsToRead) ((bitIdx + bitsToRead) % 2 ^ 32)
    else value

/-- At most 32 bits are read, so the value fits its word. -/
def readBitfieldWrapping (bytes : List UInt8) (startBit numBits : UInt32) : UInt32 :=
  .ofNat (readBitfieldLoopWrapping bytes numBits.toNat numBits.toNat 0 0 startBit.toNat)

-- ---------------------------------------------------------------------------
-- The index does not wrap
-- ---------------------------------------------------------------------------

theorem bitPackLoop_done {numBits value fuel written : Nat} (h : numBits ≤ written)
    (out : List UInt8) (bitIdx : Nat) :
    bitPackLoop numBits value fuel out written bitIdx = out := by
  cases fuel with
  | zero => rfl
  | succ fuel => rw [bitPackLoop, if_neg (Nat.not_lt.mpr h)]

theorem bitPackLoopWrapping_done {numBits value fuel written : Nat} (h : numBits ≤ written)
    (out : List UInt8) (bitIdx : Nat) :
    bitPackLoopWrapping numBits value fuel out written bitIdx = out := by
  cases fuel with
  | zero => rfl
  | succ fuel => rw [bitPackLoopWrapping, if_neg (Nat.not_lt.mpr h)]

theorem bitPackLoopWrapping_eq {numBits value fuel : Nat} {out : List UInt8}
    {written bitIdx : Nat} (h : bitIdx + (numBits - written) ≤ 2 ^ 32) :
    bitPackLoopWrapping numBits value fuel out written bitIdx =
      bitPackLoop numBits value fuel out written bitIdx := by
  induction fuel generalizing out written bitIdx with
  | zero => rfl
  | succ fuel ih =>
    simp only [bitPackLoopWrapping, bitPackLoop]
    split
    · next hlt =>
      cases out[bitIdx / 8]? with
      | none => rfl
      | some slot =>
        generalize hn : min (8 - bitIdx % 8) (numBits - written) = n
        dsimp only
        by_cases hlast : bitIdx + n = 2 ^ 32
        · -- the field ends with the word, and nothing is left
          have hdone : numBits ≤ written + n := by omega
          rw [bitPackLoopWrapping_done hdone, bitPackLoop_done hdone]
        · have hlt32 : bitIdx + n < 2 ^ 32 := by omega
          rw [Nat.mod_eq_of_lt hlt32]
          exact ih (by omega)
    · rfl

theorem readBitfieldLoop_done {bytes : List UInt8} {numBits fuel written : Nat}
    (h : numBits ≤ written) (value bitIdx : Nat) :
    readBitfieldLoop bytes numBits fuel value written bitIdx = value := by
  cases fuel with
  | zero => rfl
  | succ fuel => rw [readBitfieldLoop, if_neg (Nat.not_lt.mpr h)]

theorem readBitfieldLoopWrapping_done {bytes : List UInt8} {numBits fuel written : Nat}
    (h : numBits ≤ written) (value bitIdx : Nat) :
    readBitfieldLoopWrapping bytes numBits fuel value written bitIdx = value := by
  cases fuel with
  | zero => rfl
  | succ fuel => rw [readBitfieldLoopWrapping, if_neg (Nat.not_lt.mpr h)]

theorem readBitfieldLoopWrapping_eq {bytes : List UInt8} {numBits fuel value written bitIdx : Nat}
    (h : bitIdx + (numBits - written) ≤ 2 ^ 32) :
    readBitfieldLoopWrapping bytes numBits fuel value written bitIdx =
      readBitfieldLoop bytes numBits fuel value written bitIdx := by
  induction fuel generalizing value written bitIdx with
  | zero => rfl
  | succ fuel ih =>
    simp only [readBitfieldLoopWrapping, readBitfieldLoop]
    split
    · next hlt =>
      cases bytes[bitIdx / 8]? with
      | none => rfl
      | some b =>
        generalize hn : min (8 - bitIdx % 8) (numBits - written) = n
        dsimp only
        by_cases hlast : bitIdx + n = 2 ^ 32
        · have hdone : numBits ≤ written + n := by omega
          rw [readBitfieldLoopWrapping_done hdone, readBitfieldLoop_done hdone]
        · have hlt32 : bitIdx + n < 2 ^ 32 := by omega
          rw [Nat.mod_eq_of_lt hlt32]
          exact ih (by omega)
    · rfl

theorem bitPackU32Wrapping_eq {out : List UInt8} {startBit numBits : UInt32}
    (h : startBit.toNat + numBits.toNat ≤ 2 ^ 32) (value : UInt32) :
    bitPackU32Wrapping out startBit numBits value =
      bitPackU32 out startBit.toNat numBits.toNat value.toNat :=
  bitPackLoopWrapping_eq (by omega)

theorem toNat_readBitfieldWrapping {bytes : List UInt8} {startBit numBits : UInt32}
    (hwidth : numBits.toNat ≤ 32) (h : startBit.toNat + numBits.toNat ≤ 2 ^ 32) :
    (readBitfieldWrapping bytes startBit numBits).toNat =
      readBitfield bytes startBit.toNat numBits.toNat := by
  rw [readBitfieldWrapping, readBitfieldLoopWrapping_eq (by omega), ← readBitfield,
    UInt32.toNat_ofNat']
  refine Nat.mod_eq_of_lt ((readBitfield_lt _ _ _).trans_le ?_)
  exact Nat.pow_le_pow_right Nat.two_pos hwidth

-- ---------------------------------------------------------------------------
-- Packing and reading
-- ---------------------------------------------------------------------------

/-- The bit belongs to the field. -/
def InField (startBit numBits : UInt32) (i : Nat) : Prop :=
  startBit.toNat ≤ i ∧ i < startBit.toNat + numBits.toNat

instance (startBit numBits : UInt32) (i : Nat) : Decidable (InField startBit numBits i) :=
  inferInstanceAs (Decidable (_ ∧ _))

/-- The buffer with the bits of the field set to zero. -/
def clearBits (buf : List UInt8) (startBit numBits : UInt32) : List UInt8 :=
  let field := (ofLE buf >>> startBit.toNat) % 2 ^ numBits.toNat
  leBytes buf.length (ofLE buf ^^^ (field <<< startBit.toNat))

/-- Packing and reading of one field of the buffer undo each other. -/
structure FieldInverse (buf : List UInt8) (startBit numBits : UInt32) : Prop where
  read_pack : ∀ value : UInt32, value.toNat < 2 ^ numBits.toNat →
    (∀ i, InField startBit numBits i → bitAt buf i = false) →
    readBitfieldWrapping (bitPackU32Wrapping buf startBit numBits value) startBit numBits = value
  outside : ∀ value : UInt32, value.toNat < 2 ^ numBits.toNat →
    (∀ i, InField startBit numBits i → bitAt buf i = false) →
    ∀ i, ¬ InField startBit numBits i →
      bitAt (bitPackU32Wrapping buf startBit numBits value) i = bitAt buf i
  pack_read : bitPackU32Wrapping (clearBits buf startBit numBits) startBit numBits
    (readBitfieldWrapping buf startBit numBits) = buf

/-- The fields are packed into an empty entry, each with the value it has in `entry`. -/
def repack (entry : List UInt8) (fields : List (UInt32 × UInt32)) : List UInt8 :=
  fields.foldl
    (fun out f => bitPackU32Wrapping out f.1 f.2 (readBitfieldWrapping entry f.1 f.2))
    (List.replicate entry.length 0)

@[simp] theorem length_clearBits (buf : List UInt8) (startBit numBits : UInt32) :
    (clearBits buf startBit numBits).length = buf.length :=
  length_leBytes _ _

theorem bitAt_clearBits (buf : List UInt8) (startBit numBits : UInt32) (i : Nat) :
    bitAt (clearBits buf startBit numBits) i =
      (bitAt buf i && !decide (InField startBit numBits i)) := by
  by_cases hi : i < 8 * buf.length
  · have hbytes : (256 : Nat) ^ buf.length = 2 ^ (8 * buf.length) := by rw [Nat.pow_mul]
    rw [← testBit_ofLE, clearBits, ofLE_leBytes, hbytes, Nat.testBit_mod_two_pow,
      Nat.testBit_xor, Nat.testBit_shiftLeft, Nat.testBit_mod_two_pow, Nat.testBit_shiftRight,
      testBit_ofLE, testBit_ofLE]
    by_cases hin : InField startBit numBits i
    · obtain ⟨hlo, hhi⟩ := id hin
      have hidx : startBit.toNat + (i - startBit.toNat) = i := by omega
      have hlt : i - startBit.toNat < numBits.toNat := by omega
      simp [hi, hin, hlo, hidx, hlt]
    · by_cases hle : startBit.toNat ≤ i
      · have hge : ¬ i - startBit.toNat < numBits.toNat := fun h => hin ⟨hle, by omega⟩
        simp [hi, hin, hge]
      · simp [hi, hin, hle]
  · have hlen : buf.length ≤ i / 8 := by omega
    rw [bitAt_of_length_le (by simpa using hlen), bitAt_of_length_le hlen, Bool.false_and]

section Field

variable {buf : List UInt8} {startBit numBits : UInt32}

theorem bitAt_bitPackU32Wrapping (hroom : startBit.toNat + numBits.toNat ≤ 8 * buf.length)
    (hword : startBit.toNat + numBits.toNat ≤ 2 ^ 32) (value : UInt32) (i : Nat) :
    bitAt (bitPackU32Wrapping buf startBit numBits value) i =
      (bitAt buf i ||
        (decide (InField startBit numBits i) && value.toNat.testBit (i - startBit.toNat))) := by
  rw [bitPackU32Wrapping_eq hword, bitAt_bitPackU32 hroom]
  rfl

/-- A field that was read is packed at its place. -/
theorem bitAt_pack_read {entry : List UInt8} (hwidth : numBits.toNat ≤ 32)
    (hroom : startBit.toNat + numBits.toNat ≤ 8 * buf.length)
    (hword : startBit.toNat + numBits.toNat ≤ 2 ^ 32) (i : Nat) :
    bitAt (bitPackU32Wrapping buf startBit numBits
        (readBitfieldWrapping entry startBit numBits)) i =
      (bitAt buf i || (decide (InField startBit numBits i) && bitAt entry i)) := by
  rw [bitPackU32Wrapping_eq hword, toNat_readBitfieldWrapping hwidth hword,
    bitAt_bitPackU32_readBitfield hroom]
  rfl

theorem fieldInverse (hwidth : numBits.toNat ≤ 32)
    (hroom : startBit.toNat + numBits.toNat ≤ 8 * buf.length)
    (hword : startBit.toNat + numBits.toNat ≤ 2 ^ 32) : FieldInverse buf startBit numBits where
  read_pack value hvalue hzero := by
    apply UInt32.toNat_inj.mp
    rw [toNat_readBitfieldWrapping hwidth hword]
    apply Nat.eq_of_testBit_eq
    intro k
    rw [testBit_readBitfield, bitAt_bitPackU32Wrapping hroom hword]
    by_cases hk : k < numBits.toNat
    · have hin : InField startBit numBits (startBit.toNat + k) := ⟨by omega, by omega⟩
      rw [hzero _ hin]
      simp [hk, hin]
    · have hhigh : value.toNat.testBit k = false :=
        Nat.testBit_lt_two_pow (hvalue.trans_le
          (Nat.pow_le_pow_right Nat.two_pos (Nat.not_lt.mp hk)))
      simp [hk, hhigh]
  outside value _ _ i hout := by
    rw [bitAt_bitPackU32Wrapping hroom hword]
    simp [hout]
  pack_read := by
    apply ext_bitAt
    · rw [bitPackU32Wrapping_eq hword, length_bitPackU32, length_clearBits]
    intro i _
    rw [bitAt_pack_read hwidth (by rwa [length_clearBits]) hword, bitAt_clearBits]
    cases bitAt buf i <;> simp

end Field

theorem bitAt_foldl_pack {entry : List UInt8} {fields : List (UInt32 × UInt32)}
    (hfit : ∀ f ∈ fields, f.2.toNat ≤ 32 ∧ f.1.toNat + f.2.toNat ≤ 8 * entry.length ∧
      f.1.toNat + f.2.toNat ≤ 2 ^ 32) {out : List UInt8} (hlen : out.length = entry.length) :
    (fields.foldl (fun out f => bitPackU32Wrapping out f.1 f.2
      (readBitfieldWrapping entry f.1 f.2)) out).length = entry.length ∧
    ∀ i, bitAt (fields.foldl (fun out f => bitPackU32Wrapping out f.1 f.2
      (readBitfieldWrapping entry f.1 f.2)) out) i =
        (bitAt out i || (decide (∃ f ∈ fields, InField f.1 f.2 i) && bitAt entry i)) := by
  induction fields generalizing out with
  | nil => simp [hlen]
  | cons f fields ih =>
    obtain ⟨hwidth, hroom, hword⟩ := hfit f List.mem_cons_self
    have hpacked : (bitPackU32Wrapping out f.1 f.2 (readBitfieldWrapping entry f.1 f.2)).length =
        entry.length := by
      rw [bitPackU32Wrapping_eq hword, length_bitPackU32, hlen]
    obtain ⟨hlength, hbits⟩ := ih (fun g hg => hfit g (List.mem_cons_of_mem _ hg)) hpacked
    refine ⟨hlength, fun i => ?_⟩
    have hcons : decide (∃ g ∈ f :: fields, InField g.1 g.2 i) =
        (decide (InField f.1 f.2 i) || decide (∃ g ∈ fields, InField g.1 g.2 i)) := by
      rw [← Bool.decide_or]
      exact decide_eq_decide.mpr (List.exists_mem_cons_iff ..)
    rw [List.foldl_cons, hbits, bitAt_pack_read hwidth (by rwa [hlen]) hword, hcons]
    cases bitAt entry i <;> simp [Bool.or_assoc]

/-- Fields that do not pass the end of the word or the buffer are read as they were packed, and
fields that cover an entry restore it. -/
theorem bitFields_inverse (buf : List UInt8) :
    (∀ startBit numBits : UInt32, numBits.toNat ≤ 32 →
      startBit.toNat + numBits.toNat ≤ 8 * buf.length →
      startBit.toNat + numBits.toNat ≤ 2 ^ 32 → FieldInverse buf startBit numBits) ∧
    ∀ fields : List (UInt32 × UInt32),
      (∀ f ∈ fields, f.2.toNat ≤ 32 ∧ f.1.toNat + f.2.toNat ≤ 8 * buf.length ∧
        f.1.toNat + f.2.toNat ≤ 2 ^ 32) →
      (∀ i < 8 * buf.length, ∃ f ∈ fields, InField f.1 f.2 i) → repack buf fields = buf := by
  refine ⟨fun startBit numBits => fieldInverse, fun fields hfit hcover => ?_⟩
  obtain ⟨hlength, hbits⟩ := bitAt_foldl_pack hfit List.length_replicate
  apply ext_bitAt hlength
  intro i hi
  have hcovered := hcover i (by rwa [hlength] at hi)
  rw [hbits, bitAt_replicate_zero]
  simp [hcovered]

theorem bitPackLoopWrapping_step {numBits value fuel written bitIdx : Nat} {out : List UInt8}
    {slot : UInt8} (hlt : written < numBits) (hslot : out[bitIdx / 8]? = some slot) {n : Nat}
    (hn : min (8 - bitIdx % 8) (numBits - written) = n) :
    bitPackLoopWrapping numBits value (fuel + 1) out written bitIdx =
      bitPackLoopWrapping numBits value fuel
        (out.set (bitIdx / 8) (slot ||| UInt8.ofNat
          (((value >>> written) &&& ((1 <<< n) - 1)) <<< (bitIdx % 8))))
        (written + n) ((bitIdx + n) % 2 ^ 32) := by
  simp only [bitPackLoopWrapping, if_pos hlt, hslot, hn]

/-- The second chunk of the field goes to the start of the buffer. -/
theorem bitAt_pack_wraps {buf : List UInt8} (hlen : buf.length = 2 ^ 29 + 1) :
    bitAt (bitPackU32Wrapping buf 4294967288 16 256) 0 = true := by
  have hloop : bitPackU32Wrapping buf 4294967288 16 256 =
      bitPackLoopWrapping 16 256 16 buf 0 4294967288 := rfl
  have hlast : ∃ byte, buf[4294967288 / 8]? = some byte :=
    ⟨_, List.getElem?_eq_getElem (by omega)⟩
  obtain ⟨last, hlast⟩ := hlast
  rw [hloop, bitPackLoopWrapping_step (n := 8) (by decide) hlast (by decide)]
  generalize hset : buf.set _ _ = buf'
  have hlen' : buf'.length = 2 ^ 29 + 1 := by rw [← hset, List.length_set, hlen]
  have hfirst : ∃ byte, buf'[0 / 8]? = some byte := ⟨_, List.getElem?_eq_getElem (by omega)⟩
  obtain ⟨first, hfirst⟩ := hfirst
  have hwrap : (4294967288 + 8) % 2 ^ 32 = 0 := by decide
  rw [hwrap, bitPackLoopWrapping_step (n := 8) (by decide) hfirst (by decide),
    bitPackLoopWrapping_done (by decide), bitAt_set (by omega)]
  simp

/-- A field that passes bit `2 ^ 32` is packed elsewhere. -/
theorem wrapped_field_not_inverse : (16 : UInt32).toNat ≤ 32 ∧
    (4294967288 : UInt32).toNat + (16 : UInt32).toNat ≤
      8 * (List.replicate (2 ^ 29 + 1) (0 : UInt8)).length ∧
    ¬ FieldInverse (List.replicate (2 ^ 29 + 1) 0) 4294967288 16 := by
  refine ⟨by decide, ?_, fun h => ?_⟩
  · rw [List.length_replicate]
    decide
  · have hout := h.outside 256 (by decide) (fun i _ => bitAt_replicate_zero _ i) 0 (by decide)
    rw [bitAt_pack_wraps List.length_replicate, bitAt_replicate_zero] at hout
    cases hout

end Hermes
