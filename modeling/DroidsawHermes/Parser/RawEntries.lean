-- SUMMARY: Raw table entries: the undecoded bitfields and words that the emitter writes back.
import DroidsawHermes.Parser.Functions

/-!
# Raw entries

The `raw_…` accessors of `parser/mod.rs`. They split an entry into all of its
fields, opaque ones included, and do not follow overflow pointers.
-/

open Bytes

namespace Hermes

structure SmallFuncHeaderV96Raw where
  rawOffset : Nat
  rawParamCount : Nat
  rawByteSize : Nat
  rawFuncName : Nat
  rawInfoOffset : Nat
  rawUncharacterizedMid : Nat
  rawFlagsByte : UInt8
  deriving DecidableEq, Repr

inductive SmallFuncHeaderV98Raw where
  | earlyV98 (rawOffset rawParamCount rawByteSize rawFuncName rawUncharacterizedMid : Nat)
      (rawFlagsByte : UInt8)
  | lateV98 (rawOffset rawParamCount rawLoopDepth rawByteSize rawFuncName
      rawUncharacterizedMidLo rawUncharacterizedMidHi : Nat) (rawFlagsByte : UInt8)
  deriving DecidableEq, Repr

/-- Whether the header is overflowed, and the large-header offset it composes. -/
def SmallFuncHeaderV98Raw.overflowedAndLargeOff : SmallFuncHeaderV98Raw → Bool × Nat
  | .earlyV98 rawOffset _ _ rawFuncName _ rawFlagsByte =>
    ((rawFlagsByte.toNat >>> 5) &&& 1 ≠ 0, (rawFuncName <<< 16) ||| rawOffset)
  | .lateV98 rawOffset _ _ _ rawFuncName _ _ rawFlagsByte =>
    ((rawFlagsByte.toNat >>> 5) &&& 1 ≠ 0, (rawFuncName <<< 24) ||| rawOffset)

structure SmallStringTableEntryV96Raw where
  isUtf16 : Bool
  strOffset : Nat
  strLength : Nat
  deriving DecidableEq, Repr

namespace HbcFile

variable (f : HbcFile)

def splitSmallFuncHeaderV96 (entry : List UInt8) : SmallFuncHeaderV96Raw where
  rawOffset := readBitfield entry 0 25
  rawParamCount := readBitfield entry 25 7
  rawByteSize := readBitfield entry 32 15
  rawFuncName := readBitfield entry 47 17
  rawInfoOffset := readBitfield entry 64 25
  rawUncharacterizedMid := readBitfield entry 89 31
  rawFlagsByte := entry.getD 15 0

def rawSmallFuncHeaderV96 (index : Nat) : Option SmallFuncHeaderV96Raw :=
  match f.header.layout with
  | .v97toV98Early | .v98LateToV99 => none
  | .preV84 | .v84to86 | .v87to96 =>
    if index ≥ f.functionCount then none
    else
      let entryOff := f.funcHeaders.start + index * 16
      (get? f.buf entryOff (entryOff + 16)).map splitSmallFuncHeaderV96

def splitSmallFuncHeaderLateV98 (entry : List UInt8) : SmallFuncHeaderV98Raw :=
  .lateV98 (readBitfield entry 0 25) (readBitfield entry 25 5) (readBitfield entry 30 2)
    (readBitfield entry 32 14) (readBitfield entry 46 8) (readBitfield entry 54 32)
    (readBitfield entry 86 2) (entry.getD 11 0)

def splitSmallFuncHeaderEarlyV98 (entry : List UInt8) : SmallFuncHeaderV98Raw :=
  .earlyV98 (readBitfield entry 0 25) (readBitfield entry 25 7) (readBitfield entry 32 15)
    (readBitfield entry 47 17) (readBitfield entry 64 24) (entry.getD 11 0)

def rawEntryV98 (index : Nat) (split : List UInt8 → SmallFuncHeaderV98Raw) :
    Option SmallFuncHeaderV98Raw :=
  if index ≥ f.functionCount then none
  else
    let entryOff := f.funcHeaders.start + index * 12
    (get? f.buf entryOff (entryOff + 12)).map split

def rawSmallFuncHeaderV98 (index : Nat) : Option SmallFuncHeaderV98Raw :=
  match f.header with
  | .v97toV98Early h =>
    if h.version = 98 then f.rawEntryV98 index splitSmallFuncHeaderEarlyV98 else none
  | .v98LateToV99 h =>
    if h.version = 98 ∨ h.version = 99 then f.rawEntryV98 index splitSmallFuncHeaderLateV98
    else none
  | .preV84 _ | .v84to86 _ | .v87to96 _ => none

end HbcFile

/-- An entry of two words of a table with a count and a span; `None` past the
count and for an absent table. -/
def rawWordPair (buf : List UInt8) (table : Span) (count index : Nat) : Option (Nat × Nat) :=
  if index ≥ count ∨ table.size = 0 then none
  else
    let off := table.start + index * 8
    match get? buf off (off + 4), get? buf (off + 4) (off + 8) with
    | some first, some second => some (ofLE first, ofLE second)
    | _, _ => none

namespace HbcFile

variable (f : HbcFile)

def rawSmallStringTableEntry (index : Nat) : Option SmallStringTableEntryV96Raw :=
  if index ≥ f.stringCount ∨ f.smallStringTable.size = 0 then none
  else
    let off := f.smallStringTable.start + index * 4
    match get? f.buf off (off + 4) with
    | none => none
    | some entry =>
      some {
        isUtf16 := readBitfield entry 0 1 ≠ 0
        strOffset := readBitfield entry 1 23
        strLength := readBitfield entry 24 8 }

/-- `(offset, length)`. -/
def rawOverflowStringTableEntryV96 (index : Nat) : Option (Nat × Nat) :=
  rawWordPair f.buf f.overflowStringTable f.header.overflowStringCount index

/-- `(key_buffer_offset, num_props)`. -/
def rawObjShapeTableEntryV98 (index : Nat) : Option (Nat × Nat) :=
  rawWordPair f.buf f.objShapeTable f.header.objShapeTableCount index

/-- `(offset, length)`. -/
def regexpTableEntryRaw (index : Nat) : Option (Nat × Nat) :=
  rawWordPair f.buf f.regexpTable f.header.regExpCount index

/-- `(offset, length)`. -/
def bigintTableEntryRaw (index : Nat) : Option (Nat × Nat) :=
  rawWordPair f.buf f.bigIntTable f.header.bigIntCount index

end HbcFile

/-- A pair of words of a table inside the buffer is there. -/
theorem rawWordPair_eq_some {buf : List UInt8} {table : Span} {count index : Nat}
    (hi : index < count) (hsize : table.size ≠ 0)
    (hle : table.start + (index * 8 + 8) ≤ buf.length) :
    rawWordPair buf table count index =
      some (ofLE (slice buf (table.start + index * 8) (table.start + index * 8 + 4)),
        ofLE (slice buf (table.start + index * 8 + 4) (table.start + index * 8 + 8))) := by
  have hno : ¬ (index ≥ count ∨ table.size = 0) := by omega
  simp only [rawWordPair, hno, if_false]
  rw [get?_of_le (by omega) (by omega), get?_of_le (by omega) (by omega)]

end Hermes
