-- SUMMARY: String-table access and the parse shape that the production parser exposes for comparison.
import DroidsawHermes.Parser.File

/-!
# Strings

`string_get` and `to_shape` of `parser/mod.rs`. A small entry with length 255
points into the overflow table, whose words are checked where they are added.
-/

open Bytes

namespace Hermes

structure StringData where
  offset : Nat
  len : Nat
  kind : Nat
  isUtf16 : Bool
  deriving DecidableEq, Repr

/-- Offset and length of a string, and whether they come from the overflow table. -/
structure StringRef where
  strOffset : Nat
  strLength : Nat
  overflowRouted : Bool
  deriving DecidableEq, Repr

namespace HbcFile

variable (f : HbcFile)

/-- The overflow check of `string_get`. -/
def routeOverflow (index strOffset strLength : Nat) : Except HermesError StringRef :=
  if strLength = 255 then
    if strOffset < f.header.overflowStringCount then
      let ovfOff := f.overflowStringTable.start + strOffset * 8
      if ovfOff + 8 > f.buf.length then
        .error (.stringStorageEndExceedsBuffer index ovfOff 8 f.buf.length)
      else .ok ⟨readU32 f.buf ovfOff, readU32 f.buf (ovfOff + 4), true⟩
    else .error (.overflowIndexOutOfRange index f.header.overflowStringCount)
  else .ok ⟨strOffset, strLength, false⟩

/-- Absolute offset and byte length; only overflow words can be large. -/
def stringExtent (r : StringRef) (isUtf16 : Bool) : Except HermesError (Nat × Nat) :=
  if r.overflowRouted then do
    let byteLen ← if isUtf16 then
        checkedU64 (r.strLength * 2)
          (.arithmeticOverflow "string_get utf16 byte_len = str_length * 2")
      else .ok r.strLength
    let abs ← checkedU64 (f.stringStorage.start + r.strOffset)
      (.arithmeticOverflow "string_get abs_offset = string_storage.0 + str_offset")
    .ok (abs, byteLen)
  else
    .ok (f.stringStorage.start + r.strOffset, if isUtf16 then r.strLength * 2 else r.strLength)

/-- The end of `string_get`: the bounds check against the string storage. -/
def stringData (index kind : Nat) (isUtf16 : Bool) (r : StringRef) :
    Except HermesError (Option StringData) := do
  let (absOffset, byteLen) ← f.stringExtent r isUtf16
  let storageEnd := f.stringStorage.start + f.stringStorage.size
  let absEnd ← checkedU64 (absOffset + byteLen)
    (.arithmeticOverflow "string_get abs_end = abs_offset + byte_len_usize")
  if r.strLength = 0 then .ok (some ⟨0, 0, kind, isUtf16⟩)
  else if absEnd > storageEnd then
    .error (.stringStorageEndExceedsBuffer index absOffset byteLen storageEnd)
  else
    let lenField := if isUtf16 then byteLen % 2 ^ 32 else r.strLength
    .ok (some ⟨absOffset, lenField, kind, isUtf16⟩)

def stringGet (index : Nat) : Except HermesError (Option StringData) :=
  if index ≥ f.stringCount then .ok none
  else
    let kind := f.stringKindMap.getD index 0
    let entryOff := f.smallStringTable.start + index * 4
    let entryEnd := entryOff + 4
    if entryEnd > f.buf.length then
      .error (.stringStorageEndExceedsBuffer index entryOff 4 f.buf.length)
    else do
      let entry := slice f.buf entryOff entryEnd
      let isUtf16 : Bool := readBitfield entry 0 1 ≠ 0
      let r ← f.routeOverflow index (readBitfield entry 1 23) (readBitfield entry 24 8)
      f.stringData index kind isUtf16 r

end HbcFile

/-! ## Parse shape -/

structure HbcParseShape where
  magicLo : Nat
  magicHi : Nat
  version : Nat
  functionCount : Nat
  stringCount : Nat
  stringStorageSize : Nat
  functionHeadersOffset : Nat
  functionHeadersSize : Nat
  stringTableEntries : List (List UInt8)
  deriving DecidableEq, Repr

namespace HbcFile

variable (f : HbcFile)

/-- The raw bytes of a string; empty where it does not resolve. -/
def shapeEntry (i : Nat) : List UInt8 :=
  match f.stringGet i with
  | .ok (some sd) => (get? f.buf sd.offset (sd.offset + sd.len)).getD []
  | .ok none | .error _ => []

def toShape : HbcParseShape where
  magicLo := ((get? f.buf 0 4).map ofLE).getD 0
  magicHi := ((get? f.buf 4 8).map ofLE).getD 0
  version := f.version
  functionCount := f.functionCount
  stringCount := f.stringCount
  stringStorageSize := f.header.stringStorageSize
  functionHeadersOffset := f.funcHeaders.start % 2 ^ 32
  functionHeadersSize := min (f.functionCount * f.funcHeaderSize) u64Max
  stringTableEntries := (List.range f.stringCount).map f.shapeEntry

end HbcFile

end Hermes
