-- SUMMARY: Decomposition of the debug-info section: its 20-byte header and the byte ranges behind it.
import DroidsawHermes.Header

/-!
# Debug info

`debug_info_v96_parse` of `parser/debug_info.rs`. The sums it checks have five
terms below `2^36`, so the checked 64-bit additions of the source never fail
and are written as plain additions.
-/

open Bytes

namespace Hermes

structure DebugInfoHeaderV96 where
  filenameCount : Nat
  filenameStorageSize : Nat
  fileRegionCount : Nat
  lexicalDataOffset : Nat
  debugDataSize : Nat
  deriving DecidableEq, Repr

/-- The header and the `(offset, size)` byte ranges it implies. -/
structure DebugInfoV96 where
  header : DebugInfoHeaderV96
  fileRegionTable : Nat × Nat
  filenameStorage : Nat × Nat
  sourceLocationsData : Nat × Nat
  lexicalData : Nat × Nat
  deriving DecidableEq, Repr

def debugInfoV96Min : Nat := 94
def debugInfoV96Max : Nat := 99

def readDebugInfoHeaderV96 (buf : List UInt8) (dbgOff : Nat) : DebugInfoHeaderV96 where
  filenameCount := readU32 buf dbgOff
  filenameStorageSize := readU32 buf (dbgOff + 4)
  fileRegionCount := readU32 buf (dbgOff + 8)
  lexicalDataOffset := readU32 buf (dbgOff + 12)
  debugDataSize := readU32 buf (dbgOff + 16)

def debugInfoV96Parse (buf : List UInt8) (debugInfoOffset version : Nat) :
    Except HermesError (Option DebugInfoV96) :=
  if debugInfoOffset = 0 then .ok none
  else if ¬ (debugInfoV96Min ≤ version ∧ version ≤ debugInfoV96Max) then .ok none
  -- a header inside the file header would be read from bytes that emit recomputes
  else if debugInfoOffset < headerSize then .ok none
  else
    let headerEnd := debugInfoOffset + 20
    if headerEnd > buf.length then .ok none
    else
      let header := readDebugInfoHeaderV96 buf debugInfoOffset
      if header.debugDataSize = 0 then .ok none
      else if header.lexicalDataOffset > header.debugDataSize then
        .error (.inconsistentDebugHeader header.lexicalDataOffset header.debugDataSize)
      else
        let fileRegionTableSize := header.fileRegionCount * 12
        let fileRegionTableEnd := headerEnd + fileRegionTableSize
        if fileRegionTableEnd > buf.length then .ok none
        else
          let filenameStorageStart := fileRegionTableEnd + 4
          let filenameStorageEnd := filenameStorageStart + header.filenameStorageSize
          if filenameStorageEnd > buf.length then .ok none
          else
            let dataStart := filenameStorageEnd
            let sourceLocationsEnd := dataStart + header.lexicalDataOffset
            if sourceLocationsEnd > buf.length then .ok none
            else
              let dataTotalEnd := dataStart + header.debugDataSize
              let lexicalDataEnd := min dataTotalEnd buf.length
              .ok (some {
                header := header
                fileRegionTable := (headerEnd, fileRegionTableSize)
                filenameStorage := (filenameStorageStart, header.filenameStorageSize)
                sourceLocationsData := (dataStart, header.lexicalDataOffset)
                lexicalData := (sourceLocationsEnd, lexicalDataEnd - sourceLocationsEnd) })

/-- Debug info is read past the file header only. -/
theorem debugInfoV96Parse_congr {a b : List UInt8} (h : AgreeFrom headerSize a b)
    (debugInfoOffset version : Nat) :
    debugInfoV96Parse a debugInfoOffset version = debugInfoV96Parse b debugInfoOffset version := by
  by_cases hoff : debugInfoOffset < headerSize
  · simp only [debugInfoV96Parse, hoff, if_true]
  · have hheader : readDebugInfoHeaderV96 a debugInfoOffset =
        readDebugInfoHeaderV96 b debugInfoOffset := by
      have hle : headerSize ≤ debugInfoOffset := by omega
      simp only [readDebugInfoHeaderV96, readU32_congr h hle, readU32_congr_add h hle]
    simp only [debugInfoV96Parse, h.length_eq, hheader]

end Hermes
