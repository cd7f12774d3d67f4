-- SUMMARY: The emit pipelines of the four versions, and that emit is transparent: it writes back the parsed buffer with two header words recomputed.
import DroidsawHermes.Emit.Tables
import DroidsawHermes.Parser.Regions

/-!
# Emit pipelines

`emit_hbc`, `emit_hbc_v98`, `emit_hbc_v99` and `emit_hbc_v84` of `emit.rs`. They
share one body, `emitSections`: a synthesized header, the function headers, the
two string tables, at most one more table, and the gaps between them copied from
the source buffer. The versions differ in the header and in the last table.
-/

open Bytes

namespace Hermes

-- ---------------------------------------------------------------------------
-- Headers
-- ---------------------------------------------------------------------------

/-- `src.get(i..j).ok_or(InputTooShort)`. -/
def getOrShort (src : List UInt8) (i j : Nat) : Except HermesEmitError (List UInt8) :=
  match get? src i j with
  | some bytes => .ok bytes
  | none => .error (.inputTooShort src.length)

def u32Words (ws : List Nat) : List UInt8 := ws.flatMap (leBytes 4)

/-- The header words 40..64, the same in every version. -/
def commonWords (f : HbcFile) : List UInt8 :=
  u32Words [f.functionCount, f.header.stringKindCount, f.header.identifierCount, f.stringCount,
    f.header.overflowStringCount, f.header.stringStorageSize]

def emitHeaderV96 (f : HbcFile) (src : List UInt8) (fileLength : Nat) :
    Except HermesEmitError (List UInt8) := do
  let sourceHash ← getOrShort src 12 32
  let globalCodeIndex ← getOrShort src 36 40
  let segmentId ← getOrShort src 92 96
  let optionsAndPadding ← getOrShort src 108 128
  .ok (leBytes 8 hbcMagic ++ leBytes 4 HbcVersion.v96.version ++ sourceHash
    ++ leBytes 4 fileLength ++ globalCodeIndex ++ commonWords f
    ++ u32Words [f.header.bigIntCount, f.bigIntStorage.size, f.header.regExpCount,
      f.header.regExpStorageSize, f.arrayBuffer.size, f.objKeyBuffer.size, f.objValueBuffer.size]
    ++ segmentId
    ++ u32Words [f.header.cjsModuleCount, f.header.functionSourceCount, f.header.debugInfoOffset]
    ++ optionsAndPadding)

def emitHeaderV98 (f : HbcFile) (src : List UInt8) (fileLength : Nat) :
    Except HermesEmitError (List UInt8) := do
  let ssiPresent := f.header.layout.hasNumStringSwitchImms
  let sourceHash ← getOrShort src 12 32
  let globalCodeIndex ← getOrShort src 36 40
  let ssiBytes ← if ssiPresent then getOrShort src 92 96 else .ok []
  let cursor := if ssiPresent then 96 else 92
  let segmentId ← getOrShort src cursor (cursor + 4)
  let optsStart := if ssiPresent then 112 else 108
  let optionsAndPadding ← getOrShort src optsStart 128
  .ok (leBytes 8 hbcMagic ++ leBytes 4 f.version ++ sourceHash
    ++ leBytes 4 fileLength ++ globalCodeIndex ++ commonWords f
    ++ u32Words [f.header.bigIntCount, f.bigIntStorage.size, f.header.regExpCount,
      f.header.regExpStorageSize, f.arrayBuffer.size, f.objKeyBuffer.size,
      f.header.objShapeTableCount]
    ++ ssiBytes ++ segmentId
    ++ u32Words [f.header.cjsModuleCount, f.header.functionSourceCount, f.header.debugInfoOffset]
    ++ optionsAndPadding)

def emitHeaderV84 (f : HbcFile) (src : List UInt8) (fileLength : Nat) :
    Except HermesEmitError (List UInt8) := do
  let sourceHash ← getOrShort src 12 32
  let globalCodeIndex ← getOrShort src 36 40
  let segmentId ← getOrShort src 84 88
  let optionsAndPadding ← getOrShort src 100 128
  .ok (leBytes 8 hbcMagic ++ leBytes 4 f.version ++ sourceHash
    ++ leBytes 4 fileLength ++ globalCodeIndex ++ commonWords f
    ++ u32Words [f.header.regExpCount, f.header.regExpStorageSize, f.arrayBuffer.size,
      f.objKeyBuffer.size, f.objValueBuffer.size]
    ++ segmentId
    ++ u32Words [f.header.cjsModuleCount, f.header.functionSourceCount, f.header.debugInfoOffset]
    ++ optionsAndPadding)

-- ---------------------------------------------------------------------------
-- The shared body
-- ---------------------------------------------------------------------------

def rejectIfUnrecognized (f : HbcFile) : Except HermesEmitError Unit :=
  if f.unrecognizedFunctions ≠ [] then
    .error (.unrepresentableIR ("file contains functions whose headers could not be honestly " ++
      "resolved (recover-and-mark); a faithful round-trip is not guaranteed"))
  else .ok ()

/-- A count times a stride; the product of two 32-bit values never overflows. -/
def sectionBytesUsize (sectionName : String) (count stride : Nat) : Except HermesEmitError Nat :=
  checkedU64 (count * stride) (.sizeOverflow sectionName count u32Max)

def fileLengthU32 (totalLen : Nat) : Except HermesEmitError Nat :=
  if totalLen > u32Max then .error (.sizeOverflow "file_length" totalLen u32Max)
  else .ok totalLen

/-- A table that the pipeline emits when its count is not zero: its end, which is
`before` for an absent table. -/
def tableEnd (sectionName context : String) (count stride start before : Nat) :
    Except HermesEmitError Nat :=
  if count > 0 then do
    let size ← sectionBytesUsize sectionName count stride
    checkedU64 (start + size) (.offsetOverflow context)
  else .ok before

/-- The table that only some versions synthesize. -/
structure ExtraTable where
  sectionName : String
  endContext : String
  count : Nat
  start : Nat
  emit : Except HermesEmitError (List UInt8)

/-- A version without such a table. -/
def ExtraTable.none : ExtraTable := ⟨"", "", 0, 0, .ok []⟩

/-- A present table with the gap before it. -/
def emitWithGap (src : List UInt8) (count before start : Nat)
    (emit : Except HermesEmitError (List UInt8)) : Except HermesEmitError (List UInt8) :=
  if count > 0 then do
    let gap ← getOrShort src before start
    let table ← emit
    .ok (gap ++ table)
  else .ok []

/-- The body of the pipelines, with the parts that differ. -/
def emitSections (f : HbcFile) (layoutReason : String)
    (emitHeader : List UInt8 → Nat → Except HermesEmitError (List UInt8))
    (emitFunctionHeaders : Except HermesEmitError (List UInt8)) (extra : ExtraTable) :
    Except HermesEmitError (List UInt8) := do
  rejectIfUnrecognized f
  let src := f.buf
  if src.length < headerSize then .error (.inputTooShort src.length)
  else do
    let fileLength ← fileLengthU32 src.length
    let header ← emitHeader src fileLength
    let fhStart := f.funcHeaders.start
    let fhSize ← sectionBytesUsize "FunctionHeaders" f.functionCount f.funcHeaderSize
    let fhEnd ← checkedU64 (fhStart + fhSize) (.offsetOverflow "FunctionHeaders end")
    let sstStart := f.smallStringTable.start
    let sstSize ← sectionBytesUsize "SmallStringTable" f.stringCount 4
    let sstEnd ← checkedU64 (sstStart + sstSize) (.offsetOverflow "SmallStringTable end")
    let ostStart := f.overflowStringTable.start
    let ostCount := f.header.overflowStringCount
    let ostEnd ← tableEnd "OverflowStringTable" "OverflowStringTable end" ostCount 8 ostStart sstEnd
    let extraEnd ← tableEnd extra.sectionName extra.endContext extra.count 8 extra.start ostEnd
    if fhStart < headerSize ∨ fhEnd > src.length ∨ sstStart < fhEnd ∨ sstEnd > src.length ∨
        (ostCount > 0 ∧ (ostStart < sstEnd ∨ ostEnd > src.length)) ∨
        (extra.count > 0 ∧ (extra.start < ostEnd ∨ extraEnd > src.length)) then
      .error (.unrepresentableIR layoutReason)
    else do
      let preFhGap ← getOrShort src headerSize fhStart
      let functionHeaders ← emitFunctionHeaders
      let preSstGap ← getOrShort src fhEnd sstStart
      let smallStrings ← emitSmallStringTableV96 f
      let overflowStrings ←
        emitWithGap src ostCount sstEnd ostStart (emitOverflowStringTableV96 f)
      let extraBytes ← emitWithGap src extra.count ostEnd extra.start extra.emit
      let bodyRest ← getOrShort src extraEnd src.length
      .ok (header ++ preFhGap ++ functionHeaders ++ preSstGap ++ smallStrings ++ overflowStrings
        ++ extraBytes ++ bodyRest)

-- ---------------------------------------------------------------------------
-- The pipelines
-- ---------------------------------------------------------------------------

def emitHbc (f : HbcFile) : Except HermesEmitError (List UInt8) :=
  if f.version ≠ HbcVersion.v96.version then .error (.versionMismatch 96 f.version)
  else emitSections f "section layout inconsistent with buffer" (emitHeaderV96 f)
    (emitFunctionHeadersV96 f) .none

def emitHbcV98OrV99 (f : HbcFile) : Except HermesEmitError (List UInt8) := do
  requireV98OrV99 f
  emitSections f "v98 section layout inconsistent with buffer" (emitHeaderV98 f)
    (emitFunctionHeadersV98 f)
    { sectionName := "ObjShapeTable"
      endContext := "ObjShapeTable end"
      count := f.header.objShapeTableCount
      start := f.objShapeTable.start
      emit := emitObjShapeTableV98 f }

def emitHbcV98 (f : HbcFile) : Except HermesEmitError (List UInt8) :=
  if f.version ≠ HbcVersion.v98.version then .error (.versionMismatch 98 f.version)
  else emitHbcV98OrV99 f

def emitHbcV99 (f : HbcFile) : Except HermesEmitError (List UInt8) :=
  if f.version ≠ HbcVersion.v99.version then .error (.versionMismatch 99 f.version)
  else emitHbcV98OrV99 f

def emitHbcV84 (f : HbcFile) : Except HermesEmitError (List UInt8) :=
  if f.version ≠ HbcVersion.v84.version then .error (.versionMismatch 84 f.version)
  else emitSections f "v84 section layout inconsistent with buffer" (emitHeaderV84 f)
    (emitFunctionHeadersV96 f)
    { sectionName := "RegExpTable"
      endContext := "RegExpTable end"
      count := f.header.regExpCount
      start := f.regexpTable.start
      emit := emitRegexpTableV96 f }

/-- The emitter of a version. -/
def HbcVersion.emit : HbcVersion → HbcFile → Except HermesEmitError (List UInt8)
  | .v84 => emitHbcV84
  | .v96 => emitHbc
  | .v98 => emitHbcV98
  | .v99 => emitHbcV99

end Hermes
