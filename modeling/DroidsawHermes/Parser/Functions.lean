-- SUMMARY: Function metadata: the lenient and the strict header accessors, the exception tables, and the overlap tests against synthesized sections.
import DroidsawHermes.Parser.File

/-!
# Function headers

`function_get`, `function_get_checked` and the exception accessors of
`parser/mod.rs`. A small header holds bitfields; one with the overflow bit set
points to a large header elsewhere in the file.

A read `entry[11]` of the source is a read with a default here: an entry has at
least twelve bytes. Indices, strides and offsets stay far below `2^64`, so sums
of `usize` and `u64` values are plain sums.
-/

open Bytes

namespace Hermes

def largeFunctionHeaderSize : Nat := 40
def maxExceptionHandlers : Nat := 10000

/-! ## Small headers -/

structure FunctionData where
  nameId : Nat
  paramCount : Nat
  offset : Nat
  size : Nat
  flags : Nat
  frameSize : Nat
  deriving DecidableEq, Repr

def FunctionData.empty : FunctionData := ⟨0, 0, 0, 0, 0, 0⟩

/-- The bitfields of a small header that the accessors read. -/
structure SmallHeader where
  offset : Nat
  paramCount : Nat
  byteSize : Nat
  funcName : Nat
  flagsByte : Nat
  deriving DecidableEq, Repr

def readSmallHeader (layout : HeaderLayout) (entry : List UInt8) : SmallHeader :=
  match layout with
  | .v98LateToV99 =>
    { offset := readBitfield entry 0 25
      paramCount := readBitfield entry 25 5
      byteSize := readBitfield entry 32 14
      funcName := readBitfield entry 46 8
      flagsByte := (entry.getD 11 0).toNat }
  | .v97toV98Early =>
    { offset := readBitfield entry 0 25
      paramCount := readBitfield entry 25 7
      byteSize := readBitfield entry 32 15
      funcName := readBitfield entry 47 17
      flagsByte := (entry.getD 11 0).toNat }
  | .preV84 | .v84to86 | .v87to96 =>
    { offset := readBitfield entry 0 25
      paramCount := readBitfield entry 25 7
      byteSize := readBitfield entry 32 15
      funcName := readBitfield entry 47 17
      flagsByte := (entry.getD 15 0).toNat }

def SmallHeader.overflowed (s : SmallHeader) : Bool := (s.flagsByte >>> 5) &&& 1 ≠ 0

/-- The large-header offset that an overflowed small header composes. -/
def composeLargeOff (layout : HeaderLayout) (entry : List UInt8) (s : SmallHeader) : Nat :=
  match layout with
  | .v98LateToV99 => (s.funcName <<< 24) ||| s.offset
  | .v97toV98Early => (s.funcName <<< 16) ||| s.offset
  | .preV84 | .v84to86 | .v87to96 => (readBitfield entry 64 25 <<< 16) ||| s.offset

/-- The frame-size byte of the 12-byte layouts; zero before v97. -/
def smallFrameSize (layout : HeaderLayout) (entry : List UInt8) : Nat :=
  match layout with
  | .v97toV98Early | .v98LateToV99 => (entry.getD 8 0).toNat
  | .preV84 | .v84to86 | .v87to96 => 0

def smallFunctionData (layout : HeaderLayout) (entry : List UInt8) (s : SmallHeader) :
    FunctionData where
  nameId := s.funcName
  paramCount := s.paramCount
  offset := s.offset
  size := s.byteSize
  flags := packFlags s.flagsByte
  frameSize := smallFrameSize layout entry

/-! ## Large headers -/

def overflowHeaderIsOob (largeOff bufLen : Nat) : Bool :=
  largeOff + largeFunctionHeaderSize > u64Max ∨ largeOff + largeFunctionHeaderSize > bufLen

/-- The fields of the large header at `lo`. `fallback` is the flags value for a
flags byte past the end of the buffer. -/
def largeFunctionData (buf : List UInt8) (useV99 : Bool) (layout : LargeHeaderLayout)
    (lo fallback : Nat) : FunctionData :=
  let sizeOff := if useV99 then 12 else 8
  let flagsOff := sizeOff + 4 + 4 + 8 + 4 + 3 + (if layout = .shape40 then 1 else 0)
  { nameId := readU32 buf (lo + (sizeOff + 4))
    paramCount := readU32 buf (lo + 4)
    offset := readU32 buf lo
    size := readU32 buf (lo + sizeOff)
    flags := match buf[lo + flagsOff]? with
      | some b => packFlags b.toNat
      | none => fallback
    frameSize := readU32 buf (lo + (sizeOff + 4 + 4 + 8)) }

namespace HbcFile

variable (f : HbcFile)

def entryOff (index : Nat) : Nat := f.funcHeaders.start + index * f.funcHeaderSize

def smallEntry (index : Nat) : List UInt8 :=
  slice f.buf (f.entryOff index) (f.entryOff index + f.funcHeaderSize)

def smallHeader (index : Nat) : SmallHeader :=
  readSmallHeader f.header.layout (f.smallEntry index)

def largeOff (index : Nat) : Nat :=
  composeLargeOff f.header.layout (f.smallEntry index) (f.smallHeader index)

/-- The lenient accessor: a broken overflow claim falls back to the truncated
small header. -/
def functionGet (index : Nat) : FunctionData :=
  if index ≥ f.functionCount then .empty
  else if f.entryOff index + f.funcHeaderSize > f.buf.length then .empty
  else
    let small := f.smallHeader index
    let smallData := smallFunctionData f.header.layout (f.smallEntry index) small
    if small.overflowed then
      if !overflowHeaderIsOob (f.largeOff index) f.buf.length then
        match f.largeHeaderLayout with
        | none => .empty
        | some layout =>
          largeFunctionData f.buf f.header.layout.useV99FuncHeader layout (f.largeOff index)
            smallData.flags
      else smallData
    else smallData

/-! ## Overlap with what emit rewrites -/

def synthesizedSectionSpanByName (name : SectionName) : Span :=
  match name with
  | .functionHeaders => f.funcHeaders
  | .smallStringTable => f.smallStringTable
  | .overflowStringTable => f.overflowStringTable
  | .regExpTable => f.regexpTable
  | .objShapeTable => f.objShapeTable
  | _ => .absent

end HbcFile

def emitSynthesizedSections : List SectionName :=
  [.functionHeaders, .smallStringTable, .overflowStringTable, .regExpTable, .objShapeTable]

/-- Half-open intersection; an empty range meets nothing. -/
def spansIntersect (aStart aLen bStart bLen : Nat) : Bool :=
  if aLen = 0 ∨ bLen = 0 then false
  else
    let aEnd := saturatingAddU64 aStart aLen
    let bEnd := saturatingAddU64 bStart bLen
    aStart < bEnd ∧ bStart < aEnd

namespace HbcFile

variable (f : HbcFile)

def spanOverlapsSynthesized (spanStart spanLen : Nat) : Bool :=
  if spansIntersect spanStart spanLen 0 headerSize then true
  else emitSynthesizedSections.any fun name =>
    let span := f.synthesizedSectionSpanByName name
    spansIntersect spanStart spanLen span.start span.size

def overflowHeaderOverlapsSynthesized (largeOff : Nat) : Bool :=
  f.spanOverlapsSynthesized largeOff largeFunctionHeaderSize

/-- The strict accessor: as `functionGet`, with an error for an overflow claim
that no reader can trust. -/
def functionGetChecked (index : Nat) : Except HermesError FunctionData :=
  if index ≥ f.functionCount then .ok .empty
  else if f.entryOff index + f.funcHeaderSize > f.buf.length then
    .error (.functionHeaderEntryOutOfBounds index (f.entryOff index) f.funcHeaderSize f.buf.length)
  else if !(f.smallHeader index).overflowed then .ok (f.functionGet index)
  else if overflowHeaderIsOob (f.largeOff index) f.buf.length then
    .error (.overflowedHeaderOutOfBounds index (f.largeOff index) f.buf.length)
  else if f.overflowHeaderOverlapsSynthesized (f.largeOff index) then
    .error (.overflowedHeaderOverlapsSynthesizedRegion index (f.largeOff index))
  else if f.largeHeaderLayout.isNone then
    .error (.largeHeaderLayoutAmbiguous index (f.largeOff index))
  else .ok (f.functionGet index)

/-! ## Exception tables -/

end HbcFile

/-- Align up, with zero for a position past the 32-bit range. -/
def narrowAlign4 (v : Nat) : Nat := if align4U64 v > u32Max then 0 else align4U64 v

/-- `start`, `end` and `target` of one handler, relative to the function body. -/
structure ExceptionHandlerData where
  start : Nat
  stop : Nat
  target : Nat
  deriving DecidableEq, Repr

def ExceptionHandlerData.empty : ExceptionHandlerData := ⟨0, 0, 0⟩

def exceptionCountIsCapped (declared : Nat) : Bool := declared > maxExceptionHandlers

def hasExceptionHandler (d : FunctionData) : Bool := (d.flags >>> 3) &&& 1 ≠ 0

namespace HbcFile

variable (f : HbcFile)

def getExcTableOffset (funcIdx : Nat) : Nat :=
  if f.entryOff funcIdx + f.funcHeaderSize > f.buf.length then 0
  else
    match f.header.layout with
    | .v98LateToV99 =>
      if (f.smallHeader funcIdx).overflowed then
        match f.largeHeaderLayout with
        | none => 0
        | some layout =>
          if f.largeOff funcIdx + layout.headerSize > f.buf.length then 0
          else narrowAlign4 (f.largeOff funcIdx + layout.headerSize)
      else narrowAlign4 ((f.functionGet funcIdx).offset + (f.functionGet funcIdx).size)
    | .v97toV98Early =>
      if (f.smallHeader funcIdx).overflowed then
        if f.largeOff funcIdx + 32 > f.buf.length then 0
        else narrowAlign4 (f.largeOff funcIdx + 32)
      else narrowAlign4 ((f.functionGet funcIdx).offset + (f.functionGet funcIdx).size)
    | .preV84 | .v84to86 | .v87to96 =>
      if (f.smallHeader funcIdx).overflowed then
        if f.largeOff funcIdx + 32 > f.buf.length then 0
        else narrowAlign4 (f.largeOff funcIdx + 32)
      else narrowAlign4 (readBitfield (f.smallEntry funcIdx) 64 25)

/-- The handler count that the overlap test uses: zero when the count word is
out of bounds or over the cap. -/
def excTableCountCapped (excOffset : Nat) : Nat :=
  if excOffset + 4 ≤ f.buf.length then
    let c := readU32 f.buf excOffset
    if c > maxExceptionHandlers then 0 else c
  else 0

/-- The exception-table position of a function whose table meets a region that
emit recomputes. -/
def excTableOverlapsSynthesized (funcIdx : Nat) : Option Nat :=
  if !hasExceptionHandler (f.functionGet funcIdx) then none
  else
    let excOffset := f.getExcTableOffset funcIdx
    let spanLen := f.excTableCountCapped excOffset * 12 + 4
    if f.spanOverlapsSynthesized excOffset spanLen then some excOffset else none

def functionExceptionCount (funcIdx : Nat) : Nat :=
  if funcIdx ≥ f.functionCount then 0
  else if !hasExceptionHandler (f.functionGet funcIdx) then 0
  else
    let excOffset := f.getExcTableOffset funcIdx
    if excOffset + 4 > f.buf.length then 0
    else
      let count := readU32 f.buf excOffset
      if exceptionCountIsCapped count then 0 else count

def functionExceptionGet (funcIdx handlerIdx : Nat) : ExceptionHandlerData :=
  let excOffset := f.getExcTableOffset funcIdx
  if excOffset + 4 > f.buf.length then .empty
  else
    let count := readU32 f.buf excOffset
    if count > maxExceptionHandlers then .empty
    else if handlerIdx ≥ count then .empty
    else
      let handlerOff := excOffset + 4 + handlerIdx * 12
      if handlerOff + 12 > f.buf.length then .empty
      else
        { start := readU32 f.buf handlerOff
          stop := readU32 f.buf (handlerOff + 4)
          target := readU32 f.buf (handlerOff + 8) }

/-! ## The strict and the lenient accessor -/

/-- Where the strict accessor returns a value, it is the lenient one's. -/
theorem functionGetChecked_ok {f : HbcFile} {index : Nat} {d : FunctionData}
    (h : f.functionGetChecked index = .ok d) : d = f.functionGet index := by
  simp only [functionGetChecked] at h
  by_cases hcount : index ≥ f.functionCount
  · simp only [hcount, if_true, Except.ok.injEq] at h
    simp only [functionGet, hcount, if_true, h]
  · rw [if_neg hcount] at h
    split at h
    · cases h
    split at h
    · exact (Except.ok.inj h).symm
    split at h
    · cases h
    split at h
    · cases h
    split at h
    · cases h
    · exact (Except.ok.inj h).symm

/-- The overflow claims that the strict accessor refuses. -/
inductive OverflowClaimError (index : Nat) : HermesError → Prop where
  | outOfBounds (largeOff bufLen : Nat) :
      OverflowClaimError index (.overflowedHeaderOutOfBounds index largeOff bufLen)
  | overlaps (largeOff : Nat) :
      OverflowClaimError index (.overflowedHeaderOverlapsSynthesizedRegion index largeOff)
  | ambiguous (largeOff : Nat) :
      OverflowClaimError index (.largeHeaderLayoutAmbiguous index largeOff)

/-- With the entry inside the buffer, the strict accessor fails only with an
overflow claim of the index asked for. -/
theorem functionGetChecked_error {f : HbcFile} {index : Nat} {e : HermesError}
    (hentry : f.entryOff index + f.funcHeaderSize ≤ f.buf.length)
    (h : f.functionGetChecked index = .error e) : OverflowClaimError index e := by
  simp only [functionGetChecked] at h
  split at h
  · cases h
  split at h
  · omega
  split at h
  · cases h
  split at h
  · cases h
    exact .outOfBounds _ _
  split at h
  · cases h
    exact .overlaps _
  split at h
  · cases h
    exact .ambiguous _
  · cases h

end HbcFile

end Hermes
