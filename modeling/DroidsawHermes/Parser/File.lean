-- SUMMARY: The parsed file and `parse_inner`: the section walk, the bytecode region and the string kind map, with where the sections lie.
import DroidsawHermes.Lib.Loop
import DroidsawHermes.Lib.Span
import DroidsawHermes.Parser.DebugInfo

/-!
# The parsed file

`HbcFile` and `parse_inner` of `parser/mod.rs`. The section walk is a plan, one
entry for each `section!` or `section_opt!` of the source in its order, and a
fold of one step over the plan.

The cached projections of the header (`version`, `function_count`, …) are
functions of `HbcFile.header` here, as `parse_inner` copies them from it.
-/

open Bytes

namespace Hermes

/-! ## Data -/

structure SectionEntry where
  name : SectionName
  span : Span
  deriving DecidableEq, Repr

/-- Large-FunctionHeader shapes of v98 late-form bundles. -/
inductive LargeHeaderLayout where
  | shape36 | shape40
  deriving DecidableEq, Repr

namespace LargeHeaderLayout

def headerSize : LargeHeaderLayout → Nat
  | .shape36 => 36
  | .shape40 => 40

def flagsOffset : LargeHeaderLayout → Nat
  | .shape36 => 35
  | .shape40 => 36

end LargeHeaderLayout

inductive UnrecognizedReason where
  | overflowedHeaderOutOfBounds (largeOff bufLen : Nat)
  | overflowedHeaderOverlapsSynthesizedRegion (largeOff : Nat)
  | exceptionTableOverlapsSynthesizedRegion (excOffset : Nat)
  | largeHeaderLayoutAmbiguous (largeOff : Nat)
  | exceptionHandlerOutOfFunctionRange (handlerIdx start stop target fnSize : Nat)
  deriving DecidableEq, Repr

structure UnrecognizedFunction where
  funcIdx : Nat
  reason : UnrecognizedReason
  deriving DecidableEq, Repr

structure HbcFile where
  buf : List UInt8
  header : HbcHeader
  funcHeaders : Span
  stringKinds : Span
  smallStringTable : Span
  overflowStringTable : Span
  stringStorage : Span
  arrayBuffer : Span
  objKeyBuffer : Span
  objValueBuffer : Span
  objShapeTable : Span
  bigIntTable : Span
  bigIntStorage : Span
  regexpTable : Span
  cjsModules : Span
  debugInfoV96 : Option DebugInfoV96
  stringKindMap : List Nat
  /-- Where function bodies may lie, as `(start, end)`. -/
  bytecodeRegion : Nat × Nat
  sections : List SectionEntry
  unrecognizedFunctions : List UnrecognizedFunction
  largeHeaderLayout : Option LargeHeaderLayout
  deriving DecidableEq, Repr

namespace HbcFile

def version (f : HbcFile) : Nat := f.header.version
def functionCount (f : HbcFile) : Nat := f.header.functionCount
def stringCount (f : HbcFile) : Nat := f.header.stringCount
def funcHeaderSize (f : HbcFile) : Nat := f.header.layout.funcHeaderSize

end HbcFile

/-! ## Count gates -/

/-- `bound_count(got, stride, data_len, item)` of the common crate, which the
repository calls and does not contain. -/
abbrev BoundCount := Nat → Nat → Nat → String → Except CountExceeded Nat

/-- What its callers rely on: it accepts exactly the counts whose entries fit
the data. -/
structure BoundCount.Spec (boundCount : BoundCount) : Prop where
  ok_iff : ∀ got stride dataLen item,
    (∃ n, boundCount got stride dataLen item = .ok n) ↔ got * stride ≤ dataLen

/-- A gate that meets the specification. -/
def checkedBoundCount : BoundCount := fun got stride dataLen item =>
  if got * stride ≤ dataLen then .ok got else .error ⟨got, stride, dataLen, item⟩

theorem checkedBoundCount_spec : checkedBoundCount.Spec := by
  constructor
  intro got stride dataLen item
  simp only [checkedBoundCount]
  split <;> simp_all

/-- One call of `crate::error::bound_count`. -/
structure CountGate where
  got : Nat
  stride : Nat
  item : String

/-- The gates of `parse_inner`, in its order. -/
def countGates (header : HbcHeader) : List CountGate :=
  [ ⟨header.functionCount, header.layout.funcHeaderSize, "function_headers"⟩,
    ⟨header.stringCount, 4, "small_string_table"⟩,
    ⟨header.overflowStringCount, 8, "overflow_string_table"⟩,
    ⟨header.regExpCount, 8, "regexp_table"⟩,
    ⟨header.stringKindCount, 4, "string_kinds"⟩,
    ⟨header.identifierCount, 4, "identifier_hashes"⟩,
    ⟨header.objShapeTableCount, 8, "obj_shape_table"⟩,
    ⟨header.bigIntCount, 8, "big_int_table"⟩,
    ⟨header.cjsModuleCount, 8, "cjs_modules"⟩,
    ⟨header.functionSourceCount, 8, "function_source_table"⟩ ]

/-- The gates run in order; the first failure is the result. -/
def checkCountGates (boundCount : BoundCount) (dataLen : Nat) :
    List CountGate → Except HermesError Unit
  | [] => .ok ()
  | g :: gates =>
    match boundCount g.got g.stride dataLen g.item with
    | .error e => .error (.boundCountExceeded e)
    | .ok _ => checkCountGates boundCount dataLen gates

theorem BoundCount.Spec.gate_le {boundCount : BoundCount} (spec : boundCount.Spec) {dataLen : Nat}
    {gates : List CountGate} (h : checkCountGates boundCount dataLen gates = .ok ()) :
    ∀ g ∈ gates, g.got * g.stride ≤ dataLen := by
  induction gates with
  | nil => simp
  | cons g gates ih =>
    simp only [checkCountGates] at h
    split at h
    · cases h
    · rename_i n hn
      intro g' hg'
      rcases List.mem_cons.mp hg' with rfl | hmem
      · exact (spec.ok_iff _ _ _ _).mp ⟨n, hn⟩
      · exact ih h g' hmem

/-! ## The section walk -/

/-- One `section!` (or, when `optional`, `section_opt!`) of the source. -/
structure PlannedSection where
  name : SectionName
  size : Nat
  optional : Bool := false

/-- The sections of a file with this header, in the order of the walk. -/
def sectionPlan (header : HbcHeader) : List PlannedSection :=
  [ ⟨.functionHeaders, header.functionCount * header.layout.funcHeaderSize, false⟩,
    ⟨.stringKinds, header.stringKindCount * 4, false⟩,
    ⟨.identifierHashes, header.identifierCount * 4, false⟩,
    ⟨.smallStringTable, header.stringCount * 4, false⟩,
    ⟨.overflowStringTable, header.overflowStringCount * 8, false⟩,
    ⟨.stringStorage, header.stringStorageSize, false⟩,
    ⟨.arrayBuffer, header.arrayBufferSize, true⟩ ]
  ++ (match header.layout with
    | .preV84 | .v84to86 | .v87to96 =>
      [ ⟨.objKeyBuffer, header.objKeyBufferSize, true⟩,
        ⟨.objValueBuffer, header.objValueBufferSize, true⟩ ]
    | .v97toV98Early | .v98LateToV99 =>
      ⟨.objKeyBuffer, header.objKeyBufferSize, true⟩ ::
        (if header.objShapeTableCount > 0 then
          [⟨.objShapeTable, header.objShapeTableCount * 8, false⟩] else []))
  ++ (if header.layout.hasBigIntPair ∧ header.bigIntCount > 0 then
      [ ⟨.bigIntTable, header.bigIntCount * 8, false⟩,
        ⟨.bigIntStorage, header.bigIntStorageSize, false⟩ ] else [])
  ++ [ ⟨.regExpTable, header.regExpCount * 8, true⟩,
      ⟨.regExpStorage, if header.regExpCount > 0 then header.regExpStorageSize else 0, true⟩,
      ⟨.cjsModules, header.cjsModuleCount * 8, true⟩ ]
  ++ (if header.layout ≠ .preV84 ∧ header.functionSourceCount > 0 then
      [⟨.functionSourceTable, header.functionSourceCount * 8, false⟩] else [])

/-- The state of the walk: the aligned cursor and the sections found so far. -/
structure SectionWalk where
  cursor : Nat
  sections : List SectionEntry
  deriving DecidableEq, Repr

/-- `section!`. -/
def SectionWalk.addSection (bufLen : Nat) (w : SectionWalk) (name : SectionName) (size : Nat) :
    Except HermesError SectionWalk :=
  if size > u32Max then .error (.sectionSizeOverflow name size)
  else if w.cursor + size > bufLen then .error (.sectionExceedsBounds name w.cursor size bufLen)
  else
    let aligned := align4U64 (saturatingAddU64 w.cursor size)
    if aligned > u32Max then .error (.sectionCursorOverflow name)
    else .ok { cursor := aligned, sections := w.sections ++ [⟨name, ⟨w.cursor, size⟩⟩] }

/-- `section!`, or `section_opt!`: the size is narrowed to 32 bits and an empty
section is left out. -/
def SectionWalk.step (bufLen : Nat) (w : SectionWalk) (p : PlannedSection) :
    Except HermesError SectionWalk :=
  if p.optional then
    let size := p.size % 2 ^ 32
    if size > 0 then w.addSection bufLen p.name size else .ok w
  else w.addSection bufLen p.name p.size

def SectionWalk.init : SectionWalk := { cursor := 128, sections := [⟨.header, ⟨0, 128⟩⟩] }

def walkSections (header : HbcHeader) (bufLen : Nat) : Except HermesError SectionWalk :=
  (sectionPlan header).foldlM (SectionWalk.step bufLen) SectionWalk.init

/-- The span that the walk gave a section; `(0, 0)` when it has none. -/
def SectionWalk.span (w : SectionWalk) (name : SectionName) : Span :=
  ((w.sections.find? fun e => e.name = name).map SectionEntry.span).getD Span.absent

/-! ## Bytecode region and string kinds -/

def computeBytecodeRegion (bodyRegionStart debugInfoOffset bufLen : Nat) : Nat × Nat :=
  let bufLenU32 := min bufLen u32Max
  let bodyRegionEnd :=
    if debugInfoOffset > 0 ∧ debugInfoOffset ≤ bufLenU32 then debugInfoOffset else bufLenU32
  if bodyRegionEnd ≥ bodyRegionStart then (bodyRegionStart, bodyRegionEnd)
  else (bodyRegionStart, bodyRegionStart)

/-- The `(count, kind)` run of one string-kind entry. -/
def stringKindRun (version : Nat) (entry : List UInt8) : Nat × Nat :=
  if version ≥ 72 then (readBitfield entry 0 31, readBitfield entry 31 1)
  else (readBitfield entry 0 30, readBitfield entry 30 2)

/-- The run-length decoding, over the entries that are left; `idx` slots of the
map are filled. Runs past the end of the map are cut. -/
def decodeStringKinds (buf : List UInt8) (version start : Nat) :
    Nat → Nat → List Nat → Nat → List Nat
  | 0, _, map, _ => map
  | n + 1, i, map, idx =>
    match get? buf (start + i * 4) (start + i * 4 + 4) with
    | none => map
    | some entry =>
      let (count, kind) := stringKindRun version entry
      let filled := min count (map.length - idx)
      decodeStringKinds buf version start n (i + 1)
        (map.take idx ++ List.replicate filled kind ++ map.drop (idx + filled)) (idx + filled)

/-! ## parse_inner -/

/-- The file record that `parse_inner` builds from a finished walk. -/
def buildFile (buf : List UInt8) (header : HbcHeader) (w : SectionWalk)
    (debugInfoV96 : Option DebugInfoV96) : HbcFile where
  buf := buf
  header := header
  funcHeaders := w.span .functionHeaders
  stringKinds := w.span .stringKinds
  smallStringTable := w.span .smallStringTable
  overflowStringTable := w.span .overflowStringTable
  stringStorage := w.span .stringStorage
  arrayBuffer := w.span .arrayBuffer
  objKeyBuffer := w.span .objKeyBuffer
  objValueBuffer := w.span .objValueBuffer
  objShapeTable := w.span .objShapeTable
  bigIntTable := w.span .bigIntTable
  bigIntStorage := w.span .bigIntStorage
  regexpTable := w.span .regExpTable
  cjsModules := w.span .cjsModules
  debugInfoV96 := debugInfoV96
  stringKindMap := decodeStringKinds buf header.version (w.span .stringKinds).start
    header.stringKindCount 0 (List.replicate header.stringCount 0) 0
  bytecodeRegion := computeBytecodeRegion w.cursor header.debugInfoOffset buf.length
  sections := w.sections
  unrecognizedFunctions := []
  largeHeaderLayout := some .shape36

def parseInner (boundCount : BoundCount) (buf : List UInt8) : Except HermesError HbcFile := do
  let header ← parseHbcHeader buf
  if header.overflowStringCount > header.stringCount then
    .error (.overflowStringCountExceedsStringCount header.overflowStringCount header.stringCount)
  else
    checkCountGates boundCount buf.length (countGates header)
    let w ← walkSections header buf.length
    let debugInfoV96 ← debugInfoV96Parse buf header.debugInfoOffset header.version
    .ok (buildFile buf header w debugInfoV96)

/-- The first 128 bytes of a file with the given version and the given header
words from byte 32 on. -/
def sampleHeader (version : Nat) (words : List Nat) : List UInt8 :=
  let fields := leBytes 8 hbcMagic ++ leBytes 4 version ++ List.replicate 20 0 ++
    words.flatMap (leBytes 4)
  fields ++ List.replicate (headerSize - fields.length) 0

end Hermes
