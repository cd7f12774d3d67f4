-- SUMMARY: The version-typed HBC header: its five layouts, the field projections, and the header parser with v98 form detection.
import DroidsawHermes.Error

/-!
# HBC header

`header.rs`: the version word selects one of five typed layouts, each with the
fields of its wire format. Version 98 is split into an early and a late form by
a look at the two places where the `BytecodeOptions` byte may be.
-/

open Bytes

namespace Hermes

def hbcMagic : Nat := 0x1F1903C103BC1FC6
def headerSize : Nat := 128
def minSupportedVersion : Nat := 40
def maxSupportedVersion : Nat := 100

def bytecodeOptionsEarly : Nat := 108
def bytecodeOptionsLate : Nat := 112
/-- Bits of a `BytecodeOptions` byte that must be zero. -/
def bytecodeOptionsValidMask : Nat := 0xF8

/-! ## Layouts -/

/-- v40..=v83: no bigint pair, no `function_source_count`. -/
structure PreV84Header where
  version : Nat
  fileLength : Nat
  globalCodeIndex : Nat
  functionCount : Nat
  stringKindCount : Nat
  identifierCount : Nat
  stringCount : Nat
  overflowStringCount : Nat
  stringStorageSize : Nat
  regExpCount : Nat
  regExpStorageSize : Nat
  arrayBufferSize : Nat
  objKeyBufferSize : Nat
  objValueBufferSize : Nat
  segmentId : Nat
  cjsModuleCount : Nat
  debugInfoOffset : Nat
  deriving DecidableEq, Repr

/-- v84..=v86: adds `function_source_count`. -/
structure V84to86Header where
  version : Nat
  fileLength : Nat
  globalCodeIndex : Nat
  functionCount : Nat
  stringKindCount : Nat
  identifierCount : Nat
  stringCount : Nat
  overflowStringCount : Nat
  stringStorageSize : Nat
  regExpCount : Nat
  regExpStorageSize : Nat
  arrayBufferSize : Nat
  objKeyBufferSize : Nat
  objValueBufferSize : Nat
  segmentId : Nat
  cjsModuleCount : Nat
  functionSourceCount : Nat
  debugInfoOffset : Nat
  deriving DecidableEq, Repr

/-- v87..=v96: adds the bigint pair. -/
structure V87to96Header where
  version : Nat
  fileLength : Nat
  globalCodeIndex : Nat
  functionCount : Nat
  stringKindCount : Nat
  identifierCount : Nat
  stringCount : Nat
  overflowStringCount : Nat
  stringStorageSize : Nat
  bigIntCount : Nat
  bigIntStorageSize : Nat
  regExpCount : Nat
  regExpStorageSize : Nat
  arrayBufferSize : Nat
  objKeyBufferSize : Nat
  objValueBufferSize : Nat
  segmentId : Nat
  cjsModuleCount : Nat
  functionSourceCount : Nat
  debugInfoOffset : Nat
  deriving DecidableEq, Repr

/-- v97 and v98 early form: `obj_shape_table_count` in the place of
`obj_value_buffer_size`. -/
structure V97toV98EarlyHeader where
  version : Nat
  fileLength : Nat
  globalCodeIndex : Nat
  functionCount : Nat
  stringKindCount : Nat
  identifierCount : Nat
  stringCount : Nat
  overflowStringCount : Nat
  stringStorageSize : Nat
  bigIntCount : Nat
  bigIntStorageSize : Nat
  regExpCount : Nat
  regExpStorageSize : Nat
  arrayBufferSize : Nat
  objKeyBufferSize : Nat
  objShapeTableCount : Nat
  segmentId : Nat
  cjsModuleCount : Nat
  functionSourceCount : Nat
  debugInfoOffset : Nat
  deriving DecidableEq, Repr

/-- v98 late form and v99 on: adds `num_string_switch_imms`. -/
structure V98LateToV99Header where
  version : Nat
  fileLength : Nat
  globalCodeIndex : Nat
  functionCount : Nat
  stringKindCount : Nat
  identifierCount : Nat
  stringCount : Nat
  overflowStringCount : Nat
  stringStorageSize : Nat
  bigIntCount : Nat
  bigIntStorageSize : Nat
  regExpCount : Nat
  regExpStorageSize : Nat
  arrayBufferSize : Nat
  objKeyBufferSize : Nat
  objShapeTableCount : Nat
  numStringSwitchImms : Nat
  segmentId : Nat
  cjsModuleCount : Nat
  functionSourceCount : Nat
  debugInfoOffset : Nat
  deriving DecidableEq, Repr

inductive HbcHeader where
  | preV84 (h : PreV84Header)
  | v84to86 (h : V84to86Header)
  | v87to96 (h : V87to96Header)
  | v97toV98Early (h : V97toV98EarlyHeader)
  | v98LateToV99 (h : V98LateToV99Header)
  deriving DecidableEq, Repr

/-- The variant tag of a header, the discriminant of every layout branch. -/
inductive HeaderLayout where
  | preV84 | v84to86 | v87to96 | v97toV98Early | v98LateToV99
  deriving DecidableEq, Repr

namespace HbcHeader

def layout : HbcHeader → HeaderLayout
  | .preV84 _ => .preV84
  | .v84to86 _ => .v84to86
  | .v87to96 _ => .v87to96
  | .v97toV98Early _ => .v97toV98Early
  | .v98LateToV99 _ => .v98LateToV99

def version : HbcHeader → Nat
  | .preV84 h => h.version
  | .v84to86 h => h.version
  | .v87to96 h => h.version
  | .v97toV98Early h => h.version
  | .v98LateToV99 h => h.version

def fileLength : HbcHeader → Nat
  | .preV84 h => h.fileLength
  | .v84to86 h => h.fileLength
  | .v87to96 h => h.fileLength
  | .v97toV98Early h => h.fileLength
  | .v98LateToV99 h => h.fileLength

def functionCount : HbcHeader → Nat
  | .preV84 h => h.functionCount
  | .v84to86 h => h.functionCount
  | .v87to96 h => h.functionCount
  | .v97toV98Early h => h.functionCount
  | .v98LateToV99 h => h.functionCount

def stringKindCount : HbcHeader → Nat
  | .preV84 h => h.stringKindCount
  | .v84to86 h => h.stringKindCount
  | .v87to96 h => h.stringKindCount
  | .v97toV98Early h => h.stringKindCount
  | .v98LateToV99 h => h.stringKindCount

def identifierCount : HbcHeader → Nat
  | .preV84 h => h.identifierCount
  | .v84to86 h => h.identifierCount
  | .v87to96 h => h.identifierCount
  | .v97toV98Early h => h.identifierCount
  | .v98LateToV99 h => h.identifierCount

def stringCount : HbcHeader → Nat
  | .preV84 h => h.stringCount
  | .v84to86 h => h.stringCount
  | .v87to96 h => h.stringCount
  | .v97toV98Early h => h.stringCount
  | .v98LateToV99 h => h.stringCount

def overflowStringCount : HbcHeader → Nat
  | .preV84 h => h.overflowStringCount
  | .v84to86 h => h.overflowStringCount
  | .v87to96 h => h.overflowStringCount
  | .v97toV98Early h => h.overflowStringCount
  | .v98LateToV99 h => h.overflowStringCount

def stringStorageSize : HbcHeader → Nat
  | .preV84 h => h.stringStorageSize
  | .v84to86 h => h.stringStorageSize
  | .v87to96 h => h.stringStorageSize
  | .v97toV98Early h => h.stringStorageSize
  | .v98LateToV99 h => h.stringStorageSize

def regExpCount : HbcHeader → Nat
  | .preV84 h => h.regExpCount
  | .v84to86 h => h.regExpCount
  | .v87to96 h => h.regExpCount
  | .v97toV98Early h => h.regExpCount
  | .v98LateToV99 h => h.regExpCount

def regExpStorageSize : HbcHeader → Nat
  | .preV84 h => h.regExpStorageSize
  | .v84to86 h => h.regExpStorageSize
  | .v87to96 h => h.regExpStorageSize
  | .v97toV98Early h => h.regExpStorageSize
  | .v98LateToV99 h => h.regExpStorageSize

def arrayBufferSize : HbcHeader → Nat
  | .preV84 h => h.arrayBufferSize
  | .v84to86 h => h.arrayBufferSize
  | .v87to96 h => h.arrayBufferSize
  | .v97toV98Early h => h.arrayBufferSize
  | .v98LateToV99 h => h.arrayBufferSize

def objKeyBufferSize : HbcHeader → Nat
  | .preV84 h => h.objKeyBufferSize
  | .v84to86 h => h.objKeyBufferSize
  | .v87to96 h => h.objKeyBufferSize
  | .v97toV98Early h => h.objKeyBufferSize
  | .v98LateToV99 h => h.objKeyBufferSize

def cjsModuleCount : HbcHeader → Nat
  | .preV84 h => h.cjsModuleCount
  | .v84to86 h => h.cjsModuleCount
  | .v87to96 h => h.cjsModuleCount
  | .v97toV98Early h => h.cjsModuleCount
  | .v98LateToV99 h => h.cjsModuleCount

def debugInfoOffset : HbcHeader → Nat
  | .preV84 h => h.debugInfoOffset
  | .v84to86 h => h.debugInfoOffset
  | .v87to96 h => h.debugInfoOffset
  | .v97toV98Early h => h.debugInfoOffset
  | .v98LateToV99 h => h.debugInfoOffset

def functionSourceCount : HbcHeader → Nat
  | .preV84 _ => 0
  | .v84to86 h => h.functionSourceCount
  | .v87to96 h => h.functionSourceCount
  | .v97toV98Early h => h.functionSourceCount
  | .v98LateToV99 h => h.functionSourceCount

def bigIntCount : HbcHeader → Nat
  | .preV84 _ | .v84to86 _ => 0
  | .v87to96 h => h.bigIntCount
  | .v97toV98Early h => h.bigIntCount
  | .v98LateToV99 h => h.bigIntCount

def bigIntStorageSize : HbcHeader → Nat
  | .preV84 _ | .v84to86 _ => 0
  | .v87to96 h => h.bigIntStorageSize
  | .v97toV98Early h => h.bigIntStorageSize
  | .v98LateToV99 h => h.bigIntStorageSize

/-- Zero from v97 on, where the slot holds `obj_shape_table_count`. -/
def objValueBufferSize : HbcHeader → Nat
  | .preV84 h => h.objValueBufferSize
  | .v84to86 h => h.objValueBufferSize
  | .v87to96 h => h.objValueBufferSize
  | .v97toV98Early _ | .v98LateToV99 _ => 0

def objShapeTableCount : HbcHeader → Nat
  | .preV84 _ | .v84to86 _ | .v87to96 _ => 0
  | .v97toV98Early h => h.objShapeTableCount
  | .v98LateToV99 h => h.objShapeTableCount

end HbcHeader

namespace HeaderLayout

/-- FunctionHeaders stride: 16 bytes before v97, 12 from v97 on. -/
def funcHeaderSize : HeaderLayout → Nat
  | .preV84 | .v84to86 | .v87to96 => 16
  | .v97toV98Early | .v98LateToV99 => 12

def useV99FuncHeader : HeaderLayout → Bool
  | .v98LateToV99 => true
  | _ => false

def hasNumStringSwitchImms : HeaderLayout → Bool
  | .v98LateToV99 => true
  | _ => false

/-- The layouts that carry the bigint pair at bytes 64..72. -/
def hasBigIntPair : HeaderLayout → Bool
  | .preV84 | .v84to86 => false
  | .v87to96 | .v97toV98Early | .v98LateToV99 => true

end HeaderLayout

/-! ## Form detection for version 98 -/

/-- Both option bytes are plausible: decide by which `debug_info_offset` lies
past the header and inside the buffer. -/
def disambiguateBothOptionsValid (buf : List UInt8) : Except HermesError Bool :=
  let base := 92
  let debugWith := readU32 buf (base + 16)
  let debugWithout := readU32 buf (base + 12)
  let bufLenU32 := min buf.length u32Max
  let headerEnd := 128
  let lateDebugPlausible : Bool := headerEnd ≤ debugWith ∧ debugWith < bufLenU32
  let earlyDebugPlausible : Bool := headerEnd ≤ debugWithout ∧ debugWithout < bufLenU32
  if lateDebugPlausible && !earlyDebugPlausible then .ok true
  else if !lateDebugPlausible && earlyDebugPlausible then .ok false
  else
    let functionCount := readU32 buf 40
    if functionCount > 0 then
      .error (.ambiguousV98Form (buf.getD bytecodeOptionsEarly 0) (buf.getD bytecodeOptionsLate 0))
    else .ok false

def detectLateV98Form (buf : List UInt8) : Except HermesError Bool :=
  match buf[bytecodeOptionsEarly]?, buf[bytecodeOptionsLate]? with
  | some optEarly, some optLate =>
    let earlyValid : Bool := optEarly.toNat &&& bytecodeOptionsValidMask = 0
    let lateValid : Bool := optLate.toNat &&& bytecodeOptionsValidMask = 0
    match earlyValid, lateValid with
    | false, false => .error (.ambiguousV98Form optEarly optLate)
    | true, false => .ok false
    | false, true => .ok true
    | true, true => disambiguateBothOptionsValid buf
  | _, _ => .ok false

/-! ## Field reads -/

def parsePreV84 (buf : List UInt8) (version : Nat) : PreV84Header where
  version := version
  fileLength := readU32 buf 32
  globalCodeIndex := readU32 buf 36
  functionCount := readU32 buf 40
  stringKindCount := readU32 buf 44
  identifierCount := readU32 buf 48
  stringCount := readU32 buf 52
  overflowStringCount := readU32 buf 56
  stringStorageSize := readU32 buf 60
  regExpCount := readU32 buf 64
  regExpStorageSize := readU32 buf 68
  arrayBufferSize := readU32 buf 72
  objKeyBufferSize := readU32 buf 76
  objValueBufferSize := readU32 buf 80
  segmentId := readU32 buf 84
  cjsModuleCount := readU32 buf 88
  debugInfoOffset := readU32 buf 92

def parseV84to86 (buf : List UInt8) (version : Nat) : V84to86Header where
  version := version
  fileLength := readU32 buf 32
  globalCodeIndex := readU32 buf 36
  functionCount := readU32 buf 40
  stringKindCount := readU32 buf 44
  identifierCount := readU32 buf 48
  stringCount := readU32 buf 52
  overflowStringCount := readU32 buf 56
  stringStorageSize := readU32 buf 60
  regExpCount := readU32 buf 64
  regExpStorageSize := readU32 buf 68
  arrayBufferSize := readU32 buf 72
  objKeyBufferSize := readU32 buf 76
  objValueBufferSize := readU32 buf 80
  segmentId := readU32 buf 84
  cjsModuleCount := readU32 buf 88
  functionSourceCount := readU32 buf 92
  debugInfoOffset := readU32 buf 96

def parseV87to96 (buf : List UInt8) (version : Nat) : V87to96Header where
  version := version
  fileLength := readU32 buf 32
  globalCodeIndex := readU32 buf 36
  functionCount := readU32 buf 40
  stringKindCount := readU32 buf 44
  identifierCount := readU32 buf 48
  stringCount := readU32 buf 52
  overflowStringCount := readU32 buf 56
  stringStorageSize := readU32 buf 60
  bigIntCount := readU32 buf 64
  bigIntStorageSize := readU32 buf 68
  regExpCount := readU32 buf 72
  regExpStorageSize := readU32 buf 76
  arrayBufferSize := readU32 buf 80
  objKeyBufferSize := readU32 buf 84
  objValueBufferSize := readU32 buf 88
  segmentId := readU32 buf 92
  cjsModuleCount := readU32 buf 96
  functionSourceCount := readU32 buf 100
  debugInfoOffset := readU32 buf 104

def parseV97toV98Early (buf : List UInt8) (version : Nat) : V97toV98EarlyHeader where
  version := version
  fileLength := readU32 buf 32
  globalCodeIndex := readU32 buf 36
  functionCount := readU32 buf 40
  stringKindCount := readU32 buf 44
  identifierCount := readU32 buf 48
  stringCount := readU32 buf 52
  overflowStringCount := readU32 buf 56
  stringStorageSize := readU32 buf 60
  bigIntCount := readU32 buf 64
  bigIntStorageSize := readU32 buf 68
  regExpCount := readU32 buf 72
  regExpStorageSize := readU32 buf 76
  arrayBufferSize := readU32 buf 80
  objKeyBufferSize := readU32 buf 84
  objShapeTableCount := readU32 buf 88
  segmentId := readU32 buf 92
  cjsModuleCount := readU32 buf 96
  functionSourceCount := readU32 buf 100
  debugInfoOffset := readU32 buf 104

def parseV98LateToV99 (buf : List UInt8) (version : Nat) : V98LateToV99Header where
  version := version
  fileLength := readU32 buf 32
  globalCodeIndex := readU32 buf 36
  functionCount := readU32 buf 40
  stringKindCount := readU32 buf 44
  identifierCount := readU32 buf 48
  stringCount := readU32 buf 52
  overflowStringCount := readU32 buf 56
  stringStorageSize := readU32 buf 60
  bigIntCount := readU32 buf 64
  bigIntStorageSize := readU32 buf 68
  regExpCount := readU32 buf 72
  regExpStorageSize := readU32 buf 76
  arrayBufferSize := readU32 buf 80
  objKeyBufferSize := readU32 buf 84
  objShapeTableCount := readU32 buf 88
  numStringSwitchImms := readU32 buf 92
  segmentId := readU32 buf 96
  cjsModuleCount := readU32 buf 100
  functionSourceCount := readU32 buf 104
  debugInfoOffset := readU32 buf 108

def parseHbcHeader (buf : List UInt8) : Except HermesError HbcHeader :=
  if buf.length < headerSize then .error (.headerTooSmall buf.length)
  else
    let magicBytes := slice buf 0 8
    if ofLE magicBytes ≠ hbcMagic then .error (.invalidMagic magicBytes)
    else
      let version := readU32 buf 8
      let unsupported := .error
        (.unsupportedVersion version minSupportedVersion maxSupportedVersion)
      if version < minSupportedVersion then unsupported
      else if version ≤ 83 then .ok (.preV84 (parsePreV84 buf version))
      else if version ≤ 86 then .ok (.v84to86 (parseV84to86 buf version))
      else if version ≤ 96 then .ok (.v87to96 (parseV87to96 buf version))
      else if version = 97 then .ok (.v97toV98Early (parseV97toV98Early buf 97))
      else if version = 98 then
        match detectLateV98Form buf with
        | .error e => .error e
        | .ok true => .ok (.v98LateToV99 (parseV98LateToV99 buf 98))
        | .ok false => .ok (.v97toV98Early (parseV97toV98Early buf 98))
      else if version ≤ maxSupportedVersion then
        .ok (.v98LateToV99 (parseV98LateToV99 buf version))
      else unsupported

/-! ## What an accepted header is -/

/-- The header that a version word selects, with the guards of its branch. -/
inductive HeaderOf (buf : List UInt8) : HbcHeader → Prop where
  | preV84 (hlo : 40 ≤ readU32 buf 8) (hhi : readU32 buf 8 ≤ 83) :
      HeaderOf buf (.preV84 (parsePreV84 buf (readU32 buf 8)))
  | v84to86 (hlo : 84 ≤ readU32 buf 8) (hhi : readU32 buf 8 ≤ 86) :
      HeaderOf buf (.v84to86 (parseV84to86 buf (readU32 buf 8)))
  | v87to96 (hlo : 87 ≤ readU32 buf 8) (hhi : readU32 buf 8 ≤ 96) :
      HeaderOf buf (.v87to96 (parseV87to96 buf (readU32 buf 8)))
  | v97 (hv : readU32 buf 8 = 97) : HeaderOf buf (.v97toV98Early (parseV97toV98Early buf 97))
  | v98Early (hv : readU32 buf 8 = 98) (hform : detectLateV98Form buf = .ok false) :
      HeaderOf buf (.v97toV98Early (parseV97toV98Early buf 98))
  | v98Late (hv : readU32 buf 8 = 98) (hform : detectLateV98Form buf = .ok true) :
      HeaderOf buf (.v98LateToV99 (parseV98LateToV99 buf 98))
  | v99 (hlo : 99 ≤ readU32 buf 8) (hhi : readU32 buf 8 ≤ 100) :
      HeaderOf buf (.v98LateToV99 (parseV98LateToV99 buf (readU32 buf 8)))

theorem HeaderOf.debugInfoOffset_le {buf : List UInt8} {header : HbcHeader}
    (h : HeaderOf buf header) : header.debugInfoOffset ≤ u32Max := by
  cases h <;> exact readU32_le_u32Max buf _

theorem HeaderOf.arrayBufferSize_lt {buf : List UInt8} {header : HbcHeader}
    (h : HeaderOf buf header) : header.arrayBufferSize < 2 ^ 32 := by
  cases h <;> exact readU32_lt buf _

theorem HeaderOf.objKeyBufferSize_lt {buf : List UInt8} {header : HbcHeader}
    (h : HeaderOf buf header) : header.objKeyBufferSize < 2 ^ 32 := by
  cases h <;> exact readU32_lt buf _

theorem HeaderOf.objValueBufferSize_lt {buf : List UInt8} {header : HbcHeader}
    (h : HeaderOf buf header) : header.objValueBufferSize < 2 ^ 32 := by
  cases h <;> first | exact readU32_lt buf _ | exact Nat.two_pow_pos 32

/-- Where there is a bigint pair, its second word is at 68. -/
theorem HeaderOf.bigIntStorageSize {buf : List UInt8} {header : HbcHeader}
    (h : HeaderOf buf header) (hpair : header.layout.hasBigIntPair = true) :
    header.bigIntStorageSize = readU32 buf 68 := by
  cases h <;> first | rfl | cases hpair

/-- The fields that every layout has at the same place. -/
structure HbcHeader.CommonFields (buf : List UInt8) (header : HbcHeader) : Prop where
  version : header.version = readU32 buf 8
  fileLength : header.fileLength = readU32 buf 32
  functionCount : header.functionCount = readU32 buf 40
  stringKindCount : header.stringKindCount = readU32 buf 44
  identifierCount : header.identifierCount = readU32 buf 48
  stringCount : header.stringCount = readU32 buf 52
  overflowStringCount : header.overflowStringCount = readU32 buf 56
  stringStorageSize : header.stringStorageSize = readU32 buf 60
  funcHeaderSize : header.layout.funcHeaderSize = if readU32 buf 8 ≥ 97 then 12 else 16

theorem HeaderOf.common {buf : List UInt8} {header : HbcHeader} (h : HeaderOf buf header) :
    header.CommonFields buf := by
  cases h with
  | preV84 hlo hhi | v84to86 hlo hhi | v87to96 hlo hhi =>
    have hold : ¬ readU32 buf 8 ≥ 97 := by omega
    refine ⟨rfl, rfl, rfl, rfl, rfl, rfl, rfl, rfl, ?_⟩
    rw [if_neg hold]
    rfl
  | v97 hv | v98Early hv _ | v98Late hv _ =>
    refine ⟨hv.symm, rfl, rfl, rfl, rfl, rfl, rfl, rfl, ?_⟩
    rw [hv, if_pos (by decide)]
    rfl
  | v99 hlo hhi =>
    have hnew : readU32 buf 8 ≥ 97 := by omega
    refine ⟨rfl, rfl, rfl, rfl, rfl, rfl, rfl, rfl, ?_⟩
    rw [if_pos hnew]
    rfl

/-- The layouts of the versions that can be emitted. -/
theorem HeaderOf.eq_v84to86 {buf : List UInt8} {header : HbcHeader} (h : HeaderOf buf header)
    (hv : header.version = 84) : header = .v84to86 (parseV84to86 buf (readU32 buf 8)) := by
  rw [h.common.version] at hv
  cases h with
  | v84to86 hlo hhi => rfl
  | preV84 | v87to96 | v97 | v98Early | v98Late | v99 => omega

theorem HeaderOf.eq_v87to96 {buf : List UInt8} {header : HbcHeader} (h : HeaderOf buf header)
    (hv : header.version = 96) : header = .v87to96 (parseV87to96 buf (readU32 buf 8)) := by
  rw [h.common.version] at hv
  cases h with
  | v87to96 hlo hhi => rfl
  | preV84 | v84to86 | v97 | v98Early | v98Late | v99 => omega

theorem HeaderOf.eq_v98_or_v99 {buf : List UInt8} {header : HbcHeader} (h : HeaderOf buf header)
    (hv : header.version = 98 ∨ header.version = 99) :
    header = .v97toV98Early (parseV97toV98Early buf 98) ∨
      header = .v98LateToV99 (parseV98LateToV99 buf (readU32 buf 8)) := by
  rw [h.common.version] at hv
  cases h with
  | v98Early => exact .inl rfl
  | v98Late hver => exact .inr (by rw [hver])
  | v99 => exact .inr rfl
  | preV84 | v84to86 | v87to96 | v97 => omega

theorem HeaderOf.version_range {buf : List UInt8} {header : HbcHeader} (h : HeaderOf buf header) :
    40 ≤ readU32 buf 8 ∧ readU32 buf 8 ≤ 100 := by
  cases h <;> omega

/-- The header parser accepts a buffer that is long enough, starts with the
magic and carries a supported version; it returns that version's header. -/
theorem parseHbcHeader_eq_ok {buf : List UInt8} {header : HbcHeader} :
    parseHbcHeader buf = .ok header ↔
      headerSize ≤ buf.length ∧ ofLE (slice buf 0 8) = hbcMagic ∧ HeaderOf buf header := by
  constructor
  · intro h
    obtain ⟨v, hv⟩ : ∃ v, readU32 buf 8 = v := ⟨_, rfl⟩
    simp only [parseHbcHeader, minSupportedVersion, maxSupportedVersion, hv] at h
    split at h
    · cases h
    split at h
    · cases h
    rename_i hlen hmagic
    refine ⟨by omega, by simpa using hmagic, ?_⟩
    by_cases h40 : v < 40
    · simp [h40] at h
    by_cases h83 : v ≤ 83
    · simp only [h40, h83, if_true, if_false, Except.ok.injEq] at h
      rw [← h, ← hv]
      exact .preV84 (by omega) (by omega)
    by_cases h86 : v ≤ 86
    · simp only [h40, h83, h86, if_true, if_false, Except.ok.injEq] at h
      rw [← h, ← hv]
      exact .v84to86 (by omega) (by omega)
    by_cases h96 : v ≤ 96
    · simp only [h40, h83, h86, h96, if_true, if_false, Except.ok.injEq] at h
      rw [← h, ← hv]
      exact .v87to96 (by omega) (by omega)
    by_cases h97 : v = 97
    · subst h97
      simp only [h40, h83, h86, h96, if_true, if_false, Except.ok.injEq] at h
      rw [← h]
      exact .v97 (by omega)
    by_cases h98 : v = 98
    · subst h98
      simp only [h40, h83, h86, h96, h97, if_true, if_false] at h
      cases hform : detectLateV98Form buf with
      | error e => simp [hform] at h
      | ok late =>
        cases late with
        | true =>
          simp only [hform, Except.ok.injEq] at h
          rw [← h]
          exact .v98Late (by omega) hform
        | false =>
          simp only [hform, Except.ok.injEq] at h
          rw [← h]
          exact .v98Early (by omega) hform
    by_cases h100 : v ≤ 100
    · simp only [h40, h83, h86, h96, h97, h98, h100, if_true, if_false, Except.ok.injEq] at h
      rw [← h, ← hv]
      exact .v99 (by omega) (by omega)
    · simp [h40, h83, h86, h96, h97, h98, h100] at h
  · rintro ⟨hlen, hmagic, hof⟩
    have hlen' : ¬ buf.length < headerSize := by omega
    simp only [parseHbcHeader, minSupportedVersion, maxSupportedVersion, hlen', hmagic, if_false,
      ne_eq, not_true_eq_false]
    cases hof with
    | preV84 hlo hhi =>
      have h40 : ¬ readU32 buf 8 < 40 := by omega
      simp only [h40, hhi, if_true, if_false]
    | v84to86 hlo hhi =>
      have h40 : ¬ readU32 buf 8 < 40 := by omega
      have h83 : ¬ readU32 buf 8 ≤ 83 := by omega
      simp only [h40, h83, hhi, if_true, if_false]
    | v87to96 hlo hhi =>
      have h40 : ¬ readU32 buf 8 < 40 := by omega
      have h83 : ¬ readU32 buf 8 ≤ 83 := by omega
      have h86 : ¬ readU32 buf 8 ≤ 86 := by omega
      simp only [h40, h83, h86, hhi, if_true, if_false]
    | v97 hv => simp [hv]
    | v98Early hv hform => simp [hv, hform]
    | v98Late hv hform => simp [hv, hform]
    | v99 hlo hhi =>
      have h40 : ¬ readU32 buf 8 < 40 := by omega
      have h83 : ¬ readU32 buf 8 ≤ 83 := by omega
      have h86 : ¬ readU32 buf 8 ≤ 86 := by omega
      have h96 : ¬ readU32 buf 8 ≤ 96 := by omega
      have h97 : ¬ readU32 buf 8 = 97 := by omega
      have h98 : ¬ readU32 buf 8 = 98 := by omega
      simp only [h40, h83, h86, h96, h97, h98, hhi, if_true, if_false]

end Hermes
