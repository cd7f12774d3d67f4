-- SUMMARY: The naive oracle parser, and that the production parser refines it on every accepted buffer.
import DroidsawHermes.Parser.Accepted
import DroidsawHermes.Parser.Strings

/-!
# Parser oracle

`naive_parse_hbc` of `parser_oracle.rs`, with its own header reads, cursor and
string decoding. The oracle shares no definition with the production parser but
the byte primitives.
-/

open Bytes

namespace Hermes

inductive HbcParseOracleError where
  | headerTooSmall (len : Nat)
  | invalidMagic (found : List UInt8)
  | unsupportedVersion (version : Nat)
  | overflowCountExceedsTotal (overflow total : Nat)
  | sectionOutOfBounds (name : String) (offset size bufLen : Nat)
  | arithmeticOverflow (context : String)
  | countExceedsBounds (what : String) (count stride fileSize : Nat)
  deriving DecidableEq, Repr

namespace Oracle

def hbcMagic : Nat := 0x1F1903C103BC1FC6
def hbcHeaderSize : Nat := 128
def hbcMinVersion : Nat := 40
def hbcMaxVersion : Nat := 100

def readU32Oob0 (buf : List UInt8) (offset : Nat) : Nat :=
  match buf.drop offset with
  | a :: b :: c :: d :: _ => ofLE [a, b, c, d]
  | _ => 0

def boundCount (count stride fileSize : Nat) (what : String) : Except HbcParseOracleError Nat := do
  let total ← checkedU64 (count * stride) (.arithmeticOverflow what)
  if total > fileSize then .error (.countExceedsBounds what count stride fileSize)
  else .ok count

/-- Advance the cursor over a section; the new cursor and the section's range. -/
def sectionAdvance (cursor size bufLen : Nat) (name : String) :
    Except HbcParseOracleError (Nat × Span) :=
  if size > u32Max then .error (.sectionOutOfBounds name cursor size bufLen)
  else if cursor + size > bufLen then .error (.sectionOutOfBounds name cursor size bufLen)
  else
    let aligned := min (min (cursor + size) u64Max + 3) u64Max / 4 * 4
    if aligned > u32Max then .error (.arithmeticOverflow name)
    else .ok (aligned, ⟨cursor, size⟩)

structure HeaderFields where
  functionCount : Nat
  stringKindCount : Nat
  identifierCount : Nat
  stringCount : Nat
  overflowStringCount : Nat
  stringStorageSize : Nat
  funcHeaderSize : Nat

def extractHeaderFields (buf : List UInt8) (version : Nat) : HeaderFields where
  functionCount := readU32Oob0 buf 40
  stringKindCount := readU32Oob0 buf 44
  identifierCount := readU32Oob0 buf 48
  stringCount := readU32Oob0 buf 52
  overflowStringCount := readU32Oob0 buf 56
  stringStorageSize := readU32Oob0 buf 60
  funcHeaderSize := if version ≥ 97 then 12 else 16

/-- The overflow-table entry of a string, as offset and length. -/
def overflowEntry (buf : List UInt8) (overflowStringTable : Span) (strOffset : Nat) :
    Except HbcParseOracleError (Nat × Nat) := do
  let stride ← checkedU64 (strOffset * 8) (.arithmeticOverflow "overflow_string stride")
  let ovfOff ← checkedU64 (overflowStringTable.start + stride)
    (.arithmeticOverflow "overflow_string off")
  let lenOff ← checkedU64 (ovfOff + 4) (.arithmeticOverflow "overflow_string length off")
  .ok (readU32Oob0 buf ovfOff, readU32Oob0 buf lenOff)

/-- The bytes of a string in the string storage; empty past its end. -/
def storedBytes (buf : List UInt8) (stringStorage : Span) (isUtf16 overflowRouted : Bool)
    (strOffset strLength : Nat) : Except HbcParseOracleError (List UInt8) := do
  let byteLen ←
    if isUtf16 then
      if overflowRouted then
        checkedU64 (strLength * 2) (.arithmeticOverflow "string byte_len utf16 overflow")
      else .ok (strLength * 2)
    else .ok strLength
  let absOff ← checkedU64 (stringStorage.start + strOffset)
    (.arithmeticOverflow "string abs_offset")
  let absEnd ← checkedU64 (absOff + byteLen) (.arithmeticOverflow "string abs_end")
  let bound := stringStorage.start + stringStorage.size
  if absEnd > bound then .ok []
  else .ok ((get? buf absOff absEnd).getD [])

/-- One round of the string loop, from the three section ranges. -/
def stringEntry (buf : List UInt8) (overflowStringCount : Nat)
    (smallStringTable overflowStringTable stringStorage : Span) (i : Nat) :
    Except HbcParseOracleError (List UInt8) := do
  let stride ← checkedU64 (i * 4) (.arithmeticOverflow "small_string_table entry stride")
  let entryOff ← checkedU64 (smallStringTable.start + stride)
    (.arithmeticOverflow "small_string_table entry offset")
  let entryEnd ← checkedU64 (entryOff + 4) (.arithmeticOverflow "entry_end")
  let entryBytes := (get? buf entryOff entryEnd).getD [0, 0, 0, 0]
  let entryU32 := ofLE entryBytes
  let isUtf16 : Bool := entryU32 &&& 1 ≠ 0
  let strOffset := (entryU32 >>> 1) &&& 0x7FFFFF
  let strLength := (entryU32 >>> 24) &&& 0xFF
  if strLength = 255 then
    if strOffset < overflowStringCount then do
      let (strOffset, strLength) ← overflowEntry buf overflowStringTable strOffset
      storedBytes buf stringStorage isUtf16 true strOffset strLength
    else .ok []
  else storedBytes buf stringStorage isUtf16 false strOffset strLength

def naiveParseHbc (buf : List UInt8) : Except HbcParseOracleError HbcParseShape :=
  if buf.length < hbcHeaderSize then .error (.headerTooSmall buf.length)
  else
    let magicBytes := slice buf 0 8
    if ofLE magicBytes ≠ hbcMagic then .error (.invalidMagic magicBytes)
    else
      let magicLo := ofLE (slice magicBytes 0 4)
      let magicHi := ofLE (slice magicBytes 4 8)
      let version := readU32Oob0 buf 8
      if ¬ (hbcMinVersion ≤ version ∧ version ≤ hbcMaxVersion) then
        .error (.unsupportedVersion version)
      else
        let hdr := extractHeaderFields buf version
        if hdr.overflowStringCount > hdr.stringCount then
          .error (.overflowCountExceedsTotal hdr.overflowStringCount hdr.stringCount)
        else do
          let _ ← boundCount hdr.functionCount hdr.funcHeaderSize buf.length "function_headers"
          let _ ← boundCount hdr.stringCount 4 buf.length "small_string_table"
          let _ ← boundCount hdr.overflowStringCount 8 buf.length "overflow_string_table"
          let funcHeadersOffset := 128
          let size ← checkedU64 (hdr.functionCount * hdr.funcHeaderSize)
            (.arithmeticOverflow "function_headers_size")
          let (cursor, _) ← sectionAdvance funcHeadersOffset size buf.length "FunctionHeaders"
          let size ← checkedU64 (hdr.stringKindCount * 4) (.arithmeticOverflow "string_kinds_size")
          let (cursor, _) ← sectionAdvance cursor size buf.length "StringKinds"
          let size ← checkedU64 (hdr.identifierCount * 4) (.arithmeticOverflow "ident_hashes_size")
          let (cursor, _) ← sectionAdvance cursor size buf.length "IdentifierHashes"
          let size ← checkedU64 (hdr.stringCount * 4)
            (.arithmeticOverflow "small_string_table_size")
          let (cursor, smallStringTable) ←
            sectionAdvance cursor size buf.length "SmallStringTable"
          let size ← checkedU64 (hdr.overflowStringCount * 8)
            (.arithmeticOverflow "overflow_string_table_size")
          let (cursor, overflowStringTable) ←
            sectionAdvance cursor size buf.length "OverflowStringTable"
          let (_, stringStorage) ←
            sectionAdvance cursor hdr.stringStorageSize buf.length "StringStorage"
          let entries ← (List.range hdr.stringCount).mapM
            (stringEntry buf hdr.overflowStringCount smallStringTable overflowStringTable
              stringStorage)
          .ok {
            magicLo := magicLo
            magicHi := magicHi
            version := version
            functionCount := hdr.functionCount
            stringCount := hdr.stringCount
            stringStorageSize := hdr.stringStorageSize
            functionHeadersOffset := funcHeadersOffset
            functionHeadersSize := min (hdr.functionCount * hdr.funcHeaderSize) u64Max
            stringTableEntries := entries }

/-! ## Agreement of the helpers -/

theorem readU32Oob0_eq (buf : List UInt8) (offset : Nat) :
    readU32Oob0 buf offset = readU32 buf offset := rfl

theorem boundCount_of_le {count stride fileSize : Nat} {what : String}
    (hmax : count * stride ≤ u64Max) (hle : count * stride ≤ fileSize) :
    boundCount count stride fileSize what = .ok count := by
  have hle' : ¬ count * stride > fileSize := by omega
  simp only [boundCount, checkedU64_of_le hmax, Loop.ok_bind, hle', if_false]

/-- The oracle's cursor step is the production walk's. -/
theorem sectionAdvance_of_fits {s : Span} {bufLen : Nat} (name : String)
    (hsize : s.size ≤ u32Max) (hstop : s.stop ≤ bufLen) (halign : alignedEnd s ≤ u32Max) :
    sectionAdvance s.start s.size bufLen name = .ok (alignedEnd s, s) := by
  have h1 : ¬ s.size > u32Max := by omega
  have h2 : ¬ s.start + s.size > bufLen := by
    simp only [Span.stop] at hstop
    omega
  have h3 : ¬ alignedEnd s > u32Max := by omega
  simp only [sectionAdvance, h1, h2, if_false]
  simp only [alignedEnd, align4U64, saturatingAddU64] at h3 ⊢
  rw [if_neg h3]

/-! ## String entries -/

/-- The string sections of a file lie in the buffer, and their counts are 32-bit. -/
structure StringSections (f : HbcFile) : Prop where
  small : f.smallStringTable.start + f.stringCount * 4 ≤ f.buf.length
  overflow : f.overflowStringTable.start + f.header.overflowStringCount * 8 ≤ f.buf.length
  storage : f.stringStorage.stop ≤ f.buf.length
  count_le : f.stringCount ≤ u32Max
  small_le : f.smallStringTable.start ≤ u32Max
  overflow_le : f.overflowStringTable.start ≤ u32Max
  storage_le : f.stringStorage.start ≤ u32Max
  storageSize_le : f.stringStorage.size ≤ u32Max

variable {f : HbcFile}

/-- The bytes that the production parser exposes for a resolved reference. -/
def productionBytes (f : HbcFile) (index kind : Nat) (isUtf16 : Bool) (r : StringRef) :
    List UInt8 :=
  match f.stringData index kind isUtf16 r with
  | .ok (some sd) => (get? f.buf sd.offset (sd.offset + sd.len)).getD []
  | .ok none | .error _ => []

/-- On 32-bit words no sum or product of `string_get` overflows. -/
theorem stringExtent_eq (hf : StringSections f) {isUtf16 : Bool} {r : StringRef}
    (hoff : r.strOffset ≤ u32Max) (hlen : r.strLength ≤ u32Max) :
    f.stringExtent r isUtf16 = .ok (f.stringStorage.start + r.strOffset,
      if isUtf16 then r.strLength * 2 else r.strLength) := by
  have hstart := hf.storage_le
  simp only [u32Max] at hstart hoff hlen
  have habs : f.stringStorage.start + r.strOffset ≤ u64Max := by
    simp only [u64Max]
    omega
  have hdouble : r.strLength * 2 ≤ u64Max := by
    simp only [u64Max]
    omega
  simp only [HbcFile.stringExtent, checkedU64_of_le habs, checkedU64_of_le hdouble]
  cases r.overflowRouted <;> cases isUtf16 <;> rfl

theorem storedBytes_eq (hf : StringSections f) {index kind : Nat} {isUtf16 : Bool} {r : StringRef}
    (hoff : r.strOffset ≤ u32Max) (hlen : r.strLength ≤ u32Max) :
    storedBytes f.buf f.stringStorage isUtf16 r.overflowRouted r.strOffset r.strLength =
      .ok (productionBytes f index kind isUtf16 r) := by
  have hextent := @stringExtent_eq f hf isUtf16 r hoff hlen
  obtain ⟨byteLen, hbyteLen⟩ : ∃ n, n = if isUtf16 then r.strLength * 2 else r.strLength := ⟨_, rfl⟩
  rw [← hbyteLen] at hextent
  have hstorage := hf.storage
  have hstart := hf.storage_le
  have hssize := hf.storageSize_le
  simp only [Span.stop, u32Max] at hstorage hstart hssize hoff hlen
  have hbyte : byteLen ≤ r.strLength * 2 ∧ (byteLen = 0 ↔ r.strLength = 0) := by
    subst hbyteLen
    split <;> omega
  have habs : f.stringStorage.start + r.strOffset ≤ u64Max := by
    simp only [u64Max]
    omega
  have hdouble : r.strLength * 2 ≤ u64Max := by
    simp only [u64Max]
    omega
  have hend : f.stringStorage.start + r.strOffset + byteLen ≤ u64Max := by
    simp only [u64Max]
    omega
  have horacle : storedBytes f.buf f.stringStorage isUtf16 r.overflowRouted r.strOffset
      r.strLength = if f.stringStorage.start + r.strOffset + byteLen >
          f.stringStorage.start + f.stringStorage.size then .ok []
        else .ok ((get? f.buf (f.stringStorage.start + r.strOffset)
          (f.stringStorage.start + r.strOffset + byteLen)).getD []) := by
    subst hbyteLen
    simp only [storedBytes, checkedU64_of_le hdouble]
    cases r.overflowRouted <;> cases isUtf16 <;>
      simp only [Bool.false_eq_true, if_false, if_true, Loop.ok_bind, checkedU64_of_le habs] at hend ⊢ <;>
      rw [checkedU64_of_le hend, Loop.ok_bind]
  rw [horacle]
  simp only [productionBytes, HbcFile.stringData, hextent, Loop.ok_bind, checkedU64_of_le hend]
  by_cases hzero : r.strLength = 0
  · -- an empty string: no bytes on either side
    have hbyte0 : byteLen = 0 := hbyte.2.mpr hzero
    simp only [hzero, if_true, hbyte0, Nat.add_zero]
    have hempty : ∀ k, (get? f.buf k k).getD [] = [] := by
      intro k
      simp only [get?]
      split
      · rw [Option.getD_some, slice_eq_nil (Nat.le_refl k)]
      · rfl
    simp only [hempty, ite_self]
  · simp only [hzero, if_false]
    split
    · rfl
    · rename_i hin
      have hmod : byteLen % 2 ^ 32 = byteLen := by
        apply Nat.mod_eq_of_lt
        omega
      have hfield : (if isUtf16 then byteLen % 2 ^ 32 else r.strLength) = byteLen := by
        rw [hmod]
        subst hbyteLen
        cases isUtf16 <;> rfl
      rw [hfield]

/-- Every string entry: the oracle returns what the production parser exposes. -/
theorem stringEntry_eq (hf : StringSections f) {i : Nat} (hi : i < f.stringCount) :
    stringEntry f.buf f.header.overflowStringCount f.smallStringTable f.overflowStringTable
      f.stringStorage i = .ok (f.shapeEntry i) := by
  have hsmall := hf.small
  have hsmallLe := hf.small_le
  have hoverflow := hf.overflow
  have hoverflowLe := hf.overflow_le
  have hcount := hf.count_le
  simp only [u32Max] at hsmallLe hoverflowLe hcount
  have hstride : i * 4 ≤ u64Max := by
    simp only [u64Max]
    omega
  have hoff : f.smallStringTable.start + i * 4 ≤ u64Max := by
    simp only [u64Max]
    omega
  have hend : f.smallStringTable.start + i * 4 + 4 ≤ u64Max := by
    simp only [u64Max]
    omega
  have hinside : f.smallStringTable.start + i * 4 + 4 ≤ f.buf.length := by omega
  have hentry := get?_of_le (b := f.buf) (Nat.le_add_right (f.smallStringTable.start + i * 4) 4)
    hinside
  have hnot : ¬ i ≥ f.stringCount := by omega
  have hnot' : ¬ f.smallStringTable.start + i * 4 + 4 > f.buf.length := by omega
  simp only [stringEntry, checkedU64_of_le hstride, checkedU64_of_le hoff, checkedU64_of_le hend,
    Loop.ok_bind, hentry, Option.getD_some, HbcFile.shapeEntry, HbcFile.stringGet, hnot, hnot',
    if_false, readBitfield_eq_ofLE]
  generalize hu : ofLE (slice f.buf (f.smallStringTable.start + i * 4)
    (f.smallStringTable.start + i * 4 + 4)) = u
  have hstrOffset : (u >>> 1) &&& (2 ^ 23 - 1) ≤ u32Max :=
    Nat.le_trans Nat.and_le_right (by decide)
  have hstrLength : (u >>> 24) &&& (2 ^ 8 - 1) ≤ u32Max :=
    Nat.le_trans Nat.and_le_right (by decide)
  have h23 : (u >>> 1) &&& (2 ^ 23 - 1) = (u >>> 1) &&& 0x7FFFFF := rfl
  have h8 : (u >>> 24) &&& (2 ^ 8 - 1) = (u >>> 24) &&& 0xFF := rfl
  have h1 : (u >>> 0) &&& (2 ^ 1 - 1) = u &&& 1 := rfl
  rw [h23] at hstrOffset
  rw [h8] at hstrLength
  simp only [h23, h8, h1]
  generalize hso : (u >>> 1) &&& 0x7FFFFF = strOffset at hstrOffset ⊢
  generalize hsl : (u >>> 24) &&& 0xFF = strLength at hstrLength ⊢
  by_cases hsentinel : strLength = 255
  · by_cases hrange : strOffset < f.header.overflowStringCount
    · have hovf : ¬ f.overflowStringTable.start + strOffset * 8 + 8 > f.buf.length := by omega
      simp only [u32Max] at hstrOffset
      have hovfStride : strOffset * 8 ≤ u64Max := by
        simp only [u64Max]
        omega
      have hovfOff : f.overflowStringTable.start + strOffset * 8 ≤ u64Max := by
        simp only [u64Max]
        omega
      have hovfLen : f.overflowStringTable.start + strOffset * 8 + 4 ≤ u64Max := by
        simp only [u64Max]
        omega
      simp only [hsentinel, hrange, hovf, if_true, if_false, overflowEntry, HbcFile.routeOverflow,
        checkedU64_of_le hovfStride, checkedU64_of_le hovfOff, checkedU64_of_le hovfLen,
        Loop.ok_bind, readU32Oob0_eq]
      exact storedBytes_eq hf (r := ⟨_, _, true⟩) (readU32_le_u32Max _ _) (readU32_le_u32Max _ _)
    · simp only [hsentinel, hrange, if_true, if_false, HbcFile.routeOverflow, Loop.error_bind]
  · simp only [hsentinel, if_false, HbcFile.routeOverflow, Loop.ok_bind]
    exact storedBytes_eq hf (r := ⟨strOffset, strLength, false⟩) hstrOffset hstrLength

/-! ## Refinement -/

end Oracle

namespace ParseTrace

variable {boundCount : BoundCount} {buf : List UInt8} {f : HbcFile} {w : SectionWalk}
  {dbg : Option DebugInfoV96}

theorem stringSections (t : ParseTrace boundCount buf f w dbg) : Oracle.StringSections f := by
  have hsmall := t.required_fits (sectionPlan_smallStringTable f.header)
  have hover := t.required_fits (sectionPlan_overflowStringTable f.header)
  have hstorage := t.required_fits (sectionPlan_stringStorage f.header)
  have hsst := t.smallStringTable_eq
  have host := t.overflowStringTable_eq
  have hsto := t.stringStorage_eq
  have hsmallSize : (w.span .smallStringTable).size = f.stringCount * 4 := by
    rw [t.leading.smallStringTable]
    rfl
  have hoverSize : (w.span .overflowStringTable).size = f.header.overflowStringCount * 8 := by
    rw [t.leading.overflowStringTable]
  simp only [Span.stop, hsmallSize, hoverSize] at hsmall hover
  constructor
  · rw [hsst, t.buf_eq]
    omega
  · rw [host, t.buf_eq]
    omega
  · rw [hsto, t.buf_eq]
    exact hstorage.2.1
  · omega
  · rw [hsst]
    exact t.start_le _
  · rw [host]
    exact t.start_le _
  · rw [hsto]
    exact t.start_le _
  · rw [hsto]
    exact hstorage.1

/-- The size of a section that fits is a 64-bit product. -/
private theorem product_le (t : ParseTrace boundCount buf f w dbg) {name : SectionName}
    {count stride : Nat} (h : ⟨name, count * stride, false⟩ ∈ sectionPlan f.header) :
    count * stride ≤ u64Max := by
  have hsize := (t.required_fits h).1
  rw [(t.done.span_required h).2] at hsize
  simp only [u32Max, u64Max] at *
  omega

/-- A count gate of the oracle holds for a section that fits. -/
private theorem gate_ok (t : ParseTrace boundCount buf f w dbg) {name : SectionName}
    {count stride : Nat} {what : String} (h : ⟨name, count * stride, false⟩ ∈ sectionPlan f.header) :
    Oracle.boundCount count stride buf.length what = .ok count := by
  have hstop := (t.required_fits h).2.1
  have heq := (t.done.span_required h).2
  simp only [Span.stop] at hstop
  exact Oracle.boundCount_of_le (t.product_le h) (by omega)

/-- The oracle's cursor steps over a section as the walk does. -/
private theorem advance_ok (t : ParseTrace boundCount buf f w dbg) {name : SectionName}
    {start size : Nat} {what : String} (h : ⟨name, size, false⟩ ∈ sectionPlan f.header)
    (hspan : w.span name = ⟨start, size⟩) :
    Oracle.sectionAdvance start size buf.length what =
      .ok (alignedEnd (w.span name), w.span name) := by
  obtain ⟨hsize, hstop, halign⟩ := t.required_fits h
  have := Oracle.sectionAdvance_of_fits what hsize hstop halign
  rwa [hspan] at this ⊢

end ParseTrace

/-- On every accepted buffer the oracle succeeds with the production parser's shape. -/
theorem parse_refines_naiveParseHbc {boundCount : BoundCount} {buf : List UInt8} {f : HbcFile}
    (h : parse boundCount buf = .ok f) :
    ∃ shape, Oracle.naiveParseHbc buf = .ok shape ∧ f.toShape = shape := by
  obtain ⟨w, dbg, t⟩ := parse_eq_ok.mp h
  refine ⟨f.toShape, ?_, rfl⟩
  obtain ⟨hlen, hmagic, hof⟩ := parseHbcHeader_eq_ok.mp t.header_ok
  have hc := hof.common
  obtain ⟨hv40, hv100⟩ := hof.version_range
  have hlen' : ¬ buf.length < Oracle.hbcHeaderSize := by
    simp only [headerSize, Oracle.hbcHeaderSize] at *
    omega
  have hfields : Oracle.extractHeaderFields buf (readU32 buf 8) =
      { functionCount := f.header.functionCount
        stringKindCount := f.header.stringKindCount
        identifierCount := f.header.identifierCount
        stringCount := f.header.stringCount
        overflowStringCount := f.header.overflowStringCount
        stringStorageSize := f.header.stringStorageSize
        funcHeaderSize := f.header.layout.funcHeaderSize } := by
    simp only [Oracle.extractHeaderFields, Oracle.readU32Oob0_eq, hc.functionCount,
      hc.stringKindCount, hc.identifierCount, hc.stringCount, hc.overflowStringCount,
      hc.stringStorageSize, hc.funcHeaderSize]
  have hmagic' : ofLE (slice buf 0 8) = Oracle.hbcMagic := hmagic
  have hover : ¬ f.header.overflowStringCount > f.header.stringCount :=
    Nat.not_lt.mpr t.overflow_le
  have hfh := sectionPlan_functionHeaders f.header
  have hsk := sectionPlan_stringKinds f.header
  have hih := sectionPlan_identifierHashes f.header
  have hss := sectionPlan_smallStringTable f.header
  have hos := sectionPlan_overflowStringTable f.header
  have hst := sectionPlan_stringStorage f.header
  have hl := t.leading
  have hentries : (List.range f.header.stringCount).mapM
      (Oracle.stringEntry buf f.header.overflowStringCount (w.span .smallStringTable)
        (w.span .overflowStringTable) (w.span .stringStorage)) =
      .ok ((List.range f.header.stringCount).map f.shapeEntry) := by
    apply Loop.mapM_eq_ok_map
    intro i hi
    have := Oracle.stringEntry_eq t.stringSections (List.mem_range.mp hi)
    rw [t.buf_eq] at this
    rw [← this, t.file_eq]
    rfl
  simp only [Oracle.naiveParseHbc, hlen', if_false, hmagic', ne_eq, not_true_eq_false,
    Oracle.readU32Oob0_eq, Oracle.hbcMinVersion, Oracle.hbcMaxVersion, hv40, hv100, and_self,
    hfields, hover, t.gate_ok hfh, t.gate_ok hss, t.gate_ok hos,
    checkedU64_of_le (t.product_le hfh), checkedU64_of_le (t.product_le hsk),
    checkedU64_of_le (t.product_le hih), checkedU64_of_le (t.product_le hss),
    checkedU64_of_le (t.product_le hos), Loop.ok_bind,
    t.advance_ok hfh hl.functionHeaders, t.advance_ok hsk hl.stringKinds,
    t.advance_ok hih hl.identifierHashes, t.advance_ok hss hl.smallStringTable,
    t.advance_ok hos hl.overflowStringTable, t.advance_ok hst hl.stringStorage, hentries]
  congr 1
  have hbytes : 8 ≤ buf.length := by
    simp only [headerSize] at hlen
    omega
  have hlo : slice (slice buf 0 8) 0 4 = slice buf 0 4 := by
    simp [slice, List.take_take]
  have hhi : slice (slice buf 0 8) 4 8 = slice buf 4 8 := by
    simp [slice, List.drop_take, List.take_take]
  simp only [HbcFile.toShape, t.buf_eq, get?_of_le (Nat.zero_le 4) (Nat.le_trans (by decide) hbytes),
    get?_of_le (show 4 ≤ 8 by decide) hbytes, hlo, hhi, Option.map_some, Option.getD_some,
    HbcFile.version, HbcFile.functionCount, HbcFile.stringCount, HbcFile.funcHeaderSize,
    t.funcHeaders_span, hc.version]
  rfl

/-- A v96 file of four strings: a plain one, a UTF-16 one, one from the overflow
table and one whose overflow index is out of range. -/
def sampleStringsBuffer : List UInt8 :=
  sampleHeader 96 [156, 0, 0, 0, 0, 4, 1, 4]
    ++ [0, 0, 0, 2] ++ [5, 0, 0, 1] ++ [0, 0, 0, 255] ++ [14, 0, 0, 255]
    ++ [1, 0, 0, 0, 3, 0, 0, 0] ++ [97, 98, 99, 100]

theorem parse_refines_naiveParseHbc_sample :
    ∃ f shape, parse checkedBoundCount sampleStringsBuffer = .ok f ∧
      Oracle.naiveParseHbc sampleStringsBuffer = .ok shape ∧ f.toShape = shape ∧
      shape.stringTableEntries = [[97, 98], [99, 100], [98, 99, 100], []] := by
  obtain ⟨f, hparse, hcheck⟩ := Loop.exists_of_okAnd
    (x := parse checkedBoundCount sampleStringsBuffer)
    (p := fun f => f.toShape.stringTableEntries = [[97, 98], [99, 100], [98, 99, 100], []])
    (by decide +kernel)
  obtain ⟨shape, horacle, heq⟩ := parse_refines_naiveParseHbc hparse
  refine ⟨f, shape, hparse, horacle, heq, ?_⟩
  rw [← heq]
  simpa using hcheck

end Hermes
