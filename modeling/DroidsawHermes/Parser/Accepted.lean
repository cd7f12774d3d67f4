-- SUMMARY: What an accepted file is: the trace of its parse, and the layout facts that every later result starts from.
import DroidsawHermes.Parser.Sections
import DroidsawHermes.Parser.Validate

/-!
# Accepted files

`parse` succeeds exactly when there is a trace of it: a header, a finished walk,
a debug-info record and the marks, with the file built from them.
-/

open Bytes

namespace Hermes

/-- The file that the walk and the selection give, before the marks are set. -/
def selectedFile (buf : List UInt8) (header : HbcHeader) (w : SectionWalk)
    (dbg : Option DebugInfoV96) : HbcFile :=
  (buildFile buf header w dbg).selectV98LargeHeaderLayout

/-- A run of `parse` on `buf` that ends with `f`. -/
structure ParseTrace (boundCount : BoundCount) (buf : List UInt8) (f : HbcFile)
    (w : SectionWalk) (dbg : Option DebugInfoV96) : Prop where
  header_ok : parseHbcHeader buf = .ok f.header
  overflow_le : f.header.overflowStringCount ≤ f.header.stringCount
  gates_ok : checkCountGates boundCount buf.length (countGates f.header) = .ok ()
  walk_ok : walkSections f.header buf.length = .ok w
  debug_ok : debugInfoV96Parse buf f.header.debugInfoOffset f.header.version = .ok dbg
  file_eq : f = { selectedFile buf f.header w dbg with
    unrecognizedFunctions := f.unrecognizedFunctions }
  validated : f.validateFunctionRegions = .ok f.unrecognizedFunctions

theorem parseInner_eq_ok {boundCount : BoundCount} {buf : List UInt8} {f : HbcFile} :
    parseInner boundCount buf = .ok f ↔ ∃ header w dbg,
      parseHbcHeader buf = .ok header ∧
      header.overflowStringCount ≤ header.stringCount ∧
      checkCountGates boundCount buf.length (countGates header) = .ok () ∧
      walkSections header buf.length = .ok w ∧
      debugInfoV96Parse buf header.debugInfoOffset header.version = .ok dbg ∧
      f = buildFile buf header w dbg := by
  simp only [parseInner, Loop.bind_eq_ok]
  constructor
  · rintro ⟨header, hheader, h⟩
    split at h
    · cases h
    · rename_i hover
      simp only [Loop.bind_eq_ok] at h
      obtain ⟨_, hgates, w, hwalk, dbg, hdbg, hf⟩ := h
      cases hf
      exact ⟨header, w, dbg, hheader, by omega, hgates, hwalk, hdbg, rfl⟩
  · rintro ⟨header, w, dbg, hheader, hover, hgates, hwalk, hdbg, rfl⟩
    refine ⟨header, hheader, ?_⟩
    rw [if_neg (Nat.not_lt.mpr hover)]
    simp only [Loop.bind_eq_ok]
    exact ⟨(), hgates, w, hwalk, dbg, hdbg, rfl⟩

/-- The marks take no part in the validation. -/
theorem HbcFile.validateFunctionRegions_marks (f : HbcFile) (marks : List UnrecognizedFunction) :
    { f with unrecognizedFunctions := marks }.validateFunctionRegions =
      f.validateFunctionRegions := rfl

theorem parse_eq_ok {boundCount : BoundCount} {buf : List UInt8} {f : HbcFile} :
    parse boundCount buf = .ok f ↔ ∃ w dbg, ParseTrace boundCount buf f w dbg := by
  simp only [parse, Loop.bind_eq_ok]
  constructor
  · rintro ⟨base, hbase, marks, hmarks, hf⟩
    obtain ⟨header, w, dbg, hheader, hover, hgates, hwalk, hdbg, rfl⟩ := parseInner_eq_ok.mp hbase
    cases hf
    exact ⟨w, dbg, hheader, hover, hgates, hwalk, hdbg, rfl, hmarks⟩
  · rintro ⟨w, dbg, t⟩
    have hbase := parseInner_eq_ok.mpr
      ⟨f.header, w, dbg, t.header_ok, t.overflow_le, t.gates_ok, t.walk_ok, t.debug_ok, rfl⟩
    refine ⟨_, hbase, f.unrecognizedFunctions, ?_, congrArg _ t.file_eq.symm⟩
    have hvalid := t.validated
    rw [t.file_eq, HbcFile.validateFunctionRegions_marks] at hvalid
    exact hvalid

namespace ParseTrace

variable {boundCount : BoundCount} {buf : List UInt8} {f : HbcFile} {w : SectionWalk}
  {dbg : Option DebugInfoV96}

theorem buf_eq (t : ParseTrace boundCount buf f w dbg) : f.buf = buf :=
  congrArg HbcFile.buf t.file_eq

theorem funcHeaders_eq (t : ParseTrace boundCount buf f w dbg) :
    f.funcHeaders = w.span .functionHeaders := congrArg HbcFile.funcHeaders t.file_eq

theorem sections_eq (t : ParseTrace boundCount buf f w dbg) : f.sections = w.sections :=
  congrArg HbcFile.sections t.file_eq

theorem bytecodeRegion_eq (t : ParseTrace boundCount buf f w dbg) :
    f.bytecodeRegion = computeBytecodeRegion w.cursor f.header.debugInfoOffset buf.length :=
  congrArg HbcFile.bytecodeRegion t.file_eq

theorem length_ge (t : ParseTrace boundCount buf f w dbg) : headerSize ≤ buf.length :=
  (parseHbcHeader_eq_ok.mp t.header_ok).1

theorem headerOf (t : ParseTrace boundCount buf f w dbg) : HeaderOf buf f.header :=
  (parseHbcHeader_eq_ok.mp t.header_ok).2.2

theorem done (t : ParseTrace boundCount buf f w dbg) : w.Done f.header buf.length :=
  walkSections_done t.length_ge t.walk_ok

theorem leading (t : ParseTrace boundCount buf f w dbg) : w.Leading f.header :=
  walkSections_leading t.walk_ok

theorem funcHeaders_span (t : ParseTrace boundCount buf f w dbg) :
    f.funcHeaders = ⟨128, f.functionCount * f.funcHeaderSize⟩ := by
  rw [t.funcHeaders_eq, t.leading.functionHeaders]
  rfl

/-- The table of small headers lies inside the buffer. -/
theorem funcHeaders_le (t : ParseTrace boundCount buf f w dbg) :
    128 + f.functionCount * f.funcHeaderSize ≤ f.buf.length := by
  have hmem := (t.done.span_required (sectionPlan_functionHeaders f.header)).1
  have hle := t.done.placed.stop_le_bufLen _ hmem
  rw [← t.funcHeaders_eq, t.funcHeaders_span] at hle
  rw [t.buf_eq]
  exact hle

/-- The entry of every function lies inside the buffer. -/
theorem entry_le (t : ParseTrace boundCount buf f w dbg) {index : Nat}
    (h : index < f.functionCount) : f.entryOff index + f.funcHeaderSize ≤ f.buf.length := by
  have hle := t.funcHeaders_le
  have hmul : (index + 1) * f.funcHeaderSize ≤ f.functionCount * f.funcHeaderSize :=
    Nat.mul_le_mul_right _ h
  rw [Nat.succ_mul] at hmul
  simp only [HbcFile.entryOff, t.funcHeaders_span]
  omega

/-! ## Sections -/

/-- A section that every file has fits the buffer and the 32-bit cursor. -/
theorem required_fits (t : ParseTrace boundCount buf f w dbg) {name : SectionName} {size : Nat}
    (h : ⟨name, size, false⟩ ∈ sectionPlan f.header) :
    (w.span name).size ≤ u32Max ∧ (w.span name).stop ≤ buf.length ∧
      alignedEnd (w.span name) ≤ u32Max := by
  have hmem := (t.done.span_required h).1
  have hfits := t.done.placed.fits _ hmem
  exact ⟨hfits.1, t.done.placed.stop_le_bufLen _ hmem, hfits.2⟩

theorem start_le (t : ParseTrace boundCount buf f w dbg) (name : SectionName) :
    (w.span name).start ≤ u32Max := by
  have hstop := t.done.span_stop_le name
  have hcursor := t.done.placed.cursor_le
  simp only [Span.stop] at hstop
  omega

theorem smallStringTable_eq (t : ParseTrace boundCount buf f w dbg) :
    f.smallStringTable = w.span .smallStringTable := congrArg HbcFile.smallStringTable t.file_eq

theorem overflowStringTable_eq (t : ParseTrace boundCount buf f w dbg) :
    f.overflowStringTable = w.span .overflowStringTable :=
  congrArg HbcFile.overflowStringTable t.file_eq

theorem stringStorage_eq (t : ParseTrace boundCount buf f w dbg) :
    f.stringStorage = w.span .stringStorage := congrArg HbcFile.stringStorage t.file_eq

theorem objShapeTable_eq (t : ParseTrace boundCount buf f w dbg) :
    f.objShapeTable = w.span .objShapeTable := congrArg HbcFile.objShapeTable t.file_eq

theorem regexpTable_eq (t : ParseTrace boundCount buf f w dbg) :
    f.regexpTable = w.span .regExpTable := congrArg HbcFile.regexpTable t.file_eq

theorem bigIntStorage_eq (t : ParseTrace boundCount buf f w dbg) :
    f.bigIntStorage = w.span .bigIntStorage := congrArg HbcFile.bigIntStorage t.file_eq

theorem smallStringTable_size (t : ParseTrace boundCount buf f w dbg) :
    f.smallStringTable.size = f.stringCount * 4 := by
  rw [t.smallStringTable_eq, t.leading.smallStringTable]
  rfl

theorem overflowStringTable_size (t : ParseTrace boundCount buf f w dbg) :
    f.overflowStringTable.size = f.header.overflowStringCount * 8 := by
  rw [t.overflowStringTable_eq, t.leading.overflowStringTable]

/-- A `section_opt!` whose size is 32-bit takes its planned size. -/
theorem optional_size (t : ParseTrace boundCount buf f w dbg) {name : SectionName} {size : Nat}
    (hplan : ⟨name, size, true⟩ ∈ sectionPlan f.header) (hlt : size < 2 ^ 32) :
    (w.span name).size = size := by
  rw [t.done.span_size hplan]
  exact Nat.mod_eq_of_lt hlt

theorem arrayBuffer_size (t : ParseTrace boundCount buf f w dbg) :
    f.arrayBuffer.size = f.header.arrayBufferSize := by
  have hplan : ⟨.arrayBuffer, f.header.arrayBufferSize, true⟩ ∈ sectionPlan f.header := by
    simp [sectionPlan]
  rw [congrArg HbcFile.arrayBuffer t.file_eq]
  exact t.optional_size hplan t.headerOf.arrayBufferSize_lt

theorem objKeyBuffer_size (t : ParseTrace boundCount buf f w dbg) :
    f.objKeyBuffer.size = f.header.objKeyBufferSize := by
  have hplan : ⟨.objKeyBuffer, f.header.objKeyBufferSize, true⟩ ∈ sectionPlan f.header := by
    simp only [sectionPlan]
    cases f.header.layout <;> simp
  rw [congrArg HbcFile.objKeyBuffer t.file_eq]
  exact t.optional_size hplan t.headerOf.objKeyBufferSize_lt

theorem objValueBuffer_size (t : ParseTrace boundCount buf f w dbg)
    (hold : f.header.layout.funcHeaderSize = 16) :
    f.objValueBuffer.size = f.header.objValueBufferSize := by
  have hplan : ⟨.objValueBuffer, f.header.objValueBufferSize, true⟩ ∈ sectionPlan f.header := by
    simp only [sectionPlan]
    cases hl : f.header.layout <;> simp [hl, HeaderLayout.funcHeaderSize] at hold ⊢
  rw [congrArg HbcFile.objValueBuffer t.file_eq]
  exact t.optional_size hplan t.headerOf.objValueBufferSize_lt

/-- Without bigints the storage size of the header is not recorded. -/
theorem bigIntStorage_size (t : ParseTrace boundCount buf f w dbg)
    (hpair : f.header.layout.hasBigIntPair = true) :
    f.bigIntStorage.size =
      if f.header.bigIntCount = 0 then 0 else f.header.bigIntStorageSize := by
  rw [t.bigIntStorage_eq]
  by_cases hzero : f.header.bigIntCount = 0
  · rw [if_pos hzero, t.done.span_absent (by decide)]
    · rfl
    · intro size hmem
      obtain ⟨p, hp, heq⟩ := List.mem_map.mp hmem
      have hplan := List.mem_of_mem_filter hp
      simp only [Prod.mk.injEq] at heq
      obtain ⟨name, psize, optional⟩ := p
      obtain ⟨rfl, -⟩ := heq
      simp only [sectionPlan, hzero] at hplan
      cases hl : f.header.layout <;> simp [hl] at hplan
  · have hpos : 0 < f.header.bigIntCount := Nat.pos_of_ne_zero hzero
    rw [if_neg hzero]
    refine (t.done.span_required ?_).2
    simp [sectionPlan, hpair, hpos]

end ParseTrace

end Hermes
