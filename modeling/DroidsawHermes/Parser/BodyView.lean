-- SUMMARY: What the parser derives from the bytes past the file header: two files with the same body have the same functions, layout and marks.
import DroidsawHermes.Parser.Regions

/-!
# The body view

A file depends on its 128 header bytes through the parsed header alone. The
pointers it follows may lead into those bytes; a function whose pointer does is
marked, and no other read sees them. `SameBody` relates two files that differ
in header bytes only.
-/

open Bytes

namespace Hermes

namespace HbcFile

/-- The same bytes from 128 on, and the same parsed data for the reads there. -/
structure SameBody (f g : HbcFile) : Prop where
  agree : AgreeFrom headerSize f.buf g.buf
  layout : f.header.layout = g.header.layout
  version : f.version = g.version
  functionCount : f.functionCount = g.functionCount
  funcHeaders : f.funcHeaders = g.funcHeaders
  smallStringTable : f.smallStringTable = g.smallStringTable
  overflowStringTable : f.overflowStringTable = g.overflowStringTable
  regexpTable : f.regexpTable = g.regexpTable
  objShapeTable : f.objShapeTable = g.objShapeTable
  bytecodeRegion : f.bytecodeRegion = g.bytecodeRegion
  largeHeaderLayout : f.largeHeaderLayout = g.largeHeaderLayout
  start_ge : headerSize ≤ f.funcHeaders.start

namespace SameBody

variable {f g : HbcFile}

/-! ## Small headers and overlap tests -/

theorem funcHeaderSize (h : f.SameBody g) : f.funcHeaderSize = g.funcHeaderSize := by
  simp only [HbcFile.funcHeaderSize, h.layout]

theorem entryOff (h : f.SameBody g) (i : Nat) : f.entryOff i = g.entryOff i := by
  simp only [HbcFile.entryOff, h.funcHeaders, h.funcHeaderSize]

theorem entryOff_ge (h : f.SameBody g) (i : Nat) : headerSize ≤ f.entryOff i := by
  have hge := h.start_ge
  simp only [HbcFile.entryOff]
  omega

theorem smallEntry (h : f.SameBody g) (i : Nat) : f.smallEntry i = g.smallEntry i := by
  simp only [HbcFile.smallEntry, ← h.entryOff, ← h.funcHeaderSize, h.agree.slice_eq (h.entryOff_ge i)]

theorem smallHeader (h : f.SameBody g) (i : Nat) : f.smallHeader i = g.smallHeader i := by
  simp only [HbcFile.smallHeader, h.layout, h.smallEntry]

theorem largeOff (h : f.SameBody g) (i : Nat) : f.largeOff i = g.largeOff i := by
  simp only [HbcFile.largeOff, h.layout, h.smallEntry, h.smallHeader]

theorem spanOverlapsSynthesized (h : f.SameBody g) (start len : Nat) :
    f.spanOverlapsSynthesized start len = g.spanOverlapsSynthesized start len := by
  simp only [HbcFile.spanOverlapsSynthesized, emitSynthesizedSections, List.any_cons, List.any_nil,
    synthesizedSectionSpanByName, h.funcHeaders, h.smallStringTable, h.overflowStringTable,
    h.regexpTable, h.objShapeTable]

theorem overflowHeaderOverlapsSynthesized (h : f.SameBody g) (largeOff : Nat) :
    f.overflowHeaderOverlapsSynthesized largeOff = g.overflowHeaderOverlapsSynthesized largeOff :=
  h.spanOverlapsSynthesized largeOff largeFunctionHeaderSize

end SameBody

/-- A range that starts in the file header meets what emit recomputes. -/
theorem spanOverlapsSynthesized_header {f : HbcFile} {start len : Nat} (hlen : 0 < len)
    (hstart : start < headerSize) : f.spanOverlapsSynthesized start len = true := by
  have hhit : spansIntersect start len 0 headerSize = true := by
    have hno : ¬ (len = 0 ∨ headerSize = 0) := by
      simp only [headerSize]
      omega
    simp only [spansIntersect, hno, if_false, decide_eq_true_eq]
    simp only [saturatingAddU64, headerSize, u64Max] at hstart ⊢
    omega
  simp only [HbcFile.spanOverlapsSynthesized, hhit, if_true]

/-- A large header that the overlap test lets pass lies past the file header. -/
theorem largeOff_ge_of_not_overlaps {f : HbcFile} {largeOff : Nat}
    (h : ¬ f.overflowHeaderOverlapsSynthesized largeOff = true) : headerSize ≤ largeOff := by
  by_contra hlt
  exact h (spanOverlapsSynthesized_header (by decide) (by omega))

namespace SameBody

variable {f g : HbcFile}

/-! ## Functions -/

theorem largeFunctionData (h : f.SameBody g) {lo : Nat} (hlo : headerSize ≤ lo) (useV99 : Bool)
    (layout : LargeHeaderLayout) (fallback : Nat) :
    Hermes.largeFunctionData f.buf useV99 layout lo fallback =
      Hermes.largeFunctionData g.buf useV99 layout lo fallback := by
  have hbyte : ∀ k, f.buf[lo + k]? = g.buf[lo + k]? := fun k => h.agree.getElem?_eq (by omega)
  simp only [Hermes.largeFunctionData, readU32_congr h.agree hlo, readU32_congr_add h.agree hlo,
    hbyte]

/-- The lenient accessor, where no large header lies in the file header. -/
theorem functionGet (h : f.SameBody g) {i : Nat}
    (hlarge : (f.smallHeader i).overflowed = true →
      overflowHeaderIsOob (f.largeOff i) f.buf.length = false → headerSize ≤ f.largeOff i) :
    f.functionGet i = g.functionGet i := by
  simp only [HbcFile.functionGet, ← h.functionCount, ← h.entryOff, ← h.funcHeaderSize,
    ← h.agree.length_eq, ← h.layout, ← h.smallEntry, ← h.smallHeader, ← h.largeOff,
    ← h.largeHeaderLayout]
  split
  · rfl
  split
  · rfl
  split
  · rename_i hover
    by_cases hoob : overflowHeaderIsOob (f.largeOff i) f.buf.length = true
    · simp [hoob]
    · have hge := hlarge hover (by simpa using hoob)
      simp only [h.largeFunctionData hge]
  · rfl

/-- The strict accessor never reads a large header in the file header. -/
theorem functionGetChecked (h : f.SameBody g) (i : Nat) :
    f.functionGetChecked i = g.functionGetChecked i := by
  simp only [HbcFile.functionGetChecked, ← h.functionCount, ← h.entryOff, ← h.funcHeaderSize,
    ← h.agree.length_eq, ← h.smallHeader, ← h.largeOff, ← h.largeHeaderLayout,
    ← h.overflowHeaderOverlapsSynthesized]
  split
  · rfl
  split
  · rfl
  split
  · rename_i hover
    rw [h.functionGet fun hyes => by simp [hyes] at hover]
  split
  · rfl
  split
  · rfl
  rename_i hover
  have hge := largeOff_ge_of_not_overlaps hover
  rw [h.functionGet fun _ _ => hge]

theorem functionGet_of_checked (h : f.SameBody g) {i : Nat} {d : FunctionData}
    (hd : f.functionGetChecked i = .ok d) : f.functionGet i = g.functionGet i := by
  have hd' := hd
  rw [h.functionGetChecked] at hd'
  rw [← functionGetChecked_ok hd, ← functionGetChecked_ok hd']

/-! ## Exception tables -/

theorem getExcTableOffset (h : f.SameBody g) {i : Nat} (hget : f.functionGet i = g.functionGet i) :
    f.getExcTableOffset i = g.getExcTableOffset i := by
  simp only [HbcFile.getExcTableOffset, h.entryOff, h.funcHeaderSize, h.agree.length_eq, h.layout,
    h.smallEntry, h.smallHeader, h.largeOff, h.largeHeaderLayout, hget]

theorem excTableCountCapped (h : f.SameBody g) {off : Nat} (hoff : headerSize ≤ off) :
    f.excTableCountCapped off = g.excTableCountCapped off := by
  simp only [HbcFile.excTableCountCapped, h.agree.length_eq, readU32_congr h.agree hoff]

/-- A table in the file header is refused whatever its count word says. -/
theorem excTableOverlapsSynthesized (h : f.SameBody g) {i : Nat}
    (hget : f.functionGet i = g.functionGet i) :
    f.excTableOverlapsSynthesized i = g.excTableOverlapsSynthesized i := by
  simp only [HbcFile.excTableOverlapsSynthesized, ← hget, ← h.getExcTableOffset hget,
    ← h.spanOverlapsSynthesized]
  split
  · rfl
  by_cases hoff : headerSize ≤ f.getExcTableOffset i
  · rw [h.excTableCountCapped hoff]
  · rw [spanOverlapsSynthesized_header (by omega) (by omega),
      spanOverlapsSynthesized_header (by omega) (by omega)]

/-- The table of a function that passes the overlap test lies past the file header. -/
theorem excTable_ge {f : HbcFile} {i : Nat} (hover : f.excTableOverlapsSynthesized i = none)
    (hexc : hasExceptionHandler (f.functionGet i) = true) :
    headerSize ≤ f.getExcTableOffset i := by
  by_contra hlt
  simp only [HbcFile.excTableOverlapsSynthesized, hexc, Bool.not_true, Bool.false_eq_true, if_false,
    spanOverlapsSynthesized_header (f := f) (Nat.succ_pos _) (Nat.not_le.mp hlt), if_true] at hover
  cases hover

/-! ## Validation -/

theorem pass1 (h : f.SameBody g) : f.pass1 = g.pass1 := by
  simp only [HbcFile.pass1, ← h.functionCount]
  apply Loop.forRange_congr
  intro s i _
  simp only [pass1Step, ← h.functionGetChecked]
  cases hd : f.functionGetChecked i with
  | error e => cases e <;> rfl
  | ok d =>
    have hget := h.functionGet_of_checked hd
    simp only [← h.excTableOverlapsSynthesized hget, checkBodyRegion, h.bytecodeRegion]

theorem functionExceptionGet (h : f.SameBody g) {i : Nat} (ht : f.Trusted i)
    (hexc : hasExceptionHandler (f.functionGet i) = true) (k : Nat) :
    f.functionExceptionGet i k = g.functionExceptionGet i k := by
  have hge := excTable_ge ht.table hexc
  have hread : ∀ m, readU32 f.buf (f.getExcTableOffset i + m) =
      readU32 g.buf (f.getExcTableOffset i + m) := readU32_congr_add h.agree hge
  simp only [HbcFile.functionExceptionGet,
    ← h.getExcTableOffset (h.functionGet_of_checked ht.checked), ← h.agree.length_eq,
    readU32_congr h.agree hge, Nat.add_assoc, hread]

theorem functionExceptionCount (h : f.SameBody g) {i : Nat} (ht : f.Trusted i) :
    f.functionExceptionCount i = g.functionExceptionCount i := by
  have hget := h.functionGet_of_checked ht.checked
  by_cases hexc : hasExceptionHandler (f.functionGet i) = true
  · simp only [HbcFile.functionExceptionCount, ← h.functionCount, ← hget,
      ← h.getExcTableOffset hget, ← h.agree.length_eq,
      readU32_congr h.agree (excTable_ge ht.table hexc)]
  · simp [HbcFile.functionExceptionCount, ← hget, hexc]

/-- A function without the flag has no handlers to read. -/
theorem hasExceptionHandler_of_pos {f : HbcFile} {i k : Nat} (hk : k < f.functionExceptionCount i) :
    hasExceptionHandler (f.functionGet i) = true := by
  by_contra hno
  simp only [Bool.not_eq_true] at hno
  simp [HbcFile.functionExceptionCount, hno] at hk

theorem handlersInRange (h : f.SameBody g) {i : Nat} (ht : f.Trusted i)
    (hin : f.HandlersInRange i) : g.HandlersInRange i := by
  intro k hk
  rw [← h.functionExceptionCount ht] at hk
  rw [← h.functionExceptionGet ht (hasExceptionHandler_of_pos hk),
    ← h.functionGet_of_checked ht.checked]
  exact hin k hk

/-- A file without marks, seen through another header, has no marks either. -/
theorem validateFunctionRegions (h : f.SameBody g)
    (hentry : ∀ i < f.functionCount, f.entryOff i + f.funcHeaderSize ≤ f.buf.length)
    (hvalid : f.validateFunctionRegions = .ok []) : g.validateFunctionRegions = .ok [] := by
  have hall := validated_of_ok hentry hvalid
  have htrust : ∀ i < f.functionCount, f.Trusted i ∧ f.HandlersInRange i := by
    intro i hi
    by_contra hnot
    obtain ⟨u, hu, -⟩ := (hall.marks_iff i).mpr ⟨hi, hnot⟩
    cases hu
  simp only [HbcFile.validateFunctionRegions, Loop.bind_eq_ok] at hvalid ⊢
  obtain ⟨s, hpass1, dedups, hpass2, _, hdedups, marks, hpass3, hmerge⟩ := hvalid
  refine ⟨s, by rw [← h.pass1]; exact hpass1, dedups, hpass2, (), hdedups, marks, ?_, hmerge⟩
  rw [← hpass3, HbcFile.pass3, HbcFile.pass3, ← h.functionCount]
  apply Loop.forRange_congr
  intro t i hi
  obtain ⟨ht, hin⟩ := htrust i hi
  have hget := h.functionGet_of_checked ht.checked
  have hchecked := ht.checked
  have hchecked' := hchecked
  rw [h.functionGetChecked, hget] at hchecked'
  have hbad := firstBadHandler_eq_none.mpr hin
  have hbad' := firstBadHandler_eq_none.mpr (h.handlersInRange ht hin)
  simp only [pass3Step, hchecked, hchecked', hbad, hbad']

/-! ## Layout selection -/

end SameBody

end HbcFile

theorem summarizeTriples_congr {a b : List UInt8} (hab : AgreeFrom headerSize a b) {countEnd : Nat}
    (hge : headerSize ≤ countEnd) (n : Nat) : ∀ hIdx required budget,
      summarizeTriples a countEnd n hIdx required budget =
        summarizeTriples b countEnd n hIdx required budget := by
  induction n with
  | zero =>
    intro hIdx required budget
    rfl
  | succ n ih =>
    intro hIdx required budget
    have hread : ∀ k, readU32 a (countEnd + k) = readU32 b (countEnd + k) :=
      readU32_congr_add hab hge
    simp only [summarizeTriples, Nat.add_assoc, hread, ih]

/-- A position past the file header stays there under the additions of the selection. -/
theorem le_saturatingAddU64 {pos k : Nat} (h : headerSize ≤ pos) :
    headerSize ≤ saturatingAddU64 pos k := by
  simp only [saturatingAddU64, headerSize, u64Max] at *
  omega

theorem le_align4U64_of_le {pos : Nat} (h : headerSize ≤ pos) : headerSize ≤ align4U64 pos := by
  simp only [align4U64, saturatingAddU64, headerSize, u64Max] at *
  omega

namespace HbcFile

namespace SameBody

variable {f g : HbcFile}

theorem excTableSummaryUncached (h : f.SameBody g) {table : Nat} (hge : headerSize ≤ table)
    (budget : Nat) :
    f.excTableSummaryUncached table budget = g.excTableSummaryUncached table budget := by
  have hge' : headerSize ≤ table + 4 := by omega
  simp only [HbcFile.excTableSummaryUncached, ← h.agree.length_eq, readU32_congr h.agree hge,
    summarizeTriples_congr h.agree hge']

theorem excTableSummary (h : f.SameBody g) {table : Nat} (hge : headerSize ≤ table)
    (scratch : SelectionScratch) :
    f.excTableSummary table scratch = g.excTableSummary table scratch := by
  simp only [HbcFile.excTableSummary, h.excTableSummaryUncached hge]

theorem byteAtU64 (h : f.SameBody g) {pos : Nat} (hge : headerSize ≤ pos) :
    f.byteAtU64 pos = g.byteAtU64 pos := h.agree.getElem?_eq hge

theorem largeHeaderShapeViolation (h : f.SameBody g) {largeOff : Nat}
    (hge : headerSize ≤ largeOff) (shape : LargeHeaderLayout) (scratch : SelectionScratch) :
    f.largeHeaderShapeViolation largeOff shape scratch =
      g.largeHeaderShapeViolation largeOff shape scratch := by
  simp only [HbcFile.largeHeaderShapeViolation, h.byteAtU64 (le_saturatingAddU64 hge),
    readU32_congr_add h.agree hge, h.excTableSummary (le_align4U64_of_le (le_saturatingAddU64 hge))]

theorem largeHeaderShapesDecodeEqual (h : f.SameBody g) {largeOff : Nat}
    (hge : headerSize ≤ largeOff) (scratch : SelectionScratch) :
    f.largeHeaderShapesDecodeEqual largeOff scratch =
      g.largeHeaderShapesDecodeEqual largeOff scratch := by
  have htable : ∀ k, headerSize ≤ align4U64 (saturatingAddU64 largeOff k) := fun _ =>
    le_align4U64_of_le (le_saturatingAddU64 hge)
  simp only [HbcFile.largeHeaderShapesDecodeEqual, h.byteAtU64 (le_saturatingAddU64 hge),
    readU32_congr h.agree (htable _), h.agree.get?_eq (htable _)]

theorem scoreLargeHeader (h : f.SameBody g) {largeOff : Nat} (hge : headerSize ≤ largeOff)
    (scratch : SelectionScratch) :
    f.scoreLargeHeader largeOff scratch = g.scoreLargeHeader largeOff scratch := by
  simp only [HbcFile.scoreLargeHeader, h.largeHeaderShapeViolation hge,
    h.largeHeaderShapesDecodeEqual hge]

theorem overflowedLargeOffV98late (h : f.SameBody g) (i : Nat) :
    f.overflowedLargeOffV98late i = g.overflowedLargeOffV98late i := by
  simp only [HbcFile.overflowedLargeOffV98late, ← h.entryOff, ← h.funcHeaderSize,
    h.agree.get?_eq (h.entryOff_ge i)]

/-- The population is scored on large headers past the file header only. -/
theorem scorePopulation (h : f.SameBody g) (indices : List Nat) : ∀ tally scratch,
    f.scorePopulation indices tally scratch = g.scorePopulation indices tally scratch := by
  induction indices with
  | nil =>
    intro tally scratch
    rfl
  | cons i rest ih =>
    intro tally scratch
    simp only [HbcFile.scorePopulation, ← h.overflowedLargeOffV98late, ← h.agree.length_eq,
      ← h.overflowHeaderOverlapsSynthesized, ih]
    cases f.overflowedLargeOffV98late i with
    | none => rfl
    | some largeOff =>
      by_cases hover : f.overflowHeaderOverlapsSynthesized largeOff = true
      · simp only [hover, Bool.or_true, if_true]
      · simp only [h.scoreLargeHeader (largeOff_ge_of_not_overlaps hover)]

theorem selectedLargeHeaderLayout (h : f.SameBody g) :
    f.selectedLargeHeaderLayout = g.selectedLargeHeaderLayout := by
  simp only [HbcFile.selectedLargeHeaderLayout, ← h.layout, ← h.version, ← h.largeHeaderLayout,
    ← h.functionCount, ← h.agree.length_eq, ← h.scorePopulation]

theorem selectV98LargeHeaderLayout (h : f.SameBody g) :
    f.selectV98LargeHeaderLayout.SameBody g.selectV98LargeHeaderLayout :=
  { agree := h.agree
    layout := h.layout
    version := h.version
    functionCount := h.functionCount
    funcHeaders := h.funcHeaders
    smallStringTable := h.smallStringTable
    overflowStringTable := h.overflowStringTable
    regexpTable := h.regexpTable
    objShapeTable := h.objShapeTable
    bytecodeRegion := h.bytecodeRegion
    largeHeaderLayout := h.selectedLargeHeaderLayout
    start_ge := h.start_ge }

end SameBody

end HbcFile

end Hermes
