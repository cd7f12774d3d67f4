-- SUMMARY: In an accepted v98 late-form file with a selected layout, the accessors read the exception tables that the selection certified.
import DroidsawHermes.Parser.LayoutChoice

/-!
# The selection and the readers

The selection walks a candidate table at 64-bit positions and keeps a required
function size. The accessors find flags, size and table position again, narrow
the position to 32 bits and read one handler at a time. On an eligible large
header both see the same table.
-/

open Bytes

namespace Hermes

/-! ## What a selected layout certifies -/

/-- The bit that `function_exception_count` tests survives the packing. -/
theorem packFlags_hasExceptionHandler :
    ∀ raw < 256, (packFlags raw >>> 3) &&& 1 = (raw >>> 3) &&& 1 := by
  decide +kernel

namespace LayoutSpec

variable {buf : List UInt8} {shape : LargeHeaderLayout} {offs : Finset Nat} {off : Nat}

/-- The selected shape is violated nowhere, within the budget. -/
theorem layout_eq_some (h : layout buf offs = some shape) :
    work buf offs ≤ selectionTripleBudget buf.length ∧ ∀ off ∈ offs, ¬ Violates buf shape off := by
  classical
  simp only [layout] at h
  by_cases hwork : work buf offs ≤ selectionTripleBudget buf.length
  · refine ⟨hwork, ?_⟩
    rw [if_pos hwork] at h
    split at h
    · next h36 =>
      cases h
      exact h36.1
    · split at h
      · next h40 =>
        cases h
        exact h40.1
      · cases h
  · rw [if_neg hwork] at h
    cases h

theorem readsTable_mem_tables (h : ReadsTable buf shape off) :
    tablePos shape off ∈ tables buf off := by
  classical
  rw [tables, Finset.mem_union]
  cases shape with
  | shape36 => exact Or.inl (by rw [if_pos h]; exact Finset.mem_singleton_self _)
  | shape40 => exact Or.inr (by rw [if_pos h]; exact Finset.mem_singleton_self _)

/-- The walk over one candidate table is part of the work. -/
theorem tableWork_le_work {table : Nat} (hoff : off ∈ offs) (htable : table ∈ tables buf off) :
    tableWork buf table ≤ work buf offs := by
  have hmem : table ∈ offs.biUnion (tables buf) := Finset.mem_biUnion.mpr ⟨off, hoff, htable⟩
  have hsingle : tableWork buf table ≤ ∑ t ∈ offs.biUnion (tables buf), tableWork buf t :=
    Finset.single_le_sum (f := tableWork buf) (fun _ _ => Nat.zero_le _) hmem
  rw [work]
  omega

end LayoutSpec

/-! ## Eligible functions -/

/-- An overflowed function with a large header in bounds and clear of the regions
that emit recomputes. -/
structure HbcFile.EligibleFunction (f : HbcFile) (i : Nat) : Prop where
  lt : i < f.functionCount
  overflowed : (f.smallHeader i).overflowed = true
  inBounds : overflowHeaderIsOob (f.largeOff i) f.buf.length = false
  clear : f.overflowHeaderOverlapsSynthesized (f.largeOff i) = false

/-- The accessors read the table that the selection walked: at its position, with
its count and its triples, for a function size that its summary admits. -/
structure HbcFile.ReadsCertified (f : HbcFile) (i table : Nat) : Prop where
  position : f.getExcTableOffset i = table
  certified : ∃ required budget,
    f.excTableSummaryUncached table (selectionTripleBudget f.buf.length) =
      some (some required, budget) ∧ required ≤ (f.functionGet i).size
  count : f.functionExceptionCount i = readU32 f.buf table
  handlers : ∀ h < readU32 f.buf table, f.functionExceptionGet i h =
    ⟨readU32 f.buf (table + 4 + h * 12), readU32 f.buf (table + 4 + h * 12 + 4),
      readU32 f.buf (table + 4 + h * 12 + 8)⟩

namespace HbcFile

variable {f : HbcFile} {i : Nat} {shape : LargeHeaderLayout}

/-- The large-header offset is the one that the selection composes. -/
theorem composedOff_eq (hlayout : f.header.layout = .v98LateToV99)
    (hentry : 11 < (f.smallEntry i).length) (hover : (f.smallHeader i).overflowed = true) :
    composedOff (f.smallEntry i) = some (f.largeOff i) := by
  have hbyte : (f.smallEntry i)[11]? = some ((f.smallEntry i).getD 11 0) := by
    rw [List.getD_eq_getElem _ _ hentry, List.getElem?_eq_getElem hentry]
  simp only [smallHeader, hlayout, readSmallHeader, SmallHeader.overflowed, ne_eq,
    decide_not, Bool.not_eq_true', decide_eq_false_iff_not] at hover
  simp only [composedOff, hbyte, hover, if_false, largeOff, composeLargeOff, hlayout, smallHeader,
    readSmallHeader]

theorem EligibleFunction.largeOff_add_le (h : f.EligibleFunction i) :
    f.largeOff i + largeFunctionHeaderSize ≤ u64Max ∧
      f.largeOff i + largeFunctionHeaderSize ≤ f.buf.length := by
  have := h.inBounds
  simp only [overflowHeaderIsOob, decide_eq_false_iff_not, not_or, Nat.not_lt] at this
  exact this

/-- The metadata of an eligible function is that of its large header. -/
theorem EligibleFunction.functionGet_eq (h : f.EligibleFunction i)
    (hentry : f.entryOff i + f.funcHeaderSize ≤ f.buf.length)
    (hlayout : f.header.layout = .v98LateToV99) (hshape : f.largeHeaderLayout = some shape) :
    ∃ fallback, f.functionGet i = largeFunctionData f.buf true shape (f.largeOff i) fallback := by
  have hlt := h.lt
  simp only [functionGet, show ¬ i ≥ f.functionCount by omega,
    show ¬ f.entryOff i + f.funcHeaderSize > f.buf.length by omega, if_false, h.overflowed,
    h.inBounds, hshape, if_true, Bool.not_false]
  rw [hlayout]
  exact ⟨_, rfl⟩

/-- The flags byte of an eligible function is the one that the selection tests. -/
theorem EligibleFunction.flags (h : f.EligibleFunction i)
    (hentry : f.entryOff i + f.funcHeaderSize ≤ f.buf.length)
    (hlayout : f.header.layout = .v98LateToV99) (hshape : f.largeHeaderLayout = some shape) :
    ∃ flags, LayoutSpec.flags? f.buf shape (f.largeOff i) = some flags ∧
      (hasExceptionHandler (f.functionGet i) = true ↔ (flags.toNat >>> 3) &&& 1 ≠ 0) := by
  obtain ⟨hmax, hlen⟩ := h.largeOff_add_le
  obtain ⟨fallback, hget⟩ := h.functionGet_eq hentry hlayout hshape
  have hpos : f.largeOff i + shape.flagsOffset < f.buf.length := by
    simp only [largeFunctionHeaderSize] at hlen
    cases shape <;> simp only [LargeHeaderLayout.flagsOffset] <;> omega
  have hsum : saturatingAddU64 (f.largeOff i) shape.flagsOffset =
      f.largeOff i + shape.flagsOffset := by
    simp only [largeFunctionHeaderSize] at hmax
    simp only [saturatingAddU64]
    cases shape <;> simp only [LargeHeaderLayout.flagsOffset] <;> omega
  have hbyte := List.getElem?_eq_getElem hpos
  refine ⟨f.buf[f.largeOff i + shape.flagsOffset], by rw [LayoutSpec.flags?, hsum, hbyte], ?_⟩
  have hflags : (f.functionGet i).flags =
      packFlags (f.buf[f.largeOff i + shape.flagsOffset]).toNat := by
    rw [hget]
    cases shape with
    | shape36 =>
      simp only [LargeHeaderLayout.flagsOffset] at hbyte
      simp only [largeFunctionData, if_true, reduceCtorEq, if_false, LargeHeaderLayout.flagsOffset,
        Nat.reduceAdd, hbyte]
    | shape40 =>
      simp only [LargeHeaderLayout.flagsOffset] at hbyte
      simp only [largeFunctionData, if_true, LargeHeaderLayout.flagsOffset, Nat.reduceAdd, hbyte]
  have hlt : (f.buf[f.largeOff i + shape.flagsOffset]).toNat < 256 := UInt8.toNat_lt _
  simp only [hasExceptionHandler, hflags, packFlags_hasExceptionHandler _ hlt, ne_eq, decide_not,
    Bool.not_eq_true', decide_eq_false_iff_not]

theorem EligibleFunction.size (h : f.EligibleFunction i)
    (hentry : f.entryOff i + f.funcHeaderSize ≤ f.buf.length)
    (hlayout : f.header.layout = .v98LateToV99) (hshape : f.largeHeaderLayout = some shape) :
    (f.functionGet i).size = readU32 f.buf (f.largeOff i + 12) := by
  obtain ⟨fallback, hget⟩ := h.functionGet_eq hentry hlayout hshape
  rw [hget]
  rfl

theorem EligibleFunction.tablePos_eq (h : f.EligibleFunction i) (shape : LargeHeaderLayout) :
    LayoutSpec.tablePos shape (f.largeOff i) = align4U64 (f.largeOff i + shape.headerSize) := by
  obtain ⟨hmax, -⟩ := h.largeOff_add_le
  have hsum : saturatingAddU64 (f.largeOff i) shape.headerSize =
      f.largeOff i + shape.headerSize := by
    simp only [largeFunctionHeaderSize] at hmax
    simp only [saturatingAddU64]
    cases shape <;> simp only [LargeHeaderLayout.headerSize] <;> omega
  rw [LayoutSpec.tablePos, hsum]

/-- The 32-bit position of the accessors is the candidate table. -/
theorem EligibleFunction.getExcTableOffset_eq (h : f.EligibleFunction i)
    (hentry : f.entryOff i + f.funcHeaderSize ≤ f.buf.length)
    (hlayout : f.header.layout = .v98LateToV99) (hshape : f.largeHeaderLayout = some shape)
    (hmax : LayoutSpec.tablePos shape (f.largeOff i) ≤ u32Max) :
    f.getExcTableOffset i = LayoutSpec.tablePos shape (f.largeOff i) := by
  obtain ⟨-, hlen⟩ := h.largeOff_add_le
  have hheader : ¬ f.largeOff i + shape.headerSize > f.buf.length := by
    simp only [largeFunctionHeaderSize] at hlen
    cases shape <;> simp only [LargeHeaderLayout.headerSize] <;> omega
  rw [h.tablePos_eq] at hmax ⊢
  simp only [getExcTableOffset, show ¬ f.entryOff i + f.funcHeaderSize > f.buf.length by omega,
    if_false, hlayout, h.overflowed, if_true, hshape, hheader, narrowAlign4,
    show ¬ align4U64 (f.largeOff i + shape.headerSize) > u32Max by omega]

/-- A valid candidate table is what the accessors read. -/
theorem EligibleFunction.readsCertified (h : f.EligibleFunction i)
    (hentry : f.entryOff i + f.funcHeaderSize ≤ f.buf.length)
    (hlayout : f.header.layout = .v98LateToV99) (hshape : f.largeHeaderLayout = some shape)
    (hexc : hasExceptionHandler (f.functionGet i) = true)
    (hvalid : LayoutSpec.TableValid f.buf (LayoutSpec.tablePos shape (f.largeOff i))
      (f.functionGet i).size)
    (hwork : LayoutSpec.tableWork f.buf (LayoutSpec.tablePos shape (f.largeOff i)) ≤
      selectionTripleBudget f.buf.length) :
    f.ReadsCertified i (align4U64 (f.largeOff i + shape.headerSize)) := by
  rw [← h.tablePos_eq]
  obtain ⟨hmax, hword, hcap, hspan⟩ := hvalid.1
  have hposition := h.getExcTableOffset_eq hentry hlayout hshape hmax
  have hsize : (f.functionGet i).size ≤ u32Max := by
    rw [h.size hentry hlayout hshape]
    exact readU32_le_u32Max _ _
  obtain ⟨-, hsummary⟩ := LayoutSpec.excTableSummaryUncached_spec f
    (LayoutSpec.tablePos shape (f.largeOff i)) (selectionTripleBudget f.buf.length)
  obtain ⟨summary, hrun, hsummarizes⟩ := hsummary hwork
  obtain ⟨required, rfl, hrequired⟩ := (hsummarizes _ hsize).mpr hvalid
  simp only [LayoutSpec.count] at hcap hspan
  have hlt := h.lt
  refine ⟨hposition, ⟨required, _, hrun, hrequired⟩, ?_, ?_⟩
  · simp only [functionExceptionCount, show ¬ i ≥ f.functionCount by omega, if_false, hexc,
      Bool.not_true, Bool.false_eq_true, hposition, exceptionCountIsCapped, decide_eq_true_eq]
    rw [if_neg (by omega), if_neg (by omega)]
  · intro handler hhandler
    simp only [functionExceptionGet, hposition]
    rw [if_neg (by omega), if_neg (by omega), if_neg (by omega), if_neg (by omega)]

theorem ReadsCertified.handlersInRange {table : Nat} (h : f.ReadsCertified i table)
    (hvalid : LayoutSpec.TableValid f.buf table (f.functionGet i).size) :
    f.HandlersInRange i := by
  intro handler hhandler
  rw [h.count] at hhandler
  rw [h.handlers handler hhandler, handlerInRange, decide_eq_true_eq]
  exact hvalid.2 handler hhandler

/-! ## The reasons of the marks -/

end HbcFile

/-- The reason that Pass 3 gives. -/
def UnrecognizedReason.IsHandlerOutOfRange : UnrecognizedReason → Prop
  | .exceptionHandlerOutOfFunctionRange .. => True
  | _ => False

namespace HbcFile

variable {f : HbcFile}

/-- Pass 1 never blames a handler. -/
theorem pass1_reasons {s : Pass1} (h : f.pass1 = .ok s) :
    ∀ u ∈ s.unrecognized, ¬ u.reason.IsHandlerOutOfRange := by
  refine Loop.forRange_invariant
    (fun _ (t : Pass1) => ∀ u ∈ t.unrecognized, ¬ u.reason.IsHandlerOutOfRange) (by simp) ?_ h
  intro k t t' _ hinv hstep
  have hmark : ∀ {idx : Nat} {reason : UnrecognizedReason}, ¬ reason.IsHandlerOutOfRange →
      ∀ u ∈ (t.mark idx reason).unrecognized, ¬ u.reason.IsHandlerOutOfRange := by
    intro idx reason hreason u hu
    rcases List.mem_append.mp hu with hu | hu
    · exact hinv u hu
    · rw [List.mem_singleton.mp hu]
      exact hreason
  simp only [pass1Step] at hstep
  split at hstep
  · cases hstep
    exact hmark id
  · cases hstep
    exact hmark id
  · cases hstep
    exact hmark id
  · cases hstep
  · split at hstep
    · cases hstep
      exact hmark id
    · simp only [checkBodyRegion] at hstep
      split at hstep
      · cases hstep
        exact hinv
      · split at hstep
        · cases hstep
        · split at hstep
          · cases hstep
          · cases hstep
            exact hinv

/-- A function that is marked for a handler has one out of range. -/
theorem not_handlersInRange_of_reason {marks : List UnrecognizedFunction}
    (hentry : ∀ i < f.functionCount, f.entryOff i + f.funcHeaderSize ≤ f.buf.length)
    (h : f.validateFunctionRegions = .ok marks) :
    ∀ u ∈ marks, u.reason.IsHandlerOutOfRange → ¬ f.HandlersInRange u.funcIdx := by
  simp only [validateFunctionRegions, Loop.bind_eq_ok] at h
  obtain ⟨s, hpass1, dedups, -, _, -, marks3, hpass3, hmerge⟩ := h
  cases hmerge
  have h1 := pass1_inv hentry hpass1
  have h3 := pass3_inv h1.strict h1.marks hpass3
  intro u hu hreason
  rw [mergeSortedUnrecognized, Sorted.mem_mergeBy] at hu
  rcases hu with hu | hu
  · exact absurd hreason (pass1_reasons hpass1 u hu)
  · exact ((h3.marks u.funcIdx).mp ⟨u, hu, rfl⟩).2.2

end HbcFile

/-! ## Accepted files -/

/-- Where the selection of an accepted v98 late-form file picked a layout, no
eligible function is marked for a handler out of range, and one with a handler
reads the table that the selection certified. -/
theorem parse_layoutReaders {boundCount : BoundCount} {buf : List UInt8} {f : HbcFile} {i : Nat}
    {shape : LargeHeaderLayout} (h : parse boundCount buf = .ok f) (hlate : f.IsV98Late)
    (hshape : f.largeHeaderLayout = some shape) (hi : f.EligibleFunction i) :
    (∀ u ∈ f.unrecognizedFunctions, u.funcIdx = i → ¬ u.reason.IsHandlerOutOfRange) ∧
    (hasExceptionHandler (f.functionGet i) = true →
      f.ReadsCertified i (align4U64 (f.largeOff i + shape.headerSize))) := by
  obtain ⟨w, dbg, t⟩ := parse_eq_ok.mp h
  have hentry := t.entry_le hi.lt
  have hsmall : 11 < (f.smallEntry i).length := by
    have hstride : f.funcHeaderSize = 12 := by rw [HbcFile.funcHeaderSize, hlate.1]; rfl
    rw [HbcFile.smallEntry, length_slice hentry]
    omega
  have hlayout := t.largeHeaderLayout_eq hlate
  rw [hshape, ← t.buf_eq] at hlayout
  obtain ⟨hwork, hclean⟩ := LayoutSpec.layout_eq_some hlayout.symm
  have hoff : f.largeOff i ∈ f.eligibleOffsets := by
    refine HbcFile.mem_eligibleOffsets.mpr ⟨⟨i, hi.lt, ?_⟩, hi.inBounds, hi.clear⟩
    rw [t.overflowedLargeOff_eq hi.lt]
    exact HbcFile.composedOff_eq hlate.1 hsmall hi.overflowed
  obtain ⟨flags, hflags, hexc⟩ := hi.flags hentry hlate.1 hshape
  have hclean := hclean _ hoff
  simp only [LayoutSpec.Violates, hflags, Option.some.injEq, forall_eq', not_or, not_and,
    not_not] at hclean
  obtain ⟨hinvoke, hbit, htable⟩ := hclean
  rw [← hi.size hentry hlate.1 hshape] at htable
  have hreads : hasExceptionHandler (f.functionGet i) = true →
      f.ReadsCertified i (align4U64 (f.largeOff i + shape.headerSize)) := by
    intro hset
    refine hi.readsCertified hentry hlate.1 hshape hset (htable (hexc.mp hset)) ?_
    have hmem : LayoutSpec.tablePos shape (f.largeOff i) ∈
        LayoutSpec.tables f.buf (f.largeOff i) :=
      LayoutSpec.readsTable_mem_tables ⟨flags, hflags, hinvoke, hbit, hexc.mp hset⟩
    exact (LayoutSpec.tableWork_le_work hoff hmem).trans hwork
  refine ⟨?_, hreads⟩
  rintro u hu rfl hreason
  refine HbcFile.not_handlersInRange_of_reason (fun _ => t.entry_le) t.validated u hu hreason ?_
  by_cases hset : hasExceptionHandler (f.functionGet u.funcIdx) = true
  · refine (hreads hset).handlersInRange ?_
    rw [← hi.tablePos_eq]
    exact htable (hexc.mp hset)
  · intro handler hhandler
    simp [HbcFile.functionExceptionCount, hset] at hhandler

/-- A v98 late-form file with an overflowed function whose large header, of the
40-byte shape, claims an exception table of one handler. -/
def sampleHandlerBuffer : List UInt8 :=
  sampleHeader 98 [240, 0, 2, 0, 0, 0, 0, 0, 0, 0, 0, 0, 0, 0, 0, 0, 0, 0, 0, 208]
    ++ sampleSmallEntry ++ sampleOverflowedEntry
    ++ [0, 0, 0, 0, 0, 0, 0, 0]
    ++ [156, 0, 0, 0, 0, 0, 0, 0, 0, 0, 0, 0, 4, 0, 0, 0] ++ List.replicate 19 0 ++ [3, 8, 0, 0, 0]
    ++ [1, 0, 0, 0, 0, 0, 0, 0, 2, 0, 0, 0, 3, 0, 0, 0]
    ++ List.replicate 24 0

theorem parse_layoutReaders_sample : ∃ f, parse checkedBoundCount sampleHandlerBuffer = .ok f ∧
    f.largeHeaderLayout = some .shape40 ∧ f.ReadsCertified 1 200 := by
  obtain ⟨f, hparse, hcheck⟩ := Loop.exists_of_okAnd
    (x := parse checkedBoundCount sampleHandlerBuffer)
    (p := fun f => (f.header.layout = .v98LateToV99 ∧ f.version = 98) ∧
      f.largeHeaderLayout = some .shape40 ∧ (1 < f.functionCount ∧
      (f.smallHeader 1).overflowed = true ∧
      overflowHeaderIsOob (f.largeOff 1) f.buf.length = false ∧
      f.overflowHeaderOverlapsSynthesized (f.largeOff 1) = false) ∧
      hasExceptionHandler (f.functionGet 1) = true ∧ f.largeOff 1 = 160) (by decide +kernel)
  simp only [decide_eq_true_eq] at hcheck
  obtain ⟨hlate, hshape, ⟨hlt, hover, hin, hclear⟩, hexc, hoff⟩ := hcheck
  obtain ⟨-, hreads⟩ := parse_layoutReaders hparse hlate hshape ⟨hlt, hover, hin, hclear⟩
  have htable := hreads hexc
  rw [hoff] at htable
  exact ⟨f, hparse, hshape, htable⟩

end Hermes
