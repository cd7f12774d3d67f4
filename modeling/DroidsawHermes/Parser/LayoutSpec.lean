-- SUMMARY: What the large-header selection decides, as a property of the set of eligible offsets, and that the memoized, budgeted loop decides it.
import DroidsawHermes.Parser.Selection
import Mathlib.Algebra.Order.BigOperators.Group.Finset

/-!
# The selection and its specification

The specification quantifies over the set of eligible large-header offsets. It
knows no memo, no budget that runs down and no order. The loop of
`select_v98_large_header_layout` agrees with it.
-/

open Bytes

namespace Hermes

namespace LayoutSpec

variable (buf : List UInt8)

/-! ## One candidate table -/

/-- The count word of an exception table. -/
def count (table : Nat) : Nat := readU32 buf table

def start (table h : Nat) : Nat := readU32 buf (table + 4 + h * 12)

def stop (table h : Nat) : Nat := readU32 buf (table + 4 + h * 12 + 4)

def target (table h : Nat) : Nat := readU32 buf (table + 4 + h * 12 + 8)

/-- The run-time reader sees the whole table. -/
def Readable (table : Nat) : Prop :=
  table ≤ u32Max ∧ table + 4 ≤ buf.length ∧ count buf table ≤ maxExceptionHandlers ∧
    table + (count buf table * 12 + 4) ≤ buf.length

/-- Some function size admits the triple. -/
def TripleOk (table h : Nat) : Prop :=
  start buf table h < stop buf table h ∧ target buf table h < u32Max

/-- The table is valid for a function of `fnSize` bytes. -/
def TableValid (table fnSize : Nat) : Prop :=
  Readable buf table ∧ ∀ h < count buf table,
    start buf table h < stop buf table h ∧ stop buf table h ≤ fnSize ∧ target buf table h < fnSize

instance (table : Nat) : Decidable (Readable buf table) :=
  inferInstanceAs (Decidable (_ ∧ _))

instance (table h : Nat) : Decidable (TripleOk buf table h) :=
  inferInstanceAs (Decidable (_ ∧ _))

/-- Of the `n` triples from `h` on, those that a walk reads: up to the first that
no function size admits. -/
def walkWork (table h n : Nat) : Nat :=
  min ((List.range' h n).findIdx (fun i => !decide (TripleOk buf table i)) + 1) n

def tableWork (table : Nat) : Nat :=
  if Readable buf table then walkWork buf table 0 (count buf table) else 0

/-! ## One large header -/

def flags? (shape : LargeHeaderLayout) (off : Nat) : Option UInt8 :=
  buf[saturatingAddU64 off shape.flagsOffset]?

def tablePos (shape : LargeHeaderLayout) (off : Nat) : Nat :=
  align4U64 (saturatingAddU64 off shape.headerSize)

/-- The flags byte claims an exception table and nothing forbidden. -/
def ReadsTable (shape : LargeHeaderLayout) (off : Nat) : Prop :=
  ∃ flags, flags? buf shape off = some flags ∧ flags.toNat &&& 3 ≠ 3 ∧
    (flags.toNat >>> 5) &&& 1 = 0 ∧ (flags.toNat >>> 3) &&& 1 ≠ 0

/-- The large header at `off` violates the shape. -/
def Violates (shape : LargeHeaderLayout) (off : Nat) : Prop :=
  ∀ flags, flags? buf shape off = some flags →
    flags.toNat &&& 3 = 3 ∨ (flags.toNat >>> 5) &&& 1 ≠ 0 ∨
      (flags.toNat >>> 3) &&& 1 ≠ 0 ∧
        ¬ TableValid buf (tablePos shape off) (readU32 buf (off + 12))

/-- Both shapes find the same flags byte, and a table where it claims one. -/
def BothTables (off : Nat) : Prop :=
  ∃ flags, flags? buf .shape36 off = some flags ∧ flags? buf .shape40 off = some flags ∧
    (flags.toNat >>> 3) &&& 1 ≠ 0 ∧
    count buf (tablePos .shape36 off) = count buf (tablePos .shape40 off)

/-- The large header at `off` reads the same under both shapes. -/
def DecodesEqual (off : Nat) : Prop :=
  ∃ flags, flags? buf .shape36 off = some flags ∧ flags? buf .shape40 off = some flags ∧
    ((flags.toNat >>> 3) &&& 1 ≠ 0 →
      count buf (tablePos .shape36 off) = count buf (tablePos .shape40 off) ∧
      ∃ table,
        get? buf (tablePos .shape36 off)
          (tablePos .shape36 off + (count buf (tablePos .shape36 off) * 12 + 4)) = some table ∧
        get? buf (tablePos .shape40 off)
          (tablePos .shape40 off + (count buf (tablePos .shape36 off) * 12 + 4)) = some table)

open Classical in
/-- The candidate tables of a large header. -/
noncomputable def tables (off : Nat) : Finset Nat :=
  (if ReadsTable buf .shape36 off then {tablePos .shape36 off} else ∅) ∪
    (if ReadsTable buf .shape40 off then {tablePos .shape40 off} else ∅)

open Classical in
/-- The triples compared when neither shape is violated. -/
noncomputable def compareWork (off : Nat) : Nat :=
  if ¬ Violates buf .shape36 off ∧ ¬ Violates buf .shape40 off ∧ BothTables buf off then
    count buf (tablePos .shape36 off)
  else 0

/-! ## The set of offsets -/

/-- The work over the distinct offsets and their distinct candidate tables. -/
noncomputable def work (offs : Finset Nat) : Nat :=
  ∑ table ∈ offs.biUnion (tables buf), tableWork buf table + ∑ off ∈ offs, compareWork buf off

open Classical in
/-- The layout a set of eligible offsets asks for. -/
noncomputable def layout (offs : Finset Nat) : Option LargeHeaderLayout :=
  if work buf offs ≤ selectionTripleBudget buf.length then
    if (∀ off ∈ offs, ¬ Violates buf .shape36 off) ∧
        ((∃ off ∈ offs, Violates buf .shape40 off) ∨ ∀ off ∈ offs, DecodesEqual buf off) then
      some .shape36
    else if (∀ off ∈ offs, ¬ Violates buf .shape40 off) ∧
        ∃ off ∈ offs, Violates buf .shape36 off then
      some .shape40
    else none
  else none

end LayoutSpec

/-- The offsets that the given functions compose, in bounds and clear of the
synthesized regions. -/
def HbcFile.eligibleAmong (f : HbcFile) (indices : List Nat) : Finset Nat :=
  ((indices.filterMap f.overflowedLargeOffV98late).filter fun off =>
    !(overflowHeaderIsOob off f.buf.length || f.overflowHeaderOverlapsSynthesized off)).toFinset

/-- The set of eligible large-header offsets. -/
def HbcFile.eligibleOffsets (f : HbcFile) : Finset Nat :=
  f.eligibleAmong (List.range f.functionCount)

/-! ## The walk over a table -/

namespace LayoutSpec

variable {buf : List UInt8}

theorem walkWork_zero (table h : Nat) : walkWork buf table h 0 = 0 := by
  simp [walkWork]

theorem walkWork_bad {table h n : Nat} (hbad : ¬ TripleOk buf table h) :
    walkWork buf table h (n + 1) = 1 := by
  simp [walkWork, List.range'_succ, List.findIdx_cons, hbad]

theorem walkWork_ok {table h n : Nat} (hok : TripleOk buf table h) :
    walkWork buf table h (n + 1) = walkWork buf table (h + 1) n + 1 := by
  simp [walkWork, List.range'_succ, List.findIdx_cons, hok, Nat.add_min_add_right]

/-- The summary of a table holds for a function of `fnSize` bytes. -/
def Admits (summary : Option Nat) (fnSize : Nat) : Prop := ∃ r, summary = some r ∧ r ≤ fnSize

/-- The triples from `h` on that a function of `fnSize` bytes admits. -/
def Fits (buf : List UInt8) (table h n fnSize : Nat) : Prop :=
  ∀ i, h ≤ i → i < h + n → start buf table i < stop buf table i ∧
    stop buf table i ≤ fnSize ∧ target buf table i < fnSize

theorem fits_succ {table h n fnSize : Nat} :
    Fits buf table h (n + 1) fnSize ↔ (start buf table h < stop buf table h ∧
      stop buf table h ≤ fnSize ∧ target buf table h < fnSize) ∧
        Fits buf table (h + 1) n fnSize := by
  constructor
  · exact fun hfits => ⟨hfits h (by omega) (by omega), fun i hi hlt => hfits i (by omega) (by omega)⟩
  · rintro ⟨hhead, htail⟩ i hi hlt
    rcases Nat.eq_or_lt_of_le hi with rfl | hlt'
    · exact hhead
    · exact htail i hlt' (by omega)

/-- The walk runs out of budget, or spends its work and ends with a summary that
decides the triples for every function size. -/
theorem summarizeTriples_spec (table n h required budget : Nat) :
    (budget < walkWork buf table h n →
      summarizeTriples buf (table + 4) n h required budget = none) ∧
    (walkWork buf table h n ≤ budget →
      ∃ summary, summarizeTriples buf (table + 4) n h required budget =
          some (summary, budget - walkWork buf table h n) ∧
        ∀ fnSize ≤ u32Max,
          (Admits summary fnSize ↔ required ≤ fnSize ∧ Fits buf table h n fnSize)) := by
  induction n generalizing h required budget with
  | zero =>
    rw [walkWork_zero]
    refine ⟨by omega, fun _ => ⟨some required, by simp [summarizeTriples], fun fnSize _ => ?_⟩⟩
    simp only [Admits, Option.some.injEq, exists_eq_left']
    exact ⟨fun hle => ⟨hle, fun i hi hlt => by omega⟩, fun hle => hle.1⟩
  | succ n ih =>
    simp only [summarizeTriples]
    rw [← start, ← stop, ← target]
    by_cases hok : TripleOk buf table h
    · rw [walkWork_ok hok]
      obtain ⟨hrange, htarget⟩ := hok
      have hstart : ¬ start buf table h ≥ stop buf table h := by omega
      have hfloor : ¬ target buf table h + 1 > u32Max := by omega
      obtain ⟨hnone, hsome⟩ := ih (h + 1)
        (max (max required (stop buf table h)) (target buf table h + 1)) (budget - 1)
      simp only [hstart, hfloor, if_false]
      refine ⟨fun hlt => ?_, fun hle => ?_⟩
      · split
        · rfl
        · exact hnone (by omega)
      · have hbudget : ¬ budget = 0 := by omega
        obtain ⟨summary, hrun, hadmits⟩ := hsome (by omega)
        refine ⟨summary, ?_, fun fnSize hfn => ?_⟩
        · simp only [hbudget, if_false, hrun]
          congr 2
          omega
        · rw [hadmits fnSize hfn, fits_succ]
          simp only [Nat.max_le]
          constructor
          · rintro ⟨⟨⟨hreq, hstop⟩, htgt⟩, htail⟩
            exact ⟨hreq, ⟨hrange, hstop, by omega⟩, htail⟩
          · rintro ⟨hreq, ⟨-, hstop, htgt⟩, htail⟩
            exact ⟨⟨⟨hreq, hstop⟩, by omega⟩, htail⟩
    · rw [walkWork_bad hok]
      refine ⟨fun hlt => by simp [show budget = 0 by omega], fun hle => ?_⟩
      have hbudget : ¬ budget = 0 := by omega
      refine ⟨none, ?_, fun fnSize hfn => ?_⟩
      · simp only [hbudget, if_false]
        split
        · rfl
        · split
          · rfl
          · exact absurd ⟨by omega, by omega⟩ hok
      · rw [fits_succ]
        simp only [Admits, reduceCtorEq, false_and, exists_false, false_iff]
        rintro ⟨-, ⟨hrange, -, htgt⟩, -⟩
        exact hok ⟨hrange, by omega⟩

/-- The summary decides the table for every function size. -/
def Summarizes (buf : List UInt8) (table : Nat) (summary : Option Nat) : Prop :=
  ∀ fnSize ≤ u32Max, Admits summary fnSize ↔ TableValid buf table fnSize

theorem summarizes_none {table : Nat} (h : ¬ Readable buf table) : Summarizes buf table none := by
  intro fnSize _
  simp only [Admits, reduceCtorEq, false_and, exists_false, false_iff]
  exact fun hvalid => h hvalid.1

theorem excTableSummaryUncached_spec (f : HbcFile) (table budget : Nat) :
    (budget < tableWork f.buf table → f.excTableSummaryUncached table budget = none) ∧
    (tableWork f.buf table ≤ budget →
      ∃ summary, f.excTableSummaryUncached table budget =
          some (summary, budget - tableWork f.buf table) ∧ Summarizes f.buf table summary) := by
  simp only [HbcFile.excTableSummaryUncached, excTablePosOutsideRuntimeDomain, decide_eq_true_eq]
  by_cases hread : Readable f.buf table
  · rw [tableWork, if_pos hread]
    obtain ⟨hpos, hword, hcount, hspan⟩ := id hread
    simp only [show ¬ table > u32Max by omega, show ¬ table + 4 > f.buf.length by omega,
      show ¬ readU32 f.buf table > maxExceptionHandlers from Nat.not_lt.mpr hcount, if_false]
    rw [if_pos (show table + (readU32 f.buf table * 12 + 4) ≤ f.buf.length from hspan)]
    obtain ⟨hnone, hsome⟩ :=
      @summarizeTriples_spec f.buf table (count f.buf table) 0 0 budget
    refine ⟨hnone, fun hle => ?_⟩
    obtain ⟨summary, hrun, hadmits⟩ := hsome hle
    refine ⟨summary, hrun, fun fnSize hfn => ?_⟩
    rw [hadmits fnSize hfn]
    constructor
    · exact fun h => ⟨hread, fun i hi => h.2 i (Nat.zero_le i) (by omega)⟩
    · exact fun h => ⟨Nat.zero_le fnSize, fun i _ hi => h.2 i (by omega)⟩
  · rw [tableWork, if_neg hread]
    refine ⟨by omega, fun _ => ⟨none, ?_, summarizes_none hread⟩⟩
    rw [Nat.sub_zero]
    split
    · rfl
    · split
      · rfl
      · split
        · rfl
        · rw [if_neg]
          intro hspan
          exact hread ⟨by omega, by omega, by simp only [count]; omega, hspan⟩

/-! ## The scratch state -/

/-- The score of a large header is right. The third part counts only where
neither shape is violated. -/
def ScoreOk (buf : List UInt8) (off : Nat) (score : Bool × Bool × Bool) : Prop :=
  (score.1 = true ↔ Violates buf .shape36 off) ∧ (score.2.1 = true ↔ Violates buf .shape40 off) ∧
    (¬ Violates buf .shape36 off → ¬ Violates buf .shape40 off →
      (score.2.2 = true ↔ DecodesEqual buf off))

/-- The memos hold exactly the given offsets and tables, each with its right
entry, and the budget is what `total` leaves after the walks of these tables and
`compared` triples. -/
structure ScratchInv (buf : List UInt8) (total : Nat) (offs tabs : Finset Nat) (compared : Nat)
    (scratch : SelectionScratch) : Prop where
  scored : ∀ off score, scratch.perOff.lookup off = some score → off ∈ offs ∧ ScoreOk buf off score
  hasScore : ∀ off ∈ offs, ∃ score, scratch.perOff.lookup off = some score
  summarized : ∀ table summary, scratch.perTable.lookup table = some summary →
    table ∈ tabs ∧ Summarizes buf table summary
  hasSummary : ∀ table ∈ tabs, ∃ summary, scratch.perTable.lookup table = some summary
  budget : scratch.budget + (∑ table ∈ tabs, tableWork buf table + compared) = total

theorem lookup_insert {β : Type} {k a : Nat} {b : β} {l : List (Nat × β)} :
    List.lookup k ((a, b) :: l) = if k = a then some b else List.lookup k l := by
  rw [List.lookup_cons]
  by_cases h : k = a
  · simp [h]
  · rw [beq_false_of_ne h, if_neg h]

/-- A memoized table costs nothing; another costs its work and joins the memo. -/
theorem excTableSummary_spec {f : HbcFile} {total : Nat} {offs tabs : Finset Nat}
    {compared : Nat} {scratch : SelectionScratch}
    (hinv : ScratchInv f.buf total offs tabs compared scratch) (table : Nat) :
    (total < ∑ t ∈ insert table tabs, tableWork f.buf t + compared →
      f.excTableSummary table scratch = none) ∧
    (∑ t ∈ insert table tabs, tableWork f.buf t + compared ≤ total →
      ∃ summary scratch', f.excTableSummary table scratch = some (summary, scratch') ∧
        Summarizes f.buf table summary ∧
        ScratchInv f.buf total offs (insert table tabs) compared scratch') := by
  have hbudget := hinv.budget
  by_cases hmem : table ∈ tabs
  · obtain ⟨summary, hlookup⟩ := hinv.hasSummary table hmem
    rw [Finset.insert_eq_of_mem hmem]
    refine ⟨by omega, fun _ => ⟨summary, scratch, ?_, (hinv.summarized _ _ hlookup).2, hinv⟩⟩
    simp only [HbcFile.excTableSummary, hlookup]
  · have hmiss : scratch.perTable.lookup table = none := by
      cases hlookup : scratch.perTable.lookup table with
      | none => rfl
      | some summary => exact absurd (hinv.summarized _ _ hlookup).1 hmem
    obtain ⟨hnone, hsome⟩ := excTableSummaryUncached_spec f table scratch.budget
    rw [Finset.sum_insert hmem]
    simp only [HbcFile.excTableSummary, hmiss]
    refine ⟨fun hlt => ?_, fun hle => ?_⟩
    · rw [hnone (by omega)]
    · obtain ⟨summary, hrun, hsummary⟩ := hsome (by omega)
      refine ⟨summary, _, by rw [hrun], hsummary, ?_⟩
      exact {
        scored := hinv.scored
        hasScore := hinv.hasScore
        summarized := by
          intro t s hlookup
          simp only [lookup_insert] at hlookup
          split at hlookup
          · next heq =>
            cases hlookup
            exact ⟨Finset.mem_insert.mpr (Or.inl heq), heq ▸ hsummary⟩
          · obtain ⟨ht, hs⟩ := hinv.summarized t s hlookup
            exact ⟨Finset.mem_insert_of_mem ht, hs⟩
        hasSummary := by
          intro t ht
          simp only [lookup_insert]
          split
          · exact ⟨summary, rfl⟩
          · next hne => exact hinv.hasSummary t ((Finset.mem_insert.mp ht).resolve_left hne)
        budget := by
          rw [Finset.sum_insert hmem]
          simp only
          omega }

open Classical in
/-- The candidate table of one shape. -/
noncomputable def tableOf (buf : List UInt8) (shape : LargeHeaderLayout) (off : Nat) : Finset Nat :=
  if ReadsTable buf shape off then {tablePos shape off} else ∅

theorem tables_eq (buf : List UInt8) (off : Nat) :
    tables buf off = tableOf buf .shape36 off ∪ tableOf buf .shape40 off := rfl

/-- Scoring one shape costs the walk of its candidate table, unless memoized. -/
theorem largeHeaderShapeViolation_spec {f : HbcFile} {total : Nat} {offs tabs : Finset Nat}
    {compared : Nat} {scratch : SelectionScratch}
    (hinv : ScratchInv f.buf total offs tabs compared scratch) (off : Nat)
    (shape : LargeHeaderLayout) :
    (total < ∑ t ∈ tableOf f.buf shape off ∪ tabs, tableWork f.buf t + compared →
      f.largeHeaderShapeViolation off shape scratch = none) ∧
    (∑ t ∈ tableOf f.buf shape off ∪ tabs, tableWork f.buf t + compared ≤ total →
      ∃ violated scratch', f.largeHeaderShapeViolation off shape scratch =
          some (violated, scratch') ∧ (violated = true ↔ Violates f.buf shape off) ∧
        ScratchInv f.buf total offs (tableOf f.buf shape off ∪ tabs) compared scratch') := by
  have hbudget := hinv.budget
  -- Where no table is read, the answer costs nothing.
  have hfree : ∀ violated : Bool, ¬ ReadsTable f.buf shape off →
      (violated = true ↔ Violates f.buf shape off) →
      (total < ∑ t ∈ tableOf f.buf shape off ∪ tabs, tableWork f.buf t + compared →
        some (violated, scratch) = none) ∧
      (∑ t ∈ tableOf f.buf shape off ∪ tabs, tableWork f.buf t + compared ≤ total →
        ∃ violated' scratch', some (violated, scratch) = some (violated', scratch') ∧
          (violated' = true ↔ Violates f.buf shape off) ∧
          ScratchInv f.buf total offs (tableOf f.buf shape off ∪ tabs) compared scratch') := by
    intro violated hno hviolated
    rw [tableOf, if_neg hno, Finset.empty_union]
    exact ⟨by omega, fun _ => ⟨violated, scratch, rfl, hviolated, hinv⟩⟩
  simp only [HbcFile.largeHeaderShapeViolation, HbcFile.byteAtU64]
  cases hflags : f.buf[saturatingAddU64 off shape.flagsOffset]? with
  | none =>
    refine hfree true ?_ ?_
    · rintro ⟨flags, hsome, -⟩
      simp [flags?, hflags] at hsome
    · simp [Violates, flags?, hflags]
  | some flags =>
    have hviolates : Violates f.buf shape off ↔ flags.toNat &&& 3 = 3 ∨
        (flags.toNat >>> 5) &&& 1 ≠ 0 ∨ (flags.toNat >>> 3) &&& 1 ≠ 0 ∧
          ¬ TableValid f.buf (tablePos shape off) (readU32 f.buf (off + 12)) := by
      simp only [Violates, flags?, hflags, Option.some.injEq, forall_eq']
    have hreads : ReadsTable f.buf shape off ↔ flags.toNat &&& 3 ≠ 3 ∧
        (flags.toNat >>> 5) &&& 1 = 0 ∧ (flags.toNat >>> 3) &&& 1 ≠ 0 := by
      simp only [ReadsTable, flags?, hflags, Option.some.injEq, exists_eq_left']
    simp only
    split
    · next hinvoke =>
      exact hfree true (fun h => (hreads.mp h).1 hinvoke)
        (iff_of_true rfl (hviolates.mpr (Or.inl hinvoke)))
    · next hinvoke =>
      split
      · next hover =>
        exact hfree true (fun h => hover (hreads.mp h).2.1)
          (iff_of_true rfl (hviolates.mpr (Or.inr (Or.inl hover))))
      · next hover =>
        split
        · next hexc =>
          refine hfree false (fun h => (hreads.mp h).2.2 hexc) (iff_of_false Bool.false_ne_true ?_)
          intro hv
          rcases hviolates.mp hv with h | h | h
          · exact hinvoke h
          · exact hover h
          · exact h.1 hexc
        · next hexc =>
          have hover' : (flags.toNat >>> 5) &&& 1 = 0 := not_not.mp hover
          have htable : Violates f.buf shape off ↔
              ¬ TableValid f.buf (tablePos shape off) (readU32 f.buf (off + 12)) := by
            rw [hviolates, or_iff_right hinvoke, or_iff_right hover]
            exact and_iff_right hexc
          rw [tableOf, if_pos (hreads.mpr ⟨hinvoke, hover', hexc⟩), Finset.singleton_union]
          obtain ⟨hnone, hsome⟩ := excTableSummary_spec hinv (tablePos shape off)
          refine ⟨fun hlt => ?_, fun hle => ?_⟩
          · have := hnone hlt
            rw [tablePos] at this
            rw [this]
          · obtain ⟨summary, scratch', hrun, hsummary, hinv'⟩ := hsome hle
            have hadmits := hsummary _ (readU32_le_u32Max f.buf (off + 12))
            rw [tablePos] at hrun
            rw [hrun]
            cases summary with
            | none =>
              refine ⟨true, scratch', rfl, ?_, hinv'⟩
              simp only [Admits, reduceCtorEq, false_and, exists_false, false_iff] at hadmits
              exact iff_of_true rfl (htable.mpr hadmits)
            | some required =>
              refine ⟨_, scratch', rfl, ?_, hinv'⟩
              simp only [Admits, Option.some.injEq, exists_eq_left'] at hadmits
              rw [htable, ← hadmits]
              simp

theorem align4U64_header (shape : LargeHeaderLayout) (off : Nat) :
    align4U64 (saturatingAddU64 off shape.headerSize) = tablePos shape off := rfl

theorem readU32_count (buf : List UInt8) (table : Nat) : readU32 buf table = count buf table := rfl

open Classical in
/-- Where neither shape is violated, the comparison costs the triples of the
table, if there is one on both sides. -/
theorem largeHeaderShapesDecodeEqual_spec {f : HbcFile} {total : Nat} {offs tabs : Finset Nat}
    {compared : Nat} {scratch : SelectionScratch}
    (hinv : ScratchInv f.buf total offs tabs compared scratch) (off : Nat) :
    let cost := if BothTables f.buf off then count f.buf (tablePos .shape36 off) else 0
    (total < ∑ t ∈ tabs, tableWork f.buf t + (compared + cost) →
      f.largeHeaderShapesDecodeEqual off scratch = none) ∧
    (∑ t ∈ tabs, tableWork f.buf t + (compared + cost) ≤ total →
      ∃ decodeEq scratch', f.largeHeaderShapesDecodeEqual off scratch =
          some (decodeEq, scratch') ∧ (decodeEq = true ↔ DecodesEqual f.buf off) ∧
        ScratchInv f.buf total offs tabs (compared + cost) scratch') := by
  intro cost
  have hbudget := hinv.budget
  -- Where no table is compared, the answer costs nothing.
  have hfree : ∀ decodeEq : Bool, ¬ BothTables f.buf off →
      (decodeEq = true ↔ DecodesEqual f.buf off) →
      (total < ∑ t ∈ tabs, tableWork f.buf t + (compared + cost) →
        some (decodeEq, scratch) = none) ∧
      (∑ t ∈ tabs, tableWork f.buf t + (compared + cost) ≤ total →
        ∃ decodeEq' scratch', some (decodeEq, scratch) = some (decodeEq', scratch') ∧
          (decodeEq' = true ↔ DecodesEqual f.buf off) ∧
          ScratchInv f.buf total offs tabs (compared + cost) scratch') := by
    intro decodeEq hno hequal
    have hcost : cost = 0 := if_neg hno
    rw [hcost, Nat.add_zero]
    exact ⟨by omega, fun _ => ⟨decodeEq, scratch, rfl, hequal, hinv⟩⟩
  simp only [HbcFile.largeHeaderShapesDecodeEqual, HbcFile.byteAtU64]
  cases h36 : f.buf[saturatingAddU64 off LargeHeaderLayout.shape36.flagsOffset]? with
  | none =>
    refine hfree false ?_ (iff_of_false Bool.false_ne_true ?_)
    · rintro ⟨flags, hsome, -⟩
      simp [flags?, h36] at hsome
    · rintro ⟨flags, hsome, -⟩
      simp [flags?, h36] at hsome
  | some f36 =>
    cases h40 : f.buf[saturatingAddU64 off LargeHeaderLayout.shape40.flagsOffset]? with
    | none =>
      refine hfree false ?_ (iff_of_false Bool.false_ne_true ?_)
      · rintro ⟨flags, -, hsome, -⟩
        simp [flags?, h40] at hsome
      · rintro ⟨flags, -, hsome, -⟩
        simp [flags?, h40] at hsome
    | some f40 =>
      by_cases hflags : f36 = f40
      · subst hflags
        have hboth : BothTables f.buf off ↔ (f36.toNat >>> 3) &&& 1 ≠ 0 ∧
            count f.buf (tablePos .shape36 off) = count f.buf (tablePos .shape40 off) := by
          simp only [BothTables, flags?, h36, h40, Option.some.injEq, exists_eq_left', true_and]
        have hequal : DecodesEqual f.buf off ↔ ((f36.toNat >>> 3) &&& 1 ≠ 0 →
            count f.buf (tablePos .shape36 off) = count f.buf (tablePos .shape40 off) ∧
            ∃ table,
              get? f.buf (tablePos .shape36 off) (tablePos .shape36 off +
                (count f.buf (tablePos .shape36 off) * 12 + 4)) = some table ∧
              get? f.buf (tablePos .shape40 off) (tablePos .shape40 off +
                (count f.buf (tablePos .shape36 off) * 12 + 4)) = some table) := by
          simp only [DecodesEqual, flags?, h36, h40, Option.some.injEq, exists_eq_left', true_and]
        simp only [ne_eq, not_true_eq_false, if_false]
        simp only [align4U64_header, readU32_count]
        split
        · next hexc =>
          exact hfree true (fun h => (hboth.mp h).1 hexc)
            (iff_of_true rfl (hequal.mpr fun h => absurd hexc h))
        · next hexc =>
          by_cases hcount :
              count f.buf (tablePos .shape36 off) = count f.buf (tablePos .shape40 off)
          case neg =>
            simp only [hcount, not_false_eq_true, if_true]
            exact hfree false (fun h => hcount (hboth.mp h).2)
              (iff_of_false Bool.false_ne_true fun h => hcount (hequal.mp h hexc).1)
          case pos =>
            simp only [eq_true hcount, not_true_eq_false, if_false]
            have hcost : cost = count f.buf (tablePos .shape36 off) :=
              if_pos (hboth.mpr ⟨hexc, hcount⟩)
            rw [hcost]
            refine ⟨fun hlt => if_pos (by omega), fun hle => ?_⟩
            have hroom : ¬ scratch.budget < count f.buf (tablePos .shape36 off) := by omega
            simp only [hroom, if_false]
            have hinv' : ScratchInv f.buf total offs tabs
                (compared + count f.buf (tablePos .shape36 off))
                { scratch with
                  budget := scratch.budget - count f.buf (tablePos .shape36 off) } := by
              refine ⟨hinv.scored, hinv.hasScore, hinv.summarized, hinv.hasSummary, ?_⟩
              simp only
              omega
            cases hget36 : get? f.buf (tablePos .shape36 off) (tablePos .shape36 off +
                (count f.buf (tablePos .shape36 off) * 12 + 4)) with
            | none =>
              refine ⟨false, _, rfl, iff_of_false Bool.false_ne_true fun h => ?_, hinv'⟩
              obtain ⟨-, table, htable, -⟩ := hequal.mp h hexc
              simp [hget36] at htable
            | some a =>
              cases hget40 : get? f.buf (tablePos .shape40 off) (tablePos .shape40 off +
                  (count f.buf (tablePos .shape36 off) * 12 + 4)) with
              | none =>
                refine ⟨false, _, rfl, iff_of_false Bool.false_ne_true fun h => ?_, hinv'⟩
                obtain ⟨-, table, -, htable⟩ := hequal.mp h hexc
                simp [hget40] at htable
              | some b =>
                refine ⟨_, _, rfl, ?_, hinv'⟩
                rw [hequal, decide_eq_true_eq]
                simp only [hget36, hget40, Option.some.injEq]
                constructor
                · exact fun heq _ => ⟨hcount, a, rfl, heq.symm⟩
                · intro h
                  obtain ⟨-, table, ha, hb⟩ := h hexc
                  exact ha.trans hb.symm
      · simp only [ne_eq, hflags, not_false_eq_true, if_true]
        refine hfree false ?_ (iff_of_false Bool.false_ne_true ?_)
        · rintro ⟨flags, hsome36, hsome40, -⟩
          simp only [flags?, h36, h40, Option.some.injEq] at hsome36 hsome40
          exact hflags (hsome36.trans hsome40.symm)
        · rintro ⟨flags, hsome36, hsome40, -⟩
          simp only [flags?, h36, h40, Option.some.injEq] at hsome36 hsome40
          exact hflags (hsome36.trans hsome40.symm)

/-! ## The loop over the population -/

/-- The scratch state after the given offsets were scored. -/
def Scored (buf : List UInt8) (total : Nat) (offs : Finset Nat) (scratch : SelectionScratch) :
    Prop :=
  ScratchInv buf total offs (offs.biUnion (tables buf)) (∑ off ∈ offs, compareWork buf off) scratch

theorem Scored.init (buf : List UInt8) (total : Nat) : Scored buf total ∅ (.new total) where
  scored := by simp [SelectionScratch.new]
  hasScore := by simp
  summarized := by simp [SelectionScratch.new]
  hasSummary := by simp
  budget := by simp [SelectionScratch.new]

theorem work_insert (buf : List UInt8) {off : Nat} {offs : Finset Nat} (hnew : off ∉ offs) :
    work buf (insert off offs) =
      ∑ t ∈ tableOf buf .shape40 off ∪ (tableOf buf .shape36 off ∪ offs.biUnion (tables buf)),
        tableWork buf t + (∑ o ∈ offs, compareWork buf o + compareWork buf off) := by
  rw [work, Finset.biUnion_insert, tables_eq, Finset.sum_insert hnew, Nat.add_comm (compareWork _ _)]
  congr 2
  rw [Finset.union_comm (tableOf buf .shape36 off), Finset.union_assoc]

theorem work_mono (buf : List UInt8) {offs offs' : Finset Nat} (h : offs ⊆ offs') :
    work buf offs ≤ work buf offs' :=
  Nat.add_le_add (Finset.sum_le_sum_of_subset (Finset.biUnion_subset_biUnion_of_subset_left _ h))
    (Finset.sum_le_sum_of_subset h)

/-- The memo of scores grows by a right entry. -/
theorem ScratchInv.record {buf : List UInt8} {total : Nat} {offs tabs : Finset Nat}
    {compared : Nat} {scratch : SelectionScratch}
    (hinv : ScratchInv buf total offs tabs compared scratch) {off : Nat}
    {score : Bool × Bool × Bool} (hscore : ScoreOk buf off score) :
    ScratchInv buf total (insert off offs) tabs compared
      { scratch with perOff := (off, score) :: scratch.perOff } where
  scored := by
    intro o s hlookup
    simp only [lookup_insert] at hlookup
    split at hlookup
    · next heq =>
      cases hlookup
      exact ⟨Finset.mem_insert.mpr (Or.inl heq), heq ▸ hscore⟩
    · obtain ⟨ho, hs⟩ := hinv.scored o s hlookup
      exact ⟨Finset.mem_insert_of_mem ho, hs⟩
  hasScore := by
    intro o ho
    simp only [lookup_insert]
    split
    · exact ⟨score, rfl⟩
    · next hne => exact hinv.hasScore o ((Finset.mem_insert.mp ho).resolve_left hne)
  summarized := hinv.summarized
  hasSummary := hinv.hasSummary
  budget := hinv.budget

open Classical in
/-- The comparison of an offset that both shapes admit. -/
theorem compareWork_of_admitted {buf : List UInt8} {off : Nat} (h36 : ¬ Violates buf .shape36 off)
    (h40 : ¬ Violates buf .shape40 off) :
    compareWork buf off = if BothTables buf off then count buf (tablePos .shape36 off) else 0 := by
  simp only [compareWork, h36, h40, not_false_eq_true, true_and]

theorem compareWork_of_violated {buf : List UInt8} {off : Nat}
    (h : Violates buf .shape36 off ∨ Violates buf .shape40 off) : compareWork buf off = 0 :=
  if_neg fun hboth => h.elim hboth.1 hboth.2.1

/-- Scoring an offset fails exactly when the offsets scored so far and this one
cost more than the budget. -/
theorem scoreLargeHeader_spec {f : HbcFile} {total : Nat} {offs : Finset Nat}
    {scratch : SelectionScratch} (hinv : Scored f.buf total offs scratch) (off : Nat) :
    (total < work f.buf (insert off offs) → f.scoreLargeHeader off scratch = none) ∧
    (work f.buf (insert off offs) ≤ total →
      ∃ score scratch', f.scoreLargeHeader off scratch = some (score, scratch') ∧
        ScoreOk f.buf off score ∧ Scored f.buf total (insert off offs) scratch') := by
  by_cases hmem : off ∈ offs
  case pos =>
    obtain ⟨score, hlookup⟩ := hinv.hasScore off hmem
    have hbudget := hinv.budget
    rw [Finset.insert_eq_of_mem hmem, work]
    refine ⟨by omega, fun _ => ⟨score, scratch, ?_, (hinv.scored _ _ hlookup).2, hinv⟩⟩
    simp only [HbcFile.scoreLargeHeader, hlookup]
  case neg =>
    have hmiss : scratch.perOff.lookup off = none := by
      cases hlookup : scratch.perOff.lookup off with
      | none => rfl
      | some score => exact absurd (hinv.scored _ _ hlookup).1 hmem
    have hdone : ∀ {score : Bool × Bool × Bool} {scratch' : SelectionScratch} {compared : Nat},
        compared = ∑ o ∈ offs, compareWork f.buf o + compareWork f.buf off →
        ScoreOk f.buf off score →
        ScratchInv f.buf total offs
          (tableOf f.buf .shape40 off ∪ (tableOf f.buf .shape36 off ∪ offs.biUnion (tables f.buf)))
          compared scratch' →
        Scored f.buf total (insert off offs)
          { scratch' with perOff := (off, score) :: scratch'.perOff } := by
      intro score scratch' compared hcompared hscore hinv'
      have hrecord := hinv'.record hscore
      rw [Scored, Finset.biUnion_insert, tables_eq, Finset.sum_insert hmem, Nat.add_comm,
        Finset.union_comm (tableOf f.buf .shape36 off), Finset.union_assoc, ← hcompared]
      exact hrecord
    rw [work_insert f.buf hmem]
    simp only [HbcFile.scoreLargeHeader, hmiss, Option.bind_eq_bind]
    obtain ⟨hnone36, hsome36⟩ := largeHeaderShapeViolation_spec hinv off .shape36
    have hle36 : ∑ t ∈ tableOf f.buf .shape36 off ∪ offs.biUnion (tables f.buf), tableWork f.buf t ≤
        ∑ t ∈ tableOf f.buf .shape40 off ∪
          (tableOf f.buf .shape36 off ∪ offs.biUnion (tables f.buf)), tableWork f.buf t :=
      Finset.sum_le_sum_of_subset Finset.subset_union_right
    rcases Nat.lt_or_ge total (∑ t ∈ tableOf f.buf .shape36 off ∪ offs.biUnion (tables f.buf),
      tableWork f.buf t + ∑ o ∈ offs, compareWork f.buf o) with hover36 | hfits36
    · rw [hnone36 hover36]
      exact ⟨fun _ => rfl, by omega⟩
    obtain ⟨v36, scratch36, hrun36, hv36, hinv36⟩ := hsome36 hfits36
    simp only [hrun36, Option.bind_some]
    obtain ⟨hnone40, hsome40⟩ := largeHeaderShapeViolation_spec hinv36 off .shape40
    rcases Nat.lt_or_ge total (∑ t ∈ tableOf f.buf .shape40 off ∪
        (tableOf f.buf .shape36 off ∪ offs.biUnion (tables f.buf)),
      tableWork f.buf t + ∑ o ∈ offs, compareWork f.buf o) with hover40 | hfits40
    · rw [hnone40 hover40]
      exact ⟨fun _ => rfl, by omega⟩
    obtain ⟨v40, scratch40, hrun40, hv40, hinv40⟩ := hsome40 hfits40
    simp only [hrun40, Option.bind_some]
    split
    · next hadmitted =>
      simp only [Bool.and_eq_true, Bool.not_eq_true'] at hadmitted
      have h36 : ¬ Violates f.buf .shape36 off := by simp [← hv36, hadmitted.1]
      have h40 : ¬ Violates f.buf .shape40 off := by simp [← hv40, hadmitted.2]
      have hcost := compareWork_of_admitted h36 h40
      obtain ⟨hnone, hsome⟩ := largeHeaderShapesDecodeEqual_spec hinv40 off
      rw [← hcost] at hnone hsome
      refine ⟨fun hlt => by simp only [hnone hlt, Option.bind_none], fun hle => ?_⟩
      obtain ⟨decodeEq, scratch', hrun, hequal, hinv'⟩ := hsome hle
      have hscore : ScoreOk f.buf off (v36, v40, decodeEq) := ⟨hv36, hv40, fun _ _ => hequal⟩
      exact ⟨_, _, by simp only [hrun, Option.bind_some], hscore, hdone rfl hscore hinv'⟩
    · next hviolated =>
      have hviolates : Violates f.buf .shape36 off ∨ Violates f.buf .shape40 off := by
        rw [← hv36, ← hv40]
        cases v36 <;> cases v40 <;> simp at hviolated ⊢
      have hscore : ScoreOk f.buf off (v36, v40, true) :=
        ⟨hv36, hv40, fun h36 h40 => absurd hviolates (by simp [h36, h40])⟩
      rw [compareWork_of_violated hviolates]
      refine ⟨by omega, fun hle => ⟨(v36, v40, true), _, rfl, hscore, hdone ?_ hscore hinv40⟩⟩
      rw [compareWork_of_violated hviolates, Nat.add_zero]

theorem eligibleAmong_cons {f : HbcFile} (idx : Nat) (rest : List Nat) :
    f.eligibleAmong (idx :: rest) =
      match f.overflowedLargeOffV98late idx with
      | none => f.eligibleAmong rest
      | some off =>
        if overflowHeaderIsOob off f.buf.length || f.overflowHeaderOverlapsSynthesized off then
          f.eligibleAmong rest
        else insert off (f.eligibleAmong rest) := by
  simp only [HbcFile.eligibleAmong, List.filterMap_cons]
  cases f.overflowedLargeOffV98late idx with
  | none => rfl
  | some off =>
    simp only [List.filter_cons]
    split <;> simp_all

/-- What the tally says of the offsets counted so far. -/
structure Counts (buf : List UInt8) (offs : Finset Nat) (tally : SelectionTally) : Prop where
  running : tally.budgetExhausted = false
  violations36 : tally.violations36 = 0 ↔ ∀ off ∈ offs, ¬ Violates buf .shape36 off
  violations40 : tally.violations40 = 0 ↔ ∀ off ∈ offs, ¬ Violates buf .shape40 off
  disagreements : (∀ off ∈ offs, ¬ Violates buf .shape36 off) →
    (∀ off ∈ offs, ¬ Violates buf .shape40 off) →
    (tally.disagreements = 0 ↔ ∀ off ∈ offs, DecodesEqual buf off)

theorem Counts.step {buf : List UInt8} {offs : Finset Nat} {tally : SelectionTally}
    (hcounts : Counts buf offs tally) {off : Nat} {v36 v40 decodeEq : Bool}
    (hscore : ScoreOk buf off (v36, v40, decodeEq)) :
    Counts buf (insert off offs) (tally.count v36 v40 decodeEq) := by
  obtain ⟨h36, h40, hequal⟩ := hscore
  simp only at h36 h40 hequal
  refine ⟨hcounts.running, ?_, ?_, ?_⟩
  · simp only [SelectionTally.count, Finset.forall_mem_insert, ← h36]
    cases v36
    · simp [hcounts.violations36]
    · simp
  · simp only [SelectionTally.count, Finset.forall_mem_insert, ← h40]
    cases v40
    · simp [hcounts.violations40]
    · simp
  · simp only [Finset.forall_mem_insert, SelectionTally.count]
    rintro ⟨hno36, hall36⟩ ⟨hno40, hall40⟩
    have hd := hcounts.disagreements hall36 hall40
    rw [← hequal hno36 hno40, ← hd]
    rw [← h36] at hno36
    rw [← h40] at hno40
    cases v36 <;> cases v40 <;> cases decodeEq <;> simp at hno36 hno40 ⊢

/-- The loop, from a state that scored and counted `offs`. -/
theorem scorePopulation_spec {f : HbcFile} {total : Nat} (indices : List Nat) {offs : Finset Nat}
    {tally : SelectionTally} {scratch : SelectionScratch}
    (hinv : Scored f.buf total offs scratch) (hcounts : Counts f.buf offs tally) :
    (total < work f.buf (offs ∪ f.eligibleAmong indices) →
      (f.scorePopulation indices tally scratch).budgetExhausted = true) ∧
    (work f.buf (offs ∪ f.eligibleAmong indices) ≤ total →
      Counts f.buf (offs ∪ f.eligibleAmong indices) (f.scorePopulation indices tally scratch)) := by
  induction indices generalizing offs tally scratch with
  | nil =>
    have hbudget := hinv.budget
    have hempty : offs ∪ f.eligibleAmong [] = offs := by simp [HbcFile.eligibleAmong]
    rw [hempty, work]
    exact ⟨by omega, fun _ => hcounts⟩
  | cons idx rest ih =>
    rw [eligibleAmong_cons]
    simp only [HbcFile.scorePopulation]
    cases f.overflowedLargeOffV98late idx with
    | none => exact ih hinv hcounts
    | some off =>
      simp only
      split
      · exact ih hinv hcounts
      · obtain ⟨hnone, hsome⟩ := scoreLargeHeader_spec hinv off
        have hunion : offs ∪ insert off (f.eligibleAmong rest) =
            insert off offs ∪ f.eligibleAmong rest := by
          rw [Finset.union_insert, Finset.insert_union]
        rw [hunion]
        rcases Nat.lt_or_ge total (work f.buf (insert off offs)) with hover | hfits
        · rw [hnone hover]
          have hmono := work_mono f.buf
            (Finset.subset_union_left : insert off offs ⊆ insert off offs ∪ f.eligibleAmong rest)
          exact ⟨fun _ => rfl, by omega⟩
        · obtain ⟨⟨v36, v40, decodeEq⟩, scratch', hrun, hscore, hinv'⟩ := hsome hfits
          rw [hrun]
          exact ih hinv' (hcounts.step hscore)

/-- The loop decides what the specification asks. -/
theorem selectedLargeHeaderLayout_eq (f : HbcFile) (hlayout : f.header.layout = .v98LateToV99)
    (hversion : f.version = 98) :
    f.selectedLargeHeaderLayout = layout f.buf f.eligibleOffsets := by
  have hearly : ¬ (f.header.layout ≠ .v98LateToV99 ∨ f.version ≠ 98) := by
    simp [hlayout, hversion]
  have hinit : Counts f.buf ∅ ⟨0, 0, 0, false⟩ := ⟨rfl, by simp, by simp, by simp⟩
  obtain ⟨hover, hfits⟩ := scorePopulation_spec (List.range f.functionCount)
    (Scored.init f.buf (selectionTripleBudget f.buf.length)) hinit
  rw [Finset.empty_union, ← HbcFile.eligibleOffsets] at hover hfits
  simp only [HbcFile.selectedLargeHeaderLayout, if_neg hearly, layout]
  generalize f.scorePopulation (List.range f.functionCount) ⟨0, 0, 0, false⟩
    (.new (selectionTripleBudget f.buf.length)) = tally at hover hfits ⊢
  rcases Nat.lt_or_ge (selectionTripleBudget f.buf.length) (work f.buf f.eligibleOffsets) with h | h
  · rw [hover h, if_neg (Nat.not_le.mpr h)]
  · have hcounts := hfits h
    rw [hcounts.running, if_pos h]
    by_cases h36 : ∀ off ∈ f.eligibleOffsets, ¬ Violates f.buf .shape36 off
    all_goals by_cases h40 : ∀ off ∈ f.eligibleOffsets, ¬ Violates f.buf .shape40 off
    · have hzero36 := hcounts.violations36.mpr h36
      have hzero40 := hcounts.violations40.mpr h40
      have hequal := hcounts.disagreements h36 h40
      have hno36 : ¬ ∃ off ∈ f.eligibleOffsets, Violates f.buf .shape36 off := by
        rintro ⟨off, hoff, hv⟩
        exact h36 off hoff hv
      have hno40 : ¬ ∃ off ∈ f.eligibleOffsets, Violates f.buf .shape40 off := by
        rintro ⟨off, hoff, hv⟩
        exact h40 off hoff hv
      simp only [hzero36, hzero40, decide_true]
      by_cases hd : tally.disagreements = 0
      · rw [if_pos hd, if_pos ⟨h36, Or.inr (hequal.mp hd)⟩]
      · rw [if_neg hd, if_neg fun hboth => hboth.2.elim hno40 fun hall => hd (hequal.mpr hall),
          if_neg fun hboth => hno36 hboth.2]
    · have hzero36 := hcounts.violations36.mpr h36
      have hpos40 : ¬ tally.violations40 = 0 := fun h => h40 (hcounts.violations40.mp h)
      have hsome40 : ∃ off ∈ f.eligibleOffsets, Violates f.buf .shape40 off := by
        simpa using h40
      simp only [hzero36, hpos40, decide_true, decide_false]
      rw [if_pos ⟨h36, Or.inl hsome40⟩]
    · have hpos36 : ¬ tally.violations36 = 0 := fun h => h36 (hcounts.violations36.mp h)
      have hzero40 := hcounts.violations40.mpr h40
      have hsome36 : ∃ off ∈ f.eligibleOffsets, Violates f.buf .shape36 off := by
        simpa using h36
      simp only [hpos36, hzero40, decide_true, decide_false]
      rw [if_neg fun hboth => h36 hboth.1, if_pos ⟨h40, hsome36⟩]
    · have hpos36 : ¬ tally.violations36 = 0 := fun h => h36 (hcounts.violations36.mp h)
      have hpos40 : ¬ tally.violations40 = 0 := fun h => h40 (hcounts.violations40.mp h)
      simp only [hpos36, hpos40, decide_false]
      rw [if_neg fun hboth => h36 hboth.1, if_neg fun hboth => h40 hboth.1]

end LayoutSpec

end Hermes
