-- SUMMARY: Selection of the large-header layout of a v98 late-form bundle by population coherence, with its memo tables and work budget.
import DroidsawHermes.Parser.Functions

/-!
# Large-header layout selection

`select_v98_large_header_layout` of `parser/mod.rs`. The two hash maps of the
scratch state are association lists. A step that runs out of budget ends the
selection, so its scratch state is not returned.
-/

open Bytes

namespace Hermes

structure SelectionScratch where
  /-- `large_off` to `(violates_shape36, violates_shape40, decode_equal)`. -/
  perOff : List (Nat × (Bool × Bool × Bool))
  /-- Table offset to its validity summary. -/
  perTable : List (Nat × Option Nat)
  budget : Nat

def selectionTripleBudget (len : Nat) : Nat := min (len / 12 * 4) u64Max

def SelectionScratch.new (budget : Nat) : SelectionScratch := ⟨[], [], budget⟩

def excTablePosOutsideRuntimeDomain (table : Nat) : Bool := table > u32Max

/-- The walk over the handler triples that are left. -/
def summarizeTriples (buf : List UInt8) (countEnd : Nat) :
    Nat → Nat → Nat → Nat → Option (Option Nat × Nat)
  | 0, _, required, budget => some (some required, budget)
  | n + 1, hIdx, required, budget =>
    if budget = 0 then none
    else
      let hOff := countEnd + hIdx * 12
      let start := readU32 buf hOff
      let stop := readU32 buf (hOff + 4)
      let target := readU32 buf (hOff + 8)
      if start ≥ stop then some (none, budget - 1)
      else if target + 1 > u32Max then some (none, budget - 1)
      else summarizeTriples buf countEnd n (hIdx + 1) (max (max required stop) (target + 1))
        (budget - 1)

namespace HbcFile

variable (f : HbcFile)

def excTableSummaryUncached (table budget : Nat) : Option (Option Nat × Nat) :=
  if excTablePosOutsideRuntimeDomain table then some (none, budget)
  else
    let countEnd := table + 4
    if countEnd > f.buf.length then some (none, budget)
    else
      let count := readU32 f.buf table
      if count > maxExceptionHandlers then some (none, budget)
      else
        let span := count * 12 + 4
        if table + span ≤ f.buf.length then summarizeTriples f.buf countEnd count 0 0 budget
        else some (none, budget)

def excTableSummary (table : Nat) (scratch : SelectionScratch) :
    Option (Option Nat × SelectionScratch) :=
  match scratch.perTable.lookup table with
  | some summary => some (summary, scratch)
  | none =>
    match f.excTableSummaryUncached table scratch.budget with
    | none => none
    | some (summary, budget) =>
      some (summary,
        { scratch with budget := budget, perTable := (table, summary) :: scratch.perTable })

def byteAtU64 (pos : Nat) : Option UInt8 := f.buf[pos]?

def largeHeaderShapeViolation (largeOff : Nat) (shape : LargeHeaderLayout)
    (scratch : SelectionScratch) : Option (Bool × SelectionScratch) :=
  match f.byteAtU64 (saturatingAddU64 largeOff shape.flagsOffset) with
  | none => some (true, scratch)
  | some flags =>
    if flags.toNat &&& 0x03 = 0x03 then some (true, scratch)
    else if (flags.toNat >>> 5) &&& 1 ≠ 0 then some (true, scratch)
    else if (flags.toNat >>> 3) &&& 1 = 0 then some (false, scratch)
    else
      let fnSize := readU32 f.buf (largeOff + 12)
      let table := align4U64 (saturatingAddU64 largeOff shape.headerSize)
      match f.excTableSummary table scratch with
      | none => none
      | some (none, scratch) => some (true, scratch)
      | some (some requiredFnSize, scratch) => some (fnSize < requiredFnSize, scratch)

def largeHeaderShapesDecodeEqual (largeOff : Nat) (scratch : SelectionScratch) :
    Option (Bool × SelectionScratch) :=
  match f.byteAtU64 (saturatingAddU64 largeOff LargeHeaderLayout.shape36.flagsOffset),
      f.byteAtU64 (saturatingAddU64 largeOff LargeHeaderLayout.shape40.flagsOffset) with
  | some f36, some f40 =>
    if f36 ≠ f40 then some (false, scratch)
    else if (f36.toNat >>> 3) &&& 1 = 0 then some (true, scratch)
    else
      let t36 := align4U64 (saturatingAddU64 largeOff LargeHeaderLayout.shape36.headerSize)
      let t40 := align4U64 (saturatingAddU64 largeOff LargeHeaderLayout.shape40.headerSize)
      let c36 := readU32 f.buf t36
      let c40 := readU32 f.buf t40
      if c36 ≠ c40 then some (false, scratch)
      else if scratch.budget < c36 then none
      else
        let scratch := { scratch with budget := scratch.budget - c36 }
        let len := c36 * 12 + 4
        match get? f.buf t36 (t36 + len), get? f.buf t40 (t40 + len) with
        | some a, some b => some (a = b, scratch)
        | _, _ => some (false, scratch)
  | _, _ => some (false, scratch)

def scoreLargeHeader (largeOff : Nat) (scratch : SelectionScratch) :
    Option ((Bool × Bool × Bool) × SelectionScratch) :=
  match scratch.perOff.lookup largeOff with
  | some cached => some (cached, scratch)
  | none => do
    let (v36, scratch) ← f.largeHeaderShapeViolation largeOff .shape36 scratch
    let (v40, scratch) ← f.largeHeaderShapeViolation largeOff .shape40 scratch
    let (decodeEq, scratch) ←
      if !v36 && !v40 then f.largeHeaderShapesDecodeEqual largeOff scratch
      else some (true, scratch)
    let result := (v36, v40, decodeEq)
    some (result, { scratch with perOff := (largeOff, result) :: scratch.perOff })

/-- The composed large-header offset, for an overflowed function with a readable
entry. -/
def overflowedLargeOffV98late (index : Nat) : Option Nat :=
  match get? f.buf (f.entryOff index) (f.entryOff index + f.funcHeaderSize) with
  | none => none
  | some entry =>
    match entry[11]? with
    | none => none
    | some flagsByte =>
      if (flagsByte.toNat >>> 5) &&& 1 = 0 then none
      else some ((readBitfield entry 46 8 <<< 24) ||| readBitfield entry 0 25)

end HbcFile

/-- The population counts. They are bounded by the function count, so their
saturating additions are plain ones. -/
structure SelectionTally where
  violations36 : Nat
  violations40 : Nat
  disagreements : Nat
  budgetExhausted : Bool

def SelectionTally.count (t : SelectionTally) (v36 v40 decodeEq : Bool) : SelectionTally :=
  { t with
    violations36 := if v36 then t.violations36 + 1 else t.violations36
    violations40 := if v40 then t.violations40 + 1 else t.violations40
    disagreements := if !v36 && !v40 && !decodeEq then t.disagreements + 1 else t.disagreements }

namespace HbcFile

variable (f : HbcFile)

/-- The loop over the function indices that are left. -/
def scorePopulation : List Nat → SelectionTally → SelectionScratch → SelectionTally
  | [], tally, _ => tally
  | idx :: rest, tally, scratch =>
    match f.overflowedLargeOffV98late idx with
    | none => scorePopulation rest tally scratch
    | some largeOff =>
      if overflowHeaderIsOob largeOff f.buf.length || f.overflowHeaderOverlapsSynthesized largeOff then
        scorePopulation rest tally scratch
      else
        match f.scoreLargeHeader largeOff scratch with
        | none => { tally with budgetExhausted := true }
        | some ((v36, v40, decodeEq), scratch) =>
          scorePopulation rest (tally.count v36 v40 decodeEq) scratch

/-- The layout that the selection leaves in the file. -/
def selectedLargeHeaderLayout : Option LargeHeaderLayout :=
  if f.header.layout ≠ .v98LateToV99 ∨ f.version ≠ 98 then f.largeHeaderLayout
  else
    let tally := f.scorePopulation (List.range f.functionCount) ⟨0, 0, 0, false⟩
      (.new (selectionTripleBudget f.buf.length))
    match tally.budgetExhausted, decide (tally.violations36 = 0), decide (tally.violations40 = 0) with
    | false, true, false => some .shape36
    | false, false, true => some .shape40
    | false, true, true => if tally.disagreements = 0 then some .shape36 else none
    | _, _, _ => none

def selectV98LargeHeaderLayout : HbcFile :=
  { f with largeHeaderLayout := f.selectedLargeHeaderLayout }

end HbcFile

end Hermes
