-- SUMMARY: `validate_function_regions` with its three passes, and `parse`.
import DroidsawHermes.Lib.Sorted
import DroidsawHermes.Parser.Selection
import Mathlib.Data.List.Sort

/-!
# Region validation

Pass 1 checks every function body against the bytecode region and collects the
spans; Pass 2 sorts them by offset and compares adjacent ones; Pass 3 checks the
exception handlers. A function whose metadata cannot be trusted is marked and
left out; every other violation rejects the file.
-/

open Bytes

namespace Hermes

def maxFunctionBodyDedups : Nat := 65535

/-- A function body: `[offset, offset + size)`. -/
structure BodySpan where
  idx : Nat
  offset : Nat
  size : Nat
  deriving DecidableEq, Repr

/-! ## Pass 1 -/

structure Pass1 where
  unrecognized : List UnrecognizedFunction
  spans : List BodySpan
  deriving DecidableEq, Repr

def Pass1.mark (s : Pass1) (funcIdx : Nat) (reason : UnrecognizedReason) : Pass1 :=
  { s with unrecognized := s.unrecognized ++ [⟨funcIdx, reason⟩] }

namespace HbcFile

variable (f : HbcFile)

/-- The region test of a function whose metadata is trusted. -/
def checkBodyRegion (s : Pass1) (idx : Nat) (d : FunctionData) : Except HermesError Pass1 :=
  if d.size = 0 then .ok s
  else
    let endOff := d.offset + d.size
    if endOff > u64Max then
      .error (.arithmeticOverflow
        "function_offset_u64 + function_size_u64 in validate_function_regions")
    else if d.offset < f.bytecodeRegion.1 ∨ endOff > f.bytecodeRegion.2 then
      .error (.functionBodyOutOfBytecodeRegion idx d.offset d.size
        f.bytecodeRegion.1 f.bytecodeRegion.2)
    else .ok { s with spans := s.spans ++ [⟨idx, d.offset, d.size⟩] }

def pass1Step (s : Pass1) (idx : Nat) : Except HermesError Pass1 :=
  match f.functionGetChecked idx with
  | .error (.overflowedHeaderOutOfBounds funcIdx largeOff bufLen) =>
    .ok (s.mark funcIdx (.overflowedHeaderOutOfBounds largeOff bufLen))
  | .error (.overflowedHeaderOverlapsSynthesizedRegion funcIdx largeOff) =>
    .ok (s.mark funcIdx (.overflowedHeaderOverlapsSynthesizedRegion largeOff))
  | .error (.largeHeaderLayoutAmbiguous funcIdx largeOff) =>
    .ok (s.mark funcIdx (.largeHeaderLayoutAmbiguous largeOff))
  | .error other => .error other
  | .ok d =>
    match f.excTableOverlapsSynthesized idx with
    | some excOffset => .ok (s.mark idx (.exceptionTableOverlapsSynthesizedRegion excOffset))
    | none => f.checkBodyRegion s idx d

def pass1 : Except HermesError Pass1 := Loop.forRange f.functionCount ⟨[], []⟩ f.pass1Step

end HbcFile

/-! ## Pass 2 -/

structure Dedups where
  count : Nat
  /-- Offset, size and the two indices of the first duplicate pair. -/
  first : Option (Nat × Nat × Nat × Nat)
  deriving DecidableEq, Repr

def pass2Step (s : Dedups) (pair : BodySpan × BodySpan) : Except HermesError Dedups :=
  let (a, b) := pair
  if a.offset = b.offset ∧ a.size = b.size then
    .ok { count := min (s.count + 1) u32Max
          first := if s.first.isNone then some (a.offset, a.size, a.idx, b.idx) else s.first }
  else
    let aEnd := a.offset + a.size
    if aEnd > u32Max then
      .error (.arithmeticOverflow
        "a_off + a_size in validate_function_regions Pass 2 (proven safe by Pass 1)")
    else if aEnd > b.offset then
      .error (.functionBodyOverlap a.idx a.offset a.size b.idx b.offset b.size)
    else .ok s

/-- `sort_by_key` on the offset: a stable sort. -/
def sortByOffset (spans : List BodySpan) : List BodySpan :=
  spans.insertionSort fun a b => a.offset ≤ b.offset

def pass2 (spans : List BodySpan) : Except HermesError Dedups :=
  (Sorted.windows2 (sortByOffset spans)).foldlM pass2Step ⟨0, none⟩

def checkDedups (s : Dedups) : Except HermesError Unit :=
  if s.count > maxFunctionBodyDedups then
    match s.first with
    | some (offset, size, aIdx, bIdx) =>
      .error (.functionBodyDedupOverflow s.count maxFunctionBodyDedups offset size aIdx bIdx)
    | none => .ok ()
  else .ok ()

/-! ## Pass 3 -/

def handlerInRange (eh : ExceptionHandlerData) (fnSize : Nat) : Bool :=
  eh.start < eh.stop ∧ eh.stop ≤ fnSize ∧ eh.target < fnSize

def hasFuncIdx (marks : List UnrecognizedFunction) (idx : Nat) : Bool :=
  (Sorted.binarySearchByKey UnrecognizedFunction.funcIdx idx marks).isSome

namespace HbcFile

variable (f : HbcFile)

/-- The first handler of a function that leaves its body. -/
def firstBadHandler (idx fnSize : Nat) : Option Nat :=
  (List.range (f.functionExceptionCount idx)).find? fun h =>
    !handlerInRange (f.functionExceptionGet idx h) fnSize

def pass3Step (unrecognized : List UnrecognizedFunction) (s : List UnrecognizedFunction)
    (idx : Nat) : Except HermesError (List UnrecognizedFunction) :=
  if hasFuncIdx unrecognized idx then .ok s
  else
    match f.functionGetChecked idx with
    | .error (.overflowedHeaderOutOfBounds ..) => .ok s
    | .error (.overflowedHeaderOverlapsSynthesizedRegion ..) => .ok s
    | .error (.largeHeaderLayoutAmbiguous ..) => .ok s
    | .error other => .error other
    | .ok d =>
      match f.firstBadHandler idx d.size with
      | none => .ok s
      | some h =>
        let eh := f.functionExceptionGet idx h
        .ok (s ++ [⟨idx, .exceptionHandlerOutOfFunctionRange h eh.start eh.stop eh.target d.size⟩])

def pass3 (unrecognized : List UnrecognizedFunction) :
    Except HermesError (List UnrecognizedFunction) :=
  Loop.forRange f.functionCount [] (f.pass3Step unrecognized)

def mergeSortedUnrecognized (a b : List UnrecognizedFunction) : List UnrecognizedFunction :=
  Sorted.mergeBy UnrecognizedFunction.funcIdx a b

/-- The marks of the file, or the violation that rejects it. -/
def validateFunctionRegions : Except HermesError (List UnrecognizedFunction) := do
  let s ← f.pass1
  let dedups ← pass2 s.spans
  checkDedups dedups
  let marks ← f.pass3 s.unrecognized
  .ok (mergeSortedUnrecognized s.unrecognized marks)

def isFunctionUnrecognized (idx : Nat) : Bool := hasFuncIdx f.unrecognizedFunctions idx

end HbcFile

/-! ## parse -/

/-- `HbcFile::parse` without a budget. -/
def parse (boundCount : BoundCount) (buf : List UInt8) : Except HermesError HbcFile := do
  let file ← parseInner boundCount buf
  let file := file.selectV98LargeHeaderLayout
  let marks ← file.validateFunctionRegions
  .ok { file with unrecognizedFunctions := marks }

end Hermes
