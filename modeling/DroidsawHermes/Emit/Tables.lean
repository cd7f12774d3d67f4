-- SUMMARY: The table emitters, and that each one writes back the bytes of its table.
import DroidsawHermes.Emit.BitPack

/-!
# Table emitters

The `emit_…_table` and `emit_function_headers` functions of `emit.rs`. An
emitter appends to its output; here it returns what it appends.
-/

open Bytes

namespace Hermes

-- ---------------------------------------------------------------------------
-- Version gates
-- ---------------------------------------------------------------------------

/-- The versions with a verified round trip, by their version word. -/
inductive HbcVersion where
  | v84 | v96 | v98 | v99
  deriving DecidableEq, Repr

def HbcVersion.version : HbcVersion → Nat
  | .v84 => 84
  | .v96 => 96
  | .v98 => 98
  | .v99 => 99

def requireSharedTableFormat (f : HbcFile) : Except HermesEmitError Unit :=
  if f.version = 84 ∨ f.version = 96 ∨ f.version = 98 ∨ f.version = 99 then .ok ()
  else .error (.versionMismatch 96 f.version)

def requireV84OrV96 (f : HbcFile) : Except HermesEmitError Unit :=
  if f.version = 84 ∨ f.version = 96 then .ok () else .error (.versionMismatch 96 f.version)

def requireV98OrV99 (f : HbcFile) : Except HermesEmitError Unit :=
  if f.version = 98 ∨ f.version = 99 then .ok () else .error (.versionMismatch 98 f.version)

-- ---------------------------------------------------------------------------
-- Entry loops
-- ---------------------------------------------------------------------------

/-- The loop of a table emitter: the entries one after the other. -/
def emitEntries (count : Nat) (entry : Nat → Except HermesEmitError (List UInt8)) :
    Except HermesEmitError (List UInt8) :=
  Loop.forRange count [] fun out i => do
    let bytes ← entry i
    .ok (out ++ bytes)

/-- `NonDecreasing::advance` on function ids. -/
def advanceFunctionId (prev next : Nat) : Option Nat := if next ≥ prev then some next else none

/-- The id sequence of a function-header loop, before any id and after one. -/
def nextFunctionId (seq : Option Nat) (fid : Nat) : Except HermesEmitError (Option Nat) :=
  match seq with
  | none => .ok (some fid)
  | some prev =>
    match advanceFunctionId prev fid with
    | some next => .ok (some next)
    | none => .error (.unrepresentableIR "FunctionId sequence not non-decreasing")

/-- The loop of a function-header emitter, which also tracks the ids. -/
def emitFunctionHeaderEntries (count : Nat)
    (entry : Nat → Except HermesEmitError (List UInt8)) : Except HermesEmitError (List UInt8) := do
  let (_, out) ← Loop.forRange count ((none, []) : Option Nat × List UInt8) fun s i => do
    let seq ← nextFunctionId s.1 i
    let bytes ← entry i
    .ok (seq, s.2 ++ bytes)
  .ok out

/-- Slices at consecutive strides, one after the other, are the whole table. -/
theorem emitEntries_slices {buf : List UInt8} {start stride count : Nat}
    {entry : Nat → Except HermesEmitError (List UInt8)}
    (h : ∀ i < count, entry i = .ok (slice buf (start + i * stride) (start + i * stride + stride))) :
    emitEntries count entry = .ok (slice buf start (start + count * stride)) := by
  obtain ⟨out, hout, rfl⟩ : ∃ out, emitEntries count entry = .ok out ∧
      out = slice buf start (start + count * stride) := by
    apply Loop.forRange_total (fun k out => out = slice buf start (start + k * stride))
    · simp [slice]
    · rintro k t hk rfl
      refine ⟨_, by rw [h k hk, Loop.ok_bind], ?_⟩
      rw [slice_append_slice (by omega) (by omega), Nat.succ_mul, Nat.add_assoc]
  exact hout

/-- The ids of a counting loop never decrease, so the id sequence has no effect. -/
theorem emitFunctionHeaderEntries_slices {buf : List UInt8} {start stride count : Nat}
    {entry : Nat → Except HermesEmitError (List UInt8)}
    (h : ∀ i < count, entry i = .ok (slice buf (start + i * stride) (start + i * stride + stride))) :
    emitFunctionHeaderEntries count entry = .ok (slice buf start (start + count * stride)) := by
  have hloop : ∃ s, Loop.forRange count ((none, []) : Option Nat × List UInt8) (fun s i => do
      let seq ← nextFunctionId s.1 i
      let bytes ← entry i
      .ok (seq, s.2 ++ bytes)) = .ok s ∧
      (∀ prev, s.1 = some prev → prev ≤ count) ∧
        s.2 = slice buf start (start + count * stride) := by
    apply Loop.forRange_total fun k (s : Option Nat × List UInt8) =>
      (∀ prev, s.1 = some prev → prev ≤ k) ∧ s.2 = slice buf start (start + k * stride)
    · simp [slice]
    · rintro k ⟨seq, t⟩ hk ⟨hseq, rfl⟩
      have hnext : nextFunctionId seq k = .ok (some k) := by
        cases seq with
        | none => rfl
        | some prev => simp [nextFunctionId, advanceFunctionId, hseq prev rfl]
      refine ⟨_, by rw [hnext, h k hk, Loop.ok_bind, Loop.ok_bind], ?_, ?_⟩
      · rintro prev ⟨rfl⟩
        omega
      · rw [slice_append_slice (by omega) (by omega), Nat.succ_mul, Nat.add_assoc]
  obtain ⟨out, hout, -, hspec⟩ := hloop
  rw [emitFunctionHeaderEntries, hout, Loop.ok_bind]
  exact congrArg Except.ok hspec

-- ---------------------------------------------------------------------------
-- Emitters
-- ---------------------------------------------------------------------------

/-- `ok_or` on a raw entry. -/
def rawOr {α : Type} (raw : Option α) (e : HermesEmitError) : Except HermesEmitError α :=
  match raw with
  | some r => .ok r
  | none => .error e

def emitWordPair (p : Nat × Nat) : List UInt8 := leBytes 4 p.1 ++ leBytes 4 p.2

def emitFunctionHeadersV96 (f : HbcFile) : Except HermesEmitError (List UInt8) := do
  requireV84OrV96 f
  if f.funcHeaderSize ≠ 16 then .error (.unrepresentableIR "pre-v97 SmallFuncHeader size != 16")
  else emitFunctionHeaderEntries f.functionCount fun i => do
    let raw ← rawOr (f.rawSmallFuncHeaderV96 i)
      (.unrepresentableIR "missing raw SmallFuncHeader for in-range function index")
    .ok (emitOneSmallFuncHeaderV96 raw)

def emitFunctionHeadersV98 (f : HbcFile) : Except HermesEmitError (List UInt8) := do
  requireV98OrV99 f
  if f.funcHeaderSize ≠ 12 then .error (.unrepresentableIR "v98 SmallFuncHeader size != 12")
  else emitFunctionHeaderEntries f.functionCount fun i => do
    let raw ← rawOr (f.rawSmallFuncHeaderV98 i)
      (.unrepresentableIR "missing raw SmallFuncHeader for in-range v98 index")
    .ok (emitOneSmallFuncHeaderV98 raw)

def emitSmallStringTableV96 (f : HbcFile) : Except HermesEmitError (List UInt8) := do
  requireSharedTableFormat f
  emitEntries f.stringCount fun i => do
    let raw ← rawOr (f.rawSmallStringTableEntry i)
      (.unrepresentableIR "missing raw SmallStringTable entry for in-range index")
    .ok (emitOneSmallStringTableEntryV96 raw)

def emitOverflowStringTableV96 (f : HbcFile) : Except HermesEmitError (List UInt8) := do
  requireSharedTableFormat f
  emitEntries f.header.overflowStringCount fun i => do
    let raw ← rawOr (f.rawOverflowStringTableEntryV96 i)
      (.unrepresentableIR "missing raw OverflowStringTable entry for in-range index")
    .ok (emitWordPair raw)

def emitRegexpTableV96 (f : HbcFile) : Except HermesEmitError (List UInt8) := do
  requireSharedTableFormat f
  emitEntries f.header.regExpCount fun i => do
    let raw ← rawOr (f.regexpTableEntryRaw i) (.offsetOverflow "regexp_table entry")
    .ok (emitWordPair raw)

def emitObjShapeTableV98 (f : HbcFile) : Except HermesEmitError (List UInt8) := do
  requireV98OrV99 f
  emitEntries f.header.objShapeTableCount fun i => do
    let raw ← rawOr (f.rawObjShapeTableEntryV98 i)
      (.unrepresentableIR "missing raw ObjShapeTable entry for in-range v98 index")
    .ok (emitWordPair raw)

-- ---------------------------------------------------------------------------
-- Each emitter writes its table back
-- ---------------------------------------------------------------------------

/-- The two words of an entry, written back, are its eight bytes. -/
theorem emitWordPair_slices {buf : List UInt8} {off : Nat} (h : off + 8 ≤ buf.length) :
    emitWordPair (ofLE (slice buf off (off + 4)), ofLE (slice buf (off + 4) (off + 8))) =
      slice buf off (off + 8) := by
  simp only [emitWordPair]
  have hfirst : off + 4 ≤ buf.length := by omega
  have hsecond : off + 4 + 4 ≤ buf.length := h
  rw [leBytes_slice hfirst, leBytes_slice hsecond, slice_append_slice (by omega) (by omega)]

/-- A table of word pairs that lies in the buffer is written back as it is. -/
theorem emitEntries_wordPairs {buf : List UInt8} {table : Span} {count : Nat} {e : HermesEmitError}
    (hsize : table.size = count * 8) (hle : table.stop ≤ buf.length) :
    (emitEntries count fun i => do
      let raw ← rawOr (rawWordPair buf table count i) e
      .ok (emitWordPair raw)) = .ok (slice buf table.start (table.start + count * 8)) := by
  simp only [Span.stop, hsize] at hle
  apply emitEntries_slices
  intro i hi
  rw [rawWordPair_eq_some hi (by omega) (by omega), rawOr, Loop.ok_bind,
    emitWordPair_slices (by omega)]

variable {f : HbcFile}

theorem emitSmallStringTableV96_eq (hversion : requireSharedTableFormat f = .ok ())
    (hsize : f.smallStringTable.size = f.stringCount * 4)
    (hle : f.smallStringTable.stop ≤ f.buf.length) :
    emitSmallStringTableV96 f =
      .ok (slice f.buf f.smallStringTable.start (f.smallStringTable.start + f.stringCount * 4)) := by
  simp only [Span.stop, hsize] at hle
  simp only [emitSmallStringTableV96, hversion, Loop.ok_bind]
  apply emitEntries_slices
  intro i hi
  have hno : ¬ (i ≥ f.stringCount ∨ f.smallStringTable.size = 0) := by omega
  simp only [HbcFile.rawSmallStringTableEntry, hno, if_false]
  rw [get?_of_le (by omega) (by omega)]
  simp only [rawOr, Loop.ok_bind]
  rw [emitOneSmallStringTableEntryV96_split (by rw [length_slice (by omega)]; omega)]

theorem emitOverflowStringTableV96_eq (hversion : requireSharedTableFormat f = .ok ())
    (hsize : f.overflowStringTable.size = f.header.overflowStringCount * 8)
    (hle : f.overflowStringTable.stop ≤ f.buf.length) :
    emitOverflowStringTableV96 f = .ok (slice f.buf f.overflowStringTable.start
      (f.overflowStringTable.start + f.header.overflowStringCount * 8)) := by
  simp only [emitOverflowStringTableV96, hversion, Loop.ok_bind]
  exact emitEntries_wordPairs hsize hle

theorem emitRegexpTableV96_eq (hversion : requireSharedTableFormat f = .ok ())
    (hsize : f.regexpTable.size = f.header.regExpCount * 8)
    (hle : f.regexpTable.stop ≤ f.buf.length) :
    emitRegexpTableV96 f =
      .ok (slice f.buf f.regexpTable.start (f.regexpTable.start + f.header.regExpCount * 8)) := by
  simp only [emitRegexpTableV96, hversion, Loop.ok_bind]
  exact emitEntries_wordPairs hsize hle

theorem emitObjShapeTableV98_eq (hversion : requireV98OrV99 f = .ok ())
    (hsize : f.objShapeTable.size = f.header.objShapeTableCount * 8)
    (hle : f.objShapeTable.stop ≤ f.buf.length) :
    emitObjShapeTableV98 f = .ok (slice f.buf f.objShapeTable.start
      (f.objShapeTable.start + f.header.objShapeTableCount * 8)) := by
  simp only [emitObjShapeTableV98, hversion, Loop.ok_bind]
  exact emitEntries_wordPairs hsize hle

/-- The small headers of a table that lies in the buffer, before v97. -/
theorem emitFunctionHeadersV96_eq (hversion : requireV84OrV96 f = .ok ())
    (hlayout : f.header.layout = .v84to86 ∨ f.header.layout = .v87to96)
    (hle : f.funcHeaders.start + f.functionCount * 16 ≤ f.buf.length) :
    emitFunctionHeadersV96 f =
      .ok (slice f.buf f.funcHeaders.start (f.funcHeaders.start + f.functionCount * 16)) := by
  have hfh : ¬ f.funcHeaderSize ≠ 16 := by
    rcases hlayout with h | h <;> simp [HbcFile.funcHeaderSize, h, HeaderLayout.funcHeaderSize]
  simp only [emitFunctionHeadersV96, hversion, Loop.ok_bind, hfh, if_false]
  apply emitFunctionHeaderEntries_slices
  intro i hi
  have hno : ¬ i ≥ f.functionCount := by omega
  have hraw : f.rawSmallFuncHeaderV96 i = some (HbcFile.splitSmallFuncHeaderV96
      (slice f.buf (f.funcHeaders.start + i * 16) (f.funcHeaders.start + i * 16 + 16))) := by
    rcases hlayout with h | h <;>
      simp only [HbcFile.rawSmallFuncHeaderV96, h, hno, if_false] <;>
      rw [get?_of_le (by omega) (by omega), Option.map_some]
  rw [hraw, rawOr, Loop.ok_bind,
    emitOneSmallFuncHeaderV96_split (by rw [length_slice (by omega)]; omega)]

/-- The header values of the layouts that the v98 emitter accepts. -/
def V98Layout (f : HbcFile) : Prop :=
  (∃ h, f.header = .v97toV98Early h ∧ h.version = 98) ∨
    ∃ h, f.header = .v98LateToV99 h ∧ (h.version = 98 ∨ h.version = 99)

/-- The small headers of a table that lies in the buffer, from v98 on. -/
theorem emitFunctionHeadersV98_eq (hversion : requireV98OrV99 f = .ok ()) (hlayout : V98Layout f)
    (hle : f.funcHeaders.start + f.functionCount * 12 ≤ f.buf.length) :
    emitFunctionHeadersV98 f =
      .ok (slice f.buf f.funcHeaders.start (f.funcHeaders.start + f.functionCount * 12)) := by
  have hfh : ¬ f.funcHeaderSize ≠ 12 := by
    rcases hlayout with ⟨h, hh, -⟩ | ⟨h, hh, -⟩ <;>
      simp [HbcFile.funcHeaderSize, hh, HbcHeader.layout, HeaderLayout.funcHeaderSize]
  simp only [emitFunctionHeadersV98, hversion, Loop.ok_bind, hfh, if_false]
  apply emitFunctionHeaderEntries_slices
  intro i hi
  have hno : ¬ i ≥ f.functionCount := by omega
  have hlen : (slice f.buf (f.funcHeaders.start + i * 12)
      (f.funcHeaders.start + i * 12 + 12)).length = 12 := by
    rw [length_slice (by omega)]
    omega
  have hentry : ∀ split : List UInt8 → SmallFuncHeaderV98Raw, f.rawEntryV98 i split =
      some (split (slice f.buf (f.funcHeaders.start + i * 12)
        (f.funcHeaders.start + i * 12 + 12))) := by
    intro split
    simp only [HbcFile.rawEntryV98, hno, if_false]
    rw [get?_of_le (by omega) (by omega), Option.map_some]
  rcases hlayout with ⟨h, hh, hv⟩ | ⟨h, hh, hv⟩
  · simp only [HbcFile.rawSmallFuncHeaderV98, hh, hv, if_true, hentry, rawOr, Loop.ok_bind,
      emitOneSmallFuncHeaderV98_splitEarly hlen]
  · simp only [HbcFile.rawSmallFuncHeaderV98, hh, hv, if_true, hentry, rawOr, Loop.ok_bind,
      emitOneSmallFuncHeaderV98_splitLate hlen]

end Hermes
