-- SUMMARY: The text of a string-table entry, and that every resolved entry is the one its table entry names, inside the string storage.
import DroidsawHermes.Parser.Containment
import DroidsawHermes.ParserOracle

/-!
# String text

`string_as_str` of `parser/mod.rs` with the two lossy decoders it calls, and what
`string_get` resolves an index of an accepted file to.
-/

open Bytes

namespace Hermes

/-! ## Lossy decoding -/

def replacementChar : Char := Char.ofNat 0xFFFD

def inRange (lo hi : Nat) (b : UInt8) : Bool := lo ≤ b.toNat && b.toNat ≤ hi

/-- The bytes that may follow a first byte, one range for each; `none` for a byte that
starts no character. -/
def utf8Tail (b : UInt8) : Option (List (Nat × Nat)) :=
  if inRange 0x00 0x7F b then some []
  else if inRange 0xC2 0xDF b then some [(0x80, 0xBF)]
  else if inRange 0xE0 0xE0 b then some [(0xA0, 0xBF), (0x80, 0xBF)]
  else if inRange 0xED 0xED b then some [(0x80, 0x9F), (0x80, 0xBF)]
  else if inRange 0xE1 0xEF b then some [(0x80, 0xBF), (0x80, 0xBF)]
  else if inRange 0xF0 0xF0 b then some [(0x90, 0xBF), (0x80, 0xBF), (0x80, 0xBF)]
  else if inRange 0xF1 0xF3 b then some [(0x80, 0xBF), (0x80, 0xBF), (0x80, 0xBF)]
  else if inRange 0xF4 0xF4 b then some [(0x80, 0x8F), (0x80, 0xBF), (0x80, 0xBF)]
  else none

/-- How many of the bytes lie in their ranges, up to the first that does not. -/
def utf8Matched : List (Nat × Nat) → List UInt8 → Nat
  | (lo, hi) :: ranges, b :: bytes => if inRange lo hi b then utf8Matched ranges bytes + 1 else 0
  | _, _ => 0

/-- The scalar of a whole character: the low bits of the first byte, six of each other. -/
def utf8Scalar (first : UInt8) (tail : List UInt8) : Nat :=
  let bits := match tail.length with
    | 0 => first.toNat
    | 1 => first.toNat % 0x20
    | 2 => first.toNat % 0x10
    | _ => first.toNat % 0x08
  tail.foldl (fun n b => n * 0x40 + b.toNat % 0x40) bits

/-- `String::from_utf8_lossy`: each maximal part of a character that breaks off becomes one
replacement character. A round takes at least one byte. -/
def utf8Lossy : Nat → List UInt8 → List Char
  | fuel + 1, b :: bytes =>
    match utf8Tail b with
    | none => replacementChar :: utf8Lossy fuel bytes
    | some ranges =>
      let matched := utf8Matched ranges bytes
      let char := if matched = ranges.length then Char.ofNat (utf8Scalar b (bytes.take matched))
        else replacementChar
      char :: utf8Lossy fuel (bytes.drop matched)
  | _, _ => []

/-- `chunks_exact(2)`, `u16::from_le_bytes`. -/
def utf16Units : List UInt8 → List Nat
  | a :: b :: bytes => ofLE [a, b] :: utf16Units bytes
  | _ => []

/-- `String::from_utf16_lossy`: an unpaired surrogate becomes a replacement character. -/
def utf16Lossy : List Nat → List Char
  | [] => []
  | [u] => [if 0xD800 ≤ u ∧ u ≤ 0xDFFF then replacementChar else Char.ofNat u]
  | u :: u' :: units =>
    if 0xD800 ≤ u ∧ u ≤ 0xDBFF ∧ 0xDC00 ≤ u' ∧ u' ≤ 0xDFFF then
      Char.ofNat (0x10000 + (u - 0xD800) * 0x400 + (u' - 0xDC00)) :: utf16Lossy units
    else
      (if 0xD800 ≤ u ∧ u ≤ 0xDFFF then replacementChar else Char.ofNat u) :: utf16Lossy (u' :: units)

namespace HbcFile

variable (f : HbcFile)

def stringAsStr (index : Nat) : Except HermesError (Option String) := do
  match ← f.stringGet index with
  | none => .ok none
  | some sd =>
    if sd.len = 0 then .ok (some "")
    else if sd.offset = 0 then .error (.zeroOffsetWithLength index sd.len)
    else do
      let stop ← checkedU64 (sd.offset + sd.len)
        (.arithmeticOverflow "string_as_str end = sd.offset + sd.len")
      if stop > f.buf.length then
        .error (.stringStorageEndExceedsBuffer index sd.offset sd.len f.buf.length)
      else
        let bytes := slice f.buf sd.offset stop
        if sd.isUtf16 then .ok (some (String.ofList (utf16Lossy (utf16Units bytes))))
        else .ok (some (String.ofList (utf8Lossy bytes.length bytes)))

/-! ## What an entry names -/

/-- The storage-relative offset and the length that a small entry names: its own, or
those of the overflow entry it points to when its length is 255. `none` when that is past
the overflow table. -/
def namedRange (e : SmallStringTableEntryV96Raw) : Option (Nat × Nat) :=
  if e.strLength = 255 then f.rawOverflowStringTableEntryV96 e.strOffset
  else some (e.strOffset, e.strLength)

/-- The length in bytes. -/
def byteLength (e : SmallStringTableEntryV96Raw) (length : Nat) : Nat :=
  if e.isUtf16 then length * 2 else length

/-- The result is the range that the entry names, inside the string storage. -/
structure Resolves (e : SmallStringTableEntryV96Raw) (sd : StringData) (offset length : Nat) :
    Prop where
  named : f.namedRange e = some (offset, length)
  isUtf16 : sd.isUtf16 = e.isUtf16
  len : sd.len = byteLength e length
  even : sd.isUtf16 = true → 2 ∣ sd.len
  offset : sd.len > 0 → sd.offset = (f.sectionSpan .stringStorage).start + offset
  inside : sd.len > 0 → (f.sectionSpan .stringStorage).start ≤ sd.offset ∧
    sd.offset + sd.len ≤ (f.sectionSpan .stringStorage).stop

/-- Why an entry does not resolve: its overflow index is out of range, or the range that it
names leaves the string storage. -/
inductive Broken (e : SmallStringTableEntryV96Raw) : Prop
  | index (hsentinel : e.strLength = 255) (hrange : e.strOffset ≥ f.header.overflowStringCount)
  | range (offset length : Nat) (hnamed : f.namedRange e = some (offset, length))
      (hleaves : (f.sectionSpan .stringStorage).start + offset + byteLength e length >
        (f.sectionSpan .stringStorage).stop)

/-- What `string_get` does with the index of an entry. -/
structure StringResolved (i : Nat) : Prop where
  none_iff : f.stringGet i = .ok none ↔ i ≥ f.stringCount
  entry : i < f.stringCount → ∃ e, f.rawSmallStringTableEntry i = some e ∧
    (∀ sd, f.stringGet i = .ok (some sd) → ∃ offset length, f.Resolves e sd offset length) ∧
    ∀ err, f.stringGet i = .error err → f.Broken e
  text : ∀ sd, f.stringGet i = .ok (some sd) → ∃ s, f.stringAsStr i = .ok (some s)

end HbcFile

/-! ## Resolution -/

/-- The bounds check of `string_get`, with no overflow left to check. -/
theorem stringData_eq {f : HbcFile} (hf : Oracle.StringSections f) {index kind : Nat}
    {isUtf16 : Bool} {r : StringRef} (hoff : r.strOffset ≤ u32Max) (hlen : r.strLength ≤ u32Max) :
    f.stringData index kind isUtf16 r =
      if r.strLength = 0 then .ok (some ⟨0, 0, kind, isUtf16⟩)
      else
        let byteLen := if isUtf16 then r.strLength * 2 else r.strLength
        if f.stringStorage.start + r.strOffset + byteLen > f.stringStorage.stop then
          .error (.stringStorageEndExceedsBuffer index (f.stringStorage.start + r.strOffset) byteLen
            f.stringStorage.stop)
        else .ok (some ⟨f.stringStorage.start + r.strOffset, byteLen, kind, isUtf16⟩) := by
  have hextent := @Oracle.stringExtent_eq f hf isUtf16 r hoff hlen
  have hstart := hf.storage_le
  have hsize := hf.storageSize_le
  simp only [u32Max] at hstart hsize hoff hlen
  generalize hbyte : (if isUtf16 then r.strLength * 2 else r.strLength) = byteLen at hextent
  have hle : byteLen ≤ r.strLength * 2 := by
    rw [← hbyte]
    split <;> omega
  have hend : f.stringStorage.start + r.strOffset + byteLen ≤ u64Max := by
    simp only [u64Max]
    omega
  have hstop : f.stringStorage.stop = f.stringStorage.start + f.stringStorage.size := rfl
  rw [hstop]
  simp only [HbcFile.stringData, hextent, Loop.ok_bind, checkedU64_of_le hend]
  by_cases hzero : r.strLength = 0
  · rw [if_pos hzero, if_pos hzero]
  · rw [if_neg hzero, if_neg hzero]
    by_cases hin : f.stringStorage.start + r.strOffset + byteLen >
        f.stringStorage.start + f.stringStorage.size
    · rw [if_pos hin, if_pos hin]
    · have hmod : byteLen % 2 ^ 32 = byteLen := Nat.mod_eq_of_lt (by omega)
      have hfield : (if isUtf16 then byteLen % 2 ^ 32 else r.strLength) = byteLen := by
        rw [hmod, ← hbyte]
        cases isUtf16 <;> rfl
      rw [if_neg hin, if_neg hin, hfield]

namespace ParseTrace

variable {boundCount : BoundCount} {buf : List UInt8} {f : HbcFile} {w : SectionWalk}
  {dbg : Option DebugInfoV96}

theorem sectionSpan_stringStorage (t : ParseTrace boundCount buf f w dbg) :
    f.sectionSpan .stringStorage = f.stringStorage := by
  rw [t.sectionSpan_eq, t.stringStorage_eq]

/-- The small entry of an index below the count. -/
theorem smallEntry_eq (t : ParseTrace boundCount buf f w dbg) {i : Nat} (hi : i < f.stringCount) :
    f.rawSmallStringTableEntry i = some
      { isUtf16 := readBitfield (slice f.buf (f.smallStringTable.start + i * 4)
          (f.smallStringTable.start + i * 4 + 4)) 0 1 ≠ 0
        strOffset := readBitfield (slice f.buf (f.smallStringTable.start + i * 4)
          (f.smallStringTable.start + i * 4 + 4)) 1 23
        strLength := readBitfield (slice f.buf (f.smallStringTable.start + i * 4)
          (f.smallStringTable.start + i * 4 + 4)) 24 8 } := by
  have hsize := t.smallStringTable_size
  have hsmall := t.stringSections.small
  have hpast : ¬ (i ≥ f.stringCount ∨ f.smallStringTable.size = 0) := by omega
  have hentry := get?_of_le (b := f.buf)
    (Nat.le_add_right (f.smallStringTable.start + i * 4) 4) (by omega)
  simp only [HbcFile.rawSmallStringTableEntry, if_neg hpast, hentry]

/-- The overflow entry of an index below the count. -/
theorem overflowEntry_eq (t : ParseTrace boundCount buf f w dbg) {i : Nat}
    (hi : i < f.header.overflowStringCount) :
    f.rawOverflowStringTableEntryV96 i = some (readU32 f.buf (f.overflowStringTable.start + i * 8),
      readU32 f.buf (f.overflowStringTable.start + i * 8 + 4)) := by
  have hsize := t.overflowStringTable_size
  have hoverflow := t.stringSections.overflow
  have hpast : ¬ (i ≥ f.header.overflowStringCount ∨ f.overflowStringTable.size = 0) := by omega
  rw [HbcFile.rawOverflowStringTableEntryV96, rawWordPair, if_neg hpast]
  simp only [get?_of_le (show f.overflowStringTable.start + i * 8 ≤
      f.overflowStringTable.start + i * 8 + 4 by omega)
      (show f.overflowStringTable.start + i * 8 + 4 ≤ f.buf.length by omega),
    get?_of_le (show f.overflowStringTable.start + i * 8 + 4 ≤
      f.overflowStringTable.start + i * 8 + 8 by omega)
      (show f.overflowStringTable.start + i * 8 + 8 ≤ f.buf.length by omega)]
  rw [readU32_eq_ofLE (by omega), readU32_eq_ofLE (by omega)]

/-- `string_get` below the count: the overflow index is out of range, or the bounds check
decides about the range that the entry names. -/
theorem stringGet_cases (t : ParseTrace boundCount buf f w dbg) {i : Nat} (hi : i < f.stringCount) :
    ∃ e kind, f.rawSmallStringTableEntry i = some e ∧
      ((e.strLength = 255 ∧ e.strOffset ≥ f.header.overflowStringCount ∧
          f.stringGet i = .error (.overflowIndexOutOfRange i f.header.overflowStringCount)) ∨
        ∃ r : StringRef, f.namedRange e = some (r.strOffset, r.strLength) ∧
          r.strOffset ≤ u32Max ∧ r.strLength ≤ u32Max ∧
          f.stringGet i = f.stringData i kind e.isUtf16 r) := by
  have hsmall := t.stringSections.small
  have hoverflow := t.stringSections.overflow
  refine ⟨_, f.stringKindMap.getD i 0, t.smallEntry_eq hi, ?_⟩
  have hin : ¬ f.smallStringTable.start + i * 4 + 4 > f.buf.length := by omega
  simp only [HbcFile.stringGet, if_neg (show ¬ i ≥ f.stringCount by omega), if_neg hin,
    HbcFile.routeOverflow, HbcFile.namedRange]
  generalize slice f.buf (f.smallStringTable.start + i * 4)
    (f.smallStringTable.start + i * 4 + 4) = entry
  have hoff := readBitfield_lt entry 1 23
  have hlen := readBitfield_lt entry 24 8
  by_cases hsentinel : readBitfield entry 24 8 = 255
  · by_cases hrange : readBitfield entry 1 23 < f.header.overflowStringCount
    · have hovf : ¬ f.overflowStringTable.start + readBitfield entry 1 23 * 8 + 8 > f.buf.length := by
        omega
      refine Or.inr ⟨⟨readU32 f.buf (f.overflowStringTable.start + readBitfield entry 1 23 * 8),
        readU32 f.buf (f.overflowStringTable.start + readBitfield entry 1 23 * 8 + 4), true⟩,
        ?_, readU32_le_u32Max _ _, readU32_le_u32Max _ _, ?_⟩
      · rw [if_pos hsentinel, t.overflowEntry_eq hrange]
      · rw [if_pos hsentinel, if_pos hrange, if_neg hovf, Loop.ok_bind]
    · refine Or.inl ⟨hsentinel, by omega, ?_⟩
      rw [if_pos hsentinel, if_neg hrange, Loop.error_bind]
  · refine Or.inr ⟨⟨readBitfield entry 1 23, readBitfield entry 24 8, false⟩, ?_, ?_, ?_, ?_⟩
    · rw [if_neg hsentinel]
    · simp only [u32Max]
      omega
    · simp only [u32Max]
      omega
    · rw [if_neg hsentinel, Loop.ok_bind]

/-- A resolved entry is the range that the entry names. -/
theorem resolves_of_stringData (t : ParseTrace boundCount buf f w dbg)
    {e : SmallStringTableEntryV96Raw} {r : StringRef} {i kind : Nat} {sd : StringData}
    (hnamed : f.namedRange e = some (r.strOffset, r.strLength)) (hoff : r.strOffset ≤ u32Max)
    (hlen : r.strLength ≤ u32Max) (h : f.stringData i kind e.isUtf16 r = .ok (some sd)) :
    f.Resolves e sd r.strOffset r.strLength := by
  rw [stringData_eq t.stringSections hoff hlen] at h
  by_cases hzero : r.strLength = 0
  · rw [if_pos hzero, Except.ok.injEq, Option.some.injEq] at h
    subst h
    have hbyte : HbcFile.byteLength e r.strLength = 0 := by
      rw [HbcFile.byteLength, hzero]
      split <;> rfl
    exact ⟨hnamed, rfl, hbyte.symm, fun _ => Nat.dvd_zero 2, fun h => absurd h (Nat.lt_irrefl 0),
      fun h => absurd h (Nat.lt_irrefl 0)⟩
  · rw [if_neg hzero] at h
    by_cases hout : f.stringStorage.start + r.strOffset +
        (if e.isUtf16 then r.strLength * 2 else r.strLength) > f.stringStorage.stop
    · simp only [if_pos hout] at h
      cases h
    · simp only [if_neg hout] at h
      cases h
      refine ⟨hnamed, rfl, rfl, fun hutf => ?_, fun _ => ?_, fun _ => ?_⟩
      · simp only at hutf ⊢
        rw [hutf]
        exact Nat.dvd_mul_left 2 _
      · rw [t.sectionSpan_stringStorage]
      · rw [t.sectionSpan_stringStorage]
        constructor
        · exact Nat.le_add_right _ _
        · exact Nat.not_lt.mp hout

theorem range_of_stringData (t : ParseTrace boundCount buf f w dbg)
    {e : SmallStringTableEntryV96Raw} {r : StringRef} {i kind : Nat} {err : HermesError}
    (hnamed : f.namedRange e = some (r.strOffset, r.strLength)) (hoff : r.strOffset ≤ u32Max)
    (hlen : r.strLength ≤ u32Max) (h : f.stringData i kind e.isUtf16 r = .error err) :
    f.Broken e := by
  rw [stringData_eq t.stringSections hoff hlen] at h
  by_cases hzero : r.strLength = 0
  · rw [if_pos hzero] at h
    cases h
  · rw [if_neg hzero] at h
    by_cases hout : f.stringStorage.start + r.strOffset +
        (if e.isUtf16 then r.strLength * 2 else r.strLength) > f.stringStorage.stop
    · refine .range _ _ hnamed ?_
      rw [t.sectionSpan_stringStorage]
      exact hout
    · simp only [if_neg hout] at h
      cases h

theorem stringData_ne_none (t : ParseTrace boundCount buf f w dbg) {isUtf16 : Bool}
    {r : StringRef} {i kind : Nat} (hoff : r.strOffset ≤ u32Max) (hlen : r.strLength ≤ u32Max) :
    f.stringData i kind isUtf16 r ≠ .ok none := by
  rw [stringData_eq t.stringSections hoff hlen]
  intro h
  by_cases hzero : r.strLength = 0
  · rw [if_pos hzero] at h
    cases h
  · rw [if_neg hzero] at h
    by_cases hout : f.stringStorage.start + r.strOffset +
        (if isUtf16 then r.strLength * 2 else r.strLength) > f.stringStorage.stop
    · simp only [if_pos hout] at h
      cases h
    · simp only [if_neg hout] at h
      cases h

/-- The text of a range inside the string storage. -/
theorem stringAsStr_of_inside (t : ParseTrace boundCount buf f w dbg) {i : Nat} {sd : StringData}
    (hget : f.stringGet i = .ok (some sd))
    (hin : sd.len > 0 → f.stringStorage.start ≤ sd.offset ∧
      sd.offset + sd.len ≤ f.stringStorage.stop) : ∃ s, f.stringAsStr i = .ok (some s) := by
  rw [HbcFile.stringAsStr, hget, Loop.ok_bind]
  by_cases hzero : sd.len = 0
  · exact ⟨_, if_pos hzero⟩
  · obtain ⟨hlo, hhi⟩ := hin (Nat.pos_of_ne_zero hzero)
    have hstorage := t.stringSections.storage
    have hstart := t.stringSections.storage_le
    have hsize := t.stringSections.storageSize_le
    have hpos : 128 ≤ f.stringStorage.start := by
      rw [t.stringStorage_eq]
      exact t.done.placed.start_ge _ (t.done.span_required
        (sectionPlan_stringStorage f.header)).1 (fun h => by cases h)
    have hoff : ¬ sd.offset = 0 := by omega
    have hend : sd.offset + sd.len ≤ u64Max := by
      simp only [u32Max] at hstart hsize
      simp only [Span.stop] at hhi
      simp only [u64Max]
      omega
    have hbuf : ¬ sd.offset + sd.len > f.buf.length := by omega
    simp only [if_neg hzero, if_neg hoff, checkedU64_of_le hend, Loop.ok_bind, if_neg hbuf]
    cases sd.isUtf16 with
    | true => exact ⟨_, rfl⟩
    | false => exact ⟨_, rfl⟩

theorem stringResolved (t : ParseTrace boundCount buf f w dbg) (i : Nat) : f.StringResolved i := by
  by_cases hi : i < f.stringCount
  · obtain ⟨e, kind, hentry, ⟨hsentinel, hrange, hget⟩ | ⟨r, hnamed, hoff, hlen, hget⟩⟩ :=
      t.stringGet_cases hi
    · refine ⟨?_, fun _ => ⟨e, hentry, ?_, ?_⟩, ?_⟩
      · rw [hget]
        exact iff_of_false (fun h => by cases h) (by omega)
      · intro sd hsd
        rw [hget] at hsd
        cases hsd
      · exact fun _ _ => .index hsentinel hrange
      · intro sd hsd
        rw [hget] at hsd
        cases hsd
    · refine ⟨?_, fun _ => ⟨e, hentry, ?_, ?_⟩, ?_⟩
      · rw [hget]
        exact iff_of_false (t.stringData_ne_none hoff hlen) (by omega)
      · intro sd hsd
        exact ⟨_, _, t.resolves_of_stringData hnamed hoff hlen (hget ▸ hsd)⟩
      · intro err herr
        exact t.range_of_stringData hnamed hoff hlen (hget ▸ herr)
      · intro sd hsd
        have hresolves := t.resolves_of_stringData hnamed hoff hlen (hget ▸ hsd)
        refine t.stringAsStr_of_inside hsd fun hpos => ?_
        have hinside := hresolves.inside hpos
        rwa [t.sectionSpan_stringStorage] at hinside
  · have hnone : f.stringGet i = .ok none := by
      rw [HbcFile.stringGet, if_pos (Nat.not_lt.mp hi)]
    refine ⟨iff_of_true hnone (Nat.not_lt.mp hi), fun h => absurd h hi, fun sd hsd => ?_⟩
    rw [hnone] at hsd
    cases hsd

end ParseTrace

/-- Every index of an accepted file resolves to the range that its entry names, inside the
string storage, or to an error that says why not. -/
theorem parse_stringResolved {boundCount : BoundCount} {buf : List UInt8} {f : HbcFile}
    (h : parse boundCount buf = .ok f) (i : Nat) : f.StringResolved i := by
  obtain ⟨w, dbg, t⟩ := parse_eq_ok.mp h
  exact t.stringResolved i

theorem parse_stringResolved_sample : ∃ f, parse checkedBoundCount sampleBuffer = .ok f ∧
    f.StringResolved 0 := by
  obtain ⟨f, hparse, -⟩ := Loop.exists_of_okAnd (x := parse checkedBoundCount sampleBuffer)
    (p := fun _ => true) (by decide +kernel)
  exact ⟨f, hparse, parse_stringResolved hparse 0⟩

end Hermes
