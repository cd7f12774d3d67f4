-- SUMMARY: The layout an accepted v98 late-form file gets depends on its eligible large-header offsets, not on the order or the repetition of its function headers.
import DroidsawHermes.Parser.LayoutSpec
import DroidsawHermes.Parser.BodyView

/-!
# The layout of an accepted file

The specification reads a buffer at and past the eligible offsets only, and these
lie past the function-header table. Files that agree elsewhere and list the same
function headers, in any order and any number of times, get the same layout.
-/

open Bytes

namespace Hermes

namespace LayoutSpec

/-! ## What the specification reads -/

section Congr

variable {n : Nat} {a b : List UInt8}

theorem count_congr (h : AgreeFrom n a b) {table : Nat} (hn : n ≤ table) :
    count a table = count b table := readU32_congr h hn

theorem start_congr (h : AgreeFrom n a b) {table : Nat} (hn : n ≤ table) (i : Nat) :
    start a table i = start b table i := readU32_congr h (by omega)

theorem stop_congr (h : AgreeFrom n a b) {table : Nat} (hn : n ≤ table) (i : Nat) :
    stop a table i = stop b table i := readU32_congr h (by omega)

theorem target_congr (h : AgreeFrom n a b) {table : Nat} (hn : n ≤ table) (i : Nat) :
    target a table i = target b table i := readU32_congr h (by omega)

theorem readable_congr (h : AgreeFrom n a b) {table : Nat} (hn : n ≤ table) :
    Readable a table ↔ Readable b table := by
  simp only [Readable, count_congr h hn, h.length_eq]

theorem tableValid_congr (h : AgreeFrom n a b) {table : Nat} (hn : n ≤ table) (fnSize : Nat) :
    TableValid a table fnSize ↔ TableValid b table fnSize := by
  simp only [TableValid, readable_congr h hn, count_congr h hn, start_congr h hn, stop_congr h hn,
    target_congr h hn]

theorem tableWork_congr (h : AgreeFrom n a b) {table : Nat} (hn : n ≤ table) :
    tableWork a table = tableWork b table := by
  have hbad : (fun i => !decide (TripleOk a table i)) = fun i => !decide (TripleOk b table i) := by
    funext i
    have htriple : TripleOk a table i ↔ TripleOk b table i := by
      simp only [TripleOk, start_congr h hn, stop_congr h hn, target_congr h hn]
    rw [decide_eq_decide.mpr htriple]
  rw [tableWork, tableWork, walkWork, walkWork, hbad, count_congr h hn]
  exact if_congr (readable_congr h hn) rfl rfl

/-- The candidate table of a large header lies past its start. -/
theorem le_tablePos {off : Nat} (hoff : off ≤ u32Max) (shape : LargeHeaderLayout) :
    off ≤ tablePos shape off := by
  have hpos : saturatingAddU64 off shape.headerSize + 3 ≤ u64Max := by
    simp only [saturatingAddU64, u32Max, u64Max] at hoff ⊢
    cases shape <;> simp only [LargeHeaderLayout.headerSize] <;> omega
  have hle := le_align4U64 hpos
  simp only [saturatingAddU64, u32Max, u64Max] at hoff hle
  simp only [tablePos, saturatingAddU64, u64Max]
  omega

theorem flags?_congr (h : AgreeFrom n a b) {off : Nat} (hn : n ≤ off) (hoff : off ≤ u32Max)
    (shape : LargeHeaderLayout) : flags? a shape off = flags? b shape off := by
  refine h.getElem?_eq ?_
  simp only [saturatingAddU64, u32Max, u64Max] at hoff ⊢
  omega

theorem readsTable_congr (h : AgreeFrom n a b) {off : Nat} (hn : n ≤ off) (hoff : off ≤ u32Max)
    (shape : LargeHeaderLayout) : ReadsTable a shape off ↔ ReadsTable b shape off := by
  simp only [ReadsTable, flags?_congr h hn hoff]

theorem violates_congr (h : AgreeFrom n a b) {off : Nat} (hn : n ≤ off) (hoff : off ≤ u32Max)
    (shape : LargeHeaderLayout) : Violates a shape off ↔ Violates b shape off := by
  have htable := hn.trans (le_tablePos hoff shape)
  simp only [Violates, flags?_congr h hn hoff, tableValid_congr h htable, readU32_congr_add h hn]

theorem bothTables_congr (h : AgreeFrom n a b) {off : Nat} (hn : n ≤ off) (hoff : off ≤ u32Max) :
    BothTables a off ↔ BothTables b off := by
  simp only [BothTables, flags?_congr h hn hoff, count_congr h (hn.trans (le_tablePos hoff _))]

theorem decodesEqual_congr (h : AgreeFrom n a b) {off : Nat} (hn : n ≤ off)
    (hoff : off ≤ u32Max) : DecodesEqual a off ↔ DecodesEqual b off := by
  have htable : ∀ shape, n ≤ tablePos shape off := fun shape => hn.trans (le_tablePos hoff shape)
  simp only [DecodesEqual, flags?_congr h hn hoff, count_congr h (htable _), h.get?_eq (htable _)]

theorem tables_congr (h : AgreeFrom n a b) {off : Nat} (hn : n ≤ off) (hoff : off ≤ u32Max) :
    tables a off = tables b off := by
  rw [tables, propext (readsTable_congr h hn hoff .shape36),
    propext (readsTable_congr h hn hoff .shape40)]
  rfl

theorem compareWork_congr (h : AgreeFrom n a b) {off : Nat} (hn : n ≤ off) (hoff : off ≤ u32Max) :
    compareWork a off = compareWork b off := by
  rw [compareWork, propext (violates_congr h hn hoff .shape36),
    propext (violates_congr h hn hoff .shape40), propext (bothTables_congr h hn hoff),
    count_congr h (hn.trans (le_tablePos hoff _))]
  rfl

theorem le_of_mem_tables {off table : Nat} (hoff : off ≤ u32Max) (hmem : table ∈ tables a off) :
    off ≤ table := by
  simp only [tables, Finset.mem_union] at hmem
  rcases hmem with hmem | hmem <;> split at hmem <;> simp at hmem <;> subst hmem <;>
    exact le_tablePos hoff _

theorem work_congr (h : AgreeFrom n a b) {offs : Finset Nat}
    (hoffs : ∀ off ∈ offs, n ≤ off ∧ off ≤ u32Max) : work a offs = work b offs := by
  have htables : offs.biUnion (tables a) = offs.biUnion (tables b) :=
    Finset.biUnion_congr rfl fun off hoff => tables_congr h (hoffs off hoff).1 (hoffs off hoff).2
  have hcompare : ∑ off ∈ offs, compareWork a off = ∑ off ∈ offs, compareWork b off :=
    Finset.sum_congr rfl fun off hoff =>
      compareWork_congr h (hoffs off hoff).1 (hoffs off hoff).2
  rw [work, work, hcompare, ← htables]
  congr 1
  refine Finset.sum_congr rfl fun table htable => ?_
  obtain ⟨off, hoff, hmem⟩ := Finset.mem_biUnion.mp htable
  exact tableWork_congr h ((hoffs off hoff).1.trans (le_of_mem_tables (hoffs off hoff).2 hmem))

open Classical in
/-- The layout that a set of offsets asks for depends on the bytes from the least
offset on. -/
theorem layout_congr (h : AgreeFrom n a b) {offs : Finset Nat}
    (hoffs : ∀ off ∈ offs, n ≤ off ∧ off ≤ u32Max) : layout a offs = layout b offs := by
  have hall : ∀ {p q : Nat → Prop}, (∀ off, n ≤ off → off ≤ u32Max → (p off ↔ q off)) →
      ((∀ off ∈ offs, p off) ↔ ∀ off ∈ offs, q off) := fun hpq =>
    forall₂_congr fun off hoff => hpq off (hoffs off hoff).1 (hoffs off hoff).2
  have hnone : ∀ shape, (∀ off ∈ offs, ¬ Violates a shape off) ↔
      ∀ off ∈ offs, ¬ Violates b shape off := fun shape =>
    hall fun off hn hoff => not_congr (violates_congr h hn hoff shape)
  have hsome : ∀ shape, (∃ off ∈ offs, Violates a shape off) ↔
      ∃ off ∈ offs, Violates b shape off := fun shape =>
    exists_congr fun off => and_congr_right fun hoff =>
      violates_congr h (hoffs off hoff).1 (hoffs off hoff).2 shape
  have hequal : (∀ off ∈ offs, DecodesEqual a off) ↔ ∀ off ∈ offs, DecodesEqual b off :=
    hall fun off hn hoff => decodesEqual_congr h hn hoff
  rw [layout, layout, work_congr h hoffs, h.length_eq]
  refine if_congr Iff.rfl (if_congr ?_ rfl (if_congr ?_ rfl rfl)) rfl
  · exact and_congr (hnone .shape36) (or_congr (hsome .shape40) hequal)
  · exact and_congr (hnone .shape40) (hsome .shape36)

end Congr

end LayoutSpec

/-! ## Eligible offsets of an accepted file -/

/-- A version-98 file in the late form. -/
def HbcFile.IsV98Late (f : HbcFile) : Prop := f.header.layout = .v98LateToV99 ∧ f.version = 98

/-- The large-header offset that a small entry composes, if it overflowed. -/
def composedOff (entry : List UInt8) : Option Nat :=
  match entry[11]? with
  | none => none
  | some flagsByte =>
    if (flagsByte.toNat >>> 5) &&& 1 = 0 then none
    else some ((readBitfield entry 46 8 <<< 24) ||| readBitfield entry 0 25)

theorem composedOff_le {entry : List UInt8} {off : Nat} (h : composedOff entry = some off) :
    off ≤ u32Max := by
  simp only [composedOff] at h
  split at h
  · cases h
  · split at h
    · cases h
    · cases h
      have hhi : readBitfield entry 46 8 <<< 24 < 2 ^ 32 := by
        have := readBitfield_lt entry 46 8
        rw [Nat.shiftLeft_eq]
        omega
      have hlo : readBitfield entry 0 25 < 2 ^ 32 :=
        (readBitfield_lt entry 0 25).trans (by decide)
      have := Nat.or_lt_two_pow hhi hlo
      simp only [u32Max]
      omega

theorem HbcFile.mem_eligibleOffsets {f : HbcFile} {off : Nat} :
    off ∈ f.eligibleOffsets ↔
      (∃ i < f.functionCount, f.overflowedLargeOffV98late i = some off) ∧
        overflowHeaderIsOob off f.buf.length = false ∧
          f.overflowHeaderOverlapsSynthesized off = false := by
  simp only [HbcFile.eligibleOffsets, HbcFile.eligibleAmong, List.mem_toFinset, List.mem_filter,
    List.mem_filterMap, List.mem_range, Bool.not_eq_true', Bool.or_eq_false_iff]

namespace ParseTrace

variable {boundCount : BoundCount} {buf buf' : List UInt8} {f g : HbcFile} {w w' : SectionWalk}
  {dbg dbg' : Option DebugInfoV96}

theorem overflowedLargeOff_eq (t : ParseTrace boundCount buf f w dbg) {i : Nat}
    (hi : i < f.functionCount) :
    f.overflowedLargeOffV98late i = composedOff (f.smallEntry i) := by
  have hget : get? f.buf (f.entryOff i) (f.entryOff i + f.funcHeaderSize) =
      some (f.smallEntry i) := if_pos ⟨by omega, t.entry_le hi⟩
  simp only [HbcFile.overflowedLargeOffV98late, hget]
  rfl

/-- An eligible large header lies past the function-header table. -/
theorem eligible_bounds (t : ParseTrace boundCount buf f w dbg) {off : Nat}
    (hoff : off ∈ f.eligibleOffsets) : f.funcHeaders.stop ≤ off ∧ off ≤ u32Max := by
  obtain ⟨⟨i, hi, hcompose⟩, -, hclear⟩ := HbcFile.mem_eligibleOffsets.mp hoff
  rw [t.overflowedLargeOff_eq hi] at hcompose
  have hmax := composedOff_le hcompose
  refine ⟨?_, hmax⟩
  have hge : headerSize ≤ off := HbcFile.largeOff_ge_of_not_overlaps (f := f) (by simp [hclear])
  by_contra hlt
  have hhit : spansIntersect off largeFunctionHeaderSize f.funcHeaders.start f.funcHeaders.size =
      true := by
    have hstop : f.funcHeaders.stop ≤ u64Max :=
      t.spansBounded _ (List.mem_cons_of_mem _ (List.mem_map.mpr
        ⟨.functionHeaders, by simp [emitSynthesizedSections], rfl⟩))
    have hlarge : Span.stop ⟨off, largeFunctionHeaderSize⟩ ≤ u64Max := by
      simp only [Span.stop, largeFunctionHeaderSize, u64Max, u32Max] at hmax ⊢
      omega
    refine (spansIntersect_eq_true_iff hlarge hstop).mpr (Span.not_disjoint_iff.mpr ?_)
    rw [t.funcHeaders_span] at hlt ⊢
    simp only [Span.stop, headerSize, largeFunctionHeaderSize] at hlt hge ⊢
    omega
  have hoverlap : f.overflowHeaderOverlapsSynthesized off = true := by
    simp only [HbcFile.overflowHeaderOverlapsSynthesized, HbcFile.spanOverlapsSynthesized,
      emitSynthesizedSections, List.any_cons, HbcFile.synthesizedSectionSpanByName, hhit,
      Bool.true_or]
    split <;> rfl
  rw [hclear] at hoverlap
  cases hoverlap

/-- The layout is what the eligible offsets ask for. -/
theorem largeHeaderLayout_eq (t : ParseTrace boundCount buf f w dbg) (hlate : f.IsV98Late) :
    f.largeHeaderLayout = LayoutSpec.layout buf f.eligibleOffsets := by
  have hselect : f.largeHeaderLayout =
      (buildFile buf f.header w dbg).selectedLargeHeaderLayout :=
    congrArg HbcFile.largeHeaderLayout t.file_eq
  have hoffs : f.eligibleOffsets = (buildFile buf f.header w dbg).eligibleOffsets :=
    (congrArg HbcFile.eligibleOffsets t.file_eq :)
  rw [hselect, hoffs]
  exact LayoutSpec.selectedLargeHeaderLayout_eq _ hlate.1 hlate.2

/-- A late-form header of version 98 is read from the first 128 bytes. -/
theorem header_eq (t : ParseTrace boundCount buf f w dbg)
    (t' : ParseTrace boundCount buf' g w' dbg') (hf : f.IsV98Late) (hg : g.IsV98Late)
    (hhead : buf'.take headerSize = buf.take headerSize) : g.header = f.header := by
  have hlate : ∀ {b : List UInt8} {h : HbcHeader}, HeaderOf b h → h.layout = .v98LateToV99 →
      h.version = 98 → h = .v98LateToV99 (parseV98LateToV99 b 98) := by
    intro b h hof hlayout hversion
    rw [hof.common.version] at hversion
    cases hof with
    | v98Late => rfl
    | v99 hlo _ => omega
    | preV84 | v84to86 | v87to96 | v97 | v98Early => cases hlayout
  have hword : ∀ off, off + 4 ≤ headerSize → readU32 buf' off = readU32 buf off := by
    intro off hoff
    have hlen := t.length_ge
    have hlen' := t'.length_ge
    rw [readU32_eq_ofLE (by omega), readU32_eq_ofLE (by omega)]
    have hslice : ∀ b : List UInt8, slice b off (off + 4) = slice (b.take headerSize) off (off + 4) :=
      by
      intro b
      simp only [slice, List.drop_take, List.take_take]
      congr 1
      omega
    rw [hslice buf', hslice buf, hhead]
  rw [hlate t.headerOf hf.1 hf.2, hlate t'.headerOf hg.1 hg.2]
  simp only [parseV98LateToV99]
  simp (disch := decide) only [hword]

/-- Files that differ in function headers only, and list the same ones, have the
same eligible offsets. -/
theorem eligibleOffsets_eq (t : ParseTrace boundCount buf f w dbg)
    (t' : ParseTrace boundCount buf' g w' dbg') (hheader : g.header = f.header)
    (hlen : buf'.length = buf.length)
    (hentries : ∀ e, (∃ i < g.functionCount, g.smallEntry i = e) ↔
      ∃ i < f.functionCount, f.smallEntry i = e) : g.eligibleOffsets = f.eligibleOffsets := by
  have hwalk : w' = w := by
    have hw := t'.walk_ok
    rw [hheader, hlen, t.walk_ok] at hw
    exact (Except.ok.inj hw).symm
  have hover : ∀ off, g.overflowHeaderOverlapsSynthesized off =
      f.overflowHeaderOverlapsSynthesized off := by
    intro off
    simp only [HbcFile.overflowHeaderOverlapsSynthesized, HbcFile.spanOverlapsSynthesized,
      emitSynthesizedSections, List.any_cons, List.any_nil, HbcFile.synthesizedSectionSpanByName,
      t.funcHeaders_eq, t'.funcHeaders_eq, t.smallStringTable_eq, t'.smallStringTable_eq,
      t.overflowStringTable_eq, t'.overflowStringTable_eq, t.regexpTable_eq, t'.regexpTable_eq,
      t.objShapeTable_eq, t'.objShapeTable_eq, hwalk]
  have hcompose : ∀ off, (∃ i < g.functionCount, g.overflowedLargeOffV98late i = some off) ↔
      ∃ i < f.functionCount, f.overflowedLargeOffV98late i = some off := by
    intro off
    constructor
    · rintro ⟨i, hi, hoff⟩
      obtain ⟨j, hj, hentry⟩ := (hentries _).mp ⟨i, hi, rfl⟩
      refine ⟨j, hj, ?_⟩
      rw [t.overflowedLargeOff_eq hj, hentry, ← t'.overflowedLargeOff_eq hi, hoff]
    · rintro ⟨i, hi, hoff⟩
      obtain ⟨j, hj, hentry⟩ := (hentries _).mpr ⟨i, hi, rfl⟩
      refine ⟨j, hj, ?_⟩
      rw [t'.overflowedLargeOff_eq hj, hentry, ← t.overflowedLargeOff_eq hi, hoff]
  ext off
  rw [HbcFile.mem_eligibleOffsets, HbcFile.mem_eligibleOffsets, hcompose, hover, t.buf_eq,
    t'.buf_eq, hlen]

end ParseTrace

/-- The layout of an accepted v98 late-form file is what its set of eligible
large-header offsets asks for. A file with the same bytes outside the table of
function headers and the same function headers in it, in any order and any
number of times, has the same layout. -/
theorem parse_largeHeaderLayout {boundCount : BoundCount} {buf : List UInt8} {f : HbcFile}
    (h : parse boundCount buf = .ok f) (hlate : f.IsV98Late) :
    f.largeHeaderLayout = LayoutSpec.layout buf f.eligibleOffsets ∧
    ∀ buf' g, parse boundCount buf' = .ok g → g.IsV98Late →
      buf'.take headerSize = buf.take headerSize → AgreeFrom f.funcHeaders.stop buf' buf →
      (∀ e, (∃ i < g.functionCount, g.smallEntry i = e) ↔
        ∃ i < f.functionCount, f.smallEntry i = e) →
      g.largeHeaderLayout = f.largeHeaderLayout := by
  obtain ⟨w, dbg, t⟩ := parse_eq_ok.mp h
  refine ⟨t.largeHeaderLayout_eq hlate, fun buf' g h' hlate' hhead hrest hentries => ?_⟩
  obtain ⟨w', dbg', t'⟩ := parse_eq_ok.mp h'
  have hheader := t.header_eq t' hlate hlate' hhead
  have hoffs := t.eligibleOffsets_eq t' hheader hrest.length_eq hentries
  rw [t.largeHeaderLayout_eq hlate, t'.largeHeaderLayout_eq hlate', hoffs]
  exact LayoutSpec.layout_congr hrest fun off hoff => t.eligible_bounds hoff

/-- A v98 late-form file with a small and an overflowed function, in the given
order. The large header admits the 40-byte shape only. -/
def sampleLateBuffer (entries : List UInt8) : List UInt8 :=
  sampleHeader 98 [240, 0, 2, 0, 0, 0, 0, 0, 0, 0, 0, 0, 0, 0, 0, 0, 0, 0, 0, 208]
    ++ entries
    ++ [0, 0, 0, 0, 0, 0, 0, 0]
    ++ [156, 0, 0, 0, 0, 0, 0, 0, 0, 0, 0, 0, 4, 0, 0, 0] ++ List.replicate 19 0 ++ [3, 0, 0, 0, 0]
    ++ List.replicate 40 0

def sampleSmallEntry : List UInt8 := [152, 0, 0, 0, 4, 0, 0, 0, 0, 0, 0, 0]

def sampleOverflowedEntry : List UInt8 := [160, 0, 0, 0, 0, 0, 0, 0, 0, 0, 0, 0x20]

theorem parse_largeHeaderLayout_swapped : ∃ f g,
    parse checkedBoundCount (sampleLateBuffer (sampleSmallEntry ++ sampleOverflowedEntry)) =
      .ok f ∧
    parse checkedBoundCount (sampleLateBuffer (sampleOverflowedEntry ++ sampleSmallEntry)) =
      .ok g ∧
    LayoutSpec.layout (sampleLateBuffer (sampleSmallEntry ++ sampleOverflowedEntry))
      f.eligibleOffsets = some .shape40 ∧ g.largeHeaderLayout = some .shape40 := by
  obtain ⟨f, hparse, hcheck⟩ := Loop.exists_of_okAnd
    (x := parse checkedBoundCount (sampleLateBuffer (sampleSmallEntry ++ sampleOverflowedEntry)))
    (p := fun f => (f.header.layout = .v98LateToV99 ∧ f.version = 98) ∧ f.functionCount = 2 ∧
      f.smallEntry 0 = sampleSmallEntry ∧ f.smallEntry 1 = sampleOverflowedEntry ∧
      f.funcHeaders.stop = 152 ∧ f.largeHeaderLayout = some .shape40) (by decide +kernel)
  obtain ⟨g, hparse', hcheck'⟩ := Loop.exists_of_okAnd
    (x := parse checkedBoundCount (sampleLateBuffer (sampleOverflowedEntry ++ sampleSmallEntry)))
    (p := fun f => (f.header.layout = .v98LateToV99 ∧ f.version = 98) ∧ f.functionCount = 2 ∧
      f.smallEntry 0 = sampleOverflowedEntry ∧ f.smallEntry 1 = sampleSmallEntry)
    (by decide +kernel)
  simp only [decide_eq_true_eq] at hcheck hcheck'
  obtain ⟨hlate, hcount, h0, h1, hstop, hlayout⟩ := hcheck
  obtain ⟨hlate', hcount', h0', h1'⟩ := hcheck'
  obtain ⟨hspec, hsame⟩ := parse_largeHeaderLayout hparse hlate
  refine ⟨f, g, hparse, hparse', hspec ▸ hlayout, ?_⟩
  rw [← hlayout]
  refine hsame _ g hparse' hlate' (by decide +kernel) ?_ fun e => ?_
  · rw [hstop]
    exact ⟨by decide +kernel, by decide +kernel⟩
  · have htwo : ∀ {h : HbcFile} {a b : List UInt8}, h.functionCount = 2 → h.smallEntry 0 = a →
        h.smallEntry 1 = b → ((∃ i < h.functionCount, h.smallEntry i = e) ↔ a = e ∨ b = e) := by
      rintro h a b hcount rfl rfl
      rw [hcount]
      constructor
      · rintro ⟨i, hi, rfl⟩
        obtain rfl | rfl : i = 0 ∨ i = 1 := by omega
        · exact Or.inl rfl
        · exact Or.inr rfl
      · rintro (heq | heq)
        · exact ⟨0, by omega, heq⟩
        · exact ⟨1, by omega, heq⟩
    rw [htwo hcount h0 h1, htwo hcount' h0' h1']
    exact or_comm

end Hermes
