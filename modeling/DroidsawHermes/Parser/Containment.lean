-- SUMMARY: Section containment: where the sections of an accepted file lie, which bytes the table accessors read, and the counts for which both are as the header says.
import DroidsawHermes.Parser.RawEntries
import DroidsawHermes.Parser.Regions

/-!
# Section containment

The sections of an accepted file are aligned, in order and inside the buffer, and
every table but two has the size that its count asks for. The RegExp table and
the CJS module table go through `section_opt!`, which narrows `count * 8` to 32
bits. An accessor goes by the count alone.
-/

open Bytes

namespace Hermes

/-! ## Word-pair accessors -/

structure ModuleData where
  symbolId : Nat
  funcOffset : Nat
  deriving DecidableEq, Repr

structure RegExpData where
  offset : Nat
  length : Nat
  deriving DecidableEq, Repr

structure ObjectShapeData where
  keyBufferOffset : Nat
  numProps : Nat
  deriving DecidableEq, Repr

/-- An entry of two words, read with `read_u32`; `None` past the count and for an
absent table. -/
def wordPairGet (buf : List UInt8) (table : Span) (count index : Nat) : Option (Nat × Nat) :=
  if index ≥ count ∨ table.size = 0 then none
  else
    let off := table.start + index * 8
    some (readU32 buf off, readU32 buf (off + 4))

namespace HbcFile

variable (f : HbcFile)

def cjsModuleGet (index : Nat) : Option ModuleData :=
  (wordPairGet f.buf f.cjsModules f.header.cjsModuleCount index).map fun (symbolId, funcOffset) =>
    ⟨symbolId, funcOffset⟩

def regexpGet (index : Nat) : Option RegExpData :=
  (wordPairGet f.buf f.regexpTable f.header.regExpCount index).map fun (offset, length) =>
    ⟨offset, length⟩

def objectShapeGet (index : Nat) : Option ObjectShapeData :=
  (wordPairGet f.buf f.objShapeTable f.header.objShapeTableCount index).map
    fun (keyBufferOffset, numProps) => ⟨keyBufferOffset, numProps⟩

/-! ## Containment -/

/-- The recorded span of a section; empty when there is none. -/
def sectionSpan (name : SectionName) : Span :=
  ((f.sections.find? fun e => e.name = name).map SectionEntry.span).getD Span.absent

/-- The accessor depends on no byte outside the span. -/
def ReadsOnly {α : Type} (s : Span) (get : HbcFile → α) : Prop :=
  ∀ buf, AgreeOn s.start s.stop buf f.buf → get { f with buf := buf } = get f

end HbcFile

/-- The size that each table has by its count in the header. -/
def tableSizes (header : HbcHeader) : List (SectionName × Nat) :=
  [ (.functionHeaders, header.functionCount * header.layout.funcHeaderSize),
    (.stringKinds, header.stringKindCount * 4),
    (.identifierHashes, header.identifierCount * 4),
    (.smallStringTable, header.stringCount * 4),
    (.overflowStringTable, header.overflowStringCount * 8),
    (.objShapeTable, header.objShapeTableCount * 8),
    (.bigIntTable, header.bigIntCount * 8),
    (.regExpTable, header.regExpCount * 8),
    (.cjsModules, header.cjsModuleCount * 8),
    (.functionSourceTable, header.functionSourceCount * 8) ]

/-- The sections lie where the header says and the accessors stay inside them. -/
structure HbcFile.Contained (f : HbcFile) : Prop where
  aligned : ∀ e ∈ f.sections, 4 ∣ e.span.start
  ordered : f.sections.Pairwise fun a b => a.span.stop ≤ b.span.start
  inside : ∀ e ∈ f.sections, e.span.stop ≤ f.buf.length
  sizes : ∀ p ∈ tableSizes f.header, (f.sectionSpan p.1).size = p.2
  smallStrings : ∀ i < f.stringCount,
    f.ReadsOnly (f.sectionSpan .smallStringTable) (·.rawSmallStringTableEntry i)
  overflowStrings : ∀ i < f.header.overflowStringCount,
    f.ReadsOnly (f.sectionSpan .overflowStringTable) (·.rawOverflowStringTableEntryV96 i)
  regexps : ∀ i < f.header.regExpCount,
    f.ReadsOnly (f.sectionSpan .regExpTable) (·.regexpGet i)
  bigints : ∀ i < f.header.bigIntCount,
    f.ReadsOnly (f.sectionSpan .bigIntTable) (·.bigintTableEntryRaw i)
  shapes : ∀ i < f.header.objShapeTableCount,
    f.ReadsOnly (f.sectionSpan .objShapeTable) (·.objectShapeGet i)
  modules : ∀ i < f.header.cjsModuleCount,
    f.ReadsOnly (f.sectionSpan .cjsModules) (·.cjsModuleGet i)
  functionsV96 : ∀ i < f.functionCount,
    f.ReadsOnly (f.sectionSpan .functionHeaders) (·.rawSmallFuncHeaderV96 i)
  functionsV98 : ∀ i < f.functionCount,
    f.ReadsOnly (f.sectionSpan .functionHeaders) (·.rawSmallFuncHeaderV98 i)

/-! ## What an entry of a table reads -/

/-- The entries of a table with the given stride lie inside it. -/
theorem agreeOn_entry {s : Span} {a b : List UInt8} (h : AgreeOn s.start s.stop a b)
    {count stride i n : Nat} (hsize : s.size = count * stride) (hi : i < count)
    (hn : n ≤ stride) : AgreeOn (s.start + i * stride) (s.start + i * stride + n) a b := by
  have hmul : (i + 1) * stride ≤ count * stride := Nat.mul_le_mul_right _ hi
  rw [Nat.succ_mul] at hmul
  refine h.mono (by omega) ?_
  simp only [Span.stop]
  omega

/-- The two words of an entry of eight bytes. -/
theorem agreeOn_words {s : Span} {a b : List UInt8} (h : AgreeOn s.start s.stop a b)
    {count i : Nat} (hsize : s.size = count * 8) (hi : i < count) :
    AgreeOn (s.start + i * 8) (s.start + i * 8 + 4) a b ∧
      AgreeOn (s.start + i * 8 + 4) (s.start + i * 8 + 4 + 4) a b :=
  ⟨agreeOn_entry h hsize hi (by decide),
    (agreeOn_entry h hsize hi (Nat.le_refl 8)).mono (by omega) (by omega)⟩

theorem wordPairGet_congr {s : Span} {a b : List UInt8} (h : AgreeOn s.start s.stop a b)
    {count : Nat} (hsize : s.size = count * 8) (i : Nat) :
    wordPairGet a s count i = wordPairGet b s count i := by
  simp only [wordPairGet]
  split
  · rfl
  · next hin =>
    have hi : i < count := by omega
    obtain ⟨hfirst, hsecond⟩ := agreeOn_words h hsize hi
    rw [readU32_congr_on hfirst, readU32_congr_on hsecond]

theorem rawWordPair_congr {s : Span} {a b : List UInt8} (h : AgreeOn s.start s.stop a b)
    {count : Nat} (hsize : s.size = count * 8) (i : Nat) :
    rawWordPair a s count i = rawWordPair b s count i := by
  simp only [rawWordPair]
  split
  · rfl
  · next hin =>
    have hi : i < count := by omega
    obtain ⟨hfirst, hsecond⟩ := agreeOn_words h hsize hi
    rw [hfirst.get?_eq, hsecond.get?_eq]

theorem smallStringEntry_congr {f : HbcFile} {buf : List UInt8}
    (h : AgreeOn f.smallStringTable.start f.smallStringTable.stop buf f.buf)
    (hsize : f.smallStringTable.size = f.stringCount * 4) (i : Nat) :
    { f with buf := buf }.rawSmallStringTableEntry i = f.rawSmallStringTableEntry i := by
  by_cases hi : i < f.stringCount
  · have hentry := (agreeOn_entry h hsize hi (Nat.le_refl 4)).get?_eq
    simp only [HbcFile.rawSmallStringTableEntry, HbcFile.stringCount, hentry]
    rfl
  · simp only [HbcFile.stringCount] at hi
    have hpast : i ≥ f.header.stringCount := by omega
    simp only [HbcFile.rawSmallStringTableEntry, HbcFile.stringCount, hpast, true_or, if_true]

/-- The entry of a function header is a whole entry of its table. -/
theorem funcHeaderEntry_congr {f : HbcFile} {buf : List UInt8}
    (h : AgreeOn f.funcHeaders.start f.funcHeaders.stop buf f.buf) {stride : Nat}
    (hsize : f.funcHeaders.size = f.functionCount * stride) {i : Nat} (hi : i < f.functionCount) :
    get? buf (f.funcHeaders.start + i * stride) (f.funcHeaders.start + i * stride + stride) =
      get? f.buf (f.funcHeaders.start + i * stride)
        (f.funcHeaders.start + i * stride + stride) :=
  (agreeOn_entry h hsize hi (Nat.le_refl stride)).get?_eq

theorem rawSmallFuncHeaderV96_congr {f : HbcFile} {buf : List UInt8}
    (h : AgreeOn f.funcHeaders.start f.funcHeaders.stop buf f.buf)
    (hsize : f.funcHeaders.size = f.functionCount * f.funcHeaderSize) {i : Nat}
    (hi : i < f.functionCount) :
    { f with buf := buf }.rawSmallFuncHeaderV96 i = f.rawSmallFuncHeaderV96 i := by
  simp only [HbcFile.funcHeaderSize] at hsize
  simp only [HbcFile.rawSmallFuncHeaderV96]
  cases hlayout : f.header.layout with
  | v97toV98Early | v98LateToV99 => rfl
  | preV84 | v84to86 | v87to96 =>
    have hsize' : f.funcHeaders.size = f.functionCount * 16 := by rw [hsize, hlayout]; rfl
    simp only [funcHeaderEntry_congr h hsize' hi, HbcFile.functionCount]
    rfl

theorem rawEntryV98_congr {f : HbcFile} {buf : List UInt8}
    (h : AgreeOn f.funcHeaders.start f.funcHeaders.stop buf f.buf)
    (hsize : f.funcHeaders.size = f.functionCount * 12) {i : Nat} (hi : i < f.functionCount)
    (split : List UInt8 → SmallFuncHeaderV98Raw) :
    { f with buf := buf }.rawEntryV98 i split = f.rawEntryV98 i split := by
  simp only [HbcFile.rawEntryV98, funcHeaderEntry_congr h hsize hi, HbcFile.functionCount]
  rfl

theorem rawSmallFuncHeaderV98_congr {f : HbcFile} {buf : List UInt8}
    (h : AgreeOn f.funcHeaders.start f.funcHeaders.stop buf f.buf)
    (hsize : f.funcHeaders.size = f.functionCount * f.funcHeaderSize) {i : Nat}
    (hi : i < f.functionCount) :
    { f with buf := buf }.rawSmallFuncHeaderV98 i = f.rawSmallFuncHeaderV98 i := by
  simp only [HbcFile.funcHeaderSize] at hsize
  simp only [HbcFile.rawSmallFuncHeaderV98]
  cases hheader : f.header with
  | preV84 | v84to86 | v87to96 => rfl
  | v97toV98Early | v98LateToV99 =>
    have hentry := rawEntryV98_congr h (by rw [hsize, hheader]; rfl) hi
    simp only [hheader] at hentry
    simp only [hentry]

/-! ## Alignment and sizes -/

/-- Every section starts at a multiple of 4, and so would the next one. -/
def SectionWalk.Aligned (w : SectionWalk) : Prop :=
  4 ∣ w.cursor ∧ ∀ e ∈ w.sections, 4 ∣ e.span.start

theorem SectionWalk.Aligned.step {bufLen : Nat} {w w' : SectionWalk} {p : PlannedSection}
    (hw : w.Aligned) (h : w.step bufLen p = .ok w') : w'.Aligned := by
  rcases SectionWalk.step_cases h with ⟨-, hadd⟩ | ⟨-, rfl⟩
  · obtain ⟨-, -, -, rfl⟩ := SectionWalk.addSection_eq_ok.mp hadd
    refine ⟨Nat.dvd_mul_left 4 _, fun e he => ?_⟩
    rcases List.mem_append.mp he with hold | hnew
    · exact hw.2 e hold
    · rw [List.mem_singleton.mp hnew]
      exact hw.1
  · exact hw

theorem walkSections_aligned {header : HbcHeader} {bufLen : Nat} {w : SectionWalk}
    (h : walkSections header bufLen = .ok w) : w.Aligned := by
  have hrun : ∀ (plan : List PlannedSection) (v : SectionWalk), v.Aligned →
      plan.foldlM (SectionWalk.step bufLen) v = .ok w → w.Aligned := by
    intro plan
    induction plan with
    | nil =>
      rintro v hv hok
      cases hok
      exact hv
    | cons p rest ih =>
      intro v hv hok
      rw [List.foldlM_cons] at hok
      obtain ⟨v', hstep, hrest⟩ := Loop.bind_eq_ok.mp hok
      exact ih v' (hv.step hstep) hrest
  exact hrun _ _ ⟨by decide, by decide⟩ h

/-- A section that is not planned has no span. -/
theorem SectionWalk.Done.span_unplanned {header : HbcHeader} {bufLen : Nat} {w : SectionWalk}
    (hw : w.Done header bufLen) {name : SectionName} (hne : name ≠ .header)
    (h : name ∉ (sectionPlan header).map PlannedSection.name) : w.span name = Span.absent := by
  refine hw.span_absent hne fun size hmem => h ?_
  obtain ⟨p, hp, heq⟩ := List.mem_map.mp hmem
  exact List.mem_map.mpr ⟨p, List.mem_of_mem_filter hp, congrArg Prod.fst heq⟩

/-- A table without entries is not planned. -/
theorem objShapeTable_planned (header : HbcHeader) :
    ⟨.objShapeTable, header.objShapeTableCount * 8, false⟩ ∈ sectionPlan header ∨
      header.objShapeTableCount = 0 ∧
        .objShapeTable ∉ (sectionPlan header).map PlannedSection.name := by
  by_cases hcount : header.objShapeTableCount = 0
  · refine Or.inr ⟨hcount, ?_⟩
    simp only [sectionPlan, hcount, List.map_append]
    cases header.layout <;> split_ifs <;> simp_all
  · refine Or.inl (sectionPlan_objShapeTable ?_ (Nat.pos_of_ne_zero hcount))
    cases header <;> first | rfl | exact absurd rfl hcount

theorem bigIntTable_planned (header : HbcHeader) :
    ⟨.bigIntTable, header.bigIntCount * 8, false⟩ ∈ sectionPlan header ∨
      header.bigIntCount = 0 ∧ .bigIntTable ∉ (sectionPlan header).map PlannedSection.name := by
  by_cases hcount : header.bigIntCount = 0
  · refine Or.inr ⟨hcount, ?_⟩
    simp only [sectionPlan, hcount, List.map_append]
    cases header.layout <;> split_ifs <;> simp_all
  · have hpair : header.layout.hasBigIntPair = true := by
      cases header <;> first | rfl | exact absurd rfl hcount
    refine Or.inl ?_
    simp [sectionPlan, hpair, Nat.pos_of_ne_zero hcount]

theorem functionSourceTable_planned (header : HbcHeader) :
    ⟨.functionSourceTable, header.functionSourceCount * 8, false⟩ ∈ sectionPlan header ∨
      header.functionSourceCount = 0 ∧
        .functionSourceTable ∉ (sectionPlan header).map PlannedSection.name := by
  by_cases hcount : header.functionSourceCount = 0
  · refine Or.inr ⟨hcount, ?_⟩
    simp only [sectionPlan, hcount, List.map_append]
    cases header.layout <;> split_ifs <;> simp_all
  · have hlayout : header.layout ≠ .preV84 := by
      cases header <;> first | (intro h; cases h; done) | exact absurd rfl hcount
    refine Or.inl ?_
    simp [sectionPlan, hlayout, Nat.pos_of_ne_zero hcount]

namespace ParseTrace

variable {boundCount : BoundCount} {buf : List UInt8} {f : HbcFile} {w : SectionWalk}
  {dbg : Option DebugInfoV96}

theorem sectionSpan_eq (t : ParseTrace boundCount buf f w dbg) (name : SectionName) :
    f.sectionSpan name = w.span name := by
  simp only [HbcFile.sectionSpan, SectionWalk.span, t.sections_eq]

/-- A table that `section!` reads, or that is absent, has the size of its count. -/
theorem sectionSpan_size (t : ParseTrace boundCount buf f w dbg) {name : SectionName} {size : Nat}
    (hne : name ≠ .header)
    (h : ⟨name, size, false⟩ ∈ sectionPlan f.header ∨
      size = 0 ∧ name ∉ (sectionPlan f.header).map PlannedSection.name) :
    (f.sectionSpan name).size = size := by
  rw [t.sectionSpan_eq]
  rcases h with hplan | ⟨rfl, habsent⟩
  · exact (t.done.span_required hplan).2
  · rw [t.done.span_unplanned hne habsent]
    rfl

/-- `section_opt!` keeps the low 32 bits of the size. -/
theorem sectionSpan_size_opt (t : ParseTrace boundCount buf f w dbg) {name : SectionName}
    {size : Nat} (h : ⟨name, size, true⟩ ∈ sectionPlan f.header) :
    (f.sectionSpan name).size = size % 2 ^ 32 := by
  rw [t.sectionSpan_eq, t.done.span_size h]
  rfl

theorem regExpTable_size (t : ParseTrace boundCount buf f w dbg) :
    (f.sectionSpan .regExpTable).size = f.header.regExpCount * 8 % 2 ^ 32 :=
  t.sectionSpan_size_opt (by simp [sectionPlan])

theorem cjsModules_size (t : ParseTrace boundCount buf f w dbg) :
    (f.sectionSpan .cjsModules).size = f.header.cjsModuleCount * 8 % 2 ^ 32 :=
  t.sectionSpan_size_opt (by simp [sectionPlan])

/-- All tables have the size of their count, up to the narrowing of two. -/
theorem sizes_iff (t : ParseTrace boundCount buf f w dbg) :
    (∀ p ∈ tableSizes f.header, (f.sectionSpan p.1).size = p.2) ↔
      f.header.regExpCount * 8 ≤ u32Max ∧ f.header.cjsModuleCount * 8 ≤ u32Max := by
  have hshape := t.sectionSpan_size (by decide) ((objShapeTable_planned f.header).imp_right
    fun h => ⟨by rw [h.1], h.2⟩)
  have hbig := t.sectionSpan_size (by decide) ((bigIntTable_planned f.header).imp_right
    fun h => ⟨by rw [h.1], h.2⟩)
  have hsource := t.sectionSpan_size (by decide) ((functionSourceTable_planned f.header).imp_right
    fun h => ⟨by rw [h.1], h.2⟩)
  simp only [tableSizes, List.forall_mem_cons, List.not_mem_nil, false_implies, implies_true,
    and_true, hshape, hbig, hsource, t.regExpTable_size, t.cjsModules_size,
    t.sectionSpan_size (by decide) (.inl (sectionPlan_functionHeaders f.header)),
    t.sectionSpan_size (by decide) (.inl (sectionPlan_stringKinds f.header)),
    t.sectionSpan_size (by decide) (.inl (sectionPlan_identifierHashes f.header)),
    t.sectionSpan_size (by decide) (.inl (sectionPlan_smallStringTable f.header)),
    t.sectionSpan_size (by decide) (.inl (sectionPlan_overflowStringTable f.header)), true_and]
  simp only [u32Max]
  omega

/-- The sections are aligned, ordered and inside the buffer; the accessors stay
inside the tables that have the size of their count. -/
theorem contained (t : ParseTrace boundCount buf f w dbg)
    (hsizes : ∀ p ∈ tableSizes f.header, (f.sectionSpan p.1).size = p.2) : f.Contained := by
  have hsize : ∀ {name : SectionName} {size : Nat}, (name, size) ∈ tableSizes f.header →
      (f.sectionSpan name).size = size := fun hmem => hsizes _ hmem
  have hsmall : f.sectionSpan .smallStringTable = f.smallStringTable := by
    rw [t.sectionSpan_eq, t.smallStringTable_eq]
  have hoverflow : f.sectionSpan .overflowStringTable = f.overflowStringTable := by
    rw [t.sectionSpan_eq, t.overflowStringTable_eq]
  have hregexp : f.sectionSpan .regExpTable = f.regexpTable := by
    rw [t.sectionSpan_eq, t.regexpTable_eq]
  have hbig : f.sectionSpan .bigIntTable = f.bigIntTable := by
    rw [t.sectionSpan_eq, congrArg HbcFile.bigIntTable t.file_eq]
    rfl
  have hshape : f.sectionSpan .objShapeTable = f.objShapeTable := by
    rw [t.sectionSpan_eq, t.objShapeTable_eq]
  have hmodules : f.sectionSpan .cjsModules = f.cjsModules := by
    rw [t.sectionSpan_eq, congrArg HbcFile.cjsModules t.file_eq]
    rfl
  have hfuncs : f.sectionSpan .functionHeaders = f.funcHeaders := by
    rw [t.sectionSpan_eq, t.funcHeaders_eq]
  refine {
    aligned := ?aligned, ordered := ?ordered, inside := ?inside, sizes := hsizes,
    smallStrings := ?smallStrings, overflowStrings := ?overflowStrings, regexps := ?regexps,
    bigints := ?bigints, shapes := ?shapes, modules := ?modules, functionsV96 := ?functionsV96,
    functionsV98 := ?functionsV98 }
  case aligned =>
    rw [t.sections_eq]
    exact (walkSections_aligned t.walk_ok).2
  case ordered =>
    rw [t.sections_eq]
    exact t.done.placed.ordered.imp fun h => h.1
  case inside =>
    rw [t.sections_eq, t.buf_eq]
    exact t.done.placed.stop_le_bufLen
  case smallStrings =>
    intro i _ buf' hagree
    rw [hsmall] at hagree
    exact smallStringEntry_congr hagree
      (hsmall ▸ hsize (by simp [tableSizes, HbcFile.stringCount])) i
  case overflowStrings =>
    intro i _ buf' hagree
    rw [hoverflow] at hagree
    exact rawWordPair_congr hagree (hoverflow ▸ hsize (by simp [tableSizes])) i
  case regexps =>
    intro i _ buf' hagree
    rw [hregexp] at hagree
    exact congrArg _ (wordPairGet_congr hagree (hregexp ▸ hsize (by simp [tableSizes])) i)
  case bigints =>
    intro i _ buf' hagree
    rw [hbig] at hagree
    exact rawWordPair_congr hagree (hbig ▸ hsize (by simp [tableSizes])) i
  case shapes =>
    intro i _ buf' hagree
    rw [hshape] at hagree
    exact congrArg _ (wordPairGet_congr hagree (hshape ▸ hsize (by simp [tableSizes])) i)
  case modules =>
    intro i _ buf' hagree
    rw [hmodules] at hagree
    exact congrArg _ (wordPairGet_congr hagree (hmodules ▸ hsize (by simp [tableSizes])) i)
  case functionsV96 =>
    intro i hi buf' hagree
    rw [hfuncs] at hagree
    exact rawSmallFuncHeaderV96_congr hagree
      (hfuncs ▸ hsize (by simp [tableSizes, HbcFile.functionCount, HbcFile.funcHeaderSize])) hi
  case functionsV98 =>
    intro i hi buf' hagree
    rw [hfuncs] at hagree
    exact rawSmallFuncHeaderV98_congr hagree
      (hfuncs ▸ hsize (by simp [tableSizes, HbcFile.functionCount, HbcFile.funcHeaderSize])) hi

end ParseTrace

/-- The sections of an accepted file are as its header says, and the accessors
stay inside them, exactly when the narrowing of `section_opt!` loses nothing. -/
theorem parse_contained {boundCount : BoundCount} {buf : List UInt8} {f : HbcFile}
    (h : parse boundCount buf = .ok f) :
    f.Contained ↔ f.header.regExpCount * 8 ≤ u32Max ∧ f.header.cjsModuleCount * 8 ≤ u32Max := by
  obtain ⟨w, dbg, t⟩ := parse_eq_ok.mp h
  exact ⟨fun hcontained => t.sizes_iff.mp hcontained.sizes,
    fun hfit => t.contained (t.sizes_iff.mpr hfit)⟩

theorem parse_contained_sample : ∃ f, parse checkedBoundCount sampleBuffer = .ok f ∧
    f.Contained := by
  obtain ⟨f, hparse, hcheck⟩ := Loop.exists_of_okAnd
    (x := parse checkedBoundCount sampleBuffer)
    (p := fun f => f.header.regExpCount * 8 ≤ u32Max ∧ f.header.cjsModuleCount * 8 ≤ u32Max)
    (by decide +kernel)
  simp only [decide_eq_true_eq] at hcheck
  exact ⟨f, hparse, (parse_contained hparse).mpr hcheck⟩

/-! ## A table past 4 GiB -/

/-- A header with `2^29 + 1` regexps and nothing else. -/
def overlongLead : List UInt8 := sampleHeader 40 [0, 0, 0, 0, 0, 0, 0, 0, 2 ^ 29 + 1]

theorem length_overlongLead : overlongLead.length = 128 := by
  rfl

/-- The table of `2^29 + 1` entries, of which the first two are given. -/
def overlongBuffer (entries : List UInt8) : List UInt8 :=
  (overlongLead ++ entries) ++ List.replicate (2 ^ 32 - 8) 0

theorem readU32_append {a b : List UInt8} {offset : Nat} (h : offset + 4 ≤ a.length) :
    readU32 (a ++ b) offset = readU32 a offset := by
  have hlen : offset + 4 ≤ (a ++ b).length := by
    rw [List.length_append]
    omega
  rw [readU32_eq_ofLE h, readU32_eq_ofLE hlen]
  congr 1
  simp only [slice, List.drop_append_of_le_length (show offset ≤ a.length by omega)]
  rw [List.take_append_of_le_length]
  simp only [List.length_drop]
  omega

theorem overlongBuffer_length {entries : List UInt8} (h : entries.length = 16) :
    (overlongBuffer entries).length = 4294967432 := by
  simp only [overlongBuffer, List.length_append, List.length_replicate, h]
  rw [length_overlongLead]
  norm_num

theorem readU32_overlongBuffer {entries : List UInt8} {offset : Nat} (h : offset + 4 ≤ 128) :
    readU32 (overlongBuffer entries) offset = readU32 overlongLead offset := by
  have hlead := length_overlongLead
  rw [overlongBuffer, List.append_assoc, readU32_append (by omega)]

def overlongHeader : HbcHeader := .preV84 (parsePreV84 overlongLead 40)

theorem parseHbcHeader_overlong {entries : List UInt8} (h : entries.length = 16) :
    parseHbcHeader (overlongBuffer entries) = .ok overlongHeader := by
  have hversion : readU32 (overlongBuffer entries) 8 = 40 := by
    rw [readU32_overlongBuffer (by decide)]
    decide
  have hheader : overlongHeader = .preV84 (parsePreV84 (overlongBuffer entries)
      (readU32 (overlongBuffer entries) 8)) := by
    rw [hversion, overlongHeader]
    simp (disch := decide) only [parsePreV84, readU32_overlongBuffer]
  have hmagic : slice (overlongBuffer entries) 0 8 = slice overlongLead 0 8 := by
    rw [overlongBuffer, List.append_assoc]
    simp only [slice, List.drop_zero]
    rw [List.take_append_of_le_length (by rw [length_overlongLead]; decide)]
  refine parseHbcHeader_eq_ok.mpr ⟨?_, ?_, ?_⟩
  · rw [overlongBuffer_length h]
    decide
  · rw [hmagic]
    decide
  · rw [hheader]
    exact .preV84 (by omega) (by omega)

/-- The file is accepted with a table of eight bytes. -/
theorem parse_overlong {entries : List UInt8} (h : entries.length = 16) :
    ∃ f, parse checkedBoundCount (overlongBuffer entries) = .ok f ∧ f.header = overlongHeader ∧
      f.buf = overlongBuffer entries ∧ f.regexpTable = ⟨128, 8⟩ ∧
      f.sectionSpan .regExpTable = ⟨128, 8⟩ := by
  obtain ⟨w, hwalk, hcheck⟩ := Loop.exists_of_okAnd (x := walkSections overlongHeader 4294967432)
    (p := fun w => w.span .regExpTable = ⟨128, 8⟩) (by decide)
  simp only [decide_eq_true_eq] at hcheck
  have hlen := overlongBuffer_length h
  let f : HbcFile := { selectedFile (overlongBuffer entries) overlongHeader w none with
    unrecognizedFunctions := [] }
  have hcount : overlongHeader.functionCount = 0 := by decide
  have hstrings : overlongHeader.overflowStringCount ≤ overlongHeader.stringCount := by
    decide
  have hdebug : overlongHeader.debugInfoOffset = 0 := by decide
  have hgates : checkCountGates checkedBoundCount 4294967432 (countGates overlongHeader) =
      .ok () := by decide
  have hnone : f.functionCount = 0 := hcount
  have t : ParseTrace checkedBoundCount (overlongBuffer entries) f w none := {
    header_ok := parseHbcHeader_overlong h
    overflow_le := hstrings
    gates_ok := by
      rw [hlen]
      exact hgates
    walk_ok := by
      rw [hlen]
      exact hwalk
    debug_ok := by
      show debugInfoV96Parse _ overlongHeader.debugInfoOffset _ = _
      rw [hdebug]
      rfl
    file_eq := rfl
    validated := by
      simp only [HbcFile.validateFunctionRegions, HbcFile.pass1, HbcFile.pass3, hnone,
        Loop.forRange_zero]
      rfl }
  exact ⟨f, parse_eq_ok.mpr ⟨w, none, t⟩, rfl, rfl, t.regexpTable_eq.trans hcheck,
    (t.sectionSpan_eq _).trans hcheck⟩

/-- Two tables that differ in their second entry agree on their first. -/
theorem overlongBuffer_agreeOn {first second second' : List UInt8} (hfirst : first.length = 8)
    (hlen : second.length = second'.length) :
    AgreeOn 128 136 (overlongBuffer (first ++ second)) (overlongBuffer (first ++ second')) := by
  have hlead := length_overlongLead
  constructor
  · simp only [overlongBuffer, List.length_append, hlen]
  · intro p _ hp
    have hin : p < (overlongLead ++ first).length := by
      rw [List.length_append]
      omega
    simp only [overlongBuffer, ← List.append_assoc _ first]
    rw [List.append_assoc _ second, List.append_assoc _ second', List.getElem?_append_left hin,
      List.getElem?_append_left hin]

def blankEntry : List UInt8 := List.replicate 8 0

def markedEntry : List UInt8 := [1, 0, 0, 0, 0, 0, 0, 0]

/-- In a table past 4 GiB the accessor reads outside the recorded section. -/
theorem overlong_not_contained : ∃ f,
    parse checkedBoundCount (overlongBuffer (blankEntry ++ blankEntry)) = .ok f ∧
    f.sectionSpan .regExpTable = ⟨128, 8⟩ ∧ f.header.regExpCount * 8 = 2 ^ 32 + 8 ∧
    ¬ f.ReadsOnly (f.sectionSpan .regExpTable) (·.regexpGet 1) ∧ ¬ f.Contained := by
  obtain ⟨f, hparse, hheader, hbuf, htable, hspan⟩ :=
    parse_overlong (show (blankEntry ++ blankEntry).length = 16 by decide)
  have hcount : f.header.regExpCount = 2 ^ 29 + 1 := by
    rw [hheader]
    decide
  have hword : ∀ entries : List UInt8, entries.length = 16 →
      readU32 (overlongBuffer entries) 136 = readU32 (overlongLead ++ entries) 136 := by
    intro entries hentries
    have hlead := length_overlongLead
    rw [overlongBuffer, readU32_append]
    rw [List.length_append]
    omega
  have hget : ∀ entries : List UInt8, entries.length = 16 →
      ({ f with buf := overlongBuffer entries }.regexpGet 1).map RegExpData.offset =
        some (readU32 (overlongLead ++ entries) 136) := by
    intro entries hentries
    have hin : ¬ (1 ≥ 2 ^ 29 + 1 ∨ (8 : Nat) = 0) := by decide
    simp only [HbcFile.regexpGet, wordPairGet, hcount, htable, hin, if_false, Option.map_some]
    rw [← hword entries hentries]
  have hreads : ¬ f.ReadsOnly (f.sectionSpan .regExpTable) (·.regexpGet 1) := by
    intro honly
    rw [hspan] at honly
    have hagree := overlongBuffer_agreeOn (show blankEntry.length = 8 by decide)
      (show markedEntry.length = blankEntry.length by decide)
    rw [← hbuf] at hagree
    have hsame := congrArg (Option.map RegExpData.offset) (honly _ hagree)
    have hzero := hget (blankEntry ++ blankEntry) (by decide)
    rw [← hbuf] at hzero
    rw [hget _ (by decide)] at hsame
    have hne : readU32 (overlongLead ++ (blankEntry ++ markedEntry)) 136 ≠
        readU32 (overlongLead ++ (blankEntry ++ blankEntry)) 136 := by
      decide
    exact hne (Option.some.inj (hsame.trans hzero))
  refine ⟨f, hparse, hspan, by rw [hcount]; decide, hreads, fun hcontained => ?_⟩
  exact hreads (hcontained.regexps 1 (by rw [hcount]; decide))

end Hermes
