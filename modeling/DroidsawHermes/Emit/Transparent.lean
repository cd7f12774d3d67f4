-- SUMMARY: Emit is transparent: each pipeline writes back the parsed buffer with the length word and, without bigints, one more word recomputed.
import DroidsawHermes.Emit.Pipelines

/-!
# Transparency of emit

The output of a pipeline is its header followed by consecutive slices of the
source buffer, which join to the source bytes from 128 on. The header is the
source's own, but for the word at 32 and the bigint storage size at 68.
-/

open Bytes

namespace Hermes

-- ---------------------------------------------------------------------------
-- The shared body
-- ---------------------------------------------------------------------------

theorem getOrShort_of_le {src : List UInt8} {i j : Nat} (hij : i ≤ j) (hj : j ≤ src.length) :
    getOrShort src i j = .ok (slice src i j) := by
  simp only [getOrShort, get?_of_le hij hj]

/-- Where the emitted tables lie, with `before` the end of the one before. -/
structure TableAt (src : List UInt8) (before count start : Nat)
    (emit : Except HermesEmitError (List UInt8)) : Prop where
  after : before ≤ start
  inside : start + count * 8 ≤ src.length
  emits : emit = .ok (slice src start (start + count * 8))

/-- A table and its gap, present or not, continue the copy of the source. -/
theorem emitWithGap_spec {src : List UInt8} {before count start : Nat}
    (sectionName context : String) {emit : Except HermesEmitError (List UInt8)} (hmax : src.length ≤ u32Max)
    (hbefore : before ≤ src.length) (htable : count > 0 → TableAt src before count start emit) :
    ∃ stop, tableEnd sectionName context count 8 start before = .ok stop ∧
      emitWithGap src count before start emit = .ok (slice src before stop) ∧
      before ≤ stop ∧ stop ≤ src.length ∧
      ¬ (count > 0 ∧ (start < before ∨ stop > src.length)) := by
  by_cases hcount : count > 0
  · obtain ⟨hafter, hinside, hemit⟩ := htable hcount
    have hsize : count * 8 ≤ u64Max := by
      simp only [u32Max, u64Max] at *
      omega
    have hend : start + count * 8 ≤ u64Max := by
      simp only [u32Max, u64Max] at *
      omega
    refine ⟨start + count * 8, ?_, ?_, by omega, hinside, by omega⟩
    · simp only [tableEnd, hcount, if_true, sectionBytesUsize, checkedU64_of_le hsize, Loop.ok_bind,
        checkedU64_of_le hend]
    · have hgap := getOrShort_of_le hafter (Nat.le_trans (Nat.le_add_right _ _) hinside)
      simp only [emitWithGap, hcount, if_true, hemit, hgap, Loop.ok_bind]
      rw [slice_append_slice hafter (by omega)]
  · refine ⟨before, ?_, ?_, Nat.le_refl _, hbefore, by omega⟩
    · simp only [tableEnd, hcount, if_false]
    · simp only [emitWithGap, hcount, if_false, slice_eq_nil (Nat.le_refl before)]

/-- The body of a pipeline is its header and the source from byte 128 on. -/
theorem emitSections_eq {f : HbcFile} {reason : String}
    {emitHeader : List UInt8 → Nat → Except HermesEmitError (List UInt8)}
    {emitFunctionHeaders : Except HermesEmitError (List UInt8)} {extra : ExtraTable}
    {header : List UInt8} (hmarks : f.unrecognizedFunctions = [])
    (hlen : headerSize ≤ f.buf.length) (hmax : f.buf.length ≤ u32Max)
    (hheader : emitHeader f.buf f.buf.length = .ok header)
    (hstart : f.funcHeaders.start = headerSize)
    (hfh : emitFunctionHeaders = .ok (slice f.buf f.funcHeaders.start
      (f.funcHeaders.start + f.functionCount * f.funcHeaderSize)))
    (hfhEnd : f.funcHeaders.start + f.functionCount * f.funcHeaderSize ≤ f.smallStringTable.start)
    (hsst : emitSmallStringTableV96 f = .ok (slice f.buf f.smallStringTable.start
      (f.smallStringTable.start + f.stringCount * 4)))
    (hsstEnd : f.smallStringTable.start + f.stringCount * 4 ≤ f.buf.length)
    (host : f.header.overflowStringCount > 0 →
      TableAt f.buf (f.smallStringTable.start + f.stringCount * 4) f.header.overflowStringCount
        f.overflowStringTable.start (emitOverflowStringTableV96 f))
    (hextra : extra.count > 0 → ∀ ostEnd,
      tableEnd "OverflowStringTable" "OverflowStringTable end" f.header.overflowStringCount 8
        f.overflowStringTable.start (f.smallStringTable.start + f.stringCount * 4) = .ok ostEnd →
      TableAt f.buf ostEnd extra.count extra.start extra.emit) :
    emitSections f reason emitHeader emitFunctionHeaders extra =
      .ok (header ++ f.buf.drop headerSize) := by
  obtain ⟨ostEnd, hostEnd, hostEmit, hostLo, hostHi, hostOk⟩ :=
    emitWithGap_spec "OverflowStringTable" "OverflowStringTable end" hmax hsstEnd host
  obtain ⟨extraEnd, hextraEnd, hextraEmit, hextraLo, hextraHi, hextraOk⟩ :=
    emitWithGap_spec extra.sectionName extra.endContext hmax hostHi
      (fun hpos => hextra hpos ostEnd hostEnd)
  have hmax' : f.buf.length ≤ u64Max := Nat.le_trans hmax (by decide)
  have hlen' : ¬ f.buf.length < headerSize := by omega
  have hmaxNot : ¬ f.buf.length > u32Max := by omega
  have hreject : rejectIfUnrecognized f = .ok () := by
    simp [rejectIfUnrecognized, hmarks]
  have hfhSize : f.functionCount * f.funcHeaderSize ≤ u64Max := by omega
  have hfhStop : f.funcHeaders.start + f.functionCount * f.funcHeaderSize ≤ u64Max := by omega
  have hsstSize : f.stringCount * 4 ≤ u64Max := by omega
  have hsstStop : f.smallStringTable.start + f.stringCount * 4 ≤ u64Max := by omega
  have hlayout : ¬ (f.funcHeaders.start < headerSize ∨
      f.funcHeaders.start + f.functionCount * f.funcHeaderSize > f.buf.length ∨
      f.smallStringTable.start < f.funcHeaders.start + f.functionCount * f.funcHeaderSize ∨
      f.smallStringTable.start + f.stringCount * 4 > f.buf.length ∨
      (f.header.overflowStringCount > 0 ∧
        (f.overflowStringTable.start < f.smallStringTable.start + f.stringCount * 4 ∨
          ostEnd > f.buf.length)) ∨
      (extra.count > 0 ∧ (extra.start < ostEnd ∨ extraEnd > f.buf.length))) := by
    simp only [not_or]
    exact ⟨by omega, by omega, by omega, by omega, hostOk, hextraOk⟩
  have hstartLe : f.funcHeaders.start ≤ f.buf.length := by omega
  have hsstLe : f.smallStringTable.start ≤ f.buf.length := by omega
  have hpreFh := getOrShort_of_le (Nat.le_of_eq hstart.symm) hstartLe
  have hpreSst := getOrShort_of_le hfhEnd hsstLe
  have hrest := getOrShort_of_le hextraHi (Nat.le_refl f.buf.length)
  simp only [emitSections, hreject, Loop.ok_bind, hlen', if_false, fileLengthU32, hmaxNot, hheader,
    sectionBytesUsize, checkedU64_of_le hfhSize, checkedU64_of_le hfhStop,
    checkedU64_of_le hsstSize, checkedU64_of_le hsstStop, hostEnd, hextraEnd, hlayout,
    hpreFh, hfh, hpreSst, hsst, hostEmit, hextraEmit, hrest, List.append_assoc]
  rw [slice_append_slice hextraLo hextraHi, slice_append_slice hostLo (by omega),
    slice_append_slice (by omega) (by omega), slice_append_slice hfhEnd (by omega),
    slice_append_slice (by omega) (by omega), slice_append_slice (by omega) (by omega),
    slice_length_eq_drop]

-- ---------------------------------------------------------------------------
-- Headers
-- ---------------------------------------------------------------------------

/-- The layouts with a bigint pair, in a file without bigints. -/
def HbcFile.DropsBigIntSize (f : HbcFile) : Prop :=
  f.header.layout.hasBigIntPair = true ∧ f.header.bigIntCount = 0

instance (f : HbcFile) : Decidable f.DropsBigIntSize :=
  inferInstanceAs (Decidable (_ ∧ _))

/-- The bytes 68..72 of the output. -/
def bigIntWord (f : HbcFile) (buf : List UInt8) : List UInt8 :=
  if f.DropsBigIntSize then leBytes 4 0 else slice buf 68 72

/-- The header of the output: the source's, but for the words at 32 and 68. -/
def rewrittenHeader (f : HbcFile) (buf : List UInt8) : List UInt8 :=
  slice buf 0 32 ++ leBytes 4 buf.length ++ slice buf 36 68 ++ bigIntWord f buf ++ slice buf 72 128

/-- A header word, written back. -/
private theorem leBytes_headerWord {buf : List UInt8} (hlen : headerSize ≤ buf.length) {k : Nat}
    (hk : k ≤ 124) : leBytes 4 (readU32 buf k) = slice buf k (k + 4) := by
  simp only [headerSize] at hlen
  exact leBytes_readU32 (by omega)

variable {boundCount : BoundCount} {buf : List UInt8} {f : HbcFile} {w : SectionWalk}
  {dbg : Option DebugInfoV96}

/-- The bytes 0..8 and 8..12, and the words 40..64. -/
private theorem header_common (t : ParseTrace boundCount buf f w dbg) :
    leBytes 8 hbcMagic = slice buf 0 8 ∧ leBytes 4 f.version = slice buf 8 12 ∧
      commonWords f = slice buf 40 64 := by
  have hlen := t.length_ge
  have hc := t.headerOf.common
  have hw : ∀ {k : Nat}, k ≤ 124 → leBytes 4 (readU32 buf k) = slice buf k (k + 4) :=
    fun hk => leBytes_headerWord hlen hk
  have hmagic := (parseHbcHeader_eq_ok.mp t.header_ok).2.1
  have height : 0 + 8 ≤ buf.length := by
    simp only [headerSize] at hlen
    omega
  refine ⟨?_, ?_, ?_⟩
  · rw [← hmagic]
    exact leBytes_slice height
  · rw [HbcFile.version, hc.version]
    exact hw (by decide)
  · simp only [commonWords, u32Words, List.flatMap_cons, List.flatMap_nil, List.append_nil,
      HbcFile.functionCount, HbcFile.stringCount, hc.functionCount, hc.stringKindCount,
      hc.identifierCount, hc.stringCount, hc.overflowStringCount, hc.stringStorageSize, hw,
      Nat.reduceLeDiff, Nat.reduceAdd, slice_append_slice]

/-- The bigint storage size as the header emitters write it. -/
private theorem bigIntStorage_word (t : ParseTrace boundCount buf f w dbg)
    (hpair : f.header.layout.hasBigIntPair = true)
    (hsize : f.header.bigIntStorageSize = readU32 buf 68) :
    leBytes 4 f.bigIntStorage.size = bigIntWord f buf := by
  rw [t.bigIntStorage_size hpair, bigIntWord]
  by_cases hzero : f.header.bigIntCount = 0
  · rw [if_pos hzero, if_pos ⟨hpair, hzero⟩]
  · rw [if_neg hzero, if_neg fun h => hzero h.2, hsize]
    exact leBytes_headerWord t.length_ge (by decide)

/-- The count word of the bigint pair joins the words before it. -/
private theorem slice_bigIntCount (buf : List UInt8) (rest : List UInt8) :
    slice buf 36 64 ++ (slice buf 64 68 ++ rest) = slice buf 36 68 ++ rest := by
  rw [← List.append_assoc, slice_append_slice (by decide) (by decide)]

/-- The header reads of the emitters stay inside the header. -/
private theorem getOrShort_header (hlen : headerSize ≤ buf.length) {i j : Nat} (hij : i ≤ j)
    (hj : j ≤ 128) : getOrShort buf i j = .ok (slice buf i j) := by
  simp only [headerSize] at hlen
  exact getOrShort_of_le hij (by omega)

theorem emitHeaderV96_eq (t : ParseTrace boundCount buf f w dbg) (hv : f.version = 96) :
    emitHeaderV96 f buf buf.length = .ok (rewrittenHeader f buf) := by
  have hlen := t.length_ge
  obtain ⟨hmagic, hversion, hcommon⟩ := header_common t
  have hheader := t.headerOf.eq_v87to96 hv
  have hlayout : f.header.layout = .v87to96 := by rw [hheader]; rfl
  have hw : ∀ {k : Nat}, k ≤ 124 → leBytes 4 (readU32 buf k) = slice buf k (k + 4) :=
    fun hk => leBytes_headerWord hlen hk
  have hbig := bigIntStorage_word t (by rw [hlayout]; rfl) (by rw [hheader]; rfl)
  have hvalue := t.objValueBuffer_size (by rw [hlayout]; rfl)
  rw [hv] at hversion
  simp only [emitHeaderV96, getOrShort_header hlen, Nat.reduceLeDiff, Loop.ok_bind, hmagic,
    HbcVersion.version, hversion, hcommon, u32Words, List.flatMap_cons, List.flatMap_nil,
    List.append_nil, hbig, t.arrayBuffer_size, t.objKeyBuffer_size, hvalue]
  simp only [hheader, HbcHeader.bigIntCount, HbcHeader.regExpCount, HbcHeader.regExpStorageSize,
    HbcHeader.arrayBufferSize, HbcHeader.objKeyBufferSize, HbcHeader.objValueBufferSize,
    HbcHeader.cjsModuleCount, HbcHeader.functionSourceCount, HbcHeader.debugInfoOffset,
    parseV87to96, hw, Nat.reduceLeDiff, Nat.reduceAdd, List.append_assoc, slice_append_slice,
    slice_bigIntCount, rewrittenHeader]

theorem emitHeaderV98_eq (t : ParseTrace boundCount buf f w dbg)
    (hv : f.version = 98 ∨ f.version = 99) :
    emitHeaderV98 f buf buf.length = .ok (rewrittenHeader f buf) := by
  have hlen := t.length_ge
  obtain ⟨hmagic, hversion, hcommon⟩ := header_common t
  have hw : ∀ {k : Nat}, k ≤ 124 → leBytes 4 (readU32 buf k) = slice buf k (k + 4) :=
    fun hk => leBytes_headerWord hlen hk
  rcases t.headerOf.eq_v98_or_v99 hv with hheader | hheader
  · have hlayout : f.header.layout = .v97toV98Early := by rw [hheader]; rfl
    have hbig := bigIntStorage_word t (by rw [hlayout]; rfl) (by rw [hheader]; rfl)
    simp only [emitHeaderV98, hlayout, HeaderLayout.hasNumStringSwitchImms, Bool.false_eq_true,
      if_false, getOrShort_header hlen, Nat.reduceLeDiff, Nat.reduceAdd, Loop.ok_bind, hmagic,
      hversion, hcommon, u32Words, List.flatMap_cons, List.flatMap_nil, List.append_nil, hbig,
      t.arrayBuffer_size, t.objKeyBuffer_size]
    simp only [hheader, HbcHeader.bigIntCount, HbcHeader.regExpCount, HbcHeader.regExpStorageSize,
      HbcHeader.arrayBufferSize, HbcHeader.objKeyBufferSize, HbcHeader.objShapeTableCount,
      HbcHeader.cjsModuleCount, HbcHeader.functionSourceCount, HbcHeader.debugInfoOffset,
      parseV97toV98Early, hw, Nat.reduceLeDiff, Nat.reduceAdd, List.append_assoc,
      slice_append_slice, slice_bigIntCount, rewrittenHeader]
  · have hlayout : f.header.layout = .v98LateToV99 := by rw [hheader]; rfl
    have hbig := bigIntStorage_word t (by rw [hlayout]; rfl) (by rw [hheader]; rfl)
    simp only [emitHeaderV98, hlayout, HeaderLayout.hasNumStringSwitchImms, if_true,
      getOrShort_header hlen, Nat.reduceLeDiff, Nat.reduceAdd, Loop.ok_bind, hmagic, hversion,
      hcommon, u32Words, List.flatMap_cons, List.flatMap_nil, List.append_nil, hbig,
      t.arrayBuffer_size, t.objKeyBuffer_size]
    simp only [hheader, HbcHeader.bigIntCount, HbcHeader.regExpCount, HbcHeader.regExpStorageSize,
      HbcHeader.arrayBufferSize, HbcHeader.objKeyBufferSize, HbcHeader.objShapeTableCount,
      HbcHeader.cjsModuleCount, HbcHeader.functionSourceCount, HbcHeader.debugInfoOffset,
      parseV98LateToV99, hw, Nat.reduceLeDiff, Nat.reduceAdd, List.append_assoc,
      slice_append_slice, slice_bigIntCount, rewrittenHeader]

theorem emitHeaderV84_eq (t : ParseTrace boundCount buf f w dbg) (hv : f.version = 84) :
    emitHeaderV84 f buf buf.length = .ok (rewrittenHeader f buf) := by
  have hlen := t.length_ge
  obtain ⟨hmagic, hversion, hcommon⟩ := header_common t
  have hheader := t.headerOf.eq_v84to86 hv
  have hlayout : f.header.layout = .v84to86 := by rw [hheader]; rfl
  have hw : ∀ {k : Nat}, k ≤ 124 → leBytes 4 (readU32 buf k) = slice buf k (k + 4) :=
    fun hk => leBytes_headerWord hlen hk
  have hbig : bigIntWord f buf = slice buf 68 72 := by
    simp [bigIntWord, HbcFile.DropsBigIntSize, hlayout, HeaderLayout.hasBigIntPair]
  have hvalue := t.objValueBuffer_size (by rw [hlayout]; rfl)
  simp only [emitHeaderV84, getOrShort_header hlen, Nat.reduceLeDiff, Loop.ok_bind, hmagic,
    hversion, hcommon, u32Words, List.flatMap_cons, List.flatMap_nil, List.append_nil,
    t.arrayBuffer_size, t.objKeyBuffer_size, hvalue]
  simp only [hheader, HbcHeader.regExpCount, HbcHeader.regExpStorageSize,
    HbcHeader.arrayBufferSize, HbcHeader.objKeyBufferSize, HbcHeader.objValueBufferSize,
    HbcHeader.cjsModuleCount, HbcHeader.functionSourceCount, HbcHeader.debugInfoOffset,
    parseV84to86, hw, Nat.reduceLeDiff, Nat.reduceAdd, List.append_assoc, slice_append_slice,
    rewrittenHeader]
  rw [hbig, slice_append_slice (by decide) (by decide), slice_append_slice (by decide) (by decide)]

-- ---------------------------------------------------------------------------
-- Tables
-- ---------------------------------------------------------------------------

/-- The leading tables lie one after the other inside the buffer. -/
private theorem leading_tables (t : ParseTrace boundCount buf f w dbg) :
    f.funcHeaders.start = headerSize ∧
      f.funcHeaders.start + f.functionCount * f.funcHeaderSize ≤ f.smallStringTable.start ∧
      f.smallStringTable.stop ≤ f.overflowStringTable.start ∧
      f.overflowStringTable.stop ≤ f.buf.length := by
  have hd := t.done
  have hfh := (hd.span_required (sectionPlan_functionHeaders f.header)).1
  have hsst := (hd.span_required (sectionPlan_smallStringTable f.header)).1
  have host := (hd.span_required (sectionPlan_overflowStringTable f.header)).1
  have h₁ := hd.stop_le_start hfh hsst (by simp [SectionName.rank])
  have h₂ := hd.stop_le_start hsst host (by simp [SectionName.rank])
  have h₃ := hd.placed.stop_le_bufLen _ host
  rw [← t.funcHeaders_eq, ← t.smallStringTable_eq, t.funcHeaders_span] at h₁
  rw [← t.smallStringTable_eq, ← t.overflowStringTable_eq] at h₂
  rw [← t.overflowStringTable_eq] at h₃
  rw [t.funcHeaders_span, t.buf_eq]
  exact ⟨rfl, h₁, h₂, h₃⟩

/-- A recorded table past the overflow strings lies after them, inside the buffer. -/
private theorem late_table (t : ParseTrace boundCount buf f w dbg) {name : SectionName}
    (hmem : ⟨name, w.span name⟩ ∈ w.sections) (hrank : 5 < name.rank) :
    f.overflowStringTable.stop ≤ (w.span name).start ∧ (w.span name).stop ≤ f.buf.length := by
  have hd := t.done
  have host := (hd.span_required (sectionPlan_overflowStringTable f.header)).1
  have hle := hd.stop_le_start host hmem hrank
  rw [← t.overflowStringTable_eq] at hle
  rw [t.buf_eq]
  exact ⟨hle, hd.placed.stop_le_bufLen _ hmem⟩

/-- The regexp table of a file with regexps; its count is small, as its gate accepted it. -/
private theorem regexp_table (t : ParseTrace boundCount buf f w dbg) (spec : boundCount.Spec)
    (hmax : buf.length ≤ u32Max) (hpos : f.header.regExpCount > 0) :
    ⟨.regExpTable, w.span .regExpTable⟩ ∈ w.sections ∧
      f.regexpTable.size = f.header.regExpCount * 8 := by
  have hgate : f.header.regExpCount * 8 ≤ buf.length :=
    spec.gate_le t.gates_ok ⟨f.header.regExpCount, 8, "regexp_table"⟩ (by simp [countGates])
  have hmod : f.header.regExpCount * 8 % 2 ^ 32 = f.header.regExpCount * 8 := by
    apply Nat.mod_eq_of_lt
    simp only [u32Max] at hmax
    omega
  have hplan : ⟨.regExpTable, f.header.regExpCount * 8, true⟩ ∈ sectionPlan f.header := by
    simp [sectionPlan]
  have hrec : PlannedSection.recorded ⟨.regExpTable, f.header.regExpCount * 8, true⟩ = true := by
    simp only [PlannedSection.recorded, PlannedSection.fileSize, if_true, hmod]
    simp only [Bool.not_true, Bool.false_or, decide_eq_true_eq]
    omega
  have hmem : (SectionName.regExpTable, f.header.regExpCount * 8) ∈
      recordedSizes (sectionPlan f.header) := by
    have := List.mem_map_of_mem (f := fun p : PlannedSection => (p.name, p.fileSize))
      (List.mem_filter.mpr ⟨hplan, hrec⟩)
    simpa only [recordedSizes, PlannedSection.fileSize, if_true, hmod] using this
  rw [t.regexpTable_eq]
  exact t.done.span_recorded hmem

/-- The end of the overflow strings, as the pipelines compute it, is at or before the table. -/
private theorem tableEnd_ost_le (t : ParseTrace boundCount buf f w dbg) {ostEnd : Nat}
    (h : tableEnd "OverflowStringTable" "OverflowStringTable end" f.header.overflowStringCount 8
      f.overflowStringTable.start (f.smallStringTable.start + f.stringCount * 4) = .ok ostEnd) :
    ostEnd ≤ f.overflowStringTable.stop := by
  obtain ⟨-, -, hsst, -⟩ := leading_tables t
  simp only [Span.stop, t.smallStringTable_size, t.overflowStringTable_size] at hsst ⊢
  simp only [tableEnd, sectionBytesUsize, checkedU64] at h
  split at h
  · split at h
    · simp only [Loop.ok_bind] at h
      split at h
      · cases h
        exact Nat.le_refl _
      · cases h
    · cases h
  · cases h
    omega

-- ---------------------------------------------------------------------------
-- The pipelines
-- ---------------------------------------------------------------------------

/-- The body of a pipeline on an accepted file, from its header, its function
headers and its last table. -/
private theorem emitSections_parsed (t : ParseTrace boundCount buf f w dbg) {reason : String}
    {emitHeader : List UInt8 → Nat → Except HermesEmitError (List UInt8)}
    {emitFunctionHeaders : Except HermesEmitError (List UInt8)} {extra : ExtraTable}
    (hmax : buf.length ≤ u32Max) (hmarks : f.unrecognizedFunctions = [])
    (hformat : requireSharedTableFormat f = .ok ())
    (hheader : emitHeader buf buf.length = .ok (rewrittenHeader f buf))
    (hfh : emitFunctionHeaders = .ok (slice f.buf f.funcHeaders.start
      (f.funcHeaders.start + f.functionCount * f.funcHeaderSize)))
    (hextra : extra.count > 0 → TableAt f.buf f.overflowStringTable.stop extra.count extra.start
      extra.emit) :
    emitSections f reason emitHeader emitFunctionHeaders extra =
      .ok (rewrittenHeader f buf ++ buf.drop headerSize) := by
  obtain ⟨hstart, hfhEnd, hsstEnd, hostEnd⟩ := leading_tables t
  have hsst := emitSmallStringTableV96_eq hformat t.smallStringTable_size
    (by simp only [Span.stop] at *; omega)
  have host := emitOverflowStringTableV96_eq hformat t.overflowStringTable_size hostEnd
  have hostSize := t.overflowStringTable_size
  have hsstSize := t.smallStringTable_size
  simp only [Span.stop, hsstSize, hostSize] at hsstEnd hostEnd
  rw [← t.buf_eq] at hheader hmax ⊢
  apply emitSections_eq hmarks (by rw [t.buf_eq]; exact t.length_ge) hmax hheader hstart hfh hfhEnd
    hsst (by omega)
  · exact fun _ => ⟨hsstEnd, hostEnd, host⟩
  · intro hpos ostEnd hend
    obtain ⟨hafter, hinside, hemit⟩ := hextra hpos
    exact ⟨Nat.le_trans (tableEnd_ost_le t hend) hafter, hinside, hemit⟩

/-- The header variants of version 98 and 99. -/
theorem ParseTrace.v98Layout (t : ParseTrace boundCount buf f w dbg)
    (hv : f.version = 98 ∨ f.version = 99) : V98Layout f ∧ f.funcHeaderSize = 12 := by
  rcases t.headerOf.eq_v98_or_v99 hv with h | h
  · refine ⟨.inl ⟨_, h, rfl⟩, ?_⟩
    rw [HbcFile.funcHeaderSize, h]
    rfl
  · refine ⟨.inr ⟨_, h, ?_⟩, ?_⟩
    · rwa [HbcFile.version, h] at hv
    · rw [HbcFile.funcHeaderSize, h]
      rfl

/-- Every pipeline writes the rewritten header and then the source from byte 128 on. -/
theorem HbcVersion.emit_eq (t : ParseTrace boundCount buf f w dbg) (spec : boundCount.Spec)
    (hmax : buf.length ≤ u32Max) (hmarks : f.unrecognizedFunctions = []) {V : HbcVersion}
    (hv : f.version = V.version) :
    V.emit f = .ok (rewrittenHeader f buf ++ buf.drop headerSize) := by
  have hfhLe := t.funcHeaders_le
  have hfhStart : f.funcHeaders.start = 128 := by rw [t.funcHeaders_span]
  cases V with
  | v84 =>
    have hv' : f.version = 84 := hv
    have hformat : requireSharedTableFormat f = .ok () := by simp [requireSharedTableFormat, hv']
    have hlayout : f.header.layout = .v84to86 := by rw [t.headerOf.eq_v84to86 hv']; rfl
    have hsize : f.funcHeaderSize = 16 := by rw [HbcFile.funcHeaderSize, hlayout]; rfl
    simp only [HbcVersion.emit, emitHbcV84, hv, ne_eq, not_true_eq_false, if_false]
    apply emitSections_parsed t hmax hmarks hformat (emitHeaderV84_eq t hv')
    · rw [hsize] at hfhLe ⊢
      exact emitFunctionHeadersV96_eq (by simp [requireV84OrV96, hv']) (.inl hlayout)
        (by rw [hfhStart]; exact hfhLe)
    · intro hpos
      obtain ⟨hmem, hregSize⟩ := regexp_table t spec hmax hpos
      obtain ⟨hafter, hinside⟩ := late_table t hmem (by simp [SectionName.rank])
      rw [← t.regexpTable_eq] at hafter hinside
      have hemit := emitRegexpTableV96_eq hformat hregSize hinside
      simp only [Span.stop, hregSize] at hinside
      exact ⟨hafter, hinside, hemit⟩
  | v96 =>
    have hv' : f.version = 96 := hv
    have hformat : requireSharedTableFormat f = .ok () := by simp [requireSharedTableFormat, hv']
    have hlayout : f.header.layout = .v87to96 := by rw [t.headerOf.eq_v87to96 hv']; rfl
    have hsize : f.funcHeaderSize = 16 := by rw [HbcFile.funcHeaderSize, hlayout]; rfl
    simp only [HbcVersion.emit, emitHbc, hv, ne_eq, not_true_eq_false, if_false]
    apply emitSections_parsed t hmax hmarks hformat (emitHeaderV96_eq t hv')
    · rw [hsize] at hfhLe ⊢
      exact emitFunctionHeadersV96_eq (by simp [requireV84OrV96, hv']) (.inr hlayout)
        (by rw [hfhStart]; exact hfhLe)
    · intro hpos
      cases hpos
  | v98 | v99 =>
    have hv' : f.version = 98 ∨ f.version = 99 := by simp [hv, HbcVersion.version]
    have hformat : requireSharedTableFormat f = .ok () := by
      rcases hv' with h | h <;> simp [requireSharedTableFormat, h]
    have hgate : requireV98OrV99 f = .ok () := by simp [requireV98OrV99, hv']
    obtain ⟨hlayout, hsize⟩ := t.v98Layout hv'
    simp only [HbcVersion.emit, emitHbcV98, emitHbcV99, emitHbcV98OrV99, hv, ne_eq,
      not_true_eq_false, if_false, hgate, Loop.ok_bind]
    apply emitSections_parsed t hmax hmarks hformat (emitHeaderV98_eq t hv')
    · rw [hsize] at hfhLe ⊢
      exact emitFunctionHeadersV98_eq hgate hlayout (by rw [hfhStart]; exact hfhLe)
    · intro hpos
      obtain ⟨hmem, hshapeSize⟩ := t.done.span_required (sectionPlan_objShapeTable hsize hpos)
      obtain ⟨hafter, hinside⟩ := late_table t hmem (by simp [SectionName.rank])
      rw [← t.objShapeTable_eq] at hafter hinside hshapeSize
      have hemit := emitObjShapeTableV98_eq hgate hshapeSize hinside
      simp only [Span.stop, hshapeSize] at hinside
      exact ⟨hafter, hinside, hemit⟩

-- ---------------------------------------------------------------------------
-- Transparency
-- ---------------------------------------------------------------------------

theorem length_bigIntWord (h : headerSize ≤ buf.length) :
    (bigIntWord f buf).length = 4 := by
  simp only [headerSize] at h
  simp only [bigIntWord]
  split
  · exact length_leBytes 4 0
  · rw [length_slice (by omega)]

/-- The source with two words overwritten. -/
def transparentOutput (f : HbcFile) (buf : List UInt8) : List UInt8 :=
  splice (splice buf 32 (leBytes 4 buf.length)) 68 (bigIntWord f buf)

theorem transparentOutput_bounds (hlen : headerSize ≤ buf.length) :
    32 + (leBytes 4 buf.length).length ≤ buf.length ∧
      68 + (bigIntWord f buf).length ≤ (splice buf 32 (leBytes 4 buf.length)).length := by
  have hbig : (bigIntWord f buf).length = 4 := length_bigIntWord hlen
  simp only [headerSize] at hlen
  have h32 : 32 + (leBytes 4 buf.length).length ≤ buf.length := by
    rw [length_leBytes]
    omega
  refine ⟨h32, ?_⟩
  rw [length_splice h32, hbig]
  omega

theorem length_transparentOutput (hlen : headerSize ≤ buf.length) :
    (transparentOutput f buf).length = buf.length := by
  obtain ⟨h32, h68⟩ := transparentOutput_bounds (f := f) hlen
  rw [transparentOutput, length_splice h68, length_splice h32]

/-- The word at 32 is the length of the file. -/
theorem slice_transparentOutput_length (hlen : headerSize ≤ buf.length) :
    slice (transparentOutput f buf) 32 36 = leBytes 4 buf.length := by
  obtain ⟨h32, h68⟩ := transparentOutput_bounds (f := f) hlen
  have hword := slice_splice_self h32
  rw [length_leBytes] at hword
  rw [transparentOutput, slice_splice h68 (.inl (by decide)), hword]

/-- The word at 68 is the one that emit computes. -/
theorem slice_transparentOutput_bigInt (hlen : headerSize ≤ buf.length) :
    slice (transparentOutput f buf) 68 72 = bigIntWord f buf := by
  obtain ⟨-, h68⟩ := transparentOutput_bounds (f := f) hlen
  have hword := slice_splice_self h68
  rw [length_bigIntWord hlen] at hword
  rw [transparentOutput, hword]

/-- What the pipelines write. -/
theorem rewrittenHeader_append (h : headerSize ≤ buf.length) :
    rewrittenHeader f buf ++ buf.drop headerSize =
      transparentOutput f buf := by
  simp only [headerSize] at h ⊢
  have hbig : (bigIntWord f buf).length = 4 := length_bigIntWord h
  have htake : (splice buf 32 (leBytes 4 buf.length)).take 68 =
      slice buf 0 32 ++ leBytes 4 buf.length ++ slice buf 36 68 := by
    have hlen : (buf.take 32 ++ leBytes 4 buf.length).length = 36 := by
      rw [List.length_append, List.length_take, length_leBytes]
      omega
    rw [splice, List.take_append, hlen, List.take_of_length_le (by omega)]
    simp [slice]
  have hdrop : (splice buf 32 (leBytes 4 buf.length)).drop 72 = slice buf 72 128 ++ buf.drop 128 := by
    rw [drop_splice (by rw [length_leBytes]; omega) (by rw [length_leBytes]; omega),
      ← slice_length_eq_drop, ← slice_length_eq_drop, slice_append_slice (by decide) h]
  rw [transparentOutput, splice.eq_1 (splice buf 32 _), htake, hbig, hdrop, rewrittenHeader]
  simp only [List.append_assoc]

/-- Emit writes an accepted buffer back, but for the length word and, without
bigints, for the bigint storage size. -/
theorem emit_transparent {V : HbcVersion} (spec : boundCount.Spec)
    (hparse : parse boundCount buf = .ok f) (hmax : buf.length ≤ u32Max)
    (hv : f.version = V.version) (hmarks : f.unrecognizedFunctions = []) :
    ∃ out, V.emit f = .ok out ∧ out.length = buf.length ∧
      slice out 32 36 = leBytes 4 buf.length ∧
      (f.DropsBigIntSize → slice out 68 72 = leBytes 4 0) ∧
      ∀ i, ¬ (32 ≤ i ∧ i < 36) → ¬ (f.DropsBigIntSize ∧ 68 ≤ i ∧ i < 72) → out[i]? = buf[i]? := by
  obtain ⟨w, dbg, t⟩ := parse_eq_ok.mp hparse
  have hlen := t.length_ge
  obtain ⟨h32, h68⟩ := transparentOutput_bounds (f := f) hlen
  refine ⟨transparentOutput f buf, ?_, length_transparentOutput hlen,
    slice_transparentOutput_length hlen, ?_, ?_⟩
  · rw [HbcVersion.emit_eq t spec hmax hmarks hv, rewrittenHeader_append hlen]
  · intro hdrops
    rw [slice_transparentOutput_bigInt hlen, bigIntWord, if_pos hdrops]
  · intro i hword hdrops
    rw [transparentOutput, getElem?_splice h68, length_bigIntWord hlen]
    split
    · rename_i hi
      have hkeep : ¬ f.DropsBigIntSize := fun h => hdrops ⟨h, hi.1, hi.2⟩
      rw [bigIntWord, if_neg hkeep, getElem?_slice, if_pos (by omega)]
      congr 1
      omega
    · rw [getElem?_splice h32, length_leBytes, if_neg (by omega)]

/-- A v99 file with one function, one string, one shape and no bigints, whose
length word and bigint storage size are both off. -/
def sampleShapeBuffer : List UInt8 :=
  sampleHeader 99 [7, 0, 1, 0, 0, 1, 0, 0, 0, 9, 0, 0, 0, 0, 1]
    ++ [152, 0, 0, 0, 4, 0, 0, 0, 0, 0, 0, 0]
    ++ [0, 0, 0, 0] ++ [5, 0, 0, 0, 6, 0, 0, 0] ++ [1, 2, 3, 4]

theorem emit_transparent_sample : ∃ f out, parse checkedBoundCount sampleShapeBuffer = .ok f ∧
    emitHbcV99 f = .ok out ∧ out.length = 156 ∧ slice out 32 36 = [156, 0, 0, 0] ∧
    slice out 68 72 = [0, 0, 0, 0] ∧ out[151]? = sampleShapeBuffer[151]? := by
  obtain ⟨f, hparse, hcheck⟩ := Loop.exists_of_okAnd
    (x := parse checkedBoundCount sampleShapeBuffer)
    (p := fun f => f.version = 99 ∧ f.unrecognizedFunctions = [] ∧ f.DropsBigIntSize)
    (by decide +kernel)
  simp only [decide_eq_true_eq] at hcheck
  obtain ⟨hv, hmarks, hdrops⟩ := hcheck
  have hlength : sampleShapeBuffer.length = 156 := by decide +kernel
  obtain ⟨out, hemit, hlen, hword, hbig, hrest⟩ := emit_transparent (V := .v99)
    checkedBoundCount_spec hparse (by rw [hlength]; decide) hv hmarks
  rw [hlength] at hlen hword
  exact ⟨f, out, hparse, hemit, hlen, hword, hbig hdrops, hrest 151 (by decide) (by omega)⟩

end Hermes
